import RecordCheck.Command.Run
import RecordCheck.Proofs.Check.Failing
import RecordCheck.Proofs.Files.Placing
import RecordCheck.Proofs.Record.Shape
set_option autoImplicit false

/-!
# Command: what a run changes

A run that is refused prints nothing and leaves the files as they were.  Any other run computes its
text from the files as they were, and only then writes it: that changes the file at the path of the
output, and makes the directories that lead there (`run_touches_only_output`).
-/

namespace RecordCheck

namespace Files.FileSystem

/-- The location is the place of a path that leads to the directory around another path. -/
def LeadsInto (files : FileSystem) (path : String) (location : Location) : Prop :=
  ∃ lead, lead <:+ (names path).reverse ∧ lead.length < (names path).length ∧
    location = files.place (ofReversed lead)

/-- Nothing is changed but the file at a path, which has the text, and directories that lead there
and did not stand. -/
structure Touches (files : FileSystem) (path text : String) (after : FileSystem) : Prop where
  here : after.here = files.here
  unlisted : after.unlisted = files.unlisted
  each : ∀ location, after.stands location = files.stands location ∨
    (location = files.place path ∧
      after.stands location = some (.file (Json.bytesOf text))) ∨
    (files.stands location = none ∧ after.stands location = some .directory ∧
      files.LeadsInto path location)

theorem Touches.of_extends {files after : FileSystem} {path : String}
    (h : files.Extends (files.LeadsInto path) after) (text : String) :
    files.Touches path text after :=
  ⟨h.here, h.unlisted, fun location => (h.each location).imp_right .inr⟩

end Files.FileSystem

namespace Command

open Check Files

variable {files : FileSystem} {path text : String}

/-! ## Writing the output -/

theorem makeParents_extends (files : FileSystem) (path : String) :
    files.Extends (files.LeadsInto path) (makeParents files path).1 := by
  rw [makeParents]
  cases hparent : parentNames? (names path).reverse with
  | none => exact .refl _ _
  | some parent =>
    have hmade : files.Extends (files.LeadsInto path) (files.makeDirectories parent).1 := by
      refine (FileSystem.makeDirectories_extends files parent).mono fun location hlead => ?_
      obtain ⟨lead, hlead, hplace⟩ := hlead
      have hshort := length_parentNames?_lt hparent
      rw [List.length_reverse] at hshort
      exact ⟨lead, hlead.trans (parentNames?_suffix hparent),
        hlead.length_le.trans_lt hshort, hplace⟩
    cases hresult : files.makeDirectories parent with
    | mk made result =>
      rw [hresult] at hmade
      simp only [hresult]
      cases result with
      | error e => exact hmade
      | ok _ => exact hmade

/-- What is written is read back from the path, and nothing else is changed but for directories that
lead there. -/
theorem writeFile_touches (files : FileSystem) (path text : String) :
    files.Touches path text (writeFile files path text).1 ∧
      ((writeFile files path text).2 = .ok () →
        (writeFile files path text).1.read path = .ok text) := by
  have hparents := makeParents_extends files path
  rw [writeFile]
  cases hmade : makeParents files path with
  | mk made result =>
    rw [hmade] at hparents
    cases result with
    | error e => exact ⟨.of_extends hparents text, fun hok => by cases hok⟩
    | ok _ =>
      simp only
      cases hwrite : made.write path text with
      | error e => exact ⟨.of_extends hparents text, fun hok => by cases hok⟩
      | ok written =>
        obtain ⟨hhere, hunlisted, hstands, hread⟩ := FileSystem.read_of_write hwrite
        refine ⟨⟨hhere.trans hparents.here, hunlisted.trans hparents.unlisted, fun location => ?_⟩,
          fun _ => hread⟩
        rw [hstands, FileSystem.place_congr hparents.here]
        split_ifs with hplace
        · exact .inr (.inl ⟨hplace, rfl⟩)
        · exact (hparents.each location).imp_right .inr

theorem putOut_touches (files : FileSystem) (path text : String) (stderr last : List String)
    (passed : Bool) : files.Touches path text
      (putOut files (some path) text stderr last passed).files := by
  have hwritten := (writeFile_touches files path text).1
  rw [putOut]
  split
  next hresult => rwa [hresult] at hwritten
  next hresult => rwa [hresult] at hwritten

theorem read_of_putOut {stderr last : List String} {passed verdict : Bool}
    (h : (putOut files (some path) text stderr last passed).verdict = .ok verdict) :
    (putOut files (some path) text stderr last passed).written = some (path, text) ∧
      (putOut files (some path) text stderr last passed).files.read path = .ok text := by
  have hread := (writeFile_touches files path text).2
  rw [putOut] at h ⊢
  split
  next hresult =>
    simp only [hresult] at h
    exact nomatch h
  next hresult =>
    rw [hresult] at hread
    exact ⟨rfl, hread rfl⟩

/-! ## Runs -/

/-- The run stops before it puts anything out: a shape is asked for that is not declared, or the
inputs fail to load. -/
inductive Refused [Filter.Library] (files : FileSystem) : Command → Prop
  | unknownShape {names : List String} {out : Option String} {name : String} (given : name ∈ names)
      (unknown : RecordShape.ofName? name = none) : Refused files (.shapes names out)
  | notLoaded {inputs : Inputs} {normalize : Bool} {out : Option String}
      (fails : inputs.FailsToLoad files) : Refused files (.check inputs normalize out)

/-- The command asks for a text. -/
def PutsOut : Command → Prop
  | .shapes _ _ => True
  | .check _ normalize _ => normalize = true

/-- The text that a command puts out, of the files as they are: the selected shapes, or the records
that passed. -/
inductive OutputText [Filter.Library] (files : FileSystem) : Command → String → Prop
  | shapes {names : List String} {out : Option String} {selected : List RecordShape}
      (selection : RecordShape.selection names = .ok selected) :
      OutputText files (.shapes names out) (RecordShape.view selected).pretty
  | records {inputs : Inputs} {out : Option String} {decoded : List Decoded}
      (decode : inputs.decode files = .ok decoded) :
      OutputText files (.check inputs true out) (normalized decoded).pretty

/-- The command with its text for standard output. -/
def toStdout : Command → Command
  | .shapes names _ => .shapes names none
  | .check inputs normalize _ => .check inputs normalize none

theorem failed_selection_iff {names : List String} :
    Failed (RecordShape.selection names) ↔ ∃ name ∈ names, RecordShape.ofName? name = none := by
  simp only [RecordShape.ofName?_eq_none_iff]
  constructor
  · rintro ⟨unknown, hfails⟩
    obtain ⟨before, after, rfl, -, hunknown⟩ := RecordShape.selection_eq_error_iff.1 hfails
    exact ⟨unknown, List.mem_append_right before List.mem_cons_self, hunknown⟩
  · rintro ⟨name, hname, hunknown⟩
    cases hselected : RecordShape.selection names with
    | error unknown => exact failed_error unknown
    | ok selected =>
      exact absurd ((RecordShape.selection_eq_ok_iff.1 hselected).1 name hname) hunknown

section

variable [Filter.Library]

theorem run_of_refused {command : Command} (h : Refused files command) :
    ∃ e, run files command = ⟨.error e, "", [], none, files⟩ := by
  cases h with
  | unknownShape given unknown =>
    obtain ⟨name, hname⟩ := failed_selection_iff.2 ⟨_, given, unknown⟩
    exact ⟨.unknownRecord name, by rw [run, runShapes, hname]⟩
  | notLoaded fails =>
    obtain ⟨failure, hfailure⟩ := Inputs.failsToLoad_iff.1 fails
    exact ⟨.load failure, by rw [run, runCheck, hfailure]⟩

/-- A run is refused, has nothing to write, or puts out its text, which does not depend on where. -/
theorem run_cases (files : FileSystem) (command : Command) :
    (∃ e, run files command = ⟨.error e, "", [], none, files⟩) ∨
    (¬command.PutsOut ∧ ∃ passed lines, run files command = ⟨.ok passed, "", lines, none, files⟩) ∨
    command.PutsOut ∧ ∃ text stderr last passed, OutputText files command text ∧
      run files command = putOut files command.output? text stderr last passed ∧
      run files command.toStdout = putOut files none text stderr last passed := by
  cases command with
  | shapes names out =>
    simp only [run, runShapes, toStdout, output?]
    cases hselected : RecordShape.selection names with
    | error name => exact .inl ⟨_, rfl⟩
    | ok selected => exact .inr (.inr ⟨trivial, _, _, _, _, .shapes hselected, rfl, rfl⟩)
  | check inputs normalize out =>
    simp only [run, runCheck, toStdout, output?]
    cases hdecode : inputs.decode files with
    | error failure => exact .inl ⟨_, rfl⟩
    | ok decoded =>
      cases normalize with
      | false => exact .inr (.inl ⟨Bool.false_ne_true, _, _, rfl⟩)
      | true => exact .inr (.inr ⟨rfl, _, _, _, _, .records hdecode, rfl, rfl⟩)

/-- A run touches only its output, and one that is refused nothing at all.  A check that does not
normalize and a run without an output leave the files as they were.  A run that writes its output
writes the text of its shapes or records, computed from the files as they were, which it would have
printed with a line break behind it. -/
theorem run_touches_only_output (files : FileSystem) (command : Command) :
    (Refused files command → ∃ e, run files command = ⟨.error e, "", [], none, files⟩) ∧
    (¬command.PutsOut ∨ command.output? = none →
      (run files command).written = none ∧ (run files command).files = files) ∧
    ∀ path, command.output? = some path → ∃ text,
      files.Touches path text (run files command).files ∧
      ∀ passed, command.PutsOut → (run files command).verdict = .ok passed →
        OutputText files command text ∧
        (run files command).written = some (path, text) ∧
        (run files command).files.read path = .ok text ∧
        (run files command).stdout = "" ∧
        (run files command.toStdout).stdout = text ++ "\n" := by
  refine ⟨run_of_refused, fun h => ?_, fun path hpath => ?_⟩
  · rcases run_cases files command with
      ⟨e, hrun⟩ | ⟨-, passed, lines, hrun⟩ | ⟨hputs, text, stderr, last, passed, -, hrun, -⟩
    · rw [hrun]
      exact ⟨rfl, rfl⟩
    · rw [hrun]
      exact ⟨rfl, rfl⟩
    · have hnone : command.output? = none := h.resolve_left fun hnot => hnot hputs
      rw [hrun, hnone]
      exact ⟨rfl, rfl⟩
  · rcases run_cases files command with
      ⟨e, hrun⟩ | ⟨hnot, passed, lines, hrun⟩ |
      ⟨-, text, stderr, last, passed, htext, hrun, hstdout⟩
    · refine ⟨"", ?_, fun passed _ hpassed => ?_⟩
      · rw [hrun]
        exact .of_extends (.refl _ _) ""
      · rw [hrun] at hpassed
        exact nomatch hpassed
    · refine ⟨"", ?_, fun _ hputs => absurd hputs hnot⟩
      rw [hrun]
      exact .of_extends (.refl _ _) ""
    · rw [hrun, hstdout, hpath]
      refine ⟨text, putOut_touches files path text stderr last passed, fun verdict _ hverdict => ?_⟩
      obtain ⟨hwritten, hread⟩ := read_of_putOut hverdict
      refine ⟨htext, hwritten, hread, ?_, rfl⟩
      rw [putOut]
      split
      · rfl
      · rfl

end

/-- The output is the input by another path, through a directory that does not stand yet.  The run
overwrites it with the record that was in it; with a filter that fails behind its first output it is
refused and leaves it alone. -/
theorem run_touches_only_output_alias :
    let input := "[\x7b\"__typename\": \"A\", \"a_string\": \"x\"\x7d, 7]"
    let files : FileSystem := ⟨.directory [("in", .file (Json.bytesOf input))], [], []⟩
    let command (filter : Option String) : Command :=
      .check ⟨["in"], false, none, filter⟩ true (some "new/../in")
    (∃ e, run files (command (some ".[].a_string")) = ⟨.error e, "", [], none, files⟩) ∧
    ∃ text, (run files (command none)).verdict = .ok false ∧
      OutputText files (command none) text ∧
      files.Touches "new/../in" text (run files (command none)).files ∧
      (run files (command none)).files.stands ["new"] = some .directory ∧
      (run files (command none)).files.read "new/../in" = .ok text ∧
      (run files (command none).toStdout).stdout = text ++ "\n" := by
  intro input files command
  have hrefused : Refused files (command (some ".[].a_string")) := by
    have hfails :
        (Inputs.decode ⟨["in"], false, none, some ".[].a_string"⟩ files).isOk = false := by
      decide +kernel
    refine .notLoaded (Inputs.failsToLoad_iff.2 ?_)
    cases hcase : Inputs.decode ⟨["in"], false, none, some ".[].a_string"⟩ files with
    | error failure => exact failed_error failure
    | ok decoded =>
      rw [hcase] at hfails
      exact nomatch hfails
  have hverdict : (run files (command none)).verdict = .ok false := by
    have hpassed :
        (run files (command none)).verdict.toOption.any (fun passed => !passed) = true := by
      decide +kernel
    obtain ⟨passed, hverdict, hpassed⟩ := exists_ok_of_any hpassed
    rw [Bool.not_eq_true'] at hpassed
    rwa [hpassed] at hverdict
  obtain ⟨text, htouches, hwritten⟩ :=
    (run_touches_only_output files (command none)).2.2 "new/../in" rfl
  obtain ⟨houtput, -, hread, -, hstdout⟩ := hwritten false rfl hverdict
  exact ⟨(run_touches_only_output files (command (some ".[].a_string"))).1 hrefused, text, hverdict,
    houtput, htouches, by decide +kernel, hread, hstdout⟩

end Command
end RecordCheck
