import RecordCheck.Proofs.Check.Independent
import RecordCheck.Proofs.Check.Failing
import RecordCheck.Proofs.Files.Placing
import RecordCheck.Proofs.Text.Lines
set_option autoImplicit false

/-!
# Check: filters that cannot be compiled

A filter is compiled for each node of which it has to make documents.  If it cannot be compiled, the
first such node fails; but where files are read line by line and nothing is in them, no node asks
for it, and the inputs are loaded and pass.  Which filters can be compiled depends on the library;
the main statement, `uncompiled_passes_iff`, holds for each.
-/

namespace RecordCheck

namespace Check

/-- A file at the path can be read, and all of its text is blank. -/
def HoldsNothing (files : Files.FileSystem) (path : String) : Prop :=
  ∃ text, files.read path = .ok text ∧ ∀ c ∈ text.toList, Text.isBlank c = true

namespace Inputs

variable {inputs : Inputs} {files : Files.FileSystem}

/-- The inputs stand for the paths, and no value is read from any of them. -/
def LeadsToNothing (inputs : Inputs) (files : Files.FileSystem) (paths : List String) : Prop :=
  resolveAll files inputs.patterns = .ok paths ∧
    ∀ path ∈ paths, inputs.linewise = true ∧ HoldsNothing files path

theorem values_eq_nil_iff {path text : String} :
    inputs.values path text = .ok [] ↔
      inputs.linewise = true ∧ ∀ c ∈ text.toList, Text.isBlank c = true := by
  rw [values_eq_ok_iff, Writes]
  split_ifs with hlinewise
  · rw [List.forall₂_nil_right_iff, List.filter_eq_nil_iff, ← Text.blank_lines_iff]
    simp [hlinewise, ← Text.isEmpty_trim_iff]
  · simp [hlinewise]

section

variable [Filter.Library] {filter : String} {failure : Filter.Failure}
  (hfilter : inputs.filter = some filter) (hfails : Filter.compile filter = .error failure)

include hfilter hfails

theorem filtered_uncompiled (node : Json) : inputs.filtered node = .error (.filter failure) := by
  simp only [filtered, hfilter, Filter.run, hfails]
  rfl

theorem documents_uncompiled_eq_ok_iff {path : String} {xs loaded : List Json} :
    inputs.documents path xs = .ok loaded ↔ xs = [] ∧ loaded = [] := by
  cases xs with
  | nil => simp [Inputs.documents, eq_comm]
  | cons x xs =>
    rw [Inputs.documents]
    cases inputs.select path x with
    | error e => simp
    | ok node => simp [filtered_uncompiled hfilter hfails]

theorem source_uncompiled_eq_ok_iff {path : String} {s : Source} :
    inputs.source files path = .ok s ↔
      (inputs.linewise = true ∧ HoldsNothing files path) ∧ s = ⟨path, []⟩ := by
  simp only [source_eq_ok_iff, documentsOf_eq_ok_iff,
    documents_uncompiled_eq_ok_iff hfilter hfails]
  constructor
  · rintro ⟨rfl, text, htext, _, hvalues, rfl, hnone⟩
    obtain ⟨hlinewise, hblank⟩ := values_eq_nil_iff.1 hvalues
    exact ⟨⟨hlinewise, text, htext, hblank⟩, congrArg (Source.mk s.path) hnone⟩
  · rintro ⟨⟨hlinewise, text, htext, hblank⟩, rfl⟩
    exact ⟨rfl, text, htext, [], values_eq_nil_iff.2 ⟨hlinewise, hblank⟩, rfl, rfl⟩

theorem sources_uncompiled_eq_ok_iff {paths : List String} {loaded : List Source} :
    inputs.sources files paths = .ok loaded ↔
      (∀ path ∈ paths, inputs.linewise = true ∧ HoldsNothing files path) ∧
        loaded = paths.map (⟨·, []⟩) := by
  induction paths generalizing loaded with
  | nil =>
    constructor
    · intro h
      exact ⟨List.forall_mem_nil _, (Except.ok.inj h).symm⟩
    · rintro ⟨-, rfl⟩
      rfl
  | cons path paths ih =>
    rw [Inputs.sources, List.forall_mem_cons]
    cases hsource : inputs.source files path with
    | error e =>
      refine iff_of_false (fun h => by cases h) fun h => ?_
      rw [(source_uncompiled_eq_ok_iff hfilter hfails).2 ⟨h.1.1, rfl⟩] at hsource
      cases hsource
    | ok s =>
      obtain ⟨hpath, rfl⟩ := (source_uncompiled_eq_ok_iff hfilter hfails).1 hsource
      simp only [Json.map_eq_ok_iff, ih, and_iff_right hpath]
      constructor
      · rintro ⟨_, ⟨hpaths, rfl⟩, rfl⟩
        exact ⟨hpaths, rfl⟩
      · rintro ⟨hpaths, rfl⟩
        exact ⟨_, ⟨hpaths, rfl⟩, rfl⟩

theorem load_uncompiled_eq_ok_iff {loaded : List Source} :
    inputs.load files = .ok loaded ↔
      ∃ paths, inputs.LeadsToNothing files paths ∧ loaded = paths.map (⟨·, []⟩) := by
  rw [load]
  cases hresolve : resolveAll files inputs.patterns with
  | error e => simp [LeadsToNothing, hresolve]
  | ok paths => simp [LeadsToNothing, hresolve, sources_uncompiled_eq_ok_iff hfilter hfails]

end

end Inputs
end Check

namespace Command

open Check

/-- With a filter that cannot be compiled, a file fails with it as soon as the pointer selects a
node of its first value.  The inputs are loaded exactly if each path they stand for is read line by
line and its file is blank, and then each has a source without documents.  The command gives a
verdict exactly then, if its output can be written: that all passed. -/
theorem uncompiled_passes_iff [Filter.Library] {inputs : Inputs} {filter : String}
    {failure : Filter.Failure} (hfilter : inputs.filter = some filter)
    (hfails : Filter.compile filter = .error failure) (files : Files.FileSystem) (normalize : Bool)
    (out : Option String) :
    (∀ path text x rest node, inputs.values path text = .ok (x :: rest) →
      inputs.select path x = .ok node →
      inputs.documentsOf path text = .error (.filter failure)) ∧
    (∀ loaded, inputs.load files = .ok loaded ↔
      ∃ paths, inputs.LeadsToNothing files paths ∧ loaded = paths.map (⟨·, []⟩)) ∧
    ∀ passed, (runCheck files inputs normalize out).verdict = .ok passed ↔
      (∃ paths, inputs.LeadsToNothing files paths) ∧ (normalize = true → CanPutOut files out) ∧
        passed = true := by
  have hload {loaded : List Source} :=
    @Inputs.load_uncompiled_eq_ok_iff inputs files _ filter failure hfilter hfails loaded
  refine ⟨fun path text x rest node hvalues hselect => ?_, fun loaded => hload, fun passed => ?_⟩
  · have hfiltered := Inputs.filtered_uncompiled hfilter hfails node
    rw [Inputs.documentsOf, hvalues]
    simp only [Inputs.documents, hselect, hfiltered]
  · have hnone (paths : List String) :
        (paths.map fun path => (⟨path, []⟩ : Source)).flatMap Source.decode = [] := by
      rw [List.flatMap_eq_nil_iff, List.forall_mem_map]
      exact fun path _ => rfl
    simp only [verdict_runCheck_eq_ok_iff, Inputs.decode, Json.map_eq_ok_iff, hload]
    constructor
    · rintro ⟨_, ⟨_, ⟨paths, hpaths, rfl⟩, rfl⟩, hout, rfl⟩
      rw [hnone]
      exact ⟨⟨paths, hpaths⟩, hout, rfl⟩
    · rintro ⟨⟨paths, hpaths⟩, hout, rfl⟩
      exact ⟨[], ⟨_, ⟨paths, hpaths, rfl⟩, hnone paths⟩, hout, rfl⟩

/-- One of two files is blank and the other has a line with an array.  Alone the blank one passes
with a filter whose variable stands for nothing; with the other behind it there is no verdict. -/
theorem uncompiled_passes_iff_blank :
    let files : Files.FileSystem :=
      ⟨.directory [("a", .file (Json.bytesOf " \r\n\t")), ("b", .file (Json.bytesOf "[]"))], [], []⟩
    let inputs (patterns : List String) : Inputs := ⟨patterns, true, none, some "$x"⟩
    (runCheck files (inputs ["a"]) true none).verdict = .ok true ∧
      ∀ passed, (runCheck files (inputs ["a", "b"]) true none).verdict ≠ .ok passed := by
  intro files inputs
  have hfails : Filter.compile "$x" = .error .undefined := rfl
  have hblank : HoldsNothing files "a" :=
    ⟨" \r\n\t", Files.read_of_node rfl, List.all_eq_true.1 rfl⟩
  have hfull : ¬HoldsNothing files "b" := by
    rintro ⟨text, htext, h⟩
    have hread : files.read "b" = .ok "[]" := Files.read_of_node rfl
    obtain rfl := Except.ok.inj (hread.symm.trans htext)
    exact absurd (h '[' (by simp)) (by decide)
  constructor
  · obtain ⟨-, -, hverdict⟩ :=
      @uncompiled_passes_iff _ (inputs ["a"]) _ _ rfl hfails files true none
    exact (hverdict true).2 ⟨⟨["a"], rfl, List.forall_mem_singleton.2 ⟨rfl, hblank⟩⟩, nofun, rfl⟩
  · intro passed h
    obtain ⟨-, -, hverdict⟩ :=
      @uncompiled_passes_iff _ (inputs ["a", "b"]) _ _ rfl hfails files true none
    obtain ⟨⟨paths, hpaths, heach⟩, -⟩ := (hverdict passed).1 h
    obtain rfl : ["a", "b"] = paths := Except.ok.inj hpaths
    exact hfull (heach "b" (by decide)).2

/-- A file without any text is loaded and passes, and the filter that is none is not looked at. -/
theorem uncompiled_passes_without_text :
    let files : Files.FileSystem := ⟨.directory [("empty.ndjson", .file [])], [], []⟩
    let inputs : Inputs := ⟨["empty.ndjson"], true, none, some ".items["⟩
    Filter.compile ".items[" = .error .unreadable ∧
      inputs.load files = .ok [⟨"empty.ndjson", []⟩] ∧
      (runCheck files inputs false none).verdict = .ok true := by
  have hnone : Filter.Grammar.parse? ".items[" = none :=
    Option.isNone_iff_eq_none.1 (by decide +kernel)
  refine ⟨?_, rfl, rfl⟩
  rw [Filter.compile, hnone]

end Command
end RecordCheck
