import RecordCheck.Proofs.Command.Effects
set_option autoImplicit false

/-!
# Command: shapes by name

What is put out for names is what is put out for all shapes, less the members of other names.  The
order and number in which names are given show only in which unknown one is reported
(`shapes_projects`).
-/

namespace RecordCheck.Command

open Check Files RecordShape

/-- A run that is asked for the shapes of some names fails and tells the first name that is not
declared, or it puts out those of the members for all shapes that have these names. -/
inductive Answers (files : FileSystem) (out : Option String) (names : List String)
    (all : Table Json) : Outcome → Prop
  | refused {unknown : String} {e : RunError} (first : FirstUndeclared names unknown)
      (message : e.message = "unknown record name: " ++ unknown) :
      Answers files out names all ⟨.error e, "", [], none, files⟩
  | shown (known : ∀ name ∈ names, IsDeclared name) : Answers files out names all
      (putOut files out (Json.object (all.filter fun m => names = [] ∨ m.1 ∈ names)).pretty [] []
        true)

/-- Asking for names projects the members that are put out for all shapes: it fails with the first
name that is not declared, or the members of these names are left of them. -/
structure Projects [Filter.Library] (names : List String) (all : Table Json) : Prop where
  fails : Failed (selection names) ↔ ∃ name ∈ names, ¬IsDeclared name
  first : ∀ unknown, selection names = .error unknown ↔ FirstUndeclared names unknown
  shows : (∀ name ∈ names, IsDeclared name) → ∃ selected, selection names = .ok selected ∧
    view selected = .object (all.filter fun m => names = [] ∨ m.1 ∈ names)
  runs : ∀ files out, Answers files out names all (run files (.shapes names out))

/-- The two runs differ at most in the reason why both fail. -/
structure SameOutput (first second : Outcome) : Prop where
  passed : first.verdict.toOption = second.verdict.toOption
  stdout : first.stdout = second.stdout
  stderr : first.stderr = second.stderr
  written : first.written = second.written
  files : first.files = second.files

theorem runShapes_congr {names others : List String} (h : ∀ name, name ∈ names ↔ name ∈ others)
    (files : FileSystem) (out : Option String) :
    SameOutput (runShapes files names out) (runShapes files others out) := by
  rw [runShapes, runShapes]
  cases hnames : selection names with
  | ok selected =>
    rw [(selection_congr h).1 hnames]
    exact ⟨rfl, rfl, rfl, rfl, rfl⟩
  | error unknown =>
    cases hothers : selection others with
    | ok selected =>
      exact absurd ((selection_congr h).2 hothers) (by simp [hnames])
    | error _ => exact ⟨rfl, rfl, rfl, rfl, rfl⟩

theorem projects_of_view [Filter.Library] {all : Table Json} (hall : view declared = .object all)
    (names : List String) : Projects names all := by
  have hshown : view (declared.filter fun s => names = [] ∨ s.name ∈ names) =
      .object (all.filter fun m => names = [] ∨ m.1 ∈ names) :=
    view_filter hall fun name => names = [] ∨ name ∈ names
  refine ⟨?_, fun _ => selection_eq_error_iff, fun hknown => ?_, fun files out => ?_⟩
  · simp only [failed_selection_iff, ofName?_eq_none_iff]
  · exact ⟨_, selection_eq_ok_iff.2 ⟨hknown, rfl⟩, hshown⟩
  · rw [run, runShapes]
    cases hselected : selection names with
    | error unknown => exact .refused (selection_eq_error_iff.1 hselected) rfl
    | ok selected =>
      obtain ⟨hknown, rfl⟩ := selection_eq_ok_iff.1 hselected
      simp only [hshown]
      exact .shown hknown

/-- Of the members that are put out for all shapes, in the order of declaration, names select those
that have them, all if there is no name; the first name that is not declared is reported.  The order
and number in which the names are given make no difference to what is put out. -/
theorem shapes_projects [Filter.Library] :
    ∃ all : Table Json, view declared = .object all ∧
      Table.names all = declared.map RecordShape.name ∧
      ∀ names, Projects names all ∧
        ∀ others, (∀ name, name ∈ names ↔ name ∈ others) → ∀ files out,
          SameOutput (run files (.shapes names out)) (run files (.shapes others out)) := by
  obtain ⟨all, hall, hnames⟩ := exists_view declared
  refine ⟨all, hall, ?_, fun names => ⟨projects_of_view hall names, fun others h files out => ?_⟩⟩
  · rw [hnames]
    decide
  · exact runShapes_congr h files out

/-- Two names select two shapes in any order and number.  Of four names two are not declared, and
the first of them is reported. -/
theorem shapes_projects_two :
    ∃ all : Table Json, view declared = .object all ∧
      view [.a, .b] = .object (all.filter fun m => m.1 ∈ ["B", "A", "B"]) ∧
      (∀ files out, SameOutput (run files (.shapes ["B", "A", "B"] out))
        (run files (.shapes ["A", "B"] out))) ∧
      selection ["A", "C", "B", "D"] = .error "C" := by
  obtain ⟨all, hall, -, hnames⟩ := shapes_projects
  obtain ⟨hprojects, hsame⟩ := hnames ["B", "A", "B"]
  obtain ⟨selected, hselected, hview⟩ := hprojects.shows (by decide)
  have htwo : selection ["B", "A", "B"] = .ok [.a, .b] := by decide
  obtain rfl : [.a, .b] = selected := Except.ok.inj (htwo.symm.trans hselected)
  refine ⟨all, hall, by simpa using hview, hsame ["A", "B"] (by simp [or_comm]), ?_⟩
  exact ((hnames ["A", "C", "B", "D"]).1.first "C").2 ⟨["A"], ["B", "D"], rfl, by decide, by decide⟩

end RecordCheck.Command
