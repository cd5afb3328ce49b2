import RecordCheck.Proofs.Table
import RecordCheck.Record.Shape
set_option autoImplicit false

/-!
# Record: selecting and viewing shapes

Names select declared shapes if all of them are declared, in the order of declaration
(`RecordShape.selection_eq_ok_iff`, `RecordShape.selection_eq_error_iff`).

A view is made of any shapes, declared or not, and names may repeat among them as among the fields
of each.  Place and content of an entry then come from different shapes: it stands where its name
first stands, and shows the last shape of that name; so it is with the fields inside it
(`RecordShape.view_keeps_last`).  The view of the shapes of some names is a part of the whole view
(`RecordShape.view_filter`).
-/

namespace RecordCheck

/-- A field is shown by its name, the name of its type and, if it has any, its documentation. -/
inductive FieldShape.ShownAs (f : FieldShape) : Json → Prop
  | documented {doc : String} (h : f.doc = some doc) :
      f.ShownAs (.object [("name", .text f.name), ("ty", .text f.type.name), ("doc", .text doc)])
  | undocumented (h : f.doc = none) :
      f.ShownAs (.object [("name", .text f.name), ("ty", .text f.type.name)])

theorem FieldShape.shownAs_iff {f : FieldShape} {x : Json} : f.ShownAs x ↔ x = f.toJson := by
  rw [toJson]
  constructor
  · intro h
    cases h with
    | documented hdoc =>
      rw [hdoc]
      rfl
    | undocumented hdoc =>
      rw [hdoc]
      rfl
  · rintro rfl
    cases hdoc : f.doc with
    | none => exact .undocumented hdoc
    | some doc => exact .documented hdoc

namespace RecordShape

/-! ## Selecting by name -/

/-- There is a declared shape of the name. -/
def IsDeclared (name : String) : Prop := name ∈ declared.map RecordShape.name

instance (name : String) : Decidable (IsDeclared name) :=
  inferInstanceAs (Decidable (name ∈ declared.map RecordShape.name))

/-- The name is not declared, and those before it are. -/
def FirstUndeclared (names : List String) (unknown : String) : Prop :=
  ∃ before after, names = before ++ unknown :: after ∧
    (∀ name ∈ before, IsDeclared name) ∧ ¬IsDeclared unknown

section

variable {names others : List String} {name unknown : String} {selected : List RecordShape}

theorem ofName?_eq_none_iff : ofName? name = none ↔ ¬IsDeclared name := by
  simp [ofName?, IsDeclared]

theorem isSome_ofName?_iff : (ofName? name).isSome = true ↔ IsDeclared name := by
  rw [← Option.ne_none_iff_isSome, Ne, ofName?_eq_none_iff, not_not]

theorem selection_eq_error_iff :
    selection names = .error unknown ↔ FirstUndeclared names unknown := by
  have hfirst : names.find? (fun name => (ofName? name).isNone) = some unknown ↔
      FirstUndeclared names unknown := by
    rw [List.find?_eq_some_iff_append, Option.isNone_iff_eq_none, ofName?_eq_none_iff]
    simp only [Option.not_isNone, isSome_ofName?_iff]
    constructor
    · rintro ⟨hunknown, before, after, hnames, hbefore⟩
      exact ⟨before, after, hnames, hbefore, hunknown⟩
    · rintro ⟨before, after, hnames, hbefore, hunknown⟩
      exact ⟨hunknown, before, after, hnames, hbefore⟩
  rw [← hfirst, selection]
  cases names.find? fun name => (ofName? name).isNone with
  | none => exact iff_of_false nofun nofun
  | some first => simp

/-- If all names are declared, the shapes of these names are selected, or all if there is no
name. -/
theorem selection_eq_ok_iff :
    selection names = .ok selected ↔ (∀ name ∈ names, IsDeclared name) ∧
      selected = declared.filter fun s => names = [] ∨ s.name ∈ names := by
  have hdeclared : names.find? (fun name => (ofName? name).isNone) = none ↔
      ∀ name ∈ names, IsDeclared name := by
    simp only [List.find?_eq_none, Option.isNone_iff_eq_none, ofName?_eq_none_iff, not_not]
  have hkept (s : RecordShape) : (names.isEmpty || names.contains s.name) =
      decide (names = [] ∨ s.name ∈ names) := by
    rw [Bool.eq_iff_iff]
    simp
  rw [← hdeclared, selection]
  simp only [hkept]
  cases names.find? fun name => (ofName? name).isNone with
  | none => simp [eq_comm]
  | some first => exact iff_of_false nofun nofun

/-- Two lists with the same names select the same shapes, or neither selects any. -/
theorem selection_congr (h : ∀ name, name ∈ names ↔ name ∈ others) :
    selection names = .ok selected ↔ selection others = .ok selected := by
  have hempty : names = [] ↔ others = [] := by
    simp only [List.eq_nil_iff_forall_not_mem, h]
  simp only [selection_eq_ok_iff, h, hempty]

end

/-! ## The view -/

/-- A record is shown by its fields and, if it has any, its documentation behind them. -/
inductive ShownAs (s : RecordShape) : Json → Prop
  | documented {fields : Table Json} {doc : String}
      (keeps : Table.KeepsLast FieldShape.name FieldShape.ShownAs s.fields fields)
      (h : s.doc = some doc) : s.ShownAs (.object [("fields", .object fields), ("doc", .text doc)])
  | undocumented {fields : Table Json}
      (keeps : Table.KeepsLast FieldShape.name FieldShape.ShownAs s.fields fields)
      (h : s.doc = none) : s.ShownAs (.object [("fields", .object fields)])

theorem shownAs_iff {s : RecordShape} {x : Json} : s.ShownAs x ↔ x = s.entry := by
  have hkeeps {fields : Table Json} :
      Table.KeepsLast FieldShape.name FieldShape.ShownAs s.fields fields ↔
        fields = Table.ofMembers (s.fields.map fun f => (f.name, f.toJson)) :=
    Table.keepsLast_iff fun _ _ => FieldShape.shownAs_iff
  rw [entry]
  constructor
  · intro h
    cases h with
    | documented keeps hdoc =>
      rw [hkeeps.1 keeps, hdoc]
      rfl
    | undocumented keeps hdoc =>
      rw [hkeeps.1 keeps, hdoc]
      rfl
  · rintro rfl
    cases hdoc : s.doc with
    | none => exact .undocumented (hkeeps.2 rfl) hdoc
    | some doc => exact .documented (hkeeps.2 rfl) hdoc

/-- The view of shapes is the object with their names in the order in which they first stand, and
under each the last shape of that name, whose fields are shown in the same way.  A shape that is
added again leaves it as it is, if no other shape has its name. -/
theorem view_keeps_last (shapes : List RecordShape) :
    (∀ x, view shapes = x ↔
      ∃ entries, x = .object entries ∧ Table.KeepsLast name ShownAs shapes entries) ∧
    ∀ s ∈ shapes, (∀ t ∈ shapes, t.name = s.name → t = s) →
      view (shapes ++ [s]) = view shapes := by
  have hkeeps {entries : Table Json} : Table.KeepsLast name ShownAs shapes entries ↔
      entries = Table.ofMembers (shapes.map fun s => (s.name, s.entry)) :=
    Table.keepsLast_iff fun _ _ => shownAs_iff
  refine ⟨fun x => ⟨?_, ?_⟩, fun s hs honly => ?_⟩
  · rintro rfl
    exact ⟨_, rfl, hkeeps.2 rfl⟩
  · rintro ⟨entries, rfl, keeps⟩
    rw [hkeeps.1 keeps]
    rfl
  · exact congrArg Json.object (Table.ofMembers_map_concat hs honly)

/-- Of two shapes with one name the first gives the place and the last the content, and so it is
with two fields of the last.  A third shape, the only one of its name, can be added again. -/
theorem view_keeps_last_repeated :
    let first : RecordShape := ⟨"R", none, [⟨"z", .string, none⟩]⟩
    let last : RecordShape := ⟨"R", some "new",
      [⟨"x", .integer, some "old"⟩, ⟨"y", .float, none⟩, ⟨"x", .record "A", none⟩]⟩
    a ∈ [first, a, last] ∧ (∀ t ∈ [first, a, last], t.name = a.name → t = a) ∧
      view ([first, a, last] ++ [a]) = view [first, a, last] ∧
      ∃ entries, Table.KeepsLast name ShownAs [first, a, last] entries ∧
        entries = [("R", .object [
            ("fields", .object [
              ("x", .object [("name", .text "x"), ("ty", .text "A")]),
              ("y", .object [("name", .text "y"), ("ty", .text "float")])]),
            ("doc", .text "new")]),
          ("A", .object [
            ("fields", .object [
              ("a_string", .object [("name", .text "a_string"), ("ty", .text "string")])])])] := by
  intro first last
  have hmem : a ∈ [first, a, last] := by decide
  have honly : ∀ t ∈ [first, a, last], t.name = a.name → t = a := by decide
  obtain ⟨hview, hagain⟩ := view_keeps_last [first, a, last]
  obtain ⟨entries, hentries, keeps⟩ := (hview _).1 rfl
  exact ⟨hmem, honly, hagain a hmem honly, entries, keeps, (Json.object.inj hentries).symm⟩

theorem exists_view (shapes : List RecordShape) : ∃ entries,
    view shapes = .object entries ∧ Table.names entries = (shapes.map name).eraseDups :=
  ⟨_, rfl, Table.names_ofMembers_map name entry shapes⟩

/-- The view of the shapes of some names has the members of these names in the view of all. -/
theorem view_filter {shapes : List RecordShape} {entries : Table Json}
    (h : view shapes = .object entries) (keep : String → Bool) :
    view (shapes.filter fun s => keep s.name) = .object (entries.filter fun m => keep m.1) := by
  obtain rfl := Json.object.inj h
  rw [← Table.ofMembers_filter, List.filter_map]
  rfl

end RecordShape
end RecordCheck
