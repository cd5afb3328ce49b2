import RecordCheck.Proofs.Json.Reading
import RecordCheck.Proofs.Table
set_option autoImplicit false

/-!
# JSON: whole texts without repeated names

`Unique` values are those in which no object repeats a name; they are understood as they are written
(`Unique.distinct`).  `IsText` says that a text is as a whole the text of such a value.
-/

namespace RecordCheck.Json

/-- Induction on values: what holds of an array or object if it holds of its own nodes, and of all
other values, holds of each. -/
theorem nodeInduction {P : Json → Prop} (null : P .null) (bool : ∀ b, P (.bool b))
    (integer : ∀ n, P (.integer n)) (float : ∀ x, P (.float x)) (text : ∀ s, P (.text s))
    (array : ∀ items, (∀ x ∈ items, P x) → P (.array items))
    (object : ∀ members : List (String × Json), (∀ m ∈ members, P m.2) → P (.object members))
    (x : Json) : P x :=
  @Json.rec P (fun items => ∀ x ∈ items, P x)
    (fun members : List (String × Json) => ∀ m ∈ members, P m.2) (fun m => P m.2)
    null bool integer float text array object
    (List.forall_mem_nil _) (fun _ _ hx hrest => List.forall_mem_cons.2 ⟨hx, hrest⟩)
    (List.forall_mem_nil _) (fun _ _ hm hrest => List.forall_mem_cons.2 ⟨hm, hrest⟩)
    (fun _ _ h => h) x

/-- No object within the value repeats a name. -/
inductive Unique : Json → Prop
  | null : Unique .null
  | bool (b : Bool) : Unique (.bool b)
  | integer (n : Int) : Unique (.integer n)
  | float (x : Float) : Unique (.float x)
  | text (s : String) : Unique (.text s)
  | array {items : List Json} (each : ∀ x ∈ items, Unique x) : Unique (.array items)
  | object {members : List (String × Json)} (names : (Table.names members).Nodup)
      (each : ∀ m ∈ members, Unique m.2) : Unique (.object members)

theorem unique_of_not_nested {x : Json} (h : ¬Nested x) : Unique x := by
  cases x with
  | null => exact .null
  | bool b => exact .bool b
  | integer n => exact .integer n
  | float x => exact .float x
  | text s => exact .text s
  | array _ | object _ => exact absurd trivial h

theorem distinctItems_eq_map (items : List Json) : distinctItems items = items.map distinct := by
  induction items with
  | nil => rfl
  | cons x items ih => rw [distinctItems, ih, List.map_cons]

theorem distinctMembers_eq_map (members : List (String × Json)) :
    distinctMembers members = members.map fun m => (m.1, m.2.distinct) := by
  induction members with
  | nil => rfl
  | cons m members ih => rw [distinctMembers, ih, List.map_cons]

theorem distinctItems_eq_self {items : List Json} (h : ∀ x ∈ items, x.distinct = x) :
    distinctItems items = items := by
  rw [distinctItems_eq_map, List.map_congr_left h]
  exact List.map_id items

theorem distinctMembers_eq_self {members : List (String × Json)}
    (h : ∀ m ∈ members, m.2.distinct = m.2) : distinctMembers members = members := by
  have hsame : ∀ m ∈ members, (m.1, m.2.distinct) = m := fun m hm => by rw [h m hm]
  rw [distinctMembers_eq_map, List.map_congr_left hsame]
  exact List.map_id members

/-- A value in which no name is repeated is understood as it is written. -/
theorem Unique.distinct {x : Json} (h : Unique x) : x.distinct = x := by
  induction h with
  | null | bool _ | integer _ | float _ | text _ => rfl
  | array _ ih => rw [Json.distinct, distinctItems_eq_self ih]
  | object names _ ih =>
    rw [Json.distinct, distinctMembers_eq_self ih, Table.ofMembers_eq_self names]

/-- The text is as a whole the text of a value in which, as it is written, no object repeats a
name. -/
structure IsText (s : String) (x : Json) : Prop where
  parsed : parse s = .ok x
  unique : ∀ written rest, read (bytesOf s) = .ok (written, rest) → Unique written

theorem skipSpace_eq_nil_iff {bytes : Bytes} : skipSpace bytes = [] ↔ Blank bytes := by
  rw [skipSpace, List.dropWhile_eq_nil_iff]
  rfl

theorem ofBytes_eq_ok_iff {bytes : Bytes} {x : Json} : ofBytes bytes = .ok x ↔
    ∃ written rest, read bytes = .ok (written, rest) ∧ Blank rest ∧ written.distinct = x := by
  unfold ofBytes
  cases read bytes with
  | error fault => exact iff_of_false nofun fun ⟨_, _, h, _⟩ => nomatch h
  | ok result =>
    obtain ⟨written, rest⟩ := result
    simp only
    split
    next hskip =>
      have hblank := skipSpace_eq_nil_iff.1 hskip
      simp [hblank]
    next hskip =>
      refine iff_of_false nofun ?_
      rintro ⟨_, _, hread, hblank, -⟩
      obtain ⟨-, rfl⟩ := Prod.mk.inj (Except.ok.inj hread)
      exact hskip (skipSpace_eq_nil_iff.2 hblank)

theorem isText_iff {s : String} {x : Json} : IsText s x ↔
    ∃ rest, Reads depthLimit (bytesOf s) x rest ∧ Blank rest ∧ Unique x := by
  constructor
  · rintro ⟨hparsed, hunique⟩
    obtain ⟨written, rest, hread, hblank, rfl⟩ := ofBytes_eq_ok_iff.1 hparsed
    have hx := hunique written rest hread
    rw [hx.distinct]
    exact ⟨rest, read_eq_ok_iff.1 hread, hblank, hx⟩
  · rintro ⟨rest, hread, hblank, hunique⟩
    have hread := read_eq_ok_iff.2 hread
    refine ⟨ofBytes_eq_ok_iff.2 ⟨x, rest, hread, hblank, hunique.distinct⟩, ?_⟩
    intro written rest' h
    obtain ⟨rfl, -⟩ := Prod.mk.inj (Except.ok.inj (hread.symm.trans h))
    exact hunique

end RecordCheck.Json
