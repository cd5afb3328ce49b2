import RecordCheck.Proofs.Json.Written
set_option autoImplicit false

/-!
# JSON: what a text can hold of a value

Texts have no doubles that are not finite: null stands for each.  A value and the one with null in
those places have the same text (`compact_serialized`).
-/

namespace RecordCheck.Json

mutual

/-- The value that the texts of a value hold: null in place of each double that is not finite. -/
def serialized : Json → Json
  | .float x => if x.isFinite then .float x else .null
  | .array items => .array (serializedItems items)
  | .object members => .object (serializedMembers members)
  | .null => .null
  | .bool b => .bool b
  | .integer n => .integer n
  | .text s => .text s

/-- The items of an array, each as texts hold it. -/
def serializedItems : List Json → List Json
  | [] => []
  | item :: rest => serialized item :: serializedItems rest

/-- The contents of an object's members, each as texts hold it. -/
def serializedMembers : List (String × Json) → List (String × Json)
  | [] => []
  | (name, content) :: rest => (name, serialized content) :: serializedMembers rest

end

theorem floatText_of_not_finite {x : Float} (h : x.isFinite = false) : floatText x = "null" := by
  rcases Binary64.ofFloat_of_not_finite h with hnan | ⟨negative, hinfinite⟩
  · rw [floatText, hnan]
  · rw [floatText, hinfinite]

theorem chars_serialized_float (x : Float) : chars (serialized (.float x)) = chars (.float x) := by
  rw [serialized]
  split_ifs with hfinite
  · rfl
  · show ['n', 'u', 'l', 'l'] = (floatText x).toList
    rw [floatText_of_not_finite (by simpa using hfinite)]
    rfl

theorem serializedItems_eq_map (items : List Json) :
    serializedItems items = items.map serialized := by
  induction items with
  | nil => rfl
  | cons x items ih => rw [serializedItems, ih, List.map_cons]

theorem serializedMembers_eq_map (members : List (String × Json)) :
    serializedMembers members = members.map fun m => (m.1, serialized m.2) := by
  induction members with
  | nil => rfl
  | cons m members ih => rw [serializedMembers, ih, List.map_cons]

theorem chars_serialized (x : Json) : chars (serialized x) = chars x := by
  induction x using nodeInduction with
  | null | bool _ | integer _ | text _ => rfl
  | float x => exact chars_serialized_float x
  | array items ih =>
    have hitems : (items.map serialized).map chars = items.map chars := by
      rw [List.map_map]
      exact List.map_congr_left ih
    rw [serialized, serializedItems_eq_map, chars, chars, itemChars_eq, itemChars_eq, hitems]
  | object members ih =>
    have hmembers : (members.map fun m => (m.1, serialized m.2)).map memberText =
        members.map memberText := by
      rw [List.map_map]
      exact List.map_congr_left fun m hm => congrArg (quoted m.1 ++ ':' :: ·) (ih m hm)
    rw [serialized, serializedMembers_eq_map, chars, chars, memberChars_eq, memberChars_eq,
      hmembers]

/-- A value and what texts hold of it have the same text. -/
theorem compact_serialized (x : Json) : x.serialized.compact = x.compact := by
  rw [compact, compact, chars_serialized]

end RecordCheck.Json
