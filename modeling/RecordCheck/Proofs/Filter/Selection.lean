import RecordCheck.Filter.Run
import RecordCheck.Proofs.Filter.Path
set_option autoImplicit false

/-!
# Filter: the filter of a path selects the node

A value made of JSON has the text of that JSON (`render_ofJson`), and following the steps of a path
in it is following them in the JSON (`followAll_leads`).  Main statement: run on a value, the filter
of a path gives the one node that the path leads to, if the node is read back from its text, with
every library (`run_filter`).
-/

namespace RecordCheck.Filter

open Json (Step Path Leads)

/-! ## Values made of JSON -/

namespace Value

theorem ofItems_eq (items : List Json) : ofItems items = items.map ofJson := by
  induction items with
  | nil => rfl
  | cons x items ih => rw [ofItems, ih, List.map_cons]

theorem ofMembers_eq (members : List (String × Json)) :
    ofMembers members = members.map fun m => (m.1, ofJson m.2) := by
  induction members with
  | nil => rfl
  | cons m members ih => rw [ofMembers, ih, List.map_cons]

theorem itemChars_eq (vs : List Value) : itemChars vs = Json.separated (vs.map chars) := by
  induction vs with
  | nil => rfl
  | cons v vs ih =>
    cases vs with
    | nil => rfl
    | cons next rest =>
      rw [itemChars, ih]
      rfl

/-- The text of a member. -/
def memberText (m : String × Value) : List Char := Json.quoted m.1 ++ ':' :: chars m.2

theorem memberChars_eq (ms : List (String × Value)) :
    memberChars ms = Json.separated (ms.map memberText) := by
  induction ms with
  | nil => rfl
  | cons m ms ih =>
    cases ms with
    | nil => rfl
    | cons next rest =>
      rw [memberChars, ih]
      simp [Json.separated, memberText]

theorem chars_ofJson (x : Json) : (ofJson x).chars = x.chars := by
  induction x using Json.nodeInduction with
  | null | float _ | text _ => rfl
  | bool b => cases b <;> rfl
  | integer n =>
    rw [ofJson]
    split_ifs
    · rfl
    · rfl
  | array items ih =>
    have hitems : (items.map ofJson).map chars = items.map Json.chars := by
      rw [List.map_map]
      exact List.map_congr_left ih
    rw [ofJson, ofItems_eq, chars, Json.chars, itemChars_eq, Json.itemChars_eq, hitems]
  | object members ih =>
    have hmembers : (members.map fun m => (m.1, ofJson m.2)).map memberText =
        members.map Json.memberText := by
      rw [List.map_map]
      exact List.map_congr_left fun m hm => congrArg (Json.quoted m.1 ++ ':' :: ·) (ih m hm)
    rw [ofJson, ofMembers_eq, chars, Json.chars, memberChars_eq, Json.memberChars_eq, hmembers]

/-- A value made of JSON has the compact text of that JSON. -/
theorem render_ofJson (x : Json) : (ofJson x).render = x.compact := by
  rw [render, Json.compact, chars_ofJson]

/-- A value made of JSON that is read back from its text is that JSON as a document. -/
theorem document_ofJson {x : Json} (h : Json.parse x.compact = .ok x) :
    document (ofJson x) = .ok x := by
  rw [document, render_ofJson]
  simp only [h]

theorem at_member {name : String} {members : List (String × Json)} {content : Json}
    (h : Table.find? name members = some content) :
    at' (ofJson (.object members)) (.text name) = .ok (ofJson content) := by
  rw [ofJson, at', ofMembers_eq, Table.find?_map, h]
  rfl

theorem at_index {i : Nat} {items : List Json} {item : Json} (h : items[i]? = some item) :
    at' (ofJson (.array items)) (.integer i) = .ok (ofJson item) := by
  have hlt : i < items.length := (List.getElem?_eq_some_iff.1 h).1
  have hposition : position? i items.length = some i := by
    rw [position?, if_pos (Int.natCast_nonneg i), if_pos (Int.ofNat_lt.2 hlt), Int.toNat_natCast]
  rw [ofJson, at', ofItems_eq, List.length_map, hposition, Option.bind_some, List.getElem?_map, h]
  rfl

/-- Digits spell the integer of 64 bits that they are. -/
theorem ofSpelling_toString {i : Nat} (h : i < twoTo 63) :
    ofSpelling (toString i) = .integer i := by
  have htext : (toString i).toList = Nat.toDigits 10 i := Nat.toList_repr
  have hall : (Nat.toDigits 10 i).all Char.isDigit = true :=
    List.all_eq_true.2 fun c hc => Nat.isDigit_of_mem_toDigits (by decide) (by decide) hc
  have hword : isWord i = true := by
    have hlow : -(twoTo 63 : Int) ≤ i := (Int.neg_nonpos_of_nonneg (Int.natCast_nonneg _)).trans
      (Int.natCast_nonneg i)
    rw [isWord, decide_eq_true hlow, decide_eq_true (Int.ofNat_lt.2 h), Bool.and_self]
  have hsign : ∀ rest, Nat.toDigits 10 i ≠ '-' :: rest := by
    intro rest heq
    have hmem : '-' ∈ Nat.toDigits 10 i := by
      rw [heq]
      exact List.mem_cons_self
    exact absurd (Json.digit_of_mem_toDigits hmem).1 (by decide)
  unfold ofSpelling
  rw [htext]
  split
  · rename_i negative unsigned heq
    split at heq
    · rename_i hdigits
      exact absurd hdigits (hsign _)
    · obtain ⟨rfl, rfl⟩ := Prod.mk.inj heq
      simp [hall, Nat.ofDigitChars_ten_toDigits, hword]

end Value

/-! ## Steps -/

/-- The filter of a path is the value itself, or a path from there. -/
theorem ofPath_eq (steps : Path) : ofPath steps =
    if steps.flatMap partsOf = [] then .identity else .path .identity (steps.flatMap partsOf) := by
  rw [ofPath, Grammar.withParts, List.reverse_reverse, List.isEmpty_reverse]
  simp only [List.isEmpty_iff]

theorem Results.append_done {α : Type} (outputs : Results α) :
    outputs.append (fun _ => .done) = outputs := by
  induction outputs with
  | done => rfl
  | item head rest ih =>
    rw [append]
    exact congrArg (item head) (funext fun _ => ih ())

/-- From one output come those that the function has on it. -/
theorem Results.one_bind {α β : Type} {f : α → Results β} {a : α} {outputs : Results β}
    (h : f a = outputs) : (Results.one a).bind f = outputs :=
  (append_done (f a)).trans h

namespace Eval

/-- The way that a step stands for. -/
def wayOf : Json.Step → List (Step × Bool)
  | .member name => [(.index (.text name), false)]
  | .index i => [(.index (.integer i), false)]
  | .unnamed => []

theorem followAll_leads {steps : Path} {x node : Json} (h : Leads steps x node) :
    followAll (steps.flatMap wayOf) (Value.ofJson x) = .one (Value.ofJson node) := by
  induction h with
  | here x => rfl
  | member found _ ih =>
    rw [List.flatMap_cons, wayOf, List.singleton_append, followAll, follow, Value.at_member found]
    exact Results.one_bind ih
  | index found _ ih =>
    rw [List.flatMap_cons, wayOf, List.singleton_append, followAll, follow, Value.at_index found]
    exact Results.one_bind ih

end Eval

variable [Library]

/-! ## Known names -/

theorem known_partsOf (names : Names) (steps : Path) :
    names.knownParts (steps.flatMap partsOf) = true := by
  induction steps with
  | nil => rfl
  | cons step steps ih =>
    rw [List.flatMap_cons]
    cases step with
    | member name =>
      have hname : names.knownPieces (piecesOf name) = true := by
        unfold piecesOf
        split_ifs
        · rfl
        · rfl
      show (names.knownPieces (piecesOf name) && names.knownParts (steps.flatMap partsOf)) = true
      rw [hname, ih]
      rfl
    | index i => exact ih
    | unnamed => exact ih

theorem compile_filter (steps : Path) : compile steps.filter = .ok (ofPath steps) := by
  have hknown : Names.ofPrelude.known (ofPath steps) = true := by
    rw [ofPath_eq]
    split_ifs
    · rfl
    · exact known_partsOf _ steps
  rw [compile, Grammar.parse?_filter]
  simp only [hknown, if_true]

/-! ## Evaluation -/

namespace Eval

theorem eval_piecesOf (depth : Nat) (scope : Scope) (name : String) (v : Value) :
    eval (depth + 1) scope (.string none (piecesOf name)) v = .one (.text name) := by
  let written := embedding (eval depth) scope none
  show (pieceTexts (eval depth) scope written v (piecesOf name)).map _ = _
  have htexts : pieceTexts (eval depth) scope written v (piecesOf name) = .one name := by
    unfold piecesOf
    split_ifs with hempty
    · have hname : name = "" := String.toList_eq_nil_iff.1 (List.isEmpty_iff.1 hempty)
      rw [hname]
      rfl
    · show Results.one (name ++ "") = .one name
      rw [String.append_empty]
  rw [htexts]
  rfl

theorem ways_partsOf (depth : Nat) (scope : Scope) (v : Value) {steps : Path}
    (hsmall : ∀ i, .index i ∈ steps → i < twoTo 63) :
    ways (eval (depth + 1)) scope v (steps.flatMap partsOf) = .one (steps.flatMap wayOf) := by
  induction steps with
  | nil => rfl
  | cons step steps ih =>
    have hrest := ih fun i hi => hsmall i (List.mem_cons_of_mem _ hi)
    rw [List.flatMap_cons, List.flatMap_cons]
    cases step with
    | member name =>
      rw [partsOf, List.singleton_append, ways, hrest, Eval.steps, eval_piecesOf]
      rfl
    | index i =>
      have hnumber : eval (depth + 1) scope (.number (toString i)) v = .one (.integer i) := by
        rw [← Value.ofSpelling_toString (hsmall i List.mem_cons_self)]
        rfl
      rw [partsOf, List.singleton_append, ways, hrest, Eval.steps, hnumber]
      rfl
    | unnamed => exact hrest

end Eval

theorem eval_ofPath (depth : Nat) (scope : Scope) {steps : Path} {x node : Json}
    (h : Leads steps x node) (hsmall : ∀ i, .index i ∈ steps → i < twoTo 63) :
    eval (depth + 2) scope (ofPath steps) (Value.ofJson x) = .one (Value.ofJson node) := by
  have hway := Eval.followAll_leads h
  have hways := Eval.ways_partsOf depth scope (Value.ofJson x) hsmall
  rw [ofPath_eq]
  split_ifs with hempty
  · cases h with
    | here x => rfl
    | member _ _ | index _ _ => exact nomatch hempty
  · show ((eval (depth + 1) scope .identity (Value.ofJson x)).bind fun w =>
        (Eval.ways (eval (depth + 1)) scope (Value.ofJson x) (steps.flatMap partsOf)).bind
          fun way => Eval.followAll way w) = _
    rw [hways]
    exact Results.one_bind (Results.one_bind hway)

/-- The filter of a path gives the node that the path leads to. -/
theorem run_filter {steps : Path} {x node : Json} (h : Leads steps x node)
    (hsmall : ∀ i, .index i ∈ steps → i < twoTo 63) (hnode : Json.parse node.compact = .ok node) :
    run steps.filter x = .ok [node] := by
  rw [run, compile_filter]
  simp only
  rw [show depthLimit = 999998 + 2 from rfl, eval_ofPath 999998 _ h hsmall, Results.one, documents,
    Value.document_ofJson hnode]
  rfl

end RecordCheck.Filter
