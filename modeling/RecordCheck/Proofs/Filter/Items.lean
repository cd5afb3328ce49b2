import RecordCheck.Proofs.Filter.Selection
set_option autoImplicit false

/-!
# Filter: the filter of all items

The filter `.[]` has each item of an array for an output, in order.  Main statement: run on an array
it gives the items back as documents, if each is read back from its text (`run_each`).
-/

namespace RecordCheck.Filter

/-- The filter of all items. -/
def each : Term := .path .identity [(.each, false)]

theorem Results.ofList_bind_one {α : Type} (as : List α) : (ofList as).bind one = ofList as := by
  induction as with
  | nil => rfl
  | cons a as ih =>
    show item (.ok a) (fun _ => (ofList as).bind one) = _
    rw [ih]
    rfl

theorem documents_ofList {items : List Json} (h : ∀ x ∈ items, Json.parse x.compact = .ok x)
    (read : List Json) :
    documents read (.ofList (items.map Value.ofJson)) = .ok (read.reverse ++ items) := by
  induction items generalizing read with
  | nil => simp [Results.ofList, documents]
  | cons x items ih =>
    obtain ⟨hx, hitems⟩ := List.forall_mem_cons.1 h
    rw [List.map_cons, Results.ofList, documents, Value.document_ofJson hx]
    show documents (x :: read) (.ofList (items.map Value.ofJson)) = _
    rw [ih hitems, List.reverse_cons, List.append_assoc, List.singleton_append]

variable [Library]

theorem compile_each : compile ".[]" = .ok each := rfl

theorem eval_each (depth : Nat) (scope : Scope) (items : List Value) :
    eval (depth + 2) scope each (.array items) = .ofList items := by
  have hfollow : Eval.followAll [(.each, false)] (.array items) = .ofList items :=
    Results.ofList_bind_one items
  show (Results.one (Value.array items)).bind (fun w =>
    (Results.one [(Eval.Step.each, false)]).bind fun way => Eval.followAll way w) = _
  exact Results.one_bind (Results.one_bind hfollow)

/-- The filter of all items gives the items of an array. -/
theorem run_each {items : List Json} (h : ∀ x ∈ items, Json.parse x.compact = .ok x) :
    run ".[]" (.array items) = .ok items := by
  rw [run, compile_each]
  simp only
  rw [show depthLimit = 999998 + 2 from rfl, Value.ofJson, Value.ofItems_eq, eval_each,
    documents_ofList h]
  rfl

end RecordCheck.Filter
