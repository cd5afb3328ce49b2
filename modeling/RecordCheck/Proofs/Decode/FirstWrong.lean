import RecordCheck.Proofs.Decode.Tagged
set_option autoImplicit false

/-!
# Decode: the first wrong member

Members are judged one after the other.  The first that is wrong decides how decoding fails, as if
it stood alone (`Kind.record_firstWrong`), and where none is wrong their order makes no difference
(`Kind.record_noneWrong`).  For the declared records `Row` says the same in terms of the declared
fields.
-/

namespace RecordCheck.Decode

/-! ## Members of a row -/

/-- In a list either nothing has a property, or there is a first that has it. -/
theorem exists_first {α : Type} (P : α → Prop) (l : List α) :
    (∀ a ∈ l, ¬P a) ∨ ∃ front a back, l = front ++ a :: back ∧ (∀ a' ∈ front, ¬P a') ∧ P a := by
  induction l with
  | nil => exact .inl nofun
  | cons a l ih =>
    by_cases ha : P a
    · exact .inr ⟨[], a, l, rfl, nofun, ha⟩
    · rcases ih with hnone | ⟨front, a', back, rfl, hfront, ha'⟩
      · exact .inl (List.forall_mem_cons.2 ⟨ha, hnone⟩)
      · exact .inr ⟨a :: front, a', back, rfl, List.forall_mem_cons.2 ⟨ha, hfront⟩, ha'⟩

namespace Fields

variable {τ : Type} {f : Fields τ}

/-- What a field makes of a member does not depend on the contents known so far. -/
theorem put_error_any {name : String} {x : Json} {slots : f.Slots} (slots' : f.Slots)
    {failure : Failure} (h : f.put name x slots = .error failure) :
    f.put name x slots' = .error failure := by
  induction f with
  | nil => cases h
  | field n kind rest ih =>
    rw [put] at h ⊢
    obtain ⟨slot, slots⟩ := slots
    obtain ⟨slot', slots'⟩ := slots'
    split_ifs at h ⊢ with hname
    · cases hx : kind.ofJson x with
      | ok a =>
        rw [hx] at h
        cases h
      | error failure' =>
        rw [hx] at h
        exact congrArg Except.error (Except.error.inj h)
    · cases hothers : rest.put name x slots with
      | ok others =>
        rw [hothers] at h
        cases h
      | error failure' =>
        rw [hothers] at h
        obtain rfl := Except.error.inj h
        rw [ih slots' hothers]
        rfl

/-- Behind members that are accepted, a wrong one fails as it does alone. -/
theorem putAll_firstWrong (hf : f.names.Nodup) {done front back : List (String × Json)}
    {m : String × Json} {slots : f.Slots} (h : f.Holding done slots)
    (hnodup : (Table.names (front ++ m :: back)).Nodup)
    (hfresh : ∀ m' ∈ front ++ m :: back, m'.1 ∉ Table.names done)
    (hfront : ∀ m' ∈ front, f.Accepts m'.1 m'.2) (hm : ¬f.Accepts m.1 m.2) :
    ∃ failure, f.putAll (front ++ m :: back) slots = .error failure ∧
      f.putAll [m] f.empty = .error failure := by
  obtain ⟨after, hafter, hfree, hall⟩ := exists_putAll_append hf h hnodup hfresh hfront
  obtain ⟨name, x⟩ := m
  have hdone : name ∉ Table.names (done ++ front) := hfree (name, x) List.mem_cons_self
  have halone : name ∉ Table.names ([] : List (String × Json)) := List.not_mem_nil
  rw [hall, putAll, putAll, state_eq hafter, state_eq f.holding_empty, if_neg hdone, if_neg halone]
  by_cases hname : name ∈ f.names
  · rw [if_pos hname]
    cases hput : f.put name x after with
    | ok slots' => exact absurd ((exists_put_iff hname x after).1 ⟨slots', hput⟩) hm
    | error failure =>
      simp only [put_error_any f.empty hput]
      exact ⟨_, rfl, rfl⟩
  · rw [if_neg hname]
    exact ⟨_, rfl, rfl⟩

/-- The members determine the contents of the slots. -/
theorem Holding.unique {slots slots' : f.Slots} {members : List (String × Json)}
    (hmembers : (Table.names members).Nodup) (h : f.Holding members slots)
    (h' : f.Holding members slots') : slots = slots' := by
  induction f with
  | nil => rfl
  | field n kind rest ih =>
    obtain ⟨slot, slots⟩ := slots
    obtain ⟨slot', slots'⟩ := slots'
    obtain ⟨hslot, hrest⟩ := h
    obtain ⟨hslot', hrest'⟩ := h'
    have hothers : slots = slots' := ih hrest hrest'
    have hself : slot = slot' := by
      cases slot with
      | none =>
        cases slot' with
        | none => rfl
        | some a =>
          obtain ⟨x, hx, -⟩ := hslot'
          exact absurd (Table.mem_names_of_mem hx) hslot
      | some a =>
        obtain ⟨x, hx, ha⟩ := hslot
        cases slot' with
        | none => exact absurd (Table.mem_names_of_mem hx) hslot'
        | some a' =>
          obtain ⟨x', hx', ha'⟩ := hslot'
          rw [← Table.content_unique hmembers hx hx', ha] at ha'
          exact congrArg some (Except.ok.inj ha')
    exact Prod.ext hself hothers

end Fields

/-! ## Records -/

section

variable {τ α : Type} {record : String} {f : Fields τ} {build : τ → α}

theorem Kind.record_firstWrong (hf : f.names.Nodup) {front back : List (String × Json)}
    {m : String × Json} (hnodup : (Table.names (front ++ m :: back)).Nodup)
    (hfront : ∀ m' ∈ front, f.Accepts m'.1 m'.2) (hm : ¬f.Accepts m.1 m.2) :
    (Kind.record record f build).ofJson (.object (front ++ m :: back)) =
      (Kind.record record f build).ofJson (.object [m]) := by
  obtain ⟨failure, hall, halone⟩ := Fields.putAll_firstWrong hf f.holding_empty hnodup
    (fun _ _ => List.not_mem_nil) hfront hm
  simp only [Kind.record, hall, halone]

theorem Kind.record_noneWrong (hf : f.names.Nodup) {members members' : List (String × Json)}
    (hperm : members.Perm members') (hnodup : (Table.names members).Nodup)
    (haccepts : ∀ m ∈ members, f.Accepts m.1 m.2) :
    (Kind.record record f build).ofJson (.object members) =
      (Kind.record record f build).ofJson (.object members') := by
  have hempty := f.holding_empty
  obtain ⟨slots, hput⟩ := (Fields.exists_putAll_iff hf hempty).2
    ⟨haccepts, hnodup, fun _ _ => List.not_mem_nil⟩
  obtain ⟨slots', hput'⟩ := (Fields.exists_putAll_iff hf hempty).2
    ⟨fun m hm => haccepts m (hperm.symm.subset hm), (hperm.map Prod.fst).nodup_iff.1 hnodup,
      fun _ _ => List.not_mem_nil⟩
  have hslots' : f.Holding members slots' :=
    (Fields.holding_putAll hf hempty hput').congr fun _ _ _ => hperm.symm.mem_iff
  obtain rfl : slots = slots' := (Fields.holding_putAll hf hempty hput).unique hnodup hslots'
  simp only [Kind.record, hput, hput']

end

/-! ## Declared records -/

/-- No declared field of the record type takes the member: none has its name, or the one that has
does not take its content. -/
def Wrong (record : String) (m : String × Json) : Prop :=
  ∀ shape, RecordShape.ofName? record = some shape →
    ∀ field ∈ shape.fields, field.name = m.1 → ¬Conforms field.type m.2

theorem Fields.Agrees.accepts_iff {τ : Type} {f : Fields τ} {shapes : List FieldShape}
    {writes : τ → List (String × Json)} (h : f.Agrees shapes writes)
    (hnodup : (shapes.map FieldShape.name).Nodup) {name : String} {x : Json} :
    f.Accepts name x ↔ ∃ field ∈ shapes, field.name = name ∧ Conforms field.type x := by
  induction h with
  | nil => exact iff_of_false id fun ⟨_, hfield, _⟩ => nomatch hfield
  | @field _ _ n kind rest shape shapes _ _ writes named first others joined ih =>
    obtain ⟨hfresh, hnodup⟩ := List.nodup_cons.1 hnodup
    rw [Fields.Accepts]
    split_ifs with hname
    · rw [first.accepts]
      constructor
      · intro hconforms
        exact ⟨shape, List.mem_cons_self, named ▸ hname, hconforms⟩
      · rintro ⟨field, hfield, hfieldName, hconforms⟩
        rcases List.mem_cons.1 hfield with rfl | hmem
        · exact hconforms
        · have hmemName := List.mem_map_of_mem (f := FieldShape.name) hmem
          rw [hfieldName, ← hname, named] at hmemName
          exact absurd hmemName hfresh
    · rw [ih hnodup]
      constructor
      · rintro ⟨field, hfield, hconforms⟩
        exact ⟨field, List.mem_cons_of_mem _ hfield, hconforms⟩
      · rintro ⟨field, hfield, hfieldName, hconforms⟩
        rcases List.mem_cons.1 hfield with rfl | hmem
        · exact absurd (named.trans hfieldName) hname
        · exact ⟨field, hmem, hfieldName, hconforms⟩

theorem Fields.Agrees.accepts_iff_not_wrong {τ : Type} {record : String} {shape : RecordShape}
    {f : Fields τ} {writes : τ → List (String × Json)}
    (declared : RecordShape.ofName? record = some shape) (h : f.Agrees shape.fields writes)
    {m : String × Json} : f.Accepts m.1 m.2 ↔ ¬Wrong record m := by
  rw [h.accepts_iff (declared_names_nodup declared)]
  constructor
  · rintro ⟨field, hfield, hname, hconforms⟩ hwrong
    exact hwrong shape declared field hfield hname hconforms
  · intro hright
    by_contra hnone
    refine hright fun shape' declared' field hfield hname hconforms => hnone ?_
    obtain rfl := Option.some.inj (declared.symm.trans declared')
    exact ⟨field, hfield, hname, hconforms⟩

/-- The kind is that of records whose fields agree with those of the shape of the name. -/
inductive Row (name : String) : Kind Record → Prop
  | intro {τ α : Type} {f : Fields τ} (build : τ → α) (g : α → Record) (shape : RecordShape)
      (writes : τ → List (String × Json)) (declared : RecordShape.ofName? name = some shape)
      (agrees : f.Agrees shape.fields writes) : Row name ((Kind.record name f build).map g)

theorem row_of_mem {name : String} {kind : Kind Record} (h : (name, kind) ∈ variants) :
    Row name kind := by
  refine variants_induction ?_ ?_ ?_ ?_ ?_ h
  · exact .intro _ _ .myType (fun contents => [("real", .integer contents.1.toInt)]) rfl
      (.field (fun _ => []) rfl Kind.integer_agrees .nil fun _ _ => rfl)
  · exact .intro _ _ .complexSegment _ rfl segmentFields_agrees
  · exact .intro _ _ .complexSegment22 _ rfl segmentFields_agrees
  · exact .intro _ _ .a (fun contents => [("a_string", .text contents.1)]) rfl
      (.field (fun _ => []) rfl Kind.text_agrees .nil fun _ _ => rfl)
  · exact .intro _ _ .b (fun contents =>
        [("a", .object contents.1.members), ("b_string", .text contents.2.1)]) rfl
      (.field (fun contents => [("b_string", .text contents.1)]) rfl a_agrees
        (.field (fun _ => []) rfl Kind.text_agrees .nil fun _ _ => rfl) fun _ _ => rfl)

namespace Row

variable {name : String} {kind : Kind Record}

/-- Behind members that are not wrong, a wrong one fails as it does alone. -/
theorem firstWrong (h : Row name kind) {front back : List (String × Json)} {m : String × Json}
    (hnodup : (Table.names (front ++ m :: back)).Nodup) (hfront : ∀ m' ∈ front, ¬Wrong name m')
    (hm : Wrong name m) :
    kind.ofJson (.object (front ++ m :: back)) = kind.ofJson (.object [m]) := by
  obtain ⟨build, g, shape, writes, declared, agrees⟩ := h
  have hf := agrees.names_eq ▸ declared_names_nodup declared
  refine congrArg (Except.map g) (Kind.record_firstWrong hf hnodup (fun m' hm' => ?_) ?_)
  · exact (agrees.accepts_iff_not_wrong declared).2 (hfront m' hm')
  · exact fun haccepts => (agrees.accepts_iff_not_wrong declared).1 haccepts hm

/-- Where no member is wrong their order makes no difference. -/
theorem noneWrong (h : Row name kind) {members members' : List (String × Json)}
    (hperm : members.Perm members') (hnodup : (Table.names members).Nodup)
    (hright : ∀ m ∈ members, ¬Wrong name m) :
    kind.ofJson (.object members) = kind.ofJson (.object members') := by
  obtain ⟨build, g, shape, writes, declared, agrees⟩ := h
  have hf := agrees.names_eq ▸ declared_names_nodup declared
  refine congrArg (Except.map g) (Kind.record_noneWrong hf hperm hnodup fun m hm => ?_)
  exact (agrees.accepts_iff_not_wrong declared).2 (hright m hm)

/-- With at most one wrong member the order of the members makes no difference. -/
theorem oneWrong (h : Row name kind) {members members' : List (String × Json)}
    (hperm : members.Perm members') (hnodup : (Table.names members).Nodup)
    (hone : ∀ m ∈ members, ∀ m' ∈ members, Wrong name m → Wrong name m' → m = m') :
    kind.ofJson (.object members) = kind.ofJson (.object members') := by
  have hnodup' : (Table.names members').Nodup := (hperm.map Prod.fst).nodup_iff.1 hnodup
  rcases exists_first (Wrong name) members with hnone | ⟨front, m, back, rfl, hfront, hm⟩
  · exact h.noneWrong hperm hnodup hnone
  · have hmem : m ∈ front ++ m :: back := List.mem_append_right _ List.mem_cons_self
    obtain ⟨front', back', rfl⟩ := List.append_of_mem (hperm.subset hmem)
    have hfront' : ∀ m' ∈ front', ¬Wrong name m' := by
      intro m' hm' hwrong
      obtain rfl := hone m' (hperm.symm.subset (List.mem_append_left _ hm')) m hmem hwrong hm
      rw [Table.names_append] at hnodup'
      exact List.disjoint_of_nodup_append hnodup' (List.mem_map_of_mem hm') List.mem_cons_self
    rw [h.firstWrong hnodup hfront hm, h.firstWrong hnodup' hfront' hm]

end Row

end RecordCheck.Decode
