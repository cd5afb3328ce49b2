import RecordCheck.Proofs.Table
import RecordCheck.Decode.Fields
set_option autoImplicit false

/-!
# Decode: what a row of fields accepts

While members arrive, the slots hold exactly what the members so far have given: `Fields.Holding`.
Each step keeps that, so the members that a record accepts are, in any order, one for each field,
and the array form is the same in the order of the fields.
-/

namespace RecordCheck.Decode

namespace Fields

variable {τ : Type}

/-- The slots hold what the members have given, and nothing for the fields without a member. -/
def Holding (members : List (String × Json)) {τ : Type} : (f : Fields τ) → f.Slots → Prop
  | .nil, _ => True
  | .field name kind rest, slots =>
    (match slots.1 with
      | none => name ∉ Table.names members
      | some a => ∃ x, (name, x) ∈ members ∧ kind.ofJson x = .ok a) ∧
    rest.Holding members slots.2

/-- Each field has a member, and the contents are what the members decode to. -/
def Filled (members : List (String × Json)) {τ : Type} : Fields τ → τ → Prop
  | .nil, _ => True
  | .field name kind rest, contents =>
    (∃ x, (name, x) ∈ members ∧ kind.ofJson x = .ok contents.1) ∧ rest.Filled members contents.2

/-- A field has this name and decodes the value. -/
def Accepts (name : String) (x : Json) {τ : Type} : Fields τ → Prop
  | .nil => False
  | .field n kind rest => if n = name then ∃ a, kind.ofJson x = .ok a else rest.Accepts name x

theorem mem_names_of_accepts {f : Fields τ} {name : String} {x : Json} (h : f.Accepts name x) :
    name ∈ f.names := by
  induction f with
  | nil => exact h.elim
  | field n kind rest ih =>
    rw [Accepts] at h
    split_ifs at h with hname
    · exact List.mem_cons.2 (.inl hname.symm)
    · exact List.mem_cons_of_mem _ (ih h)

theorem holding_empty (f : Fields τ) : f.Holding [] f.empty := by
  induction f with
  | nil => trivial
  | field n kind rest ih => exact ⟨nofun, ih⟩

/-- Only the members with the name of a field matter. -/
theorem Holding.congr {f : Fields τ} {slots : f.Slots} {members members' : List (String × Json)}
    (h : f.Holding members slots)
    (hmembers : ∀ name ∈ f.names, ∀ x, (name, x) ∈ members ↔ (name, x) ∈ members') :
    f.Holding members' slots := by
  induction f with
  | nil => trivial
  | field n kind rest ih =>
    obtain ⟨hslot, hrest⟩ := h
    refine ⟨?_, ih hrest fun name hname => hmembers name (List.mem_cons_of_mem _ hname)⟩
    have hhead := hmembers n List.mem_cons_self
    split
    · rename_i hnone
      rw [hnone] at hslot
      simp only [Table.mem_names_iff, ← hhead] at hslot ⊢
      exact hslot
    · rename_i a hsome
      rw [hsome] at hslot
      simp only [← hhead]
      exact hslot

/-- What may be done with a member is told by its name and the names before it. -/
theorem state_eq {f : Fields τ} {slots : f.Slots} {members : List (String × Json)}
    (h : f.Holding members slots) (name : String) :
    f.state name slots = if name ∈ f.names then
      (if name ∈ Table.names members then .taken else .free) else .unknown := by
  induction f with
  | nil => rfl
  | field n kind rest ih =>
    obtain ⟨hslot, hrest⟩ := h
    rw [state]
    by_cases hname : n = name
    · subst hname
      have hmem : n ∈ (Fields.field n kind rest).names := List.mem_cons_self
      obtain ⟨slot, slots⟩ := slots
      cases slot with
      | none => simp only [if_pos, hmem, if_neg (show n ∉ Table.names members from hslot)]; rfl
      | some a =>
        obtain ⟨x, hx, -⟩ := hslot
        simp only [if_pos, hmem, Table.mem_names_of_mem hx]
        rfl
    · have hmem : name ∈ (Fields.field n kind rest).names ↔ name ∈ rest.names := by
        rw [names, List.mem_cons]
        exact or_iff_right fun heq => hname heq.symm
      rw [if_neg hname, ih hrest]
      simp only [hmem]

theorem exists_put_iff {f : Fields τ} {name : String} (hname : name ∈ f.names) (x : Json)
    (slots : f.Slots) : (∃ after, f.put name x slots = .ok after) ↔ f.Accepts name x := by
  induction f with
  | nil => exact nomatch hname
  | field n kind rest ih =>
    rw [put, Accepts]
    split_ifs with heq
    · cases kind.ofJson x with
      | error failure => exact iff_of_false nofun nofun
      | ok a => exact iff_of_true ⟨_, rfl⟩ ⟨a, rfl⟩
    · have hrest : name ∈ rest.names := (List.mem_cons.1 hname).resolve_left fun h => heq h.symm
      rw [← ih hrest slots.2]
      cases rest.put name x slots.2 with
      | error failure => exact iff_of_false nofun nofun
      | ok others => exact iff_of_true ⟨_, rfl⟩ ⟨others, rfl⟩

theorem holding_put {f : Fields τ} (hf : f.names.Nodup) {slots after : f.Slots}
    {members : List (String × Json)} (h : f.Holding members slots) {name : String} {x : Json}
    (hput : f.put name x slots = .ok after) : f.Holding (members ++ [(name, x)]) after := by
  induction f with
  | nil => trivial
  | field n kind rest ih =>
    rw [put] at hput
    obtain ⟨slot, slots⟩ := slots
    obtain ⟨hslot, hrest⟩ := h
    obtain ⟨hn, hnodup⟩ := List.nodup_cons.1 hf
    split_ifs at hput with heq
    · subst heq
      cases hx : kind.ofJson x with
      | error failure => rw [hx] at hput; exact nomatch hput
      | ok a =>
        rw [hx] at hput
        obtain rfl := Except.ok.inj hput
        refine ⟨⟨x, List.mem_append_right _ (List.mem_singleton.2 rfl), hx⟩,
          Holding.congr hrest fun name hname y => ?_⟩
        rw [List.mem_append, List.mem_singleton]
        refine (or_iff_left fun hlast => ?_).symm
        exact hn ((Prod.mk.inj hlast).1 ▸ hname)
    · cases hothers : rest.put name x slots with
      | error failure => rw [hothers] at hput; exact nomatch hput
      | ok others =>
        rw [hothers] at hput
        obtain rfl := Except.ok.inj hput
        refine ⟨?_, ih hnodup hrest hothers⟩
        cases slot with
        | none =>
          intro hmem
          obtain ⟨y, hy⟩ := Table.mem_names_iff.1 hmem
          rcases List.mem_append.1 hy with hy | hy
          · exact hslot (Table.mem_names_of_mem hy)
          · exact heq (Prod.mk.inj (List.mem_singleton.1 hy)).1
        | some a =>
          obtain ⟨y, hy, hdecoded⟩ := hslot
          exact ⟨y, List.mem_append_left _ hy, hdecoded⟩

/-- The members are taken if each belongs to a field that decodes it and has no other member. -/
theorem exists_putAll_iff {f : Fields τ} (hf : f.names.Nodup) {done members : List (String × Json)}
    {slots : f.Slots} (h : f.Holding done slots) :
    (∃ after, f.putAll members slots = .ok after) ↔
      (∀ m ∈ members, f.Accepts m.1 m.2) ∧ (Table.names members).Nodup ∧
        ∀ m ∈ members, m.1 ∉ Table.names done := by
  have hfailed : ∀ failure, ¬∃ after, (.error failure : Except Failure f.Slots) = .ok after := by
    intro failure hok
    obtain ⟨after, hafter⟩ := hok
    cases hafter
  induction members generalizing done slots with
  | nil =>
    exact iff_of_true ⟨slots, rfl⟩
      ⟨List.forall_mem_nil _, List.nodup_nil, List.forall_mem_nil _⟩
  | cons m members ih =>
    obtain ⟨name, x⟩ := m
    rw [putAll, state_eq h]
    by_cases hname : name ∈ f.names
    · rw [if_pos hname]
      by_cases hdone : name ∈ Table.names done
      · rw [if_pos hdone]
        exact iff_of_false (hfailed _) fun hall => hall.2.2 (name, x) List.mem_cons_self hdone
      · rw [if_neg hdone]
        cases hput : f.put name x slots with
        | error failure =>
          have hnot : ¬f.Accepts name x := by
            rw [← exists_put_iff hname x slots, hput]
            exact hfailed failure
          exact iff_of_false (hfailed _) fun hall => hnot (hall.1 (name, x) List.mem_cons_self)
        | ok after =>
          have haccepts := (exists_put_iff hname x slots).1 ⟨after, hput⟩
          refine (ih (holding_put hf h hput)).trans ?_
          have hlast : ∀ m : String × Json, m.1 ∈ Table.names (done ++ [(name, x)]) ↔
              m.1 ∈ Table.names done ∨ m.1 = name := by
            simp [Table.names]
          simp only [hlast, not_or, List.forall_mem_cons, Table.names_cons, List.nodup_cons]
          constructor
          · rintro ⟨hall, hnodup, hfresh⟩
            refine ⟨⟨haccepts, hall⟩, ⟨fun hmem => ?_, hnodup⟩, hdone, fun m hm => (hfresh m hm).1⟩
            obtain ⟨y, hy⟩ := Table.mem_names_iff.1 hmem
            exact (hfresh _ hy).2 rfl
          · rintro ⟨⟨-, hall⟩, ⟨hnew, hnodup⟩, -, hfresh⟩
            refine ⟨hall, hnodup, fun m hm => ⟨hfresh m hm, fun heq => hnew ?_⟩⟩
            exact heq ▸ Table.mem_names_of_mem hm
    · rw [if_neg hname]
      exact iff_of_false (hfailed _) fun hall =>
        hname (mem_names_of_accepts (hall.1 (name, x) List.mem_cons_self))

theorem holding_putAll {f : Fields τ} (hf : f.names.Nodup) {done members : List (String × Json)}
    {slots after : f.Slots} (h : f.Holding done slots)
    (hput : f.putAll members slots = .ok after) : f.Holding (done ++ members) after := by
  induction members generalizing done slots with
  | nil =>
    obtain rfl := Except.ok.inj hput
    rwa [List.append_nil]
  | cons m members ih =>
    obtain ⟨name, x⟩ := m
    rw [putAll] at hput
    split at hput
    · exact nomatch hput
    · exact nomatch hput
    · split at hput
      · exact nomatch hput
      · rename_i next hnext
        rw [List.append_cons]
        exact ih (holding_put hf h hnext) hput

/-- Members are taken in two parts as they are all at once. -/
theorem putAll_append {f : Fields τ} (front back : List (String × Json)) (slots : f.Slots) :
    f.putAll (front ++ back) slots = (f.putAll front slots).bind (f.putAll back) := by
  induction front generalizing slots with
  | nil => rfl
  | cons m front ih =>
    obtain ⟨name, x⟩ := m
    rw [List.cons_append, putAll, putAll]
    cases f.state name slots with
    | unknown => rfl
    | taken => rfl
    | free =>
      cases f.put name x slots with
      | error failure => rfl
      | ok after => exact ih after

/-- Members that are accepted do not stop those behind them, and leave their names free. -/
theorem exists_putAll_append {f : Fields τ} (hf : f.names.Nodup)
    {done front back : List (String × Json)} {slots : f.Slots} (h : f.Holding done slots)
    (hnodup : (Table.names (front ++ back)).Nodup)
    (hfresh : ∀ m ∈ front ++ back, m.1 ∉ Table.names done)
    (hfront : ∀ m ∈ front, f.Accepts m.1 m.2) :
    ∃ after, f.Holding (done ++ front) after ∧ (∀ m ∈ back, m.1 ∉ Table.names (done ++ front)) ∧
      f.putAll (front ++ back) slots = f.putAll back after := by
  rw [Table.names_append] at hnodup
  obtain ⟨after, hput⟩ := (exists_putAll_iff hf h).2 ⟨hfront, hnodup.of_append_left,
    fun m hm => hfresh m (List.mem_append_left _ hm)⟩
  refine ⟨after, holding_putAll hf h hput, fun m hm => ?_, ?_⟩
  · refine Table.not_mem_names_append.2 ⟨hfresh m (List.mem_append_right _ hm), fun hmem => ?_⟩
    exact List.disjoint_of_nodup_append hnodup hmem (List.mem_map_of_mem hm)
  · rw [putAll_append, hput]
    rfl

theorem finish_eq_ok_iff {f : Fields τ} {members : List (String × Json)}
    (hmembers : (Table.names members).Nodup) {slots : f.Slots} (h : f.Holding members slots)
    (contents : τ) : f.finish slots = .ok contents ↔ f.Filled members contents := by
  induction f with
  | nil => exact iff_of_true rfl trivial
  | field n kind rest ih =>
    rw [finish, Filled]
    obtain ⟨slot, slots⟩ := slots
    obtain ⟨hslot, hrest⟩ := h
    obtain ⟨content, contents⟩ := contents
    cases slot with
    | none =>
      refine iff_of_false nofun fun hfilled => ?_
      obtain ⟨⟨x, hx, -⟩, -⟩ := hfilled
      exact hslot (Table.mem_names_of_mem hx)
    | some a =>
      obtain ⟨x, hx, ha⟩ := hslot
      have hcontent : a = content ↔ ∃ x, (n, x) ∈ members ∧ kind.ofJson x = .ok content := by
        constructor
        · rintro rfl
          exact ⟨x, hx, ha⟩
        · rintro ⟨y, hy, hcontent⟩
          rw [← Table.content_unique hmembers hx hy, ha] at hcontent
          exact Except.ok.inj hcontent
      rw [← hcontent, ← ih hrest]
      cases rest.finish slots with
      | error mismatch => exact iff_of_false nofun fun hall => nomatch hall.2
      | ok others =>
        show Except.ok (a, others) = Except.ok (content, contents) ↔
          a = content ∧ Except.ok others = Except.ok contents
        rw [Except.ok.injEq, Prod.mk.injEq, Except.ok.injEq]

theorem Filled.names_subset {f : Fields τ} {members : List (String × Json)} {contents : τ}
    (h : f.Filled members contents) : ∀ name ∈ f.names, name ∈ Table.names members := by
  induction f with
  | nil => exact nofun
  | field n kind rest ih =>
    obtain ⟨⟨x, hx, -⟩, hrest⟩ := h
    exact List.forall_mem_cons.2 ⟨Table.mem_names_of_mem hx, ih hrest⟩

theorem Filled.accepts {f : Fields τ} {members : List (String × Json)} {contents : τ}
    (h : f.Filled members contents) (hmembers : (Table.names members).Nodup) {name : String}
    {x : Json} (hx : (name, x) ∈ members) (hname : name ∈ f.names) : f.Accepts name x := by
  induction f with
  | nil => exact nomatch hname
  | field n kind rest ih =>
    obtain ⟨⟨y, hy, hdecoded⟩, hrest⟩ := h
    rw [Accepts]
    split_ifs with heq
    · subst heq
      rw [← Table.content_unique hmembers hx hy] at hdecoded
      exact ⟨_, hdecoded⟩
    · exact ih hrest ((List.mem_cons.1 hname).resolve_left fun h => heq h.symm)

theorem Filled.congr {f : Fields τ} {members members' : List (String × Json)} {contents : τ}
    (h : f.Filled members contents) (hmembers : ∀ m ∈ members, m ∈ members') :
    f.Filled members' contents := by
  induction f with
  | nil => trivial
  | field n kind rest ih =>
    obtain ⟨⟨x, hx, hdecoded⟩, hrest⟩ := h
    exact ⟨⟨x, hmembers _ hx, hdecoded⟩, ih hrest⟩

/-- The items are, in order, what the fields decode to the contents; further items may follow. -/
def FilledInOrder {τ : Type} : Fields τ → List Json → τ → Prop
  | .nil, _, _ => True
  | .field _ _ _, [], _ => False
  | .field _ kind rest, x :: items, contents =>
    kind.ofJson x = .ok contents.1 ∧ rest.FilledInOrder items contents.2

theorem FilledInOrder.length_le {f : Fields τ} {items : List Json} {contents : τ}
    (h : f.FilledInOrder items contents) : f.names.length ≤ items.length := by
  induction f generalizing items with
  | nil => exact Nat.zero_le _
  | field n kind rest ih =>
    cases items with
    | nil => exact h.elim
    | cons x items => exact Nat.succ_le_succ (ih h.2)

theorem ofItems_eq_ok_iff {f : Fields τ} {few : Nat → Mismatch} {index : Nat} {items : List Json}
    {contents : τ} : f.ofItems few index items = .ok contents ↔ f.FilledInOrder items contents := by
  induction f generalizing index items with
  | nil => exact iff_of_true rfl trivial
  | field n kind rest ih =>
    cases items with
    | nil => exact iff_of_false nofun id
    | cons x items =>
      obtain ⟨content, contents⟩ := contents
      rw [ofItems, FilledInOrder, ← @ih (index + 1)]
      cases kind.ofJson x with
      | error failure => exact iff_of_false nofun fun hall => nomatch hall.1
      | ok a =>
        cases rest.ofItems few (index + 1) items with
        | error failure => exact iff_of_false nofun fun hall => nomatch hall.2
        | ok others =>
          show Except.ok (a, others) = Except.ok (content, contents) ↔
            Except.ok a = Except.ok content ∧ Except.ok others = Except.ok contents
          simp only [Except.ok.injEq, Prod.mk.injEq]

end Fields

/-! ## Records -/

section

variable {τ α : Type} {name : String} {f : Fields τ} {build : τ → α} {r : α}

/-- An object is a record if its members are, in any order, one for each field, and each is decoded
by its field. -/
theorem Kind.record_object_iff (hf : f.names.Nodup) {members : List (String × Json)} :
    (Kind.record name f build).ofJson (.object members) = .ok r ↔
      ∃ contents, (Table.names members).Perm f.names ∧ f.Filled members contents ∧
        build contents = r := by
  have hempty := f.holding_empty
  constructor
  · intro h
    simp only [Kind.record] at h
    split at h
    · exact nomatch h
    · rename_i slots hput
      obtain ⟨haccepts, hnodup, -⟩ := (Fields.exists_putAll_iff hf hempty).1 ⟨slots, hput⟩
      have hholding := Fields.holding_putAll hf hempty hput
      split at h
      · exact nomatch h
      · rename_i contents hfinish
        have hfilled := (Fields.finish_eq_ok_iff hnodup hholding contents).1 hfinish
        refine ⟨contents, ?_, hfilled, Except.ok.inj h⟩
        refine (List.perm_ext_iff_of_nodup hnodup hf).2 fun n =>
          ⟨fun hn => ?_, hfilled.names_subset n⟩
        obtain ⟨x, hx⟩ := Table.mem_names_iff.1 hn
        exact Fields.mem_names_of_accepts (haccepts _ hx)
  · rintro ⟨contents, hperm, hfilled, rfl⟩
    have hnodup : (Table.names members).Nodup := hperm.nodup_iff.2 hf
    have haccepts : ∀ m ∈ members, f.Accepts m.1 m.2 := fun m hm =>
      hfilled.accepts hnodup hm (hperm.subset (Table.mem_names_of_mem hm))
    obtain ⟨slots, hput⟩ :=
      (Fields.exists_putAll_iff hf hempty).2 ⟨haccepts, hnodup, fun _ _ => nofun⟩
    have hholding := Fields.holding_putAll hf hempty hput
    simp only [Kind.record, hput, (Fields.finish_eq_ok_iff hnodup hholding contents).2 hfilled]

/-- What the kind decodes from an object does not depend on the order of its members. -/
def Kind.Unordered (kind : Kind α) : Prop :=
  ∀ members members' a, members.Perm members' →
    kind.ofJson (.object members) = .ok a → kind.ofJson (.object members') = .ok a

theorem Kind.record_unordered (hf : f.names.Nodup) : (Kind.record name f build).Unordered := by
  intro members members' a hperm h
  obtain ⟨contents, hnames, hfilled, rfl⟩ := (Kind.record_object_iff hf).1 h
  exact (Kind.record_object_iff hf).2 ⟨contents, (hperm.symm.map Prod.fst).trans hnames,
    hfilled.congr fun m hm => hperm.subset hm, rfl⟩

/-- An array is a record if its items are, in order, one for each field, and each is decoded by its
field. -/
theorem Kind.record_array_iff {items : List Json} :
    (Kind.record name f build).ofJson (.array items) = .ok r ↔
      ∃ contents, items.length = f.names.length ∧ f.FilledInOrder items contents ∧
        build contents = r := by
  constructor
  · intro h
    simp only [Kind.record] at h
    split at h
    · exact nomatch h
    · rename_i contents hitems
      have hfilled := Fields.ofItems_eq_ok_iff.1 hitems
      split_ifs at h with hlong
      exact ⟨contents, le_antisymm (not_lt.1 hlong) hfilled.length_le, hfilled, Except.ok.inj h⟩
  · rintro ⟨contents, hlength, hfilled, rfl⟩
    simp only [Kind.record, Fields.ofItems_eq_ok_iff.2 hfilled, hlength, lt_irrefl, if_false]

/-- Nothing else is a record. -/
theorem Kind.record_cases {x : Json} (h : (Kind.record name f build).ofJson x = .ok r) :
    (∃ members, x = .object members) ∨ ∃ items, x = .array items := by
  cases x with
  | object members => exact .inl ⟨members, rfl⟩
  | array items => exact .inr ⟨items, rfl⟩
  | null | bool _ | integer _ | float _ | text _ => exact nomatch h

theorem Kind.map_eq_ok_iff {β : Type} {kind : Kind α} {g : α → β} {x : Json} {b : β} :
    (kind.map g).ofJson x = .ok b ↔ ∃ a, kind.ofJson x = .ok a ∧ g a = b := by
  simp only [Kind.map]
  cases kind.ofJson x with
  | error failure => exact iff_of_false nofun nofun
  | ok a => simp [Except.map]

theorem Kind.Unordered.map {β : Type} {kind : Kind α} (h : kind.Unordered) (g : α → β) :
    (kind.map g).Unordered := by
  intro members members' b hperm hdecoded
  rw [Kind.map_eq_ok_iff] at hdecoded ⊢
  obtain ⟨a, ha, rfl⟩ := hdecoded
  exact ⟨a, h members members' a hperm ha, rfl⟩

end

end RecordCheck.Decode
