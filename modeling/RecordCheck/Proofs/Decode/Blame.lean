import RecordCheck.Proofs.Decode.FirstWrong
import RecordCheck.Proofs.Json.Nodes
set_option autoImplicit false

/-!
# Decode: the node that a failure names

A failure names a node of the value by the steps that lead to it, and that node is why decoding
fails: no value in which the same steps lead to the same node is decoded (`Kind.Blames`).  A record
blames the node that the kind of a field blames within a member or item, or the member that no field
has, or itself.  Main statement: `record_blames_node`.
-/

namespace RecordCheck.Decode

open Json (Leads)

/-! ## Kinds -/

section

variable {τ α β : Type}

/-- The node that the steps lead to is why the kind rejects the value. -/
def Kind.BlamesAt (kind : Kind α) (steps : Json.Path) (x : Json) : Prop :=
  ∃ node, Leads steps x node ∧ ∀ y a, Leads steps y node → kind.ofJson y ≠ .ok a

/-- The path of each failure leads to the node that is to blame. -/
def Kind.Blames (kind : Kind α) : Prop :=
  ∀ x failure, Json.Unique x → kind.ofJson x = .error failure → kind.BlamesAt failure.path x

/-- The kinds of all fields blame a node. -/
def Fields.Blame {τ : Type} : Fields τ → Prop
  | .nil => True
  | .field _ kind rest => kind.Blames ∧ rest.Blame

/-- No steps lead to the value itself, and what is rejected once is rejected again. -/
theorem Kind.blamesAt_here {kind : Kind α} {x : Json} {failure : Failure}
    (h : kind.ofJson x = .error failure) : kind.BlamesAt [] x := by
  refine ⟨x, .here x, fun y a hy => ?_⟩
  cases hy
  rw [h]
  exact nofun

theorem Kind.map_eq_error_iff {kind : Kind α} {g : α → β} {x : Json} {failure : Failure} :
    (kind.map g).ofJson x = .error failure ↔ kind.ofJson x = .error failure := by
  simp only [Kind.map]
  cases kind.ofJson x with
  | error failure' => simp [Except.map]
  | ok a => simp [Except.map]

theorem Kind.Blames.map {kind : Kind α} (h : kind.Blames) (g : α → β) : (kind.map g).Blames := by
  intro x failure hx hfailure
  obtain ⟨node, hleads, hrejected⟩ := h x failure hx (Kind.map_eq_error_iff.1 hfailure)
  refine ⟨node, hleads, fun y b hy hdecoded => ?_⟩
  obtain ⟨a, ha, -⟩ := Kind.map_eq_ok_iff.1 hdecoded
  exact hrejected y a hy ha

/-- A value without nodes of its own is to blame itself. -/
theorem Kind.scalar_blames {expected : Expected} {judge : Json → Except Failure α}
    (h : ∀ x failure, judge x = .error failure → failure.path = []) :
    (Kind.scalar expected judge).Blames := by
  intro x failure _ hfailure
  rw [h x failure hfailure]
  exact Kind.blamesAt_here hfailure

theorem Kind.integer_blames : Kind.integer.Blames := by
  refine Kind.scalar_blames fun x failure h => ?_
  cases x with
  | integer n =>
    simp only at h
    split_ifs at h
    obtain rfl := Except.error.inj h
    rfl
  | null | bool _ | float _ | text _ | array _ | object _ =>
    obtain rfl := Except.error.inj h
    rfl

theorem Kind.float_blames : Kind.float.Blames := by
  refine Kind.scalar_blames fun x failure h => ?_
  cases x with
  | integer _ | float _ => exact nomatch h
  | null | bool _ | text _ | array _ | object _ =>
    obtain rfl := Except.error.inj h
    rfl

theorem Kind.text_blames : Kind.text.Blames := by
  refine Kind.scalar_blames fun x failure h => ?_
  cases x with
  | text _ => exact nomatch h
  | null | bool _ | integer _ | float _ | array _ | object _ =>
    obtain rfl := Except.error.inj h
    rfl

/-! ## Rows of fields -/

namespace Fields

variable {f : Fields τ}

/-- What a field rejects is to blame for it, under the same name in any members. -/
theorem put_blames (hf : f.Blame) {name : String} {x : Json} (hx : Json.Unique x) {slots : f.Slots}
    {failure : Failure} (h : f.put name x slots = .error failure) :
    ∃ node, Leads failure.path x node ∧ ∀ y, Leads failure.path y node → ¬f.Accepts name y := by
  induction f with
  | nil => cases h
  | field n kind rest ih =>
    rw [put] at h
    obtain ⟨slot, slots⟩ := slots
    obtain ⟨hkind, hrest⟩ := hf
    simp only [Accepts]
    split_ifs at h ⊢ with hname
    · cases hcase : kind.ofJson x with
      | ok a =>
        rw [hcase] at h
        cases h
      | error failure' =>
        rw [hcase] at h
        obtain rfl := Except.error.inj h
        obtain ⟨node, hleads, hrejected⟩ := hkind x failure' hx hcase
        refine ⟨node, hleads, fun y hy haccepts => ?_⟩
        obtain ⟨a, ha⟩ := haccepts
        exact hrejected y a hy ha
    · cases hcase : rest.put name x slots with
      | ok others =>
        rw [hcase] at h
        cases h
      | error failure' =>
        rw [hcase] at h
        obtain rfl := Except.error.inj h
        exact ih hrest hcase

/-- A single member fails under its name, if that is no field's name or its field rejects it. -/
theorem putAll_single_error {name : String} {x : Json} {failure : Failure}
    (h : f.putAll [(name, x)] f.empty = .error failure) :
    (name ∉ f.names ∧ failure.path = [.member name]) ∨
      ∃ reason, f.put name x f.empty = .error reason ∧
        failure.path = .member name :: reason.path := by
  have hfree : name ∉ Table.names ([] : List (String × Json)) := List.not_mem_nil
  rw [putAll, state_eq f.holding_empty, if_neg hfree] at h
  by_cases hname : name ∈ f.names
  · rw [if_pos hname] at h
    cases hput : f.put name x f.empty with
    | ok slots =>
      simp only [hput, putAll] at h
      cases h
    | error reason =>
      simp only [hput] at h
      obtain rfl := Except.error.inj h
      exact .inr ⟨reason, rfl, rfl⟩
  · rw [if_neg hname] at h
    obtain rfl := Except.error.inj h
    exact .inl ⟨hname, rfl⟩

theorem putAll_single_blames (hf : f.Blame) {name : String} {x : Json} (hx : Json.Unique x)
    {failure : Failure} (h : f.putAll [(name, x)] f.empty = .error failure) :
    ∃ steps node, failure.path = .member name :: steps ∧ Leads steps x node ∧
      ∀ y, Leads steps y node → ¬f.Accepts name y := by
  rcases putAll_single_error h with ⟨hname, hpath⟩ | ⟨reason, hput, hpath⟩
  · exact ⟨[], x, hpath, .here x, fun y _ haccepts => hname (mem_names_of_accepts haccepts)⟩
  · obtain ⟨node, hleads, hrejected⟩ := put_blames hf hx hput
    exact ⟨reason.path, node, hpath, hleads, hrejected⟩

/-- Items fail at the first that is wrong, or as a whole. -/
theorem ofItems_blames (hf : f.Blame) {few : Nat → Mismatch} {index : Nat} {items : List Json}
    (hitems : ∀ x ∈ items, Json.Unique x) {failure : Failure}
    (h : f.ofItems few index items = .error failure) :
    failure.path = [] ∨ ∃ i steps x node, failure.path = .index (index + i) :: steps ∧
      items[i]? = some x ∧ Leads steps x node ∧ ∀ (others : List Json) y contents,
        others[i]? = some y → Leads steps y node → ¬f.FilledInOrder others contents := by
  induction f generalizing index items with
  | nil => cases h
  | field n kind rest ih =>
    obtain ⟨hkind, hrest⟩ := hf
    cases items with
    | nil =>
      obtain rfl := Except.error.inj h
      exact .inl rfl
    | cons x items =>
      obtain ⟨hx, hitems⟩ := List.forall_mem_cons.1 hitems
      rw [ofItems] at h
      cases hcase : kind.ofJson x with
      | error reason =>
        rw [hcase] at h
        obtain rfl := Except.error.inj h
        obtain ⟨node, hleads, hrejected⟩ := hkind x reason hx hcase
        refine .inr ⟨0, reason.path, x, node, rfl, rfl, hleads, ?_⟩
        intro others y contents hy hleads' hfilled
        cases others with
        | nil => cases hy
        | cons y' others =>
          obtain rfl := Option.some.inj hy
          exact hrejected y' contents.1 hleads' hfilled.1
      | ok a =>
        rw [hcase] at h
        cases hothers : rest.ofItems few (index + 1) items with
        | ok contents =>
          simp only [hothers] at h
          cases h
        | error reason =>
          simp only [hothers] at h
          obtain rfl := Except.error.inj h
          rcases ih hrest hitems hothers with hpath | ⟨i, steps, y, node, hpath, hy, hleads, hall⟩
          · exact .inl hpath
          · refine .inr ⟨i + 1, steps, y, node, ?_, hy, hleads, ?_⟩
            · rw [hpath, Nat.add_right_comm, Nat.add_assoc]
            · intro others z contents hz hleads' hfilled
              cases others with
              | nil => cases hz
              | cons z' others => exact hall others z contents.2 hz hleads' hfilled.2

/-- Only for a field without a member the contents are not complete. -/
theorem finish_error {members : List (String × Json)} {slots : f.Slots}
    (h : f.Holding members slots) {m : Mismatch} (hfinish : f.finish slots = .error m) :
    ∃ name ∈ f.names, name ∉ Table.names members := by
  induction f with
  | nil => cases hfinish
  | field n kind rest ih =>
    rw [finish] at hfinish
    obtain ⟨slot, slots⟩ := slots
    obtain ⟨hslot, hrest⟩ := h
    cases slot with
    | none => exact ⟨n, List.mem_cons_self, hslot⟩
    | some a =>
      cases hothers : rest.finish slots with
      | ok others =>
        simp only [hothers] at hfinish
        cases hfinish
      | error m' =>
        simp only [hothers] at hfinish
        obtain rfl := Except.error.inj hfinish
        obtain ⟨name, hname, hmissing⟩ := ih hrest hothers
        exact ⟨name, List.mem_cons_of_mem _ hname, hmissing⟩

end Fields

/-! ## Records -/

variable {record : String} {f : Fields τ} {build : τ → α}

/-- An object is rejected for want of a member, or for a member that is rejected alone as well. -/
theorem Kind.record_object_error (hf : f.names.Nodup) {members : List (String × Json)}
    (hnodup : (Table.names members).Nodup) {failure : Failure}
    (h : (Kind.record record f build).ofJson (.object members) = .error failure) :
    (failure.path = [] ∧ ∃ name ∈ f.names, name ∉ Table.names members) ∨
      ∃ m ∈ members, f.putAll [m] f.empty = .error failure := by
  have hempty := f.holding_empty
  have hfresh : ∀ m ∈ members, m.1 ∉ Table.names ([] : List (String × Json)) :=
    fun _ _ => List.not_mem_nil
  rcases exists_first (fun m => ¬f.Accepts m.1 m.2) members with
    hall | ⟨front, m, back, rfl, hfront, hm⟩
  · obtain ⟨slots, hput⟩ := (Fields.exists_putAll_iff hf hempty).2
      ⟨fun m hm => not_not.1 (hall m hm), hnodup, hfresh⟩
    simp only [Kind.record, hput] at h
    cases hfinish : f.finish slots with
    | ok contents =>
      simp only [hfinish] at h
      cases h
    | error m =>
      simp only [hfinish] at h
      obtain rfl := Except.error.inj h
      exact .inl ⟨rfl, Fields.finish_error (Fields.holding_putAll hf hempty hput) hfinish⟩
  · obtain ⟨failure', hput, halone⟩ := Fields.putAll_firstWrong hf hempty hnodup hfresh
      (fun m' hm' => not_not.1 (hfront m' hm')) hm
    simp only [Kind.record, hput] at h
    obtain rfl := Except.error.inj h
    exact .inr ⟨m, List.mem_append_right _ List.mem_cons_self, halone⟩

theorem Kind.record_object_blames (hf : f.names.Nodup) (hfields : f.Blame)
    {members : List (String × Json)} (hnodup : (Table.names members).Nodup)
    (hunique : ∀ m ∈ members, Json.Unique m.2) {failure : Failure}
    (h : (Kind.record record f build).ofJson (.object members) = .error failure) :
    (Kind.record record f build).BlamesAt failure.path (.object members) := by
  rcases Kind.record_object_error hf hnodup h with ⟨hpath, -⟩ | ⟨⟨name, content⟩, hm, halone⟩
  · rw [hpath]
    exact Kind.blamesAt_here h
  · obtain ⟨steps, node, hpath, hleads, hrejected⟩ :=
      Fields.putAll_single_blames hfields (hunique _ hm) halone
    rw [hpath]
    refine ⟨node, .member (Table.find?_of_mem hnodup hm) hleads, fun y a hy hdecoded => ?_⟩
    cases hy with
    | member found rest =>
      obtain ⟨contents, hperm, hfilled, -⟩ := (Kind.record_object_iff hf).1 hdecoded
      have hmem := Table.mem_of_find? found
      have hname := hperm.subset (Table.mem_names_of_mem hmem)
      exact hrejected _ rest (hfilled.accepts (hperm.nodup_iff.2 hf) hmem hname)

theorem Kind.record_array_blames (hfields : f.Blame) {items : List Json}
    (hunique : ∀ x ∈ items, Json.Unique x) {failure : Failure}
    (h : (Kind.record record f build).ofJson (.array items) = .error failure) :
    (Kind.record record f build).BlamesAt failure.path (.array items) := by
  have hhere : failure.path = [] →
      (Kind.record record f build).BlamesAt failure.path (.array items) := by
    intro hpath
    rw [hpath]
    exact Kind.blamesAt_here h
  simp only [Kind.record] at h
  split at h
  · rename_i reason hitems
    obtain rfl := Except.error.inj h
    rcases Fields.ofItems_blames hfields hunique hitems with
      hpath | ⟨i, steps, content, node, hpath, hcontent, hleads, hrejected⟩
    · exact hhere hpath
    · rw [hpath, Nat.zero_add]
      refine ⟨node, .index hcontent hleads, fun y a hy hdecoded => ?_⟩
      cases hy with
      | index found rest =>
        obtain ⟨contents, -, hfilled, -⟩ := Kind.record_array_iff.1 hdecoded
        exact hrejected _ _ contents found rest hfilled
  · split_ifs at h
    obtain rfl := Except.error.inj h
    exact hhere rfl

/-- A record blames a node if the kinds of its fields do. -/
theorem Kind.record_blames (hf : f.names.Nodup) (hfields : f.Blame) :
    (Kind.record record f build).Blames := by
  intro x failure hx h
  cases hx with
  | object nodup each => exact Kind.record_object_blames hf hfields nodup each h
  | array each => exact Kind.record_array_blames hfields each h
  | null | bool _ | integer _ | float _ | text _ =>
    have hwhole := h
    obtain rfl := Except.error.inj h
    exact Kind.blamesAt_here hwhole

end

theorem variant_blames {name : String} {kind : Kind Record} (h : (name, kind) ∈ variants) :
    kind.Blames := by
  have hinteger : Kind.integer.Blames := Kind.integer_blames
  have hsegment : segmentFields.Blame :=
    ⟨Kind.float_blames, Kind.text_blames, Kind.text_blames, trivial⟩
  have hmyType : myType.Blames := Kind.record_blames (by decide) ⟨hinteger, trivial⟩
  have ha : a.Blames := Kind.record_blames (by decide) ⟨Kind.text_blames, trivial⟩
  have hb : b.Blames := Kind.record_blames (by decide) ⟨ha, Kind.text_blames, trivial⟩
  refine variants_induction (P := fun _ kind => kind.Blames) ?_ ?_ ?_ ?_ ?_ h
  · exact hmyType.map _
  · exact (Kind.record_blames (by decide) hsegment).map _
  · exact (Kind.record_blames (by decide) hsegment).map _
  · exact ha.map _
  · exact hb.map _

/-- Among the members of a declared record that is to blame itself, a field is missing. -/
theorem Row.missing {name : String} {kind : Kind Record} (h : Row name kind)
    {members : List (String × Json)} (hnodup : (Table.names members).Nodup) {failure : Failure}
    (hfailure : kind.ofJson (.object members) = .error failure) (hpath : failure.path = []) :
    ∃ shape, RecordShape.ofName? name = some shape ∧
      ∃ field ∈ shape.fields, field.name ∉ Table.names members := by
  obtain ⟨build, g, shape, writes, declared, agrees⟩ := h
  have hf := agrees.names_eq ▸ declared_names_nodup declared
  have hrecord := Kind.map_eq_error_iff.1 hfailure
  rcases Kind.record_object_error hf hnodup hrecord with ⟨-, missing, hname, hmissing⟩ | ⟨m, -, hm⟩
  · rw [agrees.names_eq] at hname
    obtain ⟨field, hfield, rfl⟩ := List.mem_map.1 hname
    exact ⟨shape, declared, field, hfield, hmissing⟩
  · rcases Fields.putAll_single_error hm with ⟨-, hmember⟩ | ⟨reason, -, hmember⟩
    · exact nomatch hmember.symm.trans hpath
    · exact nomatch hmember.symm.trans hpath

/-! ## Tagged records -/

/-- The values have the same tag, or neither has one. -/
def SameTag (x y : Json) : Prop :=
  ∀ tag, Leads [.member tagName] x tag ↔ Leads [.member tagName] y tag

theorem leads_tag_iff {members : List (String × Json)} {tag : Json} :
    Leads [.member tagName] (.object members) tag ↔ Table.find? tagName members = some tag := by
  constructor
  · rintro (_ | ⟨found, rest⟩)
    cases rest
    exact found
  · exact fun found => .member found (.here tag)

/-- A value is rejected because it has no tag, because of what its tag is, or because of what the
kind that is tagged makes of the other members. -/
theorem decodeRecord_error_cases {x : Json} {failure : Failure}
    (h : decodeRecord x = .error failure) :
    (failure.path = [] ∧ ∀ members, x = .object members → tagName ∉ Table.names members) ∨
    (failure.path = [.member tagName] ∧ ∃ members tag, x = .object members ∧
      Table.find? tagName members = some tag ∧
      ∀ name kind, tag = .text name → Table.find? name variants ≠ some kind) ∨
    ∃ members name kind, x = .object members ∧
      Table.find? tagName members = some (.text name) ∧ Table.find? name variants = some kind ∧
      kind.ofJson (.object (Table.erase tagName members)) = .error failure := by
  unfold decodeRecord at h
  simp only [kindOf?_eq_find?] at h
  split at h
  · rename_i members
    split at h
    · rename_i hnone
      obtain rfl := Except.error.inj h
      refine .inl ⟨rfl, fun members' hmembers hmem => ?_⟩
      obtain rfl := Json.object.inj hmembers
      obtain ⟨tag, htag⟩ := Table.exists_find?_iff.2 hmem
      exact nomatch hnone.symm.trans htag
    · rename_i name hname
      split at h
      · rename_i kind hkind
        exact .inr (.inr ⟨members, name, kind, rfl, hname, hkind, h⟩)
      · rename_i hunknown
        obtain rfl := Except.error.inj h
        refine .inr (.inl ⟨rfl, members, .text name, rfl, hname, fun name' kind htext hkind => ?_⟩)
        obtain rfl := Json.text.inj htext
        exact nomatch hunknown.symm.trans hkind
    · rename_i tag hnotText htag
      obtain rfl := Except.error.inj h
      exact .inr (.inl ⟨rfl, members, tag, rfl, htag, fun name _ htext _ => hnotText name htext⟩)
  · rename_i hnotObject
    obtain rfl := Except.error.inj h
    exact .inl ⟨rfl, fun members hmembers => absurd hmembers (hnotObject members)⟩

/-- Without the tag the steps to the other members lead where they did. -/
theorem leads_erase_iff {members : List (String × Json)} (hnodup : (Table.names members).Nodup)
    {tag : Json} (htag : Table.find? tagName members = some tag) {name : String}
    (hname : name ≠ tagName) {steps : Json.Path} {node : Json} :
    Leads (.member name :: steps) (.object (Table.erase tagName members)) node ↔
      Leads (.member name :: steps) (.object members) node := by
  have hfind := Table.find?_erase hnodup htag hname
  constructor
  · rintro (_ | ⟨found, rest⟩)
    exact .member (hfind.symm.trans found) rest
  · rintro (_ | ⟨found, rest⟩)
    exact .member (hfind.trans found) rest

/-- No name repeats in an object that is a tagged record. -/
theorem names_nodup_of_decodeRecord {members : List (String × Json)} {r : Record}
    (h : decodeRecord (.object members) = .ok r) : (Table.names members).Nodup := by
  obtain ⟨fields, ⟨all, hall, hperm, hconforms⟩, -⟩ := decodeRecord_sound h
  obtain rfl := Json.object.inj hall
  refine (hperm.map Prod.fst).nodup_iff.2 ?_
  cases hconforms with
  | members declared names _ => exact (names.cons tagName).nodup_iff.2 (declared_names declared)

/-- What the kind that is tagged blames within the other members is to blame within all of them, as
long as the tag stays. -/
theorem tagged_blames {members : List (String × Json)} (hnodup : (Table.names members).Nodup)
    (hunique : ∀ m ∈ members, Json.Unique m.2) {name : String} {kind : Kind Record}
    (htag : Table.find? tagName members = some (.text name))
    (hkind : Table.find? name variants = some kind) {failure : Failure}
    (h : kind.ofJson (.object (Table.erase tagName members)) = .error failure)
    (hpath : failure.path ≠ []) :
    ∃ node, Leads failure.path (.object members) node ∧ ∀ y r, SameTag (.object members) y →
      Leads failure.path y node → decodeRecord y ≠ .ok r := by
  have hperm := Table.perm_erase htag
  obtain ⟨hfresh, hbody⟩ := List.nodup_cons.1 ((hperm.map Prod.fst).nodup_iff.1 hnodup)
  have hcontents : ∀ m ∈ Table.erase tagName members, Json.Unique m.2 :=
    fun m hm => hunique m (hperm.symm.subset (List.mem_cons_of_mem _ hm))
  obtain ⟨node, hleads, hrejected⟩ :=
    variant_blames (Table.mem_of_find? hkind) _ failure (.object hbody hcontents) h
  obtain ⟨n, steps, hsteps, hn⟩ : ∃ n steps, failure.path = .member n :: steps ∧ n ≠ tagName := by
    generalize failure.path = path at hleads hpath
    cases hleads with
    | here _ => exact absurd rfl hpath
    | member found _ =>
      have hmem := Table.mem_names_of_mem (Table.mem_of_find? found)
      exact ⟨_, _, rfl, fun heq => hfresh (heq ▸ hmem)⟩
  rw [hsteps] at hleads hrejected ⊢
  refine ⟨node, (leads_erase_iff hnodup htag hn).1 hleads, fun y r hsame hy hdecoded => ?_⟩
  obtain ⟨members', name', kind', rfl, htag', hkind', hr⟩ := decodeRecord_eq_ok_iff.1 hdecoded
  -- The same tag selects the same kind.
  have hname := leads_tag_iff.1 ((hsame _).1 (leads_tag_iff.2 htag))
  obtain rfl := Json.text.inj (Option.some.inj (hname.symm.trans htag'))
  obtain rfl := Option.some.inj (hkind.symm.trans hkind')
  have hnodup' := names_nodup_of_decodeRecord hdecoded
  exact hrejected _ r ((leads_erase_iff hnodup' htag' hn).2 hy) hr

/-- The node that a failure names is to blame as long as the tag stays. -/
theorem decodeRecord_blames {x : Json} (hx : Json.Unique x) {failure : Failure}
    (h : decodeRecord x = .error failure) :
    ∃ node, Leads failure.path x node ∧ ∀ y r, SameTag x y → Leads failure.path y node →
      decodeRecord y ≠ .ok r := by
  by_cases hhere : failure.path = []
  · rw [hhere]
    refine ⟨x, .here x, fun y r _ hy hdecoded => ?_⟩
    cases hy
    exact nomatch h.symm.trans hdecoded
  rcases decodeRecord_error_cases h with ⟨hpath, -⟩ | ⟨hpath, members, tag, rfl, htag, hunknown⟩ |
    ⟨members, name, kind, rfl, htag, hkind, hfailure⟩
  · exact absurd hpath hhere
  · rw [hpath]
    refine ⟨tag, leads_tag_iff.2 htag, fun y r _ hy hdecoded => ?_⟩
    obtain ⟨members', name, kind, rfl, hname, hkind, -⟩ := decodeRecord_eq_ok_iff.1 hdecoded
    exact hunknown name kind (Option.some.inj ((leads_tag_iff.1 hy).symm.trans hname)) hkind
  · cases hx with
    | object nodup each => exact tagged_blames nodup each htag hkind hfailure hhere

/-- A failure names a node that exists and is to blame for it: whatever has the same tag and the
same node there is rejected as well.  The value itself is named only if it is no object, has no tag,
or lacks a field of its type. -/
theorem record_blames_node {x : Json} (hx : Json.Unique x) {e : Error} (h : record x = .error e) :
    ∃ steps node, e.path = Json.Path.text steps ∧ Leads steps x node ∧
      (∀ y, SameTag x y → Leads steps y node → ∃ e', record y = .error e') ∧
      (steps = [] → (∀ members, x ≠ .object members) ∨ ∃ members, x = .object members ∧
        (tagName ∉ Table.names members ∨ ∃ tag shape,
          Table.find? tagName members = some (.text tag) ∧
          RecordShape.ofName? tag = some shape ∧
          ∃ field ∈ shape.fields, field.name ∉ Table.names members)) := by
  obtain ⟨failure, hfailure, rfl⟩ := mapError_report_eq_error_iff.1 h
  obtain ⟨node, hleads, hrejected⟩ := decodeRecord_blames hx hfailure
  refine ⟨failure.path, node, rfl, hleads, fun y hsame hy => ?_, fun hpath => ?_⟩
  · cases hcase : record y with
    | error e' => exact ⟨e', rfl⟩
    | ok r => exact absurd (record_eq_ok_iff.1 hcase) (hrejected y r hsame hy)
  · rcases decodeRecord_error_cases hfailure with ⟨-, hfresh⟩ | ⟨hmember, -⟩ |
      ⟨members, name, kind, rfl, htag, hkind, hbody⟩
    · by_cases hobject : ∃ members, x = .object members
      · obtain ⟨members, rfl⟩ := hobject
        exact .inr ⟨members, rfl, .inl (hfresh members rfl)⟩
      · exact .inl fun members hmembers => hobject ⟨members, hmembers⟩
    · exact nomatch hmember.symm.trans hpath
    · refine .inr ⟨members, rfl, .inr ?_⟩
      have hperm := (Table.perm_erase htag).map Prod.fst
      cases hx with
      | object nodup each =>
        have hnodup := (List.nodup_cons.1 (hperm.nodup_iff.1 nodup)).2
        obtain ⟨shape, declared, field, hfield, hmissing⟩ :=
          (row_of_mem (Table.mem_of_find? hkind)).missing hnodup hbody hpath
        refine ⟨name, shape, htag, declared, field, hfield, fun hmem => ?_⟩
        rcases List.mem_cons.1 (hperm.subset hmem) with htagged | hothers
        · have hmem : field.name ∈ shape.fields.map FieldShape.name := List.mem_map_of_mem hfield
          rw [show field.name = tagName from htagged] at hmem
          exact (List.nodup_cons.1 (declared_names declared)).1 hmem
        · exact hmissing hothers

/-- The inner record is given in its array form with an item that is no text.  That is to blame,
though another member is wrong and yet another is none of the fields. -/
theorem record_blames_node_inner :
    let x := Json.object [("a", .array [.integer 3]), (tagName, .text "B"), ("z", .null),
      ("b_string", .integer 1)]
    Json.Unique x ∧
    record x = .error ⟨"a[0]", "invalid type: integer `3`, expected a string"⟩ ∧
    ∃ steps node, "a[0]" = Json.Path.text steps ∧ Leads steps x node ∧
      (∀ y, SameTag x y → Leads steps y node → ∃ e', record y = .error e') ∧
      (steps = [] → (∀ members, x ≠ .object members) ∨ ∃ members, x = .object members ∧
        (tagName ∉ Table.names members ∨ ∃ tag shape,
          Table.find? tagName members = some (.text tag) ∧
          RecordShape.ofName? tag = some shape ∧
          ∃ field ∈ shape.fields, field.name ∉ Table.names members)) := by
  intro x
  have hunique : Json.Unique x := by
    refine .object (by decide) ?_
    simp only [List.forall_mem_cons]
    exact ⟨.array (List.forall_mem_cons.2 ⟨.integer 3, nofun⟩), .text "B", .null, .integer 1, nofun⟩
  have hrecord : record x = .error ⟨"a[0]", "invalid type: integer `3`, expected a string"⟩ := rfl
  exact ⟨hunique, hrecord, record_blames_node hunique hrecord⟩

end RecordCheck.Decode
