import RecordCheck.Proofs.Decode.Conformance
set_option autoImplicit false

/-!
# Decode: the order of members

`Reordered` values differ in nothing but the order of the members of objects, at any level.  What a
value is decoded to does not depend on it (`decodeRecord_reordered`), and neither does the failure
where just one member is wrong (`Kind.record_rejected`).
-/

namespace RecordCheck

namespace Json

/-- The same value, but for the order of the members of an object and of the objects within it. -/
inductive Reordered : Json → Json → Prop
  | refl (x : Json) : Reordered x x
  | trans {x y z : Json} (first : Reordered x y) (second : Reordered y z) : Reordered x z
  | perm {members members' : List (String × Json)} (h : members.Perm members') :
      Reordered (.object members) (.object members')
  | content (before : List (String × Json)) (name : String) {x y : Json} (h : Reordered x y)
      (after : List (String × Json)) :
      Reordered (.object (before ++ (name, x) :: after)) (.object (before ++ (name, y) :: after))

/-- Only objects have an order of members. -/
theorem Reordered.eq_of_flat {x y : Json} (h : Reordered x y)
    (hx : ∀ members, x ≠ .object members) : y = x := by
  induction h with
  | refl x => rfl
  | trans _ _ ih ih' =>
    obtain rfl := ih hx
    exact ih' hx
  | perm _ => exact absurd rfl (hx _)
  | content _ _ _ _ _ => exact absurd rfl (hx _)

/-- Of an object without objects in it only the members can be reordered. -/
theorem Reordered.perm_of_flat {x y : Json} (h : Reordered x y) {members : List (String × Json)}
    (hx : x = .object members) (hflat : ∀ m ∈ members, ∀ ms, m.2 ≠ .object ms) :
    ∃ members', y = .object members' ∧ members.Perm members' := by
  induction h generalizing members with
  | refl x => exact ⟨members, hx, .refl _⟩
  | trans _ _ ih ih' =>
    obtain ⟨members', hy, hperm⟩ := ih hx hflat
    obtain ⟨members'', hz, hperm'⟩ := ih' hy fun m hm => hflat m (hperm.symm.subset hm)
    exact ⟨members'', hz, hperm.trans hperm'⟩
  | @perm ms ms' hms =>
    obtain rfl := Json.object.inj hx
    exact ⟨ms', rfl, hms⟩
  | content before name h after _ =>
    obtain rfl := Json.object.inj hx
    have hcontent := hflat _ (List.mem_append_right before List.mem_cons_self)
    rw [h.eq_of_flat hcontent]
    exact ⟨_, rfl, .refl _⟩

end Json

namespace Decode

open Json (Reordered)

/-! ## Kinds -/

section

variable {τ α β : Type}

/-- What the kind decodes does not depend on the order of members at any level. -/
def Kind.IgnoresOrder (kind : Kind α) : Prop :=
  ∀ x y a, Reordered x y → kind.ofJson x = .ok a → kind.ofJson y = .ok a

/-- The kinds of all fields do so. -/
def Fields.IgnoreOrder {τ : Type} : Fields τ → Prop
  | .nil => True
  | .field _ kind rest => kind.IgnoresOrder ∧ rest.IgnoreOrder

theorem Kind.ignoresOrder_of_flat {kind : Kind α}
    (h : ∀ members a, kind.ofJson (.object members) ≠ .ok a) : kind.IgnoresOrder := by
  intro x y a hxy hx
  have hflat : ∀ members, x ≠ .object members := by
    rintro members rfl
    exact h members a hx
  rwa [hxy.eq_of_flat hflat]

theorem Kind.IgnoresOrder.map {kind : Kind α} (h : kind.IgnoresOrder) (f : α → β) :
    (kind.map f).IgnoresOrder := by
  intro x y b hxy hx
  obtain ⟨a, ha, rfl⟩ := Kind.map_eq_ok_iff.1 hx
  exact Kind.map_eq_ok_iff.2 ⟨a, h x y a hxy ha, rfl⟩

/-- Fields have the same contents if that of one member is reordered. -/
theorem Fields.Filled.content {f : Fields τ} (hf : f.IgnoreOrder)
    {before after : List (String × Json)} {name : String} {x y : Json} {contents : τ}
    (h : f.Filled (before ++ (name, x) :: after) contents) (hxy : Reordered x y) :
    f.Filled (before ++ (name, y) :: after) contents := by
  induction f with
  | nil => trivial
  | field n kind rest ih =>
    obtain ⟨hkind, hothers⟩ := hf
    obtain ⟨⟨u, hu, hdecoded⟩, hrest⟩ := h
    refine ⟨?_, ih hothers hrest⟩
    rcases List.mem_append.1 hu with hbefore | hmem
    · exact ⟨u, List.mem_append_left _ hbefore, hdecoded⟩
    rcases List.mem_cons.1 hmem with hself | hafter
    · obtain ⟨rfl, rfl⟩ := Prod.mk.inj hself
      exact ⟨y, List.mem_append_right _ List.mem_cons_self, hkind _ y _ hxy hdecoded⟩
    · exact ⟨u, List.mem_append_right _ (List.mem_cons_of_mem _ hafter), hdecoded⟩

theorem Kind.record_ignoresOrder {name : String} {f : Fields τ} {build : τ → α}
    (hf : f.names.Nodup) (hkinds : f.IgnoreOrder) : (Kind.record name f build).IgnoresOrder := by
  intro x y r hxy
  induction hxy with
  | refl x => exact id
  | trans _ _ ih ih' => exact fun hx => ih' (ih hx)
  | perm h => exact Kind.record_unordered hf _ _ r h
  | content before n h after _ =>
    intro hx
    obtain ⟨contents, hnames, hfilled, rfl⟩ := (Kind.record_object_iff hf).1 hx
    refine (Kind.record_object_iff hf).2 ⟨contents, ?_, hfilled.content hkinds h, rfl⟩
    simpa [Table.names] using hnames

/-! ## One wrong member -/

/-- Where one member is rejected by its field, and the others are accepted, each by a field of its
own, the failure is that of the one, wherever it stands. -/
theorem Fields.putAll_rejected {f : Fields τ} (hf : f.names.Nodup)
    {done members : List (String × Json)} {slots : f.Slots} (h : f.Holding done slots)
    (hmembers : (Table.names members).Nodup) (hfresh : ∀ m ∈ members, m.1 ∉ Table.names done)
    {name : String} {x : Json} {failure : Failure} (hmem : (name, x) ∈ members)
    (hname : name ∈ f.names) (hrejected : ∀ slots, f.put name x slots = .error failure)
    (hothers : ∀ m ∈ members, m.1 ≠ name → f.Accepts m.1 m.2) :
    f.putAll members slots = .error (failure.within (.member name)) := by
  obtain ⟨front, back, rfl⟩ := List.append_of_mem hmem
  have hfront : ∀ m ∈ front, f.Accepts m.1 m.2 := by
    intro m hm
    refine hothers m (List.mem_append_left _ hm) fun heq => ?_
    rw [Table.names_append] at hmembers
    have hfirst : name ∈ Table.names front := heq ▸ List.mem_map_of_mem hm
    exact List.disjoint_of_nodup_append hmembers hfirst List.mem_cons_self
  obtain ⟨after, hafter, hfree, hall⟩ := exists_putAll_append hf h hmembers hfresh hfront
  have hfree : name ∉ Table.names (done ++ front) := hfree (name, x) List.mem_cons_self
  rw [hall, putAll, state_eq hafter, if_pos hname, if_neg hfree]
  simp only [hrejected after]

theorem Kind.record_rejected {record : String} {f : Fields τ} {build : τ → α} (hf : f.names.Nodup)
    {members : List (String × Json)} (hmembers : (Table.names members).Nodup)
    {name : String} {x : Json} {failure : Failure} (hmem : (name, x) ∈ members)
    (hname : name ∈ f.names) (hrejected : ∀ slots, f.put name x slots = .error failure)
    (hothers : ∀ m ∈ members, m.1 ≠ name → f.Accepts m.1 m.2) :
    (Kind.record record f build).ofJson (.object members) =
      .error (failure.within (.member name)) := by
  have hput := Fields.putAll_rejected hf f.holding_empty hmembers (fun _ _ => nofun) hmem hname
    hrejected hothers
  simp only [Kind.record, hput]

end

/-! ## Tagged records -/

theorem variant_ignoresOrder {name : String} {kind : Kind Record} (h : (name, kind) ∈ variants) :
    kind.IgnoresOrder := by
  have hinteger : Kind.integer.IgnoresOrder := Kind.ignoresOrder_of_flat fun _ _ => nofun
  have hfloat : Kind.float.IgnoresOrder := Kind.ignoresOrder_of_flat fun _ _ => nofun
  have htext : Kind.text.IgnoresOrder := Kind.ignoresOrder_of_flat fun _ _ => nofun
  have hsegment : segmentFields.IgnoreOrder := ⟨hfloat, htext, htext, trivial⟩
  have hmyType : myType.IgnoresOrder := Kind.record_ignoresOrder (by decide) ⟨hinteger, trivial⟩
  have ha : a.IgnoresOrder := Kind.record_ignoresOrder (by decide) ⟨htext, trivial⟩
  have hb : b.IgnoresOrder := Kind.record_ignoresOrder (by decide) ⟨ha, htext, trivial⟩
  refine variants_induction (P := fun _ kind => kind.IgnoresOrder) ?_ ?_ ?_ ?_ ?_ h
  · exact hmyType.map _
  · exact (Kind.record_ignoresOrder (by decide) hsegment).map _
  · exact (Kind.record_ignoresOrder (by decide) hsegment).map _
  · exact ha.map _
  · exact hb.map _

/-- With a declared tag among its members, an object is decoded from the others, in some order. -/
theorem decodeRecord_of_perm {all members : List (String × Json)} {tag : String}
    {kind : Kind Record} (hperm : all.Perm ((tagName, .text tag) :: members))
    (hfresh : tagName ∉ Table.names members) (hkind : Table.find? tag variants = some kind) :
    ∃ body, body.Perm members ∧ decodeRecord (.object all) = kind.ofJson (.object body) := by
  have hy := Table.find?_of_perm hperm hfresh
  refine ⟨Table.erase tagName all, ((Table.perm_erase hy).symm.trans hperm).cons_inv, ?_⟩
  rw [decodeRecord]
  simp only [hy, kindOf?_eq_find?, hkind]

/-- An object is a tagged record if, in any order, its members are a declared tag and those of a
record of that type. -/
theorem decodeRecord_object_iff {all : List (String × Json)} {r : Record} :
    decodeRecord (.object all) = .ok r ↔ ∃ tag kind members,
      all.Perm ((tagName, .text tag) :: members) ∧ Table.find? tag variants = some kind ∧
        kind.ofJson (.object members) = .ok r := by
  constructor
  · intro h
    obtain ⟨members, tag, kind, hobject, hfind, hkind, hr⟩ := decodeRecord_eq_ok_iff.1 h
    obtain rfl := Json.object.inj hobject
    exact ⟨tag, kind, _, Table.perm_erase hfind, hkind, hr⟩
  · rintro ⟨tag, kind, members, hperm, hkind, hr⟩
    have hvariant := variant_of_mem (Table.mem_of_find? hkind)
    have hconforms := (hvariant.agrees.accepts _).1 ⟨r, hr⟩
    obtain ⟨body, hbody, hdecode⟩ := decodeRecord_of_perm hperm hconforms.tagName_fresh hkind
    rw [hdecode]
    exact hvariant.unordered _ _ r hbody.symm hr

/-- The order of members, at any level, makes no difference to the record that is decoded. -/
theorem decodeRecord_reordered {x y : Json} {r : Record} (h : Reordered x y)
    (hx : decodeRecord x = .ok r) : decodeRecord y = .ok r := by
  induction h with
  | refl x => exact hx
  | trans _ _ ih ih' => exact ih' (ih hx)
  | perm h =>
    obtain ⟨tag, kind, members, hperm, hr⟩ := decodeRecord_object_iff.1 hx
    exact decodeRecord_object_iff.2 ⟨tag, kind, members, h.symm.trans hperm, hr⟩
  | @content before name u v h after _ =>
    obtain ⟨tag, kind, members, hperm, hkind, hr⟩ := decodeRecord_object_iff.1 hx
    have hmem : (name, u) ∈ (tagName, Json.text tag) :: members :=
      hperm.subset (List.mem_append_right before List.mem_cons_self)
    rcases List.mem_cons.1 hmem with hself | hmem
    · -- The tag is a text, which has no order of members.
      obtain ⟨rfl, rfl⟩ := Prod.mk.inj hself
      rwa [h.eq_of_flat nofun]
    · obtain ⟨front, back, rfl⟩ := List.append_of_mem hmem
      have hothers : (before ++ after).Perm ((tagName, .text tag) :: (front ++ back)) := by
        have hmiddle := (List.perm_middle.symm.trans hperm).trans (List.perm_middle.cons _)
        exact (hmiddle.trans (List.Perm.swap _ _ _)).cons_inv
      refine decodeRecord_object_iff.2 ⟨tag, kind, front ++ (name, v) :: back, ?_, hkind, ?_⟩
      · have hmiddle := List.perm_middle.trans (hothers.cons (name, v))
        exact hmiddle.trans ((List.Perm.swap _ _ _).trans (List.perm_middle.symm.cons _))
      · have hignores := variant_ignoresOrder (Table.mem_of_find? hkind)
        exact hignores _ _ r (.content front name h back) hr

end Decode
end RecordCheck
