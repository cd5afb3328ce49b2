import Mathlib
import RecordCheck.Table
set_option autoImplicit false

/-!
# Tables: finding, inserting and erasing

A table that is made of members has each name once, where it first stands, with its last content
(`names_ofMembers`, `mem_ofMembers_iff`); it is the only one (`keepsLast_iff`).
-/

namespace RecordCheck.Table

variable {α : Type} {name : String} {content : α} {table : Table α}

theorem mem_names_iff : name ∈ names table ↔ ∃ content, (name, content) ∈ table := by
  simp [names]

theorem mem_names_of_mem (h : (name, content) ∈ table) : name ∈ names table :=
  mem_names_iff.2 ⟨content, h⟩

@[simp] theorem names_cons : names ((name, content) :: table) = name :: names table := rfl

theorem names_append (front back : List (String × α)) :
    names (front ++ back) = names front ++ names back := List.map_append

theorem not_mem_names_append {front back : List (String × α)} :
    name ∉ names (front ++ back) ↔ name ∉ names front ∧ name ∉ names back := by
  rw [names_append, List.mem_append, not_or]

/-- What is found is the content of the first member with the name. -/
theorem find?_eq_some_iff : find? name table = some content ↔
    ∃ before after, table = before ++ (name, content) :: after ∧ name ∉ names before := by
  constructor
  · intro h
    induction table with
    | nil => exact nomatch h
    | cons m rest ih =>
      obtain ⟨n, x⟩ := m
      rw [find?] at h
      split_ifs at h with hname
      · obtain rfl := hname
        obtain rfl := Option.some.inj h
        exact ⟨[], rest, rfl, nofun⟩
      · obtain ⟨before, after, rfl, hbefore⟩ := ih h
        refine ⟨(n, x) :: before, after, rfl, ?_⟩
        rw [names_cons, List.mem_cons]
        exact not_or.2 ⟨fun heq => hname heq.symm, hbefore⟩
  · rintro ⟨before, after, rfl, hbefore⟩
    induction before with
    | nil => exact if_pos rfl
    | cons m before ih =>
      obtain ⟨n, x⟩ := m
      rw [names_cons, List.mem_cons, not_or] at hbefore
      exact (if_neg fun heq => hbefore.1 heq.symm).trans (ih hbefore.2)

theorem mem_of_find? (h : find? name table = some content) : (name, content) ∈ table := by
  obtain ⟨before, after, rfl, -⟩ := find?_eq_some_iff.1 h
  exact List.mem_append_right before List.mem_cons_self

theorem exists_find?_iff : (∃ content, find? name table = some content) ↔ name ∈ names table := by
  constructor
  · rintro ⟨content, h⟩
    exact mem_names_of_mem (mem_of_find? h)
  · intro h
    induction table with
    | nil => exact nomatch h
    | cons m rest ih =>
      obtain ⟨n, x⟩ := m
      rw [find?]
      split_ifs with hname
      · exact ⟨x, rfl⟩
      · rcases List.mem_cons.1 h with heq | hrest
        · exact absurd heq.symm hname
        · exact ih hrest

/-- Where no name repeats, a name has one content. -/
theorem content_unique {content' : α} (hnodup : (names table).Nodup)
    (h : (name, content) ∈ table) (h' : (name, content') ∈ table) : content = content' :=
  (Prod.mk.inj (List.inj_on_of_nodup_map hnodup h h' rfl)).2

/-- A content whose name no other member has is found, wherever it stands. -/
theorem find?_of_perm {members : Table α} (hperm : table.Perm ((name, content) :: members))
    (hfresh : name ∉ names members) : find? name table = some content := by
  obtain ⟨content', hfound⟩ := exists_find?_iff.2
    (mem_names_of_mem (hperm.symm.subset List.mem_cons_self))
  rcases List.mem_cons.1 (hperm.subset (mem_of_find? hfound)) with hself | hmem
  · rw [hfound, (Prod.mk.inj hself).2]
  · exact absurd (mem_names_of_mem hmem) hfresh

/-- Contents that are changed one by one are found as before. -/
theorem find?_map {β : Type} (f : α → β) (name : String) (table : Table α) :
    find? name (table.map fun m => (m.1, f m.2)) = (find? name table).map f := by
  induction table with
  | nil => rfl
  | cons m rest ih =>
    rw [List.map_cons, find?, find?, ih]
    split_ifs
    · rfl
    · rfl

/-- Erasing takes out the member that is found and only reorders the others. -/
theorem perm_erase (h : find? name table = some content) :
    table.Perm ((name, content) :: erase name table) := by
  induction table with
  | nil => exact nomatch h
  | cons m rest ih =>
    obtain ⟨n, x⟩ := m
    rw [find?] at h
    rw [erase]
    split_ifs at h ⊢ with hname
    · obtain rfl := hname
      obtain rfl := Option.some.inj h
      refine List.Perm.cons _ ?_
      split
      · rename_i hlast
        rw [List.getLast?_eq_none_iff.1 hlast]
      · rename_i last hlast
        have hsplit : rest.dropLast ++ [last] = rest := List.dropLast_append_getLast? last hlast
        have hrotated := List.perm_append_singleton last rest.dropLast
        rwa [hsplit] at hrotated
    · exact ((ih h).cons _).trans (List.Perm.swap _ _ _)

/-- Where no name repeats, each member is found. -/
theorem find?_of_mem (hnodup : (names table).Nodup) (h : (name, content) ∈ table) :
    find? name table = some content := by
  obtain ⟨content', hfound⟩ := exists_find?_iff.2 (mem_names_of_mem h)
  rw [hfound, content_unique hnodup h (mem_of_find? hfound)]

/-- Where no name repeats, the order makes no difference to what is found. -/
theorem find?_perm {table' : Table α} (hperm : table.Perm table') (hnodup : (names table).Nodup)
    (name : String) : find? name table = find? name table' := by
  have hnodup' : (names table').Nodup := (hperm.map Prod.fst).nodup_iff.1 hnodup
  ext content
  constructor
  · exact fun h => find?_of_mem hnodup' (hperm.subset (mem_of_find? h))
  · exact fun h => find?_of_mem hnodup (hperm.symm.subset (mem_of_find? h))

/-- Under the other names the same is found after erasing. -/
theorem find?_erase {erased : String} (hnodup : (names table).Nodup)
    (h : find? erased table = some content) (hname : name ≠ erased) :
    find? name (erase erased table) = find? name table := by
  rw [find?_perm (perm_erase h) hnodup name, find?, if_neg hname.symm]

/-- Erasing leaves the members before the name where they are. -/
theorem erase_append {before : Table α} (h : name ∉ names before) (after : Table α) :
    erase name (before ++ (name, content) :: after) =
      before ++ erase name ((name, content) :: after) := by
  induction before with
  | nil => rfl
  | cons m before ih =>
    obtain ⟨n, x⟩ := m
    rw [names_cons, List.mem_cons, not_or] at h
    rw [List.cons_append, erase, if_neg (Ne.symm h.1), ih h.2, List.cons_append]

/-- The last member is erased and no other moves. -/
theorem erase_last {before : Table α} (h : name ∉ names before) :
    erase name (before ++ [(name, content)]) = before := by
  rw [erase_append h, erase, if_pos rfl]
  exact List.append_nil before

/-- The last member takes the place of one that stands before it. -/
theorem erase_inner {before : Table α} (h : name ∉ names before) (between : Table α)
    (last : String × α) :
    erase name (before ++ (name, content) :: (between ++ [last])) = before ++ last :: between := by
  rw [erase_append h, erase, if_pos rfl, List.getLast?_concat]
  simp only [List.dropLast_concat]

theorem insert_fresh {name : String} (content : α) {table : Table α} (h : name ∉ names table) :
    insert name content table = table ++ [(name, content)] := by
  induction table with
  | nil => rfl
  | cons m rest ih =>
    obtain ⟨n, old⟩ := m
    rw [names_cons, List.mem_cons, not_or] at h
    rw [insert, if_neg (Ne.symm h.1), ih h.2, List.cons_append]

/-- Under the name that was inserted its content is found, under the others what was there. -/
theorem find?_insert (name : String) (content : α) (table : Table α) (n : String) :
    find? n (insert name content table) = if n = name then some content else find? n table := by
  induction table with
  | nil => simp only [insert, find?, eq_comm]
  | cons m rest ih =>
    obtain ⟨n', old⟩ := m
    rw [insert]
    by_cases hname : n' = name
    · subst hname
      rw [if_pos rfl, find?, find?]
      by_cases hn : n' = n
      · rw [if_pos hn, if_pos hn.symm]
      · rw [if_neg hn, if_neg fun h => hn h.symm, if_neg hn]
    · rw [if_neg hname, find?, find?, ih]
      by_cases hn : n' = n
      · subst hn
        rw [if_pos rfl, if_neg hname, if_pos rfl]
      · rw [if_neg hn, if_neg hn]

theorem names_insert (name : String) (content : α) (table : Table α) :
    names (insert name content table) =
      if name ∈ names table then names table else names table ++ [name] := by
  induction table with
  | nil => rfl
  | cons m rest ih =>
    obtain ⟨n, old⟩ := m
    rw [insert]
    by_cases hname : n = name
    · subst hname
      simp
    · rw [if_neg hname, names_cons, ih, names_cons]
      have hne : name ≠ n := Ne.symm hname
      by_cases hrest : name ∈ names rest
      · simp [hrest]
      · simp [hrest, hne]

theorem nodup_names_insert (name : String) (content : α) (h : (names table).Nodup) :
    (names (insert name content table)).Nodup := by
  rw [names_insert]
  split_ifs with hold
  · exact h
  · exact h.append (List.nodup_singleton _) (by simpa using hold)

/-- Inserting what is found under the name changes nothing. -/
theorem insert_eq_self (h : find? name table = some content) :
    insert name content table = table := by
  induction table with
  | nil => exact nomatch h
  | cons m rest ih =>
    obtain ⟨n, old⟩ := m
    rw [find?] at h
    rw [insert]
    split_ifs at h ⊢ with hname
    · rw [Option.some.inj h]
    · rw [ih h]

/-- Among the members of the names that are kept, inserting is an insertion if its name is kept and
does not show if it is not. -/
theorem filter_insert (keep : String → Bool) (name : String) (content : α) (table : Table α) :
    (insert name content table).filter (fun m => keep m.1) =
      if keep name then insert name content (table.filter fun m => keep m.1)
      else table.filter fun m => keep m.1 := by
  induction table with
  | nil =>
    rw [insert, List.filter_cons]
    rfl
  | cons m rest ih =>
    obtain ⟨n, old⟩ := m
    rw [insert]
    by_cases hname : n = name
    · subst hname
      rw [if_pos rfl, List.filter_cons, List.filter_cons]
      split_ifs
      · rw [insert, if_pos rfl]
      · rfl
    · rw [if_neg hname, List.filter_cons, List.filter_cons, ih]
      split_ifs
      · rw [insert, if_neg hname]
      · rfl
      · rfl
      · rfl

/-- Two tables with the same names in the same order are equal if one has the members of the
other. -/
theorem eq_of_names_eq {table table' : Table α} (hnames : names table = names table')
    (hnodup : (names table).Nodup) (h : ∀ m ∈ table, m ∈ table') : table = table' := by
  induction table generalizing table' with
  | nil => exact (List.map_eq_nil_iff.1 hnames.symm).symm
  | cons m rest ih =>
    cases table' with
    | nil => exact nomatch hnames
    | cons m' rest' =>
      obtain ⟨hname, hrest⟩ := List.cons.inj hnames
      have hnodup' : (names (m' :: rest')).Nodup := hnames ▸ hnodup
      obtain rfl : m = m' := List.inj_on_of_nodup_map hnodup' (h m List.mem_cons_self)
        List.mem_cons_self hname
      have hfresh := (List.nodup_cons.1 hnodup).1
      rw [ih hrest (List.nodup_cons.1 hnodup).2 fun x hx => ?_]
      rcases List.mem_cons.1 (h x (List.mem_cons_of_mem _ hx)) with rfl | hmem
      · exact absurd (mem_names_of_mem hx) hfresh
      · exact hmem

/-! ## Tables of members -/

theorem ofMembers_concat (members : List (String × α)) (m : String × α) :
    ofMembers (members ++ [m]) = insert m.1 m.2 (ofMembers members) := List.foldl_concat _ _ _ _

theorem nodup_names_ofMembers (members : List (String × α)) :
    (names (ofMembers members)).Nodup := by
  induction members using List.reverseRecOn with
  | nil => exact List.nodup_nil
  | append_singleton members m ih =>
    rw [ofMembers_concat]
    exact nodup_names_insert m.1 m.2 ih

/-- Members with different names are a table. -/
theorem ofMembers_eq_self {members : List (String × α)} (h : (names members).Nodup) :
    ofMembers members = members := by
  induction members using List.reverseRecOn with
  | nil => rfl
  | append_singleton members m ih =>
    rw [names_append] at h
    have hfresh : m.1 ∉ names members := fun hmem =>
      List.disjoint_of_nodup_append h hmem List.mem_cons_self
    rw [ofMembers_concat, ih h.of_append_left, insert_fresh m.2 hfresh]

/-- The names of a table are those of its members, each where it first stands. -/
theorem names_ofMembers (members : List (String × α)) :
    names (ofMembers members) = (names members).eraseDups := by
  induction members using List.reverseRecOn with
  | nil => rfl
  | append_singleton members m ih =>
    have hlast : names [m] = [m.1] := rfl
    rw [ofMembers_concat, names_insert, ih, names_append, hlast, List.eraseDups_append]
    simp only [List.mem_eraseDups]
    by_cases hmem : m.1 ∈ names members
    · simp [List.removeAll, hmem]
    · simp [List.removeAll, hmem, List.eraseDups_cons]

/-- Under a name the content of its last member is found. -/
theorem find?_ofMembers (name : String) (members : List (String × α)) :
    find? name (ofMembers members) = find? name members.reverse := by
  induction members using List.reverseRecOn with
  | nil => rfl
  | append_singleton members m ih =>
    rw [ofMembers_concat, find?_insert, List.reverse_concat, find?, ih]
    simp only [eq_comm]

/-- The members of a table are those that no other of their name follows. -/
theorem mem_ofMembers_iff {members : List (String × α)} : (name, content) ∈ ofMembers members ↔
    ∃ before after, members = before ++ (name, content) :: after ∧ name ∉ names after := by
  have hfound : (name, content) ∈ ofMembers members ↔
      find? name (ofMembers members) = some content :=
    ⟨find?_of_mem (nodup_names_ofMembers members), mem_of_find?⟩
  rw [hfound, find?_ofMembers, find?_eq_some_iff]
  constructor
  · rintro ⟨after, before, hsplit, hlast⟩
    refine ⟨before.reverse, after.reverse, ?_, by simpa [names] using hlast⟩
    simpa using congrArg List.reverse hsplit
  · rintro ⟨before, after, rfl, hlast⟩
    exact ⟨after.reverse, before.reverse, by simp, by simpa [names] using hlast⟩

theorem mem_of_mem_ofMembers {m : String × α} {members : List (String × α)}
    (h : m ∈ ofMembers members) : m ∈ members := by
  obtain ⟨before, after, rfl, -⟩ := mem_ofMembers_iff.1 h
  exact List.mem_append_right before List.mem_cons_self

/-- The table of the members of some names is the part of the table of all. -/
theorem ofMembers_filter (keep : String → Bool) (members : List (String × α)) :
    ofMembers (members.filter fun m => keep m.1) =
      (ofMembers members).filter fun m => keep m.1 := by
  induction members using List.reverseRecOn with
  | nil => rfl
  | append_singleton members m ih =>
    rw [List.filter_append, List.filter_cons, List.filter_nil, ofMembers_concat, filter_insert,
      ← ih]
    split_ifs
    · rw [ofMembers_concat]
    · rw [List.append_nil]

/-! ## Tables of items

Each item has a key, under which what it is shown as is inserted. -/

variable {ι : Type} {key : ι → String} {items : List ι}

/-- The item is the last of its key. -/
def IsLast (key : ι → String) (items : List ι) (x : ι) : Prop :=
  ∃ before after, items = before ++ x :: after ∧ ∀ y ∈ after, key y ≠ key x

theorem IsLast.mem {x : ι} (h : IsLast key items x) : x ∈ items := by
  obtain ⟨before, after, rfl, -⟩ := h
  exact List.mem_append_right before List.mem_cons_self

/-- The names of the table are the keys of the items, each once and in the order in which they first
stand, and the content under a key is what the last item of that key is shown as. -/
structure KeepsLast (key : ι → String) (shown : ι → α → Prop) (items : List ι) (table : Table α) :
    Prop where
  names : Table.names table = (items.map key).eraseDups
  contents : ∀ m ∈ table, ∃ x, IsLast key items x ∧ key x = m.1 ∧ shown x m.2

theorem names_ofMembers_map (key : ι → String) (content : ι → α) (items : List ι) :
    names (ofMembers (items.map fun x => (key x, content x))) = (items.map key).eraseDups := by
  rw [names_ofMembers, names, List.map_map]
  rfl

theorem mem_ofMembers_map_iff {content : ι → α} {m : String × α} :
    m ∈ ofMembers (items.map fun x => (key x, content x)) ↔
      ∃ x, IsLast key items x ∧ key x = m.1 ∧ m.2 = content x := by
  obtain ⟨name, c⟩ := m
  rw [mem_ofMembers_iff]
  constructor
  · rintro ⟨before, after, hsplit, hlast⟩
    obtain ⟨front, back, rfl, rfl, hback⟩ := List.map_eq_append_iff.1 hsplit
    obtain ⟨x, rest, rfl, hx, rfl⟩ := List.map_eq_cons_iff.1 hback
    obtain ⟨rfl, rfl⟩ := Prod.mk.inj hx
    refine ⟨x, ⟨front, rest, rfl, fun y hy heq => hlast ?_⟩, rfl, rfl⟩
    exact mem_names_iff.2 ⟨content y, heq ▸ List.mem_map_of_mem hy⟩
  · rintro ⟨x, ⟨before, after, rfl, hlast⟩, rfl, rfl⟩
    refine ⟨_, _, List.map_append, fun hmem => ?_⟩
    obtain ⟨_, hafter⟩ := mem_names_iff.1 hmem
    obtain ⟨y, hy, heq⟩ := List.mem_map.1 hafter
    exact hlast y hy (Prod.mk.inj heq).1

/-- One table keeps the last items, and inserting all of them in order makes it. -/
theorem keepsLast_iff {shown : ι → α → Prop} {content : ι → α}
    (hshown : ∀ x c, shown x c ↔ c = content x) :
    KeepsLast key shown items table ↔
      table = ofMembers (items.map fun x => (key x, content x)) := by
  have hnames := names_ofMembers_map key content items
  constructor
  · intro h
    have hsame := h.names.trans hnames.symm
    refine eq_of_names_eq hsame (hsame ▸ nodup_names_ofMembers _) fun m hm => ?_
    obtain ⟨x, hlast, hname, hcontent⟩ := h.contents m hm
    exact mem_ofMembers_map_iff.2 ⟨x, hlast, hname, (hshown x m.2).1 hcontent⟩
  · rintro rfl
    refine ⟨hnames, fun m hm => ?_⟩
    obtain ⟨x, hlast, hname, hcontent⟩ := mem_ofMembers_map_iff.1 hm
    exact ⟨x, hlast, hname, (hshown x m.2).2 hcontent⟩

/-- Inserting an item again changes nothing if no other has its key. -/
theorem ofMembers_map_concat {content : ι → α} {x : ι} (hx : x ∈ items)
    (honly : ∀ y ∈ items, key y = key x → y = x) :
    ofMembers ((items ++ [x]).map fun x => (key x, content x)) =
      ofMembers (items.map fun x => (key x, content x)) := by
  have hname : key x ∈ names (ofMembers (items.map fun x => (key x, content x))) := by
    rw [names_ofMembers_map, List.mem_eraseDups]
    exact List.mem_map_of_mem hx
  obtain ⟨c, hmem⟩ := mem_names_iff.1 hname
  obtain ⟨y, hlast, hkey, hcontent⟩ := mem_ofMembers_map_iff.1 hmem
  obtain rfl := honly y hlast.mem hkey
  rw [List.map_append, List.map_singleton, ofMembers_concat, ← hcontent]
  exact insert_eq_self (find?_of_mem (nodup_names_ofMembers _) hmem)

end RecordCheck.Table
