import RecordCheck.Proofs.Decode.FirstWrong
import RecordCheck.Proofs.Decode.Reordered
set_option autoImplicit false

/-!
# Decode: the place of the tag

The tag is looked up wherever it stands, and to erase it moves the last member to its place.  So the
place of the tag makes no difference to the record, nor to the failure where at most one of the
other members is wrong; where several are, it may show which of them is judged first
(`record_moved_tag`).  The decoder that sets members aside keeps their order, and to it the place of
the tag makes no difference at all.
-/

namespace RecordCheck.Decode

variable {tag : Json} {before after : List (String × Json)}

/-! ## Finding the tag -/

theorem find?_tag (h : tagName ∉ Table.names before) :
    Table.find? tagName (before ++ (tagName, tag) :: after) = some tag :=
  Table.find?_eq_some_iff.2 ⟨before, after, rfl, h⟩

/-- Beyond the tag only what is left without it matters, and that only where the tag names a
type. -/
theorem decodeRecord_congr {all all' : List (String × Json)}
    (h : Table.find? tagName all = some tag) (h' : Table.find? tagName all' = some tag)
    (hbody : ∀ name kind, tag = .text name → (name, kind) ∈ variants →
      kind.ofJson (.object (Table.erase tagName all)) =
        kind.ofJson (.object (Table.erase tagName all'))) :
    decodeRecord (.object all) = decodeRecord (.object all') := by
  rw [decodeRecord, decodeRecord]
  cases tag with
  | text name =>
    simp only [h, h', kindOf?_eq_find?]
    cases hkind : Table.find? name variants with
    | none => rfl
    | some kind => exact hbody name kind rfl (Table.mem_of_find? hkind)
  | null | bool _ | integer _ | float _ | array _ | object _ => simp only [h, h']

/-- Splitting takes the tag out from among the others, which keep their order. -/
theorem splitTag_append (hbefore : tagName ∉ Table.names before)
    (hafter : tagName ∉ Table.names after) (aside : List (String × Json)) :
    splitTag none aside (before ++ (tagName, tag) :: after) =
      match judgeTag tag with
      | .error failure => .error (failure.within (.member tagName))
      | .ok kind => .ok (kind, aside.reverse ++ (before ++ after)) := by
  induction before generalizing aside with
  | nil =>
    rw [List.nil_append, List.nil_append, splitTag, if_pos rfl]
    cases judgeTag tag with
    | error failure => rfl
    | ok kind => exact splitTag_some_iff.2 ⟨hafter, rfl, rfl⟩
  | cons m before ih =>
    obtain ⟨name, x⟩ := m
    rw [Table.names_cons, List.mem_cons, not_or] at hbefore
    rw [List.cons_append, splitTag, if_neg (Ne.symm hbefore.1), ih hbefore.2, List.reverse_cons,
      List.append_assoc]
    rfl

/-! ## Moving the tag -/

/-- The members without the tag, in whatever order they are judged. -/
theorem erase_tag_perm {others : List (String × Json)} (hothers : before ++ after = others)
    (hfresh : tagName ∉ Table.names others) :
    (Table.erase tagName (before ++ (tagName, tag) :: after)).Perm others := by
  subst hothers
  exact erase_perm (Table.not_mem_names_append.1 hfresh).1

/-- Wherever the tag stands the record is the same, and so is the failure if at most one of the
other members is wrong. -/
theorem record_oneWrong {before' after' : List (String × Json)}
    (hothers : before ++ after = before' ++ after')
    (hfresh : tagName ∉ Table.names (before ++ after))
    (hnodup : (Table.names (before ++ after)).Nodup)
    (hone : ∀ name, tag = .text name → ∀ m ∈ before ++ after, ∀ m' ∈ before ++ after,
      Wrong name m → Wrong name m' → m = m') :
    record (.object (before ++ (tagName, tag) :: after)) =
      record (.object (before' ++ (tagName, tag) :: after')) := by
  have hperm := @erase_tag_perm tag _ _ _ rfl hfresh
  have hperm' := @erase_tag_perm tag _ _ _ hothers.symm hfresh
  have hbefore := (Table.not_mem_names_append.1 hfresh).1
  have hbefore' := (Table.not_mem_names_append.1 (hothers ▸ hfresh)).1
  refine congrArg (Except.mapError _)
    (decodeRecord_congr (find?_tag hbefore) (find?_tag hbefore') fun name kind htag hkind => ?_)
  refine (row_of_mem hkind).oneWrong (hperm.trans hperm'.symm)
    ((hperm.map Prod.fst).nodup_iff.2 hnodup) fun m hm m' hm' => ?_
  exact hone name htag m (hperm.subset hm) m' (hperm.subset hm')

/-- The last member is judged in the place of the tag. -/
theorem record_last_moved {between : List (String × Json)} {last : String × Json}
    (hfresh : tagName ∉ Table.names (before ++ (between ++ [last]))) :
    record (.object (before ++ (tagName, tag) :: (between ++ [last]))) =
      record (.object (before ++ last :: between ++ [(tagName, tag)])) := by
  have hbefore := (Table.not_mem_names_append.1 hfresh).1
  have hmoved : (before ++ last :: between).Perm (before ++ (between ++ [last])) :=
    (List.perm_append_singleton last between).symm.append_left before
  have hfresh' : tagName ∉ Table.names (before ++ last :: between) :=
    fun hmem => hfresh ((hmoved.map Prod.fst).subset hmem)
  refine congrArg (Except.mapError _)
    (decodeRecord_congr (find?_tag hbefore) (find?_tag hfresh') fun name kind _ _ => ?_)
  rw [Table.erase_inner hbefore, Table.erase_last hfresh']

/-- With the tag behind the others, the first of them that is wrong decides. -/
theorem record_firstWrong {name : String} {front back : List (String × Json)} {m : String × Json}
    (hfresh : tagName ∉ Table.names (front ++ m :: back))
    (hnodup : (Table.names (front ++ m :: back)).Nodup) (hfront : ∀ m' ∈ front, ¬Wrong name m')
    (hm : Wrong name m) :
    record (.object (front ++ m :: back ++ [(tagName, .text name)])) =
      record (.object [(tagName, .text name), m]) := by
  refine congrArg (Except.mapError _)
    (decodeRecord_congr (find?_tag hfresh) (if_pos rfl) fun name' kind htag hkind => ?_)
  obtain rfl := Json.text.inj htag
  rw [Table.erase_last hfresh]
  exact (row_of_mem hkind).firstWrong hnodup hfront hm

/-- To the decoder that sets members aside the place of the tag makes no difference. -/
theorem tagged_moved {before' after' : List (String × Json)}
    (hothers : before ++ after = before' ++ after')
    (hfresh : tagName ∉ Table.names (before ++ after)) :
    ofJson tagged (.object (before ++ (tagName, tag) :: after)) =
      ofJson tagged (.object (before' ++ (tagName, tag) :: after')) := by
  obtain ⟨hbefore, hafter⟩ := Table.not_mem_names_append.1 hfresh
  obtain ⟨hbefore', hafter'⟩ := Table.not_mem_names_append.1 (hothers ▸ hfresh)
  refine congrArg (Except.mapError _) ?_
  simp only [tagged, taggedOfJson, splitTag_append hbefore hafter,
    splitTag_append hbefore' hafter', hothers]

/-- An object is decoded as the same record wherever its tag stands.  If that fails, it fails with
the same report wherever the tag stands, if at most one of the other members is wrong; otherwise
they are judged in the order in which the last of them has taken the place of the tag, and the first
that is wrong decides.  To the decoder that sets members aside the place of the tag makes no
difference. -/
theorem record_moved_tag {before' after' others : List (String × Json)}
    (hothers : before ++ after = others) (hothers' : before' ++ after' = others)
    (hfresh : tagName ∉ Table.names others) (hnodup : (Table.names others).Nodup) :
    (∀ r, record (.object (before ++ (tagName, tag) :: after)) = .ok r ↔
      record (.object (before' ++ (tagName, tag) :: after')) = .ok r) ∧
    ((∀ name, tag = .text name → ∀ m ∈ others, ∀ m' ∈ others,
        Wrong name m → Wrong name m' → m = m') →
      record (.object (before ++ (tagName, tag) :: after)) =
        record (.object (before' ++ (tagName, tag) :: after'))) ∧
    (∀ between last, after = between ++ [last] →
      record (.object (before ++ (tagName, tag) :: after)) =
        record (.object (before ++ last :: between ++ [(tagName, tag)]))) ∧
    (∀ name front m back, tag = .text name → others = front ++ m :: back →
      (∀ m' ∈ front, ¬Wrong name m') → Wrong name m →
      record (.object (others ++ [(tagName, tag)])) = record (.object [(tagName, tag), m])) ∧
    ofJson tagged (.object (before ++ (tagName, tag) :: after)) =
      ofJson tagged (.object (before' ++ (tagName, tag) :: after')) := by
  subst hothers
  refine ⟨fun r => ?_, record_oneWrong hothers'.symm hfresh hnodup,
    fun between last hlast => ?_, ?_, tagged_moved hothers'.symm hfresh⟩
  · have hmoved : (before ++ (tagName, tag) :: after).Perm
        (before' ++ (tagName, tag) :: after') := by
      refine List.perm_middle.trans ?_
      rw [← hothers']
      exact List.perm_middle.symm
    rw [record_eq_ok_iff, record_eq_ok_iff]
    exact ⟨decodeRecord_reordered (.perm hmoved), decodeRecord_reordered (.perm hmoved.symm)⟩
  · subst hlast
    exact record_last_moved hfresh
  · intro name front m back htag hsplit hfront hm
    subst htag
    rw [hsplit] at hfresh hnodup ⊢
    exact record_firstWrong hfresh hnodup hfront hm

/-- The only wrong member stands behind a right one, and the tag between them or at either end. -/
theorem record_moved_tag_one :
    let inner := ("a", Json.array [.text "x"])
    let wrong := ("b_string", Json.integer 1)
    let tag := (tagName, Json.text "B")
    (Table.names [inner, wrong]).Nodup ∧ Wrong "B" wrong ∧ ¬Wrong "B" inner ∧
    record (.object [tag, inner, wrong]) =
      .error ⟨"b_string", "invalid type: integer `1`, expected a string"⟩ ∧
    record (.object [tag, inner, wrong]) = record (.object [inner, tag, wrong]) ∧
    record (.object [tag, inner, wrong]) = record (.object [inner, wrong, tag]) := by
  intro inner wrong tag
  have hnodup : (Table.names [inner, wrong]).Nodup := by decide
  have hfresh : tagName ∉ Table.names [inner, wrong] := by decide
  have hwrong : Wrong "B" wrong := by
    intro shape declared field hfield hname hconforms
    obtain rfl : RecordShape.b = shape := Option.some.inj declared
    rcases List.mem_cons.1 hfield with rfl | hfield
    · exact absurd hname (by decide)
    · obtain rfl := List.mem_singleton.1 hfield
      exact nomatch hconforms
  have hright : ¬Wrong "B" inner := by
    intro h
    refine h .b rfl ⟨"a", .record "A", none⟩ List.mem_cons_self rfl ?_
    exact @Conforms.items _ .a _ rfl rfl
      (List.forall_mem_cons.2 ⟨Conforms.string "x", nofun⟩)
  have hone : ∀ name, tag.2 = .text name → ∀ m ∈ [inner, wrong], ∀ m' ∈ [inner, wrong],
      Wrong name m → Wrong name m' → m = m' := by
    intro name hname m hm m' hm' hwrong hwrong'
    obtain rfl := Json.text.inj hname
    have hall : ∀ m ∈ [inner, wrong], Wrong "B" m → m = wrong := by
      intro m hm h
      rcases List.mem_cons.1 hm with rfl | hm
      · exact absurd h hright
      · exact List.mem_singleton.1 hm
    rw [hall m hm hwrong, hall m' hm' hwrong']
  have hbetween :=
    (@record_moved_tag tag.2 [] [inner, wrong] [inner] [wrong] _ rfl rfl hfresh hnodup).2.1 hone
  have hbehind :=
    (@record_moved_tag tag.2 [] [inner, wrong] [inner, wrong] [] _ rfl rfl hfresh hnodup).2.1 hone
  exact ⟨hnodup, hwrong, hright, rfl, hbetween, hbehind⟩

/-- Two members that no record has: with the tag in front of them the second is judged first. -/
theorem moved_tag_shows :
    ¬∀ (tag : Json) (before after before' after' : List (String × Json)),
      before ++ after = before' ++ after' → tagName ∉ Table.names (before ++ after) →
      (Table.names (before ++ after)).Nodup →
      record (.object (before ++ (tagName, tag) :: after)) =
        record (.object (before' ++ (tagName, tag) :: after')) := by
  intro hall
  have hsame := hall (.text "A") [] [("x", .integer 1), ("y", .integer 2)]
    [("x", .integer 1), ("y", .integer 2)] [] rfl (by decide) (by decide)
  have hfirst : record (.object [(tagName, .text "A"), ("x", .integer 1), ("y", .integer 2)]) =
      .error ⟨"y", "unknown field `y`, expected `a_string`"⟩ := rfl
  have hsecond : record (.object [("x", .integer 1), ("y", .integer 2), (tagName, .text "A")]) =
      .error ⟨"x", "unknown field `x`, expected `a_string`"⟩ := rfl
  have herror := Except.error.inj (hfirst.symm.trans (hsame.trans hsecond))
  exact absurd (congrArg Error.path herror) (by decide)

end RecordCheck.Decode
