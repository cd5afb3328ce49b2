import RecordCheck.Proofs.Decode.Conformance
set_option autoImplicit false

/-!
# Decode: the two decoders of tagged records

`record` looks the tag up and erases it, which moves the last member; `tagged` walks over the
members and sets aside what is not the tag.  What they decode then is the same up to order, and no
kind of record looks at the order of members.  Main statement: `tagged_agrees_with_record`.
-/

namespace RecordCheck.Decode

/-! ## Splitting off the tag -/

theorem judgeTag_eq_ok_iff {x : Json} {kind : Kind Record} : judgeTag x = .ok kind ↔
    ∃ tag, x = .text tag ∧ Table.find? tag variants = some kind := by
  cases x with
  | text tag =>
    rw [judgeTag]
    cases hkind : Table.find? tag variants with
    | none =>
      refine iff_of_false nofun ?_
      rintro ⟨tag', htag, hkind'⟩
      obtain rfl := Json.text.inj htag
      exact nomatch hkind.symm.trans hkind'
    | some kind' =>
      constructor
      · intro h
        obtain rfl := Except.ok.inj h
        exact ⟨tag, rfl, hkind⟩
      · rintro ⟨tag', htag, hkind'⟩
        obtain rfl := Json.text.inj htag
        obtain rfl := Option.some.inj (hkind.symm.trans hkind')
        rfl
  | null | bool _ | integer _ | float _ | array _ | object _ =>
    exact iff_of_false nofun fun ⟨_, h, _⟩ => nomatch h

/-- Behind the tag no other tag may stand; the other members are set aside in order. -/
theorem splitTag_some_iff {kind kind' : Kind Record} {aside members body : List (String × Json)} :
    splitTag (some kind) aside members = .ok (kind', body) ↔
      tagName ∉ Table.names members ∧ kind = kind' ∧ aside.reverse ++ members = body := by
  induction members generalizing aside with
  | nil => simp [splitTag, Table.names]
  | cons m members ih =>
    obtain ⟨name, x⟩ := m
    rw [splitTag, Table.names_cons, List.mem_cons]
    by_cases hname : name = tagName
    · rw [if_pos hname]
      refine iff_of_false (fun h => ?_) fun h => h.1 (.inl hname.symm)
      cases h
    · have hne : tagName ≠ name := fun h => hname h.symm
      rw [if_neg hname, ih, or_iff_right hne, List.reverse_cons, List.append_assoc,
        List.singleton_append]

/-- The members are split if exactly one of them is a tag, and it names a type. -/
theorem splitTag_none_iff {kind : Kind Record} {aside members body : List (String × Json)} :
    splitTag none aside members = .ok (kind, body) ↔
      ∃ before x after, members = before ++ (tagName, x) :: after ∧
        tagName ∉ Table.names before ∧ tagName ∉ Table.names after ∧ judgeTag x = .ok kind ∧
        aside.reverse ++ (before ++ after) = body := by
  induction members generalizing aside with
  | nil =>
    refine iff_of_false nofun ?_
    rintro ⟨before, x, after, h, -⟩
    exact List.append_ne_nil_of_right_ne_nil before (List.cons_ne_nil _ _) h.symm
  | cons m members ih =>
    obtain ⟨name, y⟩ := m
    rw [splitTag]
    by_cases hname : name = tagName
    · subst hname
      rw [if_pos rfl]
      constructor
      · intro h
        cases hjudged : judgeTag y with
        | error failure => rw [hjudged] at h; exact nomatch h
        | ok kind' =>
          rw [hjudged] at h
          obtain ⟨hafter, rfl, hbody⟩ := splitTag_some_iff.1 h
          exact ⟨[], y, members, rfl, nofun, hafter, hjudged, hbody⟩
      · rintro ⟨before, x, after, hmembers, hbefore, hafter, hjudged, hbody⟩
        cases before with
        | nil =>
          obtain ⟨hhead, rfl⟩ := List.cons.inj hmembers
          obtain rfl := (Prod.mk.inj hhead).2
          rw [hjudged]
          exact splitTag_some_iff.2 ⟨hafter, rfl, hbody⟩
        | cons m before =>
          obtain ⟨rfl, -⟩ := List.cons.inj hmembers
          exact absurd List.mem_cons_self hbefore
    · rw [if_neg hname, ih]
      constructor
      · rintro ⟨before, x, after, rfl, hbefore, hafter, hjudged, hbody⟩
        refine ⟨(name, y) :: before, x, after, rfl, ?_, hafter, hjudged, ?_⟩
        · rw [Table.names_cons, List.mem_cons]
          exact not_or.2 ⟨fun h => hname h.symm, hbefore⟩
        · rw [← hbody, List.reverse_cons, List.append_assoc]
          rfl
      · rintro ⟨before, x, after, hmembers, hbefore, hafter, hjudged, hbody⟩
        cases before with
        | nil => exact absurd (Prod.mk.inj (List.cons.inj hmembers).1).1 hname
        | cons m before =>
          obtain ⟨rfl, rfl⟩ := List.cons.inj hmembers
          refine ⟨before, x, after, rfl, fun h => hbefore (List.mem_cons_of_mem _ h), hafter,
            hjudged, ?_⟩
          rw [← hbody, List.reverse_cons, List.append_assoc]
          rfl

/-! ## What both decode -/

theorem decodeBody_eq_ok_iff {kind : Kind Record} {body : Json} {r : Record} :
    decodeBody kind body = .ok r ↔ kind.ofJson body = .ok r := by
  rw [decodeBody]
  cases kind.ofJson body with
  | error failure => exact iff_of_false nofun nofun
  | ok r' => exact Iff.rfl

theorem taggedOfJson_eq_ok_iff {members : List (String × Json)} {r : Record} :
    taggedOfJson (.object members) = .ok r ↔
      ∃ before tag after kind, members = before ++ (tagName, .text tag) :: after ∧
        tagName ∉ Table.names before ∧ tagName ∉ Table.names after ∧
        Table.find? tag variants = some kind ∧ kind.ofJson (.object (before ++ after)) = .ok r := by
  rw [taggedOfJson]
  constructor
  · intro h
    cases hsplit : splitTag none [] members with
    | error failure => rw [hsplit] at h; exact nomatch h
    | ok p =>
      obtain ⟨kind, body⟩ := p
      rw [hsplit] at h
      obtain ⟨before, x, after, rfl, hbefore, hafter, hjudged, rfl⟩ := splitTag_none_iff.1 hsplit
      obtain ⟨tag, rfl, hkind⟩ := judgeTag_eq_ok_iff.1 hjudged
      exact ⟨before, tag, after, kind, rfl, hbefore, hafter, hkind, decodeBody_eq_ok_iff.1 h⟩
  · rintro ⟨before, tag, after, kind, rfl, hbefore, hafter, hkind, hdecoded⟩
    have hjudged := judgeTag_eq_ok_iff.2 ⟨tag, rfl, hkind⟩
    have hsplit := (@splitTag_none_iff kind [] _ (before ++ after)).2
      ⟨before, .text tag, after, rfl, hbefore, hafter, hjudged, rfl⟩
    rw [hsplit]
    exact decodeBody_eq_ok_iff.2 hdecoded

/-- The member that is found is taken out, and the others are left up to order. -/
theorem erase_perm {before after : List (String × Json)} {x : Json}
    (hbefore : tagName ∉ Table.names before) :
    (Table.erase tagName (before ++ (tagName, x) :: after)).Perm (before ++ after) := by
  have hfind : Table.find? tagName (before ++ (tagName, x) :: after) = some x :=
    Table.find?_eq_some_iff.2 ⟨before, after, rfl, hbefore⟩
  exact ((Table.perm_erase hfind).symm.trans List.perm_middle).cons_inv

theorem decodeRecord_iff_taggedOfJson {members : List (String × Json)} {r : Record} :
    decodeRecord (.object members) = .ok r ↔ taggedOfJson (.object members) = .ok r := by
  rw [decodeRecord_eq_ok_iff, taggedOfJson_eq_ok_iff]
  constructor
  · rintro ⟨members', tag, kind, hmembers, hfind, hkind, hdecoded⟩
    obtain rfl := Json.object.inj hmembers
    have hvariant := variant_of_mem (Table.mem_of_find? hkind)
    obtain ⟨before, after, rfl, hbefore⟩ := Table.find?_eq_some_iff.1 hfind
    have hbody := hvariant.unordered _ _ r (erase_perm hbefore) hdecoded
    refine ⟨before, tag, after, kind, rfl, hbefore, fun hafter => ?_, hkind, hbody⟩
    obtain ⟨x, hx⟩ := Table.mem_names_iff.1 hafter
    exact ((hvariant.agrees.accepts _).1 ⟨r, hbody⟩).tagName_fresh
      (Table.mem_names_of_mem (List.mem_append_right before hx))
  · rintro ⟨before, tag, after, kind, rfl, hbefore, -, hkind, hdecoded⟩
    have hvariant := variant_of_mem (Table.mem_of_find? hkind)
    have hperm := (@erase_perm before after (.text tag) hbefore).symm
    have hbody := hvariant.unordered _ _ r hperm hdecoded
    exact ⟨_, tag, kind, rfl, Table.find?_eq_some_iff.2 ⟨before, after, rfl, hbefore⟩, hkind, hbody⟩

/-! ## Where both fail -/

theorem judgeTag_error_path {x : Json} {failure : Failure} (h : judgeTag x = .error failure) :
    failure.path = [] := by
  cases x with
  | text tag =>
    rw [judgeTag] at h
    split at h
    · exact nomatch h
    · obtain rfl := Except.error.inj h
      rfl
  | null | bool _ | integer _ | float _ | array _ | object _ =>
    obtain rfl := Except.error.inj h
    rfl

theorem splitTag_some_error_path {kind : Kind Record} {aside members : List (String × Json)}
    {failure : Failure} (h : splitTag (some kind) aside members = .error failure) :
    failure.path = [] := by
  induction members generalizing aside with
  | nil => exact nomatch h
  | cons m members ih =>
    obtain ⟨name, x⟩ := m
    rw [splitTag] at h
    by_cases hname : name = tagName
    · rw [if_pos hname] at h
      obtain rfl := Except.error.inj h
      rfl
    · rw [if_neg hname] at h
      exact ih h

/-- Splitting fails at the value itself, or at a first tag that names no type. -/
theorem splitTag_none_error_path {aside members : List (String × Json)} {failure : Failure}
    (h : splitTag none aside members = .error failure) :
    failure.path = [] ∨ failure.path = [.member tagName] ∧
      ∃ x reason, Table.find? tagName members = some x ∧ judgeTag x = .error reason := by
  induction members generalizing aside with
  | nil =>
    obtain rfl := Except.error.inj h
    exact .inl rfl
  | cons m members ih =>
    obtain ⟨name, x⟩ := m
    rw [splitTag] at h
    by_cases hname : name = tagName
    · rw [if_pos hname] at h
      cases hjudged : judgeTag x with
      | ok kind =>
        rw [hjudged] at h
        exact .inl (splitTag_some_error_path h)
      | error reason =>
        rw [hjudged] at h
        obtain rfl := Except.error.inj h
        refine .inr ⟨?_, x, reason, if_pos hname, hjudged⟩
        rw [Failure.within, judgeTag_error_path hjudged]
    · rw [if_neg hname] at h
      rcases ih h with hpath | ⟨hpath, y, reason, hfind, hjudged⟩
      · exact .inl hpath
      · exact .inr ⟨hpath, y, reason, (if_neg hname).trans hfind, hjudged⟩

theorem decodeBody_error_path {kind : Kind Record} {body : Json} {failure : Failure}
    (h : decodeBody kind body = .error failure) : failure.path = [] := by
  unfold decodeBody at h
  split at h
  · exact nomatch h
  · obtain rfl := Except.error.inj h
    rfl

theorem taggedOfJson_error_path {members : List (String × Json)} {failure : Failure}
    (h : taggedOfJson (.object members) = .error failure) :
    failure.path = [] ∨ failure.path = [.member tagName] ∧
      ∃ x reason, Table.find? tagName members = some x ∧ judgeTag x = .error reason := by
  rw [taggedOfJson] at h
  cases hsplit : splitTag none [] members with
  | error failure' =>
    rw [hsplit] at h
    obtain rfl := Except.error.inj h
    exact splitTag_none_error_path hsplit
  | ok p =>
    rw [hsplit] at h
    exact .inl (decodeBody_error_path h)

/-- A tag that names no type is reported at the tag. -/
theorem decodeRecord_error_path {members : List (String × Json)} {x : Json}
    {failure reason : Failure} (hfind : Table.find? tagName members = some x)
    (hjudged : judgeTag x = .error reason)
    (h : decodeRecord (.object members) = .error failure) : failure.path = [.member tagName] := by
  unfold decodeRecord at h
  cases x with
  | text tag =>
    cases hkind : Table.find? tag variants with
    | some kind =>
      have hok := judgeTag_eq_ok_iff.2 ⟨tag, rfl, hkind⟩
      exact nomatch hok.symm.trans hjudged
    | none =>
      simp only [hfind, kindOf?_eq_find?, hkind] at h
      obtain rfl := Except.error.inj h
      rfl
  | null | bool _ | integer _ | float _ | array _ | object _ =>
    simp only [hfind] at h
    obtain rfl := Except.error.inj h
    rfl

theorem mapError_report_eq_error_iff {α : Type} {result : Except Failure α} {e : Error} :
    result.mapError (·.report []) = .error e ↔
      ∃ failure, result = .error failure ∧ failure.report [] = e := by
  cases result with
  | error failure => simp [Except.mapError]
  | ok a => exact iff_of_false nofun nofun

/-- On objects both decoders give the same records.  Where they fail, the one that sets members
aside names the value itself, for want of a better path, or the same path as the other. -/
theorem tagged_agrees_with_record (members : List (String × Json)) :
    (∀ r, record (.object members) = .ok r ↔ ofJson tagged (.object members) = .ok r) ∧
    ∀ e e', record (.object members) = .error e → ofJson tagged (.object members) = .error e' →
      e'.path = "." ∨ e'.path = e.path := by
  constructor
  · intro r
    rw [record_eq_ok_iff, decodeRecord_iff_taggedOfJson]
    exact mapError_report_eq_ok_iff.symm
  · intro e e' hrecord htagged
    obtain ⟨failure, hfailure, rfl⟩ := mapError_report_eq_error_iff.1 hrecord
    obtain ⟨failure', hfailure', rfl⟩ := mapError_report_eq_error_iff.1 htagged
    rcases taggedOfJson_error_path hfailure' with hpath | ⟨hpath, x, reason, hfind, hjudged⟩
    · exact .inl (congrArg Json.Path.text hpath)
    · have hpath' := decodeRecord_error_path hfind hjudged hfailure
      exact .inr (congrArg Json.Path.text (hpath.trans hpath'.symm))

end RecordCheck.Decode
