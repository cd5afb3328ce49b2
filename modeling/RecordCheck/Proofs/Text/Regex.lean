import Mathlib
import RecordCheck.Text.Regex
set_option autoImplicit false

/-!
# Text: what a regular expression matches

`Way r s s'` says that `r` leads from `s` to `s'`, without any order among the ways.  The first
match is one of them (`attempt_sound`), and there is a match if there is a way (`isSome_attempt`).
An expression without groups and anchors only takes a text off what is left: one of its language
(`Accepts`).
-/

namespace RecordCheck.Text.Regex

variable {α : Type}

/-! ## Ways -/

/-- The expression leads from one state to another. -/
inductive Way : Regex → State → State → Prop
  | one {set : CharSet} {c : Char} (h : set.contains c = true) (rest : List Char) (atStart : Bool)
      (groups : Groups) : Way (.one set) ⟨c :: rest, atStart, groups⟩ ⟨rest, false, groups⟩
  | seq {first second : Regex} {s s' s'' : State} (h : Way first s s') (h' : Way second s' s'') :
      Way (.seq first second) s s''
  | left {first : Regex} (second : Regex) {s s' : State} (h : Way first s s') :
      Way (.either first second) s s'
  | right (first : Regex) {second : Regex} {s s' : State} (h : Way second s s') :
      Way (.either first second) s s'
  | present {r : Regex} {s s' : State} (h : Way r s s') : Way (.optional r) s s'
  | absent (r : Regex) (s : State) : Way (.optional r) s s
  | done (r : Regex) (s : State) : Way (.many r) s s
  | again {r : Regex} {s s' s'' : State} (h : Way r s s') (lt : s'.rest.length < s.rest.length)
      (h' : Way (.many r) s' s'') : Way (.many r) s s''
  | group (name : String) {r : Regex} {s s' : State} (h : Way r s s') :
      Way (.group name r) s { s' with
        groups := (name, s.rest.take (s.rest.length - s'.rest.length)) :: s'.groups }
  | start (rest : List Char) (groups : Groups) :
      Way .start ⟨rest, true, groups⟩ ⟨rest, true, groups⟩
  | finish (atStart : Bool) (groups : Groups) :
      Way .finish ⟨[], atStart, groups⟩ ⟨[], atStart, groups⟩

theorem repeated_sound {r : Regex}
    (hr : ∀ (next : State → Option α) (s : State) (a : α), attempt r next s = some a →
      ∃ s', Way r s s' ∧ next s' = some a)
    (next : State → Option α) (rounds : Nat) {s : State} {a : α}
    (h : repeated (attempt r) next rounds s = some a) :
    ∃ s', Way (.many r) s s' ∧ next s' = some a := by
  induction rounds generalizing s with
  | zero => exact ⟨s, .done r s, h⟩
  | succ rounds ih =>
    rw [repeated] at h
    split at h
    · rename_i a' hagain
      obtain rfl := Option.some.inj h
      obtain ⟨s', hway, hrest⟩ := hr _ s a' hagain
      split_ifs at hrest with hlt
      obtain ⟨s'', hways, hnext⟩ := ih hrest
      exact ⟨s'', .again hway hlt hways, hnext⟩
    · exact ⟨s, .done r s, h⟩

/-- What comes of an attempt comes of a way. -/
theorem attempt_sound {r : Regex} {next : State → Option α} {s : State} {a : α}
    (h : attempt r next s = some a) : ∃ s', Way r s s' ∧ next s' = some a := by
  induction r generalizing next s a with
  | one set =>
    obtain ⟨rest, atStart, groups⟩ := s
    cases rest with
    | nil => cases h
    | cons c rest =>
      simp only [attempt] at h
      split_ifs at h with hc
      exact ⟨_, .one hc rest atStart groups, h⟩
  | seq first second ih ih' =>
    obtain ⟨s', hfirst, h⟩ := ih h
    obtain ⟨s'', hsecond, h⟩ := ih' h
    exact ⟨s'', .seq hfirst hsecond, h⟩
  | either first second ih ih' =>
    rw [attempt] at h
    split at h
    · rename_i a' hfirst
      obtain rfl := Option.some.inj h
      obtain ⟨s', hway, h⟩ := ih hfirst
      exact ⟨s', .left second hway, h⟩
    · obtain ⟨s', hway, h⟩ := ih' h
      exact ⟨s', .right first hway, h⟩
  | optional r ih =>
    rw [attempt] at h
    split at h
    · rename_i a' hsome
      obtain rfl := Option.some.inj h
      obtain ⟨s', hway, h⟩ := ih hsome
      exact ⟨s', .present hway, h⟩
    · exact ⟨s, .absent r s, h⟩
  | many r ih => exact repeated_sound (fun next s a => ih) next _ h
  | group name r ih =>
    obtain ⟨s', hway, h⟩ := ih h
    exact ⟨_, .group name hway, h⟩
  | start =>
    obtain ⟨rest, atStart, groups⟩ := s
    cases atStart with
    | false => cases h
    | true => exact ⟨_, .start rest groups, h⟩
  | finish =>
    obtain ⟨rest, atStart, groups⟩ := s
    cases rest with
    | nil => exact ⟨_, .finish atStart groups, h⟩
    | cons c rest => cases h

theorem isSome_repeated {r : Regex}
    (hr : ∀ (next : State → Option α) (s s' : State), Way r s s' → (next s').isSome = true →
      (attempt r next s).isSome = true)
    {next : State → Option α} {s' : State} (hnext : (next s').isSome = true) (rounds : Nat)
    {s : State} (hway : Way (.many r) s s') (hrounds : s.rest.length ≤ rounds) :
    (repeated (attempt r) next rounds s).isSome = true := by
  -- Each round of a way takes something off, so there are never more than the text is long.
  induction rounds generalizing s with
  | zero =>
    cases hway with
    | done => exact hnext
    | again _ lt _ => exact absurd (Nat.lt_of_lt_of_le lt hrounds) (Nat.not_lt_zero _)
  | succ rounds ih =>
    rw [repeated]
    split
    · rfl
    · rename_i hagain
      cases hway with
      | done => exact hnext
      | again h lt h' =>
        refine absurd (hr _ _ _ h ?_) (by rw [hagain]; exact Bool.false_ne_true)
        rw [if_pos lt]
        exact ih h' (Nat.le_of_lt_succ (lt.trans_le hrounds))

/-- Where there is a way that goes on, an attempt comes to something. -/
theorem isSome_attempt {r : Regex} {next : State → Option α} {s s' : State} (hway : Way r s s')
    (hnext : (next s').isSome = true) : (attempt r next s).isSome = true := by
  induction r generalizing next s s' with
  | one set =>
    cases hway with
    | one h => simpa only [attempt, if_pos h] using hnext
  | seq first second ih ih' =>
    cases hway with
    | seq h h' => exact ih h (ih' h' hnext)
  | either first second ih ih' =>
    rw [attempt]
    split
    · rfl
    · rename_i hfirst
      cases hway with
      | left _ h => exact absurd (ih h hnext) (by rw [hfirst]; exact Bool.false_ne_true)
      | right _ h => exact ih' h hnext
  | optional r ih =>
    rw [attempt]
    split
    · rfl
    · rename_i hsome
      cases hway with
      | present h => exact absurd (ih h hnext) (by rw [hsome]; exact Bool.false_ne_true)
      | absent => exact hnext
  | many r ih => exact isSome_repeated (fun next s s' => ih) hnext _ hway (Nat.le_refl _)
  | group name r ih =>
    cases hway with
    | group _ h => exact ih h hnext
  | start =>
    cases hway with
    | start => exact hnext
  | finish =>
    cases hway with
    | finish => exact hnext

/-! ## Languages -/

/-- The expression has neither groups nor anchors. -/
def isPlain : Regex → Bool
  | .one _ => true
  | .seq first second => isPlain first && isPlain second
  | .either first second => isPlain first && isPlain second
  | .optional r => isPlain r
  | .many r => isPlain r
  | .group _ _ => false
  | .start => false
  | .finish => false

/-- The text is in the language of the expression. -/
inductive Accepts : Regex → List Char → Prop
  | one {set : CharSet} {c : Char} (h : set.contains c = true) : Accepts (.one set) [c]
  | seq {first second : Regex} {xs ys : List Char} (h : Accepts first xs)
      (h' : Accepts second ys) : Accepts (.seq first second) (xs ++ ys)
  | left {first : Regex} (second : Regex) {xs : List Char} (h : Accepts first xs) :
      Accepts (.either first second) xs
  | right (first : Regex) {second : Regex} {xs : List Char} (h : Accepts second xs) :
      Accepts (.either first second) xs
  | present {r : Regex} {xs : List Char} (h : Accepts r xs) : Accepts (.optional r) xs
  | absent (r : Regex) : Accepts (.optional r) []
  | done (r : Regex) : Accepts (.many r) []
  | again {r : Regex} {xs ys : List Char} (h : Accepts r xs) (h' : Accepts (.many r) ys) :
      Accepts (.many r) (xs ++ ys)

/-- A plain expression takes a text of its language off what is left. -/
theorem accepts_of_way {r : Regex} (hplain : r.isPlain = true) {s s' : State} (h : Way r s s') :
    ∃ xs, Accepts r xs ∧ s.rest = xs ++ s'.rest ∧ s'.groups = s.groups := by
  induction h with
  | one h => exact ⟨_, .one h, rfl, rfl⟩
  | seq _ _ ih ih' =>
    obtain ⟨hfirst, hsecond⟩ := Bool.and_eq_true_iff.1 hplain
    obtain ⟨xs, hxs, hrest, hgroups⟩ := ih hfirst
    obtain ⟨ys, hys, hrest', hgroups'⟩ := ih' hsecond
    exact ⟨xs ++ ys, .seq hxs hys, by rw [hrest, hrest', List.append_assoc],
      hgroups'.trans hgroups⟩
  | left second _ ih =>
    obtain ⟨xs, hxs, hrest⟩ := ih (Bool.and_eq_true_iff.1 hplain).1
    exact ⟨xs, .left second hxs, hrest⟩
  | right first _ ih =>
    obtain ⟨xs, hxs, hrest⟩ := ih (Bool.and_eq_true_iff.1 hplain).2
    exact ⟨xs, .right first hxs, hrest⟩
  | present _ ih =>
    obtain ⟨xs, hxs, hrest⟩ := ih hplain
    exact ⟨xs, .present hxs, hrest⟩
  | absent r s => exact ⟨[], .absent r, rfl, rfl⟩
  | done r s => exact ⟨[], .done r, rfl, rfl⟩
  | again _ _ _ ih ih' =>
    obtain ⟨xs, hxs, hrest, hgroups⟩ := ih hplain
    obtain ⟨ys, hys, hrest', hgroups'⟩ := ih' hplain
    exact ⟨xs ++ ys, .again hxs hys, by rw [hrest, hrest', List.append_assoc],
      hgroups'.trans hgroups⟩
  | group | start | finish => cases hplain

/-- A text of the language can be taken off. -/
theorem way_of_accepts {r : Regex} {xs : List Char} (h : Accepts r xs) (rest : List Char)
    (atStart : Bool) (groups : Groups) :
    Way r ⟨xs ++ rest, atStart, groups⟩ ⟨rest, atStart && xs.isEmpty, groups⟩ := by
  induction h generalizing rest atStart with
  | @one set c h =>
    rw [List.isEmpty_cons, Bool.and_false]
    exact .one h rest atStart groups
  | @seq first second xs ys _ _ ih ih' =>
    have hempty : (xs ++ ys).isEmpty = (xs.isEmpty && ys.isEmpty) := by cases xs <;> rfl
    rw [List.append_assoc, hempty, ← Bool.and_assoc]
    exact .seq (ih (ys ++ rest) atStart) (ih' rest _)
  | left second _ ih => exact .left second (ih rest atStart)
  | right first _ ih => exact .right first (ih rest atStart)
  | present _ ih => exact .present (ih rest atStart)
  | absent r =>
    rw [List.isEmpty_nil, Bool.and_true]
    exact .absent r _
  | done r =>
    rw [List.isEmpty_nil, Bool.and_true]
    exact .done r _
  | @again r xs ys _ _ ih ih' =>
    -- A round that takes nothing off is not part of a way and is left out.
    cases xs with
    | nil => exact ih' rest atStart
    | cons c xs =>
      have hway := ih (ys ++ rest) atStart
      rw [List.isEmpty_cons, Bool.and_false] at hway
      have hempty : ((c :: xs) ++ ys).isEmpty = false := rfl
      rw [List.append_assoc, hempty, Bool.and_false]
      refine .again hway ?_ (ih' rest false)
      simp only [List.length_append, List.length_cons]
      omega

/-- A group of a plain expression names the text that is taken off. -/
theorem accepts_of_way_group {name : String} {r : Regex} (hplain : r.isPlain = true) {s s' : State}
    (h : Way (.group name r) s s') :
    ∃ xs, Accepts r xs ∧ s.rest = xs ++ s'.rest ∧ s'.groups = (name, xs) :: s.groups := by
  cases h with
  | group _ h =>
    obtain ⟨xs, hxs, hrest, hgroups⟩ := accepts_of_way hplain h
    exact ⟨xs, hxs, hrest, by simp [hrest, hgroups]⟩

theorem way_group_of_accepts (name : String) {r : Regex} {xs : List Char} (h : Accepts r xs)
    (rest : List Char) (atStart : Bool) (groups : Groups) :
    Way (.group name r) ⟨xs ++ rest, atStart, groups⟩
      ⟨rest, atStart && xs.isEmpty, (name, xs) :: groups⟩ := by
  have hway := Way.group name (way_of_accepts h rest atStart groups)
  simpa using hway

/-! ## Searching -/

theorem search_start_eq_none (r : Regex) (text : List Char) :
    search (.seq .start r) false text = none := by
  induction text with
  | nil => rfl
  | cons c text ih => exact ih

/-- An expression that is bound to the start of the text is matched there or nowhere. -/
theorem captures_start (r : Regex) (text : List Char) : captures (.seq .start r) text =
    attempt r (fun s => some s.groups) ⟨text, true, []⟩ := by
  cases text with
  | nil => rfl
  | cons c text =>
    have hstart : attempt (.seq .start r) (fun s => some s.groups) ⟨c :: text, true, []⟩ =
      attempt r (fun s => some s.groups) ⟨c :: text, true, []⟩ := rfl
    rw [captures, search, search_start_eq_none, hstart]
    cases attempt r (fun s => some s.groups) ⟨c :: text, true, []⟩ with
    | none => rfl
    | some groups => rfl

end RecordCheck.Text.Regex
