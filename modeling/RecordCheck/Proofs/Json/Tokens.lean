import RecordCheck.Proofs.Json.Quoted
import RecordCheck.Json.Reader
set_option autoImplicit false

/-!
# JSON: the grammar of tokens

What stands between the nodes of a text: blanks, separators, brackets and words.  Each reader of
tokens succeeds exactly on the bytes that its statement here spells out.
-/

namespace RecordCheck.Json

/-! ## Blanks -/

/-- Bytes that may stand between tokens. -/
def Blank (bytes : Bytes) : Prop := ∀ b ∈ bytes, isSpace b = true

theorem blank_nil : Blank [] := List.forall_mem_nil _

theorem skipSpace_blank {blank : Bytes} (h : Blank blank) (bytes : Bytes) :
    skipSpace (blank ++ bytes) = skipSpace bytes :=
  List.dropWhile_append_of_pos h

theorem skipSpace_cons {b : UInt8} (h : isSpace b = false) (bytes : Bytes) :
    skipSpace (b :: bytes) = b :: bytes :=
  List.dropWhile_cons_of_neg (by simp [h])

theorem skipSpace_blank_cons {blank : Bytes} (hblank : Blank blank) {b : UInt8}
    (hb : isSpace b = false) (bytes : Bytes) : skipSpace (blank ++ b :: bytes) = b :: bytes := by
  rw [skipSpace_blank hblank, skipSpace_cons hb]

theorem skipSpace_skipSpace (bytes : Bytes) : skipSpace (skipSpace bytes) = skipSpace bytes :=
  List.dropWhile_idempotent _ _

theorem exists_blank {bytes : Bytes} {b : UInt8} {rest : Bytes} (h : skipSpace bytes = b :: rest) :
    ∃ blank, Blank blank ∧ bytes = blank ++ b :: rest ∧ isSpace b = false := by
  refine ⟨bytes.takeWhile isSpace, fun b hb => List.mem_takeWhile_imp hb, ?_, ?_⟩
  · rw [← h]
    exact List.takeWhile_append_dropWhile.symm
  · have hhead := List.head?_dropWhile_not isSpace bytes
    rwa [show bytes.dropWhile isSpace = b :: rest from h] at hhead

/-! ## Tokens -/

/-- The bytes in front of a node: blanks, with a comma among them behind another node. -/
def Separator (first : Bool) (bytes : Bytes) : Prop :=
  if first then Blank bytes
  else ∃ blank blank', Blank blank ∧ Blank blank' ∧ bytes = blank ++ 0x2c :: blank'

/-- The next item is reached behind a separator, at a byte that is neither blank nor the closing
bracket. -/
theorem nextItem_true_iff {first : Bool} {bytes behind : Bytes} :
    nextItem first bytes = .ok (true, behind) ↔ ∃ before b rest, Separator first before ∧
      bytes = before ++ behind ∧ behind = b :: rest ∧ isSpace b = false ∧ b ≠ 0x5d := by
  constructor
  · intro h
    unfold nextItem at h
    split at h
    · exact nomatch h
    next b rest hskip =>
    obtain ⟨blank, hblank, rfl, hb⟩ := exists_blank hskip
    split_ifs at h with hclose hfirst hcomma
    · exact nomatch h
    · obtain rfl := (Prod.mk.inj (Except.ok.inj h)).2
      exact ⟨blank, b, rest, by rwa [Separator, if_pos hfirst], rfl, rfl, hb, hclose⟩
    · split at h
      · exact nomatch h
      next b' rest' hskip' =>
      obtain ⟨blank', hblank', rfl, hb'⟩ := exists_blank hskip'
      split_ifs at h with hclose'
      obtain rfl := (Prod.mk.inj (Except.ok.inj h)).2
      refine ⟨blank ++ b :: blank', b', rest', ?_, by simp, rfl, hb', hclose'⟩
      rw [Separator, if_neg hfirst]
      exact ⟨blank, blank', hblank, hblank', by rw [hcomma]⟩
  · rintro ⟨before, b, rest, hbefore, rfl, rfl, hb, hclose⟩
    unfold Separator at hbefore
    split_ifs at hbefore with hfirst
    · rw [nextItem, skipSpace_blank_cons hbefore hb]
      simp [hclose, hfirst]
    · obtain ⟨blank, blank', hblank, hblank', rfl⟩ := hbefore
      rw [List.append_assoc, List.cons_append, nextItem, skipSpace_blank_cons hblank (by decide)]
      simp [hclose, hfirst, skipSpace_blank_cons hblank' hb]

theorem nextItem_false_iff {first : Bool} {bytes behind : Bytes} :
    nextItem first bytes = .ok (false, behind) ↔ ∃ blank rest, Blank blank ∧
      bytes = blank ++ behind ∧ behind = 0x5d :: rest := by
  constructor
  · intro h
    unfold nextItem at h
    split at h
    · exact nomatch h
    next b rest hskip =>
    obtain ⟨blank, hblank, rfl, hb⟩ := exists_blank hskip
    split_ifs at h with hclose hfirst hcomma
    · obtain rfl := (Prod.mk.inj (Except.ok.inj h)).2
      exact ⟨blank, rest, hblank, rfl, by rw [hclose]⟩
    · exact nomatch h
    · split at h
      · exact nomatch h
      · split_ifs at h
        exact nomatch h
  · rintro ⟨blank, rest, hblank, rfl, rfl⟩
    rw [nextItem, skipSpace_blank_cons hblank (by decide)]
    rfl

/-- The name of the next member is reached behind a separator and a quote. -/
theorem nextMember_true_iff {first : Bool} {bytes behind : Bytes} :
    nextMember first bytes = .ok (true, behind) ↔
      ∃ before, Separator first before ∧ bytes = before ++ 0x22 :: behind := by
  constructor
  · intro h
    unfold nextMember at h
    dsimp only at h
    split at h
    · exact nomatch h
    next b rest hskip =>
    obtain ⟨blank, hblank, rfl, hb⟩ := exists_blank hskip
    split_ifs at h with hclose hfirst hquote hcomma
    · exact nomatch h
    · obtain rfl := (Prod.mk.inj (Except.ok.inj h)).2
      exact ⟨blank, by rwa [Separator, if_pos hfirst], by rw [hquote]⟩
    · split at h
      · exact nomatch h
      next b' rest' hskip' =>
      obtain ⟨blank', hblank', rfl, hb'⟩ := exists_blank hskip'
      split_ifs at h with hquote
      obtain rfl := (Prod.mk.inj (Except.ok.inj h)).2
      refine ⟨blank ++ b :: blank', ?_, by simp [hquote]⟩
      rw [Separator, if_neg hfirst]
      exact ⟨blank, blank', hblank, hblank', by rw [hcomma]⟩
  · rintro ⟨before, hbefore, rfl⟩
    unfold Separator at hbefore
    split_ifs at hbefore with hfirst
    · rw [nextMember, skipSpace_blank_cons hbefore (by decide)]
      simp [hfirst]
    · obtain ⟨blank, blank', hblank, hblank', rfl⟩ := hbefore
      rw [List.append_assoc, List.cons_append, nextMember,
        skipSpace_blank_cons hblank (by decide)]
      simp [hfirst, skipSpace_blank_cons hblank' (show isSpace 0x22 = false by decide)]

theorem nextMember_false_iff {first : Bool} {bytes behind : Bytes} :
    nextMember first bytes = .ok (false, behind) ↔ ∃ blank rest, Blank blank ∧
      bytes = blank ++ behind ∧ behind = 0x7d :: rest := by
  constructor
  · intro h
    unfold nextMember at h
    dsimp only at h
    split at h
    · exact nomatch h
    next b rest hskip =>
    obtain ⟨blank, hblank, rfl, hb⟩ := exists_blank hskip
    split_ifs at h with hclose hfirst
    · obtain rfl := (Prod.mk.inj (Except.ok.inj h)).2
      exact ⟨blank, rest, hblank, rfl, by rw [hclose]⟩
    · exact nomatch h
    · split at h
      · exact nomatch h
      · split_ifs at h
        exact nomatch h
  · rintro ⟨blank, rest, hblank, rfl, rfl⟩
    rw [nextMember, skipSpace_blank_cons hblank (by decide)]
    rfl

theorem colon_eq_ok_iff {bytes behind : Bytes} :
    colon bytes = .ok behind ↔ ∃ blank, Blank blank ∧ bytes = blank ++ 0x3a :: behind := by
  constructor
  · intro h
    unfold colon at h
    split at h
    · exact nomatch h
    next b rest hskip =>
    obtain ⟨blank, hblank, rfl, hb⟩ := exists_blank hskip
    split_ifs at h with hcolon
    obtain rfl := Except.ok.inj h
    exact ⟨blank, hblank, by rw [hcolon]⟩
  · rintro ⟨blank, hblank, rfl⟩
    rw [colon, skipSpace_blank_cons hblank (by decide)]
    rfl

/-- A word is read exactly if its letters begin the bytes. -/
theorem word_eq_ok_iff {letters : List Char} {bytes rest : Bytes} :
    word letters bytes = .ok rest ↔ bytes = letters.map Char.toUInt8 ++ rest := by
  induction letters generalizing bytes with
  | nil => simp [word]
  | cons c letters ih =>
    cases bytes with
    | nil => simp [word]
    | cons b bytes =>
      rw [word]
      split_ifs with hb
      · simp [ih, hb]
      · simp [hb]

theorem nextItem_length {first more : Bool} {bytes behind : Bytes}
    (h : nextItem first bytes = .ok (more, behind)) : behind.length ≤ bytes.length := by
  cases more with
  | true =>
    obtain ⟨before, _, _, -, rfl, -⟩ := nextItem_true_iff.1 h
    simp
  | false =>
    obtain ⟨before, _, -, rfl, -⟩ := nextItem_false_iff.1 h
    simp

theorem string_length {bytes rest : Bytes} {s : String} (h : string bytes = .ok (s, rest)) :
    rest.length < bytes.length := by
  obtain ⟨pieces, -, rfl⟩ := string_eq_ok_iff.1 h
  simp only [List.length_append, List.length_cons]
  omega

theorem colon_length {bytes rest : Bytes} (h : colon bytes = .ok rest) :
    rest.length < bytes.length := by
  obtain ⟨blank, -, rfl⟩ := colon_eq_ok_iff.1 h
  simp only [List.length_append, List.length_cons]
  omega

theorem nextMember_length {first : Bool} {bytes behind : Bytes}
    (h : nextMember first bytes = .ok (true, behind)) : behind.length < bytes.length := by
  obtain ⟨before, -, rfl⟩ := nextMember_true_iff.1 h
  simp only [List.length_append, List.length_cons]
  omega

end RecordCheck.Json
