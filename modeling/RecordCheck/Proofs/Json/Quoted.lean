import RecordCheck.Proofs.Text.Encoding
import RecordCheck.Json.Printer
set_option autoImplicit false

/-!
# JSON: the grammar of strings

What stands between the quotes of a string is a sequence of pieces: bytes that stand for themselves
and escapes.  Main statements: a string is read exactly if pieces and a closing quote stand there
(`string_eq_ok_iff`), and what is written of a string is read back, whatever its characters
(`string_quoted`).
-/

namespace RecordCheck.Json

open Text

/-! ## Pieces -/

/-- The first bytes are a piece of a string and stand for the second. -/
inductive Piece : Bytes → Bytes → Prop
  | plain {b : UInt8} (quote : b ≠ 0x22) (slash : b ≠ 0x5c) (control : ¬b < 0x20) : Piece [b] [b]
  | letter {e b : UInt8} (escape : escapedByte? e = some b) : Piece [0x5c, e] [b]
  | code {h₁ h₂ h₃ h₄ : UInt8} {code : Nat} (word : hexWord? h₁ h₂ h₃ h₄ = some code)
      (trailing : isTrailing code = false) (leading : isLeading code = false) :
      Piece [0x5c, 0x75, h₁, h₂, h₃, h₄] (String.utf8EncodeChar (Char.ofNat code))
  | pair {h₁ h₂ h₃ h₄ k₁ k₂ k₃ k₄ : UInt8} {code code' : Nat}
      (word : hexWord? h₁ h₂ h₃ h₄ = some code) (leading : isLeading code = true)
      (word' : hexWord? k₁ k₂ k₃ k₄ = some code') (trailing : isTrailing code' = true) :
      Piece [0x5c, 0x75, h₁, h₂, h₃, h₄, 0x5c, 0x75, k₁, k₂, k₃, k₄]
        (String.utf8EncodeChar (Char.ofNat (joined code code')))

/-- The first bytes are pieces and stand for the second. -/
inductive Pieces : Bytes → Bytes → Prop
  | nil : Pieces [] []
  | cons {piece content pieces contents : Bytes} (first : Piece piece content)
      (others : Pieces pieces contents) : Pieces (piece ++ pieces) (content ++ contents)

theorem Piece.pieces {piece content : Bytes} (h : Piece piece content) : Pieces piece content := by
  simpa using Pieces.cons h .nil

theorem Pieces.append {pieces contents pieces' contents' : Bytes} (h : Pieces pieces contents)
    (h' : Pieces pieces' contents') : Pieces (pieces ++ pieces') (contents ++ contents') := by
  induction h with
  | nil => exact h'
  | cons first _ ih =>
    rw [List.append_assoc, List.append_assoc]
    exact .cons first ih

theorem not_isTrailing_of_isLeading {code : Nat} (h : isLeading code = true) :
    isTrailing code = false := by
  simp only [isLeading, isTrailing, Bool.and_eq_true, Bool.and_eq_false_iff,
    decide_eq_true_eq, decide_eq_false_iff_not] at h ⊢
  omega

theorem escapedByte?_ne {e b : UInt8} (h : escapedByte? e = some b) : e ≠ 0x75 := by
  rintro rfl
  exact absurd (show escapedByte? 0x75 = none by decide) (by simp [h])

theorem stringBytes_piece {piece content : Bytes} (h : Piece piece content) (read rest : Bytes) :
    stringBytes read (piece ++ rest) = stringBytes (content.reverse ++ read) rest := by
  cases h with
  | plain quote slash control =>
    rw [List.singleton_append, stringBytes.eq_def]
    simp [quote, slash, control]
  | letter escape =>
    rw [stringBytes.eq_def]
    simp [escapedByte?_ne escape, escape]
  | code word trailing leading =>
    simp [stringBytes, word, trailing, leading, pushCode]
  | pair word leading word' trailing =>
    simp [stringBytes, word, leading, not_isTrailing_of_isLeading leading, word', trailing,
      pushCode]

theorem stringBytes_pieces {pieces content : Bytes} (h : Pieces pieces content)
    (read rest : Bytes) :
    stringBytes read (pieces ++ 0x22 :: rest) = .ok (read.reverse ++ content, rest) := by
  induction h generalizing read with
  | nil =>
    rw [stringBytes.eq_def]
    simp
  | cons first _ ih =>
    rw [List.append_assoc, stringBytes_piece first, ih]
    simp

/-- Whatever is read as the content of a string is pieces. -/
theorem exists_pieces {read bytes content rest : Bytes}
    (h : stringBytes read bytes = .ok (content, rest)) :
    ∃ pieces added, Pieces pieces added ∧ bytes = pieces ++ 0x22 :: rest ∧
      content = read.reverse ++ added := by
  have step {piece added read bytes : Bytes} (hpiece : Piece piece added)
      (ih : ∃ pieces added', Pieces pieces added' ∧ bytes = pieces ++ 0x22 :: rest ∧
        content = (added.reverse ++ read).reverse ++ added') :
      ∃ pieces added', Pieces pieces added' ∧ piece ++ bytes = pieces ++ 0x22 :: rest ∧
        content = read.reverse ++ added' := by
    obtain ⟨pieces, added', hpieces, rfl, rfl⟩ := ih
    exact ⟨piece ++ pieces, added ++ added', .cons hpiece hpieces, by simp, by simp⟩
  fun_induction stringBytes read bytes
  all_goals try contradiction
  case case2 read bytes =>
    obtain ⟨rfl, rfl⟩ := Prod.mk.inj (Except.ok.inj h)
    exact ⟨[], [], .nil, rfl, (List.append_nil _).symm⟩
  case case11 word _ leading u hu u' hu' _ _ _ _ _ _ word' trailing _ ih =>
    obtain rfl := not_not.1 hu
    obtain rfl := not_not.1 hu'
    exact step (.pair word leading word' trailing) (ih h)
  case case14 word trailing leading _ ih =>
    exact step (.code word (by simpa using trailing) (by simpa using leading)) (ih h)
  case case16 escape _ ih => exact step (.letter escape) (ih h)
  case case19 quote slash control ih => exact step (.plain quote slash control) (ih h)

/-! ## Strings -/

/-- A string is read exactly if pieces that stand for it and a closing quote begin the bytes. -/
theorem string_eq_ok_iff {bytes rest : Bytes} {s : String} : string bytes = .ok (s, rest) ↔
    ∃ pieces, Pieces pieces (utf8 s.toList) ∧ bytes = pieces ++ 0x22 :: rest := by
  constructor
  · intro h
    unfold string at h
    cases hread : stringBytes [] bytes with
    | error fault => exact nomatch hread ▸ h
    | ok result =>
      obtain ⟨content, rest'⟩ := result
      simp only [hread] at h
      cases htext : String.fromUTF8? (ByteArray.mk content.toArray) with
      | none => exact nomatch htext ▸ h
      | some s' =>
        simp only [htext] at h
        obtain ⟨rfl, rfl⟩ := Prod.mk.inj (Except.ok.inj h)
        obtain ⟨pieces, added, hpieces, rfl, rfl⟩ := exists_pieces hread
        exact ⟨pieces, eq_utf8_of_fromUTF8? htext ▸ hpieces, rfl⟩
  · rintro ⟨pieces, hpieces, rfl⟩
    rw [string, stringBytes_pieces hpieces, List.reverse_nil, List.nil_append]
    simp only [fromUTF8?_utf8, String.ofList_toList]

/-! ## Written strings -/

theorem utf8_singleton (c : Char) : utf8 [c] = String.utf8EncodeChar c := List.append_nil _

/-- A hexadecimal digit, or its letter, is read as its value. -/
theorem hexWord?_hexPair {n : Nat} (h : n < 0x20) :
    hexWord? 0x30 0x30 (Nat.digitChar (n / 16)).toUInt8 (Nat.digitChar (n % 16)).toUInt8 =
      some n := by
  interval_cases n <;> decide

theorem plain_of_le {b : UInt8} (h : 128 ≤ b.toNat) : Piece [b] [b] := by
  refine .plain ?_ ?_ fun hlow => ?_
  · rintro rfl
    exact absurd h (by decide)
  · rintro rfl
    exact absurd h (by decide)
  · rw [UInt8.lt_iff_toNat_lt] at hlow
    change b.toNat < 32 at hlow
    omega

theorem pieces_of_forall_le {bytes : Bytes} (h : ∀ b ∈ bytes, 128 ≤ b.toNat) :
    Pieces bytes bytes := by
  induction bytes with
  | nil => exact .nil
  | cons b bytes ih =>
    obtain ⟨hb, hbytes⟩ := List.forall_mem_cons.1 h
    exact .cons (plain_of_le hb) (ih hbytes)

/-- A character that is neither quote nor backslash nor a control character stands for itself. -/
theorem pieces_self {c : Char} (hquote : c ≠ '"') (hslash : c ≠ '\\') (hcontrol : ¬c.toNat < 0x20) :
    Pieces (String.utf8EncodeChar c) (String.utf8EncodeChar c) := by
  by_cases hascii : c.toNat < 128
  · rw [utf8EncodeChar_of_lt hascii]
    have hbyte : c.toUInt8.toNat = c.toNat := by
      change (UInt8.ofNat c.toNat).toNat = c.toNat
      exact UInt8.toNat_ofNat_of_lt' (by change c.toNat < 256; omega)
    have hne {d : Char} (hd : c ≠ d) (hd' : d.toUInt8.toNat = d.toNat) :
        c.toUInt8 ≠ d.toUInt8 := by
      intro h
      apply hd
      rw [← Char.toNat_inj, ← hbyte, h, hd']
    refine Piece.pieces (.plain (hne hquote rfl) (hne hslash rfl) ?_)
    rw [UInt8.lt_iff_toNat_lt, hbyte]
    exact hcontrol
  · exact pieces_of_forall_le fun b hb => le_of_mem_utf8EncodeChar (not_lt.1 hascii) hb

/-- A character as it is written in a string is pieces that stand for it. -/
theorem pieces_escaped (c : Char) : Pieces (utf8 (escaped c)) (String.utf8EncodeChar c) := by
  unfold escaped
  split_ifs with hquote hslash hcontrol h8 h9 h10 h12 h13
  · subst hquote
    exact Piece.pieces (.letter (by decide))
  · subst hslash
    exact Piece.pieces (.letter (by decide))
  · obtain rfl : c = '\x08' := Char.toNat_inj.1 h8
    exact Piece.pieces (.letter (by decide))
  · obtain rfl : c = '\t' := Char.toNat_inj.1 h9
    exact Piece.pieces (.letter (by decide))
  · obtain rfl : c = '\n' := Char.toNat_inj.1 h10
    exact Piece.pieces (.letter (by decide))
  · obtain rfl : c = '\x0c' := Char.toNat_inj.1 h12
    exact Piece.pieces (.letter (by decide))
  · obtain rfl : c = '\r' := Char.toNat_inj.1 h13
    exact Piece.pieces (.letter (by decide))
  · have hword := hexWord?_hexPair hcontrol
    have hpiece := Piece.code hword (by simp [isTrailing]; omega) (by simp [isLeading]; omega)
    rw [Char.ofNat_toNat] at hpiece
    have hdigit (n : Nat) (h : n < 16) : (Nat.digitChar n).toNat < 128 := by
      interval_cases n <;> decide
    have hpair : utf8 (hexPair c.toNat) = [(Nat.digitChar (c.toNat / 16)).toUInt8,
        (Nat.digitChar (c.toNat % 16)).toUInt8] := by
      rw [hexPair, utf8_cons, utf8_singleton, utf8EncodeChar_of_lt (hdigit _ (by omega)),
        utf8EncodeChar_of_lt (hdigit _ (by omega))]
      rfl
    rw [utf8_append, hpair]
    exact hpiece.pieces
  · rw [utf8_singleton]
    exact pieces_self hquote hslash hcontrol

theorem pieces_flatMap_escaped (cs : List Char) : Pieces (utf8 (cs.flatMap escaped)) (utf8 cs) := by
  induction cs with
  | nil => exact .nil
  | cons c cs ih =>
    rw [List.flatMap_cons, utf8_append, utf8_cons]
    exact (pieces_escaped c).append ih

theorem utf8_quoted (s : String) :
    utf8 (quoted s) = 0x22 :: (utf8 (s.toList.flatMap escaped) ++ [0x22]) := by
  rw [quoted, utf8_cons, utf8_append]
  rfl

/-- What is written of a string, behind its opening quote, is read back. -/
theorem string_quoted (s : String) (rest : Bytes) :
    string (utf8 (s.toList.flatMap escaped) ++ 0x22 :: rest) = .ok (s, rest) :=
  string_eq_ok_iff.2 ⟨_, pieces_flatMap_escaped s.toList, rfl⟩

end RecordCheck.Json
