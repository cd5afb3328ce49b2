import Mathlib
import RecordCheck.Json.Reader
set_option autoImplicit false

/-!
# Text: the bytes of texts

Readers work on bytes and printers on characters; `utf8` leads from the one to the other.  A
character of ASCII is its own byte and all others have bytes from 128 on, so that a byte of ASCII
never stands inside a character (`utf8_split`).
-/

namespace RecordCheck.Text

/-- The bytes that encode characters. -/
def utf8 (cs : List Char) : List UInt8 := cs.flatMap String.utf8EncodeChar

@[simp] theorem utf8_nil : utf8 [] = [] := rfl

@[simp] theorem utf8_cons (c : Char) (cs : List Char) :
    utf8 (c :: cs) = String.utf8EncodeChar c ++ utf8 cs := rfl

@[simp] theorem utf8_append (cs cs' : List Char) : utf8 (cs ++ cs') = utf8 cs ++ utf8 cs' :=
  List.flatMap_append

theorem eq_nil_of_utf8 {cs : List Char} (h : utf8 cs = []) : cs = [] := by
  cases cs with
  | nil => rfl
  | cons c cs =>
    rw [utf8_cons, List.append_eq_nil_iff] at h
    exact absurd h.1 String.utf8EncodeChar_ne_nil

theorem utf8_eq_data (cs : List Char) : cs.utf8Encode.data.toList = utf8 cs :=
  List.toList_data_toByteArray

theorem bytesOf_eq (s : String) : Json.bytesOf s = utf8 s.toList := by
  rw [← utf8_eq_data, String.utf8Encode_toList]
  rfl

theorem bytesOf_ofList (cs : List Char) : Json.bytesOf (String.ofList cs) = utf8 cs :=
  utf8_eq_data cs

theorem mk_utf8 (cs : List Char) : ByteArray.mk (utf8 cs).toArray = cs.utf8Encode := by
  rw [← utf8_eq_data, Array.toArray_toList]

theorem fromUTF8?_utf8 (cs : List Char) :
    String.fromUTF8? (ByteArray.mk (utf8 cs).toArray) = some (String.ofList cs) := by
  rw [mk_utf8, String.fromUTF8?, dif_pos ByteArray.isValidUTF8_utf8Encode]
  rfl

/-- Bytes that are a text are the bytes of its characters. -/
theorem eq_utf8_of_fromUTF8? {bytes : List UInt8} {s : String}
    (h : String.fromUTF8? (ByteArray.mk bytes.toArray) = some s) : bytes = utf8 s.toList := by
  unfold String.fromUTF8? at h
  split at h
  · obtain rfl := Option.some.inj h
    rw [← bytesOf_eq]
    rfl
  · exact nomatch h

/-! ## ASCII -/

theorem utf8EncodeChar_of_lt {c : Char} (h : c.toNat < 128) :
    String.utf8EncodeChar c = [c.toUInt8] := by
  unfold String.utf8EncodeChar
  simp only
  rw [if_pos (show c.val.toNat ≤ 127 by change c.toNat ≤ 127; omega)]
  rfl

theorem le_of_mem_utf8EncodeChar {c : Char} (h : 128 ≤ c.toNat) {b : UInt8}
    (hb : b ∈ String.utf8EncodeChar c) : 128 ≤ b.toNat := by
  have hbyte (n : Nat) (hlow : 128 ≤ n) (hhigh : n < 256) : 128 ≤ (UInt8.ofNat n).toNat := by
    rwa [UInt8.toNat_ofNat_of_lt' hhigh]
  have hval : 128 ≤ c.val.toNat := h
  unfold String.utf8EncodeChar at hb
  simp only at hb
  rw [if_neg (by omega)] at hb
  split_ifs at hb
  all_goals
    simp only [List.mem_cons, List.not_mem_nil, or_false] at hb
  · rcases hb with rfl | rfl <;> exact hbyte _ (by omega) (by omega)
  · rcases hb with rfl | rfl | rfl <;> exact hbyte _ (by omega) (by omega)
  · rcases hb with rfl | rfl | rfl | rfl <;> exact hbyte _ (by omega) (by omega)

/-- A byte of ASCII among the bytes of characters is a character. -/
theorem utf8_split {cs : List Char} {before after : List UInt8} {b : UInt8} (hb : b.toNat < 128)
    (h : utf8 cs = before ++ b :: after) :
    ∃ cs₁ c cs₂, cs = cs₁ ++ c :: cs₂ ∧ utf8 cs₁ = before ∧ String.utf8EncodeChar c = [b] ∧
      utf8 cs₂ = after := by
  induction cs generalizing before with
  | nil => exact absurd h.symm (List.append_ne_nil_of_right_ne_nil _ (List.cons_ne_nil _ _))
  | cons c cs ih =>
    rw [utf8_cons, List.append_eq_append_iff] at h
    rcases h with ⟨middle, rfl, hcs⟩ | ⟨middle, hc, hcs⟩
    · -- The byte lies behind the first character.
      obtain ⟨cs₁, c', cs₂, rfl, rfl, hc', hafter⟩ := ih hcs
      exact ⟨c :: cs₁, c', cs₂, rfl, rfl, hc', hafter⟩
    · cases middle with
      | nil =>
        obtain ⟨cs₁, c', cs₂, rfl, hempty, hc', hafter⟩ := @ih [] hcs.symm
        obtain rfl := eq_nil_of_utf8 hempty
        refine ⟨[c], c', cs₂, rfl, ?_, hc', hafter⟩
        rw [utf8_cons, utf8_nil, hc]
        simp
      | cons b' middle =>
        obtain ⟨rfl, rfl⟩ := List.cons.inj hcs
        have hmem : b ∈ String.utf8EncodeChar c := by
          rw [hc]; exact List.mem_append_right _ List.mem_cons_self
        have hascii : c.toNat < 128 := by
          by_contra hlarge
          have := le_of_mem_utf8EncodeChar (not_lt.1 hlarge) hmem
          omega
        -- The character is the byte, and nothing of it stands before or behind.
        have hc' := hc
        rw [utf8EncodeChar_of_lt hascii, eq_comm, List.append_eq_singleton_iff] at hc'
        rcases hc' with ⟨rfl, hmiddle⟩ | ⟨-, hmiddle⟩
        · obtain ⟨hb', rfl⟩ := List.cons.inj hmiddle
          exact ⟨[], c, cs, rfl, rfl, hc, rfl⟩
        · exact nomatch hmiddle

end RecordCheck.Text
