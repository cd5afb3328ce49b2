import RecordCheck.Proofs.Json.Reading
set_option autoImplicit false

/-!
# JSON: texts are not refused for their encoding

All bytes of a text but those within strings are ASCII, so that a reader that starts between
characters stops between characters, and the content of a string, whatever its escapes, encodes
characters again.  Every reader keeps this up (`Kept`), the reader of values among them
(`value_kept`); so the check that the content of a string is a text never fails on a text.
-/

namespace RecordCheck.Json

open Text

/-! ## Encoded bytes -/

/-- The bytes encode characters. -/
def Encoded (bytes : Bytes) : Prop := ∃ cs, utf8 cs = bytes

namespace Encoded

theorem nil : Encoded [] := ⟨[], rfl⟩

theorem bytesOf (s : String) : Encoded (Json.bytesOf s) := ⟨s.toList, (bytesOf_eq s).symm⟩

theorem char (c : Char) : Encoded (String.utf8EncodeChar c) := ⟨[c], utf8_singleton c⟩

theorem append {bytes bytes' : Bytes} (h : Encoded bytes) (h' : Encoded bytes') :
    Encoded (bytes ++ bytes') := by
  obtain ⟨cs, rfl⟩ := h
  obtain ⟨cs', rfl⟩ := h'
  exact ⟨cs ++ cs', utf8_append cs cs'⟩

/-- Characters end at a byte of ASCII. -/
theorem split {before after : Bytes} {b : UInt8} (h : Encoded (before ++ b :: after))
    (hb : b.toNat < 128) : Encoded before ∧ Encoded after := by
  obtain ⟨cs, hcs⟩ := h
  obtain ⟨cs₁, _, cs₂, -, hbefore, -, hafter⟩ := utf8_split hb hcs
  exact ⟨⟨cs₁, hbefore⟩, ⟨cs₂, hafter⟩⟩

theorem tail {rest : Bytes} {b : UInt8} (h : Encoded (b :: rest)) (hb : b.toNat < 128) :
    Encoded rest :=
  (@split [] rest b h hb).2

theorem drop_one {bytes : Bytes} {b : UInt8} (h : Encoded bytes)
    (hb : bytes.head? = some b) (hascii : b.toNat < 128) : Encoded (bytes.drop 1) := by
  cases bytes with
  | nil => exact h
  | cons b' rest =>
    obtain rfl := Option.some.inj hb
    exact h.tail hascii

theorem drop_ascii {taken rest : Bytes} (h : Encoded (taken ++ rest))
    (htaken : ∀ b ∈ taken, b.toNat < 128) : Encoded rest := by
  induction taken with
  | nil => exact h
  | cons b taken ih =>
    obtain ⟨hb, hothers⟩ := List.forall_mem_cons.1 htaken
    exact ih (h.tail hb) hothers

theorem dropWhile {bytes : Bytes} (h : Encoded bytes) {p : UInt8 → Bool}
    (hp : ∀ b, p b = true → b.toNat < 128) : Encoded (bytes.dropWhile p) := by
  rw [← List.takeWhile_append_dropWhile (p := p) (l := bytes)] at h
  exact h.drop_ascii fun b hb => hp b (List.mem_takeWhile_imp hb)

theorem skipSpace {bytes : Bytes} (h : Encoded bytes) : Encoded (Json.skipSpace bytes) := by
  refine h.dropWhile fun b hb => ?_
  simp only [isSpace, Bool.or_eq_true, decide_eq_true_eq] at hb
  rcases hb with ((rfl | rfl) | rfl) | rfl <;> decide

theorem fromUTF8? {bytes : Bytes} (h : Encoded bytes) :
    ∃ s, String.fromUTF8? (ByteArray.mk bytes.toArray) = some s := by
  obtain ⟨cs, rfl⟩ := h
  exact ⟨_, fromUTF8?_utf8 cs⟩

end Encoded

/-! ## Outcomes -/

/-- What is found has one property, or what went wrong has another. -/
inductive Outcome {ε α : Type} (wrong : ε → Prop) (found : α → Prop) : Except ε α → Prop
  | ok {a : α} (h : found a) : Outcome wrong found (.ok a)
  | error {e : ε} (h : wrong e) : Outcome wrong found (.error e)

namespace Outcome

variable {ε α β : Type} {wrong : ε → Prop} {found : α → Prop} {found' : β → Prop}
  {result : Except ε α}

theorem of_ok (h : Outcome wrong found result) {a : α} (ha : result = .ok a) : found a := by
  subst ha
  cases h with
  | ok h => exact h

theorem of_error (h : Outcome wrong found result) {e : ε} (he : result = .error e) : wrong e := by
  subst he
  cases h with
  | error h => exact h

theorem map (h : Outcome wrong found result) {f : α → β} (hf : ∀ a, found a → found' (f a)) :
    Outcome wrong found' (result.map f) := by
  cases h with
  | ok h => exact .ok (hf _ h)
  | error h => exact .error h

end Outcome

/-- The fault is not one of encoding. -/
def Fault.Plain (fault : Fault) : Prop := fault.error ≠ .invalidCodePoint

theorem Fault.Plain.within {fault : Fault} (h : fault.Plain) (step : Step) :
    (fault.within step).Plain := h

theorem plain_behind {error : SyntaxError} (h : error ≠ .invalidCodePoint) (rest : Bytes) :
    (Fault.behind error rest).Plain := h

/-- What is left behind a node encodes characters, and a fault is not one of encoding. -/
abbrev Kept {α : Type} (result : Except Fault (α × Bytes)) : Prop :=
  Outcome Fault.Plain (fun read => Encoded read.2) result

/-! ## Tokens -/

theorem nextItem_kept (first : Bool) {bytes : Bytes} (h : Encoded bytes) :
    Kept (nextItem first bytes) := by
  have hskip := h.skipSpace
  unfold nextItem
  split
  · exact .error nofun
  next b rest hbytes =>
    rw [hbytes] at hskip
    split_ifs with hclose hfirst hcomma
    · exact .ok hskip
    · exact .ok hskip
    · subst hcomma
      have hskip' := (hskip.tail (by decide)).skipSpace
      split
      · exact .error nofun
      next b' rest' hrest =>
        rw [hrest] at hskip'
        split_ifs
        · exact .error nofun
        · exact .ok hskip'
    · exact .error nofun

theorem Encoded.behind_items {first : Bool} {bytes behind : Bytes} (h : Encoded bytes)
    (hclose : nextItem first bytes = .ok (false, behind)) : Encoded (behind.drop 1) := by
  obtain ⟨blank, rest, -, rfl, rfl⟩ := nextItem_false_iff.1 hclose
  exact (h.split (by decide)).2

theorem nextMember_kept (first : Bool) {bytes : Bytes} (h : Encoded bytes) :
    Kept (nextMember first bytes) := by
  have hskip := h.skipSpace
  unfold nextMember
  dsimp only
  split
  · exact .error nofun
  next b rest hbytes =>
    rw [hbytes] at hskip
    split_ifs with hclose hfirst hquote hcomma
    · exact .ok hskip
    · subst hquote
      exact .ok (hskip.tail (by decide))
    · exact .error nofun
    · subst hcomma
      have hskip' := (hskip.tail (by decide)).skipSpace
      split
      · exact .error nofun
      next b' rest' hrest =>
        rw [hrest] at hskip'
        split_ifs with hquote'
        · subst hquote'
          exact .ok (hskip'.tail (by decide))
        · exact .error nofun
        · exact .error nofun
    · exact .error nofun

theorem Encoded.behind_members {first : Bool} {bytes behind : Bytes} (h : Encoded bytes)
    (hclose : nextMember first bytes = .ok (false, behind)) : Encoded (behind.drop 1) := by
  obtain ⟨blank, rest, -, rfl, rfl⟩ := nextMember_false_iff.1 hclose
  exact (h.split (by decide)).2

theorem colon_kept {bytes : Bytes} (h : Encoded bytes) :
    Outcome Fault.Plain Encoded (colon bytes) := by
  have hskip := h.skipSpace
  unfold colon
  split
  · exact .error nofun
  next b rest hbytes =>
    rw [hbytes] at hskip
    split_ifs with hcolon
    · subst hcolon
      exact .ok (hskip.tail (by decide))
    · exact .error nofun

theorem word_kept {letters : List Char}
    (hletters : letters.all (fun c => c.toUInt8.toNat < 128) = true) {bytes : Bytes}
    (h : Encoded bytes) : Outcome Fault.Plain Encoded (word letters bytes) := by
  induction letters generalizing bytes with
  | nil => exact .ok h
  | cons c letters ih =>
    obtain ⟨hc, hothers⟩ := Bool.and_eq_true_iff.1 hletters
    cases bytes with
    | nil => exact .error (plain_behind (by decide) _)
    | cons b rest =>
      rw [word]
      split_ifs with hb
      · subst hb
        exact ih hothers (h.tail (of_decide_eq_true hc))
      · exact .error (plain_behind (by decide) _)

/-! ## Numbers -/

theorem ascii_of_isDigit {b : UInt8} (h : isDigit b = true) : b.toNat < 128 := by
  simp only [isDigit, Bool.and_eq_true, decide_eq_true_eq, UInt8.le_iff_toNat_le] at h
  exact h.2.trans_lt (by decide)

theorem digits_kept {bytes : Bytes} (h : Encoded bytes) : Encoded (digits bytes).2 :=
  h.dropWhile fun _ => ascii_of_isDigit

theorem scaledNumber_kept (negative : Bool) (significand : Nat) (power : Int) {rest : Bytes}
    (h : Encoded rest) : Kept (scaledNumber negative significand power rest) := by
  unfold scaledNumber
  split
  · exact .ok h
  · exact .error nofun

theorem ascii_of_beginsPower {b : UInt8} (h : beginsPower b = true) : b.toNat < 128 := by
  simp only [beginsPower, Bool.or_eq_true, decide_eq_true_eq] at h
  rcases h with rfl | rfl <;> decide

theorem power_kept (negative : Bool) (significand : Nat) (start : Int) {bytes : Bytes}
    (h : Encoded bytes) : Kept (power negative significand start bytes) := by
  unfold power
  split
  next down afterSign hsign =>
    have hafter : Encoded afterSign := by
      split at hsign
      next b rest =>
        split_ifs at hsign with hplus hminus
        all_goals obtain ⟨rfl, rfl⟩ := Prod.mk.inj hsign
        · exact h.tail (by rw [hplus]; decide)
        · exact h.tail (by rw [hminus]; decide)
        · exact h
      · obtain ⟨rfl, rfl⟩ := Prod.mk.inj hsign
        exact h
    have hrest := digits_kept hafter
    split
    · exact .error nofun
    next b others =>
      dsimp only
      cases isDigit b with
      | false => exact .error nofun
      | true =>
        rw [if_pos rfl]
        generalize takeDigits powerLimit 0 _ = taken
        obtain ⟨n, _ | leftOver⟩ := taken
        · exact scaledNumber_kept _ _ _ hrest
        · dsimp only
          split_ifs
          · exact .ok hrest
          · exact .error nofun

theorem fraction_kept (negative : Bool) (significand : Nat) (start : Int) {bytes : Bytes}
    (h : Encoded bytes) : Kept (fraction negative significand start bytes) := by
  have hdigits := digits_kept h
  unfold fraction
  split
  · exact .error nofun
  · exact .error nofun
  next ds rest _ hread =>
    rw [hread] at hdigits
    dsimp only
    split
    next b behind =>
      split_ifs with hpower
      · exact power_kept _ _ _ (hdigits.tail (ascii_of_beginsPower hpower))
      · exact scaledNumber_kept _ _ _ hdigits
    · exact scaledNumber_kept _ _ _ hdigits

theorem number_kept (negative : Bool) {bytes : Bytes} (h : Encoded bytes) :
    Kept (number negative bytes) := by
  have hdigits := digits_kept h
  unfold number
  split
  · exact .error nofun
  next first others =>
    split_ifs
    · exact .error nofun
    · exact .error nofun
    · generalize digits (first :: others) = read at hdigits ⊢
      obtain ⟨ds, rest⟩ := read
      dsimp only
      have hplain (significand leftOver : Nat) :
          Kept (if leftOver = 0 then .ok (wholeNumber negative significand, rest)
            else scaledNumber negative significand leftOver rest) := by
        split_ifs
        · exact .ok hdigits
        · exact scaledNumber_kept _ _ _ hdigits
      split
      next b behind =>
        split
        next hpoint => exact fraction_kept _ _ _ (hdigits.tail (by rw [hpoint]; decide))
        · split
          next hpower => exact power_kept _ _ _ (hdigits.tail (ascii_of_beginsPower hpower))
          · exact hplain _ _
      · exact hplain _ _

/-! ## Strings -/

theorem ascii_of_hexValue? {b : UInt8} {n : Nat} (h : hexValue? b = some n) : b.toNat < 128 := by
  unfold hexValue? at h
  simp only [Bool.and_eq_true, decide_eq_true_eq, UInt8.le_iff_toNat_le] at h
  split_ifs at h with hdigit hupper hlower
  · exact hdigit.2.trans_lt (by decide)
  · exact hupper.2.trans_lt (by decide)
  · exact hlower.2.trans_lt (by decide)

theorem ascii_of_hexWord? {a b c d : UInt8} {n : Nat} (h : hexWord? a b c d = some n) :
    ∀ byte ∈ [a, b, c, d], byte.toNat < 128 := by
  unfold hexWord? at h
  split at h
  next ha hb hc hd =>
    simpa using ⟨ascii_of_hexValue? ha, ascii_of_hexValue? hb, ascii_of_hexValue? hc,
      ascii_of_hexValue? hd⟩
  · exact nomatch h

/-- An escape of one letter is ASCII and stands for a character. -/
theorem ascii_of_escapedByte? {e b : UInt8} (h : escapedByte? e = some b) :
    e.toNat < 128 ∧ utf8 [Char.ofNat b.toNat] = [b] := by
  unfold escapedByte? at h
  split_ifs at h
  all_goals
    obtain rfl := Option.some.inj h
    subst e
    decide

/-- A piece is a byte that stands for itself, or bytes of ASCII that stand for a character. -/
theorem Piece.cases_encoded {piece content : Bytes} (h : Piece piece content) :
    (∃ b, piece = [b] ∧ content = [b]) ∨
      ∃ letters, piece = 0x5c :: letters ∧ (∀ b ∈ letters, b.toNat < 128) ∧ Encoded content := by
  cases h with
  | plain => exact .inl ⟨_, rfl, rfl⟩
  | letter escape =>
    obtain ⟨he, hb⟩ := ascii_of_escapedByte? escape
    exact .inr ⟨_, rfl, by simpa using he, _, hb⟩
  | code word =>
    refine .inr ⟨_, rfl, ?_, .char _⟩
    exact List.forall_mem_cons.2 ⟨by decide, ascii_of_hexWord? word⟩
  | @pair h₁ h₂ h₃ h₄ k₁ k₂ k₃ k₄ _ _ word _ word' _ =>
    refine .inr ⟨0x75 :: ([h₁, h₂, h₃, h₄] ++ 0x5c :: 0x75 :: [k₁, k₂, k₃, k₄]), rfl, ?_, .char _⟩
    refine List.forall_mem_cons.2 ⟨by decide, List.forall_mem_append.2 ⟨ascii_of_hexWord? word, ?_⟩⟩
    exact List.forall_mem_cons.2 ⟨by decide,
      List.forall_mem_cons.2 ⟨by decide, ascii_of_hexWord? word'⟩⟩

/-- Pieces behind the first bytes of a character stand for what ends the character. -/
theorem Pieces.encoded {pieces content : Bytes} (h : Pieces pieces content) {before : Bytes}
    (hpieces : Encoded (before ++ pieces)) : Encoded (before ++ content) := by
  induction h generalizing before with
  | nil => exact hpieces
  | @cons piece content pieces contents first _ ih =>
    rcases first.cases_encoded with ⟨b, rfl, rfl⟩ | ⟨letters, rfl, hletters, hcontent⟩
    · have hbehind := @ih (before ++ [b]) (by simpa using hpieces)
      simpa using hbehind
    · rw [List.cons_append] at hpieces
      obtain ⟨hbefore, hrest⟩ := hpieces.split (by decide)
      exact hbefore.append (hcontent.append (@ih [] (hrest.drop_ascii hletters)))

theorem stringBytes_plain {read bytes : Bytes} {fault : Fault}
    (h : stringBytes read bytes = .error fault) : fault.Plain := by
  fun_induction stringBytes read bytes
  all_goals first
    | contradiction
    | exact ‹_ → _› h
    | obtain rfl := Except.error.inj h; exact plain_behind (by decide) _

/-- A string of a text is not refused for its encoding. -/
theorem string_kept {bytes : Bytes} (h : Encoded bytes) :
    Kept (string bytes) := by
  unfold string
  split
  next fault hread => exact .error (stringBytes_plain hread)
  next content rest hread =>
    obtain ⟨pieces, added, hpieces, rfl, hadded⟩ := exists_pieces hread
    obtain ⟨hbefore, hrest⟩ := h.split (by decide)
    have hcontent : Encoded content := by
      rw [hadded]
      exact @Pieces.encoded _ _ hpieces [] hbefore
    obtain ⟨s, hs⟩ := hcontent.fromUTF8?
    simp only [hs]
    exact .ok hrest

/-! ## Values -/

theorem items_kept {α : Type} {item : Reader α}
    (hitem : ∀ bytes, Encoded bytes → Kept (item bytes))
    (rounds index : Nat) (read : List α) {bytes : Bytes} (h : Encoded bytes) :
    Kept (items item rounds index read bytes) := by
  induction rounds generalizing index read bytes with
  | zero => exact .error nofun
  | succ rounds ih =>
    have hnext := nextItem_kept (index = 0) h
    unfold items
    split
    next fault hfault => exact .error (hnext.of_error hfault)
    next behind hclose => exact .ok (h.behind_items hclose)
    next behind hopen =>
      have hnode := hitem behind (hnext.of_ok hopen)
      split
      next fault hfault => exact .error ((hnode.of_error hfault).within _)
      next x rest hrest => exact ih _ _ (hnode.of_ok hrest)

theorem members_kept {α : Type} {content : Reader α}
    (hcontent : ∀ bytes, Encoded bytes → Kept (content bytes))
    (rounds : Nat) (read : List (String × α)) {bytes : Bytes} (h : Encoded bytes) :
    Kept (members content rounds read bytes) := by
  induction rounds generalizing read bytes with
  | zero => exact .error nofun
  | succ rounds ih =>
    have hnext := nextMember_kept read.isEmpty h
    unfold members
    split
    next fault hfault => exact .error ((hnext.of_error hfault).within _)
    next behind hclose => exact .ok (h.behind_members hclose)
    next behind hopen =>
      have hname := string_kept (hnext.of_ok hopen)
      split
      next fault hfault => exact .error ((hname.of_error hfault).within _)
      next name rest hrest =>
        have hcolon := colon_kept (hname.of_ok hrest)
        split
        next fault hfault => exact .error (hcolon.of_error hfault)
        next rest hrest =>
          have hnode := hcontent rest (hcolon.of_ok hrest)
          split
          next fault hfault => exact .error ((hnode.of_error hfault).within _)
          next x rest hrest => exact ih _ (hnode.of_ok hrest)

theorem valueOver_kept (rounds : Nat) (inner : Option (Reader Json))
    (hinner : ∀ reader ∈ inner, ∀ bytes, Encoded bytes → Kept (reader bytes))
    {bytes : Bytes} (h : Encoded bytes) :
    Kept (valueOver rounds inner bytes) := by
  have hskip := h.skipSpace
  unfold valueOver
  split
  · exact .error nofun
  next b rest hbytes =>
    rw [hbytes] at hskip
    split_ifs with hn ht hf hminus hdigit hquote hbracket hbrace
    · exact (word_kept rfl (hskip.tail (by rw [hn]; decide))).map fun _ => id
    · exact (word_kept rfl (hskip.tail (by rw [ht]; decide))).map fun _ => id
    · exact (word_kept rfl (hskip.tail (by rw [hf]; decide))).map fun _ => id
    · exact number_kept true (hskip.tail (by rw [hminus]; decide))
    · exact number_kept false hskip
    · exact (string_kept (hskip.tail (by rw [hquote]; decide))).map fun _ => id
    · cases inner with
      | none => exact .error nofun
      | some reader =>
        have hrest := hskip.tail (by rw [hbracket]; decide)
        exact (items_kept (hinner reader rfl) rounds 0 [] hrest).map fun _ => id
    · cases inner with
      | none => exact .error nofun
      | some reader =>
        have hrest := hskip.tail (by rw [hbrace]; decide)
        exact (members_kept (hinner reader rfl) rounds [] hrest).map fun _ => id
    · exact .error nofun

/-- A value of a text is not refused for its encoding. -/
theorem value_kept (rounds depth : Nat) {bytes : Bytes} (h : Encoded bytes) :
    Kept (value rounds depth bytes) := by
  induction depth generalizing bytes with
  | zero => exact valueOver_kept rounds none (by simp) h
  | succ depth ih =>
    refine valueOver_kept rounds _ (fun reader hreader bytes hbytes => ?_) h
    obtain rfl := Option.some.inj hreader
    exact ih hbytes

end RecordCheck.Json
