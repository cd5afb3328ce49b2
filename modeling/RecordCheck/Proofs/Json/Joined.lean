import RecordCheck.Proofs.Json.Written
import RecordCheck.Proofs.Text.Lines
set_option autoImplicit false

/-!
# JSON: texts that were joined to one array

The text of a value stays one without the carriage return at its end (`parse_withoutReturn`), and
texts of values, with commas between and brackets around them, are the text of an array of those
values.  As the array is one level more, this holds unless nodes then nest too deep
(`parse_joined`).
-/

namespace RecordCheck.Json

open Text

/-! ## One level less -/

section

variable {α β : Type}

/-- The result is the other one, or reading stopped where nodes nest too deep. -/
def SameOrTooDeep (result other : Except Fault α) : Prop :=
  result = other ∨ ∃ fault, result = .error fault ∧ fault.error = .nestedTooDeep

theorem SameOrTooDeep.map {result other : Except Fault α} (h : SameOrTooDeep result other)
    (f : α → β) : SameOrTooDeep (result.map f) (other.map f) := by
  rcases h with rfl | ⟨fault, rfl, hdeep⟩
  · exact .inl rfl
  · exact .inr ⟨fault, rfl, hdeep⟩

theorem items_sameOrTooDeep {item item' : Reader α}
    (h : ∀ bytes, SameOrTooDeep (item bytes) (item' bytes)) (rounds index : Nat) (read : List α)
    (bytes : Bytes) :
    SameOrTooDeep (items item rounds index read bytes) (items item' rounds index read bytes) := by
  induction rounds generalizing index read bytes with
  | zero => exact .inl rfl
  | succ rounds ih =>
    rw [items, items]
    rcases hnext : nextItem (index = 0) bytes with fault | ⟨more, rest⟩
    · exact .inl rfl
    cases more with
    | false => exact .inl rfl
    | true =>
      simp only
      rcases h rest with hsame | ⟨fault, hfault, hdeep⟩
      · rw [hsame]
        cases item' rest with
        | error fault => exact .inl rfl
        | ok result => exact ih (index + 1) (result.1 :: read) result.2
      · rw [hfault]
        exact .inr ⟨fault.within (.index index), rfl, hdeep⟩

theorem members_sameOrTooDeep {content content' : Reader α}
    (h : ∀ bytes, SameOrTooDeep (content bytes) (content' bytes)) (rounds : Nat)
    (read : List (String × α)) (bytes : Bytes) :
    SameOrTooDeep (members content rounds read bytes) (members content' rounds read bytes) := by
  induction rounds generalizing read bytes with
  | zero => exact .inl rfl
  | succ rounds ih =>
    rw [members, members]
    rcases hnext : nextMember read.isEmpty bytes with fault | ⟨more, opened⟩
    · exact .inl rfl
    cases more with
    | false => exact .inl rfl
    | true =>
      simp only
      rcases hname : string opened with fault | ⟨name, behind⟩
      · exact .inl rfl
      simp only
      rcases hcolon : colon behind with fault | rest
      · exact .inl rfl
      simp only
      rcases h rest with hsame | ⟨fault, hfault, hdeep⟩
      · rw [hsame]
        cases content' rest with
        | error fault => exact .inl rfl
        | ok result => exact ih ((name, result.1) :: read) result.2
      · rw [hfault]
        exact .inr ⟨fault.within (.member name), rfl, hdeep⟩

end

/-- A value is read alike if its nodes are; and it is too deep if it has nodes and none may be. -/
theorem valueOver_sameOrTooDeep {inner : Option (Reader Json)} {inner' : Reader Json}
    (h : ∀ read ∈ inner, ∀ bytes, SameOrTooDeep (read bytes) (inner' bytes)) (rounds : Nat)
    (bytes : Bytes) :
    SameOrTooDeep (valueOver rounds inner bytes) (valueOver rounds (some inner') bytes) := by
  by_cases harray : (skipSpace bytes).head? = some 0x5b
  · obtain ⟨behind, hopened⟩ := List.head?_eq_some_iff.1 harray
    rw [valueOver_array hopened, valueOver_array hopened]
    cases inner with
    | none => exact .inr ⟨_, rfl, rfl⟩
    | some read => exact (items_sameOrTooDeep (h read rfl) rounds 0 [] behind).map _
  by_cases hobject : (skipSpace bytes).head? = some 0x7b
  · obtain ⟨behind, hopened⟩ := List.head?_eq_some_iff.1 hobject
    rw [valueOver_object hopened, valueOver_object hopened]
    cases inner with
    | none => exact .inr ⟨_, rfl, rfl⟩
    | some read => exact (members_sameOrTooDeep (h read rfl) rounds [] behind).map _
  · exact .inl ((valueOver_flat harray hobject).trans (valueOver_flat harray hobject).symm)

theorem value_sameOrTooDeep (rounds depth : Nat) (bytes : Bytes) :
    SameOrTooDeep (value rounds depth bytes) (value rounds (depth + 1) bytes) := by
  induction depth generalizing bytes with
  | zero => exact valueOver_sameOrTooDeep (by simp) rounds bytes
  | succ depth ih =>
    refine valueOver_sameOrTooDeep ?_ rounds bytes
    intro read hread
    obtain rfl := Option.some.inj hread
    exact ih

/-! ## Texts that stand alone -/

theorem paddedText_of_reads {depth : Nat} {cs : List Char} {blank : Bytes} {x : Json}
    (h : Reads depth (utf8 cs) x blank) (hblank : Blank blank) : PaddedText depth cs x := by
  obtain ⟨taken, -, hbytes, hother⟩ := h.taken
  refine ⟨blank, hblank, fun rest hrest => ?_⟩
  rw [hbytes, List.append_assoc]
  exact hother _ (ends_append hblank hrest)

theorem PaddedText.reads {depth : Nat} {cs : List Char} {x : Json} (h : PaddedText depth cs x) :
    ∃ blank, Blank blank ∧ Reads depth (utf8 cs) x blank := by
  obtain ⟨blank, hblank, hread⟩ := h
  have hread := hread [] ends_nil
  rw [List.append_nil, List.append_nil] at hread
  exact ⟨blank, hblank, hread⟩

/-- A text stands for a value exactly if it begins with a text of it that only blanks follow. -/
theorem parse_ofList_eq_ok_iff {cs : List Char} {x : Json} : parse (String.ofList cs) = .ok x ↔
    ∃ written, PaddedText depthLimit cs written ∧ written.distinct = x := by
  rw [parse, bytesOf_ofList, ofBytes_eq_ok_iff]
  constructor
  · rintro ⟨written, blank, hread, hblank, hx⟩
    exact ⟨written, paddedText_of_reads (read_eq_ok_iff.1 hread) hblank, hx⟩
  · rintro ⟨written, hcs, hx⟩
    obtain ⟨blank, hblank, hread⟩ := hcs.reads
    exact ⟨written, blank, read_eq_ok_iff.2 hread, hblank, hx⟩

theorem PaddedText.withoutReturn {depth : Nat} {cs : List Char} {x : Json}
    (h : PaddedText depth cs x) : PaddedText depth (withoutReturn cs) x := by
  rcases withoutReturn_cases cs with hcs | hcs
  · obtain ⟨blank, hblank, hread⟩ := h.reads
    rw [hcs, utf8_append] at hread
    obtain ⟨taken, ⟨before, b, rfl, hb⟩, hbytes, hother⟩ := hread.taken
    -- The value ends in front of the carriage return, which is a blank.
    rcases List.eq_nil_or_concat blank with rfl | ⟨blank', b', rfl⟩
    · rw [List.append_nil] at hbytes
      obtain rfl : b = 0x0d := (List.singleton_inj.1 (List.append_inj_right' hbytes rfl)).symm
      exact absurd hb (by decide)
    · rw [List.concat_eq_append] at hblank hbytes
      rw [← List.append_assoc] at hbytes
      have hline := List.append_inj_left' hbytes rfl
      have hblank' : Blank blank' := fun b hb => hblank b (List.mem_append_left _ hb)
      have hread' := hother blank' (ends_of_blank hblank')
      rw [← hline] at hread'
      exact paddedText_of_reads hread' hblank'
  · rwa [← hcs]

theorem parse_withoutReturn {cs : List Char} {x : Json} (h : parse (String.ofList cs) = .ok x) :
    parse (String.ofList (withoutReturn cs)) = .ok x := by
  obtain ⟨written, hcs, hx⟩ := parse_ofList_eq_ok_iff.1 h
  exact parse_ofList_eq_ok_iff.2 ⟨written, hcs.withoutReturn, hx⟩

/-! ## Texts are not blank -/

theorem digitByte_printable (d : Fin 10) :
    0x21 ≤ (digitByte d).toNat ∧ (digitByte d).toNat ≤ 0x7e := by
  revert d; decide

/-- The first byte of a value is a mark, a letter or a digit of ASCII. -/
theorem valueOver_printable {rounds : Nat} {inner : Option (Reader Json)} {bytes rest : Bytes}
    {x : Json} {b : UInt8} {tail : Bytes} (hskip : skipSpace bytes = b :: tail)
    (h : valueOver rounds inner bytes = .ok (x, rest)) : 0x21 ≤ b.toNat ∧ b.toNat ≤ 0x7e := by
  rw [valueOver, hskip] at h
  dsimp only at h
  split_ifs at h with hnull htrue hfalse hminus hdigit hquote harray hobject
  · subst hnull; decide
  · subst htrue; decide
  · subst hfalse; decide
  · subst hminus; decide
  · obtain ⟨d, rfl⟩ := exists_digitByte hdigit
    exact digitByte_printable d
  · subst hquote; decide
  · subst harray; decide
  · subst hobject; decide

theorem Reads.printable {depth : Nat} {bytes rest : Bytes} {x : Json}
    (h : Reads depth bytes x rest) :
    ∃ before b tail, bytes = before ++ b :: tail ∧ 0x21 ≤ b.toNat ∧ b.toNat ≤ 0x7e := by
  obtain ⟨blank, b, tail, -, hbytes, hb, -, hread⟩ := h.start
  have hvalue := (value_eq_ok_iff (Nat.le_refl (b :: tail).length)).2 hread
  refine ⟨blank, b, tail, hbytes, ?_⟩
  cases depth with
  | zero => exact valueOver_printable (skipSpace_cons hb tail) hvalue
  | succ depth => exact valueOver_printable (skipSpace_cons hb tail) hvalue

theorem isBlank_of_printable {c : Char} (hlow : 0x21 ≤ c.toNat) (hhigh : c.toNat ≤ 0x7e) :
    isBlank c = false := by
  simp only [isBlank, Bool.or_eq_false_iff, Bool.and_eq_false_iff, decide_eq_false_iff_not,
    beq_eq_false_iff_ne]
  omega

/-- The text of a value has a character that is no white space. -/
theorem exists_not_blank {cs : List Char} {x : Json} (h : parse (String.ofList cs) = .ok x) :
    ∃ c ∈ cs, isBlank c = false := by
  obtain ⟨written, hcs, -⟩ := parse_ofList_eq_ok_iff.1 h
  obtain ⟨blank, -, hread⟩ := hcs.reads
  obtain ⟨before, b, tail, hbytes, hlow, hhigh⟩ := hread.printable
  obtain ⟨cs₁, c, cs₂, rfl, -, hc, -⟩ := utf8_split (show b.toNat < 128 by omega) hbytes
  refine ⟨c, List.mem_append_right _ List.mem_cons_self, ?_⟩
  have hascii : c.toNat < 128 := by
    by_contra hlarge
    have := le_of_mem_utf8EncodeChar (not_lt.1 hlarge) (hc ▸ List.mem_singleton_self b)
    omega
  obtain rfl : c.toUInt8 = b := List.singleton_inj.1 ((utf8EncodeChar_of_lt hascii).symm.trans hc)
  have hbyte : c.toUInt8.toNat = c.toNat := by
    show c.toNat % 256 = c.toNat
    omega
  exact isBlank_of_printable (hbyte ▸ hlow) (hbyte ▸ hhigh)

/-! ## Joining -/

theorem separated_eq_intercalate (texts : List (List Char)) :
    separated texts = [','].intercalate texts := by
  fun_induction separated texts with
  | case1 => rfl
  | case2 cs => simp
  | case3 cs next rest ih => rw [ih]; simp

theorem exists_written {texts : List (List Char)} {xs : List Json}
    (h : List.Forall₂ (fun cs x => parse (String.ofList cs) = .ok x) texts xs) :
    ∃ written, List.Forall₂ (PaddedText depthLimit) texts written ∧ written.map distinct = xs := by
  induction h with
  | nil => exact ⟨[], .nil, rfl⟩
  | @cons cs x texts xs hcs _ ih =>
    obtain ⟨first, hfirst, rfl⟩ := parse_ofList_eq_ok_iff.1 hcs
    obtain ⟨others, hothers, rfl⟩ := ih
    exact ⟨first :: others, .cons hfirst hothers, rfl⟩

/-- Texts with commas between and brackets around them are the text of the array of their values,
unless nodes then nest too deep. -/
theorem parse_joined {texts : List (List Char)} {xs : List Json}
    (h : List.Forall₂ (fun cs x => parse (String.ofList cs) = .ok x) texts xs) :
    SameOrTooDeep (parse (String.ofList ('[' :: (separated texts ++ [']']))))
      (.ok (.array xs)) := by
  obtain ⟨written, hwritten, rfl⟩ := exists_written h
  rw [parse, bytesOf_ofList]
  generalize hbytes : utf8 ('[' :: (separated texts ++ [']'])) = bytes
  have hread : value (bytes.length + 1) (depthLimit + 1) bytes = .ok (.array written, []) := by
    have htext := @textOf_array depthLimit _ _ hwritten [] blank_nil [] ends_nil
    rw [List.append_nil, List.append_nil, hbytes] at htext
    exact (value_eq_ok_iff (Nat.le_succ _)).2 htext
  unfold ofBytes read
  rcases value_sameOrTooDeep (bytes.length + 1) depthLimit bytes with hsame | ⟨fault, hfault, hdeep⟩
  · rw [hsame, hread]
    left
    show Except.ok (Json.array written).distinct = _
    rw [distinct, distinctItems_eq_map]
  · rw [hfault]
    exact .inr ⟨fault, rfl, hdeep⟩

end RecordCheck.Json
