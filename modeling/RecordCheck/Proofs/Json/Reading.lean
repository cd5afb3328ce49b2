import RecordCheck.Proofs.Json.Numeral
import RecordCheck.Proofs.Json.Tokens
set_option autoImplicit false

/-!
# JSON: what reading a value takes

`Reads` says without rounds and faults what is read at the start of bytes, node by node.  Main
statements: the reader of values gives exactly that if it has as many rounds as bytes
(`value_eq_ok_iff`), and reading an array or object does not depend on what stands behind it
(`Reads.nested`).
-/

namespace RecordCheck.Json

/-! ## Readings -/

section

variable {α : Type}

/-- The items of an array are read, and its closing bracket; `node` says what reading one item
takes. -/
inductive ReadsItems (node : Bytes → α → Bytes → Prop) : Bool → Bytes → List α → Bytes → Prop
  | close {first : Bool} {bytes rest : Bytes}
      (next : nextItem first bytes = .ok (false, 0x5d :: rest)) :
      ReadsItems node first bytes [] rest
  | item {first : Bool} {bytes behind between rest : Bytes} {x : α} {xs : List α}
      (next : nextItem first bytes = .ok (true, behind)) (read : node behind x between)
      (others : ReadsItems node false between xs rest) :
      ReadsItems node first bytes (x :: xs) rest

/-- The members of an object are read, and its closing brace. -/
inductive ReadsMembers (node : Bytes → α → Bytes → Prop) :
    Bool → Bytes → List (String × α) → Bytes → Prop
  | close {first : Bool} {bytes rest : Bytes}
      (next : nextMember first bytes = .ok (false, 0x7d :: rest)) :
      ReadsMembers node first bytes [] rest
  | member {first : Bool} {bytes opened behind content between rest : Bytes} {name : String} {x : α}
      {ms : List (String × α)} (next : nextMember first bytes = .ok (true, opened))
      (named : string opened = .ok (name, behind)) (parted : colon behind = .ok content)
      (read : node content x between) (others : ReadsMembers node false between ms rest) :
      ReadsMembers node first bytes ((name, x) :: ms) rest

/-- A value is read whose own nodes `node` reads. -/
inductive ReadsOver (node : Bytes → Json → Bytes → Prop) : Bytes → Json → Bytes → Prop
  | scalar {bytes rest : Bytes} {x : Json} (read : valueOver 0 none bytes = .ok (x, rest)) :
      ReadsOver node bytes x rest
  | array {bytes behind rest : Bytes} {xs : List Json} (opened : skipSpace bytes = 0x5b :: behind)
      (items : ReadsItems node true behind xs rest) : ReadsOver node bytes (.array xs) rest
  | object {bytes behind rest : Bytes} {ms : List (String × Json)}
      (opened : skipSpace bytes = 0x7b :: behind)
      (members : ReadsMembers node true behind ms rest) :
      ReadsOver node bytes (.object ms) rest

end

/-- A value is read in which arrays and objects nest at most that deep. -/
def Reads : (depth : Nat) → Bytes → Json → Bytes → Prop
  | 0 => fun bytes x rest => valueOver 0 none bytes = .ok (x, rest)
  | depth + 1 => ReadsOver (Reads depth)

theorem Reads.scalar {depth : Nat} {bytes rest : Bytes} {x : Json}
    (h : valueOver 0 none bytes = .ok (x, rest)) : Reads depth bytes x rest := by
  cases depth with
  | zero => exact h
  | succ depth => exact ReadsOver.scalar h

/-! ## What is taken -/

/-- Reading takes some bytes, whatever stands behind them as long as it begins with the same
byte. -/
def Local {α : Type} (node : Bytes → α → Bytes → Prop) : Prop :=
  ∀ bytes x rest, node bytes x rest → ∃ taken, taken ≠ [] ∧ bytes = taken ++ rest ∧
    ∀ other, other.head? = rest.head? → node (taken ++ other) x other

theorem Numeral.EndsBefore.congr {n : Numeral} {rest other : Bytes} (h : n.EndsBefore rest)
    (hother : other.head? = rest.head?) : n.EndsBefore other := by
  obtain ⟨digit, power, point⟩ := h
  unfold NoDigit at digit
  unfold NoPower at power
  rw [← hother] at digit power point
  exact ⟨digit, power, point⟩

/-- The last of the bytes does not stand between tokens. -/
def Solid (bytes : Bytes) : Prop := ∃ before b, bytes = before ++ [b] ∧ isSpace b = false

theorem Solid.ne_nil {bytes : Bytes} (h : Solid bytes) : bytes ≠ [] := by
  obtain ⟨before, b, rfl, -⟩ := h
  simp

theorem Solid.append {bytes : Bytes} (h : Solid bytes) (front : Bytes) :
    Solid (front ++ bytes) := by
  obtain ⟨before, b, rfl, hb⟩ := h
  exact ⟨front ++ before, b, by rw [List.append_assoc], hb⟩

theorem solid_of_forall {bytes : Bytes} (hne : bytes ≠ []) (h : ∀ b ∈ bytes, isSpace b = false) :
    Solid bytes :=
  ⟨bytes.dropLast, bytes.getLast hne, (List.dropLast_append_getLast hne).symm,
    h _ (List.getLast_mem hne)⟩

/-- A number begins with a digit, and so it stands behind all blanks. -/
theorem isSpace_of_isDigit {b : UInt8} (h : isDigit b = true) : isSpace b = false := by
  obtain ⟨d, rfl⟩ := exists_digitByte h
  revert d
  decide

theorem isSpace_of_mem_digitBytes {ds : List (Fin 10)} {b : UInt8} (h : b ∈ digitBytes ds) :
    isSpace b = false := by
  obtain ⟨d, -, rfl⟩ := List.mem_map.1 h
  exact isSpace_of_isDigit (isDigit_digitByte d)

theorem Numeral.solid_bytes {n : Numeral} (hn : n.WellFormed) : Solid n.bytes := by
  obtain ⟨whole, fraction, power⟩ := n
  have hwhole : Solid (digitBytes whole) := by
    apply solid_of_forall
    · rw [digitBytes, ne_eq, List.map_eq_nil_iff]
      exact hn.whole
    · exact fun _ => isSpace_of_mem_digitBytes
  rw [Numeral.bytes]
  cases power with
  | some p =>
    -- The digits of the power are the last bytes.
    have hdigits : Solid (digitBytes p.digits) := by
      apply solid_of_forall
      · rw [digitBytes, ne_eq, List.map_eq_nil_iff]
        exact hn.power p rfl
      · exact fun _ => isSpace_of_mem_digitBytes
    exact (((hdigits.append _).append [p.letter]).append _).append _
  | none =>
    rw [powerBytes, List.append_nil]
    cases fraction with
    | nil => rwa [fractionBytes, List.append_nil]
    | cons d ds =>
      have hdigits : Solid (digitBytes (d :: ds)) :=
        solid_of_forall (List.cons_ne_nil _ _) fun _ => isSpace_of_mem_digitBytes
      exact (hdigits.append [0x2e]).append _

/-- What stands behind a value may be exchanged for bytes that begin with the same byte, and for
bytes that do not go on with a number. -/
def Exchanges (rest other : Bytes) : Prop := other.head? = rest.head? ∨ Ends other

theorem number_taken {negative : Bool} {bytes rest : Bytes} {x : Json}
    (h : number negative bytes = .ok (x, rest)) : ∃ taken, Solid taken ∧ bytes = taken ++ rest ∧
      ∀ other, Exchanges rest other → number negative (taken ++ other) = .ok (x, other) := by
  obtain ⟨n, hn, rfl, hends, hvalue⟩ := exists_numeral h
  refine ⟨n.bytes, Numeral.solid_bytes hn, rfl, ?_⟩
  intro other hother
  have hends' : n.EndsBefore other := hother.elim hends.congr fun hends => hends.endsBefore n
  exact (number_bytes hn hends' negative).2 ⟨hvalue, rfl⟩

theorem map_eq_ok_iff {ε α β : Type} {f : α → β} {result : Except ε α} {b : β} :
    result.map f = .ok b ↔ ∃ a, result = .ok a ∧ f a = b := by
  cases result with
  | error e => exact iff_of_false nofun fun ⟨_, h, _⟩ => nomatch h
  | ok a => simp [Except.map]

theorem word_taken {α : Type} {letters : List Char} (hsolid : Solid (letters.map Char.toUInt8))
    {value : α} {bytes rest : Bytes} {x : α}
    (h : (word letters bytes).map (fun rest => (value, rest)) = .ok (x, rest)) :
    ∃ taken, Solid taken ∧ bytes = taken ++ rest ∧ ∀ other,
      (word letters (taken ++ other)).map (fun rest => (value, rest)) = .ok (x, other) := by
  obtain ⟨rest', hword, hpair⟩ := map_eq_ok_iff.1 h
  obtain ⟨rfl, rfl⟩ := Prod.mk.inj hpair
  exact ⟨_, hsolid, word_eq_ok_iff.1 hword, fun other =>
    map_eq_ok_iff.2 ⟨other, word_eq_ok_iff.2 rfl, rfl⟩⟩

/-- Of a value that is neither array nor object the bytes up to a last one that is no blank are
taken. -/
theorem valueOver_taken {bytes rest : Bytes} {x : Json}
    (h : valueOver 0 none bytes = .ok (x, rest)) : ∃ taken, Solid taken ∧ bytes = taken ++ rest ∧
      ∀ other, Exchanges rest other → valueOver 0 none (taken ++ other) = .ok (x, other) := by
  unfold valueOver at h
  split at h
  · exact nomatch h
  next b behind hskip =>
  obtain ⟨blank, hblank, rfl, hb⟩ := exists_blank hskip
  -- It is enough to say what is taken behind the first byte.
  suffices htaken : ∃ taken, Solid (b :: taken) ∧ behind = taken ++ rest ∧
      ∀ other, Exchanges rest other →
        valueOver 0 none (blank ++ b :: (taken ++ other)) = .ok (x, other) by
    obtain ⟨taken, hsolid, rfl, hother⟩ := htaken
    exact ⟨blank ++ b :: taken, hsolid.append blank, by simp, by simpa using hother⟩
  have heq (tail : Bytes) := skipSpace_blank_cons hblank hb tail
  split_ifs at h with hnull htrue hfalse hminus hdigit hquote harray hobject
  · obtain ⟨taken, hsolid, rfl, hother⟩ := word_taken ⟨[0x75, 0x6c], 0x6c, rfl, by decide⟩ h
    refine ⟨taken, hsolid.append [b], rfl, fun other _ => ?_⟩
    simp only [valueOver, heq, if_pos hnull, hother]
  · obtain ⟨taken, hsolid, rfl, hother⟩ := word_taken ⟨[0x72, 0x75], 0x65, rfl, by decide⟩ h
    refine ⟨taken, hsolid.append [b], rfl, fun other _ => ?_⟩
    simp only [valueOver, heq, if_neg hnull, if_pos htrue, hother]
  · obtain ⟨taken, hsolid, rfl, hother⟩ :=
      word_taken ⟨[0x61, 0x6c, 0x73], 0x65, rfl, by decide⟩ h
    refine ⟨taken, hsolid.append [b], rfl, fun other _ => ?_⟩
    simp only [valueOver, heq, if_neg hnull, if_neg htrue, if_pos hfalse, hother]
  · obtain ⟨taken, hsolid, rfl, hother⟩ := number_taken h
    refine ⟨taken, hsolid.append [b], rfl, fun other hexchange => ?_⟩
    simp only [valueOver, heq, if_neg hnull, if_neg htrue, if_neg hfalse, if_pos hminus,
      hother other hexchange]
  · -- The first byte is a digit of the number.
    obtain ⟨taken, hsolid, htaken, hother⟩ := number_taken h
    obtain ⟨b', taken, rfl⟩ := List.exists_cons_of_ne_nil hsolid.ne_nil
    obtain ⟨rfl, rfl⟩ := List.cons.inj htaken
    refine ⟨taken, hsolid, rfl, fun other hexchange => ?_⟩
    simp only [valueOver, heq, if_neg hnull, if_neg htrue, if_neg hfalse, if_neg hminus,
      if_pos hdigit]
    exact hother other hexchange
  · obtain ⟨⟨s, rest'⟩, hstring, hpair⟩ := map_eq_ok_iff.1 h
    obtain ⟨rfl, rfl⟩ := Prod.mk.inj hpair
    obtain ⟨pieces, hpieces, rfl⟩ := string_eq_ok_iff.1 hstring
    refine ⟨pieces ++ [0x22], ⟨b :: pieces, 0x22, rfl, by decide⟩, by simp, fun other _ => ?_⟩
    have hread : string (pieces ++ 0x22 :: other) = .ok (s, other) :=
      string_eq_ok_iff.2 ⟨pieces, hpieces, rfl⟩
    simp only [valueOver, heq, if_neg hnull, if_neg htrue, if_neg hfalse, if_neg hminus,
      if_neg hdigit, if_pos hquote, List.append_assoc, List.singleton_append, hread]
    rfl

theorem valueOver_local : Local fun bytes x rest => valueOver 0 none bytes = .ok (x, rest) := by
  intro bytes x rest h
  obtain ⟨taken, hsolid, hbytes, hother⟩ := valueOver_taken h
  exact ⟨taken, hsolid.ne_nil, hbytes, fun other hhead => hother other (.inl hhead)⟩

section

variable {α : Type} {node : Bytes → α → Bytes → Prop}

/-- Of the items of an array the bytes up to the closing bracket are taken. -/
theorem ReadsItems.taken (hnode : Local node) {first : Bool} {bytes rest : Bytes} {xs : List α}
    (h : ReadsItems node first bytes xs rest) : ∃ before, bytes = before ++ 0x5d :: rest ∧
      ∀ other, ReadsItems node first (before ++ 0x5d :: other) xs other := by
  induction h with
  | close next =>
    obtain ⟨blank, _, hblank, rfl, hrest⟩ := nextItem_false_iff.1 next
    exact ⟨blank, rfl, fun other =>
      .close (nextItem_false_iff.2 ⟨blank, other, hblank, rfl, rfl⟩)⟩
  | @item _ _ behind _ rest x _ next read _ ih =>
    obtain ⟨separator, b, tail, hseparator, rfl, hbehind, hb, hclose⟩ := nextItem_true_iff.1 next
    obtain ⟨taken, hne, rfl, hnode⟩ := hnode _ _ _ read
    obtain ⟨before, rfl, hothers⟩ := ih
    refine ⟨separator ++ (taken ++ before), by simp, fun other => ?_⟩
    obtain ⟨b', taken, rfl⟩ := List.exists_cons_of_ne_nil hne
    obtain ⟨rfl, -⟩ := List.cons.inj hbehind
    refine .item (nextItem_true_iff.2 ⟨separator, b', _, hseparator, ?_, rfl, hb, hclose⟩)
      (hnode (before ++ 0x5d :: other) ?_) (hothers other)
    · simp
    · cases before <;> rfl

/-- Of the members of an object the bytes up to the closing brace are taken. -/
theorem ReadsMembers.taken (hnode : Local node) {first : Bool} {bytes rest : Bytes}
    {ms : List (String × α)} (h : ReadsMembers node first bytes ms rest) :
    ∃ before, bytes = before ++ 0x7d :: rest ∧
      ∀ other, ReadsMembers node first (before ++ 0x7d :: other) ms other := by
  induction h with
  | close next =>
    obtain ⟨blank, _, hblank, rfl, hrest⟩ := nextMember_false_iff.1 next
    exact ⟨blank, rfl, fun other =>
      .close (nextMember_false_iff.2 ⟨blank, other, hblank, rfl, rfl⟩)⟩
  | member next named parted read _ ih =>
    obtain ⟨separator, hseparator, rfl⟩ := nextMember_true_iff.1 next
    obtain ⟨pieces, hpieces, rfl⟩ := string_eq_ok_iff.1 named
    obtain ⟨blank, hblank, rfl⟩ := colon_eq_ok_iff.1 parted
    obtain ⟨taken, -, rfl, hnode⟩ := hnode _ _ _ read
    obtain ⟨before, rfl, hothers⟩ := ih
    refine ⟨separator ++ 0x22 :: (pieces ++ 0x22 :: (blank ++ 0x3a :: (taken ++ before))),
      by simp, fun other => ?_⟩
    refine .member (nextMember_true_iff.2 ⟨separator, hseparator, ?_⟩)
      (string_eq_ok_iff.2 ⟨pieces, hpieces, rfl⟩) (colon_eq_ok_iff.2 ⟨blank, hblank, rfl⟩)
      (hnode (before ++ 0x7d :: other) ?_) (hothers other)
    · simp
    · cases before <;> rfl

end

/-- The value is an array or an object. -/
def Nested : Json → Prop
  | .array _ => True
  | .object _ => True
  | _ => False

/-- The value is neither array nor object; an integer is in the range of those that are read. -/
inductive Scalar : Json → Prop
  | null : Scalar .null
  | bool (b : Bool) : Scalar (.bool b)
  | integer {n : Int} (low : -(twoTo 63 : Int) ≤ n) (high : n < twoTo 64) : Scalar (.integer n)
  | float (x : Float) : Scalar (.float x)
  | text (s : String) : Scalar (.text s)

theorem Scalar.not_nested {x : Json} (h : Scalar x) : ¬Nested x := by
  cases h with
  | null | bool _ | integer _ _ | float _ | text _ => exact id

theorem scalar_signed {negative : Bool} {scaled : Option Float} {x : Json}
    (h : scaled.map (signed negative) = some x) : Scalar x := by
  obtain ⟨y, -, rfl⟩ := Option.map_eq_some_iff.1 h
  exact .float _

theorem Numeral.scalar_scaledValue? {power : Option Power} {negative : Bool}
    {significand : Nat} {start : Int} {x : Json}
    (h : scaledValue? power negative significand start = some x) : Scalar x := by
  cases power with
  | none => exact scalar_signed h
  | some p =>
    simp only [scaledValue?, Power.value?] at h
    split at h
    · exact scalar_signed h
    · split_ifs at h
      obtain rfl := Option.some.inj h
      exact .float _

theorem takeDigits_le {limit n : Nat} (h : n ≤ limit) (ds : List Nat) :
    (takeDigits limit n ds).1 ≤ limit := by
  induction ds generalizing n with
  | nil => exact h
  | cons d ds ih =>
    rw [takeDigits]
    split_ifs with hnext
    · exact ih hnext
    · exact h

theorem scalar_wholeNumber (negative : Bool) {significand : Nat}
    (h : significand ≤ significandLimit) : Scalar (wholeNumber negative significand) := by
  have hlimit : (significandLimit : Int) = twoTo 64 - 1 := by decide
  have hpositive : (0 : Int) < twoTo 64 := by decide
  unfold wholeNumber
  split_ifs with hsign hfloat
  · exact .integer (by omega) (by omega)
  · exact .float _
  · simp only [Bool.or_eq_true, decide_eq_true_eq, not_or] at hfloat
    exact .integer (by omega) (by omega)

theorem Numeral.scalar_value? {n : Numeral} {negative : Bool} {x : Json}
    (h : n.value? negative = some x) : Scalar x := by
  have hle := takeDigits_le (Nat.zero_le significandLimit) (n.whole.map Fin.val)
  simp only [value?] at h
  split at h
  · split_ifs at h
    · obtain rfl := Option.some.inj h
      exact scalar_wholeNumber negative hle
    · exact scalar_scaledValue? h
  · exact scalar_scaledValue? h

theorem valueOver_scalar {bytes rest : Bytes} {x : Json}
    (h : valueOver 0 none bytes = .ok (x, rest)) : Scalar x := by
  have hnumber {negative : Bool} {bytes rest : Bytes} {x : Json}
      (h : number negative bytes = .ok (x, rest)) : Scalar x := by
    obtain ⟨n, -, -, -, hvalue⟩ := exists_numeral h
    exact Numeral.scalar_value? hvalue
  unfold valueOver at h
  split at h
  · exact nomatch h
  split_ifs at h
  · obtain ⟨_, -, hpair⟩ := map_eq_ok_iff.1 h
    obtain rfl := (Prod.mk.inj hpair).1
    exact .null
  · obtain ⟨_, -, hpair⟩ := map_eq_ok_iff.1 h
    obtain rfl := (Prod.mk.inj hpair).1
    exact .bool true
  · obtain ⟨_, -, hpair⟩ := map_eq_ok_iff.1 h
    obtain rfl := (Prod.mk.inj hpair).1
    exact .bool false
  · exact hnumber h
  · exact hnumber h
  · obtain ⟨⟨s, _⟩, -, hpair⟩ := map_eq_ok_iff.1 h
    obtain rfl := (Prod.mk.inj hpair).1
    exact .text s

theorem valueOver_not_nested {bytes rest : Bytes} {x : Json}
    (h : valueOver 0 none bytes = .ok (x, rest)) : ¬Nested x := (valueOver_scalar h).not_nested

/-- An array or object is read in the same way whatever stands behind its closing byte. -/
theorem ReadsOver.nested {node : Bytes → Json → Bytes → Prop} (hnode : Local node)
    {bytes rest : Bytes} {x : Json} (h : ReadsOver node bytes x rest) (hx : Nested x) :
    ∃ before b, (b = 0x5d ∨ b = 0x7d) ∧ bytes = before ++ b :: rest ∧
      ∀ other, ReadsOver node (before ++ b :: other) x other := by
  cases h with
  | scalar read => exact absurd hx (valueOver_not_nested read)
  | array opened items =>
    obtain ⟨blank, hblank, rfl, hb⟩ := exists_blank opened
    obtain ⟨before, rfl, hother⟩ := items.taken hnode
    refine ⟨blank ++ 0x5b :: before, 0x5d, .inl rfl, by simp, fun other => ?_⟩
    exact .array (by simpa using skipSpace_blank_cons hblank hb _) (hother other)
  | object opened members =>
    obtain ⟨blank, hblank, rfl, hb⟩ := exists_blank opened
    obtain ⟨before, rfl, hother⟩ := members.taken hnode
    refine ⟨blank ++ 0x7b :: before, 0x7d, .inr rfl, by simp, fun other => ?_⟩
    exact .object (by simpa using skipSpace_blank_cons hblank hb _) (hother other)

theorem ReadsOver.local {node : Bytes → Json → Bytes → Prop} (hnode : Local node) :
    Local (ReadsOver node) := by
  intro bytes x rest h
  by_cases hx : Nested x
  · obtain ⟨before, b, -, rfl, hother⟩ := h.nested hnode hx
    exact ⟨before ++ [b], by simp, by simp, fun other _ => by simpa using hother other⟩
  · cases h with
    | scalar read =>
      obtain ⟨taken, hne, hbytes, hother⟩ := valueOver_local _ _ _ read
      exact ⟨taken, hne, hbytes, fun other hhead => .scalar (hother other hhead)⟩
    | array _ _ | object _ _ => exact absurd trivial hx

theorem reads_local (depth : Nat) : Local (Reads depth) := by
  induction depth with
  | zero => exact valueOver_local
  | succ depth ih => exact ReadsOver.local ih

theorem Local.length_lt {α : Type} {node : Bytes → α → Bytes → Prop} (h : Local node)
    {bytes rest : Bytes} {x : α} (hread : node bytes x rest) : rest.length < bytes.length := by
  obtain ⟨taken, hne, rfl, -⟩ := h _ _ _ hread
  have := List.length_pos_of_ne_nil hne
  simp only [List.length_append]
  omega

/-- What `ReadsOver.nested` says, at any depth. -/
theorem Reads.nested {depth : Nat} {bytes rest : Bytes} {x : Json} (h : Reads depth bytes x rest)
    (hx : Nested x) : ∃ before b, (b = 0x5d ∨ b = 0x7d) ∧ bytes = before ++ b :: rest ∧
      ∀ other, Reads depth (before ++ b :: other) x other := by
  cases depth with
  | zero => exact absurd hx (valueOver_not_nested h)
  | succ depth => exact ReadsOver.nested (reads_local depth) h hx

/-! ## Enough rounds -/

section

variable {α : Type} {node : Bytes → α → Bytes → Prop} {read : Reader α} {bound : Nat}

/-- The reader gives what the relation says, on bytes up to a length. -/
def Realizes (bound : Nat) (read : Reader α) (node : Bytes → α → Bytes → Prop) : Prop :=
  ∀ bytes, bytes.length ≤ bound → ∀ x rest, read bytes = .ok (x, rest) ↔ node bytes x rest

/-- With more rounds than bytes, the items are read that the relation says, behind those read
before. -/
theorem items_eq_ok_iff (hnode : Local node) (hread : Realizes bound read node) {rounds index : Nat}
    {before : List α} {bytes rest : Bytes} {all : List α} (hbound : bytes.length ≤ bound)
    (hrounds : bytes.length < rounds) :
    items read rounds index before bytes = .ok (all, rest) ↔
      ∃ xs, all = before.reverse ++ xs ∧ ReadsItems node (index = 0) bytes xs rest := by
  induction rounds generalizing index before bytes with
  | zero => exact absurd hrounds (Nat.not_lt_zero _)
  | succ rounds ih =>
    rw [items]
    constructor
    · intro h
      split at h
      · exact nomatch h
      next behind hnext =>
        obtain ⟨rfl, rfl⟩ := Prod.mk.inj (Except.ok.inj h)
        obtain ⟨_, rest, _, _, rfl⟩ := nextItem_false_iff.1 hnext
        exact ⟨[], (List.append_nil _).symm, .close hnext⟩
      next behind hnext =>
        have hlength := nextItem_length hnext
        split at h
        · exact nomatch h
        next x between hx =>
        have hx' := (hread behind (by omega) x between).1 hx
        have hlt := hnode.length_lt hx'
        obtain ⟨xs, rfl, hothers⟩ := (ih (by omega) (by omega)).1 h
        refine ⟨x :: xs, by simp, .item hnext hx' ?_⟩
        simpa using hothers
    · rintro ⟨xs, rfl, h⟩
      cases h with
      | close next => simp [next]
      | @item _ _ behind between _ x xs next hx others =>
        have hlength := nextItem_length next
        have hlt := hnode.length_lt hx
        simp only [next, (hread behind (by omega) x between).2 hx]
        refine (ih (by omega) (by omega)).2 ⟨xs, by simp, by simpa using others⟩

theorem members_eq_ok_iff (hnode : Local node) (hread : Realizes bound read node) {rounds : Nat}
    {before : List (String × α)} {bytes rest : Bytes} {all : List (String × α)}
    (hbound : bytes.length ≤ bound) (hrounds : bytes.length < rounds) :
    members read rounds before bytes = .ok (all, rest) ↔
      ∃ ms, all = before.reverse ++ ms ∧ ReadsMembers node before.isEmpty bytes ms rest := by
  induction rounds generalizing before bytes with
  | zero => exact absurd hrounds (Nat.not_lt_zero _)
  | succ rounds ih =>
    rw [members]
    constructor
    · intro h
      split at h
      · exact nomatch h
      next behind hnext =>
        obtain ⟨rfl, rfl⟩ := Prod.mk.inj (Except.ok.inj h)
        obtain ⟨_, rest, _, _, rfl⟩ := nextMember_false_iff.1 hnext
        exact ⟨[], (List.append_nil _).symm, .close hnext⟩
      next opened hnext =>
        have hopened := nextMember_length hnext
        split at h
        · exact nomatch h
        next name behind hname =>
        have hbehind := string_length hname
        split at h
        · exact nomatch h
        next content hcolon =>
        have hcontent := colon_length hcolon
        split at h
        · exact nomatch h
        next x between hx =>
        have hx' := (hread content (by omega) x between).1 hx
        have hlt := hnode.length_lt hx'
        obtain ⟨ms, rfl, hothers⟩ := (ih (by omega) (by omega)).1 h
        exact ⟨(name, x) :: ms, by simp, .member hnext hname hcolon hx' hothers⟩
    · rintro ⟨ms, rfl, h⟩
      cases h with
      | close next => simp [next]
      | @member _ _ opened behind content between _ name x ms next named parted hx others =>
        have hopened := nextMember_length next
        have hbehind := string_length named
        have hcontent := colon_length parted
        have hlt := hnode.length_lt hx
        simp only [next, named, parted, (hread content (by omega) x between).2 hx]
        exact (ih (by omega) (by omega)).2 ⟨ms, by simp, others⟩

end

/-- Only arrays and objects need rounds and a reader of nodes. -/
theorem valueOver_flat {rounds : Nat} {inner : Option (Reader Json)} {bytes : Bytes}
    (harray : (skipSpace bytes).head? ≠ some 0x5b) (hobject : (skipSpace bytes).head? ≠ some 0x7b) :
    valueOver rounds inner bytes = valueOver 0 none bytes := by
  unfold valueOver
  split
  · rfl
  next b rest hskip =>
  rw [hskip, List.head?_cons, ne_eq, Option.some.injEq] at harray hobject
  simp only [harray, hobject, if_false]

theorem valueOver_array {rounds : Nat} {inner : Option (Reader Json)} {bytes behind : Bytes}
    (h : skipSpace bytes = 0x5b :: behind) : valueOver rounds inner bytes = match inner with
      | none => .error (.ahead .nestedTooDeep (0x5b :: behind))
      | some inner => (items inner rounds 0 [] behind).map fun (xs, rest) => (.array xs, rest) := by
  simp only [valueOver, h]
  rfl

theorem valueOver_object {rounds : Nat} {inner : Option (Reader Json)} {bytes behind : Bytes}
    (h : skipSpace bytes = 0x7b :: behind) : valueOver rounds inner bytes = match inner with
      | none => .error (.ahead .nestedTooDeep (0x7b :: behind))
      | some inner =>
        (members inner rounds [] behind).map fun (ms, rest) => (.object ms, rest) := by
  simp only [valueOver, h]
  rfl

theorem valueOver_none {rounds : Nat} (bytes rest : Bytes) (x : Json) :
    valueOver rounds none bytes = .ok (x, rest) ↔ valueOver 0 none bytes = .ok (x, rest) := by
  by_cases harray : (skipSpace bytes).head? = some 0x5b
  · obtain ⟨behind, h⟩ := List.head?_eq_some_iff.1 harray
    rw [valueOver_array h, valueOver_array h]
  by_cases hobject : (skipSpace bytes).head? = some 0x7b
  · obtain ⟨behind, h⟩ := List.head?_eq_some_iff.1 hobject
    rw [valueOver_object h, valueOver_object h]
  · rw [valueOver_flat harray hobject]

theorem valueOver_some {rounds : Nat} {inner : Reader Json} {node : Bytes → Json → Bytes → Prop}
    {bound : Nat} (hnode : Local node) (hread : Realizes bound inner node) {bytes : Bytes}
    (hbound : bytes.length ≤ bound) (hrounds : bytes.length ≤ rounds) (x : Json) (rest : Bytes) :
    valueOver rounds (some inner) bytes = .ok (x, rest) ↔ ReadsOver node bytes x rest := by
  have hbehind {b : UInt8} {behind : Bytes} (h : skipSpace bytes = b :: behind) :
      behind.length < bytes.length := by
    obtain ⟨blank, -, hbytes, -⟩ := exists_blank h
    rw [hbytes]
    simp only [List.length_append, List.length_cons]
    omega
  by_cases harray : (skipSpace bytes).head? = some 0x5b
  · obtain ⟨behind, h⟩ := List.head?_eq_some_iff.1 harray
    have hlt := hbehind h
    rw [valueOver_array h, map_eq_ok_iff]
    constructor
    · rintro ⟨⟨xs, rest'⟩, hitems, hpair⟩
      obtain ⟨rfl, rfl⟩ := Prod.mk.inj hpair
      obtain ⟨ys, rfl, hys⟩ := (items_eq_ok_iff hnode hread (by omega) (by omega)).1 hitems
      exact .array h (by simpa using hys)
    · intro hreads
      cases hreads with
      | scalar read => exact nomatch valueOver_array h ▸ read
      | array opened items =>
        obtain rfl := (List.cons.inj (h.symm.trans opened)).2
        exact ⟨_, (items_eq_ok_iff hnode hread (by omega) (by omega)).2
          ⟨_, rfl, by simpa using items⟩, rfl⟩
      | object opened members => exact nomatch h.symm.trans opened
  by_cases hobject : (skipSpace bytes).head? = some 0x7b
  · obtain ⟨behind, h⟩ := List.head?_eq_some_iff.1 hobject
    have hlt := hbehind h
    rw [valueOver_object h, map_eq_ok_iff]
    constructor
    · rintro ⟨⟨ms, rest'⟩, hmembers, hpair⟩
      obtain ⟨rfl, rfl⟩ := Prod.mk.inj hpair
      obtain ⟨ms', rfl, hms⟩ := (members_eq_ok_iff hnode hread (by omega) (by omega)).1 hmembers
      exact .object h (by simpa using hms)
    · intro hreads
      cases hreads with
      | scalar read => exact nomatch valueOver_object h ▸ read
      | array opened items => exact nomatch h.symm.trans opened
      | object opened members =>
        obtain rfl := (List.cons.inj (h.symm.trans opened)).2
        exact ⟨_, (members_eq_ok_iff hnode hread (by omega) (by omega)).2
          ⟨_, rfl, by simpa using members⟩, rfl⟩
  · rw [valueOver_flat harray hobject]
    constructor
    · exact .scalar
    · intro hreads
      cases hreads with
      | scalar read => exact read
      | array opened items => exact absurd (congrArg List.head? opened) harray
      | object opened members => exact absurd (congrArg List.head? opened) hobject

/-- The reader of values gives what `Reads` says if it has as many rounds as bytes. -/
theorem value_realizes (rounds depth : Nat) :
    Realizes rounds (value rounds depth) (Reads depth) := by
  induction depth with
  | zero => exact fun bytes _ x rest => valueOver_none bytes rest x
  | succ depth ih =>
    exact fun bytes hbytes x rest => valueOver_some (reads_local depth) ih hbytes hbytes x rest

theorem value_eq_ok_iff {rounds depth : Nat} {bytes rest : Bytes} {x : Json}
    (h : bytes.length ≤ rounds) :
    value rounds depth bytes = .ok (x, rest) ↔ Reads depth bytes x rest :=
  value_realizes rounds depth bytes h x rest

theorem read_eq_ok_iff {bytes rest : Bytes} {x : Json} :
    read bytes = .ok (x, rest) ↔ Reads depthLimit bytes x rest :=
  value_eq_ok_iff (Nat.le_succ _)

/-! ## What stands there -/

theorem valueOver_skipSpace (rounds : Nat) (inner : Option (Reader Json)) (bytes : Bytes) :
    valueOver rounds inner (skipSpace bytes) = valueOver rounds inner bytes := by
  unfold valueOver
  rw [skipSpace_skipSpace]

/-- What is read is neither array nor object, or the first byte is a bracket or a brace. -/
theorem Reads.cases {depth : Nat} {bytes rest : Bytes} {x : Json} (h : Reads depth bytes x rest) :
    (valueOver 0 none bytes = .ok (x, rest) ∧ ¬Nested x ∧ (skipSpace bytes).head? ≠ some 0x5b ∧
        (skipSpace bytes).head? ≠ some 0x7b) ∨
      (∃ inner behind xs, depth = inner + 1 ∧ x = .array xs ∧ skipSpace bytes = 0x5b :: behind ∧
        ReadsItems (Reads inner) true behind xs rest) ∨
      ∃ inner behind ms, depth = inner + 1 ∧ x = .object ms ∧ skipSpace bytes = 0x7b :: behind ∧
        ReadsMembers (Reads inner) true behind ms rest := by
  have hflat (h : valueOver 0 none bytes = .ok (x, rest)) :
      (skipSpace bytes).head? ≠ some 0x5b ∧ (skipSpace bytes).head? ≠ some 0x7b := by
    constructor
    · intro hhead
      obtain ⟨behind, hskip⟩ := List.head?_eq_some_iff.1 hhead
      exact nomatch valueOver_array hskip ▸ h
    · intro hhead
      obtain ⟨behind, hskip⟩ := List.head?_eq_some_iff.1 hhead
      exact nomatch valueOver_object hskip ▸ h
  cases depth with
  | zero => exact .inl ⟨h, valueOver_not_nested h, hflat h⟩
  | succ depth =>
    cases h with
    | scalar read => exact .inl ⟨read, valueOver_not_nested read, hflat read⟩
    | array opened items => exact .inr (.inl ⟨depth, _, _, rfl, rfl, opened, items⟩)
    | object opened members => exact .inr (.inr ⟨depth, _, _, rfl, rfl, opened, members⟩)

/-- Whatever does not go on with a number may stand behind a value instead. -/
theorem Reads.taken {depth : Nat} {bytes rest : Bytes} {x : Json} (h : Reads depth bytes x rest) :
    ∃ taken, Solid taken ∧ bytes = taken ++ rest ∧
      ∀ other, Ends other → Reads depth (taken ++ other) x other := by
  by_cases hx : Nested x
  · obtain ⟨before, b, hb, rfl, hother⟩ := h.nested hx
    refine ⟨before ++ [b], ⟨before, b, rfl, ?_⟩, by simp, ?_⟩
    · rcases hb with rfl | rfl <;> decide
    · intro other _
      rw [List.append_assoc]
      exact hother other
  · rcases h.cases with ⟨hread, -⟩ | ⟨_, _, _, -, rfl, -⟩ | ⟨_, _, _, -, rfl, -⟩
    · obtain ⟨taken, hsolid, hbytes, hother⟩ := valueOver_taken hread
      exact ⟨taken, hsolid, hbytes, fun other hends => .scalar (hother other (.inr hends))⟩
    · exact absurd trivial hx
    · exact absurd trivial hx

end RecordCheck.Json
