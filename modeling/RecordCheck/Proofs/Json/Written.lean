import RecordCheck.Proofs.Json.Numbers
import RecordCheck.Proofs.Json.Whole
set_option autoImplicit false

/-!
# JSON: what is written is read back

`Rereads` says what the text of a value is read as: the value itself, but for doubles, each of which
becomes what its own text is read as.  Main statements: both texts of a value, the compact one and
the one with a line for each node, are read so (`parse_compact`, `parse_pretty`).
-/

namespace RecordCheck.Json

open Text

/-! ## Written values -/

/-- What the text of a value that is neither array nor object is read as. -/
inductive RereadsFlat : Json → Json → Prop
  | null : RereadsFlat .null .null
  | bool (b : Bool) : RereadsFlat (.bool b) (.bool b)
  | integer {n : Int} (low : -(twoTo 63 : Int) ≤ n) (high : n < twoTo 64) :
      RereadsFlat (.integer n) (.integer n)
  | float {x : Float} {y : Json} (read : readFloat x = some y) : RereadsFlat (.float x) y
  | text (s : String) : RereadsFlat (.text s) (.text s)

/-- What the text of a value is read as, where `node` says it of its own nodes. -/
inductive RereadsOver (node : Json → Json → Prop) : Json → Json → Prop
  | flat {x y : Json} (h : RereadsFlat x y) : RereadsOver node x y
  | array {xs ys : List Json} (each : List.Forall₂ node xs ys) :
      RereadsOver node (.array xs) (.array ys)
  | object {ms ms' : List (String × Json)}
      (each : List.Forall₂ (fun m m' => m.1 = m'.1 ∧ node m.2 m'.2) ms ms') :
      RereadsOver node (.object ms) (.object ms')

/-- What the text of a value is read as, in which arrays and objects nest at most that deep. -/
def Rereads : (depth : Nat) → Json → Json → Prop
  | 0 => RereadsFlat
  | depth + 1 => RereadsOver (Rereads depth)

theorem RereadsFlat.rereads {x y : Json} (h : RereadsFlat x y) (depth : Nat) :
    Rereads depth x y := by
  cases depth with
  | zero => exact h
  | succ depth => exact .flat h

/-- The text is read as a value in front of anything that ends a number. -/
def TextOf (depth : Nat) (text : List Char) (x : Json) : Prop :=
  ∀ rest, Ends rest → Reads depth (utf8 text ++ rest) x rest

theorem textOf_scalarChars {x y : Json} (h : RereadsFlat x y) (depth : Nat) :
    TextOf depth (scalarChars x) y := by
  intro rest hrest
  apply Reads.scalar
  cases h with
  | null => rfl
  | bool b => cases b <;> rfl
  | integer low high => exact valueOver_integer low high hrest
  | float read => exact (valueOver_floatText _ _ _ hrest).2 ⟨read, rfl⟩
  | text s =>
    rw [scalarChars, utf8_quoted]
    simp [valueOver, skipSpace_cons (show isSpace 0x22 = false by decide), string_quoted, isDigit]
    rfl

/-! ## Texts in a row -/

theorem Reads.skipSpace {depth : Nat} {bytes rest : Bytes} {x : Json}
    (h : Reads depth bytes x rest) :
    Reads depth (Json.skipSpace bytes) x rest := by
  rcases h.cases with ⟨hread, -⟩ | ⟨inner, behind, xs, rfl, rfl, hopened, hitems⟩ |
    ⟨inner, behind, ms, rfl, rfl, hopened, hmembers⟩
  · exact .scalar (by rwa [valueOver_skipSpace])
  · exact .array (by rwa [skipSpace_skipSpace]) hitems
  · exact .object (by rwa [skipSpace_skipSpace]) hmembers

/-- A value is read from its first byte on, which is not blank and does not end an array. -/
theorem Reads.start {depth : Nat} {bytes rest : Bytes} {x : Json} (h : Reads depth bytes x rest) :
    ∃ blank b tail, Blank blank ∧ bytes = blank ++ b :: tail ∧ isSpace b = false ∧ b ≠ 0x5d ∧
      Reads depth (b :: tail) x rest := by
  have hstart {b : UInt8} {tail : Bytes} (hskip : Json.skipSpace bytes = b :: tail)
      (hb : b ≠ 0x5d) : ∃ blank b tail, Blank blank ∧ bytes = blank ++ b :: tail ∧
        isSpace b = false ∧ b ≠ 0x5d ∧ Reads depth (b :: tail) x rest := by
    obtain ⟨blank, hblank, hbytes, hspace⟩ := exists_blank hskip
    exact ⟨blank, b, tail, hblank, hbytes, hspace, hb, hskip ▸ h.skipSpace⟩
  rcases h.cases with ⟨hread, -⟩ | ⟨_, _, _, -, -, hopened, -⟩ | ⟨_, _, _, -, -, hopened, -⟩
  · cases hskip : Json.skipSpace bytes with
    | nil =>
      rw [valueOver, hskip] at hread
      cases hread
    | cons b tail =>
      refine hstart hskip ?_
      rintro rfl
      rw [valueOver, hskip] at hread
      cases hread
  · exact hstart hopened (by decide)
  · exact hstart hopened (by decide)

theorem Reads.blank {depth : Nat} {bytes rest : Bytes} {x : Json} (h : Reads depth bytes x rest)
    {blank : Bytes} (hblank : Blank blank) : Reads depth (blank ++ bytes) x rest := by
  have hskip := skipSpace_blank hblank bytes
  rcases h.cases with ⟨hread, -⟩ | ⟨inner, behind, xs, rfl, rfl, hopened, hitems⟩ |
    ⟨inner, behind, ms, rfl, rfl, hopened, hmembers⟩
  · exact .scalar (by rwa [← valueOver_skipSpace, hskip, valueOver_skipSpace])
  · exact .array (by rwa [hskip]) hitems
  · exact .object (by rwa [hskip]) hmembers

/-- Texts with commas between. -/
def separated : List (List Char) → List Char
  | [] => []
  | [cs] => cs
  | cs :: next :: rest => cs ++ ',' :: separated (next :: rest)

theorem not_number_of_isSpace {b : UInt8} (h : isSpace b = true) :
    isDigit b = false ∧ b ≠ 0x2e ∧ beginsPower b = false := by
  simp only [isSpace, Bool.or_eq_true, decide_eq_true_eq] at h
  rcases h with ((rfl | rfl) | rfl) | rfl <;> decide

theorem ends_append {blank rest : Bytes} (hblank : Blank blank) (hrest : Ends rest) :
    Ends (blank ++ rest) := by
  cases blank with
  | nil => exact hrest
  | cons b blank =>
    intro b' hb'
    obtain rfl := Option.some.inj hb'
    exact not_number_of_isSpace (hblank _ List.mem_cons_self)

theorem ends_of_blank {blank : Bytes} (hblank : Blank blank) : Ends blank := by
  simpa using ends_append hblank ends_nil

theorem ends_blank {blank : Bytes} (hblank : Blank blank) {b : UInt8}
    (hb : isDigit b = false ∧ b ≠ 0x2e ∧ beginsPower b = false) (rest : Bytes) :
    Ends (blank ++ b :: rest) := by
  refine ends_append hblank fun b' hb' => ?_
  obtain rfl := Option.some.inj hb'
  exact hb

/-- The bytes that lead to a node: none before the first one, and a comma before another. -/
def lead (first : Bool) : Bytes := if first then [] else [0x2c]

theorem separator_lead (first : Bool) {blank : Bytes} (hblank : Blank blank) :
    Separator first (lead first ++ blank) := by
  cases first with
  | true => exact hblank
  | false => exact ⟨[], blank, blank_nil, hblank, rfl⟩

theorem ends_comma (rest : Bytes) : Ends (0x2c :: rest) :=
  @ends_blank [] blank_nil 0x2c (by decide) rest

/-- The text is read as a value but for blanks at its end, in front of anything that ends a
number. -/
def PaddedText (depth : Nat) (text : List Char) (x : Json) : Prop :=
  ∃ blank, Blank blank ∧ ∀ rest, Ends rest → Reads depth (utf8 text ++ rest) x (blank ++ rest)

theorem TextOf.padded {depth : Nat} {text : List Char} {x : Json} (h : TextOf depth text x) :
    PaddedText depth text x := ⟨[], blank_nil, h⟩

theorem ReadsItems.blank {α : Type} {node : Bytes → α → Bytes → Prop} {first : Bool}
    {bytes rest : Bytes} {xs : List α} (h : ReadsItems node first bytes xs rest) {blank : Bytes}
    (hblank : Blank blank) : ReadsItems node first (blank ++ bytes) xs rest := by
  have hskip : nextItem first (blank ++ bytes) = nextItem first bytes := by
    rw [nextItem, nextItem, skipSpace_blank hblank]
  cases h with
  | close next => exact .close (hskip.trans next)
  | item next read others => exact .item (hskip.trans next) read others

theorem readsItems_separated {depth : Nat} {texts : List (List Char)} {xs : List Json}
    (h : List.Forall₂ (PaddedText depth) texts xs) {blank : Bytes} (hblank : Blank blank)
    (rest : Bytes) :
    ReadsItems (Reads depth) true (utf8 (separated texts) ++ (blank ++ 0x5d :: rest)) xs rest := by
  have hclose (first : Bool) : ReadsItems (Reads depth) first (blank ++ 0x5d :: rest) [] rest :=
    .close (nextItem_false_iff.2 ⟨blank, rest, hblank, rfl, rfl⟩)
  have hitem {cs : List Char} {x : Json} (htext : PaddedText depth cs x) (first : Bool)
      {behind : Bytes} (hends : Ends behind) {xs : List Json}
      (hothers : ReadsItems (Reads depth) false behind xs rest) :
      ReadsItems (Reads depth) first (lead first ++ (utf8 cs ++ behind)) (x :: xs) rest := by
    obtain ⟨padding, hpadding, hcs⟩ := htext
    obtain ⟨blank', b, tail, hblank', hbytes, hb, hne, hread⟩ := (hcs behind hends).start
    refine .item (nextItem_true_iff.2 ⟨lead first ++ blank', b, tail, separator_lead first hblank',
      ?_, rfl, hb, hne⟩) hread (hothers.blank hpadding)
    rw [hbytes, List.append_assoc]
  -- The texts from any one on, with what leads to it.
  suffices hall : ∀ first, xs ≠ [] → ReadsItems (Reads depth) first
      (lead first ++ (utf8 (separated texts) ++ (blank ++ 0x5d :: rest))) xs rest by
    cases h with
    | nil => exact hclose true
    | cons _ _ => exact hall true (List.cons_ne_nil _ _)
  induction h with
  | nil => exact fun _ hne => absurd rfl hne
  | @cons cs x texts xs htext hothers ih =>
    intro first _
    cases hothers with
    | nil => exact hitem htext first (ends_blank hblank (by decide) rest) (hclose false)
    | @cons next y texts xs _ _ =>
      rw [separated, utf8_append, List.append_assoc]
      exact hitem htext first (ends_comma _) (ih false (List.cons_ne_nil _ _))

/-- The text is that of a member: blanks, the name in quotes, a colon and a text of the content. -/
def MemberText (depth : Nat) (cs : List Char) (m : String × Json) : Prop :=
  ∃ blank content, Blank blank ∧ utf8 cs = blank ++ (utf8 (quoted m.1) ++ 0x3a :: utf8 content) ∧
    TextOf depth content m.2

theorem readsMembers_separated {depth : Nat} {texts : List (List Char)}
    {ms : List (String × Json)} (h : List.Forall₂ (MemberText depth) texts ms) {blank : Bytes}
    (hblank : Blank blank) (rest : Bytes) :
    ReadsMembers (Reads depth) true (utf8 (separated texts) ++ (blank ++ 0x7d :: rest)) ms
      rest := by
  have hclose (first : Bool) : ReadsMembers (Reads depth) first (blank ++ 0x7d :: rest) [] rest :=
    .close (nextMember_false_iff.2 ⟨blank, rest, hblank, rfl, rfl⟩)
  have hmember {cs : List Char} {m : String × Json} (htext : MemberText depth cs m) (first : Bool)
      {behind : Bytes} (hends : Ends behind) {ms : List (String × Json)}
      (hothers : ReadsMembers (Reads depth) false behind ms rest) :
      ReadsMembers (Reads depth) first (lead first ++ (utf8 cs ++ behind)) (m :: ms) rest := by
    obtain ⟨blank', content, hblank', hbytes, hcontent⟩ := htext
    refine .member (nextMember_true_iff.2 ⟨lead first ++ blank', separator_lead first hblank', ?_⟩)
      (string_quoted m.1 (0x3a :: (utf8 content ++ behind)))
      (colon_eq_ok_iff.2 ⟨[], blank_nil, rfl⟩) (hcontent behind hends) hothers
    rw [hbytes, utf8_quoted]
    simp
  suffices hall : ∀ first, ms ≠ [] → ReadsMembers (Reads depth) first
      (lead first ++ (utf8 (separated texts) ++ (blank ++ 0x7d :: rest))) ms rest by
    cases h with
    | nil => exact hclose true
    | cons _ _ => exact hall true (List.cons_ne_nil _ _)
  induction h with
  | nil => exact fun _ hne => absurd rfl hne
  | @cons cs m texts ms htext hothers ih =>
    intro first _
    cases hothers with
    | nil => exact hmember htext first (ends_blank hblank (by decide) rest) (hclose false)
    | @cons next m' texts ms _ _ =>
      rw [separated, utf8_append, List.append_assoc]
      exact hmember htext first (ends_comma _) (ih false (List.cons_ne_nil _ _))

/-! ## Arrays and objects -/

theorem utf8_bracketed {opening closing : Char} {opening' closing' : UInt8}
    (hopening : String.utf8EncodeChar opening = [opening'])
    (hclosing : String.utf8EncodeChar closing = [closing']) (cs blank : List Char) (rest : Bytes) :
    utf8 (opening :: (cs ++ blank ++ [closing])) ++ rest =
      opening' :: (utf8 cs ++ (utf8 blank ++ closing' :: rest)) := by
  rw [utf8_cons, utf8_append, utf8_append, utf8_singleton, hopening, hclosing]
  simp only [List.append_assoc, List.cons_append, List.nil_append]

theorem textOf_array {depth : Nat} {texts : List (List Char)} {xs : List Json}
    (h : List.Forall₂ (PaddedText depth) texts xs) {blank : List Char}
    (hblank : Blank (utf8 blank)) :
    TextOf (depth + 1) ('[' :: (separated texts ++ blank ++ [']'])) (.array xs) := by
  intro rest _
  rw [utf8_bracketed rfl rfl]
  exact .array (skipSpace_cons (by decide) _) (readsItems_separated h hblank rest)

theorem textOf_object {depth : Nat} {texts : List (List Char)} {ms : List (String × Json)}
    (h : List.Forall₂ (MemberText depth) texts ms) {blank : List Char}
    (hblank : Blank (utf8 blank)) :
    TextOf (depth + 1) ('\x7b' :: (separated texts ++ blank ++ ['\x7d'])) (.object ms) := by
  intro rest _
  rw [utf8_bracketed rfl rfl]
  exact .object (skipSpace_cons (by decide) _) (readsMembers_separated h hblank rest)

/-! ## The compact text -/

/-- The compact text of a member. -/
def memberText (m : String × Json) : List Char := quoted m.1 ++ ':' :: chars m.2

theorem itemChars_eq (xs : List Json) : itemChars xs = separated (xs.map chars) := by
  induction xs with
  | nil => rfl
  | cons x xs ih =>
    cases xs with
    | nil => rfl
    | cons next rest =>
      rw [itemChars, ih]
      rfl

theorem memberChars_eq (ms : List (String × Json)) :
    memberChars ms = separated (ms.map memberText) := by
  induction ms with
  | nil => rfl
  | cons m ms ih =>
    cases ms with
    | nil => rfl
    | cons next rest =>
      rw [memberChars, ih]
      simp [separated, memberText]

theorem chars_flat {x y : Json} (h : RereadsFlat x y) : chars x = scalarChars x := by
  cases h <;> rfl

theorem textOf_chars {depth : Nat} {x y : Json} (h : Rereads depth x y) :
    TextOf depth (chars x) y := by
  induction depth generalizing x y with
  | zero =>
    rw [chars_flat h]
    exact textOf_scalarChars h 0
  | succ depth ih =>
    cases h with
    | flat h =>
      rw [chars_flat h]
      exact textOf_scalarChars h _
    | array each =>
      rw [chars, itemChars_eq, ← List.append_nil (separated _)]
      exact textOf_array (List.forall₂_map_left_iff.2 (each.imp fun _ _ h => (ih h).padded))
        blank_nil
    | object each =>
      rw [chars, memberChars_eq, ← List.append_nil (separated _)]
      refine textOf_object (List.forall₂_map_left_iff.2 (each.imp fun m m' h => ?_))
        blank_nil
      refine ⟨[], chars m.2, blank_nil, ?_, ih h.2⟩
      rw [memberText, utf8_append, utf8_cons, h.1]
      rfl

/-! ## The text with a line for each node -/

theorem blank_newLine (level : Nat) : Blank (utf8 (newLine level)) := by
  have hblanks (n : Nat) : Blank (utf8 (List.replicate n ' ')) := by
    induction n with
    | zero => exact blank_nil
    | succ n ih => exact List.forall_mem_cons.2 ⟨by decide, ih⟩
  exact List.forall_mem_cons.2 ⟨by decide, hblanks _⟩

/-- The text of an item on lines of its own. -/
def itemLines (level : Nat) (x : Json) : List Char := newLine level ++ prettyChars level x

/-- The text of a member on lines of its own. -/
def memberLines (level : Nat) (m : String × Json) : List Char :=
  newLine level ++ quoted m.1 ++ ':' :: ' ' :: prettyChars level m.2

theorem prettyItems_eq (level : Nat) (xs : List Json) :
    prettyItems level xs = separated (xs.map (itemLines level)) := by
  induction xs with
  | nil => rfl
  | cons x xs ih =>
    cases xs with
    | nil => rfl
    | cons next rest =>
      rw [prettyItems, ih]
      rfl

theorem prettyMembers_eq (level : Nat) (ms : List (String × Json)) :
    prettyMembers level ms = separated (ms.map (memberLines level)) := by
  induction ms with
  | nil => rfl
  | cons m ms ih =>
    cases ms with
    | nil => rfl
    | cons next rest =>
      rw [prettyMembers, ih]
      simp [separated, memberLines]

theorem prettyChars_flat {x y : Json} (h : RereadsFlat x y) (level : Nat) :
    prettyChars level x = scalarChars x := by
  cases h <;> rfl

theorem TextOf.blank {depth : Nat} {cs : List Char} {x : Json} (h : TextOf depth cs x)
    {blank : List Char} (hblank : Blank (utf8 blank)) : TextOf depth (blank ++ cs) x := by
  intro rest hrest
  rw [utf8_append, List.append_assoc]
  exact (h rest hrest).blank hblank

theorem textOf_prettyChars {depth : Nat} {x y : Json} (h : Rereads depth x y) (level : Nat) :
    TextOf depth (prettyChars level x) y := by
  induction depth generalizing x y level with
  | zero =>
    rw [prettyChars_flat h]
    exact textOf_scalarChars h 0
  | succ depth ih =>
    cases h with
    | flat h =>
      rw [prettyChars_flat h]
      exact textOf_scalarChars h _
    | @array xs ys each =>
      have hitems : List.Forall₂ (PaddedText depth) (xs.map (itemLines (level + 1))) ys :=
        List.forall₂_map_left_iff.2
          (each.imp fun _ _ h => ((ih h _).blank (blank_newLine _)).padded)
      cases each with
      | nil => exact @textOf_array depth [] [] .nil [] blank_nil
      | cons _ _ =>
        rw [prettyChars, prettyItems_eq]
        exact textOf_array hitems (blank_newLine level)
    | @object ms ms' each =>
      have hspace : Blank (utf8 [' ']) := List.forall_mem_cons.2 ⟨by decide, blank_nil⟩
      have hmembers : List.Forall₂ (MemberText depth) (ms.map (memberLines (level + 1))) ms' := by
        refine List.forall₂_map_left_iff.2 (each.imp fun m m' h => ?_)
        refine ⟨utf8 (newLine (level + 1)), ' ' :: prettyChars (level + 1) m.2, blank_newLine _, ?_,
          (ih h.2 _).blank hspace⟩
        rw [memberLines, utf8_append, utf8_append, utf8_cons, h.1, List.append_assoc]
        rfl
      cases each with
      | nil => exact @textOf_object depth [] [] .nil [] blank_nil
      | cons _ _ =>
        rw [prettyChars, prettyMembers_eq]
        exact textOf_object hmembers (blank_newLine level)

/-! ## Whole texts -/

/-- Blanks may follow the text of a value. -/
theorem isText_ofList {cs : List Char} {x : Json} (h : TextOf depthLimit cs x)
    (hunique : Unique x) {blank : List Char} (hblank : Blank (utf8 blank)) :
    IsText (String.ofList (cs ++ blank)) x := by
  refine isText_iff.2 ⟨utf8 blank, ?_, hblank, hunique⟩
  rw [bytesOf_ofList, utf8_append]
  exact h _ (ends_of_blank hblank)

theorem parse_compact {x y : Json} (h : Rereads depthLimit x y) (hunique : Unique y) :
    parse x.compact = .ok y := by
  have htext := isText_ofList (textOf_chars h) hunique (show Blank (utf8 []) from blank_nil)
  rw [List.append_nil] at htext
  exact htext.parsed

theorem parse_pretty {x y : Json} (h : Rereads depthLimit x y) (hunique : Unique y)
    {blank : String} (hblank : Blank (utf8 blank.toList)) : parse (x.pretty ++ blank) = .ok y := by
  have htext := isText_ofList (textOf_prettyChars h 0) hunique hblank
  rw [String.ofList_append, String.ofList_toList] at htext
  exact htext.parsed

theorem unique_of_readFloat {x : Float} {y : Json} (h : readFloat x = some y) : Unique y := by
  unfold readFloat at h
  split at h
  · obtain rfl := Option.some.inj h
    exact .null
  · obtain rfl := Option.some.inj h
    exact .null
  · obtain ⟨z, -, rfl⟩ := Option.map_eq_some_iff.1 h
    exact .float _

/-- The text of a double by itself is read as it is in any other. -/
theorem parse_floatText (x : Float) {y : Json} :
    parse (floatText x) = .ok y ↔ readFloat x = some y := by
  have hread {w : Json} {rest : Bytes} : read (bytesOf (floatText x)) = .ok (w, rest) ↔
      readFloat x = some w ∧ [] = rest := by
    rw [bytesOf_eq]
    have hvalue := @valueOver_floatText ((utf8 (floatText x).toList).length + 1)
      (some (value ((utf8 (floatText x).toList).length + 1) (depthLimit - 1))) x [] ends_nil w rest
    rwa [List.append_nil] at hvalue
  rw [parse, ofBytes_eq_ok_iff]
  constructor
  · rintro ⟨w, rest, hw, -, rfl⟩
    obtain ⟨hw, -⟩ := hread.1 hw
    rwa [(unique_of_readFloat hw).distinct]
  · intro h
    exact ⟨y, [], hread.2 ⟨h, rfl⟩, blank_nil, (unique_of_readFloat h).distinct⟩

end RecordCheck.Json
