import RecordCheck.Filter.Grammar
import RecordCheck.Proofs.Json.Pointer
set_option autoImplicit false

/-!
# Filter: the filter of a path

Each path has a filter: a point, and behind it each step in brackets, names as strings and items as
numbers.  Main statement: the text of that filter is read as the path of those steps
(`parse?_filter`).
-/

namespace RecordCheck

namespace Json

/-- A step as it stands in a filter. -/
def Step.bracketed : Step → List Char
  | .member name => '[' :: (quoted name ++ [']'])
  | .index i => '[' :: (Nat.toDigits 10 i ++ [']'])
  | .unnamed => []

/-- The filter of a path. -/
def Path.filter (steps : Path) : String := String.ofList ('.' :: steps.flatMap Step.bracketed)

end Json

namespace Filter

open Json (Step Path escaped quoted)
open RecordCheck.Complex (digitChar)

/-! ## Tokens -/

namespace Token

/-- The text has tokens, however many rounds there are beyond one for each character. -/
def Scans (mode : Mode) (text : List Char) (ts : List Token) : Prop :=
  ∀ rounds, text.length < rounds → scan rounds mode [] text = some ts

theorem scans_nil : Scans .outside [] [] := by
  intro rounds hrounds
  obtain ⟨rounds, rfl⟩ := Nat.exists_eq_add_of_lt hrounds
  rfl

/-- It is enough that one round takes characters and gives the tokens in front. -/
theorem scans_of_step {mode mode' : Mode} {text rest : List Char} {ts : List Token}
    (before : List Token) (h : Scans mode' rest ts) (hlength : rest.length < text.length)
    (hstep : ∀ rounds, scan (rounds + 1) mode [] text =
      (scan rounds mode' [] rest).map (before ++ ·)) : Scans mode text (before ++ ts) := by
  intro rounds hrounds
  obtain ⟨rounds, rfl⟩ : ∃ n, rounds = n + 1 := Nat.exists_eq_succ_of_ne_zero (by omega)
  rw [hstep, h rounds (by omega), Option.map_some]

theorem scans_open {rest : List Char} {ts : List Token} (h : Scans .outside rest ts) :
    Scans .outside ('[' :: rest) (.symbol "[" :: ts) :=
  scans_of_step [.symbol "["] h (Nat.lt_succ_self _) fun _ => rfl

theorem scans_close {rest : List Char} {ts : List Token} (h : Scans .outside rest ts) :
    Scans .outside (']' :: rest) (.symbol "]" :: ts) :=
  scans_of_step [.symbol "]"] h (Nat.lt_succ_self _) fun _ => rfl

/-- A point that no name follows is a token by itself. -/
theorem scans_point {rest : List Char} {ts : List Token} (h : Scans .outside rest ts)
    (hbracket : ∀ c ∈ rest.head?, c = '[') : Scans .outside ('.' :: rest) (.symbol "." :: ts) := by
  refine scans_of_step [.symbol "."] h (Nat.lt_succ_self _) fun rounds => ?_
  cases rest with
  | nil => rfl
  | cons c rest =>
    obtain rfl := hbracket c rfl
    rfl

theorem isDigit_of_mem_toDigits {n : Nat} {c : Char} (h : c ∈ Nat.toDigits 10 n) :
    isDigit c = true := by
  obtain ⟨hlow, hhigh⟩ := Json.digit_of_mem_toDigits h
  simp [isDigit, hlow, hhigh]

theorem number?_digits {ds : List Char} (hne : ds ≠ []) (hdigits : ∀ c ∈ ds, isDigit c = true)
    (rest : List Char) : number? (ds ++ ']' :: rest) = some (ds, ']' :: rest) := by
  have htake : (ds ++ ']' :: rest).takeWhile isDigit = ds := by
    rw [List.takeWhile_append_of_pos hdigits, List.takeWhile_cons_of_neg (by decide),
      List.append_nil]
  have hdrop : (ds ++ ']' :: rest).dropWhile isDigit = ']' :: rest := by
    rw [List.dropWhile_append_of_pos hdigits, List.dropWhile_cons_of_neg (by decide)]
  have hsome : digits? (ds ++ ']' :: rest) = some (ds, ']' :: rest) := by
    rw [digits?, htake, hdrop]
    simp [hne]
  simp [number?, hsome, fraction?, power?]

/-- A digit begins no other token and separates none. -/
theorem digitChar_plain : ∀ d : Fin 10, Text.isBlank (digitChar d) = false ∧
    beginsName (digitChar d) = false ∧ isDigit (digitChar d) = true ∧
      digitChar d ∉ ['#', '"', '(', ')', '$', '@'] := by decide

theorem scan_digit (d : Fin 10) {text spelling rest : List Char}
    (hnumber : number? (digitChar d :: text) = some (spelling, rest)) (rounds : Nat) :
    scan (rounds + 1) .outside [] (digitChar d :: text) =
      (scan rounds .outside [] rest).map ([.number (String.ofList spelling)] ++ ·) := by
  obtain ⟨hblank, hname, hdigit, hsigns⟩ := digitChar_plain d
  simp only [List.mem_cons, List.not_mem_nil, or_false, not_or] at hsigns
  obtain ⟨hcomment, hquote, hopen, hclose, hdollar, hat⟩ := hsigns
  have hplain : plain? (digitChar d :: text) = some (.number (String.ofList spelling), rest) := by
    rw [plain?.eq_def]
    simp only [hname, Bool.false_eq_true, if_false, hdollar, hat, hdigit, if_true, hnumber,
      Option.map_some]
  rw [scan.eq_def]
  simp only [hblank, hcomment, hquote, hopen, hclose, Bool.false_eq_true, if_false, hplain]
  rfl

/-- Digits in front of a bracket are a number. -/
theorem scans_number (n : Nat) {rest : List Char} {ts : List Token}
    (h : Scans .outside (']' :: rest) ts) :
    Scans .outside (Nat.toDigits 10 n ++ ']' :: rest) (.number (toString n) :: ts) := by
  have hnumber := @number?_digits (Nat.toDigits 10 n) Nat.toDigits_ne_nil
    (fun c hc => isDigit_of_mem_toDigits hc) rest
  rw [show toString n = String.ofList (Nat.toDigits 10 n) from rfl]
  obtain ⟨ds, hne, -, hdigits, -⟩ := Complex.exists_digits n
  obtain ⟨d, ds, rfl⟩ := List.exists_cons_of_ne_nil hne
  rw [hdigits, List.map_cons, List.cons_append] at hnumber ⊢
  exact scans_of_step _ h (by simp) (scan_digit d hnumber)

/-! ## Strings -/

theorem scans_quote {rest : List Char} {ts : List Token} (h : Scans (.inString []) rest ts) :
    Scans .outside ('"' :: rest) (.stringOpen :: ts) :=
  scans_of_step [.stringOpen] h (Nat.lt_succ_self _) fun _ => rfl

theorem scans_stringClose {rest : List Char} {ts : List Token} (piece : List Char)
    (h : Scans .outside rest ts) :
    Scans (.inString piece) ('"' :: rest) (pieceTokens piece ++ .stringClose :: ts) := by
  have hclose :
      Scans (.inString piece) ('"' :: rest) ((pieceTokens piece ++ [.stringClose]) ++ ts) :=
    scans_of_step _ h (Nat.lt_succ_self _) fun rounds => by
      rw [scan.eq_def]
      simp
  rwa [List.append_assoc] at hclose

theorem escape?_hexPair {n : Nat} (h : n < 0x20) (rest : List Char) :
    escape? ('u' :: '0' :: '0' :: (Json.hexPair n ++ rest)) = some (Char.ofNat n, rest) := by
  interval_cases n <;> rfl

/-- A character stands for itself in a string, or it is escaped. -/
theorem escaped_cases (c : Char) : (escaped c = [c] ∧ c ≠ '"' ∧ c ≠ '\\') ∨
    ∃ e tail, escaped c = '\\' :: e :: tail ∧ e ≠ '(' ∧
      ∀ rest, escape? (e :: (tail ++ rest)) = some (c, rest) := by
  unfold escaped
  split_ifs with hquote hslash hcontrol h8 h9 h10 h12 h13
  · subst hquote
    exact .inr ⟨'"', [], rfl, by decide, fun _ => rfl⟩
  · subst hslash
    exact .inr ⟨'\\', [], rfl, by decide, fun _ => rfl⟩
  · obtain rfl : c = '\x08' := Char.toNat_inj.1 h8
    exact .inr ⟨'b', [], rfl, by decide, fun _ => rfl⟩
  · obtain rfl : c = '\t' := Char.toNat_inj.1 h9
    exact .inr ⟨'t', [], rfl, by decide, fun _ => rfl⟩
  · obtain rfl : c = '\n' := Char.toNat_inj.1 h10
    exact .inr ⟨'n', [], rfl, by decide, fun _ => rfl⟩
  · obtain rfl : c = '\x0c' := Char.toNat_inj.1 h12
    exact .inr ⟨'f', [], rfl, by decide, fun _ => rfl⟩
  · obtain rfl : c = '\r' := Char.toNat_inj.1 h13
    exact .inr ⟨'r', [], rfl, by decide, fun _ => rfl⟩
  · refine .inr ⟨'u', '0' :: '0' :: Json.hexPair c.toNat, rfl, by decide, fun rest => ?_⟩
    have hread := escape?_hexPair hcontrol rest
    rwa [Char.ofNat_toNat] at hread
  · exact .inl ⟨rfl, hquote, hslash⟩

theorem scans_escaped (c : Char) {piece rest : List Char} {ts : List Token}
    (h : Scans (.inString (c :: piece)) rest ts) :
    Scans (.inString piece) (escaped c ++ rest) ts := by
  rcases escaped_cases c with ⟨hself, hquote, hslash⟩ | ⟨e, tail, hescaped, hne, hread⟩
  · rw [hself]
    refine scans_of_step [] h (Nat.lt_succ_self _) fun rounds => ?_
    rw [scan.eq_def]
    simp [hquote, hslash]
  · rw [hescaped]
    refine scans_of_step [] h ?_ fun rounds => ?_
    · simp only [List.cons_append, List.length_cons, List.length_append]
      omega
    · rw [scan.eq_def]
      simp [hread, hne]

theorem scans_name (cs piece : List Char) {rest : List Char} {ts : List Token}
    (h : Scans .outside rest ts) : Scans (.inString piece) (cs.flatMap escaped ++ '"' :: rest)
      (pieceTokens (cs.reverse ++ piece) ++ .stringClose :: ts) := by
  induction cs generalizing piece with
  | nil => exact scans_stringClose piece h
  | cons c cs ih =>
    rw [List.flatMap_cons, List.append_assoc, List.reverse_cons, List.append_assoc]
    exact scans_escaped c (ih (c :: piece))

/-! ## Steps -/

/-- The tokens of a string in which no filters are embedded. -/
def ofName (name : String) : List Token :=
  .stringOpen :: (pieceTokens name.toList.reverse ++ [.stringClose])

/-- The tokens of a step. -/
def ofStep : Step → List Token
  | .member name => .symbol "[" :: (ofName name ++ [.symbol "]"])
  | .index i => [.symbol "[", .number (toString i), .symbol "]"]
  | .unnamed => []

theorem scans_quoted (name : String) {rest : List Char} {ts : List Token}
    (h : Scans .outside rest ts) : Scans .outside (quoted name ++ rest) (ofName name ++ ts) := by
  have hname := scans_quote (scans_name name.toList [] h)
  rw [List.append_nil] at hname
  rw [quoted, ofName]
  simpa using hname

theorem scans_steps (steps : Path) :
    Scans .outside (steps.flatMap Step.bracketed) (steps.flatMap ofStep) := by
  induction steps with
  | nil => exact scans_nil
  | cons step steps ih =>
    rw [List.flatMap_cons, List.flatMap_cons]
    cases step with
    | member name =>
      have hname := scans_open (scans_quoted name (scans_close ih))
      simpa [Step.bracketed, ofStep] using hname
    | index i =>
      have hnumber := scans_open (scans_number i (scans_close ih))
      simpa [Step.bracketed, ofStep] using hnumber
    | unnamed => exact ih

theorem head_bracketed (steps : Path) : ∀ c ∈ (steps.flatMap Step.bracketed).head?, c = '[' := by
  induction steps with
  | nil => exact nofun
  | cons step steps ih =>
    cases step with
    | member name | index i =>
      intro c hc
      exact (Option.some.inj hc).symm
    | unnamed => exact ih

theorem tokens?_filter (steps : Path) :
    tokens? steps.filter = some (.symbol "." :: steps.flatMap ofStep) := by
  rw [tokens?, Path.filter, String.toList_ofList]
  exact scans_point (scans_steps steps) (head_bracketed steps) _ (Nat.lt_succ_self _)

end Token

/-! ## Grammar -/

/-- The pieces of a string in which no filters are embedded. -/
def piecesOf (name : String) : List Piece := if name.toList.isEmpty then [] else [.chars name]

/-- The parts of a path that a step writes. -/
def partsOf : Step → List (Part × Bool)
  | .member name => [(.index (.string none (piecesOf name)), false)]
  | .index i => [(.index (.number (toString i)), false)]
  | .unnamed => []

/-- The filter that a path writes. -/
def ofPath (steps : Path) : Term := Grammar.withParts .identity (steps.flatMap partsOf).reverse

namespace Grammar

open Token

theorem pieces_name (rounds : Nat) (name : String) (rest : List Token) :
    pieces (rounds + 2) (pieceTokens name.toList.reverse ++ .stringClose :: rest) =
      some (piecesOf name, rest) := by
  unfold pieceTokens piecesOf
  rw [List.isEmpty_reverse]
  split_ifs
  · rfl
  · rw [List.reverse_reverse, String.ofList_toList]
    rfl

/-- What a filter begins with is all of it in front of a bracket that closes. -/
theorem term_of_head {rounds : Nat} {tokens rest : List Token} {t : Term}
    (h : head (rounds + 1) tokens = some (t, [], .symbol "]" :: rest)) :
    term (rounds + 4) true tokens = some (t, .symbol "]" :: rest) := by
  have hatom : atom (rounds + 2) tokens = some (t, .symbol "]" :: rest) := by
    rw [atom, h]
    rfl
  rw [term, operand, hatom]
  rfl

theorem part_number (rounds : Nat) (spelling : String) (rest : List Token) :
    part (rounds + 5) (.number spelling :: .symbol "]" :: rest) =
      some (.index (.number spelling), rest) := rfl

theorem part_name (rounds : Nat) (name : String) (rest : List Token) :
    part (rounds + 7) (ofName name ++ .symbol "]" :: rest) =
      some (.index (.string none (piecesOf name)), rest) := by
  have hpieces := pieces_name rounds name (.symbol "]" :: rest)
  rw [ofName, List.cons_append, List.append_assoc, List.singleton_append]
  have hterm : term (rounds + 6) true (.stringOpen ::
      (pieceTokens name.toList.reverse ++ .stringClose :: .symbol "]" :: rest)) =
        some (.string none (piecesOf name), .symbol "]" :: rest) := by
    apply term_of_head
    rw [head, hpieces]
    rfl
  rw [part.eq_def]
  simp only [hterm]
  rfl

/-- Each step is read as its part, with a round for each token and those that a part takes. -/
theorem path_steps (base : Term) (steps : Path) (parts : List (Part × Bool)) {rounds : Nat}
    (h : (steps.flatMap ofStep).length + 8 ≤ rounds) :
    path rounds base parts (steps.flatMap ofStep) =
      some (withParts base ((steps.flatMap partsOf).reverse ++ parts), []) := by
  induction steps generalizing parts rounds with
  | nil =>
    obtain ⟨rounds, rfl⟩ := Nat.exists_eq_add_of_le' (show 1 ≤ rounds by omega)
    rfl
  | cons step steps ih =>
    rw [List.flatMap_cons, List.length_append] at h
    obtain ⟨rounds, rfl⟩ := Nat.exists_eq_add_of_le' (show 8 ≤ rounds by omega)
    rw [List.flatMap_cons, List.flatMap_cons, List.reverse_append, List.append_assoc]
    cases step with
    | member name =>
      rw [ofStep, List.length_cons] at h
      rw [ofStep, List.cons_append, List.append_assoc, List.singleton_append, path, part_name]
      exact ih _ (by omega)
    | index i =>
      rw [ofStep, List.length_cons] at h
      rw [ofStep, List.cons_append, List.cons_append, List.singleton_append, path, part_number]
      exact ih _ (by omega)
    | unnamed => exact ih parts (by omega)

/-- What stands behind the point of a path is no string. -/
theorem head_point (rounds : Nat) (steps : Path) :
    head (rounds + 1) (.symbol "." :: steps.flatMap ofStep) =
      some (.identity, [], steps.flatMap ofStep) := by
  induction steps with
  | nil => rfl
  | cons step steps ih =>
    cases step with
    | member name | index i => rfl
    | unnamed => exact ih

theorem ofTokens?_path (steps : Path) :
    ofTokens? (.symbol "." :: steps.flatMap ofStep) = some (ofPath steps) := by
  generalize hrounds : 10 * (steps.flatMap ofStep).length + 16 = rounds
  have hatom :
      atom (rounds + 2) (.symbol "." :: steps.flatMap ofStep) = some (ofPath steps, []) := by
    rw [atom, head_point]
    show path (rounds + 1) .identity [] (steps.flatMap ofStep) = _
    rw [path_steps _ _ _ (by omega), List.append_nil]
    rfl
  have hterm : term (rounds + 4) true (.symbol "." :: steps.flatMap ofStep) =
      some (ofPath steps, []) := by
    rw [term, operand, hatom]
    rfl
  rw [ofTokens?, List.length_cons,
    show 10 * ((steps.flatMap ofStep).length + 1) + 10 = rounds + 4 by omega, hterm]

/-- The text of the filter of a path is read as that filter. -/
theorem parse?_filter (steps : Path) : parse? steps.filter = some (ofPath steps) := by
  rw [parse?, tokens?_filter, Option.bind_some, ofTokens?_path]

end Grammar
end Filter
end RecordCheck
