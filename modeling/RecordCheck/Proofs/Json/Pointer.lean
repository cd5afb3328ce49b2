import RecordCheck.Json.Pointer
import RecordCheck.Proofs.Json.Nodes
set_option autoImplicit false

/-!
# JSON: the pointer of a path

Each path without unknown names has a pointer: a slash in front of each step, names with `~0` for a
tilde and `~1` for a slash, and the digits of numbers.  Main statement: the pointer of a path
selects the node that the path leads to (`Leads.select?_pointer`).  A pointer that is none of a path
selects no more than nodes either (`exists_leads_of_select?`).
-/

namespace RecordCheck.Json

open Text
open RecordCheck.Complex (digitChar)

/-! ## Written steps -/

/-- A character of a name as it stands in a pointer. -/
def pointed (c : Char) : List Char :=
  if c = '~' then ['~', '0'] else if c = '/' then ['~', '1'] else [c]

/-- A step as it stands in a pointer. -/
def Step.pointed : Step → List Char
  | .member name => name.toList.flatMap Json.pointed
  | .index i => Nat.toDigits 10 i
  | .unnamed => []

/-- The pointer of a path. -/
def Path.pointer (steps : Path) : String :=
  String.ofList (steps.flatMap fun step => '/' :: step.pointed)

/-! ## Pairs -/

section

variable {d by' : Char}

theorem replacePair_cons {c : Char} (h : c ≠ '~') (rest : List Char) :
    replacePair d by' (c :: rest) = c :: replacePair d by' rest := by
  cases rest with
  | nil => rfl
  | cons c' rest => rw [replacePair, if_neg fun hpair => h hpair.1]

theorem replacePair_pair (rest : List Char) :
    replacePair d by' ('~' :: d :: rest) = by' :: replacePair d by' rest := by
  rw [replacePair, if_pos ⟨rfl, rfl⟩]

theorem replacePair_other {c : Char} (h : c ≠ d) (rest : List Char) :
    replacePair d by' ('~' :: c :: rest) = '~' :: replacePair d by' (c :: rest) := by
  rw [replacePair, if_neg fun hpair => h hpair.2]

theorem replacePair_eq_self {cs : List Char} (h : '~' ∉ cs) : replacePair d by' cs = cs := by
  induction cs with
  | nil => rfl
  | cons c cs ih =>
    obtain ⟨hc, hcs⟩ := not_or.1 (mt List.mem_cons.2 h)
    rw [replacePair_cons (Ne.symm hc), ih hcs]

end

/-- A character of a name once the slashes are read. -/
def paired (c : Char) : List Char := if c = '~' then ['~', '0'] else [c]

theorem replacePair_pointed (cs : List Char) :
    replacePair '1' '/' (cs.flatMap pointed) = cs.flatMap paired := by
  induction cs with
  | nil => rfl
  | cons c cs ih =>
    rw [List.flatMap_cons, List.flatMap_cons]
    by_cases htilde : c = '~'
    · subst htilde
      show replacePair '1' '/' ('~' :: '0' :: cs.flatMap pointed) = '~' :: '0' :: cs.flatMap paired
      rw [replacePair_other (by decide), replacePair_cons (by decide), ih]
    by_cases hslash : c = '/'
    · subst hslash
      show replacePair '1' '/' ('~' :: '1' :: cs.flatMap pointed) = '/' :: cs.flatMap paired
      rw [replacePair_pair, ih]
    · rw [pointed, if_neg htilde, if_neg hslash, paired, if_neg htilde, List.singleton_append,
        replacePair_cons htilde, ih, List.singleton_append]

theorem replacePair_paired (cs : List Char) : replacePair '0' '~' (cs.flatMap paired) = cs := by
  induction cs with
  | nil => rfl
  | cons c cs ih =>
    rw [List.flatMap_cons]
    by_cases htilde : c = '~'
    · subst htilde
      show replacePair '0' '~' ('~' :: '0' :: cs.flatMap paired) = '~' :: cs
      rw [replacePair_pair, ih]
    · rw [paired, if_neg htilde, List.singleton_append, replacePair_cons htilde, ih]

/-- The name of a step is read from what is written of it. -/
theorem stepName_pointed (cs : List Char) : stepName (cs.flatMap pointed) = cs := by
  rw [stepName, replacePair_pointed, replacePair_paired]

theorem slash_not_mem_pointed (cs : List Char) : '/' ∉ cs.flatMap pointed := by
  intro h
  obtain ⟨c, -, hc⟩ := List.mem_flatMap.1 h
  unfold pointed at hc
  split_ifs at hc with htilde hslash
  · exact absurd hc (by decide)
  · exact absurd hc (by decide)
  · exact hslash (List.mem_singleton.1 hc).symm

/-! ## Numbers of items -/

theorem digitChar_bounds : ∀ d : Fin 10, '0' ≤ digitChar d ∧ digitChar d ≤ '9' := by decide

theorem exists_digitChar {n : Nat} {c : Char} (h : c ∈ Nat.toDigits 10 n) :
    ∃ d : Fin 10, digitChar d = c := by
  obtain ⟨ds, -, -, hdigits, -⟩ := Complex.exists_digits n
  rw [hdigits] at h
  obtain ⟨d, -, hd⟩ := List.mem_map.1 h
  exact ⟨d, hd⟩

theorem digit_of_mem_toDigits {n : Nat} {c : Char} (h : c ∈ Nat.toDigits 10 n) :
    '0' ≤ c ∧ c ≤ '9' := by
  obtain ⟨d, rfl⟩ := exists_digitChar h
  exact digitChar_bounds d

/-- A zero does not lead other digits. -/
theorem leading_toDigits (n : Nat) : ∃ first rest, Nat.toDigits 10 n = first :: rest ∧
    (first = '0' → rest = []) := by
  obtain ⟨ds, hne, hleading, hdigits, -⟩ := Complex.exists_digits n
  obtain ⟨d, ds, rfl⟩ := List.exists_cons_of_ne_nil hne
  have hfirst : ∀ d : Fin 10, digitChar d = '0' → d = 0 := by decide
  refine ⟨digitChar d, ds.map digitChar, hdigits, fun hzero => ?_⟩
  rw [(List.cons.inj (hleading (congrArg some (hfirst d hzero)))).2, List.map_nil]

theorem itemNumber?_toDigits {i : Nat} (h : i < twoTo 64) :
    itemNumber? (Nat.toDigits 10 i) = some i := by
  obtain ⟨first, rest, hdigits, hleading⟩ := leading_toDigits i
  have hall : (first :: rest).all fun c => '0' ≤ c ∧ c ≤ '9' := by
    rw [List.all_eq_true, ← hdigits]
    exact fun c hc => decide_eq_true (digit_of_mem_toDigits hc)
  have hvalue : Nat.ofDigitChars 10 (first :: rest) 0 = i := by
    rw [← hdigits, Nat.ofDigitChars_ten_toDigits]
  have hfirst : ¬(first = '0' ∧ !rest.isEmpty) := by
    rintro ⟨hzero, hrest⟩
    rw [hleading hzero] at hrest
    exact absurd hrest (by decide)
  rw [hdigits, itemNumber?]
  simp only [if_neg hfirst, hall, if_true, hvalue, if_pos h]

theorem stepName_toDigits (i : Nat) : stepName (Nat.toDigits 10 i) = Nat.toDigits 10 i := by
  have htilde : '~' ∉ Nat.toDigits 10 i := fun h =>
    absurd (digit_of_mem_toDigits h).2 (by decide)
  rw [stepName, replacePair_eq_self htilde, replacePair_eq_self htilde]

/-! ## Pieces -/

theorem pieces_of_not_mem {separator : Char} {cs : List Char} (h : separator ∉ cs) :
    pieces separator cs = [cs] := by
  induction cs with
  | nil => rfl
  | cons c cs ih =>
    obtain ⟨hc, hcs⟩ := not_or.1 (mt List.mem_cons.2 h)
    rw [pieces, if_neg (Ne.symm hc), ih hcs]

theorem pieces_append {separator : Char} {cs : List Char} (h : separator ∉ cs) (rest : List Char) :
    pieces separator (cs ++ separator :: rest) = cs :: pieces separator rest := by
  induction cs with
  | nil => rw [List.nil_append, pieces, if_pos rfl]
  | cons c cs ih =>
    obtain ⟨hc, hcs⟩ := not_or.1 (mt List.mem_cons.2 h)
    rw [List.cons_append, pieces, if_neg (Ne.symm hc), ih hcs]

theorem slash_not_mem_step (step : Step) : '/' ∉ step.pointed := by
  cases step with
  | member name => exact slash_not_mem_pointed name.toList
  | index i => exact fun h => absurd (digit_of_mem_toDigits h).1 (by decide)
  | unnamed => exact List.not_mem_nil

/-- The pieces of a pointer behind its first slash are its steps. -/
theorem pieces_pointer (step : Step) (steps : Path) :
    pieces '/' (step.pointed ++ steps.flatMap fun step => '/' :: step.pointed) =
      (step :: steps).map Step.pointed := by
  induction steps generalizing step with
  | nil =>
    rw [List.flatMap_nil, List.append_nil, pieces_of_not_mem (slash_not_mem_step step)]
    rfl
  | cons next steps ih =>
    rw [List.flatMap_cons, List.cons_append, pieces_append (slash_not_mem_step step), ih]
    rfl

/-! ## Selection -/

theorem Leads.follow?_pointed {steps : Path} {x node : Json} (h : Leads steps x node)
    (hsmall : ∀ i, .index i ∈ steps → i < twoTo 64) :
    follow? (steps.map Step.pointed) x = some node := by
  induction h with
  | here x => rfl
  | @member name members content node steps found _ ih =>
    have hrest := ih fun i hi => hsmall i (List.mem_cons_of_mem _ hi)
    rw [List.map_cons, follow?, Step.pointed, stepName_pointed, String.ofList_toList]
    simp only [found]
    exact hrest
  | @index i items item node steps found _ ih =>
    have hrest := ih fun i hi => hsmall i (List.mem_cons_of_mem _ hi)
    rw [List.map_cons, follow?, Step.pointed, stepName_toDigits,
      itemNumber?_toDigits (hsmall i List.mem_cons_self)]
    simp only [Option.bind_some, found]
    exact hrest

/-- The pointer of a path selects the node that the path leads to. -/
theorem Leads.select?_pointer {steps : Path} {x node : Json} (h : Leads steps x node)
    (hsmall : ∀ i, .index i ∈ steps → i < twoTo 64) : x.select? steps.pointer = some node := by
  have hfollow := h.follow?_pointed hsmall
  rw [select?, Path.pointer, String.toList_ofList]
  cases steps with
  | nil => exact hfollow
  | cons step steps =>
    rw [List.flatMap_cons, List.cons_append]
    simp only [if_true]
    rw [pieces_pointer]
    exact hfollow

/-- Whatever steps are followed, a path leads where they lead. -/
theorem exists_leads_of_follow? {steps : List (List Char)} {x node : Json}
    (h : follow? steps x = some node) : ∃ path, Leads path x node := by
  induction steps generalizing x with
  | nil =>
    obtain rfl := Option.some.inj h
    exact ⟨[], .here x⟩
  | cons step steps ih =>
    cases x with
    | object members =>
      cases hnext : Table.find? (String.ofList (stepName step)) members with
      | none => simp [follow?, hnext] at h
      | some next =>
        simp only [follow?, hnext] at h
        obtain ⟨path, hpath⟩ := ih h
        exact ⟨_, .member hnext hpath⟩
    | array items =>
      cases hnext : (itemNumber? (stepName step)).bind fun i => items[i]? with
      | none => simp [follow?, hnext] at h
      | some next =>
        simp only [follow?, hnext] at h
        obtain ⟨path, hpath⟩ := ih h
        obtain ⟨i, -, hitem⟩ := Option.bind_eq_some_iff.1 hnext
        exact ⟨_, .index hitem hpath⟩
    | null | bool _ | integer _ | float _ | text _ => exact nomatch h

/-- What a pointer selects is a node. -/
theorem exists_leads_of_select? {pointer : String} {x node : Json}
    (h : x.select? pointer = some node) : ∃ path, Leads path x node := by
  unfold select? at h
  split at h
  · obtain rfl := Option.some.inj h
    exact ⟨[], .here x⟩
  · split_ifs at h
    exact exists_leads_of_follow? h

end RecordCheck.Json
