import Mathlib.Tactic.SplitIfs
import RecordCheck.Check.Inputs
set_option autoImplicit false

/-!
# Check: resolving one text after another

Resolving pushes paths behind those that are there, and looks at their number to see whether a
pattern has found any.  What is there makes no difference to what is pushed
(`resolveAllOnto_eq_joined`), so what comes of several texts is what comes of each by itself,
`joined`.
-/

namespace RecordCheck.Check

/-! ## Joined results -/

section

variable {ε α β : Type}

/-- Two results as one: the first failure, or both lists, one behind the other. -/
def joined (first second : Except ε (List α)) : Except ε (List α) :=
  match first with
  | .error e => .error e
  | .ok xs => second.map (xs ++ ·)

@[simp] theorem joined_error (e : ε) (second : Except ε (List α)) :
    joined (.error e) second = .error e := rfl

@[simp] theorem joined_ok_error (xs : List α) (e : ε) :
    joined (.ok xs) (.error e) = .error e := rfl

@[simp] theorem joined_ok_ok (xs ys : List α) :
    joined (.ok xs : Except ε (List α)) (.ok ys) = .ok (xs ++ ys) := rfl

@[simp] theorem joined_nil (second : Except ε (List α)) : joined (.ok []) second = second := by
  cases second with
  | error e => rfl
  | ok ys => rfl

@[simp] theorem joined_ok_nil (first : Except ε (List α)) : joined first (.ok []) = first := by
  cases first with
  | error e => rfl
  | ok xs => rw [joined_ok_ok, List.append_nil]

theorem joined_assoc (first second third : Except ε (List α)) :
    joined (joined first second) third = joined first (joined second third) := by
  cases first with
  | error e => rfl
  | ok xs =>
    cases second with
    | error e => rfl
    | ok ys =>
      cases third with
      | error e => rfl
      | ok zs => simp only [joined_ok_ok, List.append_assoc]

theorem joined_eq_ok_iff {first second : Except ε (List α)} {all : List α} :
    joined first second = .ok all ↔
      ∃ xs ys, first = .ok xs ∧ second = .ok ys ∧ all = xs ++ ys := by
  cases first with
  | error e => simp
  | ok xs =>
    cases second with
    | error e => simp
    | ok ys => simp [eq_comm]

/-- A traversal that joins what comes of its steps joins what comes of two lists. -/
theorem append_eq_joined (traverse : List α → Except ε (List β)) (step : α → Except ε (List β))
    (hnil : traverse [] = .ok [])
    (hcons : ∀ a rest, traverse (a :: rest) = joined (step a) (traverse rest)) (xs ys : List α) :
    traverse (xs ++ ys) = joined (traverse xs) (traverse ys) := by
  induction xs with
  | nil => rw [List.nil_append, hnil, joined_nil]
  | cons x xs ih => rw [List.cons_append, hcons, hcons, ih, joined_assoc]

end

/-! ## What is found -/

/-- Found paths are pushed behind those that are there as they would be pushed by themselves. -/
theorem pushFound_eq_joined (paths : List String) (found : List Files.Found) :
    pushFound paths found = joined (.ok paths) (pushFound [] found) := by
  induction found generalizing paths with
  | nil => rw [pushFound, pushFound, joined_ok_nil]
  | cons entry found ih =>
    cases entry with
    | error e => rfl
    | ok path =>
      rw [pushFound, pushFound, ih, ih ([] ++ [path]), ← joined_assoc, joined_ok_ok]
      rfl

theorem pushFound_paths (paths : List String) : pushFound [] (paths.map .ok) = .ok paths := by
  induction paths with
  | nil => rfl
  | cons path paths ih =>
    rw [List.map_cons, pushFound, pushFound_eq_joined, ih]
    rfl

theorem pushFound_error (before : List String) (e : Files.ListingError)
    (after : List Files.Found) :
    pushFound [] (before.map Except.ok ++ Except.error e :: after) =
      .error (.unreadable e.path e.error) := by
  induction before with
  | nil => rfl
  | cons path before ih =>
    rw [List.map_cons, List.cons_append, pushFound, pushFound_eq_joined, ih]
    rfl

/-- All that is found are paths, or there is a first error among it. -/
theorem found_cases (found : List Files.Found) : (∃ paths : List String, found = paths.map .ok) ∨
    ∃ (before : List String) (e : Files.ListingError) (after : List Files.Found),
      found = before.map Except.ok ++ Except.error e :: after := by
  induction found with
  | nil => exact .inl ⟨[], rfl⟩
  | cons entry found ih =>
    cases entry with
    | error e => exact .inr ⟨[], e, found, rfl⟩
    | ok path =>
      rcases ih with ⟨paths, rfl⟩ | ⟨before, e, after, rfl⟩
      · exact .inl ⟨path :: paths, rfl⟩
      · exact .inr ⟨path :: before, e, after, rfl⟩

/-! ## What texts stand for -/

variable (files : Files.FileSystem)

/-- The number of paths grows exactly if the text by itself stands for some. -/
theorem resolveOnto_eq_joined (paths : List String) (text : String) :
    resolveOnto files paths text = joined (.ok paths) (resolve files text) := by
  unfold resolve resolveOnto
  split_ifs with hpattern
  · cases Files.Pattern.parse text with
    | error e => rfl
    | ok pattern =>
      simp only [pushFound_eq_joined paths]
      cases pushFound [] (files.expand pattern) with
      | error e => rfl
      | ok pushed =>
        have hgrown : (paths ++ pushed).length = paths.length ↔
            pushed.length = ([] : List String).length := by
          rw [List.length_append, List.length_nil, Nat.add_eq_left]
        simp only [joined_ok_ok, hgrown]
        split_ifs
        · rfl
        · rfl
  · rfl

theorem resolveAllOnto_cons (paths : List String) (text : String) (texts : List String) :
    resolveAllOnto files paths (text :: texts) =
      (resolveOnto files paths text).bind fun after => resolveAllOnto files after texts := by
  rw [resolveAllOnto]
  cases resolveOnto files paths text with
  | error e => rfl
  | ok after => rfl

theorem resolveAllOnto_eq_joined (paths texts : List String) :
    resolveAllOnto files paths texts = joined (.ok paths) (resolveAll files texts) := by
  rw [resolveAll]
  induction texts generalizing paths with
  | nil => rw [resolveAllOnto, resolveAllOnto, joined_ok_nil]
  | cons text texts ih =>
    rw [resolveAllOnto_cons, resolveAllOnto_cons, resolveOnto_eq_joined, ← resolve]
    cases resolve files text with
    | error e => rfl
    | ok after =>
      simp only [joined_ok_ok, Except.bind]
      rw [ih (paths ++ after), ih after, ← joined_assoc, joined_ok_ok]

/-- The first text is resolved as by itself, and so are the others. -/
theorem resolveAll_cons (text : String) (texts : List String) :
    resolveAll files (text :: texts) = joined (resolve files text) (resolveAll files texts) := by
  rw [resolveAll, resolveAllOnto_cons, ← resolve]
  cases resolve files text with
  | error e => rfl
  | ok after => exact resolveAllOnto_eq_joined files after texts

theorem resolveAll_singleton (text : String) : resolveAll files [text] = resolve files text := by
  rw [resolveAll_cons]
  exact joined_ok_nil _

theorem resolveAll_append (xs ys : List String) :
    resolveAll files (xs ++ ys) = joined (resolveAll files xs) (resolveAll files ys) :=
  append_eq_joined (resolveAll files) (resolve files) rfl (resolveAll_cons files) xs ys

variable {files}

/-- A path that is no pattern stands for itself, whatever it leads to. -/
theorem resolve_literal {text : String} (h : Files.isPattern text = false) :
    resolve files text = .ok [text] := by
  rw [resolve, resolveOnto, h]
  rfl

section

variable {text : String} {pattern : Files.Pattern} (hpattern : Files.isPattern text = true)
  (hparse : Files.Pattern.parse text = .ok pattern)

include hpattern hparse

/-- A pattern stands for the paths that are found, and without any it fails. -/
theorem resolve_of_paths {paths : List String} (h : files.expand pattern = paths.map .ok) :
    resolve files text = if paths = [] then .error (.noMatches text) else .ok paths := by
  rw [resolve, resolveOnto, if_pos hpattern, hparse]
  simp only [h, pushFound_paths, List.length_eq_zero_iff, List.length_nil]

/-- A directory that cannot be listed fails a pattern, whatever is found before it. -/
theorem resolve_of_error {before : List String} {e : Files.ListingError}
    {after : List Files.Found}
    (h : files.expand pattern = before.map Except.ok ++ Except.error e :: after) :
    resolve files text = .error (LoadFailure.unreadable e.path e.error) := by
  rw [resolve, resolveOnto, if_pos hpattern, hparse]
  simp only [h, pushFound_error]

end

end RecordCheck.Check
