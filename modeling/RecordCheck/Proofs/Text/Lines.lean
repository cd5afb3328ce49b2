import RecordCheck.Proofs.Text.Trim
import RecordCheck.Text.Lines
set_option autoImplicit false

/-!
# Text: the lines of texts that were put together from lines

A text is cut at its line feeds, and in front of each one carriage return goes too
(`lines_append_break`).  What follows the last line feed is kept as it is, unless it is empty
(`lines_of_not_mem`).  So the number of a line is that of the line feeds in front of it
(`getElem?_lines_iff`), and behind a line feed a text goes on with lines of its own
(`lines_append`).
-/

namespace RecordCheck.Text

/-- A line without the carriage return at its end. -/
def withoutReturn (line : List Char) : List Char :=
  if line.getLast? = some '\r' then line.dropLast else line

@[simp] theorem withoutReturn_concat (line : List Char) :
    withoutReturn (line ++ ['\r']) = line := by
  simp [withoutReturn]

theorem withoutReturn_of_ne {line : List Char} (h : line.getLast? ≠ some '\r') :
    withoutReturn line = line := if_neg h

/-- A line ends with a carriage return, or nothing is taken from it. -/
theorem withoutReturn_cases (line : List Char) :
    line = withoutReturn line ++ ['\r'] ∨ line = withoutReturn line := by
  by_cases hreturn : line.getLast? = some '\r'
  · obtain ⟨before, rfl⟩ := List.getLast?_eq_some_iff.1 hreturn
    rw [withoutReturn_concat]
    exact .inl rfl
  · exact .inr (withoutReturn_of_ne hreturn).symm

/-- Characters that are no line feeds are added to the line that has begun. -/
theorem linesAfter_append {line : List Char} (h : '\n' ∉ line) (read rest : List Char) :
    linesAfter read (line ++ rest) = linesAfter (line.reverse ++ read) rest := by
  induction line generalizing read with
  | nil => rfl
  | cons c line ih =>
    obtain ⟨hc, hline⟩ := not_or.1 (mt List.mem_cons.2 h)
    have hstep : linesAfter read (c :: (line ++ rest)) = linesAfter (c :: read) (line ++ rest) := by
      rw [linesAfter]
      exact fun heq => hc heq.symm
    rw [List.cons_append, hstep, ih hline, List.reverse_cons, List.append_assoc]
    rfl

theorem linesAfter_break (read rest : List Char) :
    linesAfter read ('\n' :: rest) = withoutReturn read.reverse :: lines rest := by
  by_cases hreturn : ∃ before, read = '\r' :: before
  · obtain ⟨before, rfl⟩ := hreturn
    rw [linesAfter, List.reverse_cons, withoutReturn_concat, lines]
  · have hlast : read.reverse.getLast? ≠ some '\r' := by
      intro hlast
      rw [List.getLast?_reverse] at hlast
      exact hreturn (List.head?_eq_some_iff.1 hlast)
    rw [linesAfter, withoutReturn_of_ne hlast, lines]
    exact fun before hread => hreturn ⟨before, hread⟩

/-- A line feed ends the first line. -/
theorem lines_append_break {line : List Char} (h : '\n' ∉ line) (rest : List Char) :
    lines (line ++ '\n' :: rest) = withoutReturn line :: lines rest := by
  rw [lines, linesAfter_append h, linesAfter_break, List.append_nil, List.reverse_reverse]

/-- Without a line feed there is one line, or none. -/
theorem lines_of_not_mem {line : List Char} (h : '\n' ∉ line) :
    lines line = if line = [] then [] else [line] := by
  have hall := linesAfter_append h [] []
  rw [List.append_nil, List.append_nil, linesAfter] at hall
  rw [lines, hall, List.reverse_reverse]
  simp only [List.isEmpty_reverse, List.isEmpty_iff]

/-- Of texts with line feeds between, the first is a line by itself, with or without the carriage
return at its end, unless it is empty and last. -/
theorem lines_intercalate_cons {line : List Char} (h : '\n' ∉ line) (others : List (List Char)) :
    ∃ first, lines (['\n'].intercalate (line :: others)) =
        first ++ lines (['\n'].intercalate others) ∧
      (first = [] ∧ line = [] ∨ first = [line] ∨ first = [withoutReturn line]) := by
  cases others with
  | nil =>
    rw [List.intercalate_singleton, lines_of_not_mem h]
    split_ifs with hempty
    · exact ⟨[], rfl, .inl ⟨rfl, hempty⟩⟩
    · exact ⟨[line], rfl, .inr (.inl rfl)⟩
  | cons next others =>
    refine ⟨[withoutReturn line], ?_, .inr (.inr rfl)⟩
    rw [List.intercalate_cons_cons, List.append_assoc, List.singleton_append, lines_append_break h]
    rfl

theorem withoutReturn_sublist (line : List Char) : (withoutReturn line).Sublist line := by
  unfold withoutReturn
  split_ifs
  · exact List.dropLast_sublist line
  · exact List.Sublist.refl line

/-- All characters of a line stand in the text, in order. -/
theorem sublist_of_mem_linesAfter {read text line : List Char} (h : line ∈ linesAfter read text) :
    line.Sublist (read.reverse ++ text) := by
  induction text generalizing read with
  | nil =>
    rw [linesAfter] at h
    split_ifs at h
    · exact nomatch h
    · rw [List.mem_singleton.1 h, List.append_nil]
  | cons c text ih =>
    by_cases hbreak : c = '\n'
    · rw [hbreak, linesAfter_break] at h
      rcases List.mem_cons.1 h with rfl | hrest
      · exact (withoutReturn_sublist _).trans (List.sublist_append_left _ _)
      · exact ((ih hrest).cons c).trans (List.sublist_append_right _ _)
    · have hnext := linesAfter_append (mt List.mem_singleton.1 (Ne.symm hbreak)) read text
      rw [List.singleton_append] at hnext
      rw [hnext] at h
      have hrest := ih h
      rwa [List.reverse_append, List.append_assoc] at hrest

theorem sublist_of_mem_lines {text line : List Char} (h : line ∈ lines text) :
    line.Sublist text := sublist_of_mem_linesAfter h

/-! ## Texts one behind the other -/

/-- A text is a line without a line feed, or a line that a line feed ends and a text behind it. -/
theorem lineInduction {P : List Char → Prop} (last : ∀ line, '\n' ∉ line → P line)
    (broken : ∀ line rest, '\n' ∉ line → P rest → P (line ++ '\n' :: rest)) (text : List Char) :
    P text := by
  -- Characters are put in front one by one, and each goes to the first line.
  suffices h : ∀ line, '\n' ∉ line → P (line ++ text) from h [] List.not_mem_nil
  induction text with
  | nil =>
    intro line hline
    rw [List.append_nil]
    exact last line hline
  | cons c text ih =>
    intro line hline
    by_cases hbreak : c = '\n'
    · rw [hbreak]
      exact broken line text hline (ih [] List.not_mem_nil)
    · have hlonger : '\n' ∉ line ++ [c] := by simp [hline, Ne.symm hbreak]
      have hnext := ih (line ++ [c]) hlonger
      rwa [List.append_assoc] at hnext

/-- The text is empty or ends with a line feed, so that what follows it begins a line. -/
def EndsLine (text : List Char) : Prop := ∀ c ∈ text.getLast?, c = '\n'

theorem endsLine_nil : EndsLine [] := nofun

theorem EndsLine.eq_nil {text : List Char} (h : EndsLine text) (hline : '\n' ∉ text) :
    text = [] := by
  by_contra hne
  have hlast := h _ (List.getLast?_eq_some_getLast hne)
  exact hline (hlast ▸ List.getLast_mem hne)

/-- What stands behind a line feed decides how a text ends. -/
theorem endsLine_behind_break {line rest : List Char} :
    EndsLine (line ++ '\n' :: rest) ↔ EndsLine rest := by
  rw [EndsLine, List.getLast?_append_of_ne_nil _ (List.cons_ne_nil _ _), List.getLast?_cons]
  cases hlast : rest.getLast? with
  | none => simp [EndsLine, hlast]
  | some c => simp [EndsLine, hlast]

/-- The lines of a text that ends a line are not changed by what follows it, and change nothing
there. -/
theorem lines_append {text : List Char} (h : EndsLine text) (rest : List Char) :
    lines (text ++ rest) = lines text ++ lines rest := by
  induction text using lineInduction with
  | last line hline =>
    rw [h.eq_nil hline]
    rfl
  | broken line text hline ih =>
    rw [List.append_assoc, List.cons_append, lines_append_break hline, lines_append_break hline,
      ih (endsLine_behind_break.1 h), List.cons_append]

theorem length_lines {text : List Char} (h : EndsLine text) :
    (lines text).length = text.count '\n' := by
  induction text using lineInduction with
  | last line hline =>
    rw [h.eq_nil hline]
    rfl
  | broken line text hline ih =>
    rw [lines_append_break hline, List.length_cons, ih (endsLine_behind_break.1 h),
      List.count_append, List.count_cons_self, List.count_eq_zero.2 hline, Nat.zero_add]

/-- Behind `number` line feeds the text has the line: what stands in front of the next line feed
without one carriage return, or all that is left if that is not empty. -/
inductive HasLine (text : List Char) (number : Nat) (line : List Char) : Prop
  | broken (before raw rest : List Char) (parts : text = before ++ (raw ++ '\n' :: rest))
      (starts : EndsLine before) (behind : before.count '\n' = number) (single : '\n' ∉ raw)
      (taken : line = withoutReturn raw)
  | last (before : List Char) (parts : text = before ++ line) (starts : EndsLine before)
      (behind : before.count '\n' = number) (single : '\n' ∉ line) (full : line ≠ [])

theorem HasLine.behind_break {text line : List Char} {number : Nat} (h : HasLine text number line)
    {first : List Char} (hfirst : '\n' ∉ first) :
    HasLine (first ++ '\n' :: text) (number + 1) line := by
  have hstarts {before : List Char} (h : EndsLine before) : EndsLine (first ++ '\n' :: before) :=
    endsLine_behind_break.2 h
  have hcount (before : List Char) :
      (first ++ '\n' :: before).count '\n' = before.count '\n' + 1 := by
    rw [List.count_append, List.count_cons_self, List.count_eq_zero.2 hfirst, Nat.zero_add]
  cases h with
  | broken before raw rest parts starts behind single taken =>
    refine .broken (first ++ '\n' :: before) raw rest ?_ (hstarts starts) ?_ single taken
    · rw [parts, List.append_assoc, List.cons_append]
    · rw [hcount, behind]
  | last before parts starts behind single full =>
    refine .last (first ++ '\n' :: before) ?_ (hstarts starts) ?_ single full
    · rw [parts, List.append_assoc, List.cons_append]
    · rw [hcount, behind]

/-- The number of a line counts the line feeds in front of it. -/
theorem getElem?_lines_iff {text line : List Char} {number : Nat} :
    (lines text)[number]? = some line ↔ HasLine text number line := by
  constructor
  · intro h
    induction text using lineInduction generalizing number with
    | last whole hwhole =>
      rw [lines_of_not_mem hwhole] at h
      split_ifs at h with hempty
      · exact nomatch h
      · obtain ⟨hnumber, rfl⟩ := List.getElem?_eq_some_iff.1 h
        obtain rfl := Nat.lt_one_iff.1 hnumber
        exact .last [] rfl endsLine_nil rfl hwhole hempty
    | broken first rest hfirst ih =>
      rw [lines_append_break hfirst] at h
      cases number with
      | zero =>
        obtain rfl := Option.some.inj h
        exact .broken [] first rest rfl endsLine_nil rfl hfirst rfl
      | succ number => exact (ih h).behind_break hfirst
  · intro h
    cases h with
    | broken before raw rest parts starts behind single taken =>
      rw [parts, lines_append starts, lines_append_break single, ← behind, ← length_lines starts,
        List.getElem?_append_right le_rfl, Nat.sub_self, taken]
      rfl
    | last before parts starts behind single full =>
      rw [parts, lines_append starts, lines_of_not_mem single, if_neg full, ← behind,
        ← length_lines starts, List.getElem?_append_right le_rfl, Nat.sub_self]
      rfl

/-! ## Blank lines -/

theorem trim_of_blank {line : List Char} (h : ∀ c ∈ line, isBlank c = true) : trim line = [] :=
  (trims_iff.1 ⟨line, [], by simp, h, by simp, by simp, by simp⟩).symm

theorem trim_ne_nil {line : List Char} {c : Char} (hmem : c ∈ line) (hc : isBlank c = false) :
    trim line ≠ [] := by
  intro htrim
  obtain ⟨before, after, hline, hbefore, hafter, -⟩ := trims_iff.2 htrim.symm
  rw [hline, List.nil_append, List.mem_append] at hmem
  have hblank : isBlank c = true := hmem.elim (hbefore c) (hafter c)
  exact Bool.false_ne_true (hc.symm.trans hblank)

theorem isEmpty_trim_iff {line : List Char} :
    (trim line).isEmpty = true ↔ ∀ c ∈ line, isBlank c = true := by
  rw [List.isEmpty_iff]
  constructor
  · intro htrim c hmem
    by_contra hc
    exact trim_ne_nil hmem (Bool.eq_false_iff.2 hc) htrim
  · exact trim_of_blank

theorem blank_withoutReturn_iff {line : List Char} :
    (∀ c ∈ withoutReturn line, isBlank c = true) ↔ ∀ c ∈ line, isBlank c = true := by
  constructor
  · intro h
    rcases withoutReturn_cases line with hline | hline
    · rw [hline, List.forall_mem_append]
      exact ⟨h, List.forall_mem_singleton.2 rfl⟩
    · rwa [hline]
  · exact fun h c hc => h c ((withoutReturn_sublist line).subset hc)

/-- A text is blank if its lines are, since what ends them is blank too. -/
theorem blank_lines_iff {text : List Char} :
    (∀ line ∈ lines text, ∀ c ∈ line, isBlank c = true) ↔ ∀ c ∈ text, isBlank c = true := by
  induction text using lineInduction with
  | last line hline =>
    rw [lines_of_not_mem hline]
    split_ifs with hempty
    · simp [hempty]
    · exact List.forall_mem_singleton
  | broken line rest hline ih =>
    have hbreak : isBlank '\n' = true := rfl
    rw [lines_append_break hline, List.forall_mem_cons, ih, blank_withoutReturn_iff,
      List.forall_mem_append, List.forall_mem_cons, and_iff_right hbreak]

end RecordCheck.Text
