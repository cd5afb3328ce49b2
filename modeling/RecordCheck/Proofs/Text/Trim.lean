import Mathlib
import RecordCheck.Text.Blank
set_option autoImplicit false

/-!
# Text: what trimming leaves

`Trims text inner` says that `text` is `inner` between blanks and that `inner` has no blank at
either end.  Trimming finds the one such `inner`.
-/

namespace RecordCheck.Text

/-- Neither end of the text is blank. -/
def NoBlankEnds (text : List Char) : Prop :=
  (∀ c ∈ text.head?, isBlank c = false) ∧ ∀ c ∈ text.getLast?, isBlank c = false

/-- `inner` is the text without the blanks at its ends. -/
def Trims (text inner : List Char) : Prop :=
  ∃ before after, text = before ++ (inner ++ after) ∧
    (∀ c ∈ before, isBlank c = true) ∧ (∀ c ∈ after, isBlank c = true) ∧ NoBlankEnds inner

theorem trimStart_eq_self {text : List Char} (h : ∀ c ∈ text.head?, isBlank c = false) :
    trimStart text = text := by
  cases text with
  | nil => rfl
  | cons c rest => exact List.dropWhile_cons_of_neg (by rw [h c rfl]; exact Bool.false_ne_true)

theorem trimStart_blanks {before rest : List Char} (h : ∀ c ∈ before, isBlank c = true) :
    trimStart (before ++ rest) = trimStart rest :=
  List.dropWhile_append_of_pos h

theorem trimStart_head (text : List Char) : ∀ c ∈ (trimStart text).head?, isBlank c = false := by
  intro c hc
  have := List.head?_dropWhile_not isBlank text
  rw [show (List.dropWhile isBlank text).head? = some c from hc] at this
  exact this

theorem trimStart_split (text : List Char) :
    ∃ before, text = before ++ trimStart text ∧ ∀ c ∈ before, isBlank c = true :=
  ⟨text.takeWhile isBlank, List.takeWhile_append_dropWhile.symm,
    fun _ hc => List.mem_takeWhile_imp hc⟩

theorem trimEnd_eq (text : List Char) : trimEnd text = (trimStart text.reverse).reverse := rfl

theorem trimEnd_eq_self {text : List Char} (h : ∀ c ∈ text.getLast?, isBlank c = false) :
    trimEnd text = text := by
  rw [← List.head?_reverse] at h
  rw [trimEnd_eq, trimStart_eq_self h, List.reverse_reverse]

theorem trimEnd_blanks {rest after : List Char} (h : ∀ c ∈ after, isBlank c = true) :
    trimEnd (rest ++ after) = trimEnd rest := by
  rw [trimEnd_eq, List.reverse_append, trimStart_blanks fun c hc => h c (List.mem_reverse.1 hc),
    trimEnd_eq]

theorem trimEnd_last (text : List Char) :
    ∀ c ∈ (trimEnd text).getLast?, isBlank c = false := by
  rw [trimEnd_eq, List.getLast?_reverse]
  exact trimStart_head text.reverse

theorem trimEnd_split (text : List Char) :
    ∃ after, text = trimEnd text ++ after ∧ ∀ c ∈ after, isBlank c = true := by
  obtain ⟨blanks, hsplit, hblank⟩ := trimStart_split text.reverse
  refine ⟨blanks.reverse, ?_, fun c hc => hblank c (List.mem_reverse.1 hc)⟩
  rw [trimEnd_eq, ← List.reverse_append, ← hsplit, List.reverse_reverse]

theorem trim_trims (text : List Char) : Trims text (trim text) := by
  obtain ⟨before, hbefore, hblank⟩ := trimStart_split text
  obtain ⟨after, hafter, hblank'⟩ := trimEnd_split (trimStart text)
  refine ⟨before, after, by rw [trim, ← hafter, ← hbefore], hblank, hblank', ?_, ?_⟩
  · intro c hc
    apply trimStart_head text c
    rw [hafter, List.head?_append]
    exact Option.mem_def.2 (by rw [show (trimEnd (trimStart text)).head? = some c from hc]; rfl)
  · exact trimEnd_last _

/-- Trimming finds the one text that is left between the blanks. -/
theorem trims_iff {text inner : List Char} : Trims text inner ↔ inner = trim text := by
  constructor
  · rintro ⟨before, after, rfl, hbefore, hafter, hhead, hlast⟩
    rw [trim, trimStart_blanks hbefore]
    cases inner with
    | nil =>
      rw [List.nil_append, ← List.append_nil after, trimStart_blanks hafter]
      rfl
    | cons c rest =>
      have hstart : trimStart (c :: rest ++ after) = c :: rest ++ after := trimStart_eq_self hhead
      rw [hstart, trimEnd_blanks hafter, trimEnd_eq_self hlast]
  · rintro rfl
    exact trim_trims text

end RecordCheck.Text
