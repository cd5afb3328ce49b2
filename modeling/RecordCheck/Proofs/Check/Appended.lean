import RecordCheck.Proofs.Check.Failing
import RecordCheck.Proofs.Check.Independent
import RecordCheck.Proofs.Text.Lines
set_option autoImplicit false

/-!
# Check: texts of lines, one behind the other

Read line by line, a text that ends a line and another text behind it have the documents of both.
A line that is neither blank nor JSON makes both fail, the first such line of all, under its number
in the whole text and whatever becomes of the pointer and the filter.  Main statement:
`Inputs.linewise_append`.
-/

namespace RecordCheck.Check

/-- Behind `number` lines the text has one that is neither blank nor JSON. -/
structure Broken (text : String) (number : Nat) (line : String) (fault : Json.Fault) : Prop where
  stands : Text.HasLine text.toList number line.toList
  full : ∃ c ∈ line.toList, Text.isBlank c = false
  fails : Json.parse line = .error fault

/-- The line is the first of a text that is neither blank nor JSON. -/
structure FirstBroken (text : String) (number : Nat) (line : String) (fault : Json.Fault) : Prop
    where
  broken : Broken text number line fault
  first : ∀ earlier < number, ∀ other fault', ¬Broken text earlier other fault'

/-! ## The first broken line -/

theorem broken_iff {text line : String} {number : Nat} {fault : Json.Fault} :
    Broken text number line fault ↔ (Text.lines text.toList)[number]? = some line.toList ∧
      (Text.trim line.toList).isEmpty = false ∧ Json.parse line = .error fault := by
  have hfull : (Text.trim line.toList).isEmpty = false ↔
      ∃ c ∈ line.toList, Text.isBlank c = false := by
    rw [← Bool.not_eq_true, Text.isEmpty_trim_iff]
    simp
  rw [Text.getElem?_lines_iff, hfull]
  exact ⟨fun h => ⟨h.stands, h.full, h.fails⟩, fun h => ⟨h.1, h.2.1, h.2.2⟩⟩

/-- If any line is broken, one is the first. -/
theorem Broken.exists_first {text line : String} {number : Nat} {fault : Json.Fault}
    (h : Broken text number line fault) :
    ∃ number line fault, FirstBroken text number line fault := by
  classical
  have hex : ∃ number line fault, Broken text number line fault := ⟨number, line, fault, h⟩
  obtain ⟨line, fault, hbroken⟩ := Nat.find_spec hex
  exact ⟨Nat.find hex, line, fault, hbroken, fun earlier hearlier other fault' hother =>
    Nat.find_min hex hearlier ⟨other, fault', hother⟩⟩

section

variable {text : String} (hends : Text.EndsLine text.toList)

include hends

theorem Broken.lt_count {line : String} {number : Nat} {fault : Json.Fault}
    (h : Broken text number line fault) : number < text.toList.count '\n' := by
  obtain ⟨hlt, -⟩ := List.getElem?_eq_some_iff.1 (broken_iff.1 h).1
  rwa [Text.length_lines hends] at hlt

/-- The lines of two texts are numbered through. -/
theorem broken_append_iff {behind line : String} {number : Nat} {fault : Json.Fault} :
    Broken (text ++ behind) number line fault ↔
      Broken text number line fault ∨ ∃ n, number = text.toList.count '\n' + n ∧
        Broken behind n line fault := by
  have hlength := Text.length_lines hends
  rcases Nat.lt_or_ge number (text.toList.count '\n') with hlt | hge
  · rw [broken_iff, String.toList_append, Text.lines_append hends,
      List.getElem?_append_left (hlength ▸ hlt), ← broken_iff]
    refine ⟨.inl, fun h => h.resolve_right ?_⟩
    rintro ⟨n, hnumber, -⟩
    omega
  · obtain ⟨n, rfl⟩ := Nat.exists_eq_add_of_le hge
    rw [broken_iff, String.toList_append, Text.lines_append hends,
      List.getElem?_append_right (by omega), hlength, Nat.add_sub_cancel_left, ← broken_iff]
    constructor
    · exact fun h => .inr ⟨n, rfl, h⟩
    · rintro (h | ⟨m, hm, h⟩)
      · exact absurd (h.lt_count hends) hge.not_gt
      · rwa [Nat.add_left_cancel hm]

/-- The first broken line of two texts is that of the one in front, if it has any. -/
theorem firstBroken_append_iff {behind line : String} {number : Nat} {fault : Json.Fault} :
    FirstBroken (text ++ behind) number line fault ↔
      FirstBroken text number line fault ∨ (∀ n line fault, ¬Broken text n line fault) ∧
        ∃ n, number = text.toList.count '\n' + n ∧ FirstBroken behind n line fault := by
  have hiff {line : String} {number : Nat} {fault : Json.Fault} :=
    @broken_append_iff text hends behind line number fault
  constructor
  · rintro ⟨hbroken, hfirst⟩
    rcases hiff.1 hbroken with hfront | ⟨n, rfl, hbehind⟩
    · exact .inl ⟨hfront, fun earlier hearlier other fault' h =>
        hfirst earlier hearlier other fault' (hiff.2 (.inl h))⟩
    · refine .inr ⟨fun m other fault' h => ?_, n, rfl, hbehind, fun m hm other fault' h => ?_⟩
      · have hlt := h.lt_count hends
        exact hfirst m (by omega) other fault' (hiff.2 (.inl h))
      · exact hfirst _ (Nat.add_lt_add_left hm _) other fault' (hiff.2 (.inr ⟨m, rfl, h⟩))
  · rintro (⟨hfront, hfirst⟩ | ⟨hnone, n, rfl, hbehind, hfirst⟩)
    · refine ⟨hiff.2 (.inl hfront), fun earlier hearlier other fault' h => ?_⟩
      rcases hiff.1 h with h | ⟨m, rfl, -⟩
      · exact hfirst earlier hearlier other fault' h
      · have hlt := hfront.lt_count hends
        omega
    · refine ⟨hiff.2 (.inr ⟨n, rfl, hbehind⟩), fun earlier hearlier other fault' h => ?_⟩
      rcases hiff.1 h with h | ⟨m, rfl, hother⟩
      · exact hnone earlier other fault' h
      · exact hfirst m (by omega) other fault' hother

end

/-! ## The failure of a line -/

theorem parseText_of_fault {text : String} {fault : Json.Fault} (h : Json.parse text = .error fault)
    (path : String) (line : Option Nat) : parseText path line text =
      .error (.notJson path line fault.error (.before (Json.bytesOf text) fault.left)) := by
  rw [Json.parse] at h
  simp only [parseText, h]

/-- All lines in front of a broken one are read, or they are left out and counted. -/
theorem parseLines_of_broken {path : String} {lines : List (List Char)} {index : Nat}
    {line : List Char} {fault : Json.Fault} (hline : lines[index]? = some line)
    (hfull : (Text.trim line).isEmpty = false)
    (hfault : Json.parse (String.ofList line) = .error fault)
    (hbefore : ∀ earlier < index, ∀ other, lines[earlier]? = some other →
      (Text.trim other).isEmpty = false → ∃ x, Json.parse (String.ofList other) = .ok x)
    (number : Nat) : parseLines path (numberedLines number lines) =
      .error (.notJson path (some (number + index)) fault.error
        (.before (Json.bytesOf (String.ofList line)) fault.left)) := by
  induction lines generalizing index number with
  | nil => exact nomatch hline
  | cons other lines ih =>
    cases index with
    | zero =>
      obtain rfl := Option.some.inj hline
      rw [numberedLines, hfull, if_neg Bool.false_ne_true, parseLines, parseText_of_fault hfault]
      rfl
    | succ index =>
      have hrest := ih hline (fun earlier hearlier =>
        hbefore (earlier + 1) (Nat.succ_lt_succ hearlier)) (number + 1)
      rw [Nat.add_right_comm, Nat.add_assoc] at hrest
      rw [numberedLines]
      split_ifs with hblank
      · exact hrest
      · obtain ⟨x, hx⟩ := hbefore 0 index.succ_pos other rfl (Bool.eq_false_iff.2 hblank)
        rw [parseLines, parseText_eq_ok_iff.2 hx, hrest]
        rfl

namespace Inputs

variable {inputs : Inputs}

/-- The first broken line is the failure, whatever the pointer and the filter are. -/
theorem documentsOf_of_firstBroken [Filter.Library] (hlinewise : inputs.linewise = true)
    {text line : String} {number : Nat} {fault : Json.Fault}
    (h : FirstBroken text number line fault) (path : String) :
    inputs.documentsOf path text = .error (.notJson path (some (number + 1)) fault.error
      (.before (Json.bytesOf line) fault.left)) := by
  obtain ⟨hline, hfull, hfault⟩ := broken_iff.1 h.broken
  rw [← @String.ofList_toList line] at hfault
  have hbefore : ∀ earlier < number, ∀ other, (Text.lines text.toList)[earlier]? = some other →
      (Text.trim other).isEmpty = false → ∃ x, Json.parse (String.ofList other) = .ok x := by
    intro earlier hearlier other hother hfull
    cases hparse : Json.parse (String.ofList other) with
    | ok x => exact ⟨x, rfl⟩
    | error fault' =>
      refine absurd (broken_iff.2 ?_) (h.first earlier hearlier (String.ofList other) fault')
      rw [String.toList_ofList]
      exact ⟨hother, hfull, hparse⟩
  have hparse := @parseLines_of_broken path _ _ _ _ hline hfull hfault hbefore 1
  rw [String.ofList_toList, Nat.add_comm] at hparse
  rw [documentsOf, values, if_pos hlinewise, hparse]

/-! ## The documents -/

theorem documents_append [Filter.Library] (path : String) (xs ys : List Json) :
    inputs.documents path (xs ++ ys) =
      joined (inputs.documents path xs) (inputs.documents path ys) := by
  refine append_eq_joined (inputs.documents path)
    (fun x => (inputs.select path x).bind inputs.filtered) rfl (fun x rest => ?_) xs ys
  rw [documents]
  cases inputs.select path x with
  | error e => rfl
  | ok node =>
    simp only [Except.bind]
    cases inputs.filtered node with
    | error e => rfl
    | ok made => rfl

theorem parseLines_append (path : String) (lines others : List (Nat × String)) :
    parseLines path (lines ++ others) =
      joined (parseLines path lines) (parseLines path others) := by
  refine append_eq_joined (parseLines path)
    (fun line => (parseText path (some line.1) line.2).map ([·])) rfl (fun line rest => ?_)
    lines others
  rw [parseLines]
  cases parseText path (some line.1) line.2 with
  | error e => rfl
  | ok x => rfl

theorem numberedLines_append (number : Nat) (lines others : List (List Char)) :
    numberedLines number (lines ++ others) =
      numberedLines number lines ++ numberedLines (number + lines.length) others := by
  induction lines generalizing number with
  | nil => rfl
  | cons line lines ih =>
    rw [List.cons_append, numberedLines, numberedLines, ih, List.length_cons, Nat.add_right_comm,
      Nat.add_assoc]
    split_ifs
    · rfl
    · rfl

theorem values_append_eq_ok_iff (hlinewise : inputs.linewise = true) {text : String}
    (hends : Text.EndsLine text.toList) (path behind : String) {xs : List Json} :
    inputs.values path (text ++ behind) = .ok xs ↔ ∃ first second,
      inputs.values path text = .ok first ∧ inputs.values path behind = .ok second ∧
        xs = first ++ second := by
  have hnumber (number : Nat) (lines : List (List Char)) (xs : List Json) :
      parseLines path (numberedLines number lines) = .ok xs ↔
        parseLines path (numberedLines 1 lines) = .ok xs := by
    rw [parseLines_eq_ok_iff, parseLines_eq_ok_iff, map_numberedLines, map_numberedLines]
  simp only [values, if_pos hlinewise, String.toList_append, Text.lines_append hends,
    numberedLines_append, parseLines_append, joined_eq_ok_iff, hnumber]

/-- Read line by line, a text that ends a line and a text behind it have the documents of both, if
both have any.  A text in which some line is neither blank nor JSON fails with the first such line
and its number, counted from one, whatever the pointer and the filter are.  In two texts that line
is the one of the first text if it has one, and otherwise that of the second, behind the lines of
the first. -/
theorem linewise_append [Filter.Library] (hlinewise : inputs.linewise = true) {text : String}
    (hends : Text.EndsLine text.toList) (path behind : String) :
    (∀ documents, inputs.documentsOf path (text ++ behind) = .ok documents ↔
      ∃ first second, inputs.documentsOf path text = .ok first ∧
        inputs.documentsOf path behind = .ok second ∧ documents = first ++ second) ∧
    (∀ whole, (∃ number line fault, Broken whole number line fault) →
      ∃ number line fault, FirstBroken whole number line fault) ∧
    (∀ whole number line fault, FirstBroken whole number line fault →
      inputs.documentsOf path whole = .error (.notJson path (some (number + 1)) fault.error
        (.before (Json.bytesOf line) fault.left))) ∧
    ∀ number line fault, FirstBroken (text ++ behind) number line fault ↔
      FirstBroken text number line fault ∨ (∀ n line fault, ¬Broken text n line fault) ∧
        ∃ n, number = text.toList.count '\n' + n ∧ FirstBroken behind n line fault := by
  refine ⟨fun documents => ?_, fun whole ⟨number, line, fault, h⟩ => h.exists_first,
    fun whole number line fault h => documentsOf_of_firstBroken hlinewise h path,
    fun number line fault => firstBroken_append_iff hends⟩
  simp only [documentsOf_eq_ok_iff, values_append_eq_ok_iff hlinewise hends]
  constructor
  · rintro ⟨_, ⟨xs, ys, hxs, hys, rfl⟩, hdocuments⟩
    rw [documents_append, joined_eq_ok_iff] at hdocuments
    obtain ⟨first, second, hfirst, hsecond, rfl⟩ := hdocuments
    exact ⟨first, second, ⟨xs, hxs, hfirst⟩, ⟨ys, hys, hsecond⟩, rfl⟩
  · rintro ⟨first, second, ⟨xs, hxs, hfirst⟩, ⟨ys, hys, hsecond⟩, rfl⟩
    refine ⟨xs ++ ys, ⟨xs, ys, hxs, hys, rfl⟩, ?_⟩
    rw [documents_append, joined_eq_ok_iff]
    exact ⟨first, second, hfirst, hsecond, rfl⟩

/-- The pointer selects nothing of the one value in the first text, and a line of the second text
is no JSON: that is the failure of both, with the number of the line among all lines. -/
theorem linewise_append_shifted :
    let inputs : Inputs := ⟨["data"], true, some "/r", none⟩
    let text := "\x7b\"q\": 1\x7d\r\n \t\n"
    let behind := "\n[1\ntrue"
    inputs.documentsOf "data" text = .error (.nothingSelected "data" "/r") ∧
    ∃ error place,
      inputs.documentsOf "data" behind = .error (.notJson "data" (some 2) error place) ∧
      inputs.documentsOf "data" (text ++ behind) =
        .error (.notJson "data" (some 4) error place) := by
  intro inputs text behind
  let value := "\x7b\"q\": 1\x7d"
  have htext : Text.lines text.toList = [value.toList, " \t".toList] := by decide +kernel
  have hbehind : Text.lines behind.toList = ["".toList, "[1".toList, "true".toList] := by
    decide +kernel
  have hends : Text.EndsLine text.toList := by
    have hlast : text.toList.getLast? = some '\n' := by decide +kernel
    intro c hc
    exact (Option.some.inj (hlast.symm.trans hc)).symm
  have hvalue : Json.parse value = .ok (.object [("q", .integer 1)]) := rfl
  obtain ⟨fault, hfault⟩ : ∃ fault, Json.parse "[1" = .error fault := ⟨_, rfl⟩
  have hbroken : FirstBroken behind 1 "[1" fault := by
    refine ⟨broken_iff.2 ⟨by rw [hbehind]; rfl, by decide +kernel, hfault⟩,
      fun earlier hearlier other fault' h => ?_⟩
    obtain ⟨hline, hfull, -⟩ := broken_iff.1 h
    rw [hbehind, Nat.lt_one_iff.1 hearlier] at hline
    rw [← Option.some.inj hline] at hfull
    exact absurd hfull (by decide +kernel)
  have hnone : ∀ n line fault, ¬Broken text n line fault := by
    intro n line fault h
    obtain ⟨hline, hfull, hparse⟩ := broken_iff.1 h
    rw [htext] at hline
    match n with
    | 0 =>
      obtain rfl : value = line := String.toList_inj.1 (Option.some.inj hline)
      exact nomatch hvalue.symm.trans hparse
    | 1 =>
      rw [← Option.some.inj hline] at hfull
      exact absurd hfull (by decide +kernel)
    | _ + 2 => exact nomatch hline
  obtain ⟨-, -, hfails, happend⟩ := @linewise_append inputs _ rfl text hends "data" behind
  have hfirst : inputs.documentsOf "data" text = .error (.nothingSelected "data" "/r") := by
    have hvalues : inputs.values "data" text = .ok [.object [("q", .integer 1)]] := by
      have hfull : (numberedLines 1 (Text.lines text.toList)).map Prod.snd = [value] := by
        decide +kernel
      rw [values, if_pos rfl, parseLines_eq_ok_iff, hfull]
      exact .cons hvalue .nil
    rw [documentsOf, hvalues]
    rfl
  have hboth : FirstBroken (text ++ behind) 3 "[1" fault :=
    (happend 3 "[1" fault).2 (.inr ⟨hnone, 1, by decide +kernel, hbroken⟩)
  exact ⟨hfirst, _, _, hfails behind 1 "[1" fault hbroken, hfails _ 3 "[1" fault hboth⟩

end Inputs
end RecordCheck.Check
