import RecordCheck.Proofs.Check.Normalize
import RecordCheck.Proofs.Json.Joined
set_option autoImplicit false

/-!
# Check: lines and arrays

The texts of values on lines of their own, with blank lines among them, are as good as one text of
an array: the same records come of both, with the same numbers (`linewise_agrees_with_array`).
-/

namespace RecordCheck.Check

/-- The inputs that are one file with a JSON text on each line. -/
def Inputs.ofLines (input : String) : Inputs := ⟨[input], true, none, none⟩

/-- Lines that are the texts, in order, but for blank lines among them. -/
inductive Spaced : (lines texts : List String) → Prop
  | nil : Spaced [] []
  | blank {line : String} (h : ∀ c ∈ line.toList, Text.isBlank c = true)
      {lines texts : List String} (rest : Spaced lines texts) : Spaced (line :: lines) texts
  | text (line : String) {lines texts : List String} (rest : Spaced lines texts) :
      Spaced (line :: lines) (line :: texts)

/-- The input leads to one file, which has the text. -/
def Holds (files : Files.FileSystem) (input text : String) : Prop :=
  ∃ path, resolve files input = .ok [path] ∧ files.read path = .ok text

/-- The inputs can be decoded, and these are the records with their numbers. -/
def Inputs.Gives [Filter.Library] (inputs : Inputs) (files : Files.FileSystem)
    (outcomes : List (Nat × Except Decode.Error Record)) : Prop :=
  ∃ decoded, inputs.decode files = .ok decoded ∧
    decoded.map (fun d => (d.index, d.outcome)) = outcomes

/-! ## Lines -/

theorem numberedLines_of_blank {line : List Char} (h : ∀ c ∈ line, Text.isBlank c = true)
    (number : Nat) (lines : List (List Char)) :
    numberedLines number (line :: lines) = numberedLines (number + 1) lines := by
  rw [numberedLines, Text.trim_of_blank h]
  rfl

theorem parseLines_of_parse {path : String} {line : List Char} {x : Json}
    (hline : Json.parse (String.ofList line) = .ok x) (number : Nat) (lines : List (List Char)) :
    parseLines path (numberedLines number (line :: lines)) =
      (parseLines path (numberedLines (number + 1) lines)).map (x :: ·) := by
  obtain ⟨c, hmem, hc⟩ := Json.exists_not_blank hline
  have htrim : (Text.trim line).isEmpty = false := by
    rw [List.isEmpty_eq_false_iff]
    exact Text.trim_ne_nil hmem hc
  rw [numberedLines, htrim, if_neg Bool.false_ne_true, parseLines,
    parseText_eq_ok_iff.2 hline]

/-- Of lines that are texts and blank lines, the values of the texts are read. -/
theorem parseLines_spaced {lines texts : List String} (hspaced : Spaced lines texts)
    (hlines : ∀ line ∈ lines, '\n' ∉ line.toList) {xs : List Json}
    (htexts : List.Forall₂ (fun text x => Json.parse text = .ok x) texts xs) (path : String)
    (number : Nat) :
    parseLines path (numberedLines number (Text.lines ("\n".intercalate lines).toList)) =
      .ok xs := by
  rw [String.toList_intercalate, show "\n".toList = ['\n'] from rfl]
  induction hspaced generalizing xs number with
  | nil =>
    cases htexts
    rfl
  | @blank line hblank lines texts _ ih =>
    obtain ⟨hline, hothers⟩ := List.forall_mem_cons.1 hlines
    obtain ⟨first, hsplit, hfirst⟩ :=
      Text.lines_intercalate_cons hline (lines.map String.toList)
    rw [List.map_cons, hsplit]
    rcases hfirst with ⟨rfl, -⟩ | rfl | rfl
    · exact ih hothers htexts number
    · rw [List.singleton_append, numberedLines_of_blank hblank]
      exact ih hothers htexts (number + 1)
    · rw [List.singleton_append, numberedLines_of_blank (Text.blank_withoutReturn_iff.2 hblank)]
      exact ih hothers htexts (number + 1)
  | @text line lines texts _ ih =>
    obtain ⟨hline, hothers⟩ := List.forall_mem_cons.1 hlines
    cases htexts with
    | @cons _ x _ xs hparse htexts =>
      obtain ⟨first, hsplit, hfirst⟩ :=
        Text.lines_intercalate_cons hline (lines.map String.toList)
      have hx : Json.parse (String.ofList line.toList) = .ok x := by rwa [String.ofList_toList]
      rw [List.map_cons, hsplit]
      rcases hfirst with ⟨rfl, hempty⟩ | rfl | rfl
      · obtain ⟨c, hmem, -⟩ := Json.exists_not_blank hx
        rw [hempty] at hmem
        exact absurd hmem List.not_mem_nil
      · rw [List.singleton_append, parseLines_of_parse hx, ih hothers htexts (number + 1)]
        rfl
      · rw [List.singleton_append, parseLines_of_parse (Json.parse_withoutReturn hx),
          ih hothers htexts (number + 1)]
        rfl

/-! ## Outcomes -/

/-- The outcomes of records, numbered in order. -/
def numberedOutcomes (records : List Json) : List (Nat × Except Decode.Error Record) :=
  records.mapIdx fun i x => (i, Decode.record x)

/-- The source of records is no part of their numbers and outcomes. -/
theorem map_decodeFrom (source : String) (records : List Json) :
    (decodeFrom source 0 records).map (fun d => (d.index, d.outcome)) =
      numberedOutcomes records := by
  apply List.ext_getElem?
  intro i
  rw [List.getElem?_map, getElem?_decodeFrom, numberedOutcomes, List.getElem?_mapIdx,
    Option.map_map]
  simp [Function.comp_def]

theorem parse_brackets {texts : List String} {xs : List Json}
    (htexts : List.Forall₂ (fun text x => Json.parse text = .ok x) texts xs) :
    Json.SameOrTooDeep (Json.parse ("[" ++ ",".intercalate texts ++ "]")) (.ok (.array xs)) := by
  have hchars : List.Forall₂ (fun cs x => Json.parse (String.ofList cs) = .ok x)
      (texts.map String.toList) xs := by
    refine List.forall₂_map_left_iff.2 (htexts.imp fun text x hx => ?_)
    rwa [String.ofList_toList]
  have htext : "[" ++ ",".intercalate texts ++ "]" =
      String.ofList ('[' :: (Json.separated (texts.map String.toList) ++ [']'])) := by
    apply String.toList_inj.1
    rw [Json.separated_eq_intercalate]
    simp
  rw [htext]
  exact Json.parse_joined hchars

section

variable [Filter.Library]

theorem Inputs.gives_of_values {inputs : Inputs} (hpointer : inputs.pointer = none)
    (hfilter : inputs.filter = none) {files : Files.FileSystem} {input text : String}
    (hinput : inputs.patterns = [input]) (hholds : Holds files input text) {xs records : List Json}
    (hvalues : ∀ path, inputs.values path text = .ok xs) (hsplit : Splits xs records) :
    inputs.Gives files (numberedOutcomes records) := by
  obtain ⟨path, hresolve, hread⟩ := hholds
  refine ⟨_, Inputs.decode_of_values hpointer hfilter hinput hresolve hread (hvalues path), ?_⟩
  rw [← hsplit.eq_flatMap]
  exact map_decodeFrom path records

theorem Inputs.gives_ofLines {lines texts : List String} (hspaced : Spaced lines texts)
    (hlines : ∀ line ∈ lines, '\n' ∉ line.toList) {xs records : List Json}
    (htexts : List.Forall₂ (fun text x => Json.parse text = .ok x) texts xs)
    (hsplit : Splits xs records) {files : Files.FileSystem} {input : String}
    (hholds : Holds files input ("\n".intercalate lines)) :
    (Inputs.ofLines input).Gives files (numberedOutcomes records) := by
  refine Inputs.gives_of_values rfl rfl rfl hholds (fun path => ?_) hsplit
  exact parseLines_spaced hspaced hlines htexts path 1

theorem Inputs.gives_ofFile {files : Files.FileSystem} {input text : String} {records : List Json}
    (hholds : Holds files input text) (hparse : Json.parse text = .ok (.array records)) :
    (Inputs.ofFile input).Gives files (numberedOutcomes records) := by
  have hvalues (path : String) : (Inputs.ofFile input).values path text = .ok [.array records] := by
    rw [Inputs.values, parseText_eq_ok_iff.2 hparse]
    rfl
  have hsplit := Splits.nil.array records
  rw [List.append_nil] at hsplit
  exact Inputs.gives_of_values rfl rfl rfl hholds hvalues hsplit

/-- A file with texts of values on its lines, blank lines among them, is decoded to the outcomes of
its records, numbered from the first.  The same come of any file that as a whole is the text of one
array, which holds in order the items of the arrays among the values and the other values.  If there
is no array among them, then such a file is that of the texts with commas between and brackets
around them, unless nodes nest too deep in it. -/
theorem linewise_agrees_with_array {lines texts : List String} {xs records : List Json}
    (hspaced : Spaced lines texts) (hlines : ∀ line ∈ lines, '\n' ∉ line.toList)
    (htexts : List.Forall₂ (fun text x => Json.parse text = .ok x) texts xs)
    (hsplit : Splits xs records) {files : Files.FileSystem} {input : String}
    (hholds : Holds files input ("\n".intercalate lines)) :
    (Inputs.ofLines input).Gives files (numberedOutcomes records) ∧
      ∀ files' input' text, Holds files' input' text →
        (Json.parse text = .ok (.array records) →
          (Inputs.ofFile input').Gives files' (numberedOutcomes records)) ∧
        ((∀ x ∈ xs, ∀ items, x ≠ .array items) →
          text = "[" ++ ",".intercalate texts ++ "]" →
          (∀ fault, Json.parse text = .error fault → fault.error ≠ .nestedTooDeep) →
            (Inputs.ofFile input').Gives files' (numberedOutcomes records)) := by
  refine ⟨Inputs.gives_ofLines hspaced hlines htexts hsplit hholds, ?_⟩
  intro files' input' text hholds'
  refine ⟨Inputs.gives_ofFile hholds', ?_⟩
  rintro hflat rfl hdeep
  have hrecords : records = xs := by
    rw [hsplit.eq_flatMap, List.flatMap_congr fun x hx => recordsOf_of_ne_array (hflat x hx)]
    simp
  rcases parse_brackets htexts with hparse | ⟨fault, hfault, htoo⟩
  · exact Inputs.gives_ofFile hholds' (hrecords ▸ hparse)
  · exact absurd htoo (hdeep fault hfault)

end

theorem holds_of_node {files : Files.FileSystem} {input text : String}
    (hresolve : resolve files input = .ok [input])
    (hnode : files.node input = .ok (.file (Json.bytesOf text))) : Holds files input text :=
  ⟨input, hresolve, Files.read_of_node hnode⟩

/-- Three texts, one of them of an array with an array in it, on lines with carriage returns and
with blank lines among them; and two of the texts, neither of an array. -/
theorem linewise_agrees_with_array_mixed :
    let a := "\x7b\"__typename\": \"A\", \"a_string\": \"x\"\x7d"
    let files : Files.FileSystem := ⟨.directory [
      ("lines", .file (Json.bytesOf ("\n".intercalate [a ++ "\r", " \t", "[7, [8]]", "", "true"]))),
      ("array", .file (Json.bytesOf ("[" ++ a ++ ", 7, [8], true]"))),
      ("pair lines", .file (Json.bytesOf ("\n".intercalate [a, " true\r", ""]))),
      ("pair", .file (Json.bytesOf ("[" ++ ",".intercalate [a, " true\r"] ++ "]")))], [], []⟩
    let x : Json := .object [("__typename", .text "A"), ("a_string", .text "x")]
    let four := numberedOutcomes [x, .integer 7, .array [.integer 8], .bool true]
    let two := numberedOutcomes [x, .bool true]
    ((Inputs.ofLines "lines").Gives files four ∧ (Inputs.ofFile "array").Gives files four) ∧
      (Inputs.ofLines "pair lines").Gives files two ∧ (Inputs.ofFile "pair").Gives files two := by
  intro a files x four two
  have hx : ∀ items, x ≠ .array items := by simp [x]
  have htrue : ∀ items, Json.bool true ≠ .array items := by simp
  have hempty : ∀ c ∈ "".toList, Text.isBlank c = true := by simp
  have hblank : ∀ c ∈ " \t".toList, Text.isBlank c = true := by simp [Text.isBlank]
  constructor
  · have hspaced : Spaced [a ++ "\r", " \t", "[7, [8]]", "", "true"]
        [a ++ "\r", "[7, [8]]", "true"] :=
      .text _ (.blank hblank (.text _ (.blank hempty (.text _ .nil))))
    have hsplit : Splits [x, .array [.integer 7, .array [.integer 8]], .bool true]
        [x, .integer 7, .array [.integer 8], .bool true] :=
      .single hx (.array [.integer 7, .array [.integer 8]] (.single htrue .nil))
    have hholds : Holds files "lines"
        ("\n".intercalate [a ++ "\r", " \t", "[7, [8]]", "", "true"]) := holds_of_node rfl rfl
    obtain ⟨hlines, hothers⟩ := linewise_agrees_with_array hspaced (by decide +kernel)
      (.cons rfl (.cons rfl (.cons rfl .nil))) hsplit hholds
    exact ⟨hlines, (hothers files "array" _ (holds_of_node rfl rfl)).1 rfl⟩
  · have hspaced : Spaced [a, " true\r", ""] [a, " true\r"] :=
      .text _ (.text _ (.blank hempty .nil))
    have hsplit : Splits [x, .bool true] [x, .bool true] := .single hx (.single htrue .nil)
    have hflat : ∀ y ∈ [x, .bool true], ∀ items, y ≠ .array items := by
      intro y hy items
      rcases List.mem_pair.1 hy with rfl | rfl
      · exact hx items
      · exact htrue items
    have hparse : Json.parse ("[" ++ ",".intercalate [a, " true\r"] ++ "]") =
        .ok (.array [x, .bool true]) := rfl
    have hholds : Holds files "pair lines" ("\n".intercalate [a, " true\r", ""]) :=
      holds_of_node rfl rfl
    obtain ⟨hlines, hothers⟩ := linewise_agrees_with_array hspaced (by decide +kernel)
      (.cons rfl (.cons rfl .nil)) hsplit hholds
    refine ⟨hlines,
      (hothers files "pair" _ (holds_of_node rfl rfl)).2 hflat rfl fun fault hfault => ?_⟩
    rw [hparse] at hfault
    cases hfault

end RecordCheck.Check
