import RecordCheck.Proofs.Check.Normalize
import RecordCheck.Proofs.Filter.Selection
import RecordCheck.Proofs.Text.Lines
set_option autoImplicit false

/-!
# Check: selecting a node

A node of a document can be selected by the pointer or by the filter of the path that leads to it.
Main statement: both give the node unchanged as the single document
(`Inputs.pointer_agrees_with_filter`).
-/

namespace RecordCheck.Check

open Json (Leads)

/-! ## The text of a document -/

/-- A document that is alone in a file is read from the text of the file, or from a line of it. -/
theorem Inputs.exists_text {inputs : Inputs} {path text : String} {v : Json}
    (h : inputs.values path text = .ok [v]) :
    ∃ part, Json.parse part = .ok v ∧
      (Json.bytesOf part).length ≤ (Json.bytesOf text).length := by
  have hwrites := Inputs.values_eq_ok_iff.1 h
  unfold Inputs.Writes at hwrites
  split_ifs at hwrites
  · obtain ⟨line, lines, hline, -, hlines⟩ := List.forall₂_cons_right_iff.1 hwrites
    refine ⟨String.ofList line, hline, ?_⟩
    have hmem : line ∈ Text.lines text.toList :=
      List.mem_of_mem_filter (hlines ▸ List.mem_cons_self)
    rw [Text.bytesOf_ofList, Text.bytesOf_eq]
    exact ((Text.sublist_of_mem_lines hmem).flatMap _).length_le
  · obtain ⟨x, hx, hv⟩ := hwrites
    obtain rfl := List.singleton_inj.1 hv
    exact ⟨text, hx, Nat.le_refl _⟩

/-! ## Selection -/

/-- Where a pointer and a filter together make one node of the one document, it is what is
loaded. -/
theorem Inputs.load_selected [Filter.Library] {inputs selecting : Inputs}
    {files : Files.FileSystem} {path : String} {v node : Json} (hpointer : inputs.pointer = none)
    (hfilter : inputs.filter = none)
    (hload : inputs.load files = .ok [⟨path, [v]⟩])
    (hpatterns : selecting.patterns = inputs.patterns)
    (hlinewise : selecting.linewise = inputs.linewise)
    (hmakes : selecting.Makes path v [node]) :
    selecting.load files = .ok [⟨path, [node]⟩] := by
  obtain ⟨hresolve, text, hread, hdocuments⟩ := Inputs.load_eq_singleton_iff.1 hload
  rw [Inputs.documentsOf_plain hpointer hfilter] at hdocuments
  obtain ⟨x, hselect, hfiltered⟩ := hmakes
  refine Inputs.load_eq_singleton_iff.2 ⟨hpatterns ▸ hresolve, text, hread, ?_⟩
  have hvalues : selecting.values path text = .ok [v] := by
    rw [← hdocuments, Inputs.values, hlinewise]
    rfl
  rw [Inputs.documentsOf, hvalues]
  simp only [Inputs.documents, hselect, hfiltered]
  rfl

/-- Of inputs that hold a single document, the pointer of a path and the filter of that path select
the same: the node that the path leads to, unchanged.  The numbers of the document are read back
from their texts, and a text is shorter than `2 ^ 63` bytes, as all that memory can hold. -/
theorem Inputs.pointer_agrees_with_filter [Filter.Library] {inputs : Inputs}
    {files : Files.FileSystem} {path : String} {v node : Json} {steps : Json.Path}
    (hpointer : inputs.pointer = none) (hfilter : inputs.filter = none)
    (hload : inputs.load files = .ok [⟨path, [v]⟩])
    (hsize : ∀ text, files.read path = .ok text → text.utf8ByteSize < twoTo 63)
    (hnumbers : v.NumbersReadBack) (hleads : Leads steps v node) :
    { inputs with pointer := some steps.pointer }.load files = .ok [⟨path, [node]⟩] ∧
      { inputs with filter := some steps.filter }.load files = .ok [⟨path, [node]⟩] := by
  obtain ⟨part, hpart, hsmall⟩ : ∃ part, Json.parse part = .ok v ∧
      (Json.bytesOf part).length < twoTo 63 := by
    obtain ⟨-, text, hread, hdocuments⟩ := Inputs.load_eq_singleton_iff.1 hload
    rw [Inputs.documentsOf_plain hpointer hfilter] at hdocuments
    obtain ⟨part, hpart, hle⟩ := Inputs.exists_text hdocuments
    exact ⟨part, hpart, hle.trans_lt (hsize text hread)⟩
  obtain ⟨hfits, -⟩ := Json.fits_of_parse hpart
  have hindex : ∀ i, .index i ∈ steps → i < twoTo 63 := fun i hi =>
    (hleads.index_lt hfits i hi).trans hsmall
  constructor
  · refine Inputs.load_selected hpointer hfilter hload rfl rfl ⟨node, ?_, ?_⟩
    · have hselect := hleads.select?_pointer fun i hi => (hindex i hi).trans (by decide)
      simp only [Inputs.select, hselect]
    · rw [Inputs.filtered, hfilter]
  · refine Inputs.load_selected hpointer hfilter hload rfl rfl ⟨v, ?_, ?_⟩
    · rw [Inputs.select, hpointer]
    · have hrun := Filter.run_filter hleads hindex (hleads.parse_compact hpart hnumbers)
      simp only [Inputs.filtered, hrun]
      rfl

/-- A name with both signs of pointers, a quote and a control character in it, an item, and a name
that is a number lead to an array with an integer of 64 bits and a double. -/
theorem pointer_agrees_with_filter_signs :
    let node : Json := .array [.integer 18446744073709551615, .float 0.1]
    let v : Json := .object [("a/b~\"\x01", .array [.null, .object [("1", node)]]),
      ("1", .bool true)]
    let steps : Json.Path := [.member "a/b~\"\x01", .index 1, .member "1"]
    let inputs : Inputs := ⟨["data"], false, none, none⟩
    let files : Files.FileSystem :=
      ⟨.directory [("data", .file (Json.bytesOf v.compact))], [], []⟩
    steps.pointer = "/a~1b~0\"\x01/1/1" ∧
    steps.filter = ".[\"a/b~\\\"\\u0001\"][1][\"1\"]" ∧
    { inputs with pointer := some steps.pointer }.load files = .ok [⟨"data", [node]⟩] ∧
    { inputs with filter := some steps.filter }.load files = .ok [⟨"data", [node]⟩] := by
  intro node v steps inputs files
  have hdouble : Json.parse (Json.compact (.float 0.1)) = .ok (.float 0.1) := by
    rw [Json.compact_float, Json.parse_floatText, Json.readFloat_eq_float_iff]
    decide +kernel
  have hinteger : Json.parse (Json.compact (.integer 18446744073709551615)) =
      .ok (.integer 18446744073709551615) :=
    Json.parse_compact ((Json.RereadsFlat.integer (by decide) (by decide)).rereads _) (.integer _)
  have hnumbers : v.NumbersReadBack := by
    have hnode : node.NumbersReadBack := .array (List.forall_mem_cons.2
      ⟨.integer hinteger, List.forall_mem_singleton.2 (.float hdouble)⟩)
    have hinner : Json.NumbersReadBack (.object [("1", node)]) :=
      .object (List.forall_mem_singleton.2 hnode)
    exact .object (List.forall_mem_cons.2 ⟨.array (List.forall_mem_cons.2
      ⟨.null, List.forall_mem_singleton.2 hinner⟩), List.forall_mem_singleton.2 (.bool true)⟩)
  have hfits : Json.Fits 2 (123 + 4) v := by
    have hnode : Json.Fits 2 (123 + 1) node := .array (Nat.le_refl 2) (List.forall_mem_cons.2
      ⟨.scalar (.integer (by decide) (by decide)),
        List.forall_mem_singleton.2 (.scalar (.float _))⟩)
    have hinner : Json.Fits 2 (123 + 2) (.object [("1", node)]) :=
      .object (List.forall_mem_singleton.2 hnode)
    exact .object (List.forall_mem_cons.2 ⟨.array (Nat.le_refl 2) (List.forall_mem_cons.2
      ⟨.scalar .null, List.forall_mem_singleton.2 hinner⟩),
        List.forall_mem_singleton.2 (.scalar (.bool true))⟩)
  have hunique : Json.Unique v := by
    have hnode : Json.Unique node := .array (List.forall_mem_cons.2
      ⟨.integer _, List.forall_mem_singleton.2 (.float _)⟩)
    have hinner : Json.Unique (.object [("1", node)]) :=
      .object (List.nodup_singleton _) (List.forall_mem_singleton.2 hnode)
    exact .object (by decide) (List.forall_mem_cons.2 ⟨.array (List.forall_mem_cons.2
      ⟨.null, List.forall_mem_singleton.2 hinner⟩), List.forall_mem_singleton.2 (.bool true)⟩)
  have hparse : Json.parse v.compact = .ok v := hfits.parse_compact hunique hnumbers
  have hread : files.read "data" = .ok v.compact := Files.read_of_node rfl
  have hload : inputs.load files = .ok [⟨"data", [v]⟩] := by
    refine Inputs.load_eq_singleton_iff.2 ⟨rfl, v.compact, hread, ?_⟩
    rw [Inputs.documentsOf_plain rfl rfl, Inputs.values, parseText_eq_ok_iff.2 hparse]
    rfl
  have hsize : ∀ text, files.read "data" = .ok text → text.utf8ByteSize < twoTo 63 := by
    intro text htext
    obtain rfl := Except.ok.inj (hread.symm.trans htext)
    decide +kernel
  have hleads : Leads steps v node := .member rfl (.index rfl (.member rfl (.here node)))
  exact ⟨by decide +kernel, by decide +kernel,
    Inputs.pointer_agrees_with_filter rfl rfl hload hsize hnumbers hleads⟩

end RecordCheck.Check
