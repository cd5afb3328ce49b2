import RecordCheck.Proofs.Check.Failing
import RecordCheck.Proofs.Files.Placing
import RecordCheck.Proofs.Filter.Items
import RecordCheck.Proofs.Json.Pointer
set_option autoImplicit false

/-!
# Check: arrays that the filter takes apart

The items of an array are records whether the array is a document or the filter of all items makes
documents of them.  Only an item that is an array itself would be taken apart once more.  Main
statement: `Inputs.items_agree_with_filter`.
-/

namespace RecordCheck.Check

/-- An array with no array among its items. -/
def FlatArray (x : Json) : Prop := ∃ items, x = .array items ∧ ∀ inner, .array inner ∉ items

theorem recordsOf_items {items : List Json} (h : ∀ inner, .array inner ∉ items) :
    items.flatMap recordsOf = items := by
  induction items with
  | nil => rfl
  | cons x items ih =>
    have hx : ∀ inner, x ≠ .array inner := fun inner hx => h inner (hx ▸ List.mem_cons_self)
    rw [List.flatMap_cons, recordsOf_of_ne_array hx, List.singleton_append,
      ih fun inner hmem => h inner (List.mem_cons_of_mem _ hmem)]

/-- The source whose documents are the records. -/
def Source.opened (s : Source) : Source := ⟨s.path, s.documents.flatMap recordsOf⟩

/-- The records of flat arrays are records of their own, under the same numbers. -/
theorem Source.decode_opened {s : Source} (h : ∀ x ∈ s.documents, FlatArray x) :
    s.opened.decode = s.decode := by
  have hsame : (s.documents.flatMap recordsOf).flatMap recordsOf =
      s.documents.flatMap recordsOf := by
    rw [List.flatMap_assoc]
    refine List.flatMap_congr fun x hx => ?_
    obtain ⟨items, rfl, hitems⟩ := h x hx
    exact recordsOf_items hitems
  rw [Source.decode, Source.decode, Source.opened, hsame]

namespace Inputs

variable {inputs : Inputs}

/-- The inputs with the filter of all items. -/
def taken (inputs : Inputs) : Inputs := { inputs with filter := some ".[]" }

/-! ## One value -/

/-- The items of a node of a value that was read are read back from their texts. -/
theorem parse_item {text path : String} {x : Json} {items : List Json}
    (hread : Json.parse text = .ok x) (hselect : inputs.select path x = .ok (.array items))
    (hnumbers : Json.NumbersReadBack (.array items)) :
    ∀ item ∈ items, Json.parse item.compact = .ok item := by
  obtain ⟨steps, hleads⟩ : ∃ steps, Json.Leads steps x (.array items) := by
    have hselects := select_eq_ok_iff.1 hselect
    unfold Selects at hselects
    split at hselects
    · exact ⟨[], hselects ▸ .here x⟩
    · exact Json.exists_leads_of_select? hselects
  intro item hitem
  obtain ⟨i, hi⟩ := List.mem_iff_getElem?.1 hitem
  have hstep : Json.Leads [.index i] (.array items) item := .index hi (.here item)
  obtain ⟨hfits, hunique⟩ := Json.fits_of_parse hread
  exact (hstep.fits (hleads.fits hfits)).parse_compact
    (hstep.unique (hleads.unique hunique)) (hstep.numbersReadBack hnumbers)

section

variable [Filter.Library]

theorem filtered_taken {items : List Json}
    (h : ∀ item ∈ items, Json.parse item.compact = .ok item) :
    inputs.taken.filtered (.array items) = .ok items := by
  simp only [filtered, taken, Filter.run_each h]
  rfl

/-! ## All values -/

theorem documents_taken (hfilter : inputs.filter = none) {path : String} {xs loaded : List Json}
    (hread : ∀ x ∈ xs, ∃ text, Json.parse text = .ok x)
    (h : inputs.documents path xs = .ok loaded)
    (hflat : ∀ x ∈ loaded, FlatArray x ∧ x.NumbersReadBack) :
    inputs.taken.documents path xs = .ok (loaded.flatMap recordsOf) := by
  induction xs generalizing loaded with
  | nil =>
    obtain rfl := Except.ok.inj h
    rfl
  | cons x xs ih =>
    obtain ⟨⟨text, hx⟩, hxs⟩ := List.forall_mem_cons.1 hread
    have hfiltered (node : Json) : inputs.filtered node = .ok [node] := by rw [filtered, hfilter]
    rw [documents] at h
    cases hselect : inputs.select path x with
    | error e => simp [hselect] at h
    | ok node =>
      simp only [hselect, hfiltered, Json.map_eq_ok_iff] at h
      obtain ⟨rest, hrest, rfl⟩ := h
      obtain ⟨⟨⟨items, rfl, -⟩, hnumbers⟩, hothers⟩ := List.forall_mem_cons.1 hflat
      have htaken : inputs.taken.select path x = .ok (.array items) := hselect
      rw [documents, htaken]
      simp only [filtered_taken (parse_item hx hselect hnumbers), ih hxs hrest hothers]
      rfl

variable {files : Files.FileSystem}

theorem source_taken (hfilter : inputs.filter = none) {path : String} {s : Source}
    (h : inputs.source files path = .ok s)
    (hflat : ∀ x ∈ s.documents, FlatArray x ∧ x.NumbersReadBack) :
    inputs.taken.source files path = .ok s.opened := by
  obtain ⟨rfl, text, htext, hdocuments⟩ := source_eq_ok_iff.1 h
  obtain ⟨xs, hvalues, hdocuments⟩ := documentsOf_eq_ok_iff.1 hdocuments
  have hread : ∀ x ∈ xs, ∃ part, Json.parse part = .ok x := fun x hx =>
    have ⟨part, _, hpart⟩ := (mem_of_writes (values_eq_ok_iff.1 hvalues) x).1 hx
    ⟨part, hpart⟩
  exact source_eq_ok_iff.2 ⟨rfl, text, htext, documentsOf_eq_ok_iff.2
    ⟨xs, hvalues, documents_taken hfilter hread hdocuments hflat⟩⟩

theorem sources_taken (hfilter : inputs.filter = none) {paths : List String}
    {sources : List Source} (h : inputs.sources files paths = .ok sources)
    (hflat : ∀ s ∈ sources, ∀ x ∈ s.documents, FlatArray x ∧ x.NumbersReadBack) :
    inputs.taken.sources files paths = .ok (sources.map Source.opened) := by
  induction paths generalizing sources with
  | nil =>
    obtain rfl := Except.ok.inj h
    rfl
  | cons path paths ih =>
    rw [Inputs.sources] at h
    cases hsource : inputs.source files path with
    | error e => simp [hsource] at h
    | ok s =>
      simp only [hsource, Json.map_eq_ok_iff] at h
      obtain ⟨rest, hrest, rfl⟩ := h
      obtain ⟨hfirst, hothers⟩ := List.forall_mem_cons.1 hflat
      rw [Inputs.sources, source_taken hfilter hsource hfirst]
      simp only [ih hrest hothers]
      rfl

/-- Inputs whose documents are arrays without arrays in them, with numbers that are read back from
their texts, have the same outcomes when the filter makes a document of each item: each with the
same source, under the same number, and with the same outcome. -/
theorem items_agree_with_filter (hfilter : inputs.filter = none) {sources : List Source}
    (hload : inputs.load files = .ok sources)
    (hflat : ∀ s ∈ sources, ∀ x ∈ s.documents, FlatArray x ∧ x.NumbersReadBack) :
    ∃ decoded, inputs.decode files = .ok decoded ∧
      { inputs with filter := some ".[]" }.decode files = .ok decoded := by
  refine ⟨sources.flatMap Source.decode, by rw [decode, hload]; rfl, ?_⟩
  have htaken : inputs.taken.load files = .ok (sources.map Source.opened) := by
    rw [load] at hload
    have hresolve : resolveAll files inputs.taken.patterns = resolveAll files inputs.patterns := rfl
    rw [load, hresolve]
    cases hpaths : resolveAll files inputs.patterns with
    | error e => simp [hpaths] at hload
    | ok paths =>
      simp only [hpaths] at hload
      exact sources_taken hfilter hload hflat
  have hsame : (sources.map Source.opened).flatMap Source.decode =
      sources.flatMap Source.decode := by
    rw [List.flatMap_map]
    exact List.flatMap_congr fun s hs => Source.decode_opened fun x hx => (hflat s hs x hx).1
  show inputs.taken.decode files = _
  rw [decode, htaken, Except.map, hsame]

end

/-- Of three lines one is blank, and of the others the pointer selects an array without items and
one with an object, an integer and a text. -/
theorem items_agree_with_filter_lines :
    let inputs : Inputs := ⟨["data"], true, some "/r", none⟩
    let second := "\x7b\"r\": [\x7b\"b\": 1, \"a\": null\x7d, -7, \"\"]\x7d"
    let text := "\x7b\"r\": []\x7d\n\n" ++ second ++ "\n"
    let files : Files.FileSystem := ⟨.directory [("data", .file (Json.bytesOf text))], [], []⟩
    ∃ decoded, inputs.decode files = .ok decoded ∧
      { inputs with filter := some ".[]" }.decode files = .ok decoded ∧ decoded.length = 3 := by
  intro inputs second text files
  let items : List Json :=
    [.object [("b", .integer 1), ("a", .null)], .integer (-7), .text ""]
  have hlines : (Text.lines text.toList).filter (fun line => !(Text.trim line).isEmpty) =
      ["\x7b\"r\": []\x7d".toList, second.toList] := by decide +kernel
  have hvalues : inputs.values "data" text =
      .ok [.object [("r", .array [])], .object [("r", .array items)]] := by
    have hfirst : Json.parse "\x7b\"r\": []\x7d" = .ok (.object [("r", .array [])]) := rfl
    have hsecond : Json.parse second = .ok (.object [("r", .array items)]) := rfl
    rw [values_eq_ok_iff, Writes, if_pos rfl, hlines]
    rw [← @String.ofList_toList second] at hsecond
    exact .cons hfirst (.cons hsecond .nil)
  have hload : inputs.load files = .ok [⟨"data", [.array [], .array items]⟩] := by
    have hread : files.read "data" = .ok text := Files.read_of_node rfl
    refine load_eq_singleton_iff.2 ⟨rfl, text, hread, ?_⟩
    rw [documentsOf, hvalues]
    rfl
  have hnumbers : Json.NumbersReadBack (.array items) :=
    .array (List.forall_mem_cons.2 ⟨.object (List.forall_mem_cons.2 ⟨.integer rfl,
      List.forall_mem_singleton.2 .null⟩), List.forall_mem_cons.2 ⟨.integer rfl,
        List.forall_mem_singleton.2 (.text "")⟩⟩)
  have hflat : ∀ inner, Json.array inner ∉ items := by simp [items]
  obtain ⟨decoded, hplain, hfiltered⟩ := @items_agree_with_filter inputs _ files rfl _ hload
    (List.forall_mem_singleton.2 (List.forall_mem_cons.2
      ⟨⟨⟨[], rfl, fun _ => List.not_mem_nil⟩, .array (List.forall_mem_nil _)⟩,
        List.forall_mem_singleton.2 ⟨⟨items, rfl, hflat⟩, hnumbers⟩⟩))
  refine ⟨decoded, hplain, hfiltered, ?_⟩
  rw [decode, hload] at hplain
  rw [← Except.ok.inj hplain]
  rfl

end Inputs
end RecordCheck.Check
