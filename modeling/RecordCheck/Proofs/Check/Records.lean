import RecordCheck.Check.Report
import RecordCheck.Filter.Named
import RecordCheck.Proofs.Check.Resolving
import RecordCheck.Proofs.Json.Whole
set_option autoImplicit false

/-!
# Check: every record, once and in order

A step of loading either fails or has an outcome for each thing it is given, in order: each pattern
has its paths, each line its value, each value its documents.  So what comes of a source is known
record by record (`Reported`), and what comes of the inputs source by source
(`Inputs.decode_keeps_records`).
-/

namespace RecordCheck.Check

/-- The records of documents: the items of each array, none of which is opened, and each document
that is no array. -/
inductive Splits : List Json → List Json → Prop
  | nil : Splits [] []
  | array (items : List Json) {documents records : List Json} (rest : Splits documents records) :
      Splits (.array items :: documents) (items ++ records)
  | single {x : Json} (hx : ∀ items, x ≠ .array items) {documents records : List Json}
      (rest : Splits documents records) : Splits (x :: documents) (x :: records)

theorem splits_recordsOf (documents : List Json) :
    Splits documents (documents.flatMap recordsOf) := by
  induction documents with
  | nil => exact .nil
  | cons x documents ih =>
    rw [List.flatMap_cons]
    cases x with
    | array items => exact ih.array items
    | null | bool _ | integer _ | float _ | text _ | object _ => exact ih.single (by simp)

theorem recordsOf_of_ne_array {x : Json} (h : ∀ items, x ≠ .array items) : recordsOf x = [x] := by
  cases x with
  | array items => exact absurd rfl (h items)
  | null | bool _ | integer _ | float _ | text _ | object _ => rfl

theorem Splits.eq_flatMap {documents records : List Json} (h : Splits documents records) :
    records = documents.flatMap recordsOf := by
  induction h with
  | nil => rfl
  | array items _ ih => rw [List.flatMap_cons, ih, recordsOf]
  | single hx _ ih => rw [List.flatMap_cons, ih, recordsOf_of_ne_array hx, List.singleton_append]

/-! ## Numbered outcomes -/

@[simp] theorem length_decodeFrom (source : String) (index : Nat) (records : List Json) :
    (decodeFrom source index records).length = records.length := by
  induction records generalizing index with
  | nil => rfl
  | cons x records ih => simp [decodeFrom, ih]

theorem getElem?_decodeFrom (source : String) (index : Nat) (records : List Json) (i : Nat) :
    (decodeFrom source index records)[i]? =
      records[i]?.map fun x => ⟨source, index + i, Decode.record x⟩ := by
  induction records generalizing index i with
  | nil => rfl
  | cons x records ih =>
    cases i with
    | zero => rfl
    | succ i => simp [decodeFrom, ih, Nat.add_assoc, Nat.add_comm 1]

/-- The outcomes are those of the records of the source, each of which is decoded by itself and has
the number of its place. -/
structure Reported (s : Source) (records : List Json) (outcomes : List Decoded) : Prop where
  split : Splits s.documents records
  length : outcomes.length = records.length
  each : ∀ (i : Nat) (x : Json), records[i]? = some x →
    outcomes[i]? = some ⟨s.path, i, Decode.record x⟩

theorem Source.reported (s : Source) :
    Reported s (s.documents.flatMap recordsOf) s.decode where
  split := splits_recordsOf s.documents
  length := length_decodeFrom ..
  each i x hx := by rw [Source.decode, getElem?_decodeFrom, hx, Option.map_some, Nat.zero_add]

/-! ## Numbers of outcomes -/

/-- A record passed if it could be decoded. -/
def Decoded.passed (d : Decoded) : Bool := d.outcome.isOk

theorem Decoded.passed_iff {d : Decoded} : d.passed = true ↔ ∃ r, d.outcome = .ok r := by
  rw [passed]
  cases d.outcome with
  | error e => exact iff_of_false nofun nofun
  | ok r => exact iff_of_true rfl ⟨r, rfl⟩

theorem Decoded.isSome_record? (d : Decoded) : d.record?.isSome = d.passed := by
  rw [passed, record?]
  cases d.outcome with
  | error e => rfl
  | ok r => rfl

theorem length_records (decoded : List Decoded) :
    (decoded.filterMap Decoded.record?).length = decoded.countP Decoded.passed := by
  rw [List.length_filterMap_eq_countP]
  simp only [Decoded.isSome_record?]

theorem Summary.count_eq (s : Summary) (d : Decoded) :
    s.count d = if d.passed then ⟨s.passed + 1, s.failed⟩ else ⟨s.passed, s.failed + 1⟩ := by
  unfold count Decoded.passed
  cases d.outcome with
  | error e => rfl
  | ok r => rfl

/-- Counting goes on from the numbers that are there. -/
theorem Summary.foldl_count (s : Summary) (decoded : List Decoded) :
    decoded.foldl Summary.count s = ⟨s.passed + decoded.countP Decoded.passed,
      s.failed + decoded.countP fun d => !d.passed⟩ := by
  induction decoded generalizing s with
  | nil => rfl
  | cons d decoded ih =>
    rw [List.foldl_cons, ih, count_eq, List.countP_cons, List.countP_cons]
    cases d.passed with
    | false => simp [Nat.add_comm 1, Nat.add_assoc]
    | true => simp [Nat.add_comm 1, Nat.add_assoc]

/-- The numbers are those of the outcomes of either kind. -/
theorem Summary.ofDecoded_eq (decoded : List Decoded) :
    Summary.ofDecoded decoded =
      ⟨decoded.countP Decoded.passed, decoded.countP fun d => !d.passed⟩ := by
  rw [ofDecoded, foldl_count, Nat.zero_add, Nat.zero_add]

/-- Where every outcome is a record, all are counted as passed. -/
theorem Summary.ofDecoded_of_passed {decoded : List Decoded}
    (h : (decoded.filterMap Decoded.record?).length = decoded.length) :
    Summary.ofDecoded decoded = ⟨decoded.length, 0⟩ := by
  rw [length_records] at h
  rw [ofDecoded_eq, h, Summary.mk.injEq, List.countP_eq_zero]
  refine ⟨rfl, fun d hd => ?_⟩
  simp [List.countP_eq_length.1 h d hd]

/-! ## What is loaded -/

/-- The values that a text writes: one on each line that is not blank, or one. -/
def Inputs.Writes (inputs : Inputs) (text : String) (xs : List Json) : Prop :=
  if inputs.linewise then
    List.Forall₂ (fun line x => Json.parse (String.ofList line) = .ok x)
      ((Text.lines text.toList).filter fun line => !(Text.trim line).isEmpty) xs
  else ∃ x, Json.parse text = .ok x ∧ xs = [x]

theorem parseText_eq_ok_iff {path : String} {line : Option Nat} {text : String} {x : Json} :
    parseText path line text = .ok x ↔ Json.parse text = .ok x := by
  unfold parseText Json.parse
  cases hread : Json.ofBytes (Json.bytesOf text) <;> simp [hread]

theorem map_numberedLines (number : Nat) (lines : List (List Char)) :
    (numberedLines number lines).map Prod.snd =
      (lines.filter fun line => !(Text.trim line).isEmpty).map String.ofList := by
  induction lines generalizing number with
  | nil => rfl
  | cons line lines ih =>
    rw [numberedLines]
    split_ifs with hblank
    · simp [hblank, ih]
    · simp [hblank, ih]

/-- The values of lines are known without their numbers. -/
theorem parseLines_eq_ok_iff {path : String} {lines : List (Nat × String)} {xs : List Json} :
    parseLines path lines = .ok xs ↔
      List.Forall₂ (fun line x => Json.parse line = .ok x) (lines.map Prod.snd) xs := by
  induction lines generalizing xs with
  | nil => simp [parseLines, eq_comm]
  | cons line lines ih =>
    obtain ⟨number, line⟩ := line
    rw [parseLines, List.map_cons, List.forall₂_cons_left_iff]
    cases hparse : parseText path (some number) line with
    | error e =>
      have hfails (x : Json) : Json.parse line ≠ .ok x := fun hx => by
        rw [parseText_eq_ok_iff.2 hx] at hparse
        cases hparse
      simp [hfails]
    | ok x =>
      simp only [parseText_eq_ok_iff.1 hparse, Json.map_eq_ok_iff, ih, Except.ok.injEq]
      constructor
      · rintro ⟨rest, hrest, rfl⟩
        exact ⟨x, rest, rfl, hrest, rfl⟩
      · rintro ⟨_, rest, rfl, hrest, rfl⟩
        exact ⟨rest, hrest, rfl⟩

/-- The values of a text are those that it writes. -/
theorem Inputs.values_eq_ok_iff {inputs : Inputs} {path text : String} {xs : List Json} :
    inputs.values path text = .ok xs ↔ inputs.Writes text xs := by
  unfold values Writes
  split_ifs
  · rw [parseLines_eq_ok_iff, map_numberedLines, List.forall₂_map_left_iff]
  · simp only [Json.map_eq_ok_iff, parseText_eq_ok_iff, @eq_comm _ xs]

section

variable [Filter.Library]

/-- The documents that are made of a value: what the filter makes of the node that the pointer
selects. -/
def Inputs.Makes (inputs : Inputs) (path : String) (x : Json) (made : List Json) : Prop :=
  ∃ node, inputs.select path x = .ok node ∧ inputs.filtered node = .ok made

/-- The documents of a source are all those of the values of the file at its path, in order. -/
def Source.IsOf (inputs : Inputs) (files : Files.FileSystem) (s : Source) : Prop :=
  ∃ text xs made, files.read s.path = .ok text ∧ inputs.Writes text xs ∧
    List.Forall₂ (inputs.Makes s.path) xs made ∧ s.documents = made.flatten

theorem Inputs.makes_of_documents {inputs : Inputs} {path : String} {xs documents : List Json}
    (h : inputs.documents path xs = .ok documents) :
    ∃ made, List.Forall₂ (inputs.Makes path) xs made ∧ documents = made.flatten := by
  induction xs generalizing documents with
  | nil =>
    obtain rfl := Except.ok.inj h
    exact ⟨[], .nil, rfl⟩
  | cons x xs ih =>
    unfold Inputs.documents at h
    split at h
    · cases h
    next node hnode =>
      split at h
      · cases h
      next first hfirst =>
        obtain ⟨rest, hrest, rfl⟩ := Json.map_eq_ok_iff.1 h
        obtain ⟨made, hmade, rfl⟩ := ih hrest
        exact ⟨first :: made, .cons ⟨node, hnode, hfirst⟩ hmade, rfl⟩

theorem Inputs.documentsOf_eq_ok_iff {inputs : Inputs} {path text : String}
    {documents : List Json} :
    inputs.documentsOf path text = .ok documents ↔
      ∃ xs, inputs.values path text = .ok xs ∧ inputs.documents path xs = .ok documents := by
  rw [documentsOf]
  cases inputs.values path text with
  | error e => simp
  | ok xs => simp

theorem Inputs.source_eq_ok_iff {inputs : Inputs} {files : Files.FileSystem} {path : String}
    {s : Source} : inputs.source files path = .ok s ↔ s.path = path ∧
      ∃ text, files.read path = .ok text ∧ inputs.documentsOf path text = .ok s.documents := by
  unfold source
  cases hread : files.read path with
  | error e => exact iff_of_false nofun fun ⟨_, _, h, _⟩ => nomatch h
  | ok text =>
    simp only [Json.map_eq_ok_iff]
    constructor
    · rintro ⟨documents, hdocuments, rfl⟩
      exact ⟨rfl, text, rfl, hdocuments⟩
    · rintro ⟨rfl, text', htext, hdocuments⟩
      obtain rfl := Except.ok.inj htext
      exact ⟨s.documents, hdocuments, rfl⟩

theorem Inputs.isOf_source {inputs : Inputs} {files : Files.FileSystem} {path : String} {s : Source}
    (h : inputs.source files path = .ok s) : s.path = path ∧ s.IsOf inputs files := by
  obtain ⟨rfl, text, htext, hdocuments⟩ := source_eq_ok_iff.1 h
  obtain ⟨xs, hxs, hall⟩ := documentsOf_eq_ok_iff.1 hdocuments
  obtain ⟨made, hmade, hall⟩ := makes_of_documents hall
  exact ⟨rfl, text, xs, made, htext, values_eq_ok_iff.1 hxs, hmade, hall⟩

theorem Inputs.isOf_sources {inputs : Inputs} {files : Files.FileSystem} {paths : List String}
    {sources : List Source} (h : inputs.sources files paths = .ok sources) :
    sources.map Source.path = paths ∧ ∀ s ∈ sources, s.IsOf inputs files := by
  induction paths generalizing sources with
  | nil =>
    obtain rfl := Except.ok.inj h
    exact ⟨rfl, nofun⟩
  | cons path paths ih =>
    unfold Inputs.sources at h
    split at h
    · cases h
    next s hs =>
      obtain ⟨rest, hrest, rfl⟩ := Json.map_eq_ok_iff.1 h
      obtain ⟨rfl, hfirst⟩ := isOf_source hs
      obtain ⟨rfl, hothers⟩ := ih hrest
      exact ⟨rfl, List.forall_mem_cons.2 ⟨hfirst, hothers⟩⟩

/-! ## One file -/

/-- Loading gives one source exactly if there is one path, whose file has the documents. -/
theorem Inputs.load_eq_singleton_iff {inputs : Inputs} {files : Files.FileSystem} {s : Source} :
    inputs.load files = .ok [s] ↔
      resolveAll files inputs.patterns = .ok [s.path] ∧ ∃ text, files.read s.path = .ok text ∧
        inputs.documentsOf s.path text = .ok s.documents := by
  constructor
  · intro h
    unfold load at h
    split at h
    · cases h
    next paths hpaths =>
      obtain ⟨rfl, -⟩ := isOf_sources h
      rw [List.map_singleton, Inputs.sources] at h
      split at h
      · cases h
      next s' hs =>
        obtain ⟨rest, -, hsources⟩ := Json.map_eq_ok_iff.1 h
        obtain ⟨rfl, -⟩ := List.cons.inj hsources
        exact ⟨hpaths, (source_eq_ok_iff.1 hs).2⟩
  · rintro ⟨hresolve, hdocuments⟩
    rw [Inputs.load, hresolve]
    simp only [Inputs.sources, source_eq_ok_iff.2 ⟨rfl, hdocuments⟩]
    rfl

/-- Without pointer and filter each value is a document. -/
theorem Inputs.documents_plain {inputs : Inputs} (hpointer : inputs.pointer = none)
    (hfilter : inputs.filter = none) (path : String) (xs : List Json) :
    inputs.documents path xs = .ok xs := by
  induction xs with
  | nil => rfl
  | cons x xs ih =>
    have hselect : inputs.select path x = .ok x := by rw [Inputs.select, hpointer]
    have hfiltered : inputs.filtered x = .ok [x] := by rw [Inputs.filtered, hfilter]
    rw [Inputs.documents, hselect]
    simp only [hfiltered, ih]
    rfl

theorem Inputs.documentsOf_plain {inputs : Inputs} (hpointer : inputs.pointer = none)
    (hfilter : inputs.filter = none) (path text : String) :
    inputs.documentsOf path text = inputs.values path text := by
  rw [Inputs.documentsOf]
  cases inputs.values path text with
  | error e => rfl
  | ok xs => exact documents_plain hpointer hfilter path xs

/-- Without pointer and filter the outcomes for a file are those of the records of its values. -/
theorem Inputs.decode_of_values {inputs : Inputs} (hpointer : inputs.pointer = none)
    (hfilter : inputs.filter = none) {files : Files.FileSystem} {input path text : String}
    {xs : List Json} (hinput : inputs.patterns = [input])
    (hresolve : resolve files input = .ok [path]) (hread : files.read path = .ok text)
    (hvalues : inputs.values path text = .ok xs) :
    inputs.decode files = .ok (decodeFrom path 0 (xs.flatMap recordsOf)) := by
  have hload : inputs.load files = .ok [⟨path, xs⟩] := by
    rw [Inputs.load_eq_singleton_iff, hinput, resolveAll_singleton]
    exact ⟨hresolve, text, hread,
      (Inputs.documentsOf_plain hpointer hfilter path text).trans hvalues⟩
  rw [Inputs.decode, hload]
  simp [Except.map, Source.decode]

/-! ## All inputs -/

/-- Where the inputs can be loaded, there is a source for each of their paths, in order, with all
the documents of its file; and an outcome for each record of each source, numbered by its place
there, which depends on that record alone. -/
theorem Inputs.decode_keeps_records {inputs : Inputs} {files : Files.FileSystem}
    {sources : List Source} (h : inputs.load files = .ok sources) :
    resolveAll files inputs.patterns = .ok (sources.map Source.path) ∧
    (∀ s ∈ sources, s.IsOf inputs files) ∧
    ∃ outcomes : List (List Decoded), inputs.decode files = .ok outcomes.flatten ∧
      List.Forall₂ (fun s block => ∃ records, Reported s records block) sources outcomes := by
  refine and_assoc.1 ⟨?_, sources.map Source.decode, ?_, ?_⟩
  · unfold load at h
    split at h
    · cases h
    next paths hpaths =>
      obtain ⟨rfl, hsources⟩ := isOf_sources h
      exact ⟨hpaths, hsources⟩
  · rw [Inputs.decode, h, Except.map, List.flatMap_def]
  · exact List.forall₂_map_right_iff.2 (List.forall₂_same.2 fun s _ => ⟨_, s.reported⟩)

end

/-- A file with three lines that is named twice: of each source two records are items of the first
document, one is the second, and the third has none. -/
theorem decode_keeps_records_twice :
    let inputs : Inputs := ⟨["data", "data"], true, some "/r", none⟩
    let text := "\x7b\"r\": [7, [8]]\x7d\n\n\x7b\"r\": true\x7d\n\x7b\"r\": []\x7d\n"
    let files : Files.FileSystem := ⟨.directory [("data", .file (Json.bytesOf text))], [], []⟩
    ∃ sources, inputs.load files = .ok sources ∧ sources.map Source.path = ["data", "data"] ∧
      (∀ s ∈ sources, s.IsOf inputs files) ∧
      ∃ outcomes : List (List Decoded), inputs.decode files = .ok outcomes.flatten ∧
        List.Forall₂ (fun s block => ∃ records, Reported s records block) sources outcomes ∧
        outcomes.flatten.map (fun d => (d.source, d.index)) =
          [("data", 0), ("data", 1), ("data", 2), ("data", 0), ("data", 1), ("data", 2)] := by
  intro inputs text files
  have hload : (inputs.load files).isOk = true := by decide +kernel
  have hpaths : (resolveAll files inputs.patterns).toOption = some ["data", "data"] := by
    decide +kernel
  obtain ⟨sources, h⟩ : ∃ sources, inputs.load files = .ok sources := by
    cases hcase : inputs.load files with
    | ok sources => exact ⟨sources, rfl⟩
    | error e => simp [hcase, Except.isOk, Except.toBool] at hload
  obtain ⟨hresolve, hsources, outcomes, hdecode, hreported⟩ := Inputs.decode_keeps_records h
  have hnumbers : (inputs.decode files).toOption.map
      (fun decoded => decoded.map fun d => (d.source, d.index)) = some
        [("data", 0), ("data", 1), ("data", 2), ("data", 0), ("data", 1), ("data", 2)] := by
    decide +kernel
  rw [hresolve] at hpaths
  rw [hdecode] at hnumbers
  exact ⟨sources, h, Option.some.inj hpaths, hsources, outcomes, hdecode, hreported,
    Option.some.inj hnumbers⟩

end RecordCheck.Check
