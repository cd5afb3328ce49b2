import RecordCheck.Proofs.Check.Records
set_option autoImplicit false

/-!
# Check: when inputs cannot be loaded

One failure fails all, wherever it stands and whatever succeeded before it: a pattern that is none
or finds nothing or a directory that cannot be listed, a file that cannot be read, a part of it that
is not JSON or of which the pointer selects nothing or the filter fails, be it at its last output.
Main statement: `Inputs.failsToLoad_iff`.
-/

namespace RecordCheck

/-! ## Failed results -/

/-- The result is an error. -/
def Failed {ε α : Type} (result : Except ε α) : Prop := ∃ e, result = .error e

section

variable {ε α β γ : Type}

@[simp] theorem failed_error (e : ε) : Failed (.error e : Except ε α) := ⟨e, rfl⟩

@[simp] theorem not_failed_ok (a : α) : ¬Failed (.ok a : Except ε α) := nofun

@[simp] theorem failed_map {result : Except ε α} {f : α → β} :
    Failed (result.map f) ↔ Failed result := by
  cases result with
  | error e => simp [Except.map]
  | ok a => simp [Except.map]

theorem failed_bind {result : Except ε α} {f : α → Except ε β} :
    Failed (result.bind f) ↔ Failed result ∨ ∃ a, result = .ok a ∧ Failed (f a) := by
  cases result with
  | error e => simp [Except.bind]
  | ok a => simp [Except.bind]

theorem exists_ok_of_any {result : Except ε α} {p : α → Bool}
    (h : result.toOption.any p = true) : ∃ a, result = .ok a ∧ p a = true := by
  cases result with
  | error e => exact nomatch h
  | ok a => exact ⟨a, rfl, h⟩

/-- A traversal that stops at the first error fails if one of its steps does. -/
theorem failed_iff_of_steps (traverse : List α → Except ε γ) (step : α → Except ε β)
    (join : β → γ → γ) {start : γ} (hnil : traverse [] = .ok start)
    (hcons : ∀ a rest, traverse (a :: rest) =
      (step a).bind fun b => (traverse rest).map (join b)) (l : List α) :
    Failed (traverse l) ↔ ∃ a ∈ l, Failed (step a) := by
  induction l with
  | nil => simp [hnil]
  | cons a l ih =>
    rw [hcons, failed_bind, List.exists_mem_cons_iff, ← ih]
    cases step a with
    | error e => simp
    | ok b => simp

end

/-! ## Filters -/

namespace Filter

/-- Some output is no document: the filter was stopped there, or what it writes is not JSON. -/
inductive Results.Spoilt : Results Value → Prop
  | stopped (s : Stop) (rest : Unit → Results Value) : Spoilt (.item (.error s) rest)
  | notJson {v : Value} (h : Failed (document v)) (rest : Unit → Results Value) :
      Spoilt (.item (.ok v) rest)
  | later (head : Except Stop Value) {rest : Unit → Results Value} (h : (rest ()).Spoilt) :
      Spoilt (.item head rest)

theorem failed_documents_iff {read : List Json} {outputs : Results Value} :
    Failed (documents read outputs) ↔ outputs.Spoilt := by
  induction outputs generalizing read with
  | done => exact iff_of_false (not_failed_ok _) nofun
  | item head rest ih =>
    cases head with
    | error s => exact iff_of_true (failed_error _) (.stopped s rest)
    | ok v =>
      rw [documents]
      cases hdocument : document v with
      | error failure =>
        exact iff_of_true (failed_error _) (.notJson (hdocument ▸ failed_error failure) rest)
      | ok x =>
        refine (ih ()).trans ⟨.later _, fun h => ?_⟩
        cases h with
        | notJson h _ => exact absurd (hdocument ▸ h) (not_failed_ok x)
        | later _ h => exact h

variable [Library]

/-- The filter makes no documents of the value: it is no filter, or some output is no document,
whatever the outputs before it are. -/
inductive Fails (text : String) (x : Json) : Prop
  | notCompiled (h : Failed (compile text))
  | spoilt {t : Term} (compiled : compile text = .ok t)
      (h : (eval depthLimit Prelude.scope t (Value.ofJson x)).Spoilt)

theorem fails_iff {text : String} {x : Json} : Fails text x ↔ Failed (run text x) := by
  rw [run]
  cases hcompile : compile text with
  | error failure => exact iff_of_true (.notCompiled (hcompile ▸ failed_error _)) (failed_error _)
  | ok t =>
    refine Iff.trans ⟨fun h => ?_, .spoilt hcompile⟩ failed_documents_iff.symm
    cases h with
    | notCompiled h => exact absurd (hcompile ▸ h) (not_failed_ok t)
    | spoilt compiled h =>
      obtain rfl := Except.ok.inj (hcompile.symm.trans compiled)
      exact h

end Filter

namespace Check

/-! ## What is loaded -/

/-- The part of a text that is one JSON text: the whole, or a line that is not blank. -/
def Inputs.IsPart (inputs : Inputs) (text part : String) : Prop :=
  if inputs.linewise then ∃ line ∈ Text.lines text.toList,
    (Text.trim line).isEmpty = false ∧ String.ofList line = part
  else text = part

/-- The node of a value of which documents are made. -/
def Inputs.Selects (inputs : Inputs) (x node : Json) : Prop :=
  match inputs.pointer with
  | none => x = node
  | some pointer => x.select? pointer = some node

/-- The path is among those that the patterns stand for. -/
def Inputs.Names (inputs : Inputs) (files : Files.FileSystem) (path : String) : Prop :=
  ∃ text ∈ inputs.patterns, ∃ paths, resolve files text = .ok paths ∧ path ∈ paths

/-- No documents are made of the part of a text. -/
inductive Inputs.PartFails [Filter.Library] (inputs : Inputs) (part : String) : Prop
  | notJson (h : Failed (Json.parse part))
  | nothingSelected {x : Json} {pointer : String} (value : Json.parse part = .ok x)
      (given : inputs.pointer = some pointer) (h : x.select? pointer = none)
  | filter {x node : Json} {filter : String} (value : Json.parse part = .ok x)
      (selected : inputs.Selects x node) (given : inputs.filter = some filter)
      (h : Filter.Fails filter node)

/-- Something fails on the way to the documents. -/
inductive Inputs.FailsToLoad [Filter.Library] (inputs : Inputs) (files : Files.FileSystem) :
    Prop
  | noPattern {text : String} (given : text ∈ inputs.patterns)
      (isPattern : Files.isPattern text = true) (h : Failed (Files.Pattern.parse text))
  | noMatches {text : String} {pattern : Files.Pattern} (given : text ∈ inputs.patterns)
      (isPattern : Files.isPattern text = true) (parsed : Files.Pattern.parse text = .ok pattern)
      (h : files.expand pattern = [])
  | notListed {text : String} {pattern : Files.Pattern} {e : Files.ListingError}
      (given : text ∈ inputs.patterns) (isPattern : Files.isPattern text = true)
      (parsed : Files.Pattern.parse text = .ok pattern) (h : .error e ∈ files.expand pattern)
  | unreadable {path : String} (named : inputs.Names files path) (h : Failed (files.read path))
  | part {path text part : String} (named : inputs.Names files path)
      (read : files.read path = .ok text) (isPart : inputs.IsPart text part)
      (h : inputs.PartFails part)

/-! ## Step by step -/

theorem failed_resolve_iff {files : Files.FileSystem} {text : String} :
    Failed (resolve files text) ↔ Files.isPattern text = true ∧
      (Failed (Files.Pattern.parse text) ∨
        ∃ pattern, Files.Pattern.parse text = .ok pattern ∧
          (files.expand pattern = [] ∨ ∃ e, .error e ∈ files.expand pattern)) := by
  by_cases hpattern : Files.isPattern text = true
  · cases hparse : Files.Pattern.parse text with
    | error e => simp [resolve, resolveOnto, hpattern, hparse]
    | ok pattern =>
      rcases found_cases (files.expand pattern) with ⟨paths, hfound⟩ | ⟨before, e, after, hfound⟩
      · rw [resolve_of_paths hpattern hparse hfound]
        split_ifs with hnone
        · simp [hpattern, hnone, hfound]
        · simp [hnone, hfound]
      · rw [resolve_of_error hpattern hparse hfound]
        refine iff_of_true (failed_error _) ⟨hpattern, .inr ⟨pattern, rfl, .inr ⟨e, ?_⟩⟩⟩
        rw [hfound]
        exact List.mem_append_right _ List.mem_cons_self
  · rw [resolve_literal (Bool.eq_false_of_not_eq_true hpattern)]
    simp [hpattern]

theorem failed_resolveAll_iff {files : Files.FileSystem} {texts : List String} :
    Failed (resolveAll files texts) ↔ ∃ text ∈ texts, Failed (resolve files text) := by
  refine failed_iff_of_steps (resolveAll files) (resolve files) List.append rfl
    (fun text rest => ?_) texts
  rw [resolveAll_cons]
  cases resolve files text with
  | error e => rfl
  | ok paths => rfl

theorem mem_of_resolveAll {files : Files.FileSystem} {texts paths : List String}
    (h : resolveAll files texts = .ok paths) (path : String) :
    path ∈ paths ↔ ∃ text ∈ texts, ∃ found, resolve files text = .ok found ∧ path ∈ found := by
  induction texts generalizing paths with
  | nil =>
    obtain rfl := Except.ok.inj h
    simp
  | cons text texts ih =>
    rw [resolveAll_cons] at h
    obtain ⟨found, others, hresolve, hothers, rfl⟩ := joined_eq_ok_iff.1 h
    rw [List.mem_append, ih hothers, List.exists_mem_cons_iff]
    simp [hresolve]

@[simp] theorem failed_parseText {path text : String} {line : Option Nat} :
    Failed (parseText path line text) ↔ Failed (Json.parse text) := by
  rw [parseText, Json.parse]
  cases Json.ofBytes (Json.bytesOf text) with
  | error fault => simp
  | ok x => simp

theorem failed_parseLines_iff {path : String} {lines : List (Nat × String)} :
    Failed (parseLines path lines) ↔ ∃ line ∈ lines.map Prod.snd, Failed (Json.parse line) := by
  have hsteps : Failed (parseLines path lines) ↔
      ∃ line ∈ lines, Failed (parseText path (some line.1) line.2) := by
    refine failed_iff_of_steps (parseLines path) (fun line => parseText path (some line.1) line.2)
      List.cons rfl (fun line rest => ?_) lines
    rw [parseLines]
    cases parseText path (some line.1) line.2 with
    | error e => rfl
    | ok x => rfl
  simp only [hsteps, failed_parseText, List.mem_map, exists_exists_and_eq_and]

namespace Inputs

variable {inputs : Inputs}

/-- The parts of a text that is read line by line. -/
theorem isPart_iff_of_linewise (h : inputs.linewise = true) {text part : String} :
    inputs.IsPart text part ↔
      part ∈ (numberedLines 1 (Text.lines text.toList)).map Prod.snd := by
  rw [IsPart, if_pos h, map_numberedLines]
  simp [and_assoc]

theorem failed_values_iff {path text : String} :
    Failed (inputs.values path text) ↔
      ∃ part, inputs.IsPart text part ∧ Failed (Json.parse part) := by
  rw [values]
  split_ifs with hlinewise
  · simp only [failed_parseLines_iff, isPart_iff_of_linewise hlinewise]
  · simp [IsPart, hlinewise]

theorem mem_of_writes {text : String} {xs : List Json} (h : inputs.Writes text xs) (x : Json) :
    x ∈ xs ↔ ∃ part, inputs.IsPart text part ∧ Json.parse part = .ok x := by
  unfold Writes at h
  split_ifs at h with hlinewise
  · have hmap : ((Text.lines text.toList).filter fun line => !(Text.trim line).isEmpty).map
        (fun line => Json.parse (String.ofList line)) = xs.map Except.ok := by
      rw [← List.forall₂_eq_eq_eq]
      exact List.forall₂_map_left_iff.2 (List.forall₂_map_right_iff.2 h)
    have hmem := congrArg (Except.ok x ∈ ·) hmap
    simp only [List.mem_map, Except.ok.injEq, exists_eq_right, eq_iff_iff] at hmem
    rw [← hmem]
    simp [IsPart, hlinewise, and_assoc]
  · obtain ⟨y, hy, rfl⟩ := h
    simp [IsPart, hlinewise, hy, eq_comm]

theorem select_eq_ok_iff {path : String} {x node : Json} :
    inputs.select path x = .ok node ↔ inputs.Selects x node := by
  rw [select, Selects]
  cases inputs.pointer with
  | none => exact ⟨Except.ok.inj, congrArg Except.ok⟩
  | some pointer =>
    cases hselect : x.select? pointer with
    | none => simp [hselect]
    | some found => simp [hselect]

theorem failed_select_iff {path : String} {x : Json} :
    Failed (inputs.select path x) ↔
      ∃ pointer, inputs.pointer = some pointer ∧ x.select? pointer = none := by
  rw [select]
  cases inputs.pointer with
  | none => simp
  | some pointer =>
    cases hselect : x.select? pointer with
    | none => simp [hselect]
    | some found => simp [hselect]

variable [Filter.Library]

theorem failed_filtered_iff {node : Json} :
    Failed (inputs.filtered node) ↔
      ∃ filter, inputs.filter = some filter ∧ Filter.Fails filter node := by
  rw [filtered]
  cases inputs.filter with
  | none => simp
  | some filter =>
    cases hrun : Filter.run filter node with
    | error failure => simp [Filter.fails_iff, hrun, Except.mapError]
    | ok made => simp [Filter.fails_iff, hrun, Except.mapError]

theorem failed_documents_iff {path : String} {xs : List Json} :
    Failed (inputs.documents path xs) ↔ ∃ x ∈ xs, Failed (inputs.select path x) ∨
      ∃ node, inputs.select path x = .ok node ∧ Failed (inputs.filtered node) := by
  simp only [← failed_bind]
  refine failed_iff_of_steps (inputs.documents path)
    (fun x => (inputs.select path x).bind inputs.filtered) List.append rfl (fun x rest => ?_) xs
  rw [documents]
  cases inputs.select path x with
  | error e => rfl
  | ok node =>
    simp only [Except.bind]
    cases inputs.filtered node with
    | error e => rfl
    | ok made => rfl

/-- The documents of a file fail at one of its parts. -/
theorem failed_documentsOf_iff {path text : String} :
    Failed (inputs.documentsOf path text) ↔
      ∃ part, inputs.IsPart text part ∧ inputs.PartFails part := by
  rw [documentsOf]
  cases hvalues : inputs.values path text with
  | error e =>
    refine iff_of_true (failed_error e) ?_
    obtain ⟨part, hpart, hparse⟩ := failed_values_iff.1 ⟨e, hvalues⟩
    exact ⟨part, hpart, .notJson hparse⟩
  | ok xs =>
    refine failed_documents_iff.trans ?_
    have hmem := mem_of_writes (values_eq_ok_iff.1 hvalues)
    constructor
    · rintro ⟨x, hx, hfails⟩
      obtain ⟨part, hpart, hparse⟩ := (hmem x).1 hx
      refine ⟨part, hpart, ?_⟩
      rcases hfails with hselect | ⟨node, hselect, hfiltered⟩
      · obtain ⟨pointer, hpointer, hnothing⟩ := failed_select_iff.1 hselect
        exact .nothingSelected hparse hpointer hnothing
      · obtain ⟨filter, hfilter, hfails⟩ := failed_filtered_iff.1 hfiltered
        exact .filter hparse (select_eq_ok_iff.1 hselect) hfilter hfails
    · rintro ⟨part, hpart, hfails⟩
      cases hfails with
      | notJson hparse =>
        obtain ⟨e, he⟩ := failed_values_iff.2 ⟨part, hpart, hparse⟩
        cases hvalues.symm.trans he
      | nothingSelected value given h =>
        exact ⟨_, (hmem _).2 ⟨part, hpart, value⟩, .inl (failed_select_iff.2 ⟨_, given, h⟩)⟩
      | filter value selected given h =>
        exact ⟨_, (hmem _).2 ⟨part, hpart, value⟩,
          .inr ⟨_, select_eq_ok_iff.2 selected, failed_filtered_iff.2 ⟨_, given, h⟩⟩⟩

variable {files : Files.FileSystem}

theorem failed_source_iff {path : String} :
    Failed (inputs.source files path) ↔ Failed (files.read path) ∨
      ∃ text, files.read path = .ok text ∧
        ∃ part, inputs.IsPart text part ∧ inputs.PartFails part := by
  rw [source]
  cases files.read path with
  | error e => simp
  | ok text => simp [failed_documentsOf_iff]

theorem failed_sources_iff {paths : List String} :
    Failed (inputs.sources files paths) ↔ ∃ path ∈ paths, Failed (inputs.source files path) := by
  refine failed_iff_of_steps (inputs.sources files) (inputs.source files) List.cons rfl
    (fun path rest => ?_) paths
  rw [sources]
  cases inputs.source files path with
  | error e => rfl
  | ok s => rfl

/-- Loading fails exactly if something fails on the way. -/
theorem failsToLoad_iff : inputs.FailsToLoad files ↔ Failed (inputs.decode files) := by
  rw [decode, failed_map, load]
  cases hresolve : resolveAll files inputs.patterns with
  | error e =>
    refine iff_of_true ?_ (failed_error e)
    obtain ⟨text, hgiven, hfailed⟩ := failed_resolveAll_iff.1 ⟨e, hresolve⟩
    obtain ⟨hpattern, hparse | ⟨pattern, hparse, hnone | ⟨e, he⟩⟩⟩ := failed_resolve_iff.1 hfailed
    · exact .noPattern hgiven hpattern hparse
    · exact .noMatches hgiven hpattern hparse hnone
    · exact .notListed hgiven hpattern hparse he
  | ok paths =>
    refine Iff.trans ?_ failed_sources_iff.symm
    have hmem := mem_of_resolveAll hresolve
    have hresolved : ∀ text ∈ inputs.patterns, ¬Failed (resolve files text) := by
      intro text hgiven hfailed
      obtain ⟨e, he⟩ := failed_resolveAll_iff.2 ⟨text, hgiven, hfailed⟩
      cases hresolve.symm.trans he
    constructor
    · intro h
      cases h with
      | noPattern given isPattern h =>
        exact absurd (failed_resolve_iff.2 ⟨isPattern, .inl h⟩) (hresolved _ given)
      | noMatches given isPattern parsed h =>
        exact absurd (failed_resolve_iff.2 ⟨isPattern, .inr ⟨_, parsed, .inl h⟩⟩)
          (hresolved _ given)
      | notListed given isPattern parsed h =>
        exact absurd (failed_resolve_iff.2 ⟨isPattern, .inr ⟨_, parsed, .inr ⟨_, h⟩⟩⟩)
          (hresolved _ given)
      | unreadable named h => exact ⟨_, (hmem _).2 named, failed_source_iff.2 (.inl h)⟩
      | part named read isPart h =>
        exact ⟨_, (hmem _).2 named, failed_source_iff.2 (.inr ⟨_, read, _, isPart, h⟩)⟩
    · rintro ⟨path, hpath, hfailed⟩
      have hnamed : inputs.Names files path := (hmem path).1 hpath
      rcases failed_source_iff.1 hfailed with hread | ⟨text, hread, part, hpart, hfails⟩
      · exact .unreadable hnamed hread
      · exact .part hnamed hread hpart hfails

end Inputs
end Check
end RecordCheck
