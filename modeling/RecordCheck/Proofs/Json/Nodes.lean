import RecordCheck.Json.Path
import RecordCheck.Proofs.Json.Written
set_option autoImplicit false

/-!
# JSON: the nodes of values that were read

`Leads` says which node a path leads to.  What is read of bytes nests at most as deep as the reader
allows, has no array with more items than there are bytes, and repeats no name once it is understood
(`fits_of_parse`).  All its nodes are so, and each is read back from its text if the numbers are
(`Leads.parse_compact`).
-/

namespace RecordCheck.Json

/-! ## Paths -/

/-- The steps lead from a value to a node: each to the content of a name or to the item of a
number. -/
inductive Leads : Path → Json → Json → Prop
  | here (x : Json) : Leads [] x x
  | member {name : String} {members : List (String × Json)} {content node : Json} {steps : Path}
      (found : Table.find? name members = some content) (rest : Leads steps content node) :
      Leads (.member name :: steps) (.object members) node
  | index {i : Nat} {items : List Json} {item node : Json} {steps : Path}
      (found : items[i]? = some item) (rest : Leads steps item node) :
      Leads (.index i :: steps) (.array items) node

/-! ## Bounds -/

/-- Arrays and objects nest at most `depth` deep, and no array has more than `width` items. -/
inductive Fits (width : Nat) : (depth : Nat) → Json → Prop
  | scalar {depth : Nat} {x : Json} (h : Scalar x) : Fits width depth x
  | array {depth : Nat} {items : List Json} (few : items.length ≤ width)
      (each : ∀ x ∈ items, Fits width depth x) : Fits width (depth + 1) (.array items)
  | object {depth : Nat} {members : List (String × Json)}
      (each : ∀ m ∈ members, Fits width depth m.2) : Fits width (depth + 1) (.object members)

theorem Fits.mono {width depth deeper : Nat} {x : Json} (h : Fits width depth x)
    (hdepth : depth ≤ deeper) : Fits width deeper x := by
  induction h generalizing deeper with
  | scalar h => exact .scalar h
  | array few _ ih =>
    cases deeper with
    | zero => exact absurd hdepth (Nat.not_succ_le_zero _)
    | succ deeper => exact .array few fun x hx => ih x hx (Nat.le_of_succ_le_succ hdepth)
  | object _ ih =>
    cases deeper with
    | zero => exact absurd hdepth (Nat.not_succ_le_zero _)
    | succ deeper => exact .object fun m hm => ih m hm (Nat.le_of_succ_le_succ hdepth)

section

variable {α : Type} {node : Bytes → α → Bytes → Prop}

/-- Each item takes bytes of its own, and so does the closing bracket. -/
theorem ReadsItems.items_lt (hnode : Local node) {first : Bool} {bytes rest : Bytes} {xs : List α}
    (h : ReadsItems node first bytes xs rest) : xs.length < bytes.length ∧
      ∀ x ∈ xs, ∃ behind between, node behind x between ∧ behind.length ≤ bytes.length := by
  induction h with
  | close next =>
    have hlength := nextItem_length next
    exact ⟨(Nat.succ_pos _).trans_le hlength, nofun⟩
  | item next read _ ih =>
    have hnext := nextItem_length next
    have hread := hnode.length_lt read
    obtain ⟨hlength, hothers⟩ := ih
    refine ⟨?_, List.forall_mem_cons.2 ⟨⟨_, _, read, hnext⟩, fun x hx => ?_⟩⟩
    · rw [List.length_cons]
      omega
    · obtain ⟨behind, between, hx, hle⟩ := hothers x hx
      exact ⟨behind, between, hx, by omega⟩

theorem ReadsMembers.contents (hnode : Local node) {first : Bool} {bytes rest : Bytes}
    {ms : List (String × α)} (h : ReadsMembers node first bytes ms rest) :
    ∀ m ∈ ms, ∃ behind between, node behind m.2 between ∧ behind.length ≤ bytes.length := by
  induction h with
  | close _ => exact nofun
  | member next named parted read _ ih =>
    have hopened := nextMember_length next
    have hbehind := string_length named
    have hcontent := colon_length parted
    have hread := hnode.length_lt read
    refine List.forall_mem_cons.2 ⟨⟨_, _, read, by omega⟩, fun m hm => ?_⟩
    obtain ⟨behind, between, hm, hle⟩ := ih m hm
    exact ⟨behind, between, hm, by omega⟩

end

/-- What is read fits the depth of the reader and the number of the bytes. -/
theorem Reads.fits {depth : Nat} {bytes rest : Bytes} {x : Json} (h : Reads depth bytes x rest)
    {width : Nat} (hwidth : bytes.length ≤ width) : Fits width depth x := by
  induction depth generalizing bytes rest x with
  | zero => exact .scalar (valueOver_scalar h)
  | succ depth ih =>
    have hbehind {b : UInt8} {behind : Bytes} (hskip : Json.skipSpace bytes = b :: behind) :
        behind.length < width := by
      obtain ⟨blank, -, rfl, -⟩ := exists_blank hskip
      simp only [List.length_append, List.length_cons] at hwidth
      omega
    cases h with
    | scalar read => exact .scalar (valueOver_scalar read)
    | array opened items =>
      have hlt := hbehind opened
      obtain ⟨hlength, hitems⟩ := items.items_lt (reads_local depth)
      refine .array (by omega) fun x hx => ?_
      obtain ⟨behind, between, hread, hle⟩ := hitems x hx
      exact ih hread (by omega)
    | object opened members =>
      have hlt := hbehind opened
      refine .object fun m hm => ?_
      obtain ⟨behind, between, hread, hle⟩ := members.contents (reads_local depth) m hm
      exact ih hread (by omega)

/-! ## Distinct names -/

theorem Scalar.distinct {x : Json} (h : Scalar x) : x.distinct = x := by
  cases h with
  | null | bool _ | integer _ _ | float _ | text _ => rfl

/-- The understood value has the same bounds, and no name twice. -/
theorem Fits.distinct {width depth : Nat} {x : Json} (h : Fits width depth x) :
    Fits width depth x.distinct ∧ Unique x.distinct := by
  induction h with
  | scalar h =>
    rw [h.distinct]
    exact ⟨.scalar h, unique_of_not_nested h.not_nested⟩
  | array few _ ih =>
    rw [Json.distinct, distinctItems_eq_map]
    refine ⟨.array ((List.length_map _).trans_le few) ?_, .array ?_⟩
    · exact List.forall_mem_map.2 fun x hx => (ih x hx).1
    · exact List.forall_mem_map.2 fun x hx => (ih x hx).2
  | object _ ih =>
    rw [Json.distinct, distinctMembers_eq_map]
    refine ⟨.object fun m hm => ?_, .object (Table.nodup_names_ofMembers _) fun m hm => ?_⟩
    · obtain ⟨m', hm', rfl⟩ := List.mem_map.1 (Table.mem_of_mem_ofMembers hm)
      exact (ih m' hm').1
    · obtain ⟨m', hm', rfl⟩ := List.mem_map.1 (Table.mem_of_mem_ofMembers hm)
      exact (ih m' hm').2

theorem fits_of_parse {text : String} {x : Json} (h : parse text = .ok x) :
    Fits (bytesOf text).length depthLimit x ∧ Unique x := by
  obtain ⟨written, rest, hread, -, rfl⟩ := ofBytes_eq_ok_iff.1 h
  exact ((read_eq_ok_iff.1 hread).fits (Nat.le_refl _)).distinct

/-! ## Nodes -/

section

variable {steps : Path} {x node : Json}

theorem Leads.fits (h : Leads steps x node) {width depth : Nat} (hfits : Fits width depth x) :
    Fits width depth node := by
  induction h generalizing depth with
  | here x => exact hfits
  | member found _ ih =>
    cases hfits with
    | scalar h => exact absurd trivial h.not_nested
    | object each => exact (ih (each _ (Table.mem_of_find? found))).mono (Nat.le_succ _)
  | index found _ ih =>
    cases hfits with
    | scalar h => exact absurd trivial h.not_nested
    | array _ each => exact (ih (each _ (List.mem_of_getElem? found))).mono (Nat.le_succ _)

theorem Leads.unique (h : Leads steps x node) (hunique : Unique x) : Unique node := by
  induction h with
  | here x => exact hunique
  | member found _ ih =>
    cases hunique with
    | object _ each => exact ih (each _ (Table.mem_of_find? found))
  | index found _ ih =>
    cases hunique with
    | array each => exact ih (each _ (List.mem_of_getElem? found))

/-- Steps to items name them by numbers below the number of items. -/
theorem Leads.index_lt (h : Leads steps x node) {width depth : Nat} (hfits : Fits width depth x) :
    ∀ i, .index i ∈ steps → i < width := by
  induction h generalizing depth with
  | here x => exact nofun
  | member found _ ih =>
    cases hfits with
    | scalar h => exact absurd trivial h.not_nested
    | object each => simpa using ih (each _ (Table.mem_of_find? found))
  | @index i items item node steps found _ ih =>
    cases hfits with
    | scalar h => exact absurd trivial h.not_nested
    | array few each =>
      have hlt : i < items.length := (List.getElem?_eq_some_iff.1 found).1
      intro j hj
      rcases List.mem_cons.1 hj with heq | hrest
      · obtain rfl := Step.index.inj heq
        exact hlt.trans_le few
      · exact ih (each _ (List.mem_of_getElem? found)) j hrest

end

/-! ## Numbers -/

/-- Each number within the value is read back from its text. -/
inductive NumbersReadBack : Json → Prop
  | null : NumbersReadBack .null
  | bool (b : Bool) : NumbersReadBack (.bool b)
  | integer {n : Int} (read : parse (compact (.integer n)) = .ok (.integer n)) :
      NumbersReadBack (.integer n)
  | float {x : Float} (read : parse (compact (.float x)) = .ok (.float x)) :
      NumbersReadBack (.float x)
  | text (s : String) : NumbersReadBack (.text s)
  | array {items : List Json} (each : ∀ x ∈ items, NumbersReadBack x) :
      NumbersReadBack (.array items)
  | object {members : List (String × Json)} (each : ∀ m ∈ members, NumbersReadBack m.2) :
      NumbersReadBack (.object members)

theorem Leads.numbersReadBack {steps : Path} {x node : Json} (h : Leads steps x node)
    (hnumbers : NumbersReadBack x) : NumbersReadBack node := by
  induction h with
  | here x => exact hnumbers
  | member found _ ih =>
    cases hnumbers with
    | object each => exact ih (each _ (Table.mem_of_find? found))
  | index found _ ih =>
    cases hnumbers with
    | array each => exact ih (each _ (List.mem_of_getElem? found))

theorem compact_float (x : Float) : compact (.float x) = floatText x := by
  rw [compact, chars, scalarChars, String.ofList_toList]

theorem rereads_self {width depth : Nat} {x : Json} (hfits : Fits width depth x)
    (hnumbers : NumbersReadBack x) : Rereads depth x x := by
  induction hfits with
  | scalar h =>
    apply RereadsFlat.rereads
    cases h with
    | null => exact .null
    | bool b => exact .bool b
    | integer low high => exact .integer low high
    | float x =>
      cases hnumbers with
      | float read =>
        rw [compact_float] at read
        exact .float ((parse_floatText x).1 read)
    | text s => exact .text s
  | array _ _ ih =>
    cases hnumbers with
    | array each => exact .array (List.forall₂_same.2 fun x hx => ih x hx (each x hx))
  | object _ ih =>
    cases hnumbers with
    | object each => exact .object (List.forall₂_same.2 fun m hm => ⟨rfl, ih m hm (each m hm)⟩)

/-- A value in which no name is repeated is read back from its text if its numbers are. -/
theorem Fits.parse_compact {width : Nat} {x : Json} (h : Fits width depthLimit x)
    (hunique : Unique x) (hnumbers : NumbersReadBack x) : parse x.compact = .ok x :=
  Json.parse_compact (rereads_self h hnumbers) hunique

/-- A node of a value that was read is read back from its text if the numbers are. -/
theorem Leads.parse_compact {steps : Path} {x node : Json} (h : Leads steps x node)
    {text : String} (hread : parse text = .ok x) (hnumbers : NumbersReadBack x) :
    parse node.compact = .ok node := by
  obtain ⟨hfits, hunique⟩ := fits_of_parse hread
  exact (h.fits hfits).parse_compact (h.unique hunique) (h.numbersReadBack hnumbers)

end RecordCheck.Json
