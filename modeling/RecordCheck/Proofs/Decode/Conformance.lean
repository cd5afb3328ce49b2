import RecordCheck.Proofs.Decode.Fields
import RecordCheck.Proofs.Binary64.Nearest
import RecordCheck.Decode.Record
set_option autoImplicit false

/-!
# Decode: the decoder accepts what the shapes declare

`Conforms` says by the declared shapes alone which values a field may have, and `Holds` what a field
of a record then holds, in the JSON form of the record.  A kind agrees with a type if it accepts the
values that conform and holds what it is given; a row of fields that agrees with the fields of a
shape makes a record that agrees with it.  Main statement: `record_accepts_declared`.
-/

namespace RecordCheck.Decode

open Binary64

/-- The value conforms to the type of a field.  A record is an object with the declared fields and
nothing else, in any order, or an array of their values in the order of declaration. -/
inductive Conforms : FieldType → Json → Prop where
  | integer {n : Int} (low : integerMin ≤ n) (high : n ≤ integerMax) :
      Conforms .integer (.integer n)
  | float (x : Float) : Conforms .float (.float x)
  | integral (n : Int) : Conforms .float (.integer n)
  | string (s : String) : Conforms .string (.text s)
  | members {name : String} {shape : RecordShape} {members : List (String × Json)}
      (declared : RecordShape.ofName? name = some shape)
      (names : (Table.names members).Perm (shape.fields.map FieldShape.name))
      (each : ∀ f ∈ shape.fields, ∀ x, (f.name, x) ∈ members → Conforms f.type x) :
      Conforms (.record name) (.object members)
  | items {name : String} {shape : RecordShape} {items : List Json}
      (declared : RecordShape.ofName? name = some shape)
      (length : items.length = shape.fields.length)
      (each : ∀ p ∈ shape.fields.zip items, Conforms p.1.type p.2) :
      Conforms (.record name) (.array items)

/-- A field of the type to which the first value was given holds the second.  An integer that is
given for a double becomes the nearest one. -/
inductive Holds : FieldType → Json → Json → Prop where
  | integer (n : Int) : Holds .integer (.integer n) (.integer n)
  | float (x : Float) : Holds .float (.float x) (.float x)
  | nearest {n : Int} {x : Float} (nearest : IsNearestDouble (decide (n < 0)) |(n : ℚ)| x) :
      Holds .float (.integer n) (.float x)
  | string (s : String) : Holds .string (.text s) (.text s)
  | members {name : String} {shape : RecordShape} {members held : List (String × Json)}
      (declared : RecordShape.ofName? name = some shape)
      (names : Table.names held = shape.fields.map FieldShape.name)
      (each : ∀ f ∈ shape.fields, ∀ x y, (f.name, x) ∈ members → (f.name, y) ∈ held →
        Holds f.type x y) :
      Holds (.record name) (.object members) (.object held)
  | items {name : String} {shape : RecordShape} {items : List Json} {held : List (String × Json)}
      (declared : RecordShape.ofName? name = some shape)
      (names : Table.names held = shape.fields.map FieldShape.name)
      (each : ∀ p ∈ shape.fields.zip (items.zip held), Holds p.1.type p.2.1 p.2.2.2) :
      Holds (.record name) (.array items) (.object held)

/-- The kind accepts the values that conform to the type, and what it decodes holds them. -/
structure Kind.Agrees {α : Type} (kind : Kind α) (type : FieldType) (write : α → Json) : Prop where
  accepts : ∀ x, (∃ a, kind.ofJson x = .ok a) ↔ Conforms type x
  holds : ∀ x a, kind.ofJson x = .ok a → Holds type x (write a)

/-- The fields agree, one by one, with the declared ones; `all` writes their contents as members. -/
inductive Fields.Agrees :
    {τ : Type} → Fields τ → List FieldShape → (τ → List (String × Json)) → Prop where
  | nil : Agrees .nil [] fun _ => []
  | field {α β : Type} {name : String} {kind : Kind α} {rest : Fields β} {shape : FieldShape}
      {shapes : List FieldShape} {write : α → Json} {all : α × β → List (String × Json)}
      (writes : β → List (String × Json)) (named : name = shape.name)
      (first : kind.Agrees shape.type write) (others : rest.Agrees shapes writes)
      (joined : ∀ a b, all (a, b) = (name, write a) :: writes b) :
      Agrees (.field name kind rest) (shape :: shapes) all

/-! ## Single values -/

theorem toInt_ofInt {n : Int} (low : integerMin ≤ n) (high : n ≤ integerMax) :
    (Int64.ofInt n).toInt = n := by
  have hbound : twoTo 63 = 2 ^ 63 := rfl
  rw [integerMin, hbound] at low
  rw [integerMax, hbound] at high
  apply Int64.toInt_ofInt_of_le
  · exact low
  · push_cast at high
    omega

theorem Kind.integer_agrees : Kind.integer.Agrees .integer fun n => .integer n.toInt := by
  constructor
  · intro x
    cases x with
    | integer n =>
      simp only [Kind.integer, Kind.scalar]
      split_ifs with hrange
      · exact iff_of_true ⟨_, rfl⟩ (.integer hrange.1 hrange.2)
      · refine iff_of_false nofun fun hconforms => ?_
        cases hconforms with
        | integer low high => exact hrange ⟨low, high⟩
    | null | bool _ | float _ | text _ | array _ | object _ => exact iff_of_false nofun nofun
  · intro x a h
    cases x with
    | integer n =>
      simp only [Kind.integer, Kind.scalar] at h
      split_ifs at h with hrange
      obtain rfl := Except.ok.inj h
      rw [toInt_ofInt hrange.1 hrange.2]
      exact .integer n
    | null | bool _ | float _ | text _ | array _ | object _ => exact nomatch h

theorem Kind.float_agrees : Kind.float.Agrees .float .float := by
  constructor
  · intro x
    cases x with
    | integer n => exact iff_of_true ⟨_, rfl⟩ (.integral n)
    | float x => exact iff_of_true ⟨_, rfl⟩ (.float x)
    | null | bool _ | text _ | array _ | object _ => exact iff_of_false nofun nofun
  · intro x a h
    cases x with
    | integer n =>
      obtain rfl : ofInt n = a := Except.ok.inj h
      exact .nearest (ofInt_isNearestDouble n)
    | float x =>
      obtain rfl : x = a := Except.ok.inj h
      exact .float x
    | null | bool _ | text _ | array _ | object _ => exact nomatch h

theorem Kind.text_agrees : Kind.text.Agrees .string .text := by
  constructor
  · intro x
    cases x with
    | text s => exact iff_of_true ⟨_, rfl⟩ (.string s)
    | null | bool _ | integer _ | float _ | array _ | object _ => exact iff_of_false nofun nofun
  · intro x a h
    cases x with
    | text s =>
      obtain rfl : s = a := Except.ok.inj h
      exact .string s
    | null | bool _ | integer _ | float _ | array _ | object _ => exact nomatch h

/-! ## Records -/

namespace Fields.Agrees

variable {τ : Type} {f : Fields τ} {shapes : List FieldShape} {writes : τ → List (String × Json)}

theorem names_eq (h : f.Agrees shapes writes) : f.names = shapes.map FieldShape.name := by
  induction h with
  | nil => rfl
  | field writes named first others joined ih => rw [names, ih, List.map_cons, named]

theorem held_names (h : f.Agrees shapes writes) (contents : τ) :
    Table.names (writes contents) = shapes.map FieldShape.name := by
  induction h with
  | nil => rfl
  | field writes named first others joined ih =>
    obtain ⟨content, contents⟩ := contents
    rw [joined, Table.names_cons, ih, List.map_cons, named]

theorem exists_filled_iff (h : f.Agrees shapes writes) (members : List (String × Json)) :
    (∃ contents, f.Filled members contents) ↔
      ∀ s ∈ shapes, ∃ x, (s.name, x) ∈ members ∧ Conforms s.type x := by
  induction h with
  | nil => exact iff_of_true ⟨(), trivial⟩ nofun
  | field writes named first others joined ih =>
    rw [List.forall_mem_cons, ← ih, ← named]
    constructor
    · rintro ⟨⟨a, contents⟩, ⟨x, hx, hdecoded⟩, hrest⟩
      exact ⟨⟨x, hx, (first.accepts x).1 ⟨a, hdecoded⟩⟩, contents, hrest⟩
    · rintro ⟨⟨x, hx, hconforms⟩, contents, hrest⟩
      obtain ⟨a, hdecoded⟩ := (first.accepts x).2 hconforms
      exact ⟨(a, contents), ⟨x, hx, hdecoded⟩, hrest⟩

theorem holds_of_filled (h : f.Agrees shapes writes) (hnames : (shapes.map FieldShape.name).Nodup)
    {members : List (String × Json)} (hmembers : (Table.names members).Nodup) {contents : τ}
    (hfilled : f.Filled members contents) : ∀ s ∈ shapes, ∀ x y, (s.name, x) ∈ members →
      (s.name, y) ∈ writes contents → Holds s.type x y := by
  induction h with
  | nil => exact nofun
  | field writes named first others joined ih =>
    subst named
    obtain ⟨content, contents⟩ := contents
    obtain ⟨⟨x', hx', hdecoded⟩, hrest⟩ := hfilled
    obtain ⟨hfresh, hnodup⟩ := List.nodup_cons.1 hnames
    have hheld := others.held_names contents
    intro s hs x y hx hy
    rw [joined] at hy
    rcases List.mem_cons.1 hs with rfl | hs
    · rcases List.mem_cons.1 hy with hy | hy
      · obtain rfl := (Prod.mk.inj hy).2
        rw [Table.content_unique hmembers hx hx']
        exact first.holds x' content hdecoded
      · exact absurd (hheld ▸ Table.mem_names_of_mem hy) hfresh
    · rcases List.mem_cons.1 hy with hy | hy
      · exact absurd ((Prod.mk.inj hy).1 ▸ List.mem_map_of_mem hs) hfresh
      · exact ih hnodup hrest s hs x y hx hy

theorem exists_filledInOrder_iff (h : f.Agrees shapes writes) {items : List Json}
    (hlength : items.length = shapes.length) :
    (∃ contents, f.FilledInOrder items contents) ↔
      ∀ p ∈ shapes.zip items, Conforms p.1.type p.2 := by
  induction h generalizing items with
  | nil => exact iff_of_true ⟨(), trivial⟩ nofun
  | field writes named first others joined ih =>
    cases items with
    | nil => exact nomatch hlength
    | cons x items =>
      rw [List.zip_cons_cons, List.forall_mem_cons, ← ih (Nat.succ_injective hlength),
        ← first.accepts]
      constructor
      · rintro ⟨⟨a, contents⟩, hdecoded, hrest⟩
        exact ⟨⟨a, hdecoded⟩, contents, hrest⟩
      · rintro ⟨⟨a, hdecoded⟩, contents, hrest⟩
        exact ⟨(a, contents), hdecoded, hrest⟩

theorem holds_of_filledInOrder (h : f.Agrees shapes writes) {items : List Json} {contents : τ}
    (hfilled : f.FilledInOrder items contents) :
    ∀ p ∈ shapes.zip (items.zip (writes contents)), Holds p.1.type p.2.1 p.2.2.2 := by
  induction h generalizing items with
  | nil => exact nofun
  | field writes named first others joined ih =>
    cases items with
    | nil => exact hfilled.elim
    | cons x items =>
      obtain ⟨content, contents⟩ := contents
      obtain ⟨hdecoded, hrest⟩ := hfilled
      rw [joined]
      exact List.forall_mem_cons.2 ⟨first.holds x content hdecoded, ih hrest⟩

end Fields.Agrees

/-- The fields of a declared shape have different names, none of them that of the tag. -/
theorem declared_names {name : String} {shape : RecordShape}
    (h : RecordShape.ofName? name = some shape) :
    (tagName :: shape.fields.map FieldShape.name).Nodup := by
  have hall : ∀ shape ∈ RecordShape.declared,
      (tagName :: shape.fields.map FieldShape.name).Nodup := by decide
  exact hall shape (List.mem_of_find?_eq_some h)

section

variable {τ α : Type} {name : String} {shape : RecordShape} {f : Fields τ} {build : τ → α}
  {write : α → Json} {writes : τ → List (String × Json)}

theorem declared_names_nodup (declared : RecordShape.ofName? name = some shape) :
    (shape.fields.map FieldShape.name).Nodup :=
  (List.nodup_cons.1 (declared_names declared)).2

theorem Kind.conforms_of_record (declared : RecordShape.ofName? name = some shape)
    (hf : f.Agrees shape.fields writes) {x : Json} {a : α}
    (h : (Kind.record name f build).ofJson x = .ok a) : Conforms (.record name) x := by
  have hnodup : f.names.Nodup := hf.names_eq ▸ declared_names_nodup declared
  rcases Kind.record_cases h with ⟨members, rfl⟩ | ⟨items, rfl⟩
  · obtain ⟨contents, hperm, hfilled, -⟩ := (Kind.record_object_iff hnodup).1 h
    have hmembers : (Table.names members).Nodup := hperm.nodup_iff.2 hnodup
    refine .members declared (hf.names_eq ▸ hperm) fun s hs x hx => ?_
    -- The member that was decoded is the only one of its name.
    obtain ⟨x', hx', hconforms⟩ := (hf.exists_filled_iff members).1 ⟨contents, hfilled⟩ s hs
    rwa [Table.content_unique hmembers hx hx']
  · obtain ⟨contents, hlength, hfilled, -⟩ := Kind.record_array_iff.1 h
    rw [hf.names_eq, List.length_map] at hlength
    exact .items declared hlength ((hf.exists_filledInOrder_iff hlength).1 ⟨contents, hfilled⟩)

theorem Kind.record_of_conforms (declared : RecordShape.ofName? name = some shape)
    (hf : f.Agrees shape.fields writes) {x : Json} (h : Conforms (.record name) x) :
    ∃ a, (Kind.record name f build).ofJson x = .ok a := by
  have hnodup : f.names.Nodup := hf.names_eq ▸ declared_names_nodup declared
  cases h with
  | members declared' hperm each =>
    obtain rfl := Option.some.inj (declared.symm.trans declared')
    rename_i members
    obtain ⟨contents, hfilled⟩ := (hf.exists_filled_iff members).2 fun s hs => by
      obtain ⟨x, hx⟩ := Table.mem_names_iff.1 (hperm.symm.subset (List.mem_map_of_mem hs))
      exact ⟨x, hx, each s hs x hx⟩
    exact ⟨build contents, (Kind.record_object_iff hnodup).2
      ⟨contents, hf.names_eq ▸ hperm, hfilled, rfl⟩⟩
  | items declared' length each =>
    obtain rfl := Option.some.inj (declared.symm.trans declared')
    obtain ⟨contents, hfilled⟩ := (hf.exists_filledInOrder_iff length).2 each
    refine ⟨build contents, Kind.record_array_iff.2 ⟨contents, ?_, hfilled, rfl⟩⟩
    rw [hf.names_eq, List.length_map, length]

theorem Kind.holds_of_record (declared : RecordShape.ofName? name = some shape)
    (hf : f.Agrees shape.fields writes)
    (hwrite : ∀ contents, write (build contents) = .object (writes contents)) {x : Json} {a : α}
    (h : (Kind.record name f build).ofJson x = .ok a) : Holds (.record name) x (write a) := by
  have hnodup : f.names.Nodup := hf.names_eq ▸ declared_names_nodup declared
  rcases Kind.record_cases h with ⟨members, rfl⟩ | ⟨items, rfl⟩
  · obtain ⟨contents, hperm, hfilled, rfl⟩ := (Kind.record_object_iff hnodup).1 h
    rw [hwrite]
    exact .members declared (hf.held_names contents) (hf.holds_of_filled
      (declared_names_nodup declared) (hperm.nodup_iff.2 hnodup) hfilled)
  · obtain ⟨contents, -, hfilled, rfl⟩ := Kind.record_array_iff.1 h
    rw [hwrite]
    exact .items declared (hf.held_names contents) (hf.holds_of_filledInOrder hfilled)

/-- A record agrees with a shape if its fields agree with those of the shape. -/
theorem Kind.record_agrees (declared : RecordShape.ofName? name = some shape)
    (hf : f.Agrees shape.fields writes)
    (hwrite : ∀ contents, write (build contents) = .object (writes contents)) :
    (Kind.record name f build).Agrees (.record name) write :=
  ⟨fun _ => ⟨fun ⟨_, h⟩ => Kind.conforms_of_record declared hf h,
    Kind.record_of_conforms declared hf⟩, fun _ _ h => Kind.holds_of_record declared hf hwrite h⟩

end

/-! ## The declared records -/

theorem myType_agrees : myType.Agrees (.record "MyType") fun r => .object r.members :=
  Kind.record_agrees rfl (.field (fun _ => []) rfl Kind.integer_agrees .nil fun _ _ => rfl)
    fun _ => rfl

theorem segmentFields_agrees : segmentFields.Agrees RecordShape.segmentFields fun contents =>
    [("duration", .float contents.1), ("value", .text contents.2.1),
      ("_core_type", .text contents.2.2.1)] :=
  .field (fun contents => [("value", .text contents.1), ("_core_type", .text contents.2.1)]) rfl
    Kind.float_agrees
    (.field (fun contents => [("_core_type", .text contents.1)]) rfl Kind.text_agrees
      (.field (fun _ => []) rfl Kind.text_agrees .nil fun _ _ => rfl) fun _ _ => rfl)
    fun _ _ => rfl

theorem complexSegment_agrees :
    complexSegment.Agrees (.record "ComplexSegment") fun r => .object r.members :=
  Kind.record_agrees rfl segmentFields_agrees fun _ => rfl

theorem complexSegment22_agrees :
    complexSegment22.Agrees (.record "ComplexSegment22") fun r => .object r.members :=
  Kind.record_agrees rfl segmentFields_agrees fun _ => rfl

theorem a_agrees : a.Agrees (.record "A") fun r => .object r.members :=
  Kind.record_agrees rfl (.field (fun _ => []) rfl Kind.text_agrees .nil fun _ _ => rfl)
    fun _ => rfl

theorem b_agrees : b.Agrees (.record "B") fun r => .object r.members :=
  Kind.record_agrees rfl
    (.field (fun contents => [("b_string", .text contents.1)]) rfl a_agrees
      (.field (fun _ => []) rfl Kind.text_agrees .nil fun _ _ => rfl) fun _ _ => rfl)
    fun _ => rfl

/-- The kind decodes records of the type that is named. -/
structure Variant (name : String) (kind : Kind Record) : Prop where
  agrees : kind.Agrees (.record name) fun r => .object r.members
  unordered : kind.Unordered
  typename : ∀ x r, kind.ofJson x = .ok r → r.typename = name
  shape : ∀ x r, kind.ofJson x = .ok r → RecordShape.ofName? name = some r.shape

theorem variant_map {α : Type} {name : String} {kind : Kind α} {f : α → Record}
    {write : α → Json} (h : kind.Agrees (.record name) write) (hunordered : kind.Unordered)
    (hwrite : ∀ a, write a = .object (f a).members) (htypename : ∀ a, (f a).typename = name)
    (hshape : ∀ a, RecordShape.ofName? name = some (f a).shape) : Variant name (kind.map f) := by
  refine ⟨⟨fun x => ?_, ?_⟩, hunordered.map f, ?_, ?_⟩
  · rw [← h.accepts]
    constructor
    · rintro ⟨r, hr⟩
      obtain ⟨a, ha, -⟩ := Kind.map_eq_ok_iff.1 hr
      exact ⟨a, ha⟩
    · rintro ⟨a, ha⟩
      exact ⟨f a, Kind.map_eq_ok_iff.2 ⟨a, ha, rfl⟩⟩
  all_goals
    intro x r hr
    obtain ⟨a, ha, rfl⟩ := Kind.map_eq_ok_iff.1 hr
  · exact hwrite a ▸ h.holds x a ha
  · exact htypename a
  · exact hshape a

/-- What holds of the five kinds of records holds of every variant. -/
theorem variants_induction {P : String → Kind Record → Prop}
    (hmyType : P "MyType" (myType.map .myType))
    (hsegment : P "ComplexSegment" (complexSegment.map .complexSegment))
    (hsegment22 : P "ComplexSegment22" (complexSegment22.map .complexSegment22))
    (ha : P "A" (a.map .a)) (hb : P "B" (b.map .b)) {name : String} {kind : Kind Record}
    (h : (name, kind) ∈ variants) : P name kind := by
  simp only [variants, List.mem_cons, List.not_mem_nil, or_false, Prod.mk.injEq] at h
  rcases h with ⟨rfl, rfl⟩ | ⟨rfl, rfl⟩ | ⟨rfl, rfl⟩ | ⟨rfl, rfl⟩ | ⟨rfl, rfl⟩
  · exact hmyType
  · exact hsegment
  · exact hsegment22
  · exact ha
  · exact hb

/-- Both lists of the types say the same. -/
theorem kindOf?_eq_find? (name : String) : kindOf? name = Table.find? name variants := by
  unfold kindOf?
  split
  iterate 5 rfl
  rename_i hmyType hsegment hsegment22 ha hb
  cases hkind : Table.find? name variants with
  | none => rfl
  | some kind =>
    have hne := variants_induction (P := fun own _ => own ≠ name) (Ne.symm hmyType)
      (Ne.symm hsegment) (Ne.symm hsegment22) (Ne.symm ha) (Ne.symm hb) (Table.mem_of_find? hkind)
    exact absurd rfl hne

theorem variant_of_mem {name : String} {kind : Kind Record} (h : (name, kind) ∈ variants) :
    Variant name kind := by
  refine variants_induction ?_ ?_ ?_ ?_ ?_ h
  · exact variant_map myType_agrees (Kind.record_unordered (by decide)) (fun _ => rfl)
      (fun _ => rfl) fun _ => rfl
  · exact variant_map complexSegment_agrees (Kind.record_unordered (by decide)) (fun _ => rfl)
      (fun _ => rfl) fun _ => rfl
  · exact variant_map complexSegment22_agrees (Kind.record_unordered (by decide)) (fun _ => rfl)
      (fun _ => rfl) fun _ => rfl
  · exact variant_map a_agrees (Kind.record_unordered (by decide)) (fun _ => rfl)
      (fun _ => rfl) fun _ => rfl
  · exact variant_map b_agrees (Kind.record_unordered (by decide)) (fun _ => rfl)
      (fun _ => rfl) fun _ => rfl

/-- The types that can be decoded are those that are declared. -/
theorem exists_variant {name : String} {shape : RecordShape}
    (h : RecordShape.ofName? name = some shape) :
    ∃ kind, Table.find? name variants = some kind := by
  have hnames : RecordShape.declared.map RecordShape.name = Table.names variants := rfl
  have hname : shape.name = name := by simpa using List.find?_some h
  rw [Table.exists_find?_iff, ← hnames, ← hname]
  exact List.mem_map_of_mem (List.mem_of_find?_eq_some h)

/-! ## Tagged records -/

/-- No member of a record takes the name of the tag. -/
theorem Conforms.tagName_fresh {name : String} {members : List (String × Json)}
    (h : Conforms (.record name) (.object members)) : tagName ∉ Table.names members := by
  cases h with
  | members declared names _ =>
    exact fun hmem => (List.nodup_cons.1 (declared_names declared)).1 (names.subset hmem)

/-- The order of the members makes no difference. -/
theorem Conforms.perm {name : String} {members members' : List (String × Json)}
    (h : Conforms (.record name) (.object members)) (hperm : members.Perm members') :
    Conforms (.record name) (.object members') := by
  cases h with
  | members declared names each =>
    exact .members declared ((hperm.symm.map Prod.fst).trans names) fun f hf x hx =>
      each f hf x (hperm.symm.subset hx)

theorem decodeRecord_eq_ok_iff {x : Json} {r : Record} : decodeRecord x = .ok r ↔
    ∃ members tag kind, x = .object members ∧ Table.find? tagName members = some (.text tag) ∧
      Table.find? tag variants = some kind ∧
      kind.ofJson (.object (Table.erase tagName members)) = .ok r := by
  constructor
  · intro h
    unfold decodeRecord at h
    simp only [kindOf?_eq_find?] at h
    split at h
    · rename_i members
      split at h
      · exact nomatch h
      · rename_i tag htag
        split at h
        · rename_i kind hkind
          exact ⟨members, tag, kind, rfl, htag, hkind, h⟩
        · exact nomatch h
      · exact nomatch h
    · exact nomatch h
  · rintro ⟨members, tag, kind, rfl, htag, hkind, hdecoded⟩
    rw [decodeRecord]
    simp only [htag, kindOf?_eq_find?, hkind]
    exact hdecoded

theorem mapError_report_eq_ok_iff {α : Type} {result : Except Failure α} {a : α} :
    result.mapError (·.report []) = .ok a ↔ result = .ok a := by
  cases result with
  | error failure => exact iff_of_false nofun nofun
  | ok a' => simp only [Except.mapError, Except.ok.injEq]

theorem record_eq_ok_iff {x : Json} {r : Record} : record x = .ok r ↔ decodeRecord x = .ok r :=
  mapError_report_eq_ok_iff

/-- A value is a tagged record if it is an object with a type name for its tag and, in any order,
the fields of that type besides. -/
def Tagged (x : Json) (tag : String) (members : List (String × Json)) : Prop :=
  ∃ all, x = .object all ∧ all.Perm ((tagName, .text tag) :: members) ∧
    Conforms (.record tag) (.object members)

/-- In a tagged record the tag is found, and erasing it leaves the fields. -/
theorem Tagged.find_erase {x : Json} {tag : String} {members : List (String × Json)}
    (h : Tagged x tag members) : ∃ all, x = .object all ∧
      Table.find? tagName all = some (.text tag) ∧
      (Table.erase tagName all).Perm members := by
  obtain ⟨all, rfl, hperm, hconforms⟩ := h
  have htag := Table.find?_of_perm hperm hconforms.tagName_fresh
  exact ⟨all, rfl, htag, ((Table.perm_erase htag).symm.trans hperm).cons_inv⟩

theorem exists_decodeRecord {x : Json} {tag : String} {members : List (String × Json)}
    (h : Tagged x tag members) : ∃ r, decodeRecord x = .ok r := by
  obtain ⟨all, rfl, hfind, herase⟩ := h.find_erase
  obtain ⟨-, -, -, hconforms⟩ := h
  obtain ⟨kind, hkind⟩ : ∃ kind, Table.find? tag variants = some kind := by
    cases hconforms with
    | members declared _ _ => exact exists_variant declared
  have hvariant := variant_of_mem (Table.mem_of_find? hkind)
  obtain ⟨r, hr⟩ := (hvariant.agrees.accepts _).2 (hconforms.perm herase.symm)
  exact ⟨r, decodeRecord_eq_ok_iff.2 ⟨all, tag, kind, rfl, hfind, hkind, hr⟩⟩

theorem decodeRecord_sound {x : Json} {r : Record} (h : decodeRecord x = .ok r) :
    ∃ members, Tagged x r.typename members ∧ RecordShape.ofName? r.typename = some r.shape ∧
      Holds (.record r.typename) (.object members) (.object r.members) := by
  obtain ⟨all, tag, kind, rfl, hfind, hkind, hr⟩ := decodeRecord_eq_ok_iff.1 h
  have hvariant := variant_of_mem (Table.mem_of_find? hkind)
  obtain rfl := hvariant.typename _ r hr
  exact ⟨Table.erase tagName all,
    ⟨all, rfl, Table.perm_erase hfind, (hvariant.agrees.accepts _).1 ⟨r, hr⟩⟩,
    hvariant.shape _ r hr, hvariant.agrees.holds _ r hr⟩

/-- The decoder accepts the values that the declared shapes allow.  The record is of the type that
the tag names, and each field holds the value that was given. -/
theorem record_accepts_declared (x : Json) :
    ((∃ r, record x = .ok r) ↔ ∃ tag members, Tagged x tag members) ∧
    ∀ r, record x = .ok r → ∃ members, Tagged x r.typename members ∧
      RecordShape.ofName? r.typename = some r.shape ∧
      Holds (.record r.typename) (.object members) (.object r.members) := by
  simp only [record_eq_ok_iff]
  refine ⟨⟨?_, ?_⟩, fun r => decodeRecord_sound⟩
  · rintro ⟨r, hr⟩
    obtain ⟨members, htagged, -⟩ := decodeRecord_sound hr
    exact ⟨r.typename, members, htagged⟩
  · rintro ⟨tag, members, htagged⟩
    exact exists_decodeRecord htagged

end RecordCheck.Decode
