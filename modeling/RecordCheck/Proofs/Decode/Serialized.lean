import RecordCheck.Proofs.Decode.ReadBack
import RecordCheck.Proofs.Decode.Reordered
import RecordCheck.Proofs.Json.Serialized
set_option autoImplicit false

/-!
# Decode: serialized records

A record is serialized as its shape declares, and with its members in any order it is decoded as the
same record, unless its duration is not finite (`record_serialized`).
-/

namespace RecordCheck.Decode

open Json (Reordered)

/-- The value is what a field of the type is serialized as: a record is an object with its declared
fields, and nothing else, in the order of declaration. -/
inductive InOrder : FieldType → Json → Prop
  | integer (n : Int64) : InOrder .integer (.integer n.toInt)
  | float {x : Float} (finite : x.isFinite = true) : InOrder .float (.float x)
  | notFinite : InOrder .float .null
  | string (s : String) : InOrder .string (.text s)
  | record {name : String} {shape : RecordShape} {members : List (String × Json)}
      (declared : RecordShape.ofName? name = some shape)
      (names : Table.names members = shape.fields.map FieldShape.name)
      (each : ∀ p ∈ shape.fields.zip members, InOrder p.1.type p.2.2) :
      InOrder (.record name) (.object members)

theorem inOrder_serialized_float (d : Float) :
    InOrder .float (Json.serialized (.float d)) := by
  rw [Json.serialized]
  split_ifs with hfinite
  · exact .float hfinite
  · exact .notFinite

theorem inOrder_segment {name : String} {shape : RecordShape}
    (declared : RecordShape.ofName? name = some shape)
    (hfields : shape.fields = RecordShape.segmentFields) (duration : Float)
    (value coreType : String) :
    InOrder (.record name) (.object [("duration", Json.serialized (.float duration)),
      ("value", .text value), ("_core_type", .text coreType)]) := by
  refine .record declared (hfields ▸ rfl) ?_
  rw [hfields]
  exact List.forall_mem_cons.2 ⟨inOrder_serialized_float duration,
    List.forall_mem_cons.2 ⟨.string value, List.forall_mem_cons.2 ⟨.string coreType, nofun⟩⟩⟩

theorem inOrder_a (a : A) : InOrder (.record "A") (.object a.members) :=
  @InOrder.record _ .a _ rfl rfl (List.forall_mem_cons.2 ⟨.string a.aString, nofun⟩)

/-- The fields of a record are serialized in the order of its shape. -/
theorem inOrder_members (r : Record) :
    InOrder (.record r.typename) (.object (Json.serializedMembers r.members)) := by
  cases r with
  | myType r =>
    exact @InOrder.record _ .myType _ rfl rfl
      (List.forall_mem_cons.2 ⟨.integer r.real, nofun⟩)
  | complexSegment r => exact inOrder_segment rfl rfl r.duration r.value r.coreType
  | complexSegment22 r => exact inOrder_segment rfl rfl r.duration r.value r.coreType
  | a r => exact inOrder_a r
  | b r =>
    exact @InOrder.record _ .b _ rfl rfl (List.forall_mem_cons.2 ⟨inOrder_a r.a,
      List.forall_mem_cons.2 ⟨.string r.bString, nofun⟩⟩)

theorem serialized_toJson {r : Record} (h : ∀ d ∈ r.duration?, d.isFinite = true) :
    r.toJson.serialized = r.toJson := by
  cases r with
  | complexSegment r | complexSegment22 r =>
    have hduration : Json.serialized (.float r.duration) = .float r.duration :=
      if_pos (h r.duration rfl)
    simp only [Record.toJson, Record.members, ComplexSegment.members, ComplexSegment22.members,
      Json.serialized, Json.serializedMembers] at hduration ⊢
    rw [hduration]
  | myType _ | a _ | b _ => rfl

/-! ## Durations that are not finite -/

/-- A record with a duration has the fields of a segment. -/
theorem exists_segment {r : Record} {d : Float} (hd : d ∈ r.duration?) :
    (∃ value coreType, r.members =
      [("duration", .float d), ("value", .text value), ("_core_type", .text coreType)]) ∧
    ∃ (α : Type) (name : String) (build : Float × String × String × Unit → α) (g : α → Record),
      Table.find? r.typename variants =
        some ((Kind.record name segmentFields build).map g) := by
  cases r with
  | complexSegment r =>
    obtain rfl := Option.some.inj hd
    exact ⟨⟨r.value, r.coreType, rfl⟩, ComplexSegment, "ComplexSegment", _, .complexSegment, rfl⟩
  | complexSegment22 r =>
    obtain rfl := Option.some.inj hd
    exact ⟨⟨r.value, r.coreType, rfl⟩, ComplexSegment22, "ComplexSegment22", _, .complexSegment22,
      rfl⟩
  | myType _ | a _ | b _ => exact nomatch hd

/-- Null is no duration: whatever the order of the members, that is the failure. -/
theorem record_null_duration {α : Type} {tag name : String}
    {build : Float × String × String × Unit → α} {g : α → Record}
    (hkind : Table.find? tag variants = some ((Kind.record name segmentFields build).map g))
    {value coreType : String} {v : Json}
    (h : Reordered (.object [(tagName, .text tag), ("duration", .null), ("value", .text value),
      ("_core_type", .text coreType)]) v) :
    record v = .error ⟨"duration", "invalid type: null, expected f64"⟩ := by
  obtain ⟨all, rfl, hperm⟩ := h.perm_of_flat rfl (by simp)
  obtain ⟨body, hbody, hdecode⟩ := decodeRecord_of_perm hperm.symm
    (show tagName ∉ ["duration", "value", "_core_type"] by decide) hkind
  have hnames : (Table.names body).Perm ["duration", "value", "_core_type"] := hbody.map Prod.fst
  have hothers : ∀ m ∈ body, m.1 ≠ "duration" → segmentFields.Accepts m.1 m.2 := by
    intro m hm hne
    have hmem := hbody.subset hm
    simp only [List.mem_cons, List.not_mem_nil, or_false] at hmem
    rcases hmem with rfl | rfl | rfl
    · exact absurd rfl hne
    · exact ⟨value, rfl⟩
    · exact ⟨coreType, rfl⟩
  have hrejected : (Kind.record name segmentFields build).ofJson (.object body) =
      .error ((Failure.ofMismatch (.wrongType .null .float)).within (.member "duration")) :=
    Kind.record_rejected (by decide) (hnames.nodup_iff.2 (by decide))
      (hbody.symm.subset List.mem_cons_self) List.mem_cons_self (fun _ => rfl) hothers
  rw [record, hdecode]
  show (((Kind.record name segmentFields build).ofJson (.object body)).map g).mapError _ = _
  rw [hrejected]
  rfl

/-- A record is serialized as an object whose members are its type name and then, in the order of
declaration, the fields of its shape.  With the members in any order, at both levels, that value is
decoded as the record, if its duration, where it has one, is finite.  Otherwise null stands for the
duration, and decoding fails there. -/
theorem record_serialized (r : Record) :
    r.toJson.serialized.compact = r.toJson.compact ∧
    RecordShape.ofName? r.typename = some r.shape ∧
    ∃ fields, r.toJson.serialized = .object ((tagName, .text r.typename) :: fields) ∧
      InOrder (.record r.typename) (.object fields) ∧
      ∀ v, Reordered r.toJson.serialized v →
        ((∀ d ∈ r.duration?, d.isFinite = true) → record v = .ok r) ∧
        ∀ d ∈ r.duration?, d.isFinite = false → ("duration", .null) ∈ fields ∧
          record v = .error ⟨"duration", "invalid type: null, expected f64"⟩ := by
  have hshape : RecordShape.ofName? r.typename = some r.shape := by
    cases r <;> rfl
  refine ⟨Json.compact_serialized _, hshape, _, rfl, inOrder_members r, fun v hv => ⟨?_, ?_⟩⟩
  · intro hfinite
    rw [serialized_toJson hfinite] at hv
    exact record_eq_ok_iff.2 (decodeRecord_reordered hv (record_eq_ok_iff.1 (record_toJson r)))
  · intro d hd hfinite
    have hnull : Json.serialized (.float d) = .null := if_neg (by simp [hfinite])
    obtain ⟨⟨value, coreType, hmembers⟩, _, _, _, _, hkind⟩ := exists_segment hd
    have hfields : Json.serializedMembers r.members =
        [("duration", .null), ("value", .text value), ("_core_type", .text coreType)] := by
      rw [hmembers, ← hnull]
      rfl
    have hobject : r.toJson.serialized =
        .object ((tagName, .text r.typename) :: Json.serializedMembers r.members) := rfl
    rw [hobject, hfields] at hv
    rw [hfields]
    exact ⟨List.mem_cons_self, record_null_duration hkind hv⟩

end RecordCheck.Decode
