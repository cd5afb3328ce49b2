import RecordCheck.Proofs.Decode.Conformance
import RecordCheck.Proofs.Json.Doubles
import RecordCheck.Proofs.Json.Written
set_option autoImplicit false

/-!
# Decode: written records are read back

The JSON form of a record is decoded as that record (`record_toJson`), and its text is read as the
JSON form, but for a duration, which becomes what its own text is read as (`rereads_toJson`).
-/

namespace RecordCheck

namespace Record

/-- The duration of a segment. -/
def duration? : Record → Option Float
  | .complexSegment r => some r.duration
  | .complexSegment22 r => some r.duration
  | _ => none

/-- The record with another duration, if it has one. -/
def withDuration (d : Float) : Record → Record
  | .complexSegment r => .complexSegment { r with duration := d }
  | .complexSegment22 r => .complexSegment22 { r with duration := d }
  | r => r

/-- The text of the duration, if there is one, gives it back. -/
def KeepsDuration (r : Record) : Prop :=
  ∀ d ∈ r.duration?, Json.parse (Json.floatText d) = .ok (.float d)

theorem keepsDuration_iff {r : Record} :
    r.KeepsDuration ↔ ∀ d ∈ r.duration?, Json.reread? d = some d := by
  simp only [KeepsDuration, Json.parse_floatText, Json.readFloat_eq_float_iff]

instance (r : Record) : Decidable r.KeepsDuration := decidable_of_iff _ keepsDuration_iff.symm

theorem withDuration_eq_self_iff {r : Record} {d : Float} :
    r.withDuration d = r ↔ ∀ d' ∈ r.duration?, d' = d := by
  cases r with
  | complexSegment r | complexSegment22 r =>
    obtain ⟨duration, value, coreType⟩ := r
    simp [withDuration, duration?, eq_comm]
  | myType _ | a _ | b _ => simp [withDuration, duration?]

/-- The JSON form of the record, but for the duration, if it has one. -/
def jsonWith (duration : Json) (r : Record) : Json :=
  .object ((tagName, .text r.typename) ::
    r.members.map fun m => if m.1 = "duration" then (m.1, duration) else m)

theorem toJson_withDuration (r : Record) (d : Float) :
    (r.withDuration d).toJson = r.jsonWith (.float d) := by
  cases r <;> rfl

theorem jsonWith_eq_toJson_iff {r : Record} {y : Json} :
    r.jsonWith y = r.toJson ↔ ∀ d ∈ r.duration?, y = .float d := by
  cases r with
  | complexSegment r | complexSegment22 r =>
    simp [jsonWith, toJson, members, ComplexSegment.members, ComplexSegment22.members, duration?]
  | myType _ | a _ | b _ => exact iff_of_true rfl nofun

end Record

namespace Decode

open Json

theorem integer_ofJson_toInt (n : Int64) : Kind.integer.ofJson (.integer n.toInt) = .ok n := by
  have hlow : integerMin ≤ n.toInt := Int64.le_toInt n
  have hhigh : n.toInt ≤ integerMax := Int.le_sub_one_of_lt (Int64.toInt_lt n)
  simp only [Kind.integer, Kind.scalar, hlow, hhigh, and_self, if_true, Int64.ofInt_toInt]

/-- The JSON form of a record is decoded as the record. -/
theorem record_toJson (r : Record) : record r.toJson = .ok r := by
  cases r with
  | myType r =>
    refine record_eq_ok_iff.2 (decodeRecord_eq_ok_iff.2
      ⟨_, _, myType.map .myType, rfl, rfl, rfl, Kind.map_eq_ok_iff.2 ⟨r, ?_, rfl⟩⟩)
    refine (Kind.record_object_iff (by decide)).2
      ⟨(r.real, ()), List.Perm.refl _, ⟨⟨_, List.mem_cons_self, ?_⟩, trivial⟩, rfl⟩
    exact integer_ofJson_toInt r.real
  | complexSegment _ | complexSegment22 _ | a _ | b _ => rfl

/-- No name is repeated in the JSON form of a record. -/
theorem unique_jsonWith {r : Record} {y : Json} (hy : Unique y) : Unique (r.jsonWith y) := by
  cases r with
  | myType r =>
    refine .object (show ["__typename", "real"].Nodup by decide) ?_
    simpa [Record.members, MyType.members] using ⟨Unique.text _, Unique.integer _⟩
  | complexSegment r | complexSegment22 r =>
    refine .object (show ["__typename", "duration", "value", "_core_type"].Nodup by decide) ?_
    simpa [Record.members, ComplexSegment.members, ComplexSegment22.members] using
      ⟨Unique.text _, hy, Unique.text _, Unique.text _⟩
  | a r =>
    refine .object (show ["__typename", "a_string"].Nodup by decide) ?_
    simpa [Record.members, A.members] using ⟨Unique.text _, Unique.text _⟩
  | b r =>
    have ha : Unique (.object r.a.members) := .object (show ["a_string"].Nodup by decide) (by
      simpa [A.members] using Unique.text _)
    refine .object (show ["__typename", "a", "b_string"].Nodup by decide) ?_
    simpa [Record.members, B.members] using ⟨Unique.text _, ha, Unique.text _⟩

theorem unique_toJson (r : Record) : Unique r.toJson := by
  have hself : r.jsonWith (.float (r.duration?.getD 0)) = r.toJson := by
    refine Record.jsonWith_eq_toJson_iff.2 fun d hd => ?_
    rw [Option.mem_def.1 hd]
    rfl
  exact hself ▸ unique_jsonWith (.float _)

/-- The text of a record is read as its JSON form, but for the duration. -/
theorem rereads_jsonWith {r : Record} {y : Json} (h : ∀ d ∈ r.duration?, readFloat d = some y)
    (depth : Nat) : Rereads (depth + 2) r.toJson (r.jsonWith y) := by
  have htext {depth : Nat} (name s : String) :
      (name, Json.text s).1 = name ∧ Rereads depth (.text s) (.text s) :=
    ⟨rfl, (RereadsFlat.text s).rereads depth⟩
  cases r with
  | myType r =>
    have hlow : -(twoTo 63 : Int) ≤ r.real.toInt := Int64.le_toInt r.real
    have hhigh : r.real.toInt < twoTo 64 := (Int64.toInt_lt r.real).trans (by decide)
    exact .object (.cons (htext _ _) (.cons ⟨rfl, .flat (.integer hlow hhigh)⟩ .nil))
  | complexSegment r | complexSegment22 r =>
    have hduration : RereadsFlat (.float r.duration) y := .float (h _ rfl)
    exact .object (.cons (htext _ _) (.cons ⟨rfl, .flat hduration⟩
      (.cons (htext _ _) (.cons (htext _ _) .nil))))
  | a r => exact .object (.cons (htext _ _) (.cons (htext _ _) .nil))
  | b r =>
    exact .object (.cons (htext _ _) (.cons ⟨rfl, .object (.cons (htext _ _) .nil)⟩
      (.cons (htext _ _) .nil)))

theorem rereads_toJson {r : Record} {d : Float}
    (h : ∀ d' ∈ r.duration?, reread? d' = some d) (depth : Nat) :
    Rereads (depth + 2) r.toJson (r.withDuration d).toJson := by
  rw [Record.toJson_withDuration]
  exact rereads_jsonWith (fun d' hd' => readFloat_eq_float_iff.2 (h d' hd')) depth

/-- A record with a finite duration, if any, is read back from its text: the same record, but for
the duration, which is the one that its own text is read as. -/
theorem record_reads_back (r : Record) (hfinite : ∀ d ∈ r.duration?, d.isFinite = true) :
    ∃ d', (∀ d ∈ r.duration?, Json.parse (floatText d) = .ok (.float d')) ∧
      Json.parse r.toJson.compact = .ok (r.withDuration d').toJson ∧
      record (r.withDuration d').toJson = .ok (r.withDuration d') ∧
      (r.withDuration d' = r ↔ r.KeepsDuration) := by
  obtain ⟨d', hd'⟩ : ∃ d', ∀ d ∈ r.duration?, reread? d = some d' := by
    cases hduration : r.duration? with
    | none => exact ⟨0, nofun⟩
    | some d =>
      obtain ⟨d', hread⟩ := exists_reread (hfinite d hduration)
      refine ⟨d', fun e he => ?_⟩
      obtain rfl := Option.some.inj he
      exact hread
  refine ⟨d', fun d hd => ?_, parse_compact (rereads_toJson hd' _) (unique_toJson _),
    record_toJson _, ?_⟩
  · exact (parse_floatText d).2 (readFloat_eq_float_iff.2 (hd' d hd))
  · rw [Record.withDuration_eq_self_iff, Record.keepsDuration_iff]
    refine forall₂_congr fun d hd => ?_
    rw [hd' d hd, Option.some.injEq, eq_comm]

/-- A duration of 1.5 is kept. -/
theorem record_reads_back_half :
    let r := Record.complexSegment ⟨Float.ofBits 0x3ff8000000000000, "(1-2j)", "Seg"⟩
    ∃ x, Json.parse r.toJson.compact = .ok x ∧ record x = .ok r := by
  intro r
  have hfinite : ∀ d ∈ r.duration?, d.isFinite = true := by decide +kernel
  have hkeeps : r.KeepsDuration := by decide +kernel
  obtain ⟨d', -, hparse, hrecord, hkept⟩ := record_reads_back r hfinite
  rw [hkept.2 hkeeps] at hparse hrecord
  exact ⟨_, hparse, hrecord⟩

/-- The double nearest to 632 / 7 is not kept: it is written as 90.28571428571429 and becomes the
double below. -/
theorem not_every_record_reads_back :
    ¬∀ r : Record, (∀ d ∈ r.duration?, d.isFinite = true) →
      ∃ x, Json.parse r.toJson.compact = .ok x ∧ record x = .ok r := by
  intro hall
  let d := Float.ofBits 0x4056924924924925
  let d' := Float.ofBits 0x4056924924924924
  let r := Record.complexSegment ⟨d, "1", "Seg"⟩
  have hread : ∀ e ∈ r.duration?, reread? e = some d' := by decide +kernel
  have hdrift : r.withDuration d' ≠ r := by
    rw [Ne, Record.withDuration_eq_self_iff]
    decide +kernel
  obtain ⟨x, hparse, hrecord⟩ := hall r (by decide +kernel)
  have hparse' := parse_compact (rereads_toJson hread _) (unique_toJson _)
  obtain rfl := Except.ok.inj (hparse'.symm.trans hparse)
  exact hdrift (Except.ok.inj ((record_toJson _).symm.trans hrecord))

theorem rereads_self {r : Record} (h : r.KeepsDuration) (depth : Nat) :
    Rereads (depth + 2) r.toJson r.toJson := by
  obtain ⟨d, hd⟩ : ∃ d, ∀ d' ∈ r.duration?, d' = d := by
    cases r.duration? with
    | none => exact ⟨0, nofun⟩
    | some d => exact ⟨d, fun d' hd' => (Option.some.inj hd').symm⟩
  have hself := Record.withDuration_eq_self_iff.2 hd
  have hreads : ∀ d' ∈ r.duration?, reread? d' = some d := by
    intro d' hd'
    obtain rfl := hd d' hd'
    exact Record.keepsDuration_iff.1 h d' hd'
  have hread := rereads_toJson hreads depth
  rwa [hself] at hread

/-- What the text of a record is read as: its JSON form, but for the duration, which is what its own
text is read as. -/
structure IsReadAs (r : Record) (x : Json) : Prop where
  text : Json.parse r.toJson.compact = .ok x
  duration : ∃ y, (∀ d ∈ r.duration?, Json.parse (floatText d) = .ok y) ∧ x = r.jsonWith y
  kept : x = r.toJson ↔ r.KeepsDuration

/-- The text of any record is read, by itself or within another. -/
theorem exists_isReadAs (r : Record) :
    ∃ x, IsReadAs r x ∧ Unique x ∧ ∀ depth, Rereads (depth + 2) r.toJson x := by
  obtain ⟨y, hread, hunique⟩ :
      ∃ y, (∀ d ∈ r.duration?, readFloat d = some y) ∧ Unique y := by
    cases hduration : r.duration? with
    | none => exact ⟨.null, nofun, .null⟩
    | some d =>
      obtain ⟨y, hy⟩ := exists_readFloat d
      refine ⟨y, fun e he => ?_, unique_of_readFloat hy⟩
      obtain rfl := Option.some.inj he
      exact hy
  have hparse : ∀ d ∈ r.duration?, Json.parse (floatText d) = .ok y :=
    fun d hd => (parse_floatText d).2 (hread d hd)
  refine ⟨r.jsonWith y, ⟨parse_compact (rereads_jsonWith hread _) (unique_jsonWith hunique),
    ⟨y, hparse, rfl⟩, ?_⟩, unique_jsonWith hunique, rereads_jsonWith hread⟩
  rw [Record.jsonWith_eq_toJson_iff]
  refine forall₂_congr fun d hd => ?_
  rw [hparse d hd, Except.ok.injEq]

end Decode
end RecordCheck
