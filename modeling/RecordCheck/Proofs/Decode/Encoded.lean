import RecordCheck.Proofs.Json.Encoded
import RecordCheck.Proofs.Decode.Tagged
set_option autoImplicit false

/-!
# Decode: texts are not refused for their encoding

A value is refused for what it is, which has nothing to do with how a text may write it, and the
readers of nodes keep up what the readers of tokens do: what they leave of a text encodes
characters, and none of their failures is one of encoding (`Kind.Plain`).
-/

namespace RecordCheck.Decode

open Json (Bytes Encoded Outcome)

/-! ## Failures -/

/-- The failure is about the value. -/
def Failure.Mismatched (failure : Failure) : Prop := ∃ m, failure.cause = .mismatch m

/-- The failure is not one of encoding. -/
def Failure.Plain (failure : Failure) : Prop := failure.cause ≠ .fault .invalidCodePoint

theorem Failure.Mismatched.plain {failure : Failure} (h : failure.Mismatched) : failure.Plain := by
  obtain ⟨m, hm⟩ := h
  rw [Failure.Plain, hm]
  exact nofun

theorem plain_of_fault {fault : Json.Fault} (h : fault.Plain) : (Failure.ofFault fault).Plain :=
  fun hcause => h (Cause.fault.inj hcause)

theorem Failure.Plain.within {failure : Failure} (h : failure.Plain) (step : Json.Step) :
    (failure.within step).Plain := h

theorem Failure.Mismatched.within {failure : Failure} (h : failure.Mismatched) (step : Json.Step) :
    (failure.within step).Mismatched := h

theorem Failure.Mismatched.setAside {failure : Failure} (h : failure.Mismatched) :
    failure.setAside.Mismatched := h

theorem plain_atRest (m : Mismatch) (rest : Bytes) : (Failure.atRest m rest).Plain := nofun

theorem mismatched_ofMismatch (m : Mismatch) : (Failure.ofMismatch m).Mismatched := ⟨m, rfl⟩

/-- What is decoded, if not refused for what it is, has a property. -/
abbrev Judged {α : Type} (found : α → Prop) (decoded : Except Failure α) : Prop :=
  Outcome Failure.Mismatched found decoded

/-- What is read has a property, with characters left behind it, and a failure is not one of
encoding. -/
abbrev KeptWith {α : Type} (found : α → Prop) (read : Except Failure (α × Bytes)) : Prop :=
  Outcome Failure.Plain (fun read => found read.1 ∧ Encoded read.2) read

/-- Values are refused for what they are, and texts are not refused for their encoding. -/
structure Kind.Plain {α : Type} (kind : Kind α) : Prop where
  values : ∀ x, Judged (fun _ => True) (kind.ofJson x)
  texts : ∀ bytes, Encoded bytes → KeptWith (fun _ => True) (kind.read bytes)

theorem Kind.Plain.map {α β : Type} {kind : Kind α} (h : kind.Plain) (f : α → β) :
    (kind.map f).Plain where
  values x := (h.values x).map fun _ => id
  texts bytes hbytes := (h.texts bytes hbytes).map fun _ => id

/-! ## Scalars -/

section

variable {α : Type} {found : α → Prop} {judge : Json → Except Failure α}

theorem readScalar_kept (expected : Expected) (hjudge : ∀ x, Judged found (judge x)) {bytes : Bytes}
    (h : Encoded bytes) : KeptWith found (readScalar expected judge bytes) := by
  unfold readScalar
  dsimp only
  split
  · exact .error (plain_atRest _ _)
  · split
    · exact .error (plain_atRest _ _)
    · have hvalue := Json.valueOver_kept 0 none (by simp) h.skipSpace
      split
      next fault hfault => exact .error (plain_of_fault (hvalue.of_error hfault))
      next x rest hrest =>
        have hx := hjudge x
        split
        next a ha => exact .ok ⟨hx.of_ok ha, hvalue.of_ok hrest⟩
        next failure hfailure => exact .error (hx.of_error hfailure).plain

theorem Kind.scalar_plain {expected : Expected} (hjudge : ∀ x, Judged (fun _ => True) (judge x)) :
    (Kind.scalar expected judge).Plain where
  values := hjudge
  texts _ h := readScalar_kept expected hjudge h

end

theorem Kind.integer_plain : Kind.integer.Plain := by
  refine Kind.scalar_plain fun x => ?_
  split
  · split_ifs
    · exact .ok trivial
    · exact .error (mismatched_ofMismatch _)
  · exact .error (mismatched_ofMismatch _)

theorem Kind.float_plain : Kind.float.Plain := by
  refine Kind.scalar_plain fun x => ?_
  split
  · exact .ok trivial
  · exact .ok trivial
  · exact .error (mismatched_ofMismatch _)

theorem Kind.text_plain : Kind.text.Plain := by
  refine Kind.scalar_plain fun x => ?_
  split
  · exact .ok trivial
  · exact .error (mismatched_ofMismatch _)

/-! ## Fields -/

namespace Fields

/-- The kinds of all fields are plain. -/
def Plain {τ : Type} : Fields τ → Prop
  | .nil => True
  | .field _ kind rest => kind.Plain ∧ rest.Plain

variable {τ : Type} {f : Fields τ}

theorem put_judged (hf : f.Plain) (name : String) (x : Json) (slots : f.Slots) :
    Judged (fun _ => True) (f.put name x slots) := by
  induction f with
  | nil => exact .ok trivial
  | field n kind rest ih =>
    obtain ⟨hkind, hothers⟩ := hf
    rw [put]
    split_ifs
    · exact (hkind.values x).map fun _ => id
    · exact (ih hothers slots.2).map fun _ => id

theorem putAll_judged (hf : f.Plain) (members : List (String × Json)) (slots : f.Slots) :
    Judged (fun _ => True) (f.putAll members slots) := by
  induction members generalizing slots with
  | nil => exact .ok trivial
  | cons member members ih =>
    obtain ⟨name, x⟩ := member
    rw [putAll]
    split
    · exact .error (mismatched_ofMismatch _)
    · exact .error (mismatched_ofMismatch _)
    · have hput := put_judged hf name x slots
      split
      next failure hfailure => exact .error ((hput.of_error hfailure).within _)
      next after _ => exact ih after

theorem ofItems_judged (hf : f.Plain) (few : Nat → Mismatch) (index : Nat) (items : List Json) :
    Judged (fun _ => True) (f.ofItems few index items) := by
  induction f generalizing index items with
  | nil => exact .ok trivial
  | field n kind rest ih =>
    obtain ⟨hkind, hothers⟩ := hf
    cases items with
    | nil => exact .error (mismatched_ofMismatch _)
    | cons x items =>
      have hx := hkind.values x
      rw [ofItems]
      split
      next failure hfailure => exact .error ((hx.of_error hfailure).within _)
      next a _ => exact (ih hothers (index + 1) items).map fun _ => id

theorem readInto_kept (hf : f.Plain) (name : String) {bytes : Bytes} (h : Encoded bytes)
    (slots : f.Slots) : KeptWith (fun _ => True) (f.readInto name bytes slots) := by
  induction f with
  | nil => exact .ok ⟨trivial, h⟩
  | field n kind rest ih =>
    obtain ⟨hkind, hothers⟩ := hf
    rw [readInto]
    split_ifs
    · exact (hkind.texts bytes h).map fun _ => id
    · exact (ih hothers slots.2).map fun _ => id

theorem behindMembers_encoded {bytes : Bytes} (h : Encoded bytes) :
    Encoded (behindMembers bytes) := by
  have hskip := h.skipSpace
  unfold behindMembers
  split
  · exact .nil
  next b rest hbytes =>
    rw [hbytes] at hskip
    split_ifs with hclose
    · exact hskip.tail (by rw [hclose]; decide)
    · exact hskip

theorem readAll_kept (hf : f.Plain) (rounds : Nat) (first : Bool) (slots : f.Slots) {bytes : Bytes}
    (h : Encoded bytes) : KeptWith (fun _ => True) (f.readAll rounds first slots bytes) := by
  induction rounds generalizing first slots bytes with
  | zero => exact .error nofun
  | succ rounds ih =>
    have hnext := Json.nextMember_kept first h
    rw [readAll]
    split
    next fault hfault => exact .error (plain_of_fault ((hnext.of_error hfault).within _))
    next behind hclose =>
      have hbehind := behindMembers_encoded (hnext.of_ok hclose)
      dsimp only
      split
      · exact .error (plain_atRest _ _)
      · exact .ok ⟨trivial, hbehind⟩
    next behind hopen =>
      have hname := Json.string_kept (hnext.of_ok hopen)
      split
      next fault hfault => exact .error (plain_of_fault ((hname.of_error hfault).within _))
      next name rest hrest =>
        have hcolon := Json.colon_kept (hname.of_ok hrest)
        split
        · exact .error ((plain_atRest _ _).within _)
        · exact .error (plain_atRest _ _)
        · split
          next fault hfault => exact .error (plain_of_fault (hcolon.of_error hfault))
          next rest hrest =>
            have hinto := readInto_kept hf name (hcolon.of_ok hrest) slots
            split
            next failure hfailure => exact .error ((hinto.of_error hfailure).within _)
            next after rest hrest => exact ih _ _ (hinto.of_ok hrest).2

theorem endItems_kept {bytes : Bytes} (h : Encoded bytes) :
    Outcome Json.Fault.Plain Encoded (endItems bytes) := by
  have hskip := h.skipSpace
  unfold endItems
  split
  · exact .error nofun
  next b rest hbytes =>
    rw [hbytes] at hskip
    dsimp only
    split_ifs with hclose
    · exact .ok (hskip.tail (by rw [hclose]; decide))
    all_goals exact .error nofun

theorem readItems_kept (hf : f.Plain) (few : Nat → Mismatch) (index : Nat) {bytes : Bytes}
    (h : Encoded bytes) : KeptWith (fun _ => True) (f.readItems few index bytes) := by
  induction f generalizing index bytes with
  | nil => exact .ok ⟨trivial, h⟩
  | field n kind rest ih =>
    obtain ⟨hkind, hothers⟩ := hf
    have hnext := Json.nextItem_kept (index = 0) h
    rw [readItems]
    split
    next fault hfault => exact .error (plain_of_fault (hnext.of_error hfault))
    · exact .error (plain_atRest _ _)
    next behind hopen =>
      have hread := hkind.texts behind (hnext.of_ok hopen)
      split
      next failure hfailure => exact .error ((hread.of_error hfailure).within _)
      next a rest hrest => exact (ih hothers (index + 1) (hread.of_ok hrest).2).map fun _ => id

end Fields

/-! ## Records -/

theorem Kind.record_plain {τ α : Type} {name : String} {f : Fields τ} {build : τ → α}
    (hf : f.Plain) : (Kind.record name f build).Plain where
  values x := by
    cases x with
    | object members =>
      have hput := Fields.putAll_judged hf members f.empty
      simp only [Kind.record]
      split
      next failure hfailure => exact .error (hput.of_error hfailure)
      · split
        · exact .error (mismatched_ofMismatch _)
        · exact .ok trivial
    | array items =>
      have hitems := Fields.ofItems_judged hf (.fewItems name f.names.length) 0 items
      simp only [Kind.record]
      split
      next failure hfailure => exact .error (hitems.of_error hfailure)
      · split_ifs
        · exact .error (mismatched_ofMismatch _)
        · exact .ok trivial
    | null | bool _ | integer _ | float _ | text _ => exact .error (mismatched_ofMismatch _)
  texts bytes h := by
    have hskip := h.skipSpace
    simp only [Kind.record]
    split
    next hbrace =>
      have hmembers := Fields.readAll_kept hf (f.names.length + 1) true f.empty
        (hskip.drop_one hbrace (by decide))
      split
      next failure hfailure => exact .error (hmembers.of_error hfailure)
      next contents rest hrest => exact .ok (hmembers.of_ok hrest)
    · split
      next hbracket =>
        have hitems := Fields.readItems_kept hf (.fewItems name f.names.length) 0
          (hskip.drop_one hbracket (by decide))
        split
        next failure hfailure => exact .error (hitems.of_error hfailure)
        next contents rest hrest =>
          have hend := Fields.endItems_kept (hitems.of_ok hrest).2
          split
          next fault hfault => exact .error (plain_of_fault (hend.of_error hfault))
          next rest hrest => exact .ok ⟨trivial, hend.of_ok hrest⟩
      · exact readScalar_kept _ (fun _ => .error (mismatched_ofMismatch _)) hskip

theorem myType_plain : myType.Plain := Kind.record_plain ⟨Kind.integer_plain, trivial⟩

theorem segmentFields_plain : segmentFields.Plain :=
  ⟨Kind.float_plain, Kind.text_plain, Kind.text_plain, trivial⟩

theorem complexSegment_plain : complexSegment.Plain := Kind.record_plain segmentFields_plain

theorem complexSegment22_plain : complexSegment22.Plain := Kind.record_plain segmentFields_plain

theorem a_plain : a.Plain := Kind.record_plain ⟨Kind.text_plain, trivial⟩

theorem b_plain : b.Plain := Kind.record_plain ⟨a_plain, Kind.text_plain, trivial⟩

theorem variant_plain {name : String} {kind : Kind Record} (h : (name, kind) ∈ variants) :
    kind.Plain :=
  @variants_induction (fun _ kind => kind.Plain) (myType_plain.map _) (complexSegment_plain.map _)
    (complexSegment22_plain.map _) (a_plain.map _) (b_plain.map _) name kind h

/-! ## Tagged records -/

theorem judgeTag_judged (x : Json) : Judged Kind.Plain (judgeTag x) := by
  cases hx : judgeTag x with
  | ok kind =>
    obtain ⟨name, -, hmem⟩ := judgeTag_eq_ok_iff.1 hx
    exact .ok (variant_plain (Table.mem_of_find? hmem))
  | error failure =>
    unfold judgeTag at hx
    split at hx
    · split at hx
      · cases hx
      · cases hx
        exact .error (mismatched_ofMismatch _)
    · cases hx
      exact .error (mismatched_ofMismatch _)

theorem decodeBody_judged {kind : Kind Record} (hkind : kind.Plain) (body : Json) :
    Judged (fun _ => True) (decodeBody kind body) := by
  have hbody := hkind.values body
  unfold decodeBody
  split
  · exact .ok trivial
  next failure hfailure => exact .error (hbody.of_error hfailure).setAside

theorem splitTag_judged (members : List (String × Json)) (kind : Option (Kind Record))
    (hkind : ∀ k ∈ kind, k.Plain) (aside : List (String × Json)) :
    Judged (fun split => split.1.Plain) (splitTag kind aside members) := by
  induction members generalizing kind aside with
  | nil =>
    cases kind with
    | none => exact .error (mismatched_ofMismatch _)
    | some k => exact .ok (hkind k rfl)
  | cons member members ih =>
    obtain ⟨name, x⟩ := member
    rw [splitTag]
    split_ifs
    · exact .error (mismatched_ofMismatch _)
    · have htag := judgeTag_judged x
      split
      next failure hfailure => exact .error ((htag.of_error hfailure).within _)
      next k hk => exact ih _ (by simpa using htag.of_ok hk) aside
    · exact ih kind hkind _

theorem taggedOfJson_judged (x : Json) : Judged (fun _ => True) (taggedOfJson x) := by
  unfold taggedOfJson
  split
  next members =>
    have hsplit := splitTag_judged members none (by simp) []
    split
    next failure hfailure => exact .error (hsplit.of_error hfailure)
    next kind body hbody => exact decodeBody_judged (hsplit.of_ok hbody) _
  · exact .error (mismatched_ofMismatch _)
  next tag items =>
    have htag := judgeTag_judged tag
    split
    next failure hfailure => exact .error ((htag.of_error hfailure).within _)
    next kind hkind => exact decodeBody_judged (htag.of_ok hkind) _
  · exact .error (mismatched_ofMismatch _)

theorem readTagged_kept (rounds : Nat) {kind : Option (Kind Record)} (hkind : ∀ k ∈ kind, k.Plain)
    (aside : List (String × Json)) (first : Bool) {bytes : Bytes} (h : Encoded bytes) :
    KeptWith (fun split => split.1.Plain) (readTagged rounds kind aside first bytes) := by
  induction rounds generalizing kind aside first bytes with
  | zero => exact .error nofun
  | succ rounds ih =>
    have hnext := Json.nextMember_kept first h
    rw [readTagged]
    split
    next fault hfault => exact .error (plain_of_fault ((hnext.of_error hfault).within _))
    next behind hclose =>
      have hbehind := Fields.behindMembers_encoded (hnext.of_ok hclose)
      cases kind with
      | none => exact .error (plain_atRest _ _)
      | some k => exact .ok ⟨hkind k rfl, hbehind⟩
    next behind hopen =>
      have hname := Json.string_kept (hnext.of_ok hopen)
      split
      next fault hfault => exact .error (plain_of_fault ((hname.of_error hfault).within _))
      next name rest hrest =>
        have hcolon := Json.colon_kept (hname.of_ok hrest)
        split
        · exact .error (plain_atRest _ _)
        · split
          next fault hfault => exact .error (plain_of_fault (hcolon.of_error hfault))
          next rest hrest =>
            have hcontent := hcolon.of_ok hrest
            split
            · have htag := readScalar_kept .tag judgeTag_judged hcontent
              split
              next failure hfailure => exact .error ((htag.of_error hfailure).within _)
              next k rest hrest =>
                obtain ⟨hk, hbehind⟩ := htag.of_ok hrest
                exact ih (by simpa using hk) aside false hbehind
            · have hx := Json.value_kept rest.length (Json.depthLimit - 1) hcontent
              split
              next fault hfault => exact .error (plain_of_fault ((hx.of_error hfault).within _))
              next x rest hrest => exact ih hkind _ false (hx.of_ok hrest)

theorem readItemsAside_kept (rounds index : Nat) (aside : List Json) {bytes : Bytes}
    (h : Encoded bytes) : KeptWith (fun _ => True) (readItemsAside rounds index aside bytes) := by
  induction rounds generalizing index aside bytes with
  | zero => exact .error nofun
  | succ rounds ih =>
    have hnext := Json.nextItem_kept false h
    rw [readItemsAside]
    split
    next fault hfault => exact .error (plain_of_fault (hnext.of_error hfault))
    next behind hclose => exact .ok ⟨trivial, h.behind_items hclose⟩
    next behind hopen =>
      have hx := Json.value_kept behind.length (Json.depthLimit - 1) (hnext.of_ok hopen)
      split
      next fault hfault => exact .error (plain_of_fault ((hx.of_error hfault).within _))
      next x rest hrest => exact ih _ _ (hx.of_ok hrest)

theorem readTaggedItems_kept {bytes : Bytes} (h : Encoded bytes) :
    KeptWith (fun split => split.1.Plain) (readTaggedItems bytes) := by
  have hnext := Json.nextItem_kept true h
  unfold readTaggedItems
  split
  next fault hfault => exact .error (plain_of_fault (hnext.of_error hfault))
  · exact .error (plain_atRest _ _)
  next behind hopen =>
    have htag := readScalar_kept .tag judgeTag_judged (hnext.of_ok hopen)
    split
    next failure hfailure => exact .error ((htag.of_error hfailure).within _)
    next kind rest hrest =>
      obtain ⟨hkind, hbehind⟩ := htag.of_ok hrest
      exact (readItemsAside_kept (rest.length + 1) 1 [] hbehind).map fun _ hread => ⟨hkind, hread.2⟩

theorem finishTagged_kept {split : Except Failure ((Kind Record × Json) × Bytes)}
    (h : KeptWith (fun split => split.1.Plain) split) :
    KeptWith (fun _ => True) (finishTagged split) := by
  cases h with
  | error hfailure => exact .error hfailure
  | @ok read hread =>
    obtain ⟨⟨kind, body⟩, rest⟩ := read
    have hbody := decodeBody_judged hread.1 body
    unfold finishTagged
    dsimp only
    generalize decodeBody kind body = decoded at hbody ⊢
    cases hbody with
    | ok _ => exact .ok ⟨trivial, hread.2⟩
    | error hfailure => exact .error hfailure.plain

theorem tagged_plain : tagged.Plain where
  values := taggedOfJson_judged
  texts bytes h := by
    have hskip := h.skipSpace
    simp only [tagged]
    split
    next hbrace =>
      exact finishTagged_kept (readTagged_kept _ (by simp) [] true
        (hskip.drop_one hbrace (by decide)))
    · split
      next hbracket =>
        exact finishTagged_kept (readTaggedItems_kept (hskip.drop_one hbracket (by decide)))
      · exact readScalar_kept _ (fun _ => .error (mismatched_ofMismatch _)) hskip

end RecordCheck.Decode
