import RecordCheck.Proofs.Json.Whole
import RecordCheck.Proofs.Decode.Fields
set_option autoImplicit false

/-!
# Decode: reading a record is decoding its value

A kind `Streams` if it decodes from bytes what it decodes from the value that stands there, fails at
the same node where it fails, and accepts nothing in which a name is repeated.  Scalar kinds stream
(`Kind.scalar_streams`), and records of fields that stream do (`Kind.record_streams`).
-/

namespace RecordCheck.Decode

open Json (Bytes Reads ReadsItems ReadsMembers Nested Unique)

/-- Decoding a value and decoding the bytes in front of `rest` that write it come to the same: to
the same content, or to failures at the same node. -/
inductive Alike {α : Type} (rest : Bytes) :
    Except Failure α → Except Failure (α × Bytes) → Prop
  | ok (a : α) : Alike rest (.ok a) (.ok (a, rest))
  | error {failure failure' : Failure} (path : failure'.path = failure.path) :
      Alike rest (.error failure) (.error failure')

/-- The kind decodes values and the bytes that write them alike, and takes only values without
repeated names. -/
structure Kind.Streams {α : Type} (kind : Kind α) (depth : Nat) : Prop where
  alike : ∀ bytes x rest, Reads depth bytes x rest → Alike rest (kind.ofJson x) (kind.read bytes)
  reads : ∀ bytes a rest, kind.read bytes = .ok (a, rest) → ∃ x, Reads depth bytes x rest
  strict : ∀ x a, kind.ofJson x = .ok a → Unique x

section

variable {α β : Type} {rest : Bytes} {decoded : Except Failure α}
  {read : Except Failure (α × Bytes)}

theorem Alike.eq_ok (h : Alike rest decoded read) {a : α} (ha : decoded = .ok a) :
    read = .ok (a, rest) := by
  cases h with
  | ok a' => rw [Except.ok.inj ha]
  | error path => exact nomatch ha

theorem Alike.eq_error (h : Alike rest decoded read) {failure : Failure}
    (hfailure : decoded = .error failure) :
    ∃ failure', read = .error failure' ∧ failure'.path = failure.path := by
  cases h with
  | ok a => exact nomatch hfailure
  | error path =>
    obtain rfl := Except.error.inj hfailure
    exact ⟨_, rfl, path⟩

theorem Alike.of_read_ok (h : Alike rest decoded read) {a : α} {rest' : Bytes}
    (ha : read = .ok (a, rest')) : decoded = .ok a ∧ rest = rest' := by
  cases h with
  | ok a' =>
    obtain ⟨rfl, rfl⟩ := Prod.mk.inj (Except.ok.inj ha)
    exact ⟨rfl, rfl⟩
  | error path => exact nomatch ha

theorem Alike.map (h : Alike rest decoded read) (f : α → β) :
    Alike rest (decoded.map f) (read.map fun (a, rest) => (f a, rest)) := by
  cases h with
  | ok a => exact .ok (f a)
  | error path => exact .error path

end

theorem Kind.Streams.map {α β : Type} {kind : Kind α} {depth : Nat} (h : kind.Streams depth)
    (f : α → β) : (kind.map f).Streams depth where
  alike bytes x rest hread := (h.alike bytes x rest hread).map f
  reads bytes b rest hread := by
    obtain ⟨⟨a, rest'⟩, ha, hpair⟩ := Json.map_eq_ok_iff.1 hread
    obtain ⟨-, rfl⟩ := Prod.mk.inj hpair
    exact h.reads bytes a rest' ha
  strict x b hdecoded := by
    obtain ⟨a, ha, -⟩ := Kind.map_eq_ok_iff.1 hdecoded
    exact h.strict x a ha

/-! ## Scalars -/

section

variable {α : Type} {expected : Expected} {judge : Json → Except Failure α}

/-- The judgement accepts no array and no object, and blames the node itself. -/
def Flat (judge : Json → Except Failure α) : Prop :=
  ∀ x, Nested x → ∃ m, judge x = .error (.ofMismatch m)

theorem readScalar_alike (expected : Expected) (hjudge : Flat judge) {depth : Nat}
    {bytes rest : Bytes} {x : Json} (h : Reads depth bytes x rest) :
    Alike rest (judge x) (readScalar expected judge bytes) := by
  unfold readScalar
  rcases h.cases with ⟨hread, -, harray, hobject⟩ | ⟨_, _, xs, -, rfl, hopened, -⟩ |
    ⟨_, _, ms, -, rfl, hopened, -⟩
  · rw [if_neg harray, if_neg hobject, Json.valueOver_skipSpace, hread]
    cases hx : judge x with
    | ok a => simpa only [hx] using Alike.ok a
    | error failure => simpa only [hx] using .error rfl
  · obtain ⟨m, hm⟩ := hjudge (.array xs) trivial
    simp only [hopened, List.head?_cons, if_true, hm]
    exact .error rfl
  · obtain ⟨m, hm⟩ := hjudge (.object ms) trivial
    have hbrace : some (0x7b : UInt8) ≠ some 0x5b := by decide
    simp only [hopened, List.head?_cons, hbrace, if_true, if_false, hm]
    exact .error rfl

/-- What is read as a scalar is one. -/
theorem reads_of_readScalar (depth : Nat) {bytes rest : Bytes} {a : α}
    (h : readScalar expected judge bytes = .ok (a, rest)) :
    ∃ x, Reads depth bytes x rest ∧ judge x = .ok a := by
  unfold readScalar at h
  dsimp only at h
  split_ifs at h
  split at h
  · exact nomatch h
  next x rest' hread =>
  split at h
  next a' hjudge =>
    obtain ⟨rfl, rfl⟩ := Prod.mk.inj (Except.ok.inj h)
    rw [Json.valueOver_skipSpace] at hread
    exact ⟨x, .scalar hread, hjudge⟩
  · exact nomatch h

theorem Kind.scalar_streams (hjudge : Flat judge) (depth : Nat) :
    (Kind.scalar expected judge).Streams depth where
  alike _ _ _ h := readScalar_alike expected hjudge h
  reads _ _ _ h := by
    obtain ⟨x, hx, -⟩ := reads_of_readScalar depth h
    exact ⟨x, hx⟩
  strict x a h := by
    apply Json.unique_of_not_nested
    intro hx
    obtain ⟨m, hm⟩ := hjudge x hx
    exact nomatch hm.symm.trans h

end

theorem Kind.integer_streams (depth : Nat) : Kind.integer.Streams depth :=
  Kind.scalar_streams (fun x hx => by cases x <;> first | exact hx.elim | exact ⟨_, rfl⟩) depth

theorem Kind.float_streams (depth : Nat) : Kind.float.Streams depth :=
  Kind.scalar_streams (fun x hx => by cases x <;> first | exact hx.elim | exact ⟨_, rfl⟩) depth

theorem Kind.text_streams (depth : Nat) : Kind.text.Streams depth :=
  Kind.scalar_streams (fun x hx => by cases x <;> first | exact hx.elim | exact ⟨_, rfl⟩) depth

/-! ## Fields -/

namespace Fields

/-- Each of the fields streams. -/
def Streams (depth : Nat) {τ : Type} : Fields τ → Prop
  | .nil => True
  | .field _ kind rest => kind.Streams depth ∧ rest.Streams depth

/-- The number of fields that wait for their content. -/
def vacant {τ : Type} : (f : Fields τ) → f.Slots → Nat
  | .nil, _ => 0
  | .field _ _ rest, slots => (if slots.1.isSome then 0 else 1) + rest.vacant slots.2

/-- What members, put into slots, decode to. -/
def decodeMembers {τ : Type} (f : Fields τ) (members : List (String × Json)) (slots : f.Slots) :
    Except Failure τ :=
  match f.putAll members slots with
  | .error failure => .error failure
  | .ok slots =>
    match f.finish slots with
    | .error m => .error (.ofMismatch m)
    | .ok contents => .ok contents

variable {τ : Type} {f : Fields τ} {depth : Nat} {name : String} {x : Json}

theorem vacant_empty (f : Fields τ) : f.vacant f.empty = f.names.length := by
  induction f with
  | nil => rfl
  | field n kind rest ih =>
    rw [names, List.length_cons, ← ih, Nat.add_comm]
    rfl

theorem vacant_put {slots after : f.Slots} (hfree : f.state name slots = .free)
    (hput : f.put name x slots = .ok after) : f.vacant after + 1 = f.vacant slots := by
  induction f with
  | nil => exact nomatch hfree
  | field n kind rest ih =>
    rw [state] at hfree
    rw [put] at hput
    split_ifs at hfree hput with hname hslot
    · obtain ⟨a, -, rfl⟩ := Json.map_eq_ok_iff.1 hput
      simp only [vacant, hslot]
      simp [Nat.add_comm]
    · obtain ⟨others, hothers, rfl⟩ := Json.map_eq_ok_iff.1 hput
      have hrest := ih hfree hothers
      simp only [vacant]
      omega

theorem readInto_alike (hf : f.Streams depth) {slots : f.Slots} (hfree : f.state name slots = .free)
    {bytes rest : Bytes} (h : Reads depth bytes x rest) :
    Alike rest (f.put name x slots) (f.readInto name bytes slots) := by
  induction f with
  | nil => exact nomatch hfree
  | field n kind others ih =>
    rw [state] at hfree
    rw [put, readInto]
    split_ifs at hfree ⊢ with hname
    · exact (hf.1.alike _ _ _ h).map _
    · exact (ih hf.2 hfree).map _

theorem reads_of_readInto (hf : f.Streams depth) {slots after : f.Slots}
    (hfree : f.state name slots = .free) {bytes rest : Bytes}
    (h : f.readInto name bytes slots = .ok (after, rest)) : ∃ x, Reads depth bytes x rest := by
  induction f with
  | nil => exact nomatch hfree
  | field n kind others ih =>
    rw [state] at hfree
    rw [readInto] at h
    split_ifs at hfree h with hname
    · obtain ⟨⟨a, rest'⟩, hread, hpair⟩ := Json.map_eq_ok_iff.1 h
      obtain ⟨-, rfl⟩ := Prod.mk.inj hpair
      exact hf.1.reads _ _ _ hread
    · obtain ⟨⟨slots', rest'⟩, hread, hpair⟩ := Json.map_eq_ok_iff.1 h
      obtain ⟨-, rfl⟩ := Prod.mk.inj hpair
      exact ih hf.2 hfree hread

/-! ## Members -/

theorem behindMembers_brace (rest : Bytes) : behindMembers (0x7d :: rest) = rest := by
  rw [behindMembers, Json.skipSpace_cons (by decide)]
  rfl

/-- Reading members into slots comes to what putting them there does.  Each round fills a slot, so
the rounds last as long as some field waits. -/
theorem readAll_alike (hf : f.Streams depth) {first : Bool} {bytes rest : Bytes}
    {members : List (String × Json)} (h : ReadsMembers (Reads depth) first bytes members rest)
    {rounds : Nat} {slots : f.Slots} (hrounds : f.vacant slots < rounds) :
    Alike rest (f.decodeMembers members slots) (f.readAll rounds first slots bytes) := by
  induction h generalizing rounds slots with
  | close next =>
    obtain ⟨rounds, rfl⟩ := Nat.exists_eq_add_of_lt hrounds
    simp only [decodeMembers, putAll, readAll, next, behindMembers_brace]
    cases f.finish slots with
    | error m => exact .error rfl
    | ok contents => exact .ok contents
  | @member _ _ _ _ _ _ _ name x members next named parted read others ih =>
    obtain ⟨rounds, rfl⟩ := Nat.exists_eq_add_of_lt hrounds
    simp only [decodeMembers, putAll, readAll, next, named]
    cases hstate : f.state name slots with
    | unknown => exact .error rfl
    | taken => exact .error rfl
    | free =>
      have hinto := readInto_alike hf hstate read
      simp only [parted]
      cases hput : f.put name x slots with
      | error failure =>
        obtain ⟨failure', hread, hpath⟩ := hinto.eq_error hput
        simp only [hread]
        exact .error (congrArg (Json.Step.member name :: ·) hpath)
      | ok after =>
        have hvacant := vacant_put hstate hput
        simp only [hinto.eq_ok hput]
        exact ih (by omega)

/-- Where members are read, members stand. -/
theorem readsMembers_of_readAll (hf : f.Streams depth) {rounds : Nat} {first : Bool}
    {bytes rest : Bytes} {slots : f.Slots} {contents : τ}
    (h : f.readAll rounds first slots bytes = .ok (contents, rest)) :
    ∃ members, ReadsMembers (Reads depth) first bytes members rest := by
  induction rounds generalizing first slots bytes with
  | zero => exact nomatch h
  | succ rounds ih =>
    rw [readAll] at h
    split at h
    · exact nomatch h
    next behind hnext =>
      obtain ⟨_, rest', _, _, rfl⟩ := Json.nextMember_false_iff.1 hnext
      dsimp only at h
      split at h
      · exact nomatch h
      · obtain ⟨-, rfl⟩ := Prod.mk.inj (Except.ok.inj h)
        rw [behindMembers_brace]
        exact ⟨[], .close hnext⟩
    next opened hnext =>
      split at h
      · exact nomatch h
      next name behind hname =>
      split at h
      · exact nomatch h
      · exact nomatch h
      next hstate =>
      split at h
      · exact nomatch h
      next content hcolon =>
      split at h
      · exact nomatch h
      next after between hinto =>
      obtain ⟨x, hx⟩ := reads_of_readInto hf hstate hinto
      obtain ⟨members, hmembers⟩ := ih h
      exact ⟨(name, x) :: members, .member hnext hname hcolon hx hmembers⟩

/-! ## Items -/

/-- Taking the bracket behind the last item succeeds exactly if it stands there, and blames the
array if it does not. -/
theorem endItems_cases (bytes : Bytes) :
    (∃ rest, endItems bytes = .ok rest ∧ Json.skipSpace bytes = 0x5d :: rest) ∨
      ∃ fault, endItems bytes = .error fault ∧ fault.path = [] ∧
        (Json.skipSpace bytes).head? ≠ some 0x5d := by
  unfold endItems
  split
  next hskip => exact .inr ⟨_, rfl, rfl, by simp [hskip]⟩
  next b rest hskip =>
    dsimp only
    split_ifs with hclose
    · exact .inl ⟨rest, rfl, by rw [hskip, hclose]⟩
    all_goals exact .inr ⟨_, rfl, rfl, by simpa [hskip] using hclose⟩

/-- Reading items field by field comes to what decoding them does, and leaves the items that are
more than the fields. -/
theorem readItems_alike (hf : f.Streams depth) (few : Nat → Mismatch) (index : Nat)
    {bytes rest : Bytes} {items : List Json}
    (h : ReadsItems (Reads depth) (index = 0) bytes items rest) :
    ∃ first between, ReadsItems (Reads depth) first between (items.drop f.names.length) rest ∧
      Alike between (f.ofItems few index items) (f.readItems few index bytes) := by
  induction f generalizing index bytes items with
  | nil => exact ⟨_, bytes, h, .ok ()⟩
  | field n kind others ih =>
    rw [readItems]
    generalize hfirst : decide (index = 0) = first at h
    cases h with
    | close next =>
      subst hfirst
      simp only [next]
      exact ⟨_, bytes, .close next, .error rfl⟩
    | @item _ _ behind between _ x items next read later =>
      subst hfirst
      simp only [next, ofItems]
      rw [← decide_eq_false (Nat.succ_ne_zero index)] at later
      obtain ⟨first', between', hrest, halike⟩ := ih hf.2 (index + 1) later
      refine ⟨first', between', hrest, ?_⟩
      have hx := hf.1.alike _ _ _ read
      cases hdecoded : kind.ofJson x with
      | error failure =>
        obtain ⟨failure', hread, hpath⟩ := hx.eq_error hdecoded
        simp only [hread]
        exact .error (congrArg (Json.Step.index index :: ·) hpath)
      | ok a =>
        simp only [hx.eq_ok hdecoded]
        exact halike.map _

theorem readsItems_of_readItems (hf : f.Streams depth) {few : Nat → Mismatch} {index : Nat}
    {bytes between rest : Bytes} {contents : τ}
    (h : f.readItems few index bytes = .ok (contents, between))
    (hend : endItems between = .ok rest) :
    ∃ items, ReadsItems (Reads depth) (index = 0) bytes items rest := by
  induction f generalizing index bytes with
  | nil =>
    obtain ⟨-, rfl⟩ := Prod.mk.inj (Except.ok.inj h)
    obtain ⟨rest', hok, hskip⟩ | ⟨fault, herror, -⟩ := endItems_cases bytes
    · obtain rfl := Except.ok.inj (hok.symm.trans hend)
      obtain ⟨blank, hblank, rfl, -⟩ := Json.exists_blank hskip
      exact ⟨[], .close (Json.nextItem_false_iff.2 ⟨blank, _, hblank, rfl, rfl⟩)⟩
    · exact nomatch herror.symm.trans hend
  | field n kind others ih =>
    rw [readItems] at h
    split at h
    · exact nomatch h
    · exact nomatch h
    next behind hnext =>
    split at h
    · exact nomatch h
    next a left hread =>
    obtain ⟨⟨contents', between'⟩, hothers, hpair⟩ := Json.map_eq_ok_iff.1 h
    obtain ⟨-, rfl⟩ := Prod.mk.inj hpair
    obtain ⟨x, hx⟩ := hf.1.reads _ _ _ hread
    obtain ⟨items, hitems⟩ := ih hf.2 hothers
    exact ⟨x :: items, .item hnext hx (by simpa using hitems)⟩

theorem readsItems_bracket {node : Bytes → Json → Bytes → Prop} {first : Bool}
    {bytes rest rest' : Bytes} {items : List Json} (h : ReadsItems node first bytes items rest)
    (hskip : Json.skipSpace bytes = 0x5d :: rest') : items = [] ∧ rest = rest' := by
  have hnext : Json.nextItem first bytes = .ok (false, 0x5d :: rest') := by
    rw [Json.nextItem, hskip]
    rfl
  cases h with
  | close next =>
    have hrest := (Prod.mk.inj (Except.ok.inj (next.symm.trans hnext))).2
    exact ⟨rfl, (List.cons.inj hrest).2⟩
  | item next read others => cases next.symm.trans hnext

theorem readsItems_no_bracket {node : Bytes → Json → Bytes → Prop} {first : Bool}
    {bytes rest : Bytes} {items : List Json} (h : ReadsItems node first bytes items rest)
    (hskip : (Json.skipSpace bytes).head? ≠ some 0x5d) : items ≠ [] := by
  rintro rfl
  cases h with
  | close next =>
    obtain ⟨blank, _, hblank, rfl, -⟩ := Json.nextItem_false_iff.1 next
    rw [Json.skipSpace_blank_cons hblank (by decide)] at hskip
    exact hskip rfl

/-! ## Strictness -/

theorem unique_of_accepts (hf : f.Streams depth) (h : f.Accepts name x) : Unique x := by
  induction f with
  | nil => exact h.elim
  | field n kind others ih =>
    rw [Accepts] at h
    split_ifs at h with hname
    · obtain ⟨a, ha⟩ := h
      exact hf.1.strict x a ha
    · exact ih hf.2 h

theorem unique_of_filledInOrder (hf : f.Streams depth) {items : List Json} {contents : τ}
    (h : f.FilledInOrder items contents) (hlength : items.length = f.names.length) :
    ∀ x ∈ items, Unique x := by
  induction f generalizing items with
  | nil =>
    obtain rfl := List.length_eq_zero_iff.1 hlength
    exact nofun
  | field n kind others ih =>
    cases items with
    | nil => exact nofun
    | cons x items =>
      exact List.forall_mem_cons.2 ⟨hf.1.strict x _ h.1, ih hf.2 h.2 (Nat.succ_injective hlength)⟩

end Fields

/-! ## Records -/

section

variable {τ α : Type} {name : String} {f : Fields τ} {build : τ → α} {depth : Nat}
  {bytes rest : Bytes}

theorem Kind.record_array_alike (hf : f.Streams depth) {behind : Bytes} {items : List Json}
    (hopened : Json.skipSpace bytes = 0x5b :: behind)
    (h : ReadsItems (Reads depth) true behind items rest) :
    Alike rest ((Kind.record name f build).ofJson (.array items))
      ((Kind.record name f build).read bytes) := by
  have hbracket : some (0x5b : UInt8) ≠ some 0x7b := by decide
  obtain ⟨first, between, hleft, halike⟩ :=
    Fields.readItems_alike hf (.fewItems name f.names.length) 0 h
  simp only [Kind.record, hopened, List.head?_cons, hbracket, if_true, if_false, List.drop_one,
    List.tail_cons]
  cases hdecoded : f.ofItems (.fewItems name f.names.length) 0 items with
  | error failure =>
    obtain ⟨failure', hread, hpath⟩ := halike.eq_error hdecoded
    simp only [hread]
    exact .error hpath
  | ok contents =>
    simp only [halike.eq_ok hdecoded]
    -- The bracket stands behind the last field exactly if there are no more items than fields.
    obtain ⟨rest', hend, hskip⟩ | ⟨fault, hend, hpath, hskip⟩ := Fields.endItems_cases between
    · obtain ⟨hnone, rfl⟩ := Fields.readsItems_bracket hleft hskip
      rw [List.drop_eq_nil_iff] at hnone
      simp only [hend, if_neg (not_lt.2 hnone)]
      exact .ok _
    · have hsome := Fields.readsItems_no_bracket hleft hskip
      rw [Ne, List.drop_eq_nil_iff, not_le] at hsome
      simp only [hend, if_pos hsome]
      exact .error hpath

theorem Kind.record_object_alike (hf : f.Streams depth) {behind : Bytes}
    {members : List (String × Json)} (hopened : Json.skipSpace bytes = 0x7b :: behind)
    (h : ReadsMembers (Reads depth) true behind members rest) :
    Alike rest ((Kind.record name f build).ofJson (.object members))
      ((Kind.record name f build).read bytes) := by
  have hrounds : f.vacant f.empty < f.names.length + 1 := by
    rw [Fields.vacant_empty]
    exact Nat.lt_succ_self _
  have halike := Fields.readAll_alike hf h hrounds
  have hdecoded : (Kind.record name f build).ofJson (.object members) =
      (f.decodeMembers members f.empty).map build := by
    simp only [Kind.record, Fields.decodeMembers]
    cases f.putAll members f.empty with
    | error failure => rfl
    | ok slots =>
      cases hfinish : f.finish slots with
      | error m => simp only [hfinish]; rfl
      | ok contents => simp only [hfinish]; rfl
  have hread : (Kind.record name f build).read bytes =
      (f.readAll (f.names.length + 1) true f.empty behind).map
        fun (c, rest) => (build c, rest) := by
    simp only [Kind.record, hopened, List.head?_cons, if_true, List.drop_one, List.tail_cons]
    cases f.readAll (f.names.length + 1) true f.empty behind <;> rfl
  rw [hdecoded, hread]
  exact halike.map build

theorem Kind.record_alike (hf : f.Streams depth) {x : Json} (h : Reads (depth + 1) bytes x rest) :
    Alike rest ((Kind.record name f build).ofJson x) ((Kind.record name f build).read bytes) := by
  rcases h.cases with ⟨hread, hx, harray, hobject⟩ | ⟨inner, behind, items, hdepth, rfl, hopened,
    hitems⟩ | ⟨inner, behind, members, hdepth, rfl, hopened, hmembers⟩
  · have hread' : Reads depth (Json.skipSpace bytes) x rest :=
      .scalar (by rwa [Json.valueOver_skipSpace])
    have hjudge : Flat fun x =>
        (.error (.ofMismatch (.wrongType (.ofJson x) (.record name))) : Except Failure α) :=
      fun x _ => ⟨_, rfl⟩
    have halike := readScalar_alike (.record name) hjudge hread'
    have hdecoded : (Kind.record name f build).ofJson x =
        .error (.ofMismatch (.wrongType (.ofJson x) (.record name))) := by
      cases x with
      | array _ | object _ => exact absurd trivial hx
      | null | bool _ | integer _ | float _ | text _ => rfl
    rw [hdecoded]
    simpa only [Kind.record, if_neg harray, if_neg hobject] using halike
  · obtain rfl := Nat.succ_injective hdepth
    exact Kind.record_array_alike hf hopened hitems
  · obtain rfl := Nat.succ_injective hdepth
    exact Kind.record_object_alike hf hopened hmembers

theorem Kind.reads_of_record (hf : f.Streams depth) {a : α}
    (h : (Kind.record name f build).read bytes = .ok (a, rest)) :
    ∃ x, Reads (depth + 1) bytes x rest := by
  simp only [Kind.record] at h
  split_ifs at h with hobject harray
  · obtain ⟨behind, hopened⟩ := List.head?_eq_some_iff.1 hobject
    simp only [hopened, List.drop_one, List.tail_cons] at h
    split at h
    · cases h
    next contents rest' hread =>
      obtain ⟨-, rfl⟩ := Prod.mk.inj (Except.ok.inj h)
      obtain ⟨members, hmembers⟩ := Fields.readsMembers_of_readAll hf hread
      exact ⟨.object members, .object hopened hmembers⟩
  · obtain ⟨behind, hopened⟩ := List.head?_eq_some_iff.1 harray
    simp only [hopened, List.drop_one, List.tail_cons] at h
    split at h
    · cases h
    next contents between hread =>
      split at h
      · cases h
      next rest' hend =>
      obtain ⟨-, rfl⟩ := Prod.mk.inj (Except.ok.inj h)
      obtain ⟨items, hitems⟩ := Fields.readsItems_of_readItems hf hread hend
      exact ⟨.array items, .array hopened hitems⟩
  · obtain ⟨x, -, hx⟩ := reads_of_readScalar 0 h
    cases hx

theorem Kind.record_strict (hf : f.Streams depth) (hnames : f.names.Nodup) {x : Json} {a : α}
    (h : (Kind.record name f build).ofJson x = .ok a) : Unique x := by
  rcases Kind.record_cases h with ⟨members, rfl⟩ | ⟨items, rfl⟩
  · obtain ⟨contents, hperm, hfilled, -⟩ := (Kind.record_object_iff hnames).1 h
    have hnodup := hperm.nodup_iff.2 hnames
    refine .object hnodup fun m hm => ?_
    have haccepts := hfilled.accepts hnodup hm (hperm.subset (Table.mem_names_of_mem hm))
    exact Fields.unique_of_accepts hf haccepts
  · obtain ⟨contents, hlength, hfilled, -⟩ := Kind.record_array_iff.1 h
    exact .array (Fields.unique_of_filledInOrder hf hfilled hlength)

/-- A record of fields that stream, one level below, streams. -/
theorem Kind.record_streams (hf : f.Streams depth) (hnames : f.names.Nodup) :
    (Kind.record name f build).Streams (depth + 1) where
  alike _ _ _ h := Kind.record_alike hf h
  reads _ _ _ h := Kind.reads_of_record hf h
  strict _ _ h := Kind.record_strict hf hnames h

end

end RecordCheck.Decode
