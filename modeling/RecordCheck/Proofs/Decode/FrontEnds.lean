import RecordCheck.Proofs.Decode.Streams
import RecordCheck.Proofs.Decode.Encoded
set_option autoImplicit false

/-!
# Decode: from a text and from a value

The declared records and tagged records stream, so that a record can be decoded from a text exactly
if the text begins with that of a value it can be decoded from.  Bytes and texts have one reader,
which checks strings in both; texts always pass the check.  Main statement: `front_ends_agree`.
-/

namespace RecordCheck.Decode

open Json (Bytes Reads ReadsItems ReadsMembers Nested Unique depthLimit)

/-! ## The declared records -/

theorem myType_streams (depth : Nat) : myType.Streams (depth + 1) :=
  Kind.record_streams ⟨Kind.integer_streams depth, trivial⟩ (by decide)

theorem segmentFields_streams (depth : Nat) : segmentFields.Streams depth :=
  ⟨Kind.float_streams depth, Kind.text_streams depth, Kind.text_streams depth, trivial⟩

theorem complexSegment_streams (depth : Nat) : complexSegment.Streams (depth + 1) :=
  Kind.record_streams (segmentFields_streams depth) (by decide)

theorem complexSegment22_streams (depth : Nat) : complexSegment22.Streams (depth + 1) :=
  Kind.record_streams (segmentFields_streams depth) (by decide)

theorem a_streams (depth : Nat) : a.Streams (depth + 1) :=
  Kind.record_streams ⟨Kind.text_streams depth, trivial⟩ (by decide)

theorem b_streams (depth : Nat) : b.Streams (depth + 2) :=
  Kind.record_streams ⟨a_streams depth, Kind.text_streams (depth + 1), trivial⟩ (by decide)

theorem variant_streams {name : String} {kind : Kind Record} (h : (name, kind) ∈ variants) :
    kind.Streams depthLimit :=
  @variants_induction (fun _ kind => kind.Streams depthLimit) ((myType_streams 126).map _)
    ((complexSegment_streams 126).map _) ((complexSegment22_streams 126).map _)
    ((a_streams 126).map _) ((b_streams 125).map _) name kind h

/-! ## Tagged records -/

theorem judgeTag_flat : Flat judgeTag := by
  intro x hx
  cases x with
  | array _ | object _ => exact ⟨_, rfl⟩
  | null | bool _ | integer _ | float _ | text _ => exact hx.elim

/-- Setting aside what stands there takes what reading it takes. -/
theorem readAside_eq_ok_iff {bytes rest : Bytes} {x : Json} :
    readAside bytes.length bytes = .ok (x, rest) ↔ Reads (depthLimit - 1) bytes x rest :=
  Json.value_eq_ok_iff le_rfl

/-- A split of members, with the members that are set aside as a value. -/
def asBody : Kind Record × List (String × Json) → Kind Record × Json
  | (kind, body) => (kind, .object body)

/-- Reading members up to the brace splits them as the members of a value are split. -/
theorem readTagged_alike {first : Bool} {bytes rest : Bytes} {members : List (String × Json)}
    (h : ReadsMembers (Reads (depthLimit - 1)) first bytes members rest) {rounds : Nat}
    {kind : Option (Kind Record)} {aside : List (String × Json)}
    (hrounds : bytes.length < rounds) :
    Alike rest ((splitTag kind aside members).map asBody)
      (readTagged rounds kind aside first bytes) := by
  induction h generalizing rounds kind aside with
  | close next =>
    obtain ⟨rounds, rfl⟩ := Nat.exists_eq_add_of_lt hrounds
    simp only [readTagged, next, splitTag, Fields.behindMembers_brace]
    cases kind with
    | none => exact .error rfl
    | some kind => exact .ok _
  | @member _ _ opened behind content between _ name x members next named parted read others ih =>
    obtain ⟨rounds, rfl⟩ := Nat.exists_eq_add_of_lt hrounds
    have hlength : between.length < content.length := (Json.reads_local _).length_lt read
    have hopened := Json.nextMember_length next
    have hbehind := Json.string_length named
    have hcontent := Json.colon_length parted
    simp only [readTagged, next, named, splitTag]
    by_cases hname : name = tagName
    · cases kind with
      | some kind =>
        simp only [hname, Option.isSome_some, and_self, if_true]
        exact .error rfl
      | none =>
        simp only [hname, Option.isSome_none, and_false, Bool.false_eq_true, if_false, if_true,
          parted]
        have htag := readScalar_alike .tag judgeTag_flat read
        cases hjudged : judgeTag x with
        | error failure =>
          obtain ⟨failure', hread, hpath⟩ := htag.eq_error hjudged
          simp only [hread]
          exact .error (congrArg (Json.Step.member tagName :: ·) hpath)
        | ok kind =>
          simp only [htag.eq_ok hjudged]
          exact ih (by omega)
    · simp only [hname, false_and, if_false, parted, readAside_eq_ok_iff.2 read]
      exact ih (by omega)

/-- Where members are split, members stand. -/
theorem readsMembers_of_readTagged {rounds : Nat} {kind : Option (Kind Record)}
    {aside : List (String × Json)} {first : Bool} {bytes rest : Bytes}
    {result : Kind Record × Json}
    (h : readTagged rounds kind aside first bytes = .ok (result, rest)) :
    ∃ members, ReadsMembers (Reads (depthLimit - 1)) first bytes members rest := by
  induction rounds generalizing kind aside first bytes with
  | zero => cases h
  | succ rounds ih =>
    rw [readTagged] at h
    split at h
    · cases h
    next behind hnext =>
      obtain ⟨_, rest', _, _, rfl⟩ := Json.nextMember_false_iff.1 hnext
      dsimp only at h
      split at h
      · obtain ⟨-, rfl⟩ := Prod.mk.inj (Except.ok.inj h)
        rw [Fields.behindMembers_brace]
        exact ⟨[], .close hnext⟩
      · cases h
    next opened hnext =>
      split at h
      · cases h
      next name behind hname =>
      split_ifs at h with hagain htag
      · split at h
        · cases h
        next content hcolon =>
        split at h
        · cases h
        next kind' between hread =>
        obtain ⟨x, hx, -⟩ := reads_of_readScalar (depthLimit - 1) hread
        obtain ⟨members, hmembers⟩ := ih h
        exact ⟨(name, x) :: members, .member hnext hname hcolon hx hmembers⟩
      · split at h
        · cases h
        next content hcolon =>
        split at h
        · cases h
        next x between hread =>
        obtain ⟨members, hmembers⟩ := ih h
        exact ⟨(name, x) :: members,
          .member hnext hname hcolon (readAside_eq_ok_iff.1 hread) hmembers⟩

/-- Reading items up to the bracket sets all of them aside. -/
theorem readItemsAside_eq_ok_iff {rounds index : Nat} {aside : List Json} {bytes rest : Bytes}
    {body : Json} (hrounds : bytes.length < rounds) :
    readItemsAside rounds index aside bytes = .ok (body, rest) ↔
      ∃ items, body = .array (aside.reverse ++ items) ∧
        ReadsItems (Reads (depthLimit - 1)) false bytes items rest := by
  induction rounds generalizing index aside bytes with
  | zero => exact absurd hrounds (Nat.not_lt_zero _)
  | succ rounds ih =>
    rw [readItemsAside]
    constructor
    · intro h
      split at h
      · cases h
      next behind hnext =>
        obtain ⟨rfl, rfl⟩ := Prod.mk.inj (Except.ok.inj h)
        obtain ⟨_, rest, _, _, rfl⟩ := Json.nextItem_false_iff.1 hnext
        exact ⟨[], by rw [List.append_nil], .close hnext⟩
      next behind hnext =>
        have hbehind := Json.nextItem_length hnext
        split at h
        · cases h
        next x between hread =>
        have hx := readAside_eq_ok_iff.1 hread
        have hlength := (Json.reads_local _).length_lt hx
        obtain ⟨items, rfl, hitems⟩ := (ih (by omega)).1 h
        exact ⟨x :: items, by simp, .item hnext hx hitems⟩
    · rintro ⟨items, rfl, h⟩
      cases h with
      | close next => simp [next]
      | @item _ _ behind between _ x items next read others =>
        have hbehind := Json.nextItem_length next
        have hlength := (Json.reads_local _).length_lt read
        simp only [next, readAside_eq_ok_iff.2 read]
        exact (ih (by omega)).2 ⟨items, by simp, others⟩

/-- The tag and the other items of an array. -/
def splitItems : List Json → Except Failure (Kind Record × Json)
  | [] => .error (.ofMismatch (.missingField tagName))
  | tag :: items =>
    match judgeTag tag with
    | .error failure => .error (failure.within (.index 0))
    | .ok kind => .ok (kind, .array items)

theorem readTaggedItems_alike {bytes rest : Bytes} {items : List Json}
    (h : ReadsItems (Reads (depthLimit - 1)) true bytes items rest) :
    Alike rest (splitItems items) (readTaggedItems bytes) := by
  unfold readTaggedItems
  cases h with
  | close next =>
    simp only [next]
    exact .error rfl
  | @item _ _ behind between _ tag items next read others =>
    simp only [next, splitItems]
    have htag := readScalar_alike .tag judgeTag_flat read
    cases hjudged : judgeTag tag with
    | error failure =>
      obtain ⟨failure', hread, hpath⟩ := htag.eq_error hjudged
      simp only [hread]
      exact .error (congrArg (Json.Step.index 0 :: ·) hpath)
    | ok kind =>
      have haside := (@readItemsAside_eq_ok_iff _ 1 [] _ _ _ (Nat.lt_succ_self _)).2
        ⟨items, rfl, others⟩
      simp only [htag.eq_ok hjudged, haside]
      exact .ok _

theorem readsItems_of_readTaggedItems {bytes rest : Bytes} {result : Kind Record × Json}
    (h : readTaggedItems bytes = .ok (result, rest)) :
    ∃ items, ReadsItems (Reads (depthLimit - 1)) true bytes items rest := by
  unfold readTaggedItems at h
  split at h
  · exact nomatch h
  · exact nomatch h
  next behind hnext =>
  split at h
  · exact nomatch h
  next kind between hread =>
  obtain ⟨tag, htag, -⟩ := reads_of_readScalar (depthLimit - 1) hread
  obtain ⟨⟨body, rest'⟩, haside, hpair⟩ := Json.map_eq_ok_iff.1 h
  obtain ⟨-, rfl⟩ := Prod.mk.inj hpair
  obtain ⟨items, -, hitems⟩ := (readItemsAside_eq_ok_iff (Nat.lt_succ_self _)).1 haside
  exact ⟨tag :: items, .item hnext htag hitems⟩

/-- Decodes what is set aside, if the tag could be split off. -/
def decodeSplit : Except Failure (Kind Record × Json) → Except Failure Record
  | .error failure => .error failure
  | .ok (kind, body) => decodeBody kind body

theorem finishTagged_alike {rest : Bytes} {split : Except Failure (Kind Record × Json)}
    {read : Except Failure ((Kind Record × Json) × Bytes)} (h : Alike rest split read) :
    Alike rest (decodeSplit split) (finishTagged read) := by
  cases h with
  | error path => exact .error path
  | ok result =>
    obtain ⟨kind, body⟩ := result
    simp only [decodeSplit, finishTagged]
    cases decodeBody kind body with
    | error failure => exact .error rfl
    | ok r => exact .ok r

theorem taggedOfJson_object (members : List (String × Json)) :
    taggedOfJson (.object members) = decodeSplit ((splitTag none [] members).map asBody) := by
  rw [taggedOfJson]
  cases splitTag none [] members <;> rfl

theorem taggedOfJson_array (items : List Json) :
    taggedOfJson (.array items) = decodeSplit (splitItems items) := by
  cases items with
  | nil => rfl
  | cons tag items =>
    rw [taggedOfJson, splitItems]
    cases judgeTag tag <;> rfl

theorem tagged_alike {bytes rest : Bytes} {x : Json} (h : Reads depthLimit bytes x rest) :
    Alike rest (tagged.ofJson x) (tagged.read bytes) := by
  rcases h.cases with ⟨hread, hx, harray, hobject⟩ | ⟨inner, behind, items, hdepth, rfl, hopened,
    hitems⟩ | ⟨inner, behind, members, hdepth, rfl, hopened, hmembers⟩
  · have hread' : Reads depthLimit (Json.skipSpace bytes) x rest :=
      .scalar (by rwa [Json.valueOver_skipSpace])
    have hjudge : Flat fun x =>
        (.error (.ofMismatch (.wrongType (.ofJson x) .tagged)) : Except Failure Record) :=
      fun x _ => ⟨_, rfl⟩
    have halike := readScalar_alike .tagged hjudge hread'
    have hdecoded : tagged.ofJson x = .error (.ofMismatch (.wrongType (.ofJson x) .tagged)) := by
      cases x with
      | array _ | object _ => exact absurd trivial hx
      | null | bool _ | integer _ | float _ | text _ => rfl
    rw [hdecoded]
    simpa only [tagged, if_neg harray, if_neg hobject] using halike
  · obtain rfl : depthLimit - 1 = inner := Nat.succ_injective hdepth
    have hbracket : some (0x5b : UInt8) ≠ some 0x7b := by decide
    simp only [tagged, taggedOfJson_array, hopened, List.head?_cons, hbracket, if_true, if_false,
      List.drop_one, List.tail_cons]
    exact finishTagged_alike (readTaggedItems_alike hitems)
  · obtain rfl : depthLimit - 1 = inner := Nat.succ_injective hdepth
    simp only [tagged, taggedOfJson_object, hopened, List.head?_cons, if_true, List.drop_one,
      List.tail_cons]
    refine finishTagged_alike (readTagged_alike hmembers ?_)
    simp only [List.length_cons]
    omega

theorem reads_of_tagged {bytes rest : Bytes} {r : Record}
    (h : tagged.read bytes = .ok (r, rest)) : ∃ x, Reads depthLimit bytes x rest := by
  have hfinish {read : Except Failure ((Kind Record × Json) × Bytes)}
      (h : finishTagged read = .ok (r, rest)) : ∃ result, read = .ok (result, rest) := by
    unfold finishTagged at h
    split at h
    · cases h
    next kind body rest' =>
      obtain ⟨r', -, hpair⟩ := Json.map_eq_ok_iff.1 h
      obtain ⟨-, rfl⟩ := Prod.mk.inj hpair
      exact ⟨_, rfl⟩
  simp only [tagged] at h
  split_ifs at h with hobject harray
  · obtain ⟨behind, hopened⟩ := List.head?_eq_some_iff.1 hobject
    simp only [hopened, List.drop_one, List.tail_cons] at h
    obtain ⟨result, hread⟩ := hfinish h
    obtain ⟨members, hmembers⟩ := readsMembers_of_readTagged hread
    exact ⟨.object members, .object hopened hmembers⟩
  · obtain ⟨behind, hopened⟩ := List.head?_eq_some_iff.1 harray
    simp only [hopened, List.drop_one, List.tail_cons] at h
    obtain ⟨result, hread⟩ := hfinish h
    obtain ⟨items, hitems⟩ := readsItems_of_readTaggedItems hread
    exact ⟨.array items, .array hopened hitems⟩
  · obtain ⟨x, -, hx⟩ := reads_of_readScalar depthLimit h
    cases hx

/-- A value that is decoded as a tagged record repeats no name: the tag does not, and the kind that
it names takes no value that does. -/
theorem tagged_strict {x : Json} {r : Record} (h : tagged.ofJson x = .ok r) : Unique x := by
  cases x with
  | object members =>
    obtain ⟨before, tag, after, kind, rfl, hbefore, hafter, hkind, hdecoded⟩ :=
      taggedOfJson_eq_ok_iff.1 h
    have hbody := (variant_streams (Table.mem_of_find? hkind)).strict _ _ hdecoded
    cases hbody with
    | object names each =>
      have hperm : (before ++ (tagName, .text tag) :: after).Perm
          ((tagName, .text tag) :: (before ++ after)) := List.perm_middle
      refine .object ?_ fun m hm => ?_
      · rw [Table.names, (hperm.map Prod.fst).nodup_iff]
        refine List.nodup_cons.2 ⟨fun hmem => ?_, names⟩
        rw [List.map_append, List.mem_append] at hmem
        exact hmem.elim hbefore hafter
      · rcases List.mem_cons.1 (hperm.subset hm) with rfl | hm
        · exact .text tag
        · exact each m hm
  | array items =>
    change taggedOfJson (.array items) = .ok r at h
    cases items with
    | nil => cases h
    | cons tag items =>
      rw [taggedOfJson] at h
      split at h
      · cases h
      next kind hjudged =>
        obtain ⟨name, rfl, hkind⟩ := judgeTag_eq_ok_iff.1 hjudged
        have hbody := (variant_streams (Table.mem_of_find? hkind)).strict _ _
          (decodeBody_eq_ok_iff.1 h)
        cases hbody with
        | array each => exact .array (List.forall_mem_cons.2 ⟨.text name, each⟩)
  | null | bool _ | integer _ | float _ | text _ => cases h

theorem tagged_streams : tagged.Streams depthLimit where
  alike _ _ _ h := tagged_alike h
  reads _ _ _ h := reads_of_tagged h
  strict _ _ h := tagged_strict h

/-! ## From a text and from a value -/

section

variable {α : Type} {kind : Kind α} {s : String} {x : Json} {a : α}

theorem ofBytes_eq_ok_iff {bytes : Bytes} :
    ofBytes kind bytes = .ok a ↔ ∃ rest, kind.read bytes = .ok (a, rest) := by
  unfold ofBytes
  cases kind.read bytes with
  | error failure => exact iff_of_false nofun fun ⟨_, h⟩ => nomatch h
  | ok result =>
    obtain ⟨a', rest⟩ := result
    constructor
    · intro h
      obtain rfl := Except.ok.inj h
      exact ⟨rest, rfl⟩
    · rintro ⟨rest', h⟩
      obtain ⟨rfl, -⟩ := Prod.mk.inj (Except.ok.inj h)
      rfl

theorem ofBytes_eq_error_iff {bytes : Bytes} {e : Error} :
    ofBytes kind bytes = .error e ↔
      ∃ failure, kind.read bytes = .error failure ∧ failure.report bytes = e := by
  unfold ofBytes
  cases kind.read bytes with
  | error failure => simp [Except.map, Except.mapError]
  | ok result => exact iff_of_false nofun fun ⟨_, h, _⟩ => nomatch h

/-- What a kind that streams decodes from bytes is what it decodes from the value that stands
there. -/
theorem Kind.Streams.ofBytes_iff (h : kind.Streams depthLimit) {bytes : Bytes} :
    ofBytes kind bytes = .ok a ↔
      ∃ x rest, Reads depthLimit bytes x rest ∧ Decode.ofJson kind x = .ok a := by
  simp only [ofBytes_eq_ok_iff, Decode.ofJson, mapError_report_eq_ok_iff]
  constructor
  · rintro ⟨rest, hread⟩
    obtain ⟨x, hx⟩ := h.reads _ _ _ hread
    exact ⟨x, rest, hx, ((h.alike _ _ _ hx).of_read_ok hread).1⟩
  · rintro ⟨x, rest, hx, hdecoded⟩
    exact ⟨rest, (h.alike _ _ _ hx).eq_ok hdecoded⟩

/-- A prefix of a text that ends with a byte of ASCII is a text. -/
theorem exists_prefix {before after : Bytes} {b : UInt8} (hb : b.toNat < 128)
    (hs : Json.bytesOf s = before ++ b :: after) :
    ∃ p : String, p.toList <+: s.toList ∧ Json.bytesOf p = before ++ [b] := by
  rw [Text.bytesOf_eq] at hs
  obtain ⟨cs₁, c, cs₂, hcs, rfl, hc, -⟩ := Text.utf8_split hb hs
  refine ⟨String.ofList (cs₁ ++ [c]), ⟨cs₂, ?_⟩, ?_⟩
  · rw [hcs, String.toList_ofList, List.append_assoc, List.singleton_append]
  · rw [Text.bytesOf_ofList, Text.utf8_append, Text.utf8_cons, Text.utf8_nil, List.append_nil, hc]

/-- The kind is decoded alike from texts, from bytes and from values. -/
structure Kind.FrontEndsAgree (kind : Kind α) : Prop where
  /-- A text is decoded if it begins with that of a value which is; what follows does not
  matter. -/
  text : ∀ s a, ofBytes kind (Json.bytesOf s) = .ok a ↔
    ∃ (p : String) (x : Json), p.toList <+: s.toList ∧ Json.IsText p x ∧
      Decode.ofJson kind x = .ok a
  /-- The bytes that encode a text are decoded as the text. -/
  slice : ∀ bytes s, String.fromUTF8? (ByteArray.mk bytes.toArray) = some s →
    ofBytes kind bytes = ofBytes kind (Json.bytesOf s)
  /-- That strings are checked to be texts, as bytes have to be, refuses no text. -/
  encoding : ∀ s failure, kind.read (Json.bytesOf s) = .error failure →
    failure.cause ≠ .fault .invalidCodePoint
  /-- Where a whole text is not decoded, its value is not either, for the same node. -/
  value : ∀ s x e, Json.IsText s x → ofBytes kind (Json.bytesOf s) = .error e →
    ∃ e', Decode.ofJson kind x = .error e' ∧ e'.path = e.path

theorem Kind.Streams.frontEndsAgree (h : kind.Streams depthLimit) (hplain : kind.Plain)
    (hnested : ∀ x a, kind.ofJson x = .ok a → Nested x) : kind.FrontEndsAgree where
  text s a := by
    rw [h.ofBytes_iff]
    constructor
    · rintro ⟨x, rest, hread, hdecoded⟩
      have hx := mapError_report_eq_ok_iff.1 hdecoded
      obtain ⟨before, b, hclose, hbytes, hother⟩ := hread.nested (hnested x a hx)
      have hb : b.toNat < 128 := by rcases hclose with rfl | rfl <;> decide
      obtain ⟨p, hp, hpbytes⟩ := exists_prefix hb hbytes
      refine ⟨p, x, hp, Json.isText_iff.2 ⟨[], ?_, nofun, h.strict x a hx⟩, hdecoded⟩
      rw [hpbytes]
      exact hother []
    · rintro ⟨p, x, ⟨cs, hcs⟩, htext, hdecoded⟩
      have hx := mapError_report_eq_ok_iff.1 hdecoded
      obtain ⟨rest, hread, -, -⟩ := Json.isText_iff.1 htext
      obtain ⟨before, b, -, hbytes, hother⟩ := hread.nested (hnested x a hx)
      refine ⟨x, rest ++ Text.utf8 cs, ?_, hdecoded⟩
      rw [Text.bytesOf_eq, ← hcs, Text.utf8_append, ← Text.bytesOf_eq, hbytes, List.append_assoc,
        List.cons_append]
      exact hother _
  slice bytes s hbytes := by
    rw [Text.eq_utf8_of_fromUTF8? hbytes, Text.bytesOf_eq]
  encoding s _ hfailure := (hplain.texts _ (.bytesOf s)).of_error hfailure
  value s x e htext he := by
    obtain ⟨rest, hread, -, -⟩ := Json.isText_iff.1 htext
    obtain ⟨failure, hfailure, rfl⟩ := ofBytes_eq_error_iff.1 he
    have halike := h.alike _ _ _ hread
    cases hdecoded : kind.ofJson x with
    | ok a => exact nomatch (halike.eq_ok hdecoded).symm.trans hfailure
    | error failure' =>
      obtain ⟨failure'', hread', hpath⟩ := halike.eq_error hdecoded
      obtain rfl := Except.error.inj (hread'.symm.trans hfailure)
      refine ⟨failure'.report [], mapError_report_eq_error_iff.2 ⟨failure', hdecoded, rfl⟩, ?_⟩
      exact congrArg Json.Path.text hpath.symm

end

theorem Kind.nested_of_record {τ α : Type} {name : String} {f : Fields τ} {build : τ → α} (x : Json)
    (a : α) (h : (Kind.record name f build).ofJson x = .ok a) : Nested x := by
  rcases Kind.record_cases h with ⟨members, rfl⟩ | ⟨items, rfl⟩ <;> trivial

theorem nested_of_tagged (x : Json) (r : Record) (h : tagged.ofJson x = .ok r) : Nested x := by
  cases x with
  | array _ | object _ => trivial
  | null | bool _ | integer _ | float _ | text _ => exact nomatch h

/-- Every declared record, and the tagged sum of them, is decoded alike from texts, from bytes and
from values. -/
theorem front_ends_agree : myType.FrontEndsAgree ∧ complexSegment.FrontEndsAgree ∧
    complexSegment22.FrontEndsAgree ∧ a.FrontEndsAgree ∧ b.FrontEndsAgree ∧
    tagged.FrontEndsAgree :=
  ⟨(myType_streams 126).frontEndsAgree myType_plain Kind.nested_of_record,
   (complexSegment_streams 126).frontEndsAgree complexSegment_plain Kind.nested_of_record,
   (complexSegment22_streams 126).frontEndsAgree complexSegment22_plain Kind.nested_of_record,
   (a_streams 126).frontEndsAgree a_plain Kind.nested_of_record,
   (b_streams 125).frontEndsAgree b_plain Kind.nested_of_record,
   tagged_streams.frontEndsAgree tagged_plain nested_of_tagged⟩

end RecordCheck.Decode
