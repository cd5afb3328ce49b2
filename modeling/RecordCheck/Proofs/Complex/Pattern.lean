import RecordCheck.Proofs.Text.Regex
import RecordCheck.Proofs.Complex.Reader
set_option autoImplicit false

/-!
# Complex: what the expression of literals matches

On texts of ASCII each part of the expression matches the texts of the trees of one sort, and no
others (`Describes`); that passes from the parts of an expression to the whole.  A match of all of a
literal has one of three forms (`Matched`).
-/

namespace RecordCheck.Complex

open Text Text.Regex

/-- All characters are those of ASCII. -/
def Ascii (text : List Char) : Prop := ∀ c ∈ text, c.toNat < 128

instance (text : List Char) : Decidable (Ascii text) :=
  List.decidableBAll (fun c : Char => c.toNat < 128) text

theorem ascii_append_iff {xs ys : List Char} : Ascii (xs ++ ys) ↔ Ascii xs ∧ Ascii ys :=
  List.forall_mem_append

/-- On texts of ASCII the expression matches the texts of all trees, and no others. -/
structure Describes {α : Type} (r : Regex) (text : α → List Char) : Prop where
  sound : ∀ {xs : List Char}, Accepts r xs → Ascii xs → ∃ a, text a = xs
  complete : ∀ a, Accepts r (text a)

namespace Describes

variable {α β : Type} {r r' : Regex} {f : α → List Char} {g : β → List Char}

/-- The trees may be of another sort with the same texts. -/
theorem same (h : Describes r f) (there : ∀ a, ∃ b, g b = f a) (back : ∀ b, ∃ a, f a = g b) :
    Describes r g where
  sound hxs hascii := by
    obtain ⟨a, rfl⟩ := h.sound hxs hascii
    exact there a
  complete b := by
    obtain ⟨a, ha⟩ := back b
    exact ha ▸ h.complete a

theorem seq (h : Describes r f) (h' : Describes r' g) :
    Describes (.seq r r') fun p : α × β => f p.1 ++ g p.2 where
  sound := by
    intro zs hzs hascii
    cases hzs with
    | seq hxs hys =>
      obtain ⟨hxs', hys'⟩ := ascii_append_iff.1 hascii
      obtain ⟨a, rfl⟩ := h.sound hxs hxs'
      obtain ⟨b, rfl⟩ := h'.sound hys hys'
      exact ⟨(a, b), rfl⟩
  complete p := .seq (h.complete p.1) (h'.complete p.2)

theorem either (h : Describes r f) (h' : Describes r' g) :
    Describes (.either r r') (Sum.elim f g) where
  sound := by
    intro xs hxs hascii
    cases hxs with
    | left _ hxs =>
      obtain ⟨a, ha⟩ := h.sound hxs hascii
      exact ⟨.inl a, ha⟩
    | right _ hxs =>
      obtain ⟨b, hb⟩ := h'.sound hxs hascii
      exact ⟨.inr b, hb⟩
  complete
    | .inl a => .left r' (h.complete a)
    | .inr b => .right r (h'.complete b)

theorem optional (h : Describes r f) : Describes (.optional r) (optionText f) where
  sound := by
    intro xs hxs hascii
    cases hxs with
    | present hxs =>
      obtain ⟨a, ha⟩ := h.sound hxs hascii
      exact ⟨some a, ha⟩
    | absent => exact ⟨none, rfl⟩
  complete
    | some a => .present (h.complete a)
    | none => .absent r

theorem many_sound (h : Describes r f) {s : Regex} {xs : List Char} (hs : s = .many r)
    (hxs : Accepts s xs) (hascii : Ascii xs) : ∃ as : List α, as.flatMap f = xs := by
  induction hxs with
  | done => exact ⟨[], rfl⟩
  | again hxs _ _ ih =>
    obtain rfl := Regex.many.inj hs
    obtain ⟨hxs', hys'⟩ := ascii_append_iff.1 hascii
    obtain ⟨a, rfl⟩ := h.sound hxs hxs'
    obtain ⟨as, rfl⟩ := ih rfl hys'
    exact ⟨a :: as, rfl⟩
  | one | seq | left | right | present | absent => cases hs

theorem many (h : Describes r f) : Describes (.many r) fun as : List α => as.flatMap f where
  sound hxs hascii := h.many_sound rfl hxs hascii
  complete as := by
    induction as with
    | nil => exact .done r
    | cons a as ih => exact .again (h.complete a) ih

/-- A set of characters. -/
theorem one {set : CharSet} {f : α → Char} (hsound : ∀ c, set.contains c = true → c.toNat < 128 →
    ∃ a, f a = c) (hcomplete : ∀ a, set.contains (f a) = true) :
    Describes (.one set) fun a => [f a] where
  sound := by
    intro xs hxs hascii
    cases hxs with
    | one hc =>
      obtain ⟨a, rfl⟩ := hsound _ hc (hascii _ List.mem_cons_self)
      exact ⟨a, rfl⟩
  complete a := .one (hcomplete a)

end Describes

/-! ## Characters -/

theorem describes_char (c : Char) : Describes (.one (.of [c])) fun _ : Unit => [c] :=
  .one (fun _ h _ => ⟨(), (List.mem_singleton.1 (List.contains_iff_mem.1 h)).symm⟩)
    fun _ => List.contains_iff_mem.2 List.mem_cons_self

theorem describes_letter (small capital : Char) (hsmall : small.toLower = small)
    (hcapital : capital.toLower = small) (hcode : capital.toNat + 32 = small.toNat) :
    Describes (.one (.letter small)) fun b : Bool => [if b then capital else small] := by
  refine .one (fun c h _ => ?_) fun b => ?_
  · have hlower : c.toLower = small := beq_iff_eq.1 h
    rcases toLower_cases c with hsame | ⟨-, hc⟩
    · exact ⟨false, hlower.symm.trans hsame⟩
    · refine ⟨true, Char.toNat_inj.1 ?_⟩
      rw [hlower, ← hcode] at hc
      exact Nat.add_right_cancel hc
  · cases b
    · exact beq_iff_eq.2 hsmall
    · exact beq_iff_eq.2 hcapital

/-- Among the digits of all scripts those of ASCII are the ten of the grammar. -/
theorem describes_digit : Describes (.one .digit) fun d : Fin 10 => [digitChar d] := by
  refine .one (fun c h hascii => ?_) (by decide)
  have hzeros : ∀ n ∈ zeros, n = 0x30 ∨ 128 ≤ n := by decide
  obtain ⟨n, hn, hrange⟩ := List.any_eq_true.1 h
  simp only [Bool.and_eq_true, decide_eq_true_eq] at hrange
  obtain rfl : n = 0x30 := (hzeros n hn).resolve_right (by omega)
  have hdigit : '0' ≤ c ∧ c ≤ '9' := ⟨hrange.1, Nat.le_of_lt_succ hrange.2⟩
  obtain ⟨d, hd, -⟩ := digitValue?_eq_some (if_pos hdigit)
  exact ⟨d, hd.symm⟩

theorem describes_sign : Describes Pattern.sign Sign.text where
  sound := by
    intro xs hxs _
    cases hxs with
    | one hc =>
      rcases List.mem_pair.1 (List.contains_iff_mem.1 hc) with rfl | rfl
      · exact ⟨.plus, rfl⟩
      · exact ⟨.minus, rfl⟩
  complete s := by cases s <;> exact .one rfl

/-- The letters of a word in either case. -/
theorem describes_word (c : Char) (others : List Char) : Describes (Pattern.word c others)
    fun letters : { letters : List Char // letters.map Char.toLower = c :: others } =>
      letters.val where
  sound := by
    intro xs hxs hascii
    refine ⟨⟨xs, ?_⟩, rfl⟩
    clear hascii
    induction others generalizing c xs with
    | nil =>
      cases hxs with
      | one hc => exact congrArg (fun small => [small]) (beq_iff_eq.1 hc)
    | cons next others ih =>
      cases hxs with
      | seq hfirst hothers =>
        cases hfirst with
        | one hc => exact congrArg₂ List.cons (beq_iff_eq.1 hc) (ih next hothers)
  complete := by
    rintro ⟨letters, h⟩
    induction others generalizing c letters with
    | nil =>
      obtain ⟨x, rfl, hx⟩ := List.map_eq_singleton_iff.1 h
      exact .one (beq_iff_eq.2 hx)
    | cons next others ih =>
      obtain ⟨x, xs, rfl, hx, hxs⟩ := List.map_eq_cons_iff.1 h
      have hfirst : Accepts (.one (.letter c)) [x] := .one (beq_iff_eq.2 hx)
      exact .seq hfirst (ih next xs hxs)

/-! ## Numbers -/

/-- The digits behind the first, each with whether an underscore goes before it. -/
theorem flatMap_othersText (others : List (Option Unit × Fin 10)) :
    Digits.othersText (others.map fun d => (d.1.isSome, d.2)) =
      others.flatMap fun d => optionText (fun _ => ['_']) d.1 ++ [digitChar d.2] := by
  induction others with
  | nil => rfl
  | cons d others ih =>
    obtain ⟨_ | _, d⟩ := d
    · exact congrArg (digitChar d :: ·) ih
    · exact congrArg ('_' :: digitChar d :: ·) ih

theorem describes_digits : Describes Pattern.digits Digits.text := by
  refine (describes_digit.seq ((describes_char '_').optional.seq describes_digit).many).same
    (fun p => ?_) fun ds => ?_
  · exact ⟨⟨p.1, p.2.map fun d => (d.1.isSome, d.2)⟩,
      congrArg (digitChar p.1 :: ·) (flatMap_othersText p.2)⟩
  · obtain ⟨first, others⟩ := ds
    refine ⟨(first, others.map fun d => (if d.1 then some () else none, d.2)), ?_⟩
    refine congrArg (digitChar first :: ·) ((flatMap_othersText _).symm.trans ?_)
    rw [List.map_map]
    refine congrArg Digits.othersText (List.map_id'' (fun d => ?_) others)
    obtain ⟨_ | _, d⟩ := d <;> rfl

theorem describes_power : Describes Pattern.power Power.text := by
  refine ((describes_letter 'e' 'E' rfl rfl rfl).seq
    (describes_sign.optional.seq describes_digits)).same (fun p => ?_) fun p => ?_
  · exact ⟨⟨p.1, p.2.1, p.2.2⟩, rfl⟩
  · exact ⟨(p.capital, p.sign, p.digits), rfl⟩

/-- Two runs of digits, one behind the other, are one. -/
theorem Digits.text_join (ds ds' : Digits) :
    (⟨ds.first, ds.others ++ (false, ds'.first) :: ds'.others⟩ : Digits).text =
      ds.text ++ ds'.text := by
  have hothers : ∀ others, othersText (others ++ (false, ds'.first) :: ds'.others) =
      othersText others ++ ds'.text := by
    intro others
    induction others with
    | nil => rfl
    | cons d others ih =>
      obtain ⟨_ | _, d⟩ := d
      · exact congrArg (digitChar d :: ·) ih
      · exact congrArg ('_' :: digitChar d :: ·) ih
  exact congrArg (digitChar ds.first :: ·) (hothers ds.others)

theorem describes_number : Describes Pattern.number Numeral.text := by
  refine (((describes_digits.seq ((describes_char '.').optional.seq
    (describes_digits.optional.seq describes_power.optional))).either
    (((describes_char '.').seq (describes_digits.seq describes_power.optional)).either
      ((describes_word 'n' ['a', 'n']).either ((describes_word 'i' ['n', 'f']).seq
        (describes_word 'i' ['n', 'i', 't', 'y']).optional))))).same ?_ ?_
  · rintro (⟨ds, _ | _, _ | behind, power⟩ | ⟨⟨⟩, ds, power⟩ | ⟨letters, h⟩ |
      ⟨⟨letters, h⟩, _ | ⟨others, h'⟩⟩)
    · exact ⟨.whole ds power, rfl⟩
    -- Digits without a point between them are one run, however the expression divides them.
    · refine ⟨.whole _ power, (congrArg (· ++ _) (Digits.text_join ds behind)).trans ?_⟩
      exact List.append_assoc _ _ _
    · exact ⟨.pointed ds none power, rfl⟩
    · exact ⟨.pointed ds (some behind) power, rfl⟩
    · exact ⟨.fraction ds power, rfl⟩
    · exact ⟨.named .nan letters h, rfl⟩
    · exact ⟨.named .inf letters h, (List.append_nil _).symm⟩
    · exact ⟨.named .infinity (letters ++ others) (by rw [List.map_append, h, h']; rfl), rfl⟩
  · rintro (⟨ds, power⟩ | ⟨ds, _ | behind, power⟩ | ⟨ds, power⟩ | ⟨_ | _ | _, letters, h⟩)
    · exact ⟨.inl (ds, none, none, power), rfl⟩
    · exact ⟨.inl (ds, some (), none, power), rfl⟩
    · exact ⟨.inl (ds, some (), some behind, power), rfl⟩
    · exact ⟨.inr (.inl ((), ds, power)), rfl⟩
    · exact ⟨.inr (.inr (.inl ⟨letters, h⟩)), rfl⟩
    · exact ⟨.inr (.inr (.inr (⟨letters, h⟩, none))), List.append_nil _⟩
    · obtain ⟨first, others, rfl, hfirst, hothers⟩ :=
        List.map_eq_append_iff.1 (show _ = ['i', 'n', 'f'] ++ ['i', 'n', 'i', 't', 'y'] from h)
      exact ⟨.inr (.inr (.inr (⟨first, hfirst⟩, some ⟨others, hothers⟩))), rfl⟩

theorem describes_real : Describes Pattern.real fun p : Option Sign × Numeral =>
    optionText Sign.text p.1 ++ p.2.text :=
  describes_sign.optional.seq describes_number

/-- The imaginary unit is one of ASCII in any case. -/
theorem exists_unitText {xs : List Char} (h : Accepts (.one (.letter 'j')) xs) :
    ∃ capital, unitText capital = xs := by
  refine (describes_letter 'j' 'J' rfl rfl rfl).sound h ?_
  cases h with
  | @one _ c hc =>
    have hlower : c.toLower = 'j' := beq_iff_eq.1 hc
    refine List.forall_mem_singleton.2 ?_
    rcases toLower_cases c with hsame | ⟨⟨-, hhigh⟩, -⟩
    · rw [← hsame, hlower]
      decide
    · omega

theorem describes_imaginary : Describes Pattern.imaginary fun p : Option Numeral × Bool =>
    optionText Numeral.text p.1 ++ unitText p.2 :=
  describes_number.optional.seq (describes_letter 'j' 'J' rfl rfl rfl)

/-! ## Literals -/

/-- The groups of a literal: the text of a real part, alone or before that of an imaginary part, or
the text of an imaginary part. -/
inductive Matched : List Char → Groups → Prop
  | real {re : List Char} (hre : Accepts Pattern.real re) : Matched re [("re", re)]
  | both {re im : List Char} (hre : Accepts Pattern.real re)
      (him : Accepts (.seq Pattern.sign Pattern.imaginary) im) :
      Matched (re ++ im) [("im", im), ("re", re)]
  | imaginary {im : List Char}
      (him : Accepts (.seq (.optional Pattern.sign) Pattern.imaginary) im) :
      Matched im [("imonly", im)]

theorem matched_of_way {text : List Char} {s : State} (h : Way Pattern.parts ⟨text, true, []⟩ s)
    (hempty : s.rest = []) : Matched text s.groups := by
  cases h with
  | left _ h =>
    cases h with
    | seq hfirst hsecond =>
      obtain ⟨re, hre, hrest, hgroups⟩ := accepts_of_way_group rfl hfirst
      cases hsecond with
      | absent =>
        rw [hempty, List.append_nil] at hrest
        obtain rfl : text = re := hrest
        rw [hgroups]
        exact .real hre
      | present him =>
        obtain ⟨im, him, hrest', hgroups'⟩ := accepts_of_way_group rfl him
        rw [hrest', hempty, List.append_nil] at hrest
        obtain rfl : text = re ++ im := hrest
        rw [hgroups', hgroups]
        exact .both hre him
  | right _ him =>
    obtain ⟨im, him, hrest, hgroups⟩ := accepts_of_way_group rfl him
    rw [hempty, List.append_nil] at hrest
    obtain rfl : text = im := hrest
    rw [hgroups]
    exact .imaginary him

theorem matched_of_captures {text : List Char} {groups : Groups}
    (h : Pattern.literal.captures text = some groups) : Matched text groups := by
  rw [Pattern.literal, captures_start] at h
  obtain ⟨s, hway, hgroups⟩ := attempt_sound h
  obtain rfl : s.groups = groups := Option.some.inj hgroups
  cases hway with
  | seq hparts hfinish =>
    cases hfinish
    exact matched_of_way hparts rfl

theorem captures_of_matched {text : List Char} {groups : Groups} (h : Matched text groups) :
    (Pattern.literal.captures text).isSome = true := by
  rw [Pattern.literal, captures_start]
  suffices hway : ∃ s', Way _ ⟨text, true, []⟩ s' by
    obtain ⟨s', hway⟩ := hway
    exact isSome_attempt hway rfl
  cases h with
  | real hre =>
    have hway := way_group_of_accepts "re" hre [] true []
    rw [List.append_nil] at hway
    exact ⟨_, .seq (.left _ (.seq hway (.absent _ _))) (.finish _ _)⟩
  | @both re im hre him =>
    have hway := way_group_of_accepts "re" hre im true []
    have hway' := way_group_of_accepts "im" him [] (true && re.isEmpty) [("re", re)]
    rw [List.append_nil] at hway'
    exact ⟨_, .seq (.left _ (.seq hway (.present hway'))) (.finish _ _)⟩
  | imaginary him =>
    have hway := way_group_of_accepts "imonly" him [] true []
    rw [List.append_nil] at hway
    exact ⟨_, .seq (.right _ hway) (.finish _ _)⟩

end RecordCheck.Complex
