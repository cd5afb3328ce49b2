set_option autoImplicit false

/-!
# Text: regular expressions

A pattern is matched by trying.  Of two ways the first that leads to a match of the whole pattern is
taken, and a part that may be left out or repeated is tried before it is left out.
-/

namespace RecordCheck.Text

/-- The zeros of all scripts; each of them is the first of ten decimal digits (general category
Nd). -/
def zeros : List Nat := [
  0x30, 0x660, 0x6f0, 0x7c0, 0x966, 0x9e6, 0xa66, 0xae6, 0xb66, 0xbe6, 0xc66, 0xce6, 0xd66, 0xde6,
  0xe50, 0xed0, 0xf20, 0x1040, 0x1090, 0x17e0, 0x1810, 0x1946, 0x19d0, 0x1a80, 0x1a90, 0x1b50,
  0x1bb0, 0x1c40, 0x1c50, 0xa620, 0xa8d0, 0xa900, 0xa9d0, 0xa9f0, 0xaa50, 0xabf0, 0xff10, 0x104a0,
  0x10d30, 0x10d40, 0x11066, 0x110f0, 0x11136, 0x111d0, 0x112f0, 0x11450, 0x114d0, 0x11650, 0x116c0,
  0x116d0, 0x116da, 0x11730, 0x118e0, 0x11950, 0x11bf0, 0x11c50, 0x11d50, 0x11da0, 0x11de0, 0x11f50,
  0x16130, 0x16a60, 0x16ac0, 0x16b50, 0x16d70, 0x1ccf0, 0x1d7ce, 0x1d7d8, 0x1d7e2, 0x1d7ec, 0x1d7f6,
  0x1e140, 0x1e2f0, 0x1e4f0, 0x1e5f1, 0x1e950, 0x1fbf0]

/-- The character is a decimal digit of some script. -/
def isDecimalDigit (c : Char) : Bool :=
  zeros.any fun n => decide (n ≤ c.toNat) && decide (c.toNat < n + 10)

/-- A set of characters. -/
inductive CharSet where
  | of (cs : List Char)
  /-- a small letter and its capital -/
  | letter (small : Char)
  /-- the decimal digits of all scripts -/
  | digit
  deriving DecidableEq, Repr, Inhabited

/-- The character is in the set. -/
def CharSet.contains : CharSet → Char → Bool
  | .of cs, c => cs.contains c
  | .letter small, c => c.toLower == small
  | .digit, c => isDecimalDigit c

/-- A regular expression. -/
inductive Regex where
  | one (set : CharSet)
  | seq (first second : Regex)
  | either (first second : Regex)
  | optional (r : Regex)
  | many (r : Regex)
  | group (name : String) (r : Regex)
  /-- the start of the text -/
  | start
  /-- the end of the text -/
  | finish
  deriving DecidableEq, Repr, Inhabited

namespace Regex

/-- The texts of groups, the one that was matched last first. -/
abbrev Groups : Type := List (String × List Char)

/-- How far a match has come. -/
structure State where
  /-- the text that is left -/
  rest : List Char
  /-- nothing of the text lies before -/
  atStart : Bool
  groups : Groups

variable {α : Type}

/-- Goes once more through what is repeated, if that takes something off the text; else on. -/
def repeated (once : (State → Option α) → State → Option α) (next : State → Option α) :
    (rounds : Nat) → State → Option α
  | 0, s => next s
  | rounds + 1, s =>
    let again (s' : State) : Option α :=
      if s'.rest.length < s.rest.length then repeated once next rounds s' else none
    match once again s with
    | some a => some a
    | none => next s

/-- What comes of the first way through a regular expression from which it goes on. -/
def attempt : Regex → (next : State → Option α) → State → Option α
  | .one set, next, s =>
    match s.rest with
    | [] => none
    | c :: rest => if set.contains c then next ⟨rest, false, s.groups⟩ else none
  | .seq first second, next, s => attempt first (attempt second next) s
  | .either first second, next, s =>
    match attempt first next s with
    | some a => some a
    | none => attempt second next s
  | .optional r, next, s =>
    match attempt r next s with
    | some a => some a
    | none => next s
  | .many r, next, s => repeated (attempt r) next s.rest.length s
  | .group name r, next, s =>
    let named (s' : State) : Option α :=
      let text := s.rest.take (s.rest.length - s'.rest.length)
      next { s' with groups := (name, text) :: s'.groups }
    attempt r named s
  | .start, next, s => if s.atStart then next s else none
  | .finish, next, s => if s.rest.isEmpty then next s else none

/-- The groups of the first match that begins where the text does or behind it. -/
def search (r : Regex) (atStart : Bool) : List Char → Option Groups
  | [] => attempt r (fun s => some s.groups) ⟨[], atStart, []⟩
  | c :: rest =>
    match attempt r (fun s => some s.groups) ⟨c :: rest, atStart, []⟩ with
    | some groups => some groups
    | none => search r false rest

/-- The groups of the first match in a text. -/
def captures (r : Regex) (text : List Char) : Option Groups := search r true text

end Regex
end RecordCheck.Text
