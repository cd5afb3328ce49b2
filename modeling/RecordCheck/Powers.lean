set_option autoImplicit false

/-!
# Powers

The powers of two, which bound words and scale doubles, and those of ten, which scale decimals.
-/

namespace RecordCheck

/-- Two to the power `n`. -/
def twoTo (n : Nat) : Nat := Nat.pow 2 n

/-- Ten to the power `n`. -/
def tenTo (n : Nat) : Nat := Nat.pow 10 n

end RecordCheck
