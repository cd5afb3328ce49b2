import RecordCheck.Json.Fault
set_option autoImplicit false

/-!
# JSON: reading strings

The content of a string, behind its opening quote.  Escapes stand for characters; two escaped
surrogates stand for one character, and a surrogate by itself is refused.
-/

namespace RecordCheck.Json

/-- The value of a hexadecimal digit. -/
def hexValue? (b : UInt8) : Option Nat :=
  if 0x30 ≤ b && b ≤ 0x39 then some (b.toNat - 0x30)
  else if 0x41 ≤ b && b ≤ 0x46 then some (b.toNat - 0x41 + 10)
  else if 0x61 ≤ b && b ≤ 0x66 then some (b.toNat - 0x61 + 10)
  else none

/-- The value of four hexadecimal digits. -/
def hexWord? (a b c d : UInt8) : Option Nat :=
  match hexValue? a, hexValue? b, hexValue? c, hexValue? d with
  | some a, some b, some c, some d => some (((a * 16 + b) * 16 + c) * 16 + d)
  | _, _, _, _ => none

/-- The first half of a surrogate pair. -/
def isLeading (n : Nat) : Bool := 0xd800 ≤ n && n ≤ 0xdbff

/-- The second half of a surrogate pair. -/
def isTrailing (n : Nat) : Bool := 0xdc00 ≤ n && n ≤ 0xdfff

/-- The code point of a surrogate pair. -/
def joined (leading trailing : Nat) : Nat :=
  0x10000 + (leading - 0xd800) * 0x400 + (trailing - 0xdc00)

/-- The byte that a one-letter escape stands for. -/
def escapedByte? (b : UInt8) : Option UInt8 :=
  if b = 0x22 then some 0x22
  else if b = 0x5c then some 0x5c
  else if b = 0x2f then some 0x2f
  else if b = 0x62 then some 8
  else if b = 0x66 then some 12
  else if b = 0x6e then some 10
  else if b = 0x72 then some 13
  else if b = 0x74 then some 9
  else none

/-- The content read so far, its last byte first, with a code point behind it. -/
def pushCode (read : Bytes) (code : Nat) : Bytes :=
  (String.utf8EncodeChar (Char.ofNat code)).reverse ++ read

/-- Reads the bytes of a string up to its closing quote. -/
def stringBytes (read : Bytes) : Reader Bytes
  | [] => .error (.behind .endInString [])
  | b :: rest =>
    if b = 0x22 then .ok (read.reverse, rest)
    else if b = 0x5c then
      match rest with
      | [] => .error (.behind .endInString [])
      | e :: rest =>
        if e = 0x75 then
          match rest with
          | h₁ :: h₂ :: h₃ :: h₄ :: rest =>
            match hexWord? h₁ h₂ h₃ h₄ with
            | none => .error (.behind .invalidEscape rest)
            | some code =>
              if isTrailing code then .error (.behind .loneSurrogate rest)
              else if isLeading code then
                match rest with
                | [] => .error (.behind .endInString [])
                | slash :: rest =>
                  if slash ≠ 0x5c then .error (.behind .brokenSurrogatePair rest)
                  else match rest with
                    | [] => .error (.behind .endInString [])
                    | u :: rest =>
                      if u ≠ 0x75 then .error (.behind .brokenSurrogatePair rest)
                      else match rest with
                        | k₁ :: k₂ :: k₃ :: k₄ :: rest =>
                          match hexWord? k₁ k₂ k₃ k₄ with
                          | none => .error (.behind .invalidEscape rest)
                          | some code' =>
                            if isTrailing code' then
                              stringBytes (pushCode read (joined code code')) rest
                            else .error (.behind .loneSurrogate rest)
                        | _ => .error (.behind .endInString [])
              else stringBytes (pushCode read code) rest
          | _ => .error (.behind .endInString [])
        else match escapedByte? e with
          | some b => stringBytes (b :: read) rest
          | none => .error (.behind .invalidEscape rest)
    else if b < 0x20 then .error (.behind .controlCharacter rest)
    else stringBytes (b :: read) rest

/-- The bytes from the first one on that belongs to no encoded character. -/
def fromInvalid : (rounds : Nat) → Bytes → Bytes
  | 0, bytes => bytes
  | rounds + 1, bytes =>
    match ByteArray.utf8DecodeChar? (ByteArray.mk (bytes.take 4).toArray) 0 with
    | some c => fromInvalid rounds (bytes.drop c.utf8Size)
    | none => bytes

/-- Reads a string, behind its opening quote. -/
def string : Reader String := fun bytes =>
  match stringBytes [] bytes with
  | .error fault => .error fault
  | .ok (content, rest) =>
    match String.fromUTF8? (ByteArray.mk content.toArray) with
    | some s => .ok (s, rest)
    | none => .error (.ahead .invalidCodePoint (fromInvalid bytes.length bytes))

end RecordCheck.Json
