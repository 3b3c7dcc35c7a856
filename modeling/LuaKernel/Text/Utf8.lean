/-!
# UTF-8

Strings are texts, and their bytes are their UTF-8 encoding (`bytes`).  Strings are ordered by
their bytes.

Any sequence of bytes can be decoded.  `decode` reads one character after the other; where the
bytes cannot go on to a character, it gives one replacement character for the longest beginning
that could have become one, or for a single byte that begins no character, and goes on behind it.
-/

namespace LuaKernel.Utf8

/-! ### Encoding -/

/-- The bytes of a text. -/
def encode (cs : List Char) : List UInt8 := cs.flatMap String.utf8EncodeChar

/-- The bytes of a string. -/
def bytes (s : String) : List UInt8 := encode s.toList

/-- The order of strings, strict: that of their bytes. -/
def less (s t : String) : Bool := decide (bytes s < bytes t)

/-- The order of strings. -/
def lessEqual (s t : String) : Bool := !less t s

/-! ### Decoding -/

/-- Stands for bytes that are no character. -/
def replacement : Char := Char.ofNat 0xFFFD

/-- What the first byte of a character says: how many bytes follow it, and the range in which the
second one lies. -/
structure Lead where
  more : Nat
  least : UInt8
  greatest : UInt8

/-- The sequences that a byte can begin, if any. -/
def lead? (b : UInt8) : Option Lead :=
  if b < 0x80 then some ⟨0, 0, 0⟩
  else if b < 0xC2 then none
  else if b < 0xE0 then some ⟨1, 0x80, 0xBF⟩
  else if b = 0xE0 then some ⟨2, 0xA0, 0xBF⟩
  else if b = 0xED then some ⟨2, 0x80, 0x9F⟩
  else if b < 0xF0 then some ⟨2, 0x80, 0xBF⟩
  else if b = 0xF0 then some ⟨3, 0x90, 0xBF⟩
  else if b < 0xF4 then some ⟨3, 0x80, 0xBF⟩
  else if b = 0xF4 then some ⟨3, 0x80, 0x8F⟩
  else none

/-- The bytes that continue a character from the third byte on. -/
def isContinuation (b : UInt8) : Bool := 0x80 ≤ b && b ≤ 0xBF

/-- The character of two bytes. -/
def char2 (a b : UInt8) : Char := Char.ofNat (a.toNat % 32 * 64 + b.toNat % 64)

/-- The character of three bytes. -/
def char3 (a b c : UInt8) : Char :=
  Char.ofNat ((a.toNat % 16 * 64 + b.toNat % 64) * 64 + c.toNat % 64)

/-- The character of four bytes. -/
def char4 (a b c d : UInt8) : Char :=
  Char.ofNat (((a.toNat % 8 * 64 + b.toNat % 64) * 64 + c.toNat % 64) * 64 + d.toNat % 64)

/-- The text of a sequence of bytes, with replacement characters for what is no UTF-8. -/
def decode : List UInt8 → List Char
  | [] => []
  | a :: as =>
    match lead? a with
    | none => replacement :: decode as
    | some ⟨0, _, _⟩ => Char.ofNat a.toNat :: decode as
    | some ⟨more + 1, least, greatest⟩ =>
      match as with
      | [] => [replacement]
      | b :: bs =>
        if least ≤ b ∧ b ≤ greatest then
          if more = 0 then char2 a b :: decode bs
          else
            match bs with
            | [] => [replacement]
            | c :: cs =>
              if isContinuation c then
                if more = 1 then char3 a b c :: decode cs
                else
                  match cs with
                  | [] => [replacement]
                  | d :: ds =>
                    if isContinuation d then char4 a b c d :: decode ds
                    else replacement :: decode (d :: ds)
              else replacement :: decode (c :: cs)
        else replacement :: decode (b :: bs)

/-- The string of a sequence of bytes, with replacement characters for what is no UTF-8. -/
def decodeString (bs : List UInt8) : String := String.ofList (decode bs)

end LuaKernel.Utf8
