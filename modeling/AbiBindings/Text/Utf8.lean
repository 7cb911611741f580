/-!
# UTF-8

Text as bytes and back. Decoding goes character by character. Bytes that start no character, or
break off inside one, make up an unreadable piece, which is as long as a character could still have
been going on.
-/

namespace AbiBindings.Text.Utf8

/-- The bytes of a text. -/
def encode (text : String) : List UInt8 :=
  text.toList.flatMap String.utf8EncodeChar

/-- The bits that a byte after the first one adds to a character. -/
def extend (n : Nat) (b : UInt8) : Nat := 64 * n + (b.toNat - 0x80)

/-- A byte after the second one of a character. -/
def isTail (b : UInt8) : Bool := 0x80 ≤ b && b ≤ 0xBF

/-- The second bytes that may follow a first byte, from the least to the greatest. -/
def secondRange (b : UInt8) : UInt8 × UInt8 :=
  if b = 0xE0 then (0xA0, 0xBF)
  else if b = 0xED then (0x80, 0x9F)
  else if b = 0xF0 then (0x90, 0xBF)
  else if b = 0xF4 then (0x80, 0x8F)
  else (0x80, 0xBF)

/-- A byte that may come second after a first byte. -/
def isSecond (b c : UInt8) : Bool := (secondRange b).1 ≤ c && c ≤ (secondRange b).2

/-- The characters of a text, with `none` for an unreadable piece. -/
def decode : List UInt8 → List (Option Char)
  | [] => []
  | b :: bs =>
    if b < 0x80 then some (Char.ofNat b.toNat) :: decode bs
    else if b < 0xC2 || 0xF4 < b then none :: decode bs
    else
      match bs with
      | [] => [none]
      | c :: cs =>
        if !isSecond b c then none :: decode (c :: cs)
        else if b < 0xE0 then some (Char.ofNat (extend (b.toNat - 0xC0) c)) :: decode cs
        else
          match cs with
          | [] => [none]
          | d :: ds =>
            if !isTail d then none :: decode (d :: ds)
            else if b < 0xF0 then
              some (Char.ofNat (extend (extend (b.toNat - 0xE0) c) d)) :: decode ds
            else
              match ds with
              | [] => [none]
              | e :: es =>
                if !isTail e then none :: decode (e :: es)
                else some (Char.ofNat (extend (extend (extend (b.toNat - 0xF0) c) d) e)) ::
                  decode es

/-- The text, if all of it is readable. -/
def decode? (bytes : List UInt8) : Option String :=
  ((decode bytes).mapM id).map String.ofList

/-- The text with a replacement character for each unreadable piece. -/
def decodeReplacing (bytes : List UInt8) : String :=
  String.ofList ((decode bytes).map (·.getD '�'))

end AbiBindings.Text.Utf8
