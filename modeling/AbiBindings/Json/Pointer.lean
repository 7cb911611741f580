import AbiBindings.Text.Pieces

/-!
# Pointers into a JSON value

A pointer names a place in a JSON value by the keys and indices that lead to it, each after a slash.
In a segment a tilde is written `~0` and a slash `~1`. Decoding drops empty segments, so a place
below an empty key is named by the other segments only.
-/

namespace AbiBindings.Json.Pointer

/-- A segment with its tildes and slashes written out. -/
def encodeSegment (segment : String) : List Char :=
  segment.toList.flatMap fun c ↦
    if c = '~' then ['~', '0'] else if c = '/' then ['~', '1'] else [c]

/-- The pointer along the given segments. -/
def encode (segments : List String) : String :=
  String.ofList (segments.flatMap fun segment ↦ '/' :: encodeSegment segment)

/-- The text of a segment. -/
def decodeSegment (segment : List Char) : String :=
  String.ofList (Text.replacePair '~' '0' ['~'] (Text.replacePair '~' '1' ['/'] segment))

/-- The segments of a pointer, which stand after its first slash. -/
def decode (pointer : String) : List String :=
  (((Text.pieces (· = '/') pointer.toList).drop 1).filter (!·.isEmpty)).map decodeSegment

end AbiBindings.Json.Pointer
