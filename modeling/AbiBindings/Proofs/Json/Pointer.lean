import AbiBindings.Manifest.Violation
import AbiBindings.Proofs.Text.Pieces

/-!
# Pointers and the places they name

A pointer is cut at its slashes. No slash is left inside an encoded segment, so the pieces are the
encoded segments (`pieces_encode`). In one of these a tilde is always followed by a digit that tells
what it stands for: the first pass of decoding restores the slashes and leaves the tildes written
out (`restore_slashes`), and only the second one restores those (`restore_tildes`). In the other
order a slash would be read where a tilde stood before the digit one.

Decoding drops the segments that are empty, and these are all that is lost between a place and its
pointer.
-/

namespace AbiBindings.Json.Pointer

/-! ### Segments -/

/-- A segment with its tildes, but not its slashes, written out. -/
def tildesWritten (segment : List Char) : List Char :=
  segment.flatMap fun c ↦ if c = '~' then ['~', '0'] else [c]

/-- The first pass restores slashes and leaves the pairs for tildes. -/
theorem restore_slashes (segment : String) :
    Text.replacePair '~' '1' ['/'] (encodeSegment segment) = tildesWritten segment.toList := by
  rw [encodeSegment, tildesWritten]
  induction segment.toList with
  | nil => rfl
  | cons c cs ih =>
    rw [List.flatMap_cons, List.flatMap_cons]
    split_ifs with htilde hslash
    · -- the digit after the tilde is the one for tildes
      exact (Text.replacePair_other (by decide) (by decide) _ _).trans
        (congrArg (['~', '0'] ++ ·) ih)
    · rw [hslash]
      exact (Text.replacePair_pair _ _ _ _).trans (congrArg (['/'] ++ ·) ih)
    · exact (Text.replacePair_cons_of_ne htilde _ _).trans (congrArg (c :: ·) ih)

/-- The second pass restores tildes. -/
theorem restore_tildes (segment : List Char) :
    Text.replacePair '~' '0' ['~'] (tildesWritten segment) = segment := by
  rw [tildesWritten]
  induction segment with
  | nil => rfl
  | cons c cs ih =>
    rw [List.flatMap_cons]
    split_ifs with htilde
    · rw [htilde]
      exact (Text.replacePair_pair _ _ _ _).trans (congrArg ('~' :: ·) ih)
    · exact (Text.replacePair_cons_of_ne htilde _ _).trans (congrArg (c :: ·) ih)

/-- A segment is decoded from what it is encoded by. The order of the two passes matters. -/
theorem decodeSegment_encodeSegment (segment : String) :
    decodeSegment (encodeSegment segment) = segment := by
  rw [decodeSegment, restore_slashes, restore_tildes, String.ofList_toList]

theorem slash_not_mem_encodeSegment (segment : String) :
    ∀ c ∈ encodeSegment segment, decide (c = '/') = false := by
  intro c hc
  obtain ⟨d, -, hd⟩ := List.mem_flatMap.1 hc
  refine decide_eq_false ?_
  rintro rfl
  split_ifs at hd with htilde hslash
  · exact absurd hd (by decide)
  · exact absurd hd (by decide)
  · exact hslash (List.mem_singleton.1 hd).symm

theorem encodeSegment_eq_nil_iff {segment : String} :
    encodeSegment segment = [] ↔ segment = "" := by
  rw [encodeSegment, List.flatMap_eq_nil_iff, ← String.toList_inj]
  constructor
  · intro h
    refine List.eq_nil_iff_forall_not_mem.2 fun c hc ↦ ?_
    have hnil := h c hc
    split_ifs at hnil
  · intro h
    rw [h]
    exact List.forall_mem_nil _

/-! ### Pointers -/

/-- Before its first slash a pointer is empty, and after it come the encoded segments. -/
theorem pieces_encode (segments : List String) :
    Text.pieces (· = '/') (encode segments).toList = [] :: segments.map encodeSegment := by
  rw [encode, String.toList_ofList]
  induction segments with
  | nil => rfl
  | cons segment segments ih =>
    rw [List.flatMap_cons, List.cons_append, Text.pieces, if_pos (by decide),
      Text.pieces_append_left (slash_not_mem_encodeSegment segment) ih, List.append_nil,
      List.map_cons]

/-- All segments are decoded but the empty ones. -/
theorem decode_encode (segments : List String) :
    decode (encode segments) = segments.filter (· ≠ "") := by
  have hempty : (fun segment ↦ !(encodeSegment segment).isEmpty) =
      fun segment ↦ decide (segment ≠ "") := by
    funext segment
    rw [Bool.eq_iff_iff, decide_eq_true_iff, Ne, ← encodeSegment_eq_nil_iff]
    simp
  have hdecode : decodeSegment ∘ encodeSegment = id := funext decodeSegment_encodeSegment
  rw [decode, pieces_encode, List.drop_one, List.tail_cons, List.filter_map, List.map_map,
    hdecode, List.map_id]
  exact congrArg (segments.filter ·) hempty

end AbiBindings.Json.Pointer

namespace AbiBindings.Violation

open Json.Pointer

/-- The violation at the pointer for a place stands at the segments of the place that are not empty,
in their order; this is the place itself if none of them is. -/
theorem ofPointer_encode (segments : List String) (message : String) :
    ofPointer (encode segments) message = ⟨segments.filter (· ≠ ""), message⟩ ∧
      ((∀ segment ∈ segments, segment ≠ "") → (ofPointer (encode segments) message).path =
        segments) := by
  have hdecode : ofPointer (encode segments) message = ⟨segments.filter (· ≠ ""), message⟩ := by
    rw [ofPointer, decode_encode]
  refine ⟨hdecode, fun h ↦ ?_⟩
  rw [hdecode]
  exact List.filter_eq_self.2 fun segment hsegment ↦ decide_eq_true (h segment hsegment)

/-- Segments that hold slashes, tildes and what these are written as. -/
def knottySegments : List String := ["a/b", "~1", "~01/~10", "~~", "0"]

theorem ofPointer_encode_knotty :
    encode knottySegments = "/a~1b/~01/~001~1~010/~0~0/0" ∧
      (∀ segment ∈ knottySegments, segment ≠ "") ∧
      ofPointer "/a~1b/~01/~001~1~010/~0~0/0" "bad" = ⟨knottySegments, "bad"⟩ ∧
      ofPointer (encode ["", "types", "", "A"]) "bad" = ⟨["types", "A"], "bad"⟩ := by
  have hpointer : encode knottySegments = "/a~1b/~01/~001~1~010/~0~0/0" := by decide +kernel
  have hproper : ∀ segment ∈ knottySegments, segment ≠ "" := by decide
  obtain ⟨-, hpath⟩ := ofPointer_encode knottySegments "bad"
  obtain ⟨hdropped, -⟩ := ofPointer_encode ["", "types", "", "A"] "bad"
  rw [hpointer] at hpath
  exact ⟨hpointer, hproper, congrArg (Violation.mk · "bad") (hpath hproper), hdropped⟩

end AbiBindings.Violation
