import FlatRecord.Proofs.Builder.Finishing
import FlatRecord.Proofs.Builder.Parts
import FlatRecord.Proofs.Codec.Encoded
import FlatRecord.Reading.Buffer

/-! The round trip: a record that is encoded, finished and opened again is its normal form. -/
namespace FlatRecord

open Builder Build Reading Encoding Decoding

section Opening

variable {b b' : Builder} {root : Nat} {sizePrefixed : Bool} {bytes : Bytes}

/-- What follows a buffer does not move what stands at its front. -/
theorem nat_front {width n : Nat} {rest : List UInt8} (more : Bytes)
    (front : bytes.toList = LittleEndian.encode width n ++ rest) (fits : n < 256 ^ width) :
    nat (bytes ++ more) 0 width = .ok n := by
  have holds : Holds (bytes ++ more).toList (bytes ++ more).size (LittleEndian.encode width n) := by
    refine ⟨[], rest ++ more.toList, by simp [front], ?_⟩
    rw [← Array.length_toList, Array.toList_append, front, List.append_assoc]
  have read := nat_of_holds holds fits
  rwa [Nat.sub_self] at read

theorem offset_stored (front : List UInt8) {s rest : List UInt8} {d : Nat}
    (split : s = front ++ (LittleEndian.encode offsetSize (d - root) ++ rest))
    (here : d = offsetSize + rest.length) (positive : 0 < root) (inside : root ≤ rest.length)
    (near : d ≤ largestBuffer) : PieceStored s d (.ref .record root) := by
  refine ⟨⟨front, rest, split, ?_⟩, positive, ?_, ?_⟩
  · rw [List.length_append, Piece.bytesAt, LittleEndian.length_encode]
    exact here
  · simp only [offsetSize] at here
    omega
  · simp only [largestBuffer] at near
    omega

namespace Finished

variable (finished : Finished b root sizePrefixed bytes b')

include finished

theorem size_eq : bytes.size = b'.used := by
  rw [← Array.length_toList, finished.data, finished.region.length_written]

theorem suffix : b.written <:+ bytes.toList := by
  obtain ⟨gap, written⟩ := finished.written
  exact ⟨_, by rw [finished.data, written, List.append_assoc]⟩

/-- Where the offset to the root record stands: in front, or behind the size. -/
theorem root_stored (sound : b.RegionSound) :
    (if sizePrefixed then offsetSize else 0) ≤ bytes.size ∧
    PieceStored bytes.toList (bytes.size - if sizePrefixed then offsetSize else 0)
      (.ref .record root) := by
  obtain ⟨gap, written⟩ := finished.written
  have size := finished.size_eq
  have inside : root ≤ (gap ++ b.written).length := by
    rw [List.length_append, sound.length_written]
    exact Nat.le_trans finished.inside (Nat.le_add_left _ _)
  have near := finished.region.used_le
  have length := congrArg List.length written
  rw [← finished.data, Array.length_toList] at length
  rw [← finished.data, ← size] at written
  rw [← size] at near length
  cases sizePrefixed with
  | false =>
    simp only [headerBytes, Bool.false_eq_true, if_false, List.length_append,
      LittleEndian.length_encode] at written length ⊢
    refine ⟨Nat.zero_le _, offset_stored [] written ?_ finished.positive inside near⟩
    rw [List.length_append, length, Nat.sub_zero]
  | true =>
    simp only [headerBytes, if_true, List.length_append, LittleEndian.length_encode] at written length ⊢
    rw [List.append_assoc] at written
    refine ⟨by omega, offset_stored _ written ?_ finished.positive inside (by omega)⟩
    rw [List.length_append]
    omega

theorem size_reads (sized : sizePrefixed = true) (more : Bytes) :
    nat (bytes ++ more) 0 offsetSize = .ok (bytes.size - offsetSize) := by
  obtain ⟨gap, written⟩ := finished.written
  have near := finished.region.used_le
  rw [← finished.data, headerBytes, if_pos sized, List.append_assoc, ← finished.size_eq] at written
  rw [← finished.size_eq] at near
  apply nat_front more written
  simp only [largestBuffer, offsetSize] at *
  omega

/-- A finished buffer opens, one with a size in front whatever follows it. -/
theorem opens (sound : b.RegionSound) (more : Bytes) :
    (if sizePrefixed then Buffer.ofSizePrefixed (bytes ++ more) else Buffer.ofBytes bytes) =
      .ok ⟨bytes, if sizePrefixed then offsetSize else 0⟩ := by
  obtain ⟨room, stored⟩ := finished.root_stored sound
  have wide := stored.holds.length_le
  have size : (bytes ++ more).size = bytes.size + more.size := Array.size_append
  rw [Piece.length_bytesAt, Piece.size] at wide
  cases sized : sizePrefixed with
  | false =>
    simp only [sized, Bool.false_eq_true, if_false, Nat.sub_zero] at wide ⊢
    rw [Buffer.ofBytes, if_neg (by omega)]
  | true =>
    simp only [sized, if_true] at wide room ⊢
    have total : offsetSize + (bytes.size - offsetSize) = bytes.size := by omega
    have whole : (bytes ++ more).take bytes.size = bytes := by simp
    rw [Buffer.ofSizePrefixed_eq, if_neg (by omega), finished.size_reads sized more, ok_bind, total,
      if_neg (by omega), if_neg (by omega), whole]

theorem root_follows (sound : b.RegionSound) :
    follow bytes (if sizePrefixed then offsetSize else 0) = .ok (bytes.size - root) := by
  obtain ⟨room, stored⟩ := finished.root_stored sound
  have there := follow_stored stored
  rwa [Nat.sub_sub_self room] at there

theorem root_reads (sound : b.RegionSound) :
    Buffer.root ⟨bytes, if sizePrefixed then offsetSize else 0⟩ =
      Table.read bytes (bytes.size - root) := by
  rw [Buffer.root, finished.root_follows sound, ok_bind]

end Finished

end Opening

section Sizes

variable {schema : Schema} {forced : Bool} {r : Record}

/-- No deeper than the value, and no more objects. -/
def NoLarger (a v : Value) : Prop := a.levels ≤ v.levels ∧ a.objects ≤ v.objects

theorem levels_set (r : Record) (name : String) (v : Value) :
    Value.levelsEntries (r.set name v) ≤ max v.levels (Value.levelsEntries r) := by
  induction r with
  | nil => exact Nat.le_refl _
  | cons entry rest ih =>
    simp only [Record.set]
    split
    next => exact Nat.le_refl _
    next =>
      split
      next => simp only [Value.levelsEntries]; omega
      next => simp only [Value.levelsEntries]; omega

/-- Defaults are neither records nor objects. -/
theorem withDefaults_noLarger (schema : Schema) (type : RecordType) (r : Record) :
    NoLarger (.record (withDefaults schema type r)) (.record r) := by
  simp only [withDefaults]
  generalize type.liveFields = fields
  induction fields generalizing r with
  | nil => exact ⟨Nat.le_refl _, Nat.le_refl _⟩
  | cons f rest ih =>
    rw [List.foldl_cons]
    split
    next default _ =>
      split
      next => exact ih r
      next missing =>
        have fresh : r.get? f.name = none := by simpa [Record.contains] using missing
        have levels := levels_set r f.name (.scalar default)
        have objects := objects_set (v := .scalar default) fresh
        have rest := ih (r.set f.name (.scalar default))
        simp only [NoLarger, Value.levels, Value.objects] at *
        omega
    next => exact ih r

theorem settleDefault_noLarger (schema : Schema) (forced : Bool) (f : RecordField) (v : Value) :
    NoLarger (settleDefault schema forced f v) v := by
  simp only [settleDefault]
  split
  next => split <;> exact ⟨Nat.le_refl _, Nat.le_refl _⟩
  next => exact ⟨Nat.le_refl _, Nat.le_refl _⟩

mutual

theorem normal_noLarger (type : FieldType) : (v : Value) → NoLarger (normal schema forced type v) v
  | .scalar v => by
    simp only [normal]
    split
    · exact ⟨Nat.le_refl _, Nat.le_refl _⟩
    · split <;> exact ⟨Nat.le_refl _, Nat.le_refl _⟩
    · exact ⟨Nat.le_refl _, Nat.le_refl _⟩
  | .text s => by
    simp only [normal]
    split
    · split
      · exact ⟨Nat.le_refl _, Nat.zero_le _⟩
      · exact ⟨Nat.le_refl _, Nat.le_refl _⟩
    · exact ⟨Nat.le_refl _, Nat.le_refl _⟩
  | .bytes b => by
    simp only [normal]
    split
    · simp only [ownedText]
      split <;> exact ⟨Nat.le_refl _, Nat.le_refl _⟩
    · exact ⟨Nat.le_refl _, Nat.le_refl _⟩
  | .vector items => by
    simp only [normal]
    split
    next element =>
      have inner := items_noLarger element.asField items
      simp only [NoLarger, Value.levels, Value.objects]
      omega
    next => exact ⟨Nat.le_refl _, Nat.le_refl _⟩
  | .record entries => by
    simp only [normal]
    split
    · split
      next type _ =>
        have inner := entries_noLarger type entries
        have outer := withDefaults_noLarger schema type
          (normalEntries schema forced type entries)
        simp only [NoLarger, Value.levels, Value.objects] at outer ⊢
        omega
      next => exact ⟨Nat.le_refl _, Nat.le_refl _⟩
    · split
      · exact ⟨Nat.zero_le _, Nat.zero_le _⟩
      · exact ⟨Nat.le_refl _, Nat.le_refl _⟩
    · exact ⟨Nat.le_refl _, Nat.le_refl _⟩
  | .struct entries => by
    simp only [normal]
    split
    · split <;> exact ⟨Nat.le_refl _, Nat.le_refl _⟩
    · exact ⟨Nat.le_refl _, Nat.le_refl _⟩

theorem items_noLarger (type : FieldType) : (items : List Value) →
    Value.levelsItems (normalItems schema forced type items) ≤ Value.levelsItems items ∧
      Value.objectsItems (normalItems schema forced type items) ≤ Value.objectsItems items
  | [] => ⟨Nat.le_refl _, Nat.le_refl _⟩
  | v :: rest => by
    have head := normal_noLarger type v
    have tail := items_noLarger type rest
    simp only [NoLarger, normalItems, Value.levelsItems, Value.objectsItems] at *
    omega

theorem entries_noLarger (type : RecordType) : (entries : List (String × Value)) →
    Value.levelsEntries (normalEntries schema forced type entries) ≤ Value.levelsEntries entries ∧
      Value.objectsEntries (normalEntries schema forced type entries) ≤ Value.objectsEntries entries
  | [] => ⟨Nat.le_refl _, Nat.le_refl _⟩
  | (name, v) :: rest => by
    have tail := entries_noLarger type rest
    simp only [normalEntries, Value.levelsEntries, Value.objectsEntries]
    split
    next f _ =>
      have head := normal_noLarger f.type v
      have settled := settleDefault_noLarger schema forced f
        (normal schema forced f.type v)
      simp only [NoLarger] at head settled
      omega
    next => omega

end

theorem normalRecord_noLarger (schema : Schema) (forced : Bool) (typeName : String) (r : Record) :
    NoLarger (.record (normalRecord schema forced typeName r)) (.record r) := by
  rw [← normal_record]
  exact normal_noLarger (.record typeName) (.record r)

end Sizes

/-- A record that is encoded in a sound builder and finished opens as its normal form. -/
theorem encoded_decodes {schema : Schema} {b b₁ b₂ : Builder} {typeName : String} {r : Record}
    {root : Ref .record} {identifier : Option Identifier} {sizePrefixed : Bool} {bytes : Bytes}
    (valid : schema.Valid) (names : schema.DistinctNames) (out : schema.LaidOut) (sound : b.Sound)
    (ordered : Record.Ordered r) (encoded : (encode schema typeName r).run b = .ok root b₁)
    (finished : (finish root identifier sizePrefixed).run b₁ = .ok bytes b₂) (limits : Limits)
    (deep : Value.levelsEntries r ≤ limits.maxDepth)
    (many : Value.objectsEntries r + 1 ≤ limits.maxObjects) (more : Bytes) :
    ∃ buf t, (if sizePrefixed then Buffer.ofSizePrefixed (bytes ++ more) else Buffer.ofBytes bytes) =
        .ok buf ∧ buf.root = .ok t ∧ toOwned buf.bytes schema typeName t limits =
        .ok (normalRecord schema b.config.forceDefaults typeName r) := by
  obtain ⟨advances, means⟩ := Ends.of_ok (encode_means limits valid names out sound ordered) encoded
  have sound := advances.sound
  have ended : Finished b₁ root.distance sizePrefixed bytes b₂ :=
    Ends.of_ok (finish_ends sound.region root identifier sizePrefixed) finished
  have settled : b₁.settled <:+ bytes.toList := (settled_suffix_written b₁).trans ended.suffix
  obtain ⟨levels, objects⟩ :=
    normalRecord_noLarger schema b.config.forceDefaults typeName r
  simp only [Value.levels, Value.objects] at levels objects
  obtain ⟨t, read, gives⟩ := means bytes (limits.maxDepth + 1) settled (by omega)
  refine ⟨_, t, ended.opens sound.region more, ?_, ?_⟩
  · rw [ended.root_reads sound.region, read]
  · rw [toOwned, StateT.run'_eq, gives 0 (by omega)]
    rfl

/-- Whatever was built before, a record that is encoded and finished opens as its normal form, also when
other bytes follow a size-prefixed buffer. Its structs have the natural layout. -/
theorem encode_round_trips {schema : Schema} {b b₁ b₂ : Builder} {typeName : String} {r : Record}
    {root : Ref .record} {identifier : Option Identifier} {sizePrefixed : Bool} {bytes : Bytes}
    (valid : schema.validate = .ok ()) (names : schema.DistinctNames) (out : schema.LaidOut)
    (reachable : b.Reachable) (ordered : Record.Ordered r)
    (encoded : (encode schema typeName r).run b = .ok root b₁)
    (finished : (finish root identifier sizePrefixed).run b₁ = .ok bytes b₂) (limits : Limits)
    (deep : Value.levelsEntries r ≤ limits.maxDepth)
    (many : Value.objectsEntries r + 1 ≤ limits.maxObjects) (more : Bytes) :
    ∃ buf t, (if sizePrefixed then Buffer.ofSizePrefixed (bytes ++ more) else Buffer.ofBytes bytes) =
        .ok buf ∧ buf.root = .ok t ∧ toOwned buf.bytes schema typeName t limits =
        .ok (normalRecord schema b.config.forceDefaults typeName r) :=
  encoded_decodes (Schema.valid_of_validate valid) names out reachable.sound ordered encoded finished
    limits deep many more

/-- A point on a line, at zero unless it says otherwise. -/
def pointSchema : Schema :=
  { records := [{ name := "Point", fields := [.ofType "x" 0 (.scalar .float32),
      .ofType "label" 1 .text] }]
    root := some "Point" }

def labelled : Record := [("label", .text "a"), ("x", .scalar (.int32 1))]

/-- The builder behind the point's fields. -/
def labelledBuilt (config : Config) : Builder where
  config
  region := {
    cells := #[0, 0, 0, 97, 0, 0, 0, 1, 63, 128, 0, 0, 0, 0, 0, 8, 0, 0, 0, 8, 0, 4, 0, 8, 0, 12, 0, 8]
    used := 28
    capacity := 1024
    maxSize := largestBuffer }
  minAlign := 4
  tables := [28]

/-- The point, finished with its size in front. -/
def labelledBuffer : Bytes := #[
  32, 0, 0, 0, 12, 0, 0, 0, 8, 0, 12, 0, 8, 0, 4, 0, 8, 0, 0, 0, 8, 0, 0, 0, 0, 0, 128, 63,
  1, 0, 0, 0, 97, 0, 0, 0]

theorem pointSchema_distinctNames : pointSchema.DistinctNames := ⟨by decide, by decide⟩

theorem labelled_encoded :
    (encode pointSchema "Point" labelled).run (ofConfig {}) = .ok ⟨20⟩ (labelledBuilt {}) :=
  of_outcome_ok (by decide +kernel)

theorem labelled_finished : (finish ⟨20⟩ none true).run (labelledBuilt {}) =
    .ok labelledBuffer (outcome ((finish ⟨20⟩ none true).run (labelledBuilt {}))).2 :=
  of_outcome_ok (Prod.ext (by decide +kernel) rfl)

theorem labelled_round_trips :
    ∃ buf t, Buffer.ofSizePrefixed (labelledBuffer ++ #[7]) = .ok buf ∧ buf.root = .ok t ∧
      toOwned buf.bytes pointSchema "Point" t {} =
        .ok (normalRecord pointSchema false "Point" labelled) := by
  have ordered : Record.Ordered labelled :=
    ⟨by unfold Record.Sorted; decide +kernel, trivial, trivial, trivial⟩
  exact encode_round_trips (by decide +kernel) pointSchema_distinctNames (by decide) ⟨{}, [], rfl⟩ ordered
    labelled_encoded labelled_finished {} (by decide) (by decide) #[7]

/-- The other zero, which is the default as a number. -/
def negativeZero : Record := [("x", .scalar (.float32 0x80000000))]

/-- A struct with both members in its only byte. -/
def overlaid : StructType where
  name := "Overlaid"
  members := [("a", .uint8), ("b", .bool)]
  layout := [⟨"a", .uint8, 0⟩, ⟨"b", .bool, 0⟩]
  layout_members := rfl
  alignment := 1
  size := 1

def twoAndTrue : Record := [("one", .struct [("a", .scalar (.uint8 2)), ("b", .scalar (.bool true))])]

def oneAndTrue : Record := [("one", .struct [("a", .scalar (.uint8 1)), ("b", .scalar (.bool true))])]

/-- The second member's byte was written over the first one's. -/
def overlaidBuffer : Bytes := #[12, 0, 0, 0, 0, 0, 6, 0, 8, 0, 7, 0, 6, 0, 0, 0, 0, 0, 0, 1]

/-- A field that equals its default as a number is not written, so negative zero is not kept; nor is a member over
which another one is laid. -/
theorem values_not_kept :
    (pointSchema.validate = .ok () ∧ ∃ bytes, encodeRoot pointSchema negativeZero {} = .ok bytes ∧
      normalRecord pointSchema true "Point" negativeZero = negativeZero ∧
      decodeRoot pointSchema bytes {} = .ok [("x", .scalar (.float32 0))] ∧
      decodeRoot pointSchema bytes {} ≠ .ok (normalRecord pointSchema true "Point" negativeZero)) ∧
    (Schema.holding overlaid).validate = .ok () ∧ (Schema.holding overlaid).DistinctNames ∧
      encodeRoot (.holding overlaid) twoAndTrue {} = .ok overlaidBuffer ∧
      normalRecord (.holding overlaid) true "Holder" twoAndTrue = twoAndTrue ∧
      decodeRoot (.holding overlaid) overlaidBuffer {} = .ok oneAndTrue :=
  ⟨⟨rfl, #[8, 0, 0, 0, 4, 0, 4, 0, 4, 0, 0, 0], by decide +kernel⟩, Schema.validate_holding overlaid,
    ⟨by decide, by decide⟩, by decide +kernel⟩

end FlatRecord
