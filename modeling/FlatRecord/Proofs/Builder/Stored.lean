import FlatRecord.Proofs.Builder.Soundness
import Mathlib.Data.List.Forall2

/-! Objects as they lie among the written bytes. An open record or vector has a draft, which says what it
holds so far; a closed one is stored, and stays so while the bytes grow at their front. -/
namespace FlatRecord

open Builder Build

/-- What a field or an element is: bytes of its own, or an offset to an object. -/
inductive Piece where
  | own (bytes : List UInt8)
  | ref (kind : ObjectKind) (target : Nat)
deriving DecidableEq, Repr

namespace Piece

def size : Piece → Nat
  | own bytes => bytes.length
  | ref .. => offsetSize

/-- The piece as it stands at distance `d`. -/
def bytesAt (d : Nat) : Piece → List UInt8
  | own bytes => bytes
  | ref _ target => LittleEndian.encode offsetSize (d - target)

/-- An offset leads forward, and not too far. -/
def Reaches (d : Nat) : Piece → Prop
  | own _ => True
  | ref _ target => 0 < target ∧ target < d ∧ d - target < 2 ^ 32

@[simp] theorem length_bytesAt (p : Piece) (d : Nat) : (p.bytesAt d).length = p.size := by
  cases p with
  | own bytes => rfl
  | ref kind target => exact LittleEndian.length_encode _ _

end Piece

/-- The piece stands at distance `d`. -/
structure PieceStored (s : List UInt8) (d : Nat) (p : Piece) : Prop where
  holds : Holds s d (p.bytesAt d)
  reaches : p.Reaches d

structure TextStored (s : List UInt8) (d : Nat) (bytes : List UInt8) : Prop where
  short : bytes.length < 2 ^ 32
  holds : Holds s d (textBytes bytes)

/-- A count, and behind it the elements, which all have the same size. -/
structure VectorStored (s : List UInt8) (d size : Nat) (elements : List Piece) : Prop where
  short : elements.length < 2 ^ 32
  count : Holds s d (LittleEndian.encode offsetSize elements.length)
  room : offsetSize + elements.length * size ≤ d
  sizes : ∀ p ∈ elements, p.size = size
  element : ∀ i p, elements[i]? = some p → PieceStored s (d - offsetSize - i * size) p

/-- The place that the builder noted for a slot holds the slot's piece. -/
structure FieldStored (s : List UInt8) (start : Nat) (place : Field) (field : Nat × Piece) :
    Prop where
  slot : place.slot = field.1
  inside : start + field.2.size ≤ place.distance
  stored : PieceStored s place.distance field.2

/-- A record whose last byte lies in front of distance `start` and whose field table is at `table`. -/
structure RecordAt (s : List UInt8) (d start table : Nat) (places : List Field)
    (fields : List (Nat × Piece)) : Prop where
  near : d ≤ largestBuffer
  tableNear : table ≤ largestBuffer
  large : start + offsetSize ≤ d
  small : d - start ≤ largestRecord
  offset : Holds s d (Scalar.int32 (Int32.ofInt ((table : Int) - d))).toBytes
  table : Holds s table (tableBytes d (d - start) places)
  behind : ∀ f ∈ places, f.distance + offsetSize ≤ d
  slots : ∀ f ∈ places, f.slot < slotLimit
  distinct : (places.map (·.slot)).Nodup
  fields : List.Forall₂ (FieldStored s start) places fields

/-- What a reader looks at before it looks at any field. -/
structure HeadAt (s : List UInt8) (d start table : Nat) (places : List Field) : Prop where
  near : d ≤ largestBuffer
  tableNear : table ≤ largestBuffer
  large : start + offsetSize ≤ d
  small : d - start ≤ largestRecord
  offset : Holds s d (Scalar.int32 (Int32.ofInt ((table : Int) - d))).toBytes
  table : Holds s table (tableBytes d (d - start) places)
  slots : ∀ f ∈ places, f.slot < slotLimit

theorem RecordAt.head {s : List UInt8} {d start table : Nat} {places : List Field}
    {fields : List (Nat × Piece)} (record : RecordAt s d start table places fields) :
    HeadAt s d start table places := { record with }

def RecordStored (s : List UInt8) (d : Nat) (fields : List (Nat × Piece)) : Prop :=
  ∃ start table places, RecordAt s d start table places fields

variable {s t : List UInt8} {d size : Nat}

theorem PieceStored.of_suffix {p : Piece} (stored : PieceStored t d p) (suffix : t <:+ s) :
    PieceStored s d p := ⟨stored.holds.of_suffix suffix, stored.reaches⟩

theorem TextStored.of_suffix {bytes : List UInt8} (stored : TextStored t d bytes)
    (suffix : t <:+ s) : TextStored s d bytes := ⟨stored.short, stored.holds.of_suffix suffix⟩

theorem VectorStored.of_suffix {elements : List Piece} (stored : VectorStored t d size elements)
    (suffix : t <:+ s) : VectorStored s d size elements where
  short := stored.short
  count := stored.count.of_suffix suffix
  room := stored.room
  sizes := stored.sizes
  element i p found := (stored.element i p found).of_suffix suffix

theorem FieldStored.of_suffix {start : Nat} {place : Field} {field : Nat × Piece}
    (stored : FieldStored t start place field) (suffix : t <:+ s) :
    FieldStored s start place field := ⟨stored.slot, stored.inside, stored.stored.of_suffix suffix⟩

theorem HeadAt.of_suffix {start table : Nat} {places : List Field}
    (head : HeadAt t d start table places) (suffix : t <:+ s) : HeadAt s d start table places :=
  { head with
    offset := head.offset.of_suffix suffix
    table := head.table.of_suffix suffix }

theorem RecordAt.of_suffix {start table : Nat} {places : List Field} {fields : List (Nat × Piece)}
    (record : RecordAt t d start table places fields) (suffix : t <:+ s) :
    RecordAt s d start table places fields :=
  { record with
    offset := record.offset.of_suffix suffix
    table := record.table.of_suffix suffix
    fields := record.fields.imp fun _ _ field => field.of_suffix suffix }

theorem RecordStored.of_suffix {fields : List (Nat × Piece)} (stored : RecordStored t d fields)
    (suffix : t <:+ s) : RecordStored s d fields :=
  let ⟨start, table, places, record⟩ := stored
  ⟨start, table, places, record.of_suffix suffix⟩

namespace Builder

variable {b b' : Builder}

/-- The open record's fields, the newest first. -/
def RecordDraft (b : Builder) (fields : List (Nat × Piece)) : Prop :=
  ∃ start places, b.stage = .record start places ∧
    List.Forall₂ (FieldStored b.written start) places fields

/-- The open vector's elements so far. Nothing was written since it began. -/
structure VectorDraft (b : Builder) (length size : Nat) (elements : List Piece) : Prop where
  stage : b.stage = .vector length elements.length size b.used
  aligned : b.used % 4 = 0
  short : length < 2 ^ 32
  sizes : ∀ p ∈ elements, p.size = size
  element : ∀ i p, elements[i]? = some p → PieceStored b.written (b.used - i * size) p

theorem text_stored {bytes gap : List UInt8} (sound : b.RegionSound) (short : bytes.length < 2 ^ 32)
    (adds : Adds b (textBytes bytes ++ gap) b') : TextStored b'.written b'.used bytes := by
  refine ⟨short, [], gap ++ b.written, ?_, ?_⟩
  · rw [adds.written, List.append_assoc]; rfl
  · rw [adds.used sound, ← sound.length_written, ← List.length_append, List.append_assoc]

theorem draft_begun {length : Nat} (bytes : length * size < 2 ^ 32) (positive : size ≠ 0)
    (aligned : b.used % 4 = 0) :
    VectorDraft (b.withStage (.vector length 0 size b.used)) length size [] where
  stage := rfl
  aligned := aligned
  short := Nat.lt_of_le_of_lt (Nat.le_mul_of_pos_right length (Nat.pos_of_ne_zero positive)) bytes
  sizes := nofun
  element := nofun

/-- A filled element joins the draft, and the others stay. -/
theorem draft_filled {length pushed first : Nat} {elements : List Piece} {p : Piece}
    (sound : b.Sound) (draft : VectorDraft b length p.size elements)
    (stage : b.stage = .vector length pushed p.size first) (more : pushed < length)
    (reaches : p.Reaches (first - pushed * p.size)) :
    VectorDraft (b.filled length pushed first (p.bytesAt (first - pushed * p.size))) length p.size
      (elements ++ [p]) := by
  obtain ⟨-, rfl, -, rfl⟩ := Stage.vector.inj (draft.stage.symm.trans stage)
  have whole := sound.region.length_written
  obtain ⟨place, isPlace⟩ : ∃ place, place = b.used - elements.length * p.size := ⟨_, rfl⟩
  have size := p.length_bytesAt place
  rw [← size] at stage
  obtain ⟨inside, room, written⟩ := filled_replaces sound stage more
  rw [size, ← isPlace] at inside room written
  rw [← isPlace] at reaches ⊢
  refine ⟨?_, draft.aligned, draft.short, fun q mem => ?_, fun i q found => ?_⟩
  · rw [List.length_append, List.length_singleton]
    simp only [filled, size]
    rfl
  · rcases List.mem_append.1 mem with older | new
    · exact draft.sizes q older
    · rw [List.mem_singleton.1 new]
  · rw [written]
    rcases Nat.lt_trichotomy i elements.length with before | here | after
    · rw [List.getElem?_append_left before] at found
      obtain ⟨holds, reach⟩ := draft.element i q found
      have same := draft.sizes q (List.mem_of_getElem? found)
      refine ⟨holds.replaced_ahead (size ▸ room) ?_, reach⟩
      rw [Piece.length_bytesAt, same]
      have step : (i + 1) * p.size ≤ elements.length * p.size := Nat.mul_le_mul_right _ before
      rw [Nat.add_mul] at step
      simp only [filled, used] at *
      omega
    · subst here
      rw [List.getElem?_append_right (Nat.le_refl _), Nat.sub_self] at found
      cases found
      have here : (b.filled length elements.length b.used (p.bytesAt place)).used -
          elements.length * p.size = place := isPlace.symm
      rw [here]
      exact ⟨holds_replaced (size ▸ room) (whole ▸ inside), reaches⟩
    · rw [List.getElem?_eq_none (by simp; omega)] at found
      cases found

/-- An element that refers to what was complete when the vector began. -/
theorem ref_reaches (sound : b.Sound) {pushed first : Nat} {kind : ObjectKind} {target : Nat}
    (stage : b.stage = .vector length pushed offsetSize first) (more : pushed < length)
    (positive : 0 < target) (below : target ≤ first - length * offsetSize) :
    (Piece.ref kind target).Reaches (first - pushed * offsetSize) := by
  have fits := sound.fits
  rw [stage] at fits
  have near := sound.region.used_le
  have step : (pushed + 1) * offsetSize ≤ length * offsetSize := Nat.mul_le_mul_right _ more
  have inside := fits.2.2
  have room := fits.2.1
  rw [Nat.add_mul] at step
  simp only [Piece.Reaches, largestBuffer, offsetSize] at *
  omega

/-- The count of a full vector comes right in front of its elements. -/
theorem vector_closed {length n size' first : Nat} {elements : List Piece} {gap : List UInt8}
    (sound : b.Sound) (draft : VectorDraft b length size elements)
    (stage : b.stage = .vector n n size' first)
    (adds : Adds (b.withStage .idle) ((Scalar.uint32 (UInt32.ofNat n)).toBytes ++ gap) b')
    (tight : gap = zeros (padding (b.used + offsetSize) offsetSize)) :
    elements.length = length ∧ b'.used = offsetSize + b.used ∧
      VectorStored b'.written b'.used size elements := by
  obtain ⟨rfl, full, rfl, rfl⟩ := Stage.vector.inj (stage.symm.trans draft.stage)
  have aligned := draft.aligned
  have none : padding (b.used + offsetSize) offsetSize = 0 := by
    rw [offsetSize, padding_four]; omega
  rw [none, zeros, List.replicate_zero] at tight
  rw [tight, List.append_nil, toBytes_count n draft.short] at adds
  have used : b'.used = offsetSize + b.used := by
    rw [adds.used (sound.region.withStage .idle), LittleEndian.length_encode, used_withStage]
  have fits := sound.fits
  rw [draft.stage] at fits
  have written : b'.written = LittleEndian.encode offsetSize n ++ b.written := adds.written
  rw [← full]
  refine ⟨rfl, used, full ▸ draft.short, ?_, ?_, draft.sizes, fun i p found => ?_⟩
  · rw [← full, written, used, ← sound.region.length_written]
    have front := holds_front (LittleEndian.encode offsetSize n) b.written
    rwa [LittleEndian.length_encode] at front
  · have room := fits.2.1
    rw [← full, used]
    omega
  · have place : b'.used - offsetSize - i * size' = b.used - i * size' := by omega
    rw [place]
    exact (draft.element i p found).of_suffix ⟨_, written.symm⟩

theorem record_begun : RecordDraft (b.withStage (.record b.used [])) [] :=
  ⟨b.used, [], rfl, .nil⟩

theorem Adds.holds {bytes gap : List UInt8} (adds : Adds b (bytes ++ gap) b')
    (sound : b.RegionSound) : Holds b'.written b'.used bytes :=
  ⟨[], gap ++ b.written, by rw [adds.written]; simp, by
    rw [adds.used sound, ← sound.length_written, ← List.length_append, List.append_assoc]⟩

/-- A field that was added joins the draft. -/
theorem draft_added {fields : List (Nat × Piece)} {slot : Nat} {p : Piece} (sound : b.Sound)
    (draft : RecordDraft b fields) (added : Added b slot (p.bytesAt b'.used) b')
    (reaches : p.Reaches b'.used) : RecordDraft b' ((slot, p) :: fields) := by
  obtain ⟨start, places, stage, placed⟩ := draft
  obtain ⟨start', places', b₁, gap, stage', _, _, adds, rfl⟩ := added
  obtain ⟨rfl, rfl⟩ := Stage.record.inj (stage.symm.trans stage')
  have fits := sound.fits
  rw [stage] at fits
  have used := adds.used sound.region
  rw [List.length_append, Piece.length_bytesAt] at used
  refine ⟨start, _, rfl, .cons ⟨rfl, ?_, adds.holds sound.region, reaches⟩ ?_⟩
  · have begun := fits.1
    dsimp only
    omega
  · exact placed.imp fun _ _ field => field.of_suffix adds.suffix

/-- An offset to what was complete when the record began. -/
theorem ref_added {slot : Nat} {kind : ObjectKind} {target : Nat} (sound : b.Sound)
    (positive : 0 < target)
    (older : ∃ start fields, b.stage = .record start fields ∧ target ≤ start)
    (added : Added b slot (LittleEndian.encode offsetSize (b'.used - target)) b') :
    (Piece.ref kind target).Reaches b'.used := by
  obtain ⟨start, fields, stage, below⟩ := older
  obtain ⟨_, _, b₁, gap, _, _, _, adds, rfl⟩ := added
  have fits := sound.fits
  rw [stage] at fits
  have begun := fits.1
  have used := adds.used sound.region
  have near := adds.region.used_le
  rw [List.length_append, LittleEndian.length_encode] at used
  simp only [Piece.Reaches, used_withStage, largestBuffer, offsetSize] at *
  omega

/-- Whatever its fields are, a record that is closed has its field table. -/
theorem head_closed {start d : Nat} {places : List Field} (sound : b.Sound)
    (stage : b.stage = .record start places) (closed : Closed b start places d b') :
    ∃ table, HeadAt b'.written d start table places := by
  have fits := sound.fits
  rw [stage] at fits
  obtain ⟨t, inside, table, offset⟩ := closed.table
  have near := closed.region.used_le
  exact ⟨t,
    { near := Nat.le_trans closed.inside near
      tableNear := Nat.le_trans inside near
      large := Nat.le_trans (Nat.add_le_add_right fits.1 _) closed.behind
      small := closed.size
      offset := offset
      table := table
      slots := fun f mem => (fits.2.1 f mem).2.2 }⟩

theorem record_closed {start d : Nat} {places : List Field} {fields : List (Nat × Piece)}
    (sound : b.Sound) (draft : RecordDraft b fields) (stage : b.stage = .record start places)
    (closed : Closed b start places d b') :
    ∃ table, RecordAt b'.written d start table places fields := by
  obtain ⟨start', places', stage', placed⟩ := draft
  obtain ⟨rfl, rfl⟩ := Stage.record.inj (stage.symm.trans stage')
  obtain ⟨table, head⟩ := head_closed sound stage closed
  have fits := sound.fits
  rw [stage] at fits
  exact ⟨table,
    { head with
      behind := fun f mem =>
        Nat.le_trans (Nat.add_le_add_right (fits.2.1 f mem).2.1 _) closed.behind
      distinct := fits.2.2
      fields := placed.imp fun _ _ field => field.of_suffix closed.kept }⟩

end Builder

end FlatRecord
