import FlatRecord.Proofs.Reading.Opening

/-! Structs are read at a size that the caller gives, which may be any word. What comes out lies inside the record, the
vector or the struct that it was asked of. One sum can go wrong: that of a field's place in its record and such a size,
which is made without asking whether it fits. -/
namespace FlatRecord

open Reading

namespace Machine

def struct? (buf : Bytes) (t : Table) (slot size : Nat) : Checked (Option Bytes) := do
  (← fieldPosition buf t slot size).mapM fun pos => bytesAt buf pos size

def structVector? (buf : Bytes) (t : Table) (slot stride : Nat) : Checked (Option StructVector) := do
  (← target buf t slot).mapM fun pos => do
    let header ← vectorHeader buf pos stride
    return ⟨header.1, header.2, stride⟩

def structAt (buf : Bytes) (v : StructVector) (index : Nat) : Checked Bytes :=
  if v.length ≤ index then throw (.indexOutOfRange index v.length) else do
  bytesAt buf (← add v.start (← mul index v.stride)) v.stride

end Machine

/-- `size` bytes of the buffer from `start` on, all of them in front of `stop`. -/
structure CutOut (buf : Bytes) (start size stop : Nat) (bytes : Bytes) : Prop where
  same : bytes = buf.extract start (start + size)
  whole : bytes.size = size
  inside : start + size ≤ stop

/-- Where the field stands and its size add up to more than a word, and what a word keeps of the sum passes for a place
inside the record. -/
def Table.Wraps (buf : Bytes) (t : Table) (slot size : Nat) : Prop :=
  ∃ offset, t.slotOffset buf slot = .ok (some offset) ∧ offsetSize ≤ offset ∧
    wordLimit ≤ offset + size ∧ word (offset + size) ≤ t.inlineSize

variable {buf bytes : Bytes} {t : Table} {slot size pos : Nat}

section Fields

variable {offset : Nat}

theorem struct?_absent (absent : t.slotOffset buf slot = .ok none) : t.struct? buf slot size = .ok none := by
  simp only [Table.struct?, Table.fieldPosition_eq, absent, ok_bind]
  rfl

/-- The one check that is made, and the bytes that are then taken. -/
theorem struct?_found (found : t.slotOffset buf slot = .ok (some offset)) : t.struct? buf slot size =
    if offset < offsetSize ∨ t.inlineSize < word (offset + size) then
      .error (.corrupt (t.fieldTable + Table.entryOffset slot) .fieldOutsideRecord)
    else (slice buf (t.position + offset) (t.position + offset + size)).map some := by
  simp only [Table.struct?, Table.fieldPosition_eq, found, ok_bind]
  split
  · rfl
  · simp only [ok_bind, Option.mapM_some]
    cases slice buf (t.position + offset) (t.position + offset + size) <;> rfl

theorem slotOffset_ok (within : t.Within buf) (slot : Nat) : ∃ offset, t.slotOffset buf slot = .ok offset := by
  rw [Table.slotOffset_eq]
  by_cases past : t.fieldTableLength < Table.entryOffset slot + entrySize
  · exact ⟨none, if_pos past⟩
  · have inside := within.table
    rw [if_neg past, slice_ok (Nat.le_add_right _ _) (by omega)]
    exact ⟨_, rfl⟩

/-- A sum that is too large for a word leads past the end of every buffer. -/
theorem slice_astray (addressable : Addressable buf) {start : Nat} (large : wordLimit ≤ start + size) :
    slice buf start (start + size) = .error (.outside start (start + size) buf.size) := by
  simp only [Addressable, wordLimit] at addressable large
  exact if_neg (by omega)

/-- A sum that fits a word is compared as it is. -/
theorem struct?_small (within : t.Within buf) (found : t.slotOffset buf slot = .ok (some offset))
    (small : offset + size < wordLimit) : t.struct? buf slot size =
    if offset < offsetSize ∨ t.inlineSize < offset + size then
      .error (.corrupt (t.fieldTable + Table.entryOffset slot) .fieldOutsideRecord)
    else .ok (some (buf.extract (t.position + offset) (t.position + offset + size))) := by
  have exact' : word (offset + size) = offset + size := Nat.mod_eq_of_lt small
  rw [struct?_found found, exact']
  by_cases refused : offset < offsetSize ∨ t.inlineSize < offset + size
  · rw [if_pos refused, if_pos refused]
  · have record := within.record
    rw [if_neg refused, if_neg refused, slice_ok (Nat.le_add_right _ _) (by omega)]
    rfl

/-- What a word keeps of a larger sum may pass, and then there are no such bytes. -/
theorem struct?_large (addressable : Addressable buf) (found : t.slotOffset buf slot = .ok (some offset))
    (large : wordLimit ≤ offset + size) : t.struct? buf slot size =
    if offset < offsetSize ∨ t.inlineSize < word (offset + size) then
      .error (.corrupt (t.fieldTable + Table.entryOffset slot) .fieldOutsideRecord)
    else .error (.outside (t.position + offset) (t.position + offset + size) buf.size) := by
  rw [struct?_found found, slice_astray addressable (by omega)]
  rfl

/-- The bytes of a field are given if and only if they lie in its record, whatever size is asked for. -/
theorem struct?_eq_ok_iff (addressable : Addressable buf) (within : t.Within buf) :
    t.struct? buf slot size = .ok (some bytes) ↔
      ∃ offset, t.slotOffset buf slot = .ok (some offset) ∧ offsetSize ≤ offset ∧
        CutOut buf (t.position + offset) size (t.position + t.inlineSize) bytes := by
  have record := within.record
  constructor
  · intro given
    obtain ⟨place, found⟩ := slotOffset_ok within slot
    cases place with
    | none =>
      rw [struct?_absent found] at given
      cases given
    | some offset =>
      rcases Nat.lt_or_ge (offset + size) wordLimit with small | large
      · rw [struct?_small within found small] at given
        split at given
        next => cases given
        next passes =>
          obtain ⟨behind, inside⟩ := not_or.1 passes
          cases given
          exact ⟨offset, found, Nat.not_lt.1 behind, rfl, size_slice (by omega), by omega⟩
      · rw [struct?_large addressable found large] at given
        split at given <;> cases given
  · rintro ⟨offset, found, behind, rfl, -, inside⟩
    have small : offset + size < wordLimit := by
      have narrow := within.small
      simp only [wordLimit]
      omega
    rw [struct?_small within found small, if_neg (by omega)]

/-- Bytes that are not there are asked for if and only if the sum wraps around to a place inside the record. -/
theorem struct?_astray_iff (addressable : Addressable buf) (within : t.Within buf) :
    (∃ e, t.struct? buf slot size = .error e ∧ ¬e.Untrusted) ↔ t.Wraps buf slot size := by
  constructor
  · rintro ⟨e, failed, astray⟩
    obtain ⟨place, found⟩ := slotOffset_ok within slot
    cases place with
    | none =>
      rw [struct?_absent found] at failed
      cases failed
    | some offset =>
      rcases Nat.lt_or_ge (offset + size) wordLimit with small | large
      · rw [struct?_small within found small] at failed
        split at failed
        next =>
          cases failed
          exact absurd trivial astray
        next => cases failed
      · rw [struct?_large addressable found large] at failed
        split at failed
        next =>
          cases failed
          exact absurd trivial astray
        next passes =>
          obtain ⟨behind, inside⟩ := not_or.1 passes
          exact ⟨offset, found, Nat.not_lt.1 behind, large, Nat.not_lt.1 inside⟩
  · rintro ⟨offset, found, behind, large, inside⟩
    rw [struct?_large addressable found large, if_neg (by omega)]
    exact ⟨_, rfl, id⟩

theorem struct?_sane (addressable : Addressable buf) (within : t.Within buf) (small : slot < 2 ^ 16)
    (fits : t.Fits buf slot size) :
    Sane (Machine.struct? buf t slot size) (t.struct? buf slot size) fun _ => True := by
  apply sane_bind (fieldPosition_sane addressable within small fits)
  intro place found
  exact (sane_option fun pos here => bytesAt_sane addressable (found pos here).2).mono fun _ _ => trivial

end Fields

section Vectors

variable {stride : Nat} {v : StructVector}

/-- A vector of structs is found if and only if all its elements lie in the buffer, at the stride that was given. -/
theorem structVector?_eq_ok_iff : t.structVector? buf slot stride = .ok (some v) ↔
    ∃ place, t.target buf slot = .ok (some place) ∧ nat buf place offsetSize = .ok v.length ∧
      v.start = place + offsetSize ∧ v.stride = stride ∧ v.start + v.length * stride ≤ buf.size := by
  rw [Table.structVector?]
  constructor
  · intro found
    obtain ⟨place, target, found⟩ := bind_eq_ok.1 found
    cases place with
    | none => cases found
    | some place =>
      rw [Option.mapM_some] at found
      obtain ⟨w, read, same⟩ := map_eq_ok found
      cases same
      obtain ⟨header, counted, same⟩ := bind_eq_ok.1 read
      cases same
      rw [vectorHeader_eq] at counted
      obtain ⟨length, stored, checked⟩ := bind_eq_ok.1 counted
      obtain ⟨inside, same⟩ := check_eq_ok.1 checked
      cases same
      exact ⟨place, target, stored, rfl, rfl, Nat.not_lt.1 inside⟩
  · obtain ⟨start, length, size⟩ := v
    rintro ⟨place, target, stored, rfl, rfl, inside⟩
    simp only [target, ok_bind, Option.mapM_some, StructVector.read, vectorHeader_eq, stored,
      if_neg (Nat.not_lt.2 inside)]
    rfl

theorem structVector?_sane (addressable : Addressable buf) (within : t.Within buf) (small : slot < 2 ^ 16)
    (stride : Nat) :
    Sane (Machine.structVector? buf t slot stride) (t.structVector? buf slot stride) fun _ => True := by
  apply sane_bind (target_sane addressable within small)
  intro place _
  have each (p : Nat) : Sane (do
      let header ← Machine.vectorHeader buf p stride
      return ⟨header.1, header.2, stride⟩) (StructVector.read buf stride p) fun _ => True :=
    sane_bind (vectorHeader_sane addressable p stride) fun _ _ => sane_return trivial
  exact (sane_option fun p _ => each p).mono fun _ _ => trivial

theorem structAt_le {index : Nat} (inside : v.start + v.length * v.stride ≤ buf.size) (below : index < v.length) :
    v.start + index * v.stride + v.stride ≤ buf.size := by
  have step : (index + 1) * v.stride ≤ v.length * v.stride := Nat.mul_le_mul_right _ below
  rw [Nat.add_mul] at step
  omega

theorem structAt_contained (addressable : Addressable buf) (inside : v.start + v.length * v.stride ≤ buf.size)
    (index : Nat) : Contained (Machine.structAt buf v index) (v.get buf index) := by
  rw [Machine.structAt, StructVector.get]
  by_cases past : v.length ≤ index
  · rw [if_pos past, if_pos past]
    exact contained_error (by simp)
  · have room := structAt_le inside (Nat.not_le.1 past)
    have limit : largestWord = 2 ^ 64 - 1 := rfl
    have large : buf.size < 2 ^ 63 := addressable
    rw [if_neg past, if_neg past]
    have taken : Sane (Machine.bytesAt buf (v.start + index * v.stride) v.stride)
        (slice buf (v.start + index * v.stride) (v.start + index * v.stride + v.stride)) fun _ => True :=
      (bytesAt_sane addressable room).mono fun _ _ => trivial
    exact (sane_mul (by omega) (sane_add (by omega) taken)).contained

theorem structAt_eq_ok_iff {index : Nat} (inside : v.start + v.length * v.stride ≤ buf.size) :
    v.get buf index = .ok bytes ↔
      index < v.length ∧ CutOut buf (v.start + index * v.stride) v.stride buf.size bytes := by
  rw [StructVector.get]
  by_cases past : v.length ≤ index
  · simp [past, Nat.not_lt.2 past]
  · have below := Nat.not_le.1 past
    have room := structAt_le inside below
    rw [if_neg past, slice_ok (Nat.le_add_right _ _) room]
    constructor
    · intro same
      cases same
      exact ⟨below, rfl, size_slice room, room⟩
    · rintro ⟨-, rfl, -, -⟩
      rfl

end Vectors

theorem member_eq_ok_iff {struct : Bytes} {offset : Nat} {type : ScalarType} {v : Scalar} :
    member struct offset type = .ok v ↔
      ∃ bytes, CutOut struct offset type.size struct.size bytes ∧ v = Scalar.ofBytes type bytes.toList := by
  rw [member]
  by_cases inside : offset + type.size ≤ struct.size
  · rw [if_pos inside]
    constructor
    · intro same
      cases same
      exact ⟨_, ⟨rfl, size_slice inside, inside⟩, rfl⟩
    · rintro ⟨_, ⟨rfl, -, -⟩, rfl⟩
      rfl
  · rw [if_neg inside]
    constructor
    · intro same
      cases same
    · rintro ⟨_, cut, -⟩
      exact absurd cut.inside inside

theorem member_inside (struct : Bytes) (offset : Nat) (type : ScalarType) (start stop size : Nat) :
    member struct offset type ≠ .error (.outside start stop size) := by
  rw [member]
  split <;> simp

/-- Structs that are asked for at any size, stride, offset and index come out whole, from inside the record, the buffer
or the struct, or there is an error; no sum or product overflows. The one exception are sizes that do not make a word
with the field's place in the record: bytes outside the buffer are then asked for if and only if the sum wraps around to
a place inside the record. -/
theorem structs_contained (addressable : Addressable buf) (read : Table.read buf pos = .ok t)
    (small : slot < 2 ^ 16) :
    (∀ size,
      (∀ bytes, t.struct? buf slot size = .ok (some bytes) ↔
        ∃ offset, t.slotOffset buf slot = .ok (some offset) ∧ offsetSize ≤ offset ∧
          CutOut buf (t.position + offset) size (t.position + t.inlineSize) bytes) ∧
      (t.Fits buf slot size → Guarded (Machine.struct? buf t slot size) (t.struct? buf slot size)) ∧
      ((∃ e, t.struct? buf slot size = .error e ∧ ¬e.Untrusted) ↔ t.Wraps buf slot size)) ∧
    (∀ stride,
      Guarded (Machine.structVector? buf t slot stride) (t.structVector? buf slot stride) ∧
      (∀ v, t.structVector? buf slot stride = .ok (some v) ↔
        ∃ place, t.target buf slot = .ok (some place) ∧ nat buf place offsetSize = .ok v.length ∧
          v.start = place + offsetSize ∧ v.stride = stride ∧ v.start + v.length * stride ≤ buf.size) ∧
      ∀ v, t.structVector? buf slot stride = .ok (some v) → ∀ index,
        Contained (Machine.structAt buf v index) (v.get buf index) ∧
        ∀ bytes, v.get buf index = .ok bytes ↔
          index < v.length ∧ CutOut buf (v.start + index * stride) stride buf.size bytes) ∧
    ∀ struct offset type,
      (∀ start stop size, member struct offset type ≠ .error (.outside start stop size)) ∧
      ∀ v, member struct offset type = .ok v ↔
        ∃ bytes, CutOut struct offset type.size struct.size bytes ∧ v = Scalar.ofBytes type bytes.toList := by
  have within := ((Table.read_reads buf pos).of_ok read).2
  refine ⟨fun size => ⟨fun bytes => ?_, fun fits => ?_, ?_⟩, fun stride => ⟨?_, fun v => ?_, fun v found index => ?_⟩,
    fun struct offset type => ⟨?_, fun v => ?_⟩⟩
  · exact struct?_eq_ok_iff addressable within
  · exact (struct?_sane addressable within small fits).guarded
  · exact struct?_astray_iff addressable within
  · exact (structVector?_sane addressable within small stride).guarded
  · exact structVector?_eq_ok_iff
  · obtain ⟨_, _, _, _, rfl, inside⟩ := structVector?_eq_ok_iff.1 found
    exact ⟨structAt_contained addressable inside index, fun bytes => structAt_eq_ok_iff inside⟩
  · exact member_inside struct offset type
  · exact member_eq_ok_iff

/-- A record with four bytes at its first slot. -/
def wordRecord : Bytes := #[12, 0, 0, 0, 6, 0, 8, 0, 4, 0, 0, 0, 8, 0, 0, 0, 1, 2, 3, 4]

/-- All four bytes lie in the record, and a fifth one does not. -/
theorem wordRecord_contained :
    let t : Table := ⟨12, 4, 6, 8⟩
    Addressable wordRecord ∧ Table.read wordRecord 12 = .ok t ∧
    t.struct? wordRecord 0 4 = .ok (some #[1, 2, 3, 4]) ∧ CutOut wordRecord 16 4 20 #[1, 2, 3, 4] ∧
    t.Fits wordRecord 0 5 ∧ Guarded (Machine.struct? wordRecord t 0 5) (t.struct? wordRecord 0 5) := by
  intro t
  have addressable : Addressable wordRecord := by unfold Addressable; decide
  have read : Table.read wordRecord 12 = .ok t := by decide +kernel
  have given : t.struct? wordRecord 0 4 = .ok (some #[1, 2, 3, 4]) := by decide +kernel
  have four : t.slotOffset wordRecord 0 = .ok (some 4) := by decide +kernel
  have fits : t.Fits wordRecord 0 5 := by
    intro offset found
    cases four.symm.trans found
    decide
  have contained := structs_contained addressable read (by decide : 0 < 2 ^ 16)
  obtain ⟨offset, found, -, cut⟩ := ((contained.1 4).1 _).1 given
  cases four.symm.trans found
  exact ⟨addressable, read, given, cut, fits, (contained.1 5).2.1 fits⟩

/-- With a size of four less than a word can count, the sum with the field's place is no word, what a word keeps of
it is zero, and the size passes. The bytes would begin at the field and go far past the end of the buffer. -/
theorem wordRecord_astray :
    Table.read wordRecord 12 = .ok ⟨12, 4, 6, 8⟩ ∧ 2 ^ 64 - 4 < wordLimit ∧
    Table.struct? wordRecord ⟨12, 4, 6, 8⟩ 0 (2 ^ 64 - 4) = .error (.outside 16 (2 ^ 64 + 12) 20) := by
  decide +kernel

end FlatRecord
