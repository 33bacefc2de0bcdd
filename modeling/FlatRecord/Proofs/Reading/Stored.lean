import FlatRecord.Proofs.Builder.Stored
import FlatRecord.Proofs.Reading.Checks

/-! Stored objects are read back. An object at distance `d` from the end is met at position `size - d`. -/
namespace FlatRecord

open Reading Builder

variable {buf : Bytes} {d : Nat}

theorem extract_of_holds {bytes : List UInt8} (holds : Holds buf.toList d bytes) :
    (buf.extract (buf.size - d) (buf.size - d + bytes.length)).toList = bytes := by
  obtain ⟨front, rest, split, distance⟩ := holds
  have size : buf.size = front.length + d := by
    rw [← Array.length_toList, split, List.length_append, distance]
  rw [Array.toList_extract, List.extract_eq_take_drop, split,
    show buf.size - d = front.length by omega, List.drop_left, Nat.add_sub_cancel_left,
    List.take_left]

theorem nat_of_holds {width n : Nat} (holds : Holds buf.toList d (LittleEndian.encode width n))
    (fits : n < 256 ^ width) : nat buf (buf.size - d) width = .ok n := by
  have inside := holds.le_length
  have room := holds.length_le
  have front := extract_of_holds holds
  rw [Array.length_toList] at inside
  rw [LittleEndian.length_encode] at room front
  rw [nat, if_pos (by omega), front, LittleEndian.decode_encode, Nat.mod_eq_of_lt fits]

theorem slice_of_holds {bytes : List UInt8} (holds : Holds buf.toList d bytes) :
    slice buf (buf.size - d) (buf.size - d + bytes.length) = .ok bytes.toArray := by
  have inside := holds.le_length
  have room := holds.length_le
  rw [Array.length_toList] at inside
  rw [slice, if_pos (by omega)]
  exact congrArg _ (Array.toList_inj.1 (extract_of_holds holds))

theorem follow_stored {kind : ObjectKind} {target : Nat}
    (stored : PieceStored buf.toList d (.ref kind target)) :
    follow buf (buf.size - d) = .ok (buf.size - target) := by
  obtain ⟨holds, positive, forward, near⟩ := stored
  have inside := holds.le_length
  rw [Array.length_toList] at inside
  rw [follow, nat_of_holds holds near]
  simp only [ok_bind, throw_eq_error, error_bind, pure_eq_ok]
  rw [if_neg (by omega), if_neg (by omega)]
  congr 1
  omega

theorem text_stored_reads {bytes : List UInt8} (stored : TextStored buf.toList d bytes) :
    text buf (buf.size - d) = .ok bytes.toArray := by
  obtain ⟨short, holds⟩ := stored
  have inside := holds.le_length
  have room := holds.length_le
  have body := holds.right.left
  have terminator := holds.right.right
  simp only [textBytes, List.length_append, LittleEndian.length_encode, List.length_singleton]
    at room body terminator
  rw [Array.length_toList] at inside
  have start : buf.size - (d - offsetSize) = buf.size - d + offsetSize := by omega
  have stop : buf.size - (d - offsetSize - bytes.length) = buf.size - d + offsetSize + bytes.length := by
    omega
  have slice := slice_of_holds body
  have zero : buf[buf.size - d + offsetSize + bytes.length]? = some 0 := by
    obtain ⟨front, rest, split, distance⟩ := terminator
    have size : buf.size = front.length + (d - offsetSize - bytes.length) := by
      rw [← Array.length_toList, split, List.length_append, distance]
    rw [← stop, ← Array.getElem?_toList, split, size, Nat.add_sub_cancel]
    simp
  rw [start] at slice
  rw [text, nat_of_holds holds.left short]
  simp only [ok_bind, zero, slice]
  rfl

theorem vectorHeader_stored {size : Nat} {elements : List Piece}
    (stored : VectorStored buf.toList d size elements) :
    vectorHeader buf (buf.size - d) size = .ok (buf.size - d + offsetSize, elements.length) := by
  have inside := stored.count.le_length
  have room := stored.room
  rw [Array.length_toList] at inside
  rw [vectorHeader, nat_of_holds stored.count stored.short]
  simp only [ok_bind, throw_eq_error, error_bind, pure_eq_ok]
  rw [if_neg (by omega)]

/-- Where the elements stand, from the front. -/
theorem element_position {size i : Nat} {elements : List Piece} {p : Piece}
    (stored : VectorStored buf.toList d size elements) (found : elements[i]? = some p) :
    buf.size - d + offsetSize + i * size = buf.size - (d - offsetSize - i * size) := by
  have inside := stored.count.le_length
  have room := stored.room
  have index : i < elements.length := (List.getElem?_eq_some_iff.1 found).1
  have step : i * size ≤ elements.length * size := Nat.mul_le_mul_right _ (Nat.le_of_lt index)
  rw [Array.length_toList] at inside
  omega

theorem soffset_bits {v : Int} (low : -2 ^ 31 ≤ v) (high : v < 2 ^ 31) :
    (Int32.ofNat (Scalar.int32 (Int32.ofInt v)).bits).toInt = v := by
  have same := Scalar.ofBits_bits (.int32 (Int32.ofInt v))
  have same : Int32.ofNat (Scalar.int32 (Int32.ofInt v)).bits = Int32.ofInt v := Scalar.int32.inj same
  rw [same, Int32.toInt_ofInt_of_le low high]

variable {s : List UInt8} {start table : Nat} {places : List Field} {fields : List (Nat × Piece)}

/-- The entry of a slot in a stored field table. -/
theorem entry_holds {t size slot : Nat} (holds : Holds s t (tableBytes d size places))
    (inside : slot < slotCount places) :
    Holds s (t - Table.entryOffset slot) (LittleEndian.encode entrySize (entryOf d places slot)) := by
  obtain ⟨more, count⟩ : ∃ more, slotCount places = slot + (1 + more) :=
    ⟨slotCount places - slot - 1, by omega⟩
  rw [tableBytes_eq, count, List.range_add, List.flatMap_append] at holds
  have entries := holds.right.right.right
  rw [LittleEndian.length_encode, LittleEndian.length_encode, length_entries, List.length_range,
    Nat.add_comm 1, List.range_succ_eq_map, List.map_cons, List.flatMap_cons] at entries
  have place : t - entrySize - entrySize - slot * entrySize = t - Table.entryOffset slot := by
    simp only [Table.entryOffset, tableHeaderSize]
    omega
  rw [place] at entries
  exact entries.left

theorem find_slot {places : List Field} (distinct : (places.map (·.slot)).Nodup) {f : Field}
    (mem : f ∈ places) : places.find? (·.slot == f.slot) = some f := by
  induction places with
  | nil => cases mem
  | cons g rest ih =>
    obtain ⟨fresh, distinct⟩ := List.nodup_cons.1 distinct
    rcases List.mem_cons.1 mem with rfl | mem
    · simp
    · have other : g.slot ≠ f.slot := fun same =>
        fresh (List.mem_map.2 ⟨f, mem, same.symm⟩)
      rw [List.find?_cons_of_neg (by simpa using other), ih distinct mem]

/-- The record at distance `d` as a reader meets it. -/
def Table.ofRecord (size d start table : Nat) (places : List Field) : Table where
  position := size - d
  fieldTable := size - table
  fieldTableLength := tableHeaderSize + Builder.slotCount places * entrySize
  inlineSize := d - start

namespace HeadAt

variable (head : HeadAt buf.toList d start table places)

include head

theorem inside : d ≤ buf.size := by
  have inside := head.offset.le_length
  rwa [Array.length_toList] at inside

theorem table_inside : table ≤ buf.size := by
  have inside := head.table.le_length
  rwa [Array.length_toList] at inside

theorem table_room : tableHeaderSize + slotCount places * entrySize ≤ table := by
  have room := head.table.length_le
  rwa [length_tableBytes] at room

theorem reads : Table.read buf (buf.size - d) =
    .ok (Table.ofRecord buf.size d start table places) := by
  have near := head.near
  have tableNear := head.tableNear
  have large := head.large
  have inside := head.inside
  have tableInside := head.table_inside
  have tableRoom := head.table_room
  have count := slotCount_le head.slots
  have small := head.small
  have offset : nat buf (buf.size - d) offsetSize =
      .ok (Scalar.int32 (Int32.ofInt ((table : Int) - d))).bits :=
    nat_of_holds head.offset (Scalar.bits_lt _)
  have parts := head.table
  rw [tableBytes_eq] at parts
  simp only [largestBuffer, largestRecord, slotLimit, tableHeaderSize, entrySize, offsetSize]
    at near tableNear large small count tableRoom
  have first := nat_of_holds parts.left (by simp only [entrySize, tableHeaderSize]; omega)
  have second := nat_of_holds parts.right.left (by simp only [entrySize]; omega)
  have next : buf.size - (table - entrySize) = buf.size - table + entrySize := by
    simp only [entrySize]
    omega
  have place : ((buf.size - d : Nat) : Int) -
      (Int32.ofNat (Scalar.int32 (Int32.ofInt ((table : Int) - d))).bits).toInt =
      (buf.size - table : Nat) := by
    rw [soffset_bits (by omega) (by omega)]
    omega
  rw [LittleEndian.length_encode, next] at second
  rw [Table.read_eq, offset, ok_bind]
  dsimp only
  rw [place, if_neg (by omega), Int.toNat_natCast, first, ok_bind, second, ok_bind,
    if_neg (by simp only [tableHeaderSize, entrySize]; omega),
    if_neg (by simp only [tableHeaderSize, entrySize]; omega),
    if_neg (by simp only [offsetSize]; omega), Table.ofRecord]

end HeadAt

namespace RecordAt

variable (record : RecordAt buf.toList d start table places fields)

include record

theorem entry_lt (slot : Nat) : entryOf d places slot < 2 ^ 16 := by
  have small := record.small
  simp only [entryOf]
  split
  next f found =>
    obtain ⟨field, _, stored⟩ := related_left record.fields (List.mem_of_find?_eq_some found)
    have inside := stored.inside
    simp only [largestRecord] at small
    omega
  next => decide

theorem reads : Table.read buf (buf.size - d) =
    .ok (Table.ofRecord buf.size d start table places) := record.head.reads

theorem slotOffset (slot : Nat) :
    Table.slotOffset buf (Table.ofRecord buf.size d start table places) slot =
      .ok (if entryOf d places slot = 0 then none else some (entryOf d places slot)) := by
  have tableInside := record.head.table_inside
  have tableRoom := record.head.table_room
  have first : (Table.ofRecord buf.size d start table places).fieldTable = buf.size - table := rfl
  have length : (Table.ofRecord buf.size d start table places).fieldTableLength =
    tableHeaderSize + slotCount places * entrySize := rfl
  rw [Table.slotOffset_eq, first, length]
  by_cases inside : slot < slotCount places
  · have entry := slice_of_holds (entry_holds record.table inside)
    have step : (slot + 1) * entrySize ≤ slotCount places * entrySize := Nat.mul_le_mul_right _ inside
    have place : buf.size - (table - Table.entryOffset slot) =
        buf.size - table + Table.entryOffset slot := by
      simp only [Table.entryOffset, entrySize] at *
      omega
    rw [LittleEndian.length_encode, place] at entry
    rw [if_neg (by simp only [Table.entryOffset, entrySize] at *; omega), entry, ok_bind,
      LittleEndian.decode_encode,
      Nat.mod_eq_of_lt (show _ < 256 ^ entrySize from record.entry_lt slot)]
  · have none : entryOf d places slot = 0 := by
      have missing : places.find? (·.slot == slot) = none := by
        rw [List.find?_eq_none]
        intro f mem same
        have below := slot_lt_slotCount mem
        rw [beq_iff_eq] at same
        omega
      rw [entryOf, missing]
    rw [if_pos (by simp only [Table.entryOffset, entrySize]; omega), if_pos none]

theorem missing {slot : Nat} (absent : slot ∉ fields.map (·.1)) :
    Table.slotOffset buf (Table.ofRecord buf.size d start table places) slot = .ok none := by
  rw [record.slotOffset]
  have none : places.find? (·.slot == slot) = none := by
    rw [List.find?_eq_none]
    intro f mem same
    obtain ⟨field, inside, stored⟩ := related_left record.fields mem
    rw [beq_iff_eq, stored.slot] at same
    exact absent (same ▸ List.mem_map_of_mem inside)
  rw [if_pos (by rw [entryOf, none])]

/-- A field is found at the place that was noted for it. -/
theorem found {slot : Nat} {p : Piece} (mem : (slot, p) ∈ fields) :
    ∃ place ∈ places, place.slot = slot ∧ place.distance ≤ buf.size ∧
      PieceStored buf.toList place.distance p ∧
      Table.fieldPosition buf (Table.ofRecord buf.size d start table places) slot p.size =
        .ok (some (buf.size - place.distance)) := by
  obtain ⟨place, inside, stored⟩ := related_right record.fields mem
  have found := find_slot record.distinct inside
  have behind := record.behind place inside
  have small := record.small
  have room := stored.inside
  have whole := record.head.inside
  have same : place.slot = slot := stored.slot
  have entry : entryOf d places slot = d - place.distance := by rw [entryOf, ← same, found]
  simp only [offsetSize, largestRecord] at behind small
  refine ⟨place, inside, same, by omega, stored.stored, ?_⟩
  rw [Table.fieldPosition_eq, record.slotOffset, ok_bind, entry, if_neg (by omega)]
  have narrow : word (d - place.distance + p.size) = d - place.distance + p.size :=
    Nat.mod_eq_of_lt (by simp only [wordLimit]; dsimp only at room; omega)
  have length : (Table.ofRecord buf.size d start table places).inlineSize = d - start := rfl
  have position : (Table.ofRecord buf.size d start table places).position = buf.size - d := rfl
  dsimp only at room ⊢
  rw [if_neg (by rw [narrow, length, offsetSize]; omega), position]
  congr 2
  omega

end RecordAt

/-- The table finds exactly these fields. -/
structure Table.Finds (buf : Bytes) (t : Table) (fields : List (Nat × Piece)) : Prop where
  absent : ∀ slot, slot ∉ fields.map (·.1) → t.slotOffset buf slot = .ok none
  present : ∀ slot p, (slot, p) ∈ fields → ∃ e, e ≤ buf.size ∧ PieceStored buf.toList e p ∧
    t.fieldPosition buf slot p.size = .ok (some (buf.size - e))

theorem RecordAt.finds (record : RecordAt buf.toList d start table places fields) :
    (Table.ofRecord buf.size d start table places).Finds buf fields := by
  constructor
  · exact fun slot absent => record.missing absent
  · intro slot p mem
    obtain ⟨place, -, -, found⟩ := record.found mem
    exact ⟨place.distance, found⟩

/-- A stored record is read, and its fields are found where they stand. -/
theorem record_stored_reads (stored : RecordStored buf.toList d fields) :
    ∃ t, Table.read buf (buf.size - d) = .ok t ∧ t.position = buf.size - d ∧ t.Finds buf fields := by
  obtain ⟨start, table, places, record⟩ := stored
  exact ⟨_, record.reads, rfl, record.finds⟩

theorem scalar_stored_reads (v : Scalar) (stored : PieceStored buf.toList d (.own v.toBytes)) :
    scalar buf v.type (buf.size - d) = .ok v := by
  have bits := nat_of_holds stored.holds v.bits_lt
  rw [scalar, show v.type.size = v.size from rfl, bits, map_ok, Scalar.ofBits_bits]

namespace Table.Finds

variable {t : Table} (finds : t.Finds buf fields) {slot : Nat}

include finds

theorem fieldPosition_absent (missing : slot ∉ fields.map (·.1)) (size : Nat) :
    t.fieldPosition buf slot size = .ok none := by
  rw [Table.fieldPosition_eq, finds.absent slot missing, ok_bind]

theorem target_absent (missing : slot ∉ fields.map (·.1)) : t.target buf slot = .ok none := by
  rw [Table.target, finds.fieldPosition_absent missing]
  rfl

theorem target_ref {kind : ObjectKind} {target : Nat} (mem : (slot, .ref kind target) ∈ fields) :
    t.target buf slot = .ok (some (buf.size - target)) := by
  obtain ⟨e, _, stored, found⟩ := finds.present slot _ mem
  rw [Table.target, show offsetSize = (Piece.ref kind target).size from rfl, found, ok_bind,
    Option.mapM_some, follow_stored stored]
  rfl

theorem scalar_own {v : Scalar} (mem : (slot, .own v.toBytes) ∈ fields) :
    t.scalar? buf slot v.type = .ok (some v) := by
  obtain ⟨e, _, stored, found⟩ := finds.present slot _ mem
  have size : v.type.size = (Piece.own v.toBytes).size := v.length_toBytes.symm
  rw [Table.scalar?, size, found, ok_bind, Option.mapM_some, scalar_stored_reads v stored]
  rfl

theorem struct_own {bytes : List UInt8} (mem : (slot, .own bytes) ∈ fields) :
    t.struct? buf slot bytes.length = .ok (some bytes.toArray) := by
  obtain ⟨e, _, stored, found⟩ := finds.present slot _ mem
  rw [Table.struct?, show bytes.length = (Piece.own bytes).size from rfl, found, ok_bind,
    Option.mapM_some]
  have read := slice_of_holds stored.holds
  rw [Piece.length_bytesAt] at read
  rw [read]
  rfl

end Table.Finds

end FlatRecord
