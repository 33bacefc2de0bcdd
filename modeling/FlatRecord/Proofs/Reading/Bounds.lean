import FlatRecord.Proofs.Codec.Structs
import FlatRecord.Proofs.Reading.Checks
import FlatRecord.Proofs.Schema
import FlatRecord.Proofs.Sizes

/-! What a reading step has established when it succeeds. When it fails, the bytes are to blame: no step looks
outside the buffer or asks the schema for what is not there. -/
namespace FlatRecord

open Reading

/-- The errors that untrusted bytes may lead to. -/
def Error.Untrusted : Error → Prop
  | .truncated .. | .corrupt .. => True
  | _ => False

/-- The reader gives something good, or blames the bytes. -/
def Reads (x : Except Error α) (good : α → Prop) : Prop :=
  match x with
  | .ok a => good a
  | .error e => e.Untrusted

variable {good : α → Prop} {x : Except Error α}

theorem reads_ok {a : α} (holds : good a) : Reads (.ok a) good := holds

theorem reads_bind {f : α → Except Error β} {good' : β → Prop} (first : Reads x good)
    (second : ∀ a, good a → Reads (f a) good') : Reads (x >>= f) good' := by
  cases x with
  | ok a => exact second a first
  | error e => exact first

theorem Reads.mono {good' : α → Prop} (reads : Reads x good) (weaker : ∀ a, good a → good' a) :
    Reads x good' := by
  cases x with
  | ok a => exact weaker a reads
  | error e => exact reads

theorem Reads.of_ok {a : α} (reads : Reads x good) (ok : x = .ok a) : good a := by
  subst ok
  exact reads

theorem Reads.found (reads : Reads x good) : Reads x fun a => x = .ok a ∧ good a := by
  cases x with
  | ok a => exact ⟨rfl, reads⟩
  | error e => exact reads

/-- A check, and what follows it when it passes. -/
theorem reads_check {c : Prop} [Decidable c] {pos : Nat} {defect : Defect}
    (rest : ¬c → Reads x good) : Reads (if c then .error (.corrupt pos defect) else x) good := by
  by_cases fails : c
  · rw [if_pos fails]
    trivial
  · rw [if_neg fails]
    exact rest fails

variable {buf : Bytes} {pos size : Nat}

theorem nat_reads (buf : Bytes) (pos width : Nat) :
    Reads (nat buf pos width) fun n => pos + width ≤ buf.size ∧ n < 256 ^ width := by
  simp only [nat]
  by_cases inside : pos + width ≤ buf.size
  · rw [if_pos inside]
    have length : (buf.extract pos (pos + width)).toList.length = width := by simp; omega
    have small := LittleEndian.decode_lt (buf.extract pos (pos + width)).toList
    rw [length] at small
    exact ⟨inside, small⟩
  · rw [if_neg inside]
    trivial

theorem slice_ok {start stop : Nat} (ordered : start ≤ stop) (inside : stop ≤ buf.size) :
    slice buf start stop = .ok (buf.extract start stop) := if_pos ⟨ordered, inside⟩

theorem size_slice (inside : pos + size ≤ buf.size) : (buf.extract pos (pos + size)).size = size := by
  simp
  omega

theorem size_of_slice {start stop : Nat} {bytes : Bytes} (sliced : slice buf start stop = .ok bytes) :
    bytes.size = stop - start := by
  simp only [slice] at sliced
  split at sliced
  next inside =>
    cases sliced
    rw [Array.size_extract, Nat.min_eq_left inside.2]
  next => cases sliced

theorem follow_reads (buf : Bytes) (pos : Nat) : Reads (follow buf pos) fun target =>
    pos + offsetSize ≤ buf.size ∧ pos < target ∧ target < buf.size := by
  rw [follow_eq]
  apply reads_bind (nat_reads buf pos offsetSize)
  intro distance room
  refine reads_check fun positive => reads_check fun inside => ?_
  exact reads_ok ⟨room.1, by omega, by omega⟩

theorem text_eq (buf : Bytes) (pos : Nat) : text buf pos = (do
    let length ← nat buf pos offsetSize
    match buf[pos + offsetSize + length]? with
    | none => .error (.corrupt pos .textTooLong)
    | some terminator =>
      if terminator ≠ 0 then .error (.corrupt (pos + offsetSize + length) .unterminatedText)
      else slice buf (pos + offsetSize) (pos + offsetSize + length)) := rfl

theorem vectorHeader_reads (buf : Bytes) (pos size : Nat) :
    Reads (vectorHeader buf pos size) fun header => header.1 = pos + offsetSize ∧
      header.1 + header.2 * size ≤ buf.size := by
  rw [vectorHeader_eq]
  apply reads_bind (nat_reads buf pos offsetSize)
  intro length _
  exact reads_check fun inside => reads_ok ⟨rfl, Nat.not_lt.1 inside⟩

/-- An element lies in the buffer with its vector. -/
theorem FieldVector.element_le {v : FieldVector} {index : Nat}
    (inside : v.start + v.length * v.element.inlineSize ≤ buf.size) (below : index < v.length) :
    v.start + index * v.element.inlineSize + v.element.inlineSize ≤ buf.size := by
  have step : (index + 1) * v.element.inlineSize ≤ v.length * v.element.inlineSize :=
    Nat.mul_le_mul_right _ below
  rw [Nat.add_mul] at step
  omega

namespace Table

/-- The bounds that reading the table has checked. -/
structure Within (buf : Bytes) (t : Table) : Prop where
  header : tableHeaderSize ≤ t.fieldTableLength
  table : t.fieldTable + t.fieldTableLength ≤ buf.size
  small : t.inlineSize < 2 ^ 16
  inline : offsetSize ≤ t.inlineSize
  record : t.position + t.inlineSize ≤ buf.size

theorem read_reads (buf : Bytes) (pos : Nat) : Reads (Table.read buf pos) fun t =>
    t.position = pos ∧ t.Within buf := by
  rw [read_eq]
  refine reads_bind (nat_reads buf pos offsetSize) fun distance _ => reads_check fun _ => ?_
  apply reads_bind (nat_reads buf _ entrySize)
  intro length _
  apply reads_bind (nat_reads buf _ entrySize)
  intro inlineSize small
  refine reads_check fun header => reads_check fun table => reads_check fun record => ?_
  obtain ⟨long, _⟩ := not_or.1 header
  obtain ⟨inline, room⟩ := not_or.1 record
  exact ⟨rfl, Nat.not_lt.1 long, Nat.not_lt.1 table, small.2, Nat.not_lt.1 inline, Nat.not_lt.1 room⟩

variable {t : Table}

theorem slotOffset_reads (within : t.Within buf) (slot : Nat) :
    Reads (t.slotOffset buf slot) fun offset => ∀ n, offset = some n → n < 2 ^ 16 := by
  rw [slotOffset_eq]
  by_cases past : t.fieldTableLength < entryOffset slot + entrySize
  · rw [if_pos past]
    exact fun _ same => nomatch same
  · have inside := within.table
    rw [if_neg past, slice_ok (Nat.le_add_right _ _) (by omega), ok_bind]
    have length : (buf.extract (t.fieldTable + entryOffset slot)
        (t.fieldTable + entryOffset slot + entrySize)).toList.length = 2 := by
      simp [entrySize] at *
      omega
    have small := LittleEndian.decode_lt (buf.extract (t.fieldTable + entryOffset slot)
        (t.fieldTable + entryOffset slot + entrySize)).toList
    rw [length] at small
    intro n same
    split at same
    · cases same
    · cases same
      exact small

/-- Where the field stands in its record and its size add up to a word. -/
def Fits (buf : Bytes) (t : Table) (slot size : Nat) : Prop :=
  ∀ offset, t.slotOffset buf slot = .ok (some offset) → offset + size < wordLimit

theorem Within.fits {slot : Nat} (within : t.Within buf) (narrow : size < 2 ^ 62) :
    t.Fits buf slot size := by
  intro offset found
  have small := (slotOffset_reads within slot).of_ok found offset rfl
  simp only [wordLimit]
  omega

/-- A field that is found lies behind its record's offset, and inside the record. -/
theorem fieldPosition_reads {slot : Nat} (within : t.Within buf) (fits : t.Fits buf slot size) :
    Reads (t.fieldPosition buf slot size) fun place => ∀ p, place = some p →
      t.position + offsetSize ≤ p ∧ p + size ≤ buf.size := by
  rw [fieldPosition_eq]
  apply reads_bind (slotOffset_reads within slot).found
  intro offset here
  cases offset with
  | none => exact reads_ok fun _ same => nomatch same
  | some offset =>
    refine reads_check fun placed => reads_ok fun p same => ?_
    obtain ⟨behind, inside⟩ := not_or.1 placed
    have exact' : word (offset + size) = offset + size := Nat.mod_eq_of_lt (fits offset here.1)
    rw [exact'] at inside
    have record := within.record
    cases same
    omega

variable {schema : Schema} {f : RecordField}

/-- The field of a scalar, which has its default where it is not there. -/
theorem field_scalar {type : ScalarType} {default : Scalar}
    (stored : schema.scalarOf f = .ok (type, default)) : t.field buf schema f = (do
      match ← t.fieldPosition buf f.slot type.size with
      | some pos =>
        return .single (.scalar (Scalar.ofBytes type (← slice buf pos (pos + type.size)).toList))
      | none => return .single (.scalar default)) := by
  have read := Table.field.eq_def buf t schema f
  rcases scalarOf_type stored with ⟨_, kind⟩ | ⟨_, kind⟩
  all_goals
    simp only [kind, stored, ok_bind] at read
    exact read

/-- The field of a vector whose element type is known. -/
theorem field_vector {type : ElementType} {element : ResolvedElement} (kind : f.type = .vector type)
    (known : type.resolve schema = .ok element) : t.field buf schema f = (do
      match ← t.target buf f.slot with
      | none => return .absent
      | some pos =>
        let header ← vectorHeader buf pos element.inlineSize
        return .vector ⟨element, header.1, header.2⟩) := by
  have read := Table.field.eq_def buf t schema f
  simp only [kind, known, ok_bind] at read
  exact read

end Table

theorem resolve_struct {schema : Schema} {element : ElementType} {s : StructType}
    (resolved : element.resolve schema = .ok (.struct s)) : ∃ name, schema.struct name = .ok s := by
  cases element with
  | scalar | text => cases resolved
  | record name =>
    obtain ⟨_, -, same⟩ := map_eq_ok resolved
    cases same
  | struct name =>
    obtain ⟨_, known, same⟩ := map_eq_ok resolved
    cases same
    exact ⟨name, known⟩

end FlatRecord
