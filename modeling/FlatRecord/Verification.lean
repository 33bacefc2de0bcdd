import FlatRecord.Reading.Buffer
import FlatRecord.Reading.Limits
import FlatRecord.Reading.Vector
import FlatRecord.Schema.Basic

/-! Verification: a walk over everything that is reachable from the root through the fields of a schema,
deprecated ones included. What passes can be read without a failure. -/
namespace FlatRecord.Verification

open Reading

def aligned (limits : Limits) (pos alignment : Nat) : Except Error Unit :=
  if limits.checkAlignment ∧ 1 < alignment ∧ pos % alignment ≠ 0 then
    .error (.corrupt pos .misaligned)
  else .ok ()

/-- Visits a record of the given type. -/
abbrev Visit := RecordType → Table → Counted Unit

/-- The place that an offset field leads to. -/
def offsetTarget (buf : Bytes) (limits : Limits) (t : Table) (slot : Nat) :
    Except Error (Option Nat) := do
  match ← t.fieldPosition buf slot offsetSize with
  | none => return none
  | some pos =>
    aligned limits pos offsetSize
    return some (← follow buf pos)

def visitText (buf : Bytes) (limits : Limits) (pos : Nat) : Except Error Unit := do
  aligned limits pos offsetSize
  let _ ← text buf pos

/-- The elements of a vector, by number. -/
def visitEach (length : Nat) (visit : Nat → Counted Unit) : Counted Unit :=
  (List.range length).forM visit

def visitVector (buf : Bytes) (schema : Schema) (limits : Limits) (visit : Visit) (pos : Nat)
    (element : ElementType) : Counted Unit := do
  aligned limits pos offsetSize
  match element with
  | .scalar type =>
    let (start, _) ← vectorHeader buf pos type.size
    aligned limits start type.size
  | .struct name =>
    let type ← schema.struct name
    let (start, _) ← vectorHeader buf pos type.size
    aligned limits start type.alignment
  | .text =>
    let (start, length) ← vectorHeader buf pos offsetSize
    visitEach length fun i => do
      visitText buf limits (← follow buf (start + i * offsetSize))
  | .record name =>
    let type ← schema.record name
    let (start, length) ← vectorHeader buf pos offsetSize
    visitEach length fun i => do
      visit type (← Table.read buf (← follow buf (start + i * offsetSize)))

def visitField (buf : Bytes) (schema : Schema) (limits : Limits) (visit : Visit) (t : Table)
    (f : RecordField) : Counted Unit := do
  match f.type with
  | .scalar _ | .enumeration _ =>
    let (type, _) ← schema.scalarOf f
    if let some pos ← t.fieldPosition buf f.slot type.size then aligned limits pos type.size
  | .struct name =>
    let type ← schema.struct name
    if let some pos ← t.fieldPosition buf f.slot type.size then
      aligned limits pos type.alignment
  | .text =>
    if let some pos ← offsetTarget buf limits t f.slot then visitText buf limits pos
  | .record name =>
    if let some pos ← offsetTarget buf limits t f.slot then
      let type ← schema.record name
      visit type (← Table.read buf pos)
  | .vector element =>
    if let some pos ← offsetTarget buf limits t f.slot then
      visitVector buf schema limits visit pos element

def visitRecord (buf : Bytes) (schema : Schema) (limits : Limits) (visit : Visit) : Visit :=
  fun type t => do
    Counted.charge limits (.corrupt t.position .tooManyRecords)
    aligned limits t.position offsetSize
    type.fields.forM (visitField buf schema limits visit t)

/-- Records nested less than `levels` deep. -/
def visitLevels (buf : Bytes) (schema : Schema) (limits : Limits) : (levels : Nat) → Visit
  | 0 => fun _ t => throw (.corrupt t.position .tooDeep)
  | levels + 1 => visitRecord buf schema limits (visitLevels buf schema limits levels)

/-- Walks the buffer as a record of type `root`. -/
def verify (b : Buffer) (schema : Schema) (root : RecordType) (limits : Limits) :
    Except Error Unit := do
  let t ← b.root
  (visitLevels b.bytes schema limits (limits.maxDepth + 1) root t).run' 0

end FlatRecord.Verification
