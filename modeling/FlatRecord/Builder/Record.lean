import FlatRecord.Builder.Basic

/-! Records. A record is an offset to its field table, then its fields as they were added; the table gives
for every slot where in the record the field stands, or zero. -/
namespace FlatRecord.Builder

def startRecord : Build Unit := do
  ensureIdle
  setStage (.record (← get).used [])

/-- The open record's beginning, if the slot can be added to it. -/
def checkSlot (slot : Nat) : Build Nat := do
  match (← get).stage with
  | .record start fields =>
    if slotLimit ≤ slot then throw (.sizeLimit slot (slotLimit - 1))
    if fields.any (·.slot == slot) then throw (.duplicateField slot)
    return start
  | _ => throw (.order .noRecordForField)

def Stage.addField (field : Field) : Stage → Stage
  | .record start fields => .record start ((field :: fields))
  | stage => stage

/-- Notes that the bytes just written are the field of the slot. -/
def noteField (slot : Nat) : Build Unit :=
  modify fun b => { b with stage := b.stage.addField ⟨slot, b.used⟩ }

/-- A scalar that is left out when it equals its default, in which case nothing is noted. -/
def addField (slot : Nat) (value default : Scalar) : Build Unit := do
  ensureWritable
  let _ ← checkSlot slot
  if value.sameNumber default ∧ !(← get).config.forceDefaults then return
  pushScalar value
  noteField slot

def addRequiredField (slot : Nat) (value : Scalar) : Build Unit := do
  ensureWritable
  let _ ← checkSlot slot
  pushScalar value
  noteField slot

/-- The bytes of a struct, at an alignment that the caller vouches for. -/
def addStructField (slot : Nat) (bytes : List UInt8) (alignment : Nat) : Build Unit := do
  ensureWritable
  let _ ← checkSlot slot
  align bytes.length alignment
  write bytes
  noteField slot

/-- An offset to an object that was written before the record began. -/
def addRefField {kind : ObjectKind} (slot : Nat) (child : Ref kind) : Build Unit := do
  ensureWritable
  let start ← checkSlot slot
  checkRef child.distance start
  pushOffset child.distance
  noteField slot

/-- The number of slots that a field table needs. -/
def slotCount (fields : List Field) : Nat := fields.foldl (fun count f => max count (f.slot + 1)) 0

/-- The field table of a record whose first byte is at `distance`. -/
def tableBytes (distance recordSize : Nat) (fields : List Field) : List UInt8 :=
  let slots := slotCount fields
  LittleEndian.encode entrySize (tableHeaderSize + slots * entrySize)
    ++ LittleEndian.encode entrySize recordSize
    ++ (List.range slots).flatMap fun slot =>
      LittleEndian.encode entrySize <|
        match fields.find? (·.slot == slot) with
        | some f => distance - f.distance
        | none => 0

/-- A table that is written with the same bytes. -/
def findTable (b : Builder) (table : List UInt8) : Option Nat :=
  b.tables.find? fun distance =>
    LittleEndian.decode (b.region.bytesAt distance entrySize) == table.length
      && b.region.bytesAt distance table.length == table

def writeTable (table : List UInt8) : Build Nat := do
  align table.length entrySize
  write table
  modify fun b => { b with tables := b.used :: b.tables }
  return (← get).used

/-- The table's distance, whether it is an older one or written now. -/
def placeTable (table : List UInt8) : Build Nat := do
  let b ← get
  match if b.config.shareTables then b.findTable table else none with
  | some distance => return distance
  | none => writeTable table

def endRecord : Build (Ref .record) := do
  ensureWritable
  match (← get).stage with
  | .record start fields =>
    let used := (← get).used
    let size := used + padding (used + offsetSize) offsetSize + offsetSize - start
    if largestRecord < size then throw (.sizeLimit size largestRecord)
    pushScalar (.int32 0)
    let distance := (← get).used
    let table ← placeTable (tableBytes distance size fields)
    overwrite distance (Scalar.int32 (Int32.ofInt ((table : Int) - distance))).toBytes
    setStage .idle
    return ⟨distance⟩
  | _ => throw (.order .noRecordToEnd)

end FlatRecord.Builder
