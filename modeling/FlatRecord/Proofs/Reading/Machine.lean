import FlatRecord.Decoding
import FlatRecord.Reading.Options

/-! The readers once more, with sums that must be words. Every sum and product that a reader makes without
asking whether it fits is made here by `add` and `mul`, which stop where a word would overflow. -/
namespace FlatRecord.Machine

open Reading

/-- A reader that may also stop at an overflow, which is `none`. -/
abbrev Checked := ExceptT Error Option

def overflow : Checked α := ExceptT.mk none

def add (a b : Nat) : Checked Nat := if a + b ≤ largestWord then pure (a + b) else overflow

def mul (a b : Nat) : Checked Nat := if a * b ≤ largestWord then pure (a * b) else overflow

/-- A reader that makes no sums, or asks first whether they fit. -/
def lift (x : Except Error α) : Checked α := ExceptT.mk (some x)

def text (buf : Bytes) (pos : Nat) : Checked Bytes := do
  let length ← lift (nat buf pos offsetSize)
  let start ← add pos offsetSize
  match buf[start + length]? with
  | none => throw (.corrupt pos .textTooLong)
  | some terminator =>
    if terminator ≠ 0 then throw (.corrupt (start + length) .unterminatedText)
    else lift (slice buf start (start + length))

def vectorHeader (buf : Bytes) (pos elementSize : Nat) : Checked (Nat × Nat) := do
  let length ← lift (nat buf pos offsetSize)
  let start ← add pos offsetSize
  if buf.size < start + length * elementSize then throw (.corrupt pos .vectorTooLong)
  else return (start, length)

def readTable (buf : Bytes) (pos : Nat) : Checked Table := do
  let distance ← lift (nat buf pos offsetSize)
  let place : Int := pos - (Int32.ofNat distance).toInt
  if place < 0 ∨ buf.size ≤ place.toNat then throw (.corrupt pos .tableOutside) else do
  let length ← lift (nat buf place.toNat entrySize)
  let inlineSize ← lift (nat buf (← add place.toNat entrySize) entrySize)
  let tableStop ← add place.toNat length
  let recordStop ← add pos inlineSize
  if length < tableHeaderSize ∨ length % entrySize ≠ 0 then
    throw (.corrupt place.toNat .badTableLength)
  else if buf.size < tableStop then throw (.corrupt place.toNat .tableTooLong)
  else if inlineSize < offsetSize ∨ buf.size < recordStop then throw (.corrupt pos .recordTooLong)
  else return ⟨pos, place.toNat, length, inlineSize⟩

def slotOffset (buf : Bytes) (t : Table) (slot : Nat) : Checked (Option Nat) := do
  let entry ← add tableHeaderSize (← mul slot entrySize)
  let stop ← add entry entrySize
  if t.fieldTableLength < stop then return none else do
  let start ← add t.fieldTable entry
  let bytes ← lift (slice buf start (← add start entrySize))
  return if LittleEndian.decode bytes.toList = 0 then none
    else some (LittleEndian.decode bytes.toList)

def fieldPosition (buf : Bytes) (t : Table) (slot size : Nat) : Checked (Option Nat) := do
  match ← slotOffset buf t slot with
  | none => return none
  | some offset =>
    let stop ← add offset size
    let entry ← add t.fieldTable (← add tableHeaderSize (← mul slot entrySize))
    if offset < offsetSize ∨ t.inlineSize < stop then throw (.corrupt entry .fieldOutsideRecord)
    else return some (← add t.position offset)

/-- The bytes of `size` at `pos`, whose bounds were checked before. -/
def bytesAt (buf : Bytes) (pos size : Nat) : Checked Bytes := do
  lift (slice buf pos (← add pos size))

def target (buf : Bytes) (t : Table) (slot : Nat) : Checked (Option Nat) := do
  (← fieldPosition buf t slot offsetSize).mapM fun pos => lift (follow buf pos)

def field (buf : Bytes) (t : Table) (schema : Schema) (f : RecordField) : Checked FieldView := do
  match f.type with
  | .scalar _ | .enumeration _ =>
    let (type, default) ← lift (schema.scalarOf f)
    match ← fieldPosition buf t f.slot type.size with
    | some pos => return .single (.scalar (Scalar.ofBytes type (← bytesAt buf pos type.size).toList))
    | none => return .single (.scalar default)
  | .struct name =>
    let type ← lift (schema.struct name)
    let bytes ← (← fieldPosition buf t f.slot type.size).mapM fun pos => bytesAt buf pos type.size
    return Table.ofOption (bytes.map (.struct type))
  | .text => return Table.ofOption ((← (← target buf t f.slot).mapM (text buf)).map .text)
  | .record name =>
    return Table.ofOption ((← (← target buf t f.slot).mapM (readTable buf)).map (.record name))
  | .vector element =>
    match ← target buf t f.slot with
    | none => return .absent
    | some pos =>
      let element ← lift (element.resolve schema)
      let (start, length) ← vectorHeader buf pos element.inlineSize
      return .vector { element, start, length }

def element (buf : Bytes) (pos : Nat) : ResolvedElement → Checked ElementView
  | .scalar type => do
    return .scalar (Scalar.ofBytes type (← bytesAt buf pos type.size).toList)
  | .text => do return .text (← text buf (← lift (follow buf pos)))
  | .record name => do return .record name (← readTable buf (← lift (follow buf pos)))
  | .struct type => do return .struct type (← bytesAt buf pos type.size)

def get (buf : Bytes) (v : FieldVector) (index : Nat) : Checked ElementView :=
  if v.length ≤ index then throw (.indexOutOfRange index v.length) else do
  element buf (← add v.start (← mul index v.element.inlineSize)) v.element

/-- A counting reader. -/
abbrev Counting := StateT Nat Checked

def charge (limits : Limits) (excess : Error) : Counting Unit := fun count => do
  let count' ← add count 1
  if limits.maxObjects < count' then throw excess else return ((), count')

def member (struct : Bytes) (offset : Nat) (type : ScalarType) : Checked Scalar := do
  let stop ← add offset type.size
  if stop ≤ struct.size then return Scalar.ofBytes type (struct.extract offset stop).toList
  else throw (.indexOutOfRange offset struct.size)

def ownedStruct (s : StructType) (bytes : Bytes) : Checked Record :=
  s.layout.foldlM (fun r m => do
    return Record.set r m.name (.scalar (← member bytes m.offset m.type))) []

/-- Decodes a record of the named type, nested `depth` deep. -/
abbrev Child := (depth : Nat) → String → Table → Counting Record

def decodeElement (limits : Limits) (child : Child) (depth owner : Nat) :
    ElementView → Counting Value
  | .scalar v => return .scalar v
  | .text bytes => do
    charge limits (.corrupt owner .tooManyObjects)
    return Decoding.ownedText bytes
  | .record type t => do return .record (← child (← add depth 1) type t)
  | .struct type bytes => do return .struct (← ownedStruct type bytes)

def decodeVector (buf : Bytes) (limits : Limits) (child : Child) (depth : Nat) (v : FieldVector) :
    Counting Value := do
  charge limits (.corrupt v.start .tooManyObjects)
  let items ← (List.range v.length).mapM fun i => do
    decodeElement limits child depth v.start (← get buf v i)
  return .vector items

def decodeField (buf : Bytes) (limits : Limits) (child : Child) (depth owner : Nat) :
    FieldView → Counting (Option Value)
  | .absent => return none
  | .single e => some <$> decodeElement limits child depth owner e
  | .vector v => some <$> decodeVector buf limits child depth v

def decodeRecord (buf : Bytes) (schema : Schema) (limits : Limits) (child : Child) : Child :=
  fun depth typeName t => do
    charge limits (.corrupt t.position .tooManyObjects)
    let type ← lift (schema.record typeName)
    type.liveFields.foldlM (fun r f => do
      match ← decodeField buf limits child depth t.position (← field buf t schema f) with
      | some v => return Record.set r f.name v
      | none => return r) []

def decodeLevels (buf : Bytes) (schema : Schema) (limits : Limits) : (levels : Nat) → Child
  | 0 => fun _ _ t => throw (.corrupt t.position .tooDeep)
  | levels + 1 => decodeRecord buf schema limits (decodeLevels buf schema limits levels)

def toOwned (buf : Bytes) (schema : Schema) (typeName : String) (t : Table) (limits : Limits) :
    Checked Record :=
  (decodeLevels buf schema limits (limits.maxDepth + 1) 0 typeName t).run' 0

/-- Visits a record of the given type, nested `depth` deep. -/
abbrev Visit := (depth : Nat) → RecordType → Table → Counting Unit

def offsetTarget (buf : Bytes) (limits : Limits) (t : Table) (slot : Nat) :
    Checked (Option Nat) := do
  match ← fieldPosition buf t slot offsetSize with
  | none => return none
  | some pos =>
    lift (Verification.aligned limits pos offsetSize)
    return some (← lift (follow buf pos))

def visitText (buf : Bytes) (limits : Limits) (pos : Nat) : Checked Unit := do
  lift (Verification.aligned limits pos offsetSize)
  let _ ← text buf pos

/-- The target of the offset in element `i`. -/
def elementTarget (buf : Bytes) (start i : Nat) : Checked Nat := do
  lift (follow buf (← add start (← mul i offsetSize)))

def visitVector (buf : Bytes) (schema : Schema) (limits : Limits) (visit : Visit) (depth pos : Nat)
    (element : ElementType) : Counting Unit := do
  lift (Verification.aligned limits pos offsetSize)
  match element with
  | .scalar type =>
    let (start, _) ← vectorHeader buf pos type.size
    lift (Verification.aligned limits start type.size)
  | .struct name =>
    let type ← lift (schema.struct name)
    let (start, _) ← vectorHeader buf pos type.size
    lift (Verification.aligned limits start type.alignment)
  | .text =>
    let (start, length) ← vectorHeader buf pos offsetSize
    (List.range length).forM fun i => do
      visitText buf limits (← elementTarget buf start i)
  | .record name =>
    let type ← lift (schema.record name)
    let (start, length) ← vectorHeader buf pos offsetSize
    (List.range length).forM fun i => do
      let child ← readTable buf (← elementTarget buf start i)
      visit (← add depth 1) type child

def visitField (buf : Bytes) (schema : Schema) (limits : Limits) (visit : Visit) (depth : Nat)
    (t : Table) (f : RecordField) : Counting Unit := do
  match f.type with
  | .scalar _ | .enumeration _ =>
    let (type, _) ← lift (schema.scalarOf f)
    if let some pos ← fieldPosition buf t f.slot type.size then
      lift (Verification.aligned limits pos type.size)
  | .struct name =>
    let type ← lift (schema.struct name)
    if let some pos ← fieldPosition buf t f.slot type.size then
      lift (Verification.aligned limits pos type.alignment)
  | .text =>
    if let some pos ← offsetTarget buf limits t f.slot then visitText buf limits pos
  | .record name =>
    if let some pos ← offsetTarget buf limits t f.slot then
      let type ← lift (schema.record name)
      let child ← readTable buf pos
      visit (← add depth 1) type child
  | .vector element =>
    if let some pos ← offsetTarget buf limits t f.slot then
      visitVector buf schema limits visit depth pos element

def visitRecord (buf : Bytes) (schema : Schema) (limits : Limits) (visit : Visit) : Visit :=
  fun depth type t => do
    charge limits (.corrupt t.position .tooManyRecords)
    lift (Verification.aligned limits t.position offsetSize)
    type.fields.forM (visitField buf schema limits visit depth t)

def visitLevels (buf : Bytes) (schema : Schema) (limits : Limits) : (levels : Nat) → Visit
  | 0 => fun _ _ t => throw (.corrupt t.position .tooDeep)
  | levels + 1 => visitRecord buf schema limits (visitLevels buf schema limits levels)

def root (b : Buffer) : Checked Table := do
  readTable b.bytes (← lift (follow b.bytes b.rootAt))

def verify (b : Buffer) (schema : Schema) (rootType : RecordType) (limits : Limits) :
    Checked Unit := do
  let t ← root b
  (visitLevels b.bytes schema limits (limits.maxDepth + 1) 0 rootType t).run' 0

def hasIdentifier (b : Buffer) (id : Identifier) : Checked Bool := do
  let start ← add b.rootAt offsetSize
  let stop ← add start identifierSize
  return stop ≤ b.bytes.size && b.bytes.extract start stop == id.toArray

/-- Stops at another identifier than the one that is asked for. -/
def checkIdentifier (b : Buffer) : Option Identifier → Checked Unit
  | none => return
  | some id => do
    let place ← add b.rootAt offsetSize
    if ← hasIdentifier b id then return else throw (.corrupt place .wrongIdentifier)

def check (b : Buffer) (options : ReaderOptions) (schema : Schema) : Checked Unit := do
  checkIdentifier b options.identifier
  if options.strict then verify b schema (← lift schema.rootRecord) options.limits

def openWith (bytes : Bytes) (options : ReaderOptions) (schema : Schema) : Checked Buffer := do
  let b ← lift (Buffer.ofBytes bytes)
  check b options schema
  return b

/-- The sum of the size and its own four bytes saturates, and so is not checked. -/
def ofSizePrefixed (bytes : Bytes) : Checked Buffer :=
  if bytes.size < 2 * offsetSize then throw (.truncated (2 * offsetSize) bytes.size) else do
  let length ← lift (nat bytes 0 offsetSize)
  if bytes.size < offsetSize + length then throw (.truncated (offsetSize + length) bytes.size)
  else if length < offsetSize then throw (.corrupt 0 .shortSizePrefix)
  else return ⟨← lift (slice bytes 0 (offsetSize + length)), offsetSize⟩

def openSizePrefixedWith (bytes : Bytes) (options : ReaderOptions) (schema : Schema) :
    Checked Buffer := do
  let b ← ofSizePrefixed bytes
  check b options schema
  return b

def decodeRoot (schema : Schema) (bytes : Bytes) (options : ReaderOptions) : Checked Record := do
  let b ← openWith bytes options schema
  let root' ← lift schema.rootRecord
  toOwned b.bytes schema root'.name (← root b) options.limits

end FlatRecord.Machine
