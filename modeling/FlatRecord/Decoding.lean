import FlatRecord.Reading.Field
import FlatRecord.Reading.Limits
import FlatRecord.Reading.Options
import FlatRecord.Text.Utf8
import FlatRecord.Value

/-! Records out of buffers. The depth is limited, and so is the number of records, texts and vectors, since a
small buffer can refer to one object many times. -/
namespace FlatRecord.Decoding

open Reading

/-- Text as far as it is UTF-8, and otherwise the bytes. -/
def ownedText (bytes : Bytes) : Value :=
  match Text.toText? bytes with
  | some s => .text s
  | none => .bytes bytes

def ownedStruct (s : StructType) (bytes : Bytes) : Except Error Record :=
  s.layout.foldlM (fun r m => do
    return Record.set r m.name (.scalar (← member bytes m.offset m.type))) []

/-- Decodes a record of the named type. -/
abbrev Child := String → Table → Counted Record

def charge (limits : Limits) (pos : Nat) : Counted Unit :=
  Counted.charge limits (.corrupt pos .tooManyObjects)

/-- A text is charged at the position of its owner, the record or vector that refers to it. -/
def decodeElement (limits : Limits) (child : Child) (owner : Nat) : ElementView → Counted Value
  | .scalar v => return .scalar v
  | .text bytes => do
    charge limits owner
    return ownedText bytes
  | .record type t => return .record (← child type t)
  | .struct type bytes => return .struct (← ownedStruct type bytes)

def decodeVector (buf : Bytes) (limits : Limits) (child : Child) (v : FieldVector) :
    Counted Value := do
  charge limits v.start
  let items ← (List.range v.length).mapM fun i => do
    decodeElement limits child v.start (← v.get buf i)
  return .vector items

/-- The value of a field, unless it is absent. -/
def decodeField (buf : Bytes) (limits : Limits) (child : Child) (owner : Nat) :
    FieldView → Counted (Option Value)
  | .absent => return none
  | .single e => some <$> decodeElement limits child owner e
  | .vector v => some <$> decodeVector buf limits child v

def decodeRecord (buf : Bytes) (schema : Schema) (limits : Limits) (child : Child) : Child :=
  fun typeName t => do
    charge limits t.position
    let type ← schema.record typeName
    type.liveFields.foldlM (fun r f => do
      match ← decodeField buf limits child t.position (← t.field buf schema f) with
      | some v => return Record.set r f.name v
      | none => return r) []

/-- Records nested less than `levels` deep. -/
def decodeLevels (buf : Bytes) (schema : Schema) (limits : Limits) : (levels : Nat) → Child
  | 0 => fun _ t => throw (.corrupt t.position .tooDeep)
  | levels + 1 => decodeRecord buf schema limits (decodeLevels buf schema limits levels)

/-- The record at `t`, apart from the buffer. Absent scalars take their defaults. -/
def toOwned (buf : Bytes) (schema : Schema) (typeName : String) (t : Table) (limits : Limits) :
    Except Error Record :=
  (decodeLevels buf schema limits (limits.maxDepth + 1) typeName t).run' 0

def decodeRoot (schema : Schema) (bytes : Bytes) (options : ReaderOptions) :
    Except Error Record := do
  let b ← Buffer.openWith bytes options schema
  let root ← schema.rootRecord
  toOwned b.bytes schema root.name (← b.root) options.limits

end FlatRecord.Decoding
