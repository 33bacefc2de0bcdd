import FlatRecord.Builder.Finish
import FlatRecord.Builder.Record
import FlatRecord.Builder.Vector
import FlatRecord.Schema.Basic
import FlatRecord.Value

/-! Records into buffers. The objects that a record refers to are written before it, and then its fields,
the most aligned first. -/
namespace FlatRecord.Encoding

open Builder

/-- The value as a field of type `t` holds it. -/
def coerce (v : Scalar) (t : ScalarType) (field : String) : Except Error Scalar :=
  match v.convert? t with
  | some s => .ok s
  | none => .error (.schema (.scalarType field t v.type))

def wrongKind (field : String) (expected : Wanted) (value : Value) : Error :=
  .schema (.valueKind field expected value.kind)

def memberValue (s : StructType) (m : Member) (entries : Record) : Except Error Scalar :=
  match Record.get? entries m.name with
  | some (.scalar v) => coerce v m.type m.name
  | some other => .error (wrongKind m.name .scalar other)
  | none => .error (.schema (.missingMember s.name m.name))

/-- `bytes` with a member's written over those from `start` on, for layouts in which there is room. -/
def overwrite (bytes : List UInt8) (start : Nat) (member : List UInt8) : Except Error (List UInt8) :=
  if start + member.length ≤ bytes.length then
    .ok (bytes.take start ++ member ++ bytes.drop (start + member.length))
  else .error (.outside start (start + member.length) bytes.length)

/-- The members' values written over `bytes`, each in its own place. -/
def writeMembers (s : StructType) (entries : Record) :
    List Member → (bytes : List UInt8) → Except Error (List UInt8)
  | [], bytes => .ok bytes
  | m :: rest, bytes => do
    let v ← memberValue s m entries
    writeMembers s entries rest (← overwrite bytes m.offset v.toBytes)

/-- The bytes of a struct, zeros between the members. A record may stand for it; every member must be there, and
nothing else. -/
def structBytes (s : StructType) (value : Value) (field : String) :
    Except Error (List UInt8) := do
  match value with
  | .struct entries | .record entries =>
    if let some (name, _) := entries.find? fun entry => (s.member? entry.1).isNone then
      throw (.schema (.unknownMember s.name name))
    writeMembers s entries s.layout (List.replicate s.size 0)
  | other => throw (wrongKind field .struct other)

def encodeText (value : Value) (field : String) : Build (Ref .text) :=
  match value with
  | .text s => createText s
  | .bytes b => createBytes b
  | other => throw (wrongKind field .text other)

/-- A field whose objects are written, and which waits for its record to begin. -/
inductive Pending where
  | scalar (slot : Nat) (value default : Scalar)
  | struct (slot : Nat) (bytes : List UInt8) (alignment : Nat)
  | ref (slot : Nat) (kind : ObjectKind) (child : Ref kind)

def Pending.alignment : Pending → Nat
  | scalar _ value _ => value.size
  | struct _ _ alignment => alignment
  | ref .. => offsetSize

def Pending.write : Pending → Build Unit
  | scalar slot value default =>
    if value.type = default.type then addField slot value default
    else throw (.schema (.defaultDiffers value.type default.type))
  | struct slot bytes alignment => addStructField slot bytes alignment
  | ref slot _ child => addRefField slot child

/-- Writes a child record of the named type. -/
abbrev Child := String → Record → Build (Ref .record)

def encodeVector (schema : Schema) (child : Child) (element : ElementType) (value : Value)
    (field : String) : Build (Ref .vector) := do
  match value with
  | .vector items =>
    match element with
    | .scalar t =>
      startVector items.length t.size t.size
      items.forM fun
        | .scalar v => do pushElement (← ofExcept (coerce v t field))
        | other => throw (wrongKind field .scalarElement other)
      endVector
    | .struct name =>
      let s ← ofExcept (schema.struct name)
      let elements ← ofExcept (items.mapM (structBytes s · field))
      startVector elements.length s.size s.alignment
      elements.forM pushBytesElement
      endVector
    | .text => createRefVector (← items.mapM (encodeText · field))
    | .record name =>
      let refs ← items.mapM fun
        | .record r => child name r
        | other => throw (wrongKind field .recordElement other)
      createRefVector refs
  | other => throw (wrongKind field .vector other)

/-- The scalar of a scalar or enumeration field. An enumeration also takes the name of a variant. -/
def fieldScalar (schema : Schema) (f : RecordField) (t : ScalarType) (value : Value) :
    Except Error Scalar := do
  match value, f.type with
  | .scalar v, _ => coerce v t f.name
  | .text variant, .enumeration name =>
    Schema.scalarOfInt t (← Schema.variant (← schema.enumeration name) variant)
  | other, _ => throw (wrongKind f.name .scalar other)

/-- Writes what the field refers to, and leaves the field itself for later. -/
def encodeField (schema : Schema) (child : Child) (f : RecordField) (value : Value) :
    Build Pending := do
  match f.type with
  | .scalar _ | .enumeration _ =>
    let (t, default) ← ofExcept (schema.scalarOf f)
    return .scalar f.slot (← ofExcept (fieldScalar schema f t value)) default
  | .struct name =>
    let s ← ofExcept (schema.struct name)
    return .struct f.slot (← ofExcept (structBytes s value f.name)) s.alignment
  | .text => return .ref f.slot _ (← encodeText value f.name)
  | .vector element => return .ref f.slot _ (← encodeVector schema child element value f.name)
  | .record name =>
    match value with
    | .record r => return .ref f.slot _ (← child name r)
    | other => throw (wrongKind f.name .record other)

/-- Every entry belongs to a live field of the type. -/
def checkNames (type : RecordType) (typeName : String) (r : Record) : Except Error Unit :=
  r.forM fun (name, _) =>
    match type.field? name with
    | some f => if f.deprecated then throw (.schema (.deprecatedField typeName name)) else return
    | none => throw (.schema (.unknownField typeName name))

/-- Puts a field in front of those that are no more aligned. -/
def insertByAlignment (p : Pending) : List Pending → List Pending
  | [] => [p]
  | q :: rest =>
    if q.alignment ≤ p.alignment then p :: q :: rest else q :: insertByAlignment p rest

/-- The most aligned first. Fields of equal alignment keep the order of the type. -/
def byAlignment (pending : List Pending) : List Pending := pending.foldr insertByAlignment []

def encodeRecord (schema : Schema) (child : Child) (typeName : String) (r : Record) :
    Build (Ref .record) := do
  let type ← ofExcept (schema.record typeName)
  ofExcept (checkNames type typeName r)
  let pending ← type.liveFields.filterMapM fun f =>
    (Record.get? r f.name).mapM (encodeField schema child f)
  startRecord
  (byAlignment pending).forM Pending.write
  endRecord

/-- Records nested at most `levels` deep. -/
def encodeLevels (schema : Schema) : (levels : Nat) → Child
  | 0 => fun _ _ => throw (.corrupt 0 .tooDeep)
  | levels + 1 => encodeRecord schema (encodeLevels schema levels)

/-- Writes a record of the named type. Its own depth is always levels enough. -/
def encode (schema : Schema) (typeName : String) (r : Record) : Build (Ref .record) :=
  encodeLevels schema (Record.depth r) typeName r

/-- The buffer of a root record, with the schema's identifier if it has one. -/
def rootBuffer (schema : Schema) (r : Record) (config : Config) (sizePrefixed : Bool) :
    Except Error Bytes := do
  let root ← schema.rootRecord
  let build : Build Bytes := do
    finish (← encode schema root.name r) schema.identifier sizePrefixed
  match build.run (Builder.ofConfig config) with
  | .ok bytes _ => return bytes
  | .error e _ => throw e

def encodeRoot (schema : Schema) (r : Record) (config : Config) : Except Error Bytes :=
  rootBuffer schema r config false

end FlatRecord.Encoding
