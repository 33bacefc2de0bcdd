import FlatRecord.Scalar.Type

/-! What can go wrong, by cause, and the one text of each cause. Building errors are the caller's own;
reading errors come from bytes that nobody vouches for. -/
namespace FlatRecord

/-- A builder operation that comes at the wrong moment. -/
inductive Misuse where
  | alreadyFinished
  | recordOpen
  | vectorOpen
  | badReference
  | noRecordForField
  | badElementLayout
  | wrongElementSize
  | tooManyElements
  | noVectorForElement
  | tooFewElements
  | noVectorToEnd
  | noRecordToEnd
  | finishWhileOpen
  | notFinished
  | other (text : String)
deriving DecidableEq, Repr

/-- A defect of a buffer. -/
inductive Defect where
  | scalarOutside
  | zeroOffset
  | offsetOutside
  | shortSizePrefix
  | wrongIdentifier
  | tableOutside
  | badTableLength
  | tableTooLong
  | recordTooLong
  | fieldOutsideRecord
  | textTooLong
  | unterminatedText
  | vectorTooLong
  | misaligned
  | tooDeep
  | tooManyRecords
  | tooManyObjects
  | other (text : String)
deriving DecidableEq, Repr

/-- The kinds of values, for messages. -/
inductive ValueKind where
  | scalar | text | bytes | vector | record | struct
deriving DecidableEq, Repr

/-- The kind of value that a place in a record calls for. -/
inductive Wanted where
  | scalar | text | vector | record | struct | scalarElement | recordElement
deriving DecidableEq, Repr

/-- A conflict with a schema, or within one. -/
inductive Mismatch where
  | unknownRecord (name : String)
  | unknownStruct (name : String)
  | unknownEnum (name : String)
  | noRoot
  | noVariant (enumeration variant : String)
  | notScalar (field : String)
  | repeatedSlot (record : String) (slot : Nat)
  | slotTooLarge (record field : String) (slot : Nat)
  | defaultType (record field : String) (actual expected : ScalarType)
  | outOfRange (value : Int) (type : ScalarType)
  | scalarType (field : String) (expected actual : ScalarType)
  | valueKind (field : String) (expected : Wanted) (actual : ValueKind)
  | unknownMember (struct member : String)
  | missingMember (struct member : String)
  | defaultDiffers (actual expected : ScalarType)
  | deprecatedField (record field : String)
  | unknownField (record field : String)
  | other (text : String)
deriving DecidableEq, Repr

inductive Error where
  | order (misuse : Misuse)
  | sizeLimit (requested limit : Nat)
  | invalidText
  | duplicateField (slot : Nat)
  | truncated (needed actual : Nat)
  | corrupt (position : Nat) (defect : Defect)
  | indexOutOfRange (index length : Nat)
  | schema (mismatch : Mismatch)
  /-- An unchecked access `start ..< stop` to `size` bytes. No checked access ends here. -/
  | outside (start stop size : Nat)
deriving DecidableEq, Repr

def Misuse.text : Misuse → String
  | alreadyFinished => "builder already finished; call reset before writing"
  | recordOpen => "child object started while a record is open; build children first"
  | vectorOpen => "child object started while a vector is open; build elements first"
  | badReference => "offset does not refer to an object written before its parent"
  | noRecordForField => "field added outside of a record"
  | badElementLayout => "vector element size must be non-zero with power-of-two alignment"
  | wrongElementSize => "element size does not match start_vector"
  | tooManyElements => "more elements pushed than announced in start_vector"
  | noVectorForElement => "element pushed outside of a vector"
  | tooFewElements => "fewer elements pushed than announced in start_vector"
  | noVectorToEnd => "end_vector without start_vector"
  | noRecordToEnd => "end_record without start_record"
  | finishWhileOpen => "finish called while a record or vector is open"
  | notFinished => "buffer has not been finished"
  | other text => text

def Defect.text : Defect → String
  | scalarOutside => "scalar read out of bounds"
  | zeroOffset => "zero relative offset"
  | offsetOutside => "relative offset points past end of buffer"
  | shortSizePrefix => "size prefix smaller than root header"
  | wrongIdentifier => "file identifier mismatch"
  | tableOutside => "field table offset out of bounds"
  | badTableLength => "malformed field table length"
  | tableTooLong => "field table extends past end of buffer"
  | recordTooLong => "record extends past end of buffer"
  | fieldOutsideRecord => "field lies outside its record"
  | textTooLong => "string extends past end of buffer"
  | unterminatedText => "string missing zero terminator"
  | vectorTooLong => "vector extends past end of buffer"
  | misaligned => "misaligned value"
  | tooDeep => "record nesting too deep"
  | tooManyRecords => "too many records"
  | tooManyObjects => "too many objects to materialize"
  | other text => text

def ValueKind.name : ValueKind → String
  | scalar => "scalar"
  | text => "string"
  | bytes => "bytes"
  | vector => "vector"
  | record => "record"
  | struct => "struct"

def Wanted.name : Wanted → String
  | scalar => "scalar"
  | text => "string"
  | vector => "vector"
  | record => "record"
  | struct => "struct"
  | scalarElement => "scalar element"
  | recordElement => "record element"

def Mismatch.text : Mismatch → String
  | unknownRecord name => s!"unknown record type `{name}`"
  | unknownStruct name => s!"unknown struct type `{name}`"
  | unknownEnum name => s!"unknown enum type `{name}`"
  | noRoot => "schema has no root type"
  | noVariant enumeration variant => s!"enum `{enumeration}` has no variant `{variant}`"
  | notScalar field => s!"field `{field}` is not a scalar"
  | repeatedSlot record slot => s!"record `{record}` uses slot {slot} twice"
  | slotTooLarge record field slot => s!"field `{record}.{field}` slot {slot} exceeds maximum"
  | defaultType record field actual expected =>
    s!"field `{record}.{field}` default is {actual.name}, expected {expected.name}"
  | outOfRange value type => s!"value {value} does not fit in {type.name}"
  | scalarType field expected actual =>
    s!"field `{field}` expects {expected.name}, got {actual.name}"
  | valueKind field expected actual =>
    s!"field `{field}` expects {expected.name}, got {actual.name}"
  | unknownMember struct member => s!"struct `{struct}` has no field `{member}`"
  | missingMember struct member => s!"struct `{struct}` is missing field `{member}`"
  | defaultDiffers actual expected =>
    s!"scalar {actual.name} does not match field type {expected.name}"
  | deprecatedField record field => s!"field `{record}.{field}` is deprecated"
  | unknownField record field => s!"record `{record}` has no field `{field}`"
  | other text => text

namespace Error

def message : Error → String
  | order misuse => "order violation: " ++ misuse.text
  | sizeLimit requested limit =>
    s!"size limit exceeded: {requested} bytes requested, limit is {limit}"
  | invalidText => "invalid UTF-8 in string data"
  | duplicateField slot => s!"field slot {slot} added twice to the same record"
  | truncated needed actual =>
    s!"truncated buffer: need at least {needed} bytes, got {actual}"
  | corrupt position defect => s!"corrupt buffer at byte {position}: {defect.text}"
  | indexOutOfRange index length =>
    s!"index {index} out of range for vector of length {length}"
  | schema mismatch => "schema mismatch: " ++ mismatch.text
  | outside start stop size => s!"bytes {start} to {stop} requested of {size}"

/-- The error is a mistake or a limit of the program that builds. -/
def isBuilding : Error → Bool
  | order _ | sizeLimit _ _ | invalidText | duplicateField _ => true
  | _ => false

/-- The error is a defect of a buffer that came from elsewhere. -/
def isUntrusted : Error → Bool
  | truncated _ _ | corrupt _ _ | indexOutOfRange _ _ => true
  | _ => false

end Error

end FlatRecord
