import FlatRecord.Decoding
import FlatRecord.Encoding
import FlatRecord.Reading.Describe
import FlatRecord.Scalar.Text
import FlatRecord.Schema.Game
import FlatRecord.Storage

/-! The inspector: a listing of the header, the field table and the contents of a buffer file that holds a
monster. -/
namespace FlatRecord.Inspect

structure Request where
  path : Option String := none
  strict : Bool := false
  sizePrefixed : Bool := false
  writeDemo : Bool := false
deriving DecidableEq, Repr

/-- The request of a command line, or nothing if it asks for help. What is no option is the path, the last
one if there are several. -/
def Request.parse : Request → List String → Option Request
  | r, [] => some r
  | r, arg :: rest =>
    if arg = "--strict" ∨ arg = "-s" then parse { r with strict := true } rest
    else if arg = "--size-prefixed" ∨ arg = "-p" then parse { r with sizePrefixed := true } rest
    else if arg = "--write-demo" ∨ arg = "-w" then parse { r with writeDemo := true } rest
    else if arg = "--verbose" ∨ arg = "-v" then parse r rest
    else if arg = "--help" ∨ arg = "-h" then none
    else parse { r with path := some arg } rest

def helpText : String :=
  "Flatwire Inspector - Dump buffer structure\n\n" ++
  "Usage: flatwire_inspect [OPTIONS] <PATH>\n\n" ++
  "Options:\n" ++
  "  -s, --strict          Verify the whole buffer before decoding\n" ++
  "  -p, --size-prefixed   Buffer starts with a u32 size prefix\n" ++
  "  -w, --write-demo      Write the sample Monster to PATH first\n" ++
  "  -v, --verbose         Debug logging\n" ++
  "  -h, --help            Show this help\n"

def schema : Schema := Schema.Game.schema

/-- The sample monster as a finished buffer. -/
def demo (sizePrefixed : Bool) : Except Error Bytes :=
  Encoding.rootBuffer schema Schema.Game.orc {} sizePrefixed

def isAlphanumeric (b : UInt8) : Bool := (Char.ofNat b.toNat).isAlphanum

def padLeft (width : Nat) (s : String) : String := "".pushn ' ' (width - s.length) ++ s

def padRight (width : Nat) (s : String) : String := s.pushn ' ' (width - s.length)

def headerText (b : Buffer) (root : Table) (sizePrefixed : Bool) : String :=
  let size := b.bytes.size
  let identifier := match b.identifier? with
    | some id =>
      if id.all isAlphanumeric then s!"  Identifier:  {Reading.describeText id}\n" else ""
    | none => ""
  s!"Buffer:\n  Size:        {size} bytes\n" ++
  (if sizePrefixed then s!"  Size prefix: {size - offsetSize}\n" else "") ++
  s!"  Root record: byte {root.position}\n" ++ identifier ++ "\n"

def slotText (type : RecordType) (slot : Nat) (offset : Option Nat) : String :=
  let name := ((type.fieldAt? slot).map (·.name)).getD "<unknown>"
  let place := match offset with
    | some n => s!"+{n}"
    | none => "absent"
  s!"  [{padLeft 2 (toString slot)}] {padRight 10 name} {place}\n"

def slotsText (buf : Bytes) (root : Table) (type : RecordType) : Except Error String := do
  let lines ← (List.range root.slotCount).mapM fun slot => do
    return slotText type slot (← root.slotOffset buf slot)
  return s!"Field table ({root.slotCount} slots, inline size {root.inlineSize}):\n" ++
    String.join lines ++ "\n"

def indentation (indent : Nat) : String := "".pushn ' ' (2 * indent)

def memberText (entry : String × Value) : String :=
  match entry.2 with
  | .scalar v => s!"{entry.1}: {v.text}"
  | other => s!"{entry.1}: {other.kind.name}"

mutual

/-- The rest of the line that a value begins on, and the lines below it. -/
def valueText (indent : Nat) : Value → String
  | .scalar v => v.text ++ "\n"
  | .text s => Text.quoted s ++ "\n"
  | .bytes b => s!"<{b.size} non-UTF-8 bytes>\n"
  | .struct entries => "\x7b " ++ ", ".intercalate (entries.map memberText) ++ " \x7d\n"
  | .record entries => "\n" ++ entriesText (indent + 1) entries
  | .vector items => s!"[{items.length} items]\n" ++ itemsText indent 0 items

def itemsText (indent index : Nat) : List Value → String
  | [] => ""
  | v :: rest =>
    s!"{indentation indent}  - [{index}] " ++ valueText (indent + 2) v ++
      itemsText indent (index + 1) rest

def entriesText (indent : Nat) : List (String × Value) → String
  | [] => ""
  | (name, v) :: rest =>
    s!"{indentation indent}{name}: " ++ valueText indent v ++ entriesText indent rest

end

/-- The variant that an entry of an enumeration field stands for. -/
def variant? (type : RecordType) (entry : String × Value) : Option String := do
  match (← type.field? entry.1).type with
  | .enumeration name => (← (schema.enumeration name).toOption).nameOf? (← (← entry.2.scalar?).signed?)
  | _ => none

def fieldText (type : RecordType) (entry : String × Value) : String :=
  match variant? type entry, entry.2 with
  | some variant, .scalar v => s!"  {entry.1}: {variant} ({v.text})\n"
  | _, value => s!"  {entry.1}: " ++ valueText 1 value

/-- What is printed before a failure stays printed. -/
abbrev Report := EStateM String String

def print (text : String) : Report Unit := modify (· ++ text)

def orFail (result : Except Error α) : Report α :=
  match result with
  | .ok a => return a
  | .error e => throw e.message

def orFileError (result : Except Storage.FileError α) : Report α :=
  match result with
  | .ok a => return a
  | .error e => throw e.message

def report (r : Request) (place : Storage.Place) : Report Unit := do
  let stored ← orFileError (Storage.openFile place)
  let options : ReaderOptions := { strict := r.strict }
  let b ← orFail <|
    if r.sizePrefixed then Buffer.openSizePrefixedWith stored.bytes options schema
    else Buffer.openWith stored.bytes options schema
  let root ← orFail b.root
  print (headerText b root r.sizePrefixed)
  let type ← orFail schema.rootRecord
  print (← orFail (slotsText b.bytes root type))
  let decoded ← orFail (Decoding.toOwned b.bytes schema type.name root {})
  print s!"{type.name}:\n"
  print (String.join (decoded.map (fieldText type)))
  if r.strict then print "\nVerified: all offsets in bounds\n"

structure Outcome where
  exitCode : UInt32
  output : String
  errors : String
  /-- The new contents of the file, if it was written. -/
  written : Option Bytes
deriving DecidableEq, Repr

def failure (output message : String) (written : Option Bytes) : Outcome :=
  { exitCode := 1, output, errors := s!"Inspect error: {message}\n", written }

/-- The sample that is to be written at the place first, if there is one. -/
def prepare (r : Request) (place : Storage.Place) : Except String (Option Bytes) :=
  if r.writeDemo then
    match demo r.sizePrefixed with
    | .error e => .error e.message
    | .ok bytes =>
      match Storage.create place bytes with
      | .error e => .error e.message
      | .ok stored => .ok (some stored.bytes)
  else .ok none

/-- Inspects what `path` leads to, after writing the sample there if asked to. -/
def inspectPlace (r : Request) (path : String) (place : Storage.Place) : Outcome :=
  match prepare r place with
  | .error message => failure "" message none
  | .ok written =>
    let build : Report Unit :=
      match written with
      | none => report r place
      | some bytes => do
        print s!"Wrote demo Monster to {path} ({bytes.size} bytes)\n\n"
        report r (.file bytes)
    match build.run "" with
    | .ok _ output => { exitCode := 0, output, errors := "", written }
    | .error message output => failure output message written

/-- Runs a command line in a world where `lookup` tells where paths lead. -/
def run (args : List String) (lookup : String → Storage.Place) : Outcome :=
  match Request.parse {} args with
  | none => { exitCode := 0, output := helpText, errors := "", written := none }
  | some r =>
    match r.path with
    | none => failure "" "missing buffer file path" none
    | some path => inspectPlace r path (lookup path)

/-- Runs a command line on a tree of files, and gives the tree that it leaves. -/
def runIn (tree : Storage.FileTree) (args : List String) : Outcome × Storage.FileTree :=
  let outcome := run args tree.place
  let target := ((Request.parse {} args).bind (·.path)).bind fun path => (tree.resolve path).toOption
  match target, outcome.written with
  | some path, some bytes => (outcome, tree.put path bytes)
  | _, _ => (outcome, tree)

end FlatRecord.Inspect
