import FlatRecord.Inspect

/-! The inspector's command line. -/
namespace FlatRecord.Inspect

/-- The system reports a number or its negation in 32 bits. -/
def errorNumber (code : UInt32) : Nat := min code.toNat (-code).toNat

def fileError? : IO.Error → Option Storage.FileError
  | .noFileOrDirectory .. => some .missing
  | .permissionDenied .. => some .denied
  | .inappropriateType _ code _ =>
    if errorNumber code = 20 then some .notDirectory
    else if errorNumber code = 21 then some .isDirectory
    else none
  | .invalidArgument _ code _ =>
    if errorNumber code = 36 then some .nameTooLong
    else if errorNumber code = 22 then some .noLength
    else none
  | _ => none

/-- What a path leads to as far as reading shows. A place that cannot be read but is to be written counts as
vacant: the attempt to write it tells whether it is. -/
def placeAt (path : String) (writes : Bool) : IO Storage.Place := do
  try
    return .file (← IO.FS.readBinFile path).data
  catch e =>
    if writes then return .vacant
    match fileError? e with
    | some .isDirectory => return .directory
    | some fault => return .astray fault fault
    | none => throw e

/-- Writes the file at `path`, or tells why it cannot be written. -/
def writeFile (path : String) (bytes : Bytes) : IO (Option String) := do
  try
    IO.FS.writeBinFile path ⟨bytes⟩
    return none
  catch e => return some (((fileError? e).map (·.message)).getD e.toString)

/-- Runs a command line on the file that it names. The file is written before anything is printed. -/
def runOnFiles (args : List String) : IO Outcome := do
  let some r := Request.parse {} args | return run args fun _ => .vacant
  let some path := r.path | return run args fun _ => .vacant
  let place ← placeAt path r.writeDemo
  let outcome := run args fun _ => place
  match outcome.written with
  | none => return outcome
  | some bytes =>
    match ← writeFile path bytes with
    | none => return outcome
    | some message => return failure "" message none

end FlatRecord.Inspect

def main (args : List String) : IO UInt32 := do
  let outcome ← FlatRecord.Inspect.runOnFiles args
  IO.print outcome.output
  IO.eprint outcome.errors
  return outcome.exitCode
