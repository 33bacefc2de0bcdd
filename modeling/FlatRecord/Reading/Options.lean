import FlatRecord.Verification

/-! Opening a buffer with demands on it. -/
namespace FlatRecord

structure ReaderOptions where
  /-- Verify the whole buffer at once. -/
  strict : Bool := false
  /-- The identifier that the buffer must have. -/
  identifier : Option Identifier := none
  limits : Limits := {}
deriving DecidableEq, Repr

namespace Buffer

def check (b : Buffer) (options : ReaderOptions) (schema : Schema) : Except Error Unit := do
  if let some id := options.identifier then
    if !b.hasIdentifier id then throw (.corrupt (b.rootAt + offsetSize) .wrongIdentifier)
  if options.strict then
    Verification.verify b schema (← schema.rootRecord) options.limits

def openWith (bytes : Bytes) (options : ReaderOptions) (schema : Schema) : Except Error Buffer := do
  let b ← ofBytes bytes
  b.check options schema
  return b

def openSizePrefixedWith (bytes : Bytes) (options : ReaderOptions) (schema : Schema) :
    Except Error Buffer := do
  let b ← ofSizePrefixed bytes
  b.check options schema
  return b

/-- Opens and verifies within the usual limits. -/
def openStrict (bytes : Bytes) (schema : Schema) : Except Error Buffer :=
  openWith bytes { strict := true } schema

end Buffer

end FlatRecord
