import FlatRecord.Region
import FlatRecord.Scalar.Basic

/-! The builder: a region that is filled back to front, the object that is being written, and the field
tables written so far. An operation that fails leaves what it had already written. -/
namespace FlatRecord

/-- What a finished object is, for those who refer to it. -/
inductive ObjectKind where
  | text | vector | record
deriving DecidableEq, Repr

/-- A finished object of some builder, by its distance from the end. -/
structure Ref (kind : ObjectKind) where
  distance : Nat
deriving DecidableEq, Repr

namespace Builder

/-- Sizes above `largestBuffer` are outside the model: no setter keeps one, but a configuration that is written out
field by field could have one. -/
structure Config where
  initialCapacity : Nat := 1024
  maxSize : Nat := largestBuffer
  /-- Refuse byte strings that are not UTF-8. -/
  validateText : Bool := false
  /-- Write scalars even where they equal their defaults. -/
  forceDefaults : Bool := false
  /-- Let records with equal field tables share one. -/
  shareTables : Bool := true
  maxSize_le : maxSize ≤ largestBuffer := by decide
deriving DecidableEq, Repr

def Config.withMaxSize (c : Config) (maxSize : Nat) : Config :=
  { c with maxSize := min maxSize largestBuffer, maxSize_le := Nat.min_le_right _ _ }

/-- A field of the open record, by the distance of its first byte. -/
structure Field where
  slot : Nat
  distance : Nat
deriving DecidableEq, Repr

/-- What the builder is in the middle of. A record remembers where it began and its fields, the newest
first, and a vector the distance of its first element. -/
inductive Stage where
  | idle
  | record (start : Nat) (fields : List Field)
  | vector (length pushed elementSize first : Nat)
  | finished
deriving DecidableEq, Repr

end Builder

structure Builder where
  config : Builder.Config
  region : Region
  /-- The largest alignment asked for so far. -/
  minAlign : Nat := 1
  stage : Builder.Stage := .idle
  /-- The distances of the field tables, the newest first. -/
  tables : List Nat := []
deriving DecidableEq, Repr

/-- A building step. A failure keeps the builder as it stood. -/
abbrev Build := EStateM Error Builder

namespace Builder

def ofConfig (config : Config) : Builder :=
  { config, region := Region.new config.initialCapacity config.maxSize }

def used (b : Builder) : Nat := b.region.used

def isFinished (b : Builder) : Bool := b.stage == .finished

/-- Makes the builder ready for another buffer. The region keeps its capacity. -/
def reset (b : Builder) : Builder :=
  { config := b.config, region := b.region.clear }

def ensureWritable : Build Unit := do
  if (← get).isFinished then throw (.order .alreadyFinished)

/-- Texts, vectors and records do not begin inside another object. -/
def ensureIdle : Build Unit := do
  match (← get).stage with
  | .idle => return
  | .record .. => throw (.order .recordOpen)
  | .vector .. => throw (.order .vectorOpen)
  | .finished => throw (.order .alreadyFinished)

/-- Puts bytes in front of what is written. -/
def write (bytes : List UInt8) : Build Unit := do
  let capacity ← ofExcept ((← get).region.room bytes.length)
  modify fun b => { b with region := b.region.extend capacity bytes }

/-- The room is asked for before the zeros are made, which may be far too many. -/
def writeZeros (count : Nat) : Build Unit := do
  let capacity ← ofExcept ((← get).region.room count)
  modify fun b => { b with region := b.region.extend capacity (List.replicate count 0) }

/-- Replaces bytes that are written already. -/
def overwrite (distance : Nat) (bytes : List UInt8) : Build Unit := do
  ofExcept ((← get).region.within distance bytes.length)
  modify fun b => { b with region := b.region.overwrite distance bytes }

def setStage (stage : Stage) : Build Unit := modify fun b => { b with stage }

/-- Pads so that an object of `length` bytes, written next, begins at a multiple of `alignment` from the
end. -/
def align (length alignment : Nat) : Build Unit := do
  modify fun b => { b with minAlign := max b.minAlign alignment }
  writeZeros (padding ((← get).used + length) alignment)

/-- A reference leads to an object that was complete at distance `limit`. -/
def checkRef (distance limit : Nat) : Build Unit :=
  if distance = 0 ∨ limit < distance then throw (.order .badReference) else return

/-- Writes an offset to the object at `distance`, counted from where the offset stands. -/
def pushOffset (distance : Nat) : Build Unit := do
  align offsetSize offsetSize
  write (LittleEndian.encode offsetSize ((← get).used + offsetSize - distance))

/-- Writes a scalar at its natural alignment. -/
def pushScalar (v : Scalar) : Build Unit := do
  ensureWritable
  align v.size v.size
  write v.toBytes

def pushCount (count : Nat) : Build Unit := pushScalar (.uint32 (UInt32.ofNat count))

def hereAs (kind : ObjectKind) : Build (Ref kind) := return ⟨(← get).used⟩

end Builder

end FlatRecord
