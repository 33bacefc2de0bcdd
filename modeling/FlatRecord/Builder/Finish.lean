import FlatRecord.Builder.Basic

/-! The header of a finished buffer: an optional size, the offset to the root record, and an optional
identifier. -/
namespace FlatRecord.Builder

/-- Writes the header. One padding in front of it aligns the whole buffer. -/
def finish (root : Ref .record) (identifier : Option Identifier) (sizePrefixed : Bool) :
    Build Bytes := do
  ensureWritable
  if (← get).stage ≠ .idle then throw (.order .finishWhileOpen)
  checkRef root.distance (← get).used
  let header := offsetSize + (if identifier.isSome then identifierSize else 0)
    + (if sizePrefixed then offsetSize else 0)
  align header (max (← get).minAlign offsetSize)
  if let some id := identifier then write id.toList
  pushOffset root.distance
  if sizePrefixed then pushCount (← get).used
  setStage .finished
  return (← get).region.data

/-- The finished buffer. -/
def finishedData (b : Builder) : Except Error Bytes :=
  if b.isFinished then .ok b.region.data else .error (.order .notFinished)

end FlatRecord.Builder
