import FlatRecord.Error

/-! Limits on what is read from a buffer that nobody vouches for, and the reader that counts. -/
namespace FlatRecord

structure Limits where
  /-- How deep records may be nested below the root. -/
  maxDepth : Nat := 64
  /-- How many records may be visited, or objects decoded. -/
  maxObjects : Nat := 1000000
  /-- Refuse values that do not stand at a multiple of their size. -/
  checkAlignment : Bool := true
deriving DecidableEq, Repr

/-- A reader that counts the objects it has met. -/
abbrev Counted := StateT Nat (Except Error)

/-- Counts one object, and fails when it is one too many. -/
def Counted.charge (limits : Limits) (excess : Error) : Counted Unit := do
  modify (· + 1)
  if limits.maxObjects < (← get) then throw excess

end FlatRecord
