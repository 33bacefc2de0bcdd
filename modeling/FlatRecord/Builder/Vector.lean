import FlatRecord.Builder.Text

/-! Vectors. The elements' place is reserved when the vector begins, they are filled in order, and the count
is written when the vector ends. -/
namespace FlatRecord.Builder

def isPowerOfTwo (n : Nat) : Bool := n == 2 ^ n.log2

def startVector (length elementSize alignment : Nat) : Build Unit := do
  ensureIdle
  if elementSize = 0 ∨ !isPowerOfTwo alignment then throw (.order .badElementLayout)
  let bytes := length * elementSize
  if 2 ^ 32 ≤ bytes then throw (.sizeLimit largestWord (← get).config.maxSize)
  align bytes (max alignment offsetSize)
  writeZeros bytes
  setStage (.vector length 0 elementSize (← get).used)

/-- Counts the next element. The answers are its distance, and that of the end of the vector. -/
def nextElement (size : Nat) : Build (Nat × Nat) := do
  match (← get).stage with
  | .vector length pushed elementSize first =>
    if elementSize ≠ size then throw (.order .wrongElementSize)
    if length ≤ pushed then throw (.order .tooManyElements)
    setStage (.vector length (pushed + 1) elementSize first)
    return (first - pushed * size, first - length * size)
  | _ => throw (.order .noVectorForElement)

def Stage.uncountElement : Stage → Stage
  | .vector length pushed elementSize first => .vector length (pushed - 1) elementSize first
  | stage => stage

/-- Takes the count of the last element back. -/
def uncountElement : Build Unit := modify fun b => { b with stage := b.stage.uncountElement }

def pushBytesElement (bytes : List UInt8) : Build Unit := do
  ensureWritable
  let (distance, _) ← nextElement bytes.length
  overwrite distance bytes

def pushElement (v : Scalar) : Build Unit := pushBytesElement v.toBytes

/-- An element that refers to an object written before the vector began. -/
def pushRef {kind : ObjectKind} (child : Ref kind) : Build Unit := do
  ensureWritable
  let (distance, limit) ← nextElement offsetSize
  try checkRef child.distance limit
  catch e =>
    uncountElement
    throw e
  overwrite distance (LittleEndian.encode offsetSize (distance - child.distance))

def endVector : Build (Ref .vector) := do
  ensureWritable
  match (← get).stage with
  | .vector length pushed _ _ =>
    if pushed ≠ length then throw (.order .tooFewElements)
    setStage .idle
    pushCount length
    hereAs .vector
  | _ => throw (.order .noVectorToEnd)

/-- A vector of scalars of one type. -/
def createVector (type : ScalarType) (items : List Scalar) : Build (Ref .vector) := do
  startVector items.length type.size type.size
  items.forM pushElement
  endVector

def createRefVector {kind : ObjectKind} (items : List (Ref kind)) : Build (Ref .vector) := do
  startVector items.length offsetSize offsetSize
  items.forM pushRef
  endVector

/-- All the texts come first, then the vector that refers to them. -/
def createTextVector (items : List String) : Build (Ref .vector) := do
  createRefVector (← items.mapM createText)

end FlatRecord.Builder
