import FlatRecord.Builder.Finish
import FlatRecord.Builder.Record
import FlatRecord.Builder.Vector

/-! The builder's operations as data, and runs of them. -/
namespace FlatRecord.Builder

inductive Operation where
  | reset
  | pushScalar (v : Scalar)
  | createText (text : String)
  | createBytes (bytes : Bytes)
  | startVector (length elementSize alignment : Nat)
  | pushElement (v : Scalar)
  | pushBytesElement (bytes : List UInt8)
  | pushRef (kind : ObjectKind) (child : Ref kind)
  | endVector
  | createVector (type : ScalarType) (items : List Scalar)
  | createRefVector (kind : ObjectKind) (items : List (Ref kind))
  | createTextVector (items : List String)
  | startRecord
  | addField (slot : Nat) (value default : Scalar)
  | addRequiredField (slot : Nat) (value : Scalar)
  | addStructField (slot : Nat) (bytes : List UInt8) (alignment : Nat)
  | addRefField (slot : Nat) (kind : ObjectKind) (child : Ref kind)
  | endRecord
  | finish (root : Ref .record) (identifier : Option Identifier) (sizePrefixed : Bool)
deriving DecidableEq, Repr

/-- What an operation gives back. -/
inductive Answer where
  | done
  | object (kind : ObjectKind) (ref : Ref kind)
  | buffer (bytes : Bytes)
deriving DecidableEq, Repr

/-- The step of an operation. -/
def Operation.step : Operation → Build Answer
  | reset => do
    modify Builder.reset
    return .done
  | pushScalar v => do
    Builder.pushScalar v
    return .done
  | createText text => .object .text <$> Builder.createText text
  | createBytes bytes => .object .text <$> Builder.createBytes bytes
  | startVector length elementSize alignment => do
    Builder.startVector length elementSize alignment
    return .done
  | pushElement v => do
    Builder.pushElement v
    return .done
  | pushBytesElement bytes => do
    Builder.pushBytesElement bytes
    return .done
  | pushRef _ child => do
    Builder.pushRef child
    return .done
  | endVector => .object .vector <$> Builder.endVector
  | createVector type items => .object .vector <$> Builder.createVector type items
  | createRefVector _ items => .object .vector <$> Builder.createRefVector items
  | createTextVector items => .object .vector <$> Builder.createTextVector items
  | startRecord => do
    Builder.startRecord
    return .done
  | addField slot value default => do
    Builder.addField slot value default
    return .done
  | addRequiredField slot value => do
    Builder.addRequiredField slot value
    return .done
  | addStructField slot bytes alignment => do
    Builder.addStructField slot bytes alignment
    return .done
  | addRefField slot _ child => do
    Builder.addRefField slot child
    return .done
  | endRecord => .object .record <$> Builder.endRecord
  | finish root identifier sizePrefixed =>
    .buffer <$> Builder.finish root identifier sizePrefixed

/-- The builder after an operation, whether it succeeded or not. -/
def apply (b : Builder) (op : Operation) : Except Error Answer × Builder :=
  match op.step.run b with
  | .ok answer b => (.ok answer, b)
  | .error e b => (.error e, b)

end FlatRecord.Builder
