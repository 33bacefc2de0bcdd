import FlatRecord.Layout
import FlatRecord.Scalar.Type

/-! Structs of scalars with a fixed layout. In the natural layout every member stands at a multiple of its size, as
early as its predecessors allow, and the whole is padded to its largest member. -/
namespace FlatRecord

structure Member where
  name : String
  type : ScalarType
  offset : Nat
deriving DecidableEq, Repr

namespace Member

/-- The members from `offset` on, and the offset where the last one ends. -/
def place : (offset : Nat) → List (String × ScalarType) → List Member × Nat
  | offset, [] => ([], offset)
  | offset, (name, type) :: rest =>
    let start := offset + padding offset type.size
    let (placed, stop) := place (start + type.size) rest
    (⟨name, type, start⟩ :: placed, stop)

/-- Every name keeps its type, and the order is kept. -/
@[simp] theorem map_place (offset : Nat) (members : List (String × ScalarType)) :
    (place offset members).1.map (fun m => (m.name, m.type)) = members := by
  induction members generalizing offset with
  | nil => rfl
  | cons member rest ih => simp only [place, List.map_cons, ih]

/-- The largest size of a member. -/
def largest (members : List (String × ScalarType)) : Nat :=
  members.foldl (fun a m => max a m.2.size) 1

/-- The size of all members, padded to the largest. -/
def extent (members : List (String × ScalarType)) : Nat :=
  let stop := (place 0 members).2
  stop + padding stop (largest members)

end Member

/-- The layout is the natural one unless another is given. It is stored, and nothing checks it. There are few
enough members for every natural offset to be a word. -/
structure StructType where
  name : String
  members : List (String × ScalarType)
  members_lt : members.length < 2 ^ 56 := by decide
  layout : List Member := (Member.place 0 members).1
  layout_members : layout.map (fun m => (m.name, m.type)) = members := by simp
  alignment : Nat := Member.largest members
  size : Nat := Member.extent members
deriving DecidableEq, Repr

namespace StructType

/-- The layout is the natural one. -/
structure LaidOut (s : StructType) : Prop where
  layout : s.layout = (Member.place 0 s.members).1
  alignment : s.alignment = Member.largest s.members
  size : s.size = Member.extent s.members

theorem laidOut_of_members (name : String) (members : List (String × ScalarType)) (few : members.length < 2 ^ 56) :
    LaidOut { name, members, members_lt := few } := ⟨rfl, rfl, rfl⟩

instance (s : StructType) : Decidable s.LaidOut :=
  decidable_of_iff (s.layout = (Member.place 0 s.members).1 ∧ s.alignment = Member.largest s.members ∧
      s.size = Member.extent s.members)
    ⟨fun ⟨layout, alignment, size⟩ => ⟨layout, alignment, size⟩,
      fun laid => ⟨laid.layout, laid.alignment, laid.size⟩⟩

def member? (s : StructType) (name : String) : Option Member := s.layout.find? (·.name == name)

end StructType

end FlatRecord
