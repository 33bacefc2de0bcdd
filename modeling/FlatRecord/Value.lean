import FlatRecord.Bytes
import FlatRecord.Error
import FlatRecord.Scalar.Basic

/-! Values that are held apart from any buffer. -/
namespace FlatRecord

/-- Bytes are the text of a field that is not UTF-8. The entries of a record or struct are ordered by
name. -/
inductive Value where
  | scalar (v : Scalar)
  | text (s : String)
  | bytes (b : Bytes)
  | vector (items : List Value)
  | record (entries : List (String × Value))
  | struct (entries : List (String × Value))
deriving Repr, Inhabited

/-- A record: named values, ordered by name. An absent field has no entry. -/
abbrev Record := List (String × Value)

namespace Record

def get? (r : Record) (name : String) : Option Value := (r.find? (·.1 == name)).map (·.2)

/-- Names are compared character by character, which is also the order of their UTF-8 bytes. -/
def set (r : Record) (name : String) (value : Value) : Record :=
  match r with
  | [] => [(name, value)]
  | entry :: rest =>
    if name < entry.1 then (name, value) :: entry :: rest
    else if name = entry.1 then (name, value) :: rest
    else entry :: set rest name value

def remove (r : Record) (name : String) : Record := r.filter (·.1 != name)

def contains (r : Record) (name : String) : Bool := (r.get? name).isSome

def names (r : Record) : List String := r.map (·.1)

/-- The record of the given entries, the later of two with one name. -/
def ofEntries (entries : List (String × Value)) : Record :=
  entries.foldl (fun r entry => Record.set r entry.1 entry.2) []

end Record

namespace Value

mutual

def decEq : (a b : Value) → Decidable (a = b)
  | scalar a, b => match b with
    | scalar b => decidable_of_iff (a = b) (by simp)
    | text _ | bytes _ | vector _ | record _ | struct _ => isFalse nofun
  | text a, b => match b with
    | text b => decidable_of_iff (a = b) (by simp)
    | scalar _ | bytes _ | vector _ | record _ | struct _ => isFalse nofun
  | bytes a, b => match b with
    | bytes b => decidable_of_iff (a = b) (by simp)
    | scalar _ | text _ | vector _ | record _ | struct _ => isFalse nofun
  | vector a, b => match b with
    | vector b => match decEqItems a b with
      | isTrue h => isTrue (by rw [h])
      | isFalse h => isFalse (by simpa using h)
    | scalar _ | text _ | bytes _ | record _ | struct _ => isFalse nofun
  | record a, b => match b with
    | record b => match decEqEntries a b with
      | isTrue h => isTrue (by rw [h])
      | isFalse h => isFalse (by simpa using h)
    | scalar _ | text _ | bytes _ | vector _ | struct _ => isFalse nofun
  | struct a, b => match b with
    | struct b => match decEqEntries a b with
      | isTrue h => isTrue (by rw [h])
      | isFalse h => isFalse (by simpa using h)
    | scalar _ | text _ | bytes _ | vector _ | record _ => isFalse nofun

def decEqItems : (a b : List Value) → Decidable (a = b)
  | [], [] => isTrue rfl
  | [], _ :: _ | _ :: _, [] => isFalse nofun
  | a :: as, b :: bs => match decEq a b, decEqItems as bs with
    | isTrue h, isTrue hs => isTrue (by rw [h, hs])
    | isFalse h, _ => isFalse (by simp [h])
    | _, isFalse h => isFalse (by simp [h])

def decEqEntries : (a b : List (String × Value)) → Decidable (a = b)
  | [], [] => isTrue rfl
  | [], _ :: _ | _ :: _, [] => isFalse nofun
  | (m, a) :: as, (n, b) :: bs =>
    match instDecidableEqString m n, decEq a b, decEqEntries as bs with
    | isTrue hn, isTrue h, isTrue hs => isTrue (by rw [hn, h, hs])
    | isFalse h, _, _ => isFalse (by simp [h])
    | _, isFalse h, _ => isFalse (by simp [h])
    | _, _, isFalse h => isFalse (by simp [h])

end

instance : DecidableEq Value := decEq

def kind : Value → ValueKind
  | scalar _ => .scalar
  | text _ => .text
  | bytes _ => .bytes
  | vector _ => .vector
  | record _ => .record
  | struct _ => .struct

def scalar? : Value → Option Scalar
  | scalar v => some v
  | _ => none

def text? : Value → Option String
  | text s => some s
  | _ => none

def vector? : Value → Option (List Value)
  | vector items => some items
  | _ => none

/-- The entries of a record, or of a struct. -/
def entries? : Value → Option Record
  | record entries | struct entries => some entries
  | _ => none

mutual

/-- Equal kinds and equal contents, scalars as numbers. -/
def same : Value → Value → Bool
  | scalar a, scalar b => a.sameNumber b
  | text a, text b => a == b
  | bytes a, bytes b => a == b
  | vector a, vector b => sameItems a b
  | record a, record b => sameEntries a b
  | struct a, struct b => sameEntries a b
  | _, _ => false

def sameItems : List Value → List Value → Bool
  | [], [] => true
  | a :: as, b :: bs => a.same b && sameItems as bs
  | _, _ => false

def sameEntries : List (String × Value) → List (String × Value) → Bool
  | [], [] => true
  | (m, a) :: as, (n, b) :: bs => m == n && a.same b && sameEntries as bs
  | _, _ => false

end

mutual

/-- The number of values in a tree, itself included. -/
def count : Value → Nat
  | scalar _ | text _ | bytes _ => 1
  | vector items => countItems items + 1
  | record entries | struct entries => countEntries entries + 1

def countItems : List Value → Nat
  | [] => 0
  | v :: rest => v.count + countItems rest

def countEntries : List (String × Value) → Nat
  | [] => 0
  | (_, v) :: rest => v.count + countEntries rest

end

mutual

/-- The deepest nesting of records and structs. Vectors do not count. -/
def depth : Value → Nat
  | scalar _ | text _ | bytes _ => 0
  | vector items => depthItems items
  | record entries | struct entries => depthEntries entries + 1

def depthItems : List Value → Nat
  | [] => 0
  | v :: rest => max v.depth (depthItems rest)

def depthEntries : List (String × Value) → Nat
  | [] => 0
  | (_, v) :: rest => max v.depth (depthEntries rest)

end

end Value

namespace Record

def same (a b : Record) : Bool := Value.sameEntries a b

/-- The number of values inside. -/
def count (r : Record) : Nat := Value.countEntries r

/-- The deepest nesting, the record itself being the first level. -/
def depth (r : Record) : Nat := Value.depthEntries r + 1

end Record

end FlatRecord
