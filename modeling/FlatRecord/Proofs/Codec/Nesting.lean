import FlatRecord.Proofs.Codec.Encoded
import Mathlib.Algebra.Order.BigOperators.Group.List

/-! How many records are encoded for a record, and how deep they are nested, by what the schema says of its
fields. There are no more than the record has objects and levels. -/
namespace FlatRecord

/-- The record that the value is, as one of the named type. -/
def recordsAs (name : String) : Value → List (String × Record)
  | .record r => [(name, r)]
  | _ => []

/-- The records, with their types, that a field of the type refers to. -/
def nestedIn : FieldType → Value → List (String × Record)
  | .record name, v => recordsAs name v
  | .vector (.record name), .vector items => items.flatMap (recordsAs name)
  | _, _ => []

def fieldRecords (r : Record) (f : RecordField) : List (String × Record) :=
  ((r.get? f.name).map (nestedIn f.type)).getD []

def childRecords (type : RecordType) (r : Record) : List (String × Record) :=
  type.liveFields.flatMap (fieldRecords r)

/-- The counts of some records together. -/
def total (count : String → Record → Nat) (records : List (String × Record)) : Nat :=
  (records.map fun child => count child.1 child.2).sum

/-- The greatest of the depths of some records, or zero. -/
def deepest (depth : String → Record → Nat) (records : List (String × Record)) : Nat :=
  (records.map fun child => depth child.1 child.2).foldr max 0

section Counts

variable (schema : Schema)

def countRecord (count : String → Record → Nat) (name : String) (r : Record) : Nat :=
  match schema.record name with
  | .ok type => 1 + total count (childRecords type r)
  | .error _ => 1

def countLevels : (levels : Nat) → String → Record → Nat
  | 0 => fun _ _ => 0
  | levels + 1 => countRecord schema (countLevels levels)

def nestRecord (nesting : String → Record → Nat) (name : String) (r : Record) : Nat :=
  match schema.record name with
  | .ok type => deepest (fun name r => nesting name r + 1) (childRecords type r)
  | .error _ => 0

def nestLevels : (levels : Nat) → String → Record → Nat
  | 0 => fun _ _ => 0
  | levels + 1 => nestRecord schema (nestLevels levels)

/-- The number of records that are encoded for a record, itself included. -/
def recordCount (name : String) (r : Record) : Nat := countLevels schema (Record.depth r) name r

/-- The number of record levels that are encoded below a record. -/
def recordNesting (name : String) (r : Record) : Nat := nestLevels schema (Record.depth r) name r

end Counts

theorem deepest_le {depth : String → Record → Nat} {records : List (String × Record)} {n : Nat} :
    deepest depth records ≤ n ↔ ∀ child ∈ records, depth child.1 child.2 ≤ n := by
  induction records with
  | nil => simp [deepest]
  | cons first rest ih =>
    have step : deepest depth (first :: rest) = max (depth first.1 first.2) (deepest depth rest) := rfl
    rw [step, Nat.max_le, ih, List.forall_mem_cons]

theorem total_flatMap {α : Type} (count : String → Record → Nat) (items : List α)
    (f : α → List (String × Record)) :
    total count (items.flatMap f) = (items.map fun item => total count (f item)).sum := by
  induction items with
  | nil => rfl
  | cons item rest ih =>
    rw [List.flatMap_cons, List.map_cons, List.sum_cons, ← ih]
    simp [total]

variable {schema : Schema} {count : String → Record → Nat} {r : Record} {v : Value}

/-- A nested record adds a level to those it has itself. -/
theorem nested_levels {type : FieldType} {child : String × Record} (mem : child ∈ nestedIn type v) :
    Value.levelsEntries child.2 + 1 ≤ v.levels := by
  have direct {name : String} {v : Value} (mem : child ∈ recordsAs name v) :
      Value.levelsEntries child.2 + 1 ≤ v.levels := by
    cases v with
    | record r =>
      cases List.mem_singleton.1 mem
      exact Nat.le_refl _
    | scalar | text | bytes | vector | struct => cases mem
  simp only [nestedIn] at mem
  split at mem
  next => exact direct mem
  next items =>
    obtain ⟨item, among, mem⟩ := List.mem_flatMap.1 mem
    exact Nat.le_trans (direct mem) (Value.levelsItems_le.1 (Nat.le_refl _) item among)
  next => cases mem

theorem nested_objects (each : ∀ name r, count name r ≤ Value.objectsEntries r + 1) (type : FieldType)
    (v : Value) : total count (nestedIn type v) ≤ v.objects := by
  have direct (name : String) (v : Value) : total count (recordsAs name v) ≤ v.objects := by
    cases v with
    | record r =>
      have one : total count (recordsAs name (.record r)) = count name r := by simp [total, recordsAs]
      rw [one]
      exact each name r
    | scalar | text | bytes | vector | struct => exact Nat.zero_le _
  simp only [nestedIn]
  split
  next => exact direct _ _
  next name items =>
    rw [total_flatMap, Value.objects, objectsItems_eq]
    exact Nat.le_succ_of_le (List.sum_le_sum fun item _ => direct name item)
  next => exact Nat.zero_le _

/-- Under different names stand different values. -/
theorem sum_objects_le {names : List String} (distinct : names.Nodup) (r : Record) :
    (names.map fun name => cost (r.get? name)).sum ≤ Value.objectsEntries r := by
  induction r with
  | nil => simp [cost]
  | cons entry rest ih =>
    have split : ∀ name ∈ names, cost (Record.get? (entry :: rest) name) ≤
        (if name = entry.1 then entry.2.objects else 0) + cost (Record.get? rest name) := by
      intro name _
      rw [Record.get?_cons]
      by_cases same : entry.1 = name
      · rw [if_pos same, if_pos same.symm]
        exact Nat.le_add_right _ _
      · rw [if_neg same]
        exact Nat.le_add_left _ _
    have once : (names.map fun name => if name = entry.1 then entry.2.objects else 0).sum ≤
        entry.2.objects := by
      rw [List.sum_map_eq_nsmul_single entry.1 _ fun name other _ => if_neg other, if_pos rfl,
        Nat.nsmul_eq_mul]
      have least := List.nodup_iff_count_le_one.1 distinct entry.1
      exact Nat.le_trans (Nat.mul_le_mul_right _ least) (Nat.le_of_eq (Nat.one_mul _))
    calc (names.map fun name => cost (Record.get? (entry :: rest) name)).sum
      _ ≤ (names.map fun name => (if name = entry.1 then entry.2.objects else 0) +
          cost (Record.get? rest name)).sum := List.sum_le_sum split
      _ = (names.map fun name => if name = entry.1 then entry.2.objects else 0).sum +
          (names.map fun name => cost (Record.get? rest name)).sum := List.sum_map_add
      _ ≤ entry.2.objects + Value.objectsEntries rest := Nat.add_le_add once ih

/-- No more levels are encoded than the record has. -/
theorem recordNesting_le (schema : Schema) (name : String) (r : Record) :
    recordNesting schema name r ≤ Value.levelsEntries r := by
  suffices general : ∀ levels name r, nestLevels schema levels name r ≤ Value.levelsEntries r from
    general _ name r
  intro levels
  induction levels with
  | zero => exact fun _ _ => Nat.zero_le _
  | succ levels ih =>
    intro name r
    rw [nestLevels, nestRecord]
    split
    next record _ =>
      apply deepest_le.2
      intro child mem
      obtain ⟨f, -, mem⟩ := List.mem_flatMap.1 mem
      rw [fieldRecords] at mem
      cases found : r.get? f.name with
      | none => simp [found] at mem
      | some v =>
        rw [found] at mem
        calc nestLevels schema levels child.1 child.2 + 1
          _ ≤ Value.levelsEntries child.2 + 1 := Nat.succ_le_succ (ih _ _)
          _ ≤ v.levels := nested_levels mem
          _ ≤ Value.levelsEntries r :=
            Value.levelsEntries_le.1 (Nat.le_refl _) _ (Record.mem_of_get? found)
    next => exact Nat.zero_le _

/-- No more records are encoded than the record has objects. -/
theorem recordCount_le (names : schema.DistinctNames) (name : String) (r : Record) :
    recordCount schema name r ≤ Value.objectsEntries r + 1 := by
  suffices general : ∀ levels name r, countLevels schema levels name r ≤
      Value.objectsEntries r + 1 from general _ name r
  intro levels
  induction levels with
  | zero => exact fun _ _ => Nat.zero_le _
  | succ levels ih =>
    intro name r
    rw [countLevels, countRecord]
    split
    next record known =>
      have each : ∀ f ∈ record.liveFields,
          total (countLevels schema levels) (fieldRecords r f) ≤ cost (r.get? f.name) := by
        intro f _
        rw [fieldRecords]
        cases r.get? f.name with
        | none => exact Nat.zero_le _
        | some v => exact nested_objects ih f.type v
      have objects := sum_objects_le (names.live known) r
      rw [List.map_map] at objects
      rw [childRecords, total_flatMap, Nat.add_comm]
      exact Nat.succ_le_succ (Nat.le_trans (List.sum_le_sum each) objects)
    next => exact Nat.succ_le_succ (Nat.zero_le _)

end FlatRecord
