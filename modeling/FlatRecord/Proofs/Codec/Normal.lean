import FlatRecord.Decoding
import FlatRecord.Encoding
import Mathlib.Data.String.Basic

/-! The normal form of a record, which is what comes back when it is written and read: scalars of the right
type, variants by their values, structs as structs, text as text, and defaults for what is absent. -/
namespace FlatRecord

namespace Value

mutual

/-- The entries of all records and structs stand in the order of their names, each name once. -/
def Ordered : Value → Prop
  | scalar _ | text _ | bytes _ => True
  | vector items => OrderedItems items
  | record entries | struct entries =>
    entries.Pairwise (fun a b => a.1 < b.1) ∧ OrderedEntries entries

def OrderedItems : List Value → Prop
  | [] => True
  | v :: rest => v.Ordered ∧ OrderedItems rest

def OrderedEntries : List (String × Value) → Prop
  | [] => True
  | (_, v) :: rest => v.Ordered ∧ OrderedEntries rest

end

mutual

/-- How deep records are nested. Structs do not count. -/
def levels : Value → Nat
  | scalar _ | text _ | bytes _ | struct _ => 0
  | vector items => levelsItems items
  | record entries => levelsEntries entries + 1

def levelsItems : List Value → Nat
  | [] => 0
  | v :: rest => max v.levels (levelsItems rest)

def levelsEntries : List (String × Value) → Nat
  | [] => 0
  | (_, v) :: rest => max v.levels (levelsEntries rest)

end

mutual

/-- The number of records, texts and vectors, which is what a decoder counts. -/
def objects : Value → Nat
  | scalar _ | struct _ => 0
  | text _ | bytes _ => 1
  | vector items => objectsItems items + 1
  | record entries => objectsEntries entries + 1

def objectsItems : List Value → Nat
  | [] => 0
  | v :: rest => v.objects + objectsItems rest

def objectsEntries : List (String × Value) → Nat
  | [] => 0
  | (_, v) :: rest => v.objects + objectsEntries rest

end

variable {items : List Value} {entries : List (String × Value)} {n : Nat}

theorem orderedItems_iff : OrderedItems items ↔ ∀ v ∈ items, v.Ordered := by
  induction items with
  | nil => simp [OrderedItems]
  | cons first rest ih => rw [OrderedItems, ih, List.forall_mem_cons]

theorem orderedEntries_iff : OrderedEntries entries ↔ ∀ entry ∈ entries, entry.2.Ordered := by
  induction entries with
  | nil => simp [OrderedEntries]
  | cons first rest ih => rw [OrderedEntries, ih, List.forall_mem_cons]

theorem levelsItems_le : levelsItems items ≤ n ↔ ∀ v ∈ items, v.levels ≤ n := by
  induction items with
  | nil => simp [levelsItems]
  | cons first rest ih => rw [levelsItems, Nat.max_le, ih, List.forall_mem_cons]

theorem levelsEntries_le : levelsEntries entries ≤ n ↔ ∀ entry ∈ entries, entry.2.levels ≤ n := by
  induction entries with
  | nil => simp [levelsEntries]
  | cons first rest ih => rw [levelsEntries, Nat.max_le, ih, List.forall_mem_cons]

theorem depthItems_le : depthItems items ≤ n ↔ ∀ v ∈ items, v.depth ≤ n := by
  induction items with
  | nil => simp [depthItems]
  | cons first rest ih => rw [depthItems, Nat.max_le, ih, List.forall_mem_cons]

theorem depthEntries_le : depthEntries entries ≤ n ↔ ∀ entry ∈ entries, entry.2.depth ≤ n := by
  induction entries with
  | nil => simp [depthEntries]
  | cons first rest ih => rw [depthEntries, Nat.max_le, ih, List.forall_mem_cons]

end Value

namespace Record

def Sorted (r : Record) : Prop := r.Pairwise fun a b => a.1 < b.1

/-- Ordered by name, and so are all records and structs inside. -/
def Ordered (r : Record) : Prop := r.Sorted ∧ Value.OrderedEntries r

variable {r a b : Record} {name key : String} {value : Value}

@[simp] theorem get?_nil : Record.get? [] name = none := rfl

theorem get?_cons (entry : String × Value) (rest : Record) (name : String) :
    Record.get? (entry :: rest) name =
      if entry.1 = name then some entry.2 else Record.get? rest name := by
  by_cases same : entry.1 = name <;> simp [get?, same]

theorem get?_set (r : Record) (name key : String) (value : Value) :
    (r.set name value).get? key = if name = key then some value else r.get? key := by
  induction r with
  | nil => simp [set, get?_cons]
  | cons entry rest ih =>
    simp only [set]
    split
    next => rw [get?_cons]
    next =>
      split
      next same =>
        rw [get?_cons, get?_cons]
        by_cases here : name = key
        · simp [here]
        · simp [here, ← same]
      next other =>
        rw [get?_cons, get?_cons, ih]
        by_cases here : entry.1 = key
        · have apart : name ≠ key := fun same => other (same.trans here.symm)
          simp [here, apart]
        · simp [here]

/-- Setting only what is absent. -/
theorem get?_set_absent (r : Record) (name key : String) (value : Value) :
    (if r.contains name then r else r.set name value).get? key =
      (r.get? key).or (if name = key then some value else none) := by
  by_cases present : r.contains name = true
  · obtain ⟨old, found⟩ := Option.isSome_iff_exists.1 present
    rw [if_pos present]
    by_cases same : name = key
    · subst same; simp [found]
    · simp [same]
  · have missing : r.get? name = none := by simpa [contains] using present
    rw [if_neg present, get?_set]
    by_cases same : name = key
    · subst same; simp [missing]
    · simp [same]

theorem mem_set {entry : String × Value} (mem : entry ∈ r.set name value) :
    entry = (name, value) ∨ entry ∈ r := by
  induction r with
  | nil => simpa [set] using mem
  | cons first rest ih =>
    simp only [set] at mem
    split at mem
    next => simpa using mem
    next =>
      split at mem
      next =>
        rcases List.mem_cons.1 mem with same | later
        · exact .inl same
        · exact .inr (List.mem_cons_of_mem _ later)
      next =>
        rcases List.mem_cons.1 mem with same | later
        · exact .inr (same ▸ List.mem_cons_self)
        · exact (ih later).imp id (List.mem_cons_of_mem _)

theorem sorted_set (sorted : r.Sorted) : (r.set name value).Sorted := by
  induction r with
  | nil => exact List.pairwise_singleton _ _
  | cons first rest ih =>
    obtain ⟨before, sorted'⟩ := List.pairwise_cons.1 sorted
    simp only [set]
    split
    next earlier =>
      refine List.pairwise_cons.2 ⟨fun entry mem => ?_, sorted⟩
      rcases List.mem_cons.1 mem with rfl | later
      · exact earlier
      · exact lt_trans earlier (before entry later)
    next late =>
      split
      next same => exact List.pairwise_cons.2 ⟨fun entry mem => same ▸ before entry mem, sorted'⟩
      next other =>
        refine List.pairwise_cons.2 ⟨fun entry mem => ?_, ih sorted'⟩
        rcases mem_set mem with rfl | later
        · exact lt_of_le_of_ne (not_lt.1 late) (Ne.symm other)
        · exact before entry later

theorem get?_eq_none_of_lt (before : ∀ entry ∈ r, name < entry.1) : r.get? name = none := by
  induction r with
  | nil => rfl
  | cons first rest ih =>
    have head := before first List.mem_cons_self
    rw [get?_cons, if_neg (ne_of_gt head), ih fun entry mem => before entry (List.mem_cons_of_mem _ mem)]

/-- Sorted records with the same entries are the same list. -/
theorem sorted_ext (first : a.Sorted) (second : b.Sorted)
    (same : ∀ name, a.get? name = b.get? name) : a = b := by
  induction a generalizing b with
  | nil =>
    cases b with
    | nil => rfl
    | cons y b =>
      have found := same y.1
      simp [get?_cons] at found
  | cons x a ih =>
    obtain ⟨afterX, first⟩ := List.pairwise_cons.1 first
    cases b with
    | nil =>
      have found := same x.1
      simp [get?_cons] at found
    | cons y b =>
      obtain ⟨afterY, second⟩ := List.pairwise_cons.1 second
      have here : x.1 = y.1 := by
        rcases lt_trichotomy x.1 y.1 with less | equal | more
        · have found := same x.1
          rw [get?_cons, if_pos rfl, get?_eq_none_of_lt (fun entry mem => ?_)] at found
          · cases found
          · rcases List.mem_cons.1 mem with rfl | later
            · exact less
            · exact lt_trans less (afterY entry later)
        · exact equal
        · have found := same y.1
          rw [get?_cons y, if_pos rfl, get?_eq_none_of_lt (fun entry mem => ?_)] at found
          · cases found
          · rcases List.mem_cons.1 mem with rfl | later
            · exact more
            · exact lt_trans more (afterX entry later)
      have value : x.2 = y.2 := by
        have found := same x.1
        rw [get?_cons, if_pos rfl, get?_cons, if_pos here.symm] at found
        exact Option.some.inj found
      have rest : a = b := by
        apply ih first second
        intro name
        by_cases equal : x.1 = name
        · rw [get?_eq_none_of_lt (equal ▸ afterX), get?_eq_none_of_lt (equal ▸ here ▸ afterY)]
        · have found := same name
          rwa [get?_cons, if_neg equal, get?_cons, if_neg (here ▸ equal)] at found
      rw [rest, Prod.ext here value]

theorem sorted_of_names (names : a.map (·.1) = b.map (·.1)) (sorted : b.Sorted) : a.Sorted := by
  have ordered := List.pairwise_map.2 sorted
  rw [← names] at ordered
  exact List.pairwise_map.1 ordered

theorem mem_of_get? (found : r.get? name = some value) : (name, value) ∈ r := by
  induction r with
  | nil => cases found
  | cons first rest ih =>
    rw [get?_cons] at found
    split at found
    next same => cases found; subst same; exact List.mem_cons_self
    next => exact List.mem_cons_of_mem _ (ih found)

end Record

section Normal

/-- The type of a field that holds one such element. -/
def ElementType.asField : ElementType → FieldType
  | scalar type => .scalar type
  | text => .text
  | record name => .record name
  | struct name => .struct name

/-- The member's scalar at the member's type. -/
def normalMember (s : StructType) (entry : String × Value) : String × Value :=
  match s.member? entry.1, entry.2 with
  | some m, .scalar v => (entry.1, .scalar ((v.convert? m.type).getD v))
  | _, _ => entry

variable (schema : Schema) (forced : Bool)

/-- A scalar that equals its field's default as a number is not kept apart from it, unless defaults are
written. -/
def settleDefault (f : RecordField) (value : Value) : Value :=
  match schema.scalarOf f, value with
  | .ok (_, default), .scalar v =>
    if !forced && v.sameNumber default then .scalar default else .scalar v
  | _, value => value

/-- Adds the defaults of the live fields that are absent. -/
def withDefaults (type : RecordType) (r : Record) : Record :=
  type.liveFields.foldl (fun r f =>
    match schema.scalarOf f with
    | .ok (_, default) => if r.contains f.name then r else r.set f.name (.scalar default)
    | .error _ => r) r

mutual

/-- The normal form of a value where the type calls for it. A value of another kind stays as it is. -/
def normal (type : FieldType) : Value → Value
  | .scalar v =>
    match type with
    | .scalar t => .scalar ((v.convert? t).getD v)
    | .enumeration name =>
      match schema.enumeration name with
      | .ok e => .scalar ((v.convert? e.underlying).getD v)
      | .error _ => .scalar v
    | _ => .scalar v
  | .text s =>
    match type with
    | .enumeration name =>
      match (do let e ← schema.enumeration name
                Schema.scalarOfInt e.underlying (← Schema.variant e s)) with
      | .ok v => .scalar v
      | .error _ => .text s
    | _ => .text s
  | .bytes b =>
    match type with
    | .text => Decoding.ownedText b
    | _ => .bytes b
  | .vector items =>
    match type with
    | .vector element => .vector (normalItems element.asField items)
    | _ => .vector items
  | .record entries =>
    match type with
    | .record name =>
      match schema.record name with
      | .ok type => .record (withDefaults schema type (normalEntries type entries))
      | .error _ => .record entries
    | .struct name =>
      match schema.struct name with
      | .ok s => .struct (entries.map (normalMember s))
      | .error _ => .record entries
    | _ => .record entries
  | .struct entries =>
    match type with
    | .struct name =>
      match schema.struct name with
      | .ok s => .struct (entries.map (normalMember s))
      | .error _ => .struct entries
    | _ => .struct entries

def normalItems (type : FieldType) : List Value → List Value
  | [] => []
  | v :: rest => normal type v :: normalItems type rest

def normalEntries (type : RecordType) : List (String × Value) → List (String × Value)
  | [] => []
  | (name, v) :: rest =>
    (name,
      match type.field? name with
      | some f => settleDefault schema forced f (normal f.type v)
      | none => v) :: normalEntries type rest

end

/-- The normal form of a record of the named type. -/
def normalRecord (typeName : String) (r : Record) : Record :=
  match schema.record typeName with
  | .ok type => withDefaults schema type (normalEntries schema forced type r)
  | .error _ => r

theorem normal_record {schema : Schema} {forced : Bool} (name : String) (entries : Record) :
    normal schema forced (.record name) (.record entries) =
      .record (normalRecord schema forced name entries) := by
  simp only [normalRecord]
  simp only [normal]
  split <;> rfl

theorem normalItems_eq {schema : Schema} {forced : Bool} (type : FieldType) (items : List Value) :
    normalItems schema forced type items = items.map (normal schema forced type) := by
  induction items with
  | nil => rfl
  | cons v rest ih => simp only [normalItems, List.map_cons, ih]

/-- A zero of a float type, of either sign. -/
def IsZero : Scalar → Prop
  | .float32 a => a.toNat % FloatFormat.binary32.signWeight = 0
  | .float64 a => a.toNat % FloatFormat.binary64.signWeight = 0
  | _ => False

theorem sameNumber_eq {v w : Scalar} (same : v.sameNumber w = true) : v = w ∨ IsZero v ∧ IsZero w := by
  cases v with
  | float32 a =>
    cases w with
    | float32 b =>
      simp only [Scalar.sameNumber, FloatFormat.sameNumber, Bool.and_eq_true, Bool.or_eq_true,
        beq_iff_eq] at same
      rcases same.2 with equal | zeros
      · exact .inl (congrArg Scalar.float32 (UInt32.toNat_inj.1 equal))
      · exact .inr zeros
    | _ => simp [Scalar.sameNumber] at same
  | float64 a =>
    cases w with
    | float64 b =>
      simp only [Scalar.sameNumber, FloatFormat.sameNumber, Bool.and_eq_true, Bool.or_eq_true,
        beq_iff_eq] at same
      rcases same.2 with equal | zeros
      · exact .inl (congrArg Scalar.float64 (UInt64.toNat_inj.1 equal))
      · exact .inr zeros
    | _ => simp [Scalar.sameNumber] at same
  | _ => exact .inl (by simpa [Scalar.sameNumber] using same)

theorem type_of_sameNumber {v w : Scalar} (same : v.sameNumber w = true) : v.type = w.type := by
  rcases sameNumber_eq same with rfl | ⟨_, _⟩
  · rfl
  · cases v with
    | float32 a =>
      cases w with
      | float32 b => rfl
      | _ => simp [Scalar.sameNumber] at same
    | float64 a =>
      cases w with
      | float64 b => rfl
      | _ => simp [Scalar.sameNumber] at same
    | _ => contradiction

/-- Only what is not a number does not equal itself, and that equals nothing. -/
theorem sameNumber_self {v w : Scalar} (same : v.sameNumber w = true) : w.sameNumber w = true := by
  rcases sameNumber_eq same with rfl | ⟨-, zero⟩
  · exact same
  · cases w with
    | float32 b =>
      simp only [IsZero] at zero
      simp [Scalar.sameNumber, FloatFormat.sameNumber, FloatFormat.isNaN, zero]
    | float64 b =>
      simp only [IsZero] at zero
      simp [Scalar.sameNumber, FloatFormat.sameNumber, FloatFormat.isNaN, zero]
    | _ => exact zero.elim

/-- Only a zero can lose anything: its sign, to a default that is the other zero. -/
theorem settleDefault_eq (f : RecordField) (value : Value) :
    settleDefault schema forced f value = value ∨ ∃ v type default, value = .scalar v ∧
      schema.scalarOf f = .ok (type, default) ∧ IsZero v ∧ IsZero default ∧
      settleDefault schema forced f value = .scalar default := by
  simp only [settleDefault]
  split
  next type default v found =>
    by_cases same : (!forced && v.sameNumber default) = true
    · rw [if_pos same]
      rcases sameNumber_eq (Bool.and_eq_true_iff.1 same).2 with rfl | zeros
      · exact .inl rfl
      · exact .inr ⟨v, type, default, rfl, found, zeros.1, zeros.2, rfl⟩
    · rw [if_neg same]
      exact .inl rfl
  next => exact .inl rfl

end Normal

section Collecting

variable {α : Type} (label : α → String) {items : List α} {r : Record} {name : String}

/-- The values of some items, each under its item's name. -/
def collected (items : List α) (value : α → Option Value) (r : Record) : Record :=
  items.foldl (fun r item =>
    match value item with
    | some v => r.set (label item) v
    | none => r) r

theorem find_label (distinct : (items.map label).Nodup) {item : α} (mem : item ∈ items) :
    items.find? (label · == label item) = some item := by
  induction items with
  | nil => cases mem
  | cons first rest ih =>
    obtain ⟨fresh, distinct⟩ := List.nodup_cons.1 distinct
    rcases List.mem_cons.1 mem with rfl | mem
    · simp
    · have other : label first ≠ label item :=
        fun same => fresh (List.mem_map.2 ⟨item, mem, same.symm⟩)
      rw [List.find?_cons_of_neg (by simpa using other), ih distinct mem]

theorem find_label_none (missing : name ∉ items.map label) :
    items.find? (label · == name) = none := by
  rw [List.find?_eq_none]
  intro item mem same
  exact missing (List.mem_map.2 ⟨item, mem, by simpa using same⟩)

theorem get?_collected (value : α → Option Value) (distinct : (items.map label).Nodup) :
    (collected label items value r).get? name =
      ((items.find? (label · == name)).bind value).or (r.get? name) := by
  induction items generalizing r with
  | nil => simp [collected]
  | cons item rest ih =>
    obtain ⟨fresh, distinct⟩ := List.nodup_cons.1 distinct
    have step : collected label (item :: rest) value r = collected label rest value
        (match value item with | some v => r.set (label item) v | none => r) := rfl
    rw [step, ih distinct]
    by_cases same : label item = name
    · subst same
      rw [find_label_none label fresh, List.find?_cons_of_pos (by simp), Option.bind_some]
      cases value item <;> simp [Record.get?_set]
    · rw [List.find?_cons_of_neg (by simpa using same)]
      cases value item <;> simp [Record.get?_set, same]

theorem sorted_collected (value : α → Option Value) (sorted : r.Sorted) :
    (collected label items value r).Sorted := by
  induction items generalizing r with
  | nil => exact sorted
  | cons item rest ih =>
    apply ih
    dsimp only
    split
    · exact Record.sorted_set sorted
    · exact sorted

variable (schema : Schema) (forced : Bool)

/-- The default of a scalar or enumeration field, as a value. -/
def defaultValue (f : RecordField) : Option Value :=
  match schema.scalarOf f with
  | .ok (_, default) => some (.scalar default)
  | .error _ => none

theorem get?_withDefaults {type : RecordType} (distinct : (type.liveFields.map (·.name)).Nodup) :
    (withDefaults schema type r).get? name =
      (r.get? name).or
        ((type.liveFields.find? (·.name == name)).bind (defaultValue schema)) := by
  simp only [withDefaults]
  generalize type.liveFields = fields at distinct
  induction fields generalizing r with
  | nil => simp
  | cons f rest ih =>
    obtain ⟨fresh, distinct⟩ := List.nodup_cons.1 distinct
    rw [List.foldl_cons, ih distinct]
    by_cases same : f.name = name
    · subst same
      rw [find_label_none _ fresh, List.find?_cons_of_pos (by simp), Option.bind_some, defaultValue]
      split
      · simp [Record.get?_set_absent]
      · simp
    · rw [List.find?_cons_of_neg (by simpa using same)]
      split
      · simp [Record.get?_set_absent, same]
      · rfl

theorem sorted_withDefaults {type : RecordType} (sorted : r.Sorted) :
    (withDefaults schema type r).Sorted := by
  simp only [withDefaults]
  generalize type.liveFields = fields
  induction fields generalizing r with
  | nil => exact sorted
  | cons f rest ih =>
    apply ih
    dsimp only
    split
    · split
      · exact sorted
      · exact Record.sorted_set sorted
    · exact sorted

theorem names_normalEntries (type : RecordType) (r : Record) :
    (normalEntries schema forced type r).map (·.1) = r.map (·.1) := by
  induction r with
  | nil => rfl
  | cons entry rest ih => simp only [normalEntries, List.map_cons, ih]

theorem sorted_normalEntries (type : RecordType) (sorted : r.Sorted) :
    Record.Sorted (normalEntries schema forced type r) :=
  Record.sorted_of_names (names_normalEntries schema forced type r) sorted

theorem get?_normalEntries (type : RecordType) (r : Record) (name : String) :
    Record.get? (normalEntries schema forced type r) name = (r.get? name).map fun v =>
      match type.field? name with
      | some f => settleDefault schema forced f (normal schema forced f.type v)
      | none => v := by
  induction r with
  | nil => rfl
  | cons entry rest ih =>
    rw [normalEntries, Record.get?_cons, Record.get?_cons, ih]
    by_cases same : entry.1 = name
    · subst same
      simp
    · simp [same]

/-- What a field of a written record reads as. -/
def fieldValue (r : Record) (f : RecordField) : Option Value :=
  match r.get? f.name with
  | some v => some (settleDefault schema forced f (normal schema forced f.type v))
  | none => defaultValue schema f

/-- The values of the fields, collected, are the normal form. -/
theorem collected_eq_normal {type : RecordType} (distinct : (type.fields.map (·.name)).Nodup)
    (sorted : r.Sorted) (known : ∀ entry ∈ r, ∃ f ∈ type.liveFields, f.name = entry.1) :
    collected RecordField.name type.liveFields (fieldValue schema forced r) [] =
      withDefaults schema type (normalEntries schema forced type r) := by
  have live : (type.liveFields.map (·.name)).Nodup :=
    List.Nodup.sublist (List.Sublist.map _ List.filter_sublist) distinct
  apply Record.sorted_ext (sorted_collected _ _ List.Pairwise.nil)
    (sorted_withDefaults schema (sorted_normalEntries schema forced type sorted))
  intro name
  rw [get?_collected _ _ live, get?_withDefaults schema live, get?_normalEntries]
  cases found : r.get? name with
  | none =>
    cases field : type.liveFields.find? (·.name == name) with
    | none => rfl
    | some f =>
      have same : f.name = name := by simpa using List.find?_some field
      simp [fieldValue, same, found]
  | some v =>
    obtain ⟨f, mem, same⟩ := known _ (Record.mem_of_get? found)
    have same : f.name = name := same
    subst same
    have whole : type.field? f.name = some f :=
      find_label _ distinct (List.mem_of_mem_filter mem)
    rw [find_label _ live mem]
    simp [fieldValue, found, whole]

end Collecting

end FlatRecord
