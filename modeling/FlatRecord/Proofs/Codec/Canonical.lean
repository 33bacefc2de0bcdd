import FlatRecord.Proofs.Codec.Encoded

/-! Canonical records, which are what a decoder gives: every scalar at the type of its field, texts as text as
far as they are UTF-8, structs complete, and no default left out. They fit their schema, and their normal
forms are no different from them. -/
namespace FlatRecord

open Builder Encoding Decoding

section Collects

variable {α : Type} (label : α → String) (good : α → Value → Prop) (needed : α → Prop)

/-- Values of some items, each under its item's label and good for its item, and none that is needed missing. -/
structure Collects (items : List α) (r : Record) : Prop where
  sorted : r.Sorted
  entries : ∀ entry ∈ r, ∃ item ∈ items, label item = entry.1 ∧ good item entry.2
  filled : ∀ item ∈ items, needed item → ∃ v, r.get? (label item) = some v

theorem collects_nil : Collects label good needed [] [] :=
  ⟨.nil, by simp, by simp⟩

variable {label good needed} {items : List α} {r : Record} {item : α} {v : Value}

theorem Collects.set (collects : Collects label good needed items r) (holds : good item v) :
    Collects label good needed (items ++ [item]) (r.set (label item) v) := by
  refine ⟨Record.sorted_set collects.sorted, ?_, ?_⟩
  · intro entry mem
    rcases Record.mem_set mem with rfl | old
    · exact ⟨item, by simp, rfl, holds⟩
    · obtain ⟨other, among, same, holds⟩ := collects.entries entry old
      exact ⟨other, List.mem_append_left _ among, same, holds⟩
  · intro other mem wanted
    rw [Record.get?_set]
    split
    next => exact ⟨v, rfl⟩
    next apart =>
      rcases List.mem_append.1 mem with old | new
      · exact collects.filled other old wanted
      · exact absurd (congrArg label (List.mem_singleton.1 new)).symm apart

theorem Collects.skip (collects : Collects label good needed items r) (unneeded : ¬needed item) :
    Collects label good needed (items ++ [item]) r := by
  refine ⟨collects.sorted, ?_, ?_⟩
  · intro entry mem
    obtain ⟨other, among, same, holds⟩ := collects.entries entry mem
    exact ⟨other, List.mem_append_left _ among, same, holds⟩
  · intro other mem wanted
    rcases List.mem_append.1 mem with old | new
    · exact collects.filled other old wanted
    · exact absurd (List.mem_singleton.1 new ▸ wanted) unneeded

/-- The value under an item's label is that item's. -/
theorem Collects.found (collects : Collects label good needed items r)
    (distinct : (items.map label).Nodup) (mem : item ∈ items) (found : r.get? (label item) = some v) :
    good item v := by
  obtain ⟨other, among, same, holds⟩ := collects.entries _ (Record.mem_of_get? found)
  rwa [← List.inj_on_of_nodup_map distinct among mem same]

end Collects

section Definitions

variable (schema : Schema) (child : String → Record → Prop)

/-- All members of the struct, each at its type. -/
def StructCanonical (s : StructType) (entries : Record) : Prop :=
  Collects Member.name (fun m v => ∃ w : Scalar, v = .scalar w ∧ w.type = m.type) (fun _ => True)
    s.layout entries

inductive ElementCanonical : ElementType → Value → Prop where
  | scalar {v : Scalar} : ElementCanonical (.scalar v.type) (.scalar v)
  | text {bytes : Bytes} : ElementCanonical .text (ownedText bytes)
  | record {name : String} {r : Record} (canonical : child name r) :
      ElementCanonical (.record name) (.record r)
  | struct {name : String} {s : StructType} {entries : Record} (known : schema.struct name = .ok s)
      (canonical : StructCanonical s entries) : ElementCanonical (.struct name) (.struct entries)

inductive FieldCanonical (f : RecordField) : Value → Prop where
  | scalar {v default : Scalar} (stored : schema.scalarOf f = .ok (v.type, default)) :
      FieldCanonical f (.scalar v)
  | single {type : ElementType} {v : Value} (kind : f.type = type.asField)
      (other : ∀ t, type ≠ .scalar t) (canonical : ElementCanonical schema child type v) :
      FieldCanonical f v
  | vector {type : ElementType} {items : List Value} (kind : f.type = .vector type)
      (each : ∀ item ∈ items, ElementCanonical schema child type item) : FieldCanonical f (.vector items)

/-- The values of live fields, with one for every scalar. -/
def RecordCanonical (name : String) (r : Record) : Prop :=
  ∃ type, schema.record name = .ok type ∧
    Collects RecordField.name (FieldCanonical schema child)
      (fun f => ∃ answer, schema.scalarOf f = .ok answer) type.liveFields r

/-- Records nested less than `levels` deep. -/
def LevelsCanonical : (levels : Nat) → String → Record → Prop
  | 0 => fun _ _ => False
  | levels + 1 => RecordCanonical schema (LevelsCanonical levels)

end Definitions

variable {schema : Schema} {child : String → Record → Prop} {type : ElementType} {f : RecordField}
  {v : Value} {name : String} {r : Record} {levels : Nat}

/-- What holds of all values that have no parts, and of the others if it holds of their parts. -/
theorem FieldCanonical.elim {P : Value → Prop} (scalar : ∀ v, P (.scalar v))
    (text : ∀ bytes, P (ownedText bytes)) (record : ∀ name r, child name r → P (.record r))
    (struct : ∀ s entries, StructCanonical s entries → P (.struct entries))
    (vector : ∀ items, (∀ item ∈ items, P item) → P (.vector items))
    (canonical : FieldCanonical schema child f v) : P v := by
  have element {type : ElementType} {v : Value} (canonical : ElementCanonical schema child type v) :
      P v := by
    cases canonical with
    | scalar => exact scalar _
    | text => exact text _
    | record canonical => exact record _ _ canonical
    | struct _ canonical => exact struct _ _ canonical
  cases canonical with
  | scalar => exact scalar _
  | single _ _ canonical => exact element canonical
  | vector _ each => exact vector _ fun item mem => element (each item mem)

section Ordered

theorem StructCanonical.ordered {s : StructType} {entries : Record}
    (canonical : StructCanonical s entries) : Value.Ordered (.struct entries) := by
  refine ⟨canonical.sorted, Value.orderedEntries_iff.2 fun entry mem => ?_⟩
  obtain ⟨m, -, -, w, scalar, -⟩ := canonical.entries entry mem
  rw [scalar]
  trivial

theorem FieldCanonical.ordered (children : ∀ name r, child name r → Record.Ordered r)
    (canonical : FieldCanonical schema child f v) : v.Ordered := by
  apply canonical.elim
  · exact fun _ => trivial
  · intro bytes
    rw [ownedText]
    split <;> trivial
  · exact children
  · exact fun _ _ => StructCanonical.ordered
  · exact fun items => Value.orderedItems_iff.2

theorem LevelsCanonical.ordered (canonical : LevelsCanonical schema levels name r) :
    Record.Ordered r := by
  induction levels generalizing name r with
  | zero => exact canonical.elim
  | succ levels ih =>
    obtain ⟨type, -, collects⟩ := canonical
    refine ⟨collects.sorted, Value.orderedEntries_iff.2 fun entry mem => ?_⟩
    obtain ⟨f, -, -, canonical⟩ := collects.entries entry mem
    exact canonical.ordered fun _ _ => ih

end Ordered

section Levels

theorem FieldCanonical.levels_le {n : Nat} (children : ∀ name r, child name r → Value.levelsEntries r < n)
    (canonical : FieldCanonical schema child f v) : v.levels ≤ n := by
  apply canonical.elim
  · exact fun _ => Nat.zero_le n
  · intro bytes
    rw [ownedText]
    split <;> exact Nat.zero_le n
  · exact children
  · exact fun _ _ _ => Nat.zero_le n
  · exact fun items => Value.levelsItems_le.2

theorem LevelsCanonical.levels_lt (canonical : LevelsCanonical schema levels name r) :
    Value.levelsEntries r < levels := by
  induction levels generalizing name r with
  | zero => exact canonical.elim
  | succ levels ih =>
    obtain ⟨type, -, collects⟩ := canonical
    refine Nat.lt_succ_of_le (Value.levelsEntries_le.2 fun entry mem => ?_)
    obtain ⟨f, -, -, canonical⟩ := collects.entries entry mem
    exact canonical.levels_le fun _ _ => ih

end Levels

section Fits

theorem convert_same (v : Scalar) : v.convert? v.type = some v := if_pos rfl

theorem fieldScalar_stored (v : Scalar) : fieldScalar schema f v.type (.scalar v) = .ok v :=
  coerce_eq_ok.2 (convert_same v)

/-- A scalar of its field's type is in normal form. -/
theorem normal_stored {w default : Scalar} (forced : Bool)
    (stored : schema.scalarOf f = .ok (w.type, default)) :
    normal schema forced f.type (.scalar w) = .scalar w :=
  (fieldScalar_normal forced stored (fieldScalar_stored w)).2

/-- A struct that has members has a size. -/
theorem StructType.LaidOut.size_pos {s : StructType} (out : s.LaidOut) (some : s.members ≠ []) : 0 < s.size := by
  obtain ⟨stop, inside, laid⟩ := out.laid
  have filled : s.layout ≠ [] := by
    intro none
    have names := s.names_layout
    rw [none] at names
    exact some (List.map_eq_nil_iff.1 names.symm)
  obtain ⟨m, mem⟩ := List.exists_mem_of_ne_nil _ filled
  have room := (laid.member_le mem).2
  have positive := m.type.size_pos
  omega

theorem StructType.LaidOut.members_of_size {s : StructType} (out : s.LaidOut) (nothing : s.size = 0) :
    s.members = [] := by
  by_contra some
  exact absurd nothing (Nat.ne_of_gt (out.size_pos some))

theorem StructCanonical.fits {s : StructType} {entries : Record} (canonical : StructCanonical s entries)
    (distinct : (s.members.map (·.1)).Nodup) : StructFits s (.struct entries) := by
  have names := StructType.nodup_layout distinct
  refine ⟨entries, .inl rfl, ?_, ?_⟩
  · intro entry mem
    obtain ⟨m, among, same, -⟩ := canonical.entries entry mem
    rw [StructType.member?, ← same, find_label _ names among]
    exact Option.some_ne_none m
  · intro m mem
    obtain ⟨v, found⟩ := canonical.filled m mem trivial
    obtain ⟨w, rfl, type⟩ := canonical.found names mem found
    exact ⟨w, memberValue_eq_ok.2 ⟨w, found, type ▸ convert_same w⟩⟩

variable {fit : String → Record → Prop} {n : Nat}

theorem ElementCanonical.fits (names : schema.DistinctNames)
    (children : ∀ name r, child name r → Record.depth r ≤ n → fit name r)
    (canonical : ElementCanonical schema child type v) (deep : v.depth ≤ n) :
    ElementFits schema false fit type v := by
  cases canonical with
  | scalar => exact .scalar (convert_same _)
  | text =>
    apply ElementFits.text
    rw [ownedText]
    split
    · trivial
    · intro strict
      cases strict
  | record canonical => exact .record (children _ _ canonical deep)
  | struct known canonical =>
    exact .struct known (canonical.fits (names.structs _ (Schema.struct_mem known)))

/-- The elements of a field's vector have a type, and a size. -/
theorem element_sized (valid : f.Valid schema) (sized : ∀ s ∈ schema.structs, 0 < s.size)
    (kind : f.type = .vector type) :
    ∃ element, type.resolve schema = .ok element ∧ element.inlineSize ≠ 0 := by
  simp only [RecordField.Valid, kind] at valid
  cases type with
  | scalar t => exact ⟨_, rfl, Nat.ne_of_gt t.size_pos⟩
  | text => exact ⟨_, rfl, Nat.succ_ne_zero 3⟩
  | record name =>
    obtain ⟨record, known⟩ := valid
    exact ⟨.record name, by rw [ElementType.resolve, known]; rfl, Nat.succ_ne_zero 3⟩
  | struct name =>
    obtain ⟨s, known⟩ := valid
    exact ⟨.struct s, by rw [ElementType.resolve, known]; rfl, Nat.ne_of_gt (sized s (Schema.struct_mem known))⟩

theorem FieldCanonical.fits (valid : f.Valid schema) (names : schema.DistinctNames)
    (sized : ∀ s ∈ schema.structs, 0 < s.size)
    (children : ∀ name r, child name r → Record.depth r ≤ n → fit name r)
    (canonical : FieldCanonical schema child f v) (deep : v.depth ≤ n) :
    FieldFits schema false fit f v := by
  cases canonical with
  | @scalar v default stored =>
    rcases scalarOf_type stored with ⟨_, kind⟩ | ⟨_, kind⟩
    all_goals
      simp only [FieldFits, kind]
      exact ⟨_, _, _, stored, fieldScalar_stored v⟩
  | vector kind each =>
    simp only [FieldFits, kind]
    refine ⟨_, rfl, element_sized valid sized kind, fun item mem => ?_⟩
    exact (each item mem).fits names children (Value.depthItems_le.1 deep item mem)
  | single kind other canonical =>
    have element := canonical.fits names children deep
    cases element with
    | scalar => exact absurd rfl (other _)
    | text fits =>
      simp only [FieldFits, kind, ElementType.asField]
      exact fits
    | record fits =>
      simp only [FieldFits, kind, ElementType.asField]
      exact ⟨_, rfl, fits⟩
    | struct known fits =>
      simp only [FieldFits, kind, ElementType.asField]
      exact ⟨_, known, fits⟩

/-- A canonical record fits its schema at its own depth. -/
theorem LevelsCanonical.fits (valid : schema.Valid) (names : schema.DistinctNames)
    (sized : ∀ s ∈ schema.structs, 0 < s.size) (canonical : LevelsCanonical schema levels name r)
    (deep : Record.depth r ≤ n) : LevelsFit schema false n name r := by
  induction levels generalizing name r n with
  | zero => exact canonical.elim
  | succ levels ih =>
    obtain ⟨record, known, collects⟩ := canonical
    have mem := Schema.record_mem known
    have distinct := names.records record mem
    cases n with
    | zero => exact absurd deep (Nat.not_succ_le_zero _)
    | succ n =>
      refine ⟨record, known, ?_, ?_⟩
      · apply checkNames_ok distinct
        intro entry among
        obtain ⟨f, present, same, -⟩ := collects.entries entry among
        exact ⟨f, present, same⟩
      · intro f present v found
        have field := (valid.records record mem).fields f (List.mem_of_mem_filter present)
        have canonical := collects.found (names.live known) present found
        have deep := Nat.le_of_succ_le_succ deep
        exact canonical.fits field names sized (fun _ _ => ih)
          (Value.depthEntries_le.1 deep _ (Record.mem_of_get? found))

end Fits

section Alike

/-- The same pattern of bits, or zeros of one type. -/
def Scalar.Alike (a b : Scalar) : Prop := a = b ∨ a.type = b.type ∧ IsZero a ∧ IsZero b

namespace Value

mutual

/-- Equal but for the signs of zeros. -/
def Alike : Value → Value → Prop
  | scalar a, scalar b => a.Alike b
  | text a, text b => a = b
  | bytes a, bytes b => a = b
  | vector a, vector b => AlikeItems a b
  | record a, record b => AlikeEntries a b
  | struct a, struct b => AlikeEntries a b
  | _, _ => False

def AlikeItems : List Value → List Value → Prop
  | [], [] => True
  | a :: as, b :: bs => a.Alike b ∧ AlikeItems as bs
  | _, _ => False

def AlikeEntries : List (String × Value) → List (String × Value) → Prop
  | [], [] => True
  | (m, a) :: as, (n, b) :: bs => m = n ∧ a.Alike b ∧ AlikeEntries as bs
  | _, _ => False

end

end Value

def Record.Alike (a b : Record) : Prop := Value.AlikeEntries a b

theorem alikeItems_map {items : List Value} {g : Value → Value} (each : ∀ v ∈ items, (g v).Alike v) :
    Value.AlikeItems (items.map g) items := by
  induction items with
  | nil => trivial
  | cons first rest ih =>
    obtain ⟨first, rest⟩ := List.forall_mem_cons.1 each
    exact ⟨first, ih rest⟩

theorem alikeEntries_map {entries : Record} {g : String × Value → String × Value}
    (each : ∀ entry ∈ entries, (g entry).1 = entry.1 ∧ (g entry).2.Alike entry.2) :
    Record.Alike (entries.map g) entries := by
  induction entries with
  | nil => trivial
  | cons first rest ih =>
    obtain ⟨first, rest⟩ := List.forall_mem_cons.1 each
    exact ⟨first.1, first.2, ih rest⟩

variable {forced : Bool}

/-- Its members are of their types already. -/
theorem StructCanonical.normal_same {s : StructType} {entries : Record}
    (canonical : StructCanonical s entries) (distinct : (s.members.map (·.1)).Nodup) :
    entries.map (normalMember s) = entries := by
  have names := StructType.nodup_layout distinct
  refine (List.map_congr_left fun entry mem => ?_).trans (List.map_id entries)
  obtain ⟨m, among, same, w, scalar, type⟩ := canonical.entries _ mem
  have found : s.member? entry.1 = some m := same ▸ find_label _ names among
  obtain ⟨label, v⟩ := entry
  cases scalar
  simp [normalMember, found, ← type, convert_same]

theorem StructCanonical.alike {s : StructType} {entries : Record}
    (canonical : StructCanonical s entries) (distinct : (s.members.map (·.1)).Nodup) :
    Record.Alike (entries.map (normalMember s)) entries := by
  have same : entries.map (normalMember s) = entries.map id := by
    rw [canonical.normal_same distinct, List.map_id]
  rw [same]
  apply alikeEntries_map
  intro entry mem
  obtain ⟨m, -, -, w, scalar, -⟩ := canonical.entries entry mem
  rw [id, scalar]
  exact ⟨rfl, .inl rfl⟩

theorem ElementCanonical.alike (names : schema.DistinctNames)
    (children : ∀ name r, child name r → Record.Alike (normalRecord schema forced name r) r)
    (canonical : ElementCanonical schema child type v) :
    (normal schema forced type.asField v).Alike v := by
  cases canonical with
  | scalar =>
    simp only [ElementType.asField, normal, convert_same]
    exact .inl rfl
  | @text bytes =>
    rw [ownedText]
    split
    next => exact rfl
    next none =>
      simp only [ElementType.asField, normal, ownedText, none]
      exact rfl
  | record canonical =>
    rw [ElementType.asField, normal_record]
    exact children _ _ canonical
  | struct known canonical =>
    simp only [ElementType.asField, normal, known]
    exact canonical.alike (names.structs _ (Schema.struct_mem known))

/-- A scalar can be settled to another zero, which is its default. -/
theorem settleDefault_alike (valid : f.Valid schema) {w default : Scalar}
    (stored : schema.scalarOf f = .ok (w.type, default)) :
    (settleDefault schema forced f (.scalar w)).Alike (.scalar w) := by
  rcases settleDefault_eq schema forced f (.scalar w) with same | ⟨v, t, zero, scalar, stored', both⟩
  · rw [same]
    exact .inl rfl
  · cases stored.symm.trans stored'
    cases scalar
    rw [both.2.2]
    exact .inr ⟨valid.default_type stored, both.2.1, both.1⟩

theorem FieldCanonical.alike (valid : f.Valid schema) (names : schema.DistinctNames)
    (children : ∀ name r, child name r → Record.Alike (normalRecord schema forced name r) r)
    (canonical : FieldCanonical schema child f v) :
    (settleDefault schema forced f (normal schema forced f.type v)).Alike v := by
  cases canonical with
  | @scalar v default stored =>
    rw [normal_stored forced stored]
    exact settleDefault_alike valid stored
  | @single type v kind other canonical =>
    rw [settleDefault_same (element_not_scalar kind other), kind]
    exact canonical.alike names children
  | vector kind each =>
    rw [settleDefault_same (not_scalar (by simp [kind]) (by simp [kind])), kind]
    simp only [normal, normalItems_eq]
    exact alikeItems_map fun item mem => (each item mem).alike names children

/-- No defaults are added where none are absent. -/
theorem withDefaults_filled {record : RecordType}
    (filled : ∀ f ∈ record.liveFields, ∀ answer, schema.scalarOf f = .ok answer → r.contains f.name) :
    withDefaults schema record r = r := by
  simp only [withDefaults]
  generalize record.liveFields = fields at filled
  induction fields with
  | nil => rfl
  | cons f rest ih =>
    obtain ⟨here, filled⟩ := List.forall_mem_cons.1 filled
    rw [List.foldl_cons]
    split
    next stored =>
      rw [if_pos (here _ stored)]
      exact ih filled
    next => exact ih filled

theorem normalEntries_eq (record : RecordType) (r : Record) :
    normalEntries schema forced record r = r.map fun entry => (entry.1,
      match record.field? entry.1 with
      | some f => settleDefault schema forced f (normal schema forced f.type entry.2)
      | none => entry.2) := by
  induction r with
  | nil => rfl
  | cons entry rest ih =>
    rw [normalEntries, ih]
    rfl

/-- A canonical record lacks no default, and neither do its entries' normal forms. -/
theorem withDefaults_canonical {record : RecordType}
    (collects : Collects RecordField.name (FieldCanonical schema child)
      (fun f => ∃ answer, schema.scalarOf f = .ok answer) record.liveFields r) :
    withDefaults schema record (normalEntries schema forced record r) =
      normalEntries schema forced record r := by
  apply withDefaults_filled
  intro f present answer stored
  obtain ⟨v, found⟩ := collects.filled f present ⟨answer, stored⟩
  rw [Record.contains, get?_normalEntries, found]
  rfl

/-- The normal form of a canonical record is no different from it. -/
theorem LevelsCanonical.alike (valid : schema.Valid) (names : schema.DistinctNames)
    (canonical : LevelsCanonical schema levels name r) :
    Record.Alike (normalRecord schema forced name r) r := by
  induction levels generalizing name r with
  | zero => exact canonical.elim
  | succ levels ih =>
    obtain ⟨record, known, collects⟩ := canonical
    have mem := Schema.record_mem known
    have distinct := names.records record mem
    simp only [normalRecord, known]
    rw [withDefaults_canonical collects, normalEntries_eq]
    apply alikeEntries_map
    intro entry among
    obtain ⟨f, present, same, canonical⟩ := collects.entries entry among
    have inside := List.mem_of_mem_filter present
    have found : record.field? entry.1 = some f := same ▸ find_label _ distinct inside
    have field := (valid.records record mem).fields f inside
    rw [found]
    exact ⟨rfl, canonical.alike field names fun _ _ => ih⟩

end Alike

end FlatRecord
