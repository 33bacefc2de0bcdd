import FlatRecord.Proofs.Reading.Bounds
import FlatRecord.Proofs.Reading.Machine

/-! Reading untrusted bytes is safe: whatever they are, no sum overflows and nothing outside the buffer is
looked at, and it is the bytes that are blamed. -/
namespace FlatRecord

open Reading Machine

/-- A buffer that fits into memory, where no sequence of bytes is longer. -/
def Addressable (buf : Bytes) : Prop := buf.size < 2 ^ 63

/-- The checked reader does not overflow, and is the reader, which gives something good or blames the
bytes. -/
structure Sane (m : Checked α) (x : Except Error α) (good : α → Prop) : Prop where
  same : m.run = some x
  reads : Reads x good

section Sane

variable {m : Checked α} {x : Except Error α} {good : α → Prop} {a b : Nat}

theorem sane_lift (reads : Reads x good) : Sane (lift x) x good := ⟨rfl, reads⟩

theorem sane_return {a : α} (holds : good a) : Sane (pure a) (.ok a) good := ⟨rfl, holds⟩

theorem sane_corrupt (pos : Nat) (defect : Defect) :
    Sane (throw (.corrupt pos defect)) (.error (.corrupt pos defect)) good := ⟨rfl, trivial⟩

theorem sane_bind {f : α → Checked β} {g : α → Except Error β} {good' : β → Prop}
    (first : Sane m x good) (second : ∀ a, good a → Sane (f a) (g a) good') :
    Sane (m >>= f) (x >>= g) good' := by
  obtain ⟨same, reads⟩ := first
  cases x with
  | ok a =>
    obtain ⟨same', reads'⟩ := second a reads
    refine ⟨?_, reads'⟩
    rw [ExceptT.run_bind, same]
    exact same'
  | error e =>
    refine ⟨?_, reads⟩
    rw [ExceptT.run_bind, same]
    rfl

theorem sane_known {a : α} {f : α → Checked β} {g : α → Except Error β} {good : β → Prop}
    (rest : Sane (f a) (g a) good) : Sane (lift (.ok a) >>= f) (.ok a >>= g) good := rest

theorem Sane.found (sane : Sane m x good) : Sane m x fun a => x = .ok a ∧ good a :=
  ⟨sane.same, sane.reads.found⟩

theorem Sane.mono {good' : α → Prop} (sane : Sane m x good) (weaker : ∀ a, good a → good' a) :
    Sane m x good' := ⟨sane.same, sane.reads.mono weaker⟩

theorem sane_map {f : α → β} {good' : β → Prop} (sane : Sane m x good)
    (holds : ∀ a, good a → good' (f a)) : Sane (f <$> m) (f <$> x) good' := by
  rw [map_eq_pure_bind, map_eq_pure_bind]
  exact sane_bind sane fun a here => sane_return (holds a here)

theorem sane_add {f : Nat → Checked α} (fits : a + b ≤ largestWord) (rest : Sane (f (a + b)) x good) :
    Sane (add a b >>= f) x good := by
  rw [add, if_pos fits]
  exact rest

theorem sane_mul {f : Nat → Checked α} (fits : a * b ≤ largestWord) (rest : Sane (f (a * b)) x good) :
    Sane (mul a b >>= f) x good := by
  rw [mul, if_pos fits]
  exact rest

theorem sane_check {c : Prop} [Decidable c] {pos : Nat} {defect : Defect}
    (rest : ¬c → Sane m x good) :
    Sane (if c then throw (.corrupt pos defect) else m)
      (if c then .error (.corrupt pos defect) else x) good := by
  by_cases fails : c
  · rw [if_pos fails, if_pos fails]
    exact sane_corrupt pos defect
  · rw [if_neg fails, if_neg fails]
    exact rest fails

theorem sane_option {f : β → Checked α} {g : β → Except Error α} {option : Option β}
    (each : ∀ b, option = some b → Sane (f b) (g b) good) :
    Sane (option.mapM f) (option.mapM g) fun result => ∀ a, result = some a → good a := by
  cases option with
  | none => exact sane_return fun _ same => nomatch same
  | some b =>
    rw [Option.mapM_some, Option.mapM_some]
    apply sane_map (each b rfl)
    intro a here a' same
    cases same
    exact here

end Sane

section Steps

variable {buf : Bytes} {pos : Nat}

theorem text_sane (addressable : Addressable buf) (pos : Nat) :
    Sane (Machine.text buf pos) (Reading.text buf pos) fun _ => True := by
  simp only [Addressable] at addressable
  rw [text_eq]
  apply sane_bind (sane_lift (nat_reads buf pos offsetSize))
  intro length room
  apply sane_add (by simp only [largestWord]; omega)
  cases last : buf[pos + offsetSize + length]? with
  | none => exact sane_corrupt _ _
  | some terminator =>
    obtain ⟨inside, _⟩ := Array.getElem?_eq_some_iff.1 last
    apply sane_check
    intro _
    rw [slice_ok (Nat.le_add_right _ _) (Nat.le_of_lt inside)]
    exact sane_lift (reads_ok trivial)

theorem vectorHeader_sane (addressable : Addressable buf) (pos size : Nat) :
    Sane (Machine.vectorHeader buf pos size) (Reading.vectorHeader buf pos size) fun header =>
      header.1 = pos + offsetSize ∧ header.1 + header.2 * size ≤ buf.size := by
  simp only [Addressable] at addressable
  rw [vectorHeader_eq]
  apply sane_bind (sane_lift (nat_reads buf pos offsetSize))
  intro length room
  apply sane_add (by simp only [largestWord]; omega)
  exact sane_check fun inside => sane_return ⟨rfl, Nat.not_lt.1 inside⟩

theorem readTable_sane (addressable : Addressable buf) (pos : Nat) :
    Sane (readTable buf pos) (Table.read buf pos) fun t => t.position = pos ∧ t.Within buf := by
  suffices exact : Sane (readTable buf pos) (Table.read buf pos) fun _ => True from
    ⟨exact.same, Table.read_reads buf pos⟩
  simp only [Addressable] at addressable
  rw [Table.read_eq]
  apply sane_bind (sane_lift (nat_reads buf pos offsetSize))
  intro distance here
  apply sane_check
  intro _
  apply sane_bind (sane_lift (nat_reads buf _ entrySize))
  intro length table
  simp only [offsetSize, entrySize] at here table
  apply sane_add (by simp only [largestWord, entrySize]; omega)
  apply sane_bind (sane_lift (nat_reads buf _ entrySize))
  intro inlineSize record
  simp only [entrySize] at record
  refine sane_add (by simp only [largestWord]; omega) (sane_add (by simp only [largestWord]; omega) ?_)
  exact sane_check fun _ => sane_check fun _ => sane_check fun _ => sane_return trivial

variable {t : Table} {slot size : Nat}

/-- The slots of a schema are among those that are words of two bytes. -/
theorem slot_lt (small : slot < slotLimit) : slot < 2 ^ 16 := by
  simp only [slotLimit, tableHeaderSize, entrySize] at small
  omega

theorem slotOffset_sane (addressable : Addressable buf) (within : t.Within buf)
    (small : slot < 2 ^ 16) :
    Sane (slotOffset buf t slot) (t.slotOffset buf slot) fun offset =>
      ∀ n, offset = some n → n < 2 ^ 16 := by
  suffices exact : Sane (slotOffset buf t slot) (t.slotOffset buf slot) fun _ => True from
    ⟨exact.same, Table.slotOffset_reads within slot⟩
  have inside := within.table
  simp only [Addressable] at addressable
  have limit : largestWord = 2 ^ 64 - 1 := rfl
  rw [Table.slotOffset_eq]
  apply sane_mul (by simp only [limit, entrySize]; omega)
  apply sane_add (by simp only [limit, tableHeaderSize, entrySize]; omega)
  apply sane_add (by simp only [limit, tableHeaderSize, entrySize]; omega)
  change Sane (if t.fieldTableLength < Table.entryOffset slot + entrySize then _ else _) _ _
  by_cases past : t.fieldTableLength < Table.entryOffset slot + entrySize
  · rw [if_pos past, if_pos past]
    exact sane_return trivial
  · rw [if_neg past, if_neg past]
    have entry : Table.entryOffset slot = tableHeaderSize + slot * entrySize := rfl
    rw [entry] at past ⊢
    refine sane_add (by simp only [limit]; omega) (sane_add (by simp only [limit]; omega) ?_)
    rw [slice_ok (Nat.le_add_right _ _) (by omega)]
    exact sane_known (sane_return trivial)

theorem fieldPosition_sane (addressable : Addressable buf) (within : t.Within buf)
    (small : slot < 2 ^ 16) (fits : t.Fits buf slot size) :
    Sane (fieldPosition buf t slot size) (t.fieldPosition buf slot size) fun place =>
      ∀ p, place = some p → t.position + offsetSize ≤ p ∧ p + size ≤ buf.size := by
  suffices exact : Sane (fieldPosition buf t slot size) (t.fieldPosition buf slot size)
      fun _ => True from ⟨exact.same, Table.fieldPosition_reads within fits⟩
  have table := within.table
  have record := within.record
  have limit : largestWord = 2 ^ 64 - 1 := rfl
  simp only [Addressable] at addressable
  rw [Table.fieldPosition_eq]
  apply sane_bind (slotOffset_sane addressable within small).found
  intro offset here
  cases offset with
  | none => exact sane_return trivial
  | some offset =>
    have near := here.2 offset rfl
    have word' : offset + size < 2 ^ 64 := fits offset here.1
    have exact' : word (offset + size) = offset + size := Nat.mod_eq_of_lt word'
    dsimp only
    rw [exact']
    apply sane_add (by simp only [limit]; omega)
    apply sane_mul (by simp only [limit, entrySize]; omega)
    apply sane_add (by simp only [limit, tableHeaderSize, entrySize]; omega)
    apply sane_add (by simp only [limit, tableHeaderSize, entrySize]; omega)
    refine sane_check fun _ => sane_add ?_ (sane_return trivial)
    simp only [limit]
    omega

theorem bytesAt_sane (addressable : Addressable buf) (inside : pos + size ≤ buf.size) :
    Sane (Machine.bytesAt buf pos size) (slice buf pos (pos + size)) fun bytes =>
      bytes.size = size := by
  simp only [Addressable] at addressable
  apply sane_add (by simp only [largestWord]; omega)
  rw [slice_ok (Nat.le_add_right _ _) inside]
  exact sane_lift (reads_ok (size_slice inside))

theorem target_sane (addressable : Addressable buf) (within : t.Within buf)
    (small : slot < 2 ^ 16) :
    Sane (target buf t slot) (t.target buf slot) fun place =>
      ∀ p, place = some p → t.position < p := by
  apply sane_bind (fieldPosition_sane addressable within small (within.fits (by decide)))
  intro place found
  refine sane_option fun pos here => sane_lift ((follow_reads buf pos).mono fun p forward => ?_)
  have behind := (found pos here).1
  omega

end Steps

/-- What is known of an element that was met behind position `start`. -/
def ElementView.Good (schema : Schema) (buf : Bytes) (start : Nat) : ElementView → Prop
  | .scalar _ | .text _ => True
  | .record name t => t.Within buf ∧ start < t.position ∧ ∃ type, schema.record name = .ok type
  | .struct type bytes => bytes.size = type.size ∧ type.LaidOut

def ResolvedElement.Known (schema : Schema) : ResolvedElement → Prop
  | .record name => ∃ type, schema.record name = .ok type
  | .struct type => type.LaidOut
  | .scalar _ | .text => True

structure FieldVector.Good (schema : Schema) (buf : Bytes) (start : Nat) (v : FieldVector) :
    Prop where
  behind : start < v.start
  inside : v.start + v.length * v.element.inlineSize ≤ buf.size
  known : v.element.Known schema

def FieldView.Good (schema : Schema) (buf : Bytes) (start : Nat) : FieldView → Prop
  | .absent => True
  | .single e => e.Good schema buf start
  | .vector v => v.Good schema buf start

section Views

variable {buf : Bytes} {schema : Schema} {t : Table} {f : RecordField} {pos size start : Nat}

theorem good_ofOption {e : Option ElementView} (good : ∀ v, e = some v → v.Good schema buf start) :
    (Table.ofOption e).Good schema buf start := by
  cases e with
  | none => trivial
  | some v => exact good v rfl

/-- A field that is an offset, if it leads to something good. -/
theorem offset_sane (addressable : Addressable buf) (within : t.Within buf)
    (small : f.slot < slotLimit) {g : Nat → Checked α} {g' : Nat → Except Error α}
    {view : α → ElementView}
    (each : ∀ p, t.position < p →
      Sane (g p) (g' p) fun a => (view a).Good schema buf t.position) :
    Sane (do return Table.ofOption ((← (← target buf t f.slot).mapM g).map view))
      (do return Table.ofOption ((← (← t.target buf f.slot).mapM g').map view))
      (·.Good schema buf t.position) := by
  apply sane_bind (target_sane addressable within (slot_lt small))
  intro place forward
  apply sane_bind (sane_option fun p here => each p (forward p here))
  intro result good
  refine sane_return (good_ofOption fun v here => ?_)
  obtain ⟨a, found, rfl⟩ := Option.map_eq_some_iff.1 here
  exact good a found

theorem element_known {element : ElementType} (kind : f.type = .vector element)
    (valid : f.Valid schema) (out : schema.LaidOut) : Reads (element.resolve schema) (·.Known schema) := by
  simp only [RecordField.Valid] at valid
  cases element with
  | scalar | text => trivial
  | record name =>
    simp only [kind] at valid
    obtain ⟨type, known⟩ := valid
    rw [ElementType.resolve, known]
    exact reads_ok ⟨type, known⟩
  | struct name =>
    simp only [kind] at valid
    obtain ⟨type, known⟩ := valid
    rw [ElementType.resolve, known]
    exact reads_ok (out.struct known)

theorem field_sane (addressable : Addressable buf) (within : t.Within buf)
    (small : f.slot < slotLimit) (valid : f.Valid schema) (out : schema.LaidOut) :
    Sane (field buf t schema f) (t.field buf schema f) (·.Good schema buf t.position) := by
  have isValid := valid
  simp only [RecordField.Valid] at valid
  simp only [field, Table.field]
  cases kind : f.type with
  | scalar | enumeration =>
    simp only [kind] at valid
    obtain ⟨default, scalar⟩ := valid
    dsimp only
    rw [scalar]
    apply sane_known
    dsimp only
    have narrow := default.type.size_le_eight
    apply sane_bind (fieldPosition_sane addressable within (slot_lt small) (within.fits (by omega)))
    intro place found
    cases place with
    | none => exact sane_return trivial
    | some pos =>
      apply sane_bind (bytesAt_sane addressable (found pos rfl).2)
      intro bytes _
      exact sane_return trivial
  | struct name =>
    simp only [kind] at valid
    obtain ⟨type, known⟩ := valid
    dsimp only
    rw [known]
    apply sane_known
    simp only [Table.struct?, bind_assoc]
    have laid := out.struct known
    apply sane_bind (fieldPosition_sane addressable within (slot_lt small) (within.fits laid.size_lt))
    intro place found
    apply sane_bind (sane_option fun pos here => bytesAt_sane addressable (found pos here).2)
    intro bytes good
    refine sane_return (good_ofOption fun v here => ?_)
    obtain ⟨a, found, rfl⟩ := Option.map_eq_some_iff.1 here
    exact ⟨good a found, laid⟩
  | text =>
    simp only [Table.text?, bind_assoc]
    exact offset_sane addressable within small fun p _ => text_sane addressable p
  | record name =>
    simp only [kind] at valid
    simp only [Table.record?, bind_assoc]
    apply offset_sane addressable within small
    intro p forward
    refine (readTable_sane addressable p).mono fun t here => ⟨here.2, ?_, valid⟩
    rw [here.1]
    exact forward
  | vector element =>
    dsimp only
    apply sane_bind (target_sane addressable within (slot_lt small))
    intro place forward
    cases place with
    | none => exact sane_return trivial
    | some p =>
      apply sane_bind (sane_lift (element_known kind isValid out))
      intro resolved known
      apply sane_bind (vectorHeader_sane addressable p resolved.inlineSize)
      intro header here
      have behind := forward p rfl
      refine sane_return ⟨?_, here.2, known⟩
      rw [here.1]
      exact Nat.lt_add_right _ behind

theorem element_sane (addressable : Addressable buf) {element : ResolvedElement}
    (known : element.Known schema) (behind : start < pos)
    (inside : pos + element.inlineSize ≤ buf.size) :
    Sane (Machine.element buf pos element) (element.read buf pos) (·.Good schema buf start) := by
  cases element with
  | scalar type =>
    apply sane_bind (bytesAt_sane addressable inside)
    intro bytes _
    exact sane_return trivial
  | text =>
    apply sane_bind (sane_lift (follow_reads buf pos))
    intro p _
    apply sane_bind (text_sane addressable p)
    intro bytes _
    exact sane_return trivial
  | record name =>
    apply sane_bind (sane_lift (follow_reads buf pos))
    intro p forward
    refine sane_bind (readTable_sane addressable p) fun t here => sane_return ⟨here.2, ?_, known⟩
    omega
  | struct type =>
    apply sane_bind (bytesAt_sane addressable inside)
    intro bytes size
    exact sane_return ⟨size, known⟩

theorem get_sane (addressable : Addressable buf) {v : FieldVector} (good : v.Good schema buf start)
    {index : Nat} (below : index < v.length) :
    Sane (Machine.get buf v index) (v.get buf index) (·.Good schema buf start) := by
  have inside := FieldVector.element_le good.inside below
  have behind := good.behind
  have limit : largestWord = 2 ^ 64 - 1 := rfl
  have large : buf.size < 2 ^ 63 := addressable
  rw [FieldVector.get_eq, Machine.get, if_neg (Nat.not_le.2 below), if_neg (Nat.not_le.2 below)]
  refine sane_mul (by simp only [limit]; omega) (sane_add (by simp only [limit]; omega) ?_)
  exact element_sane addressable good.known (by omega) (by omega)

theorem ownedStruct_sane {type : StructType} {bytes : Bytes} (out : type.LaidOut) (whole : bytes.size = type.size) :
    Sane (Machine.ownedStruct type bytes) (Decoding.ownedStruct type bytes) fun _ => True := by
  obtain ⟨stop, inside, laid⟩ := out.laid
  have room : ∀ m ∈ type.layout, m.offset + m.type.size ≤ type.size :=
    fun m mem => Nat.le_trans (laid.member_le mem).2 inside
  have narrow := out.size_lt
  simp only [Machine.ownedStruct, Decoding.ownedStruct]
  generalize type.layout = members at room
  suffices general : ∀ r : Record, Sane
      (members.foldlM (fun r m => do
        return Record.set r m.name (.scalar (← Machine.member bytes m.offset m.type))) r)
      (members.foldlM (fun r m => do
        return Record.set r m.name (.scalar (← Reading.member bytes m.offset m.type))) r) fun _ => True from
    general []
  induction members with
  | nil => exact fun _ => sane_return trivial
  | cons m rest ih =>
    intro r
    have here := room m List.mem_cons_self
    have read : Sane (Machine.member bytes m.offset m.type) (Reading.member bytes m.offset m.type)
        fun _ => True := by
      apply sane_add (by simp only [largestWord]; omega)
      rw [Reading.member, if_pos (by omega), if_pos (by omega)]
      exact sane_return trivial
    rw [List.foldlM_cons, List.foldlM_cons]
    have next : Sane
        (do return Record.set r m.name (.scalar (← Machine.member bytes m.offset m.type)))
        (do return Record.set r m.name (.scalar (← Reading.member bytes m.offset m.type)))
        fun _ => True := sane_bind read fun v _ => sane_return trivial
    apply sane_bind next
    intro r' _
    exact ih (fun m' mem => room m' (List.mem_cons_of_mem _ mem)) r'

end Views

end FlatRecord
