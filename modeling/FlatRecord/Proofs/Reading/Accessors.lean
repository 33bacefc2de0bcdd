import FlatRecord.Proofs.Reading.Bounds
import FlatRecord.Schema.Game

/-! Two ways to read a field: by its description in a schema, and by the accessor of its kind, which is told a
type or a size and asks no schema. They find the same or fail alike, element by element in vectors. -/
namespace FlatRecord

open Reading

/-- Related answers, or the same error. -/
inductive Agree (R : α → β → Prop) : Except Error α → Except Error β → Prop where
  | ok {a : α} {b : β} (related : R a b) : Agree R (.ok a) (.ok b)
  | error (e : Error) : Agree R (.error e) (.error e)

theorem agree_same {R : β → γ → Prop} {x : Except Error α} {f : α → Except Error β} {g : α → Except Error γ}
    (each : ∀ a, x = .ok a → Agree R (f a) (g a)) : Agree R (x >>= f) (x >>= g) := by
  cases x with
  | ok a => exact each a rfl
  | error e => exact .error e

/-- What an accessor has to be told of a field. No names are left in it. -/
inductive FieldShape where
  | scalar (type : ScalarType) (default : Scalar)
  | text
  | record
  | struct (size : Nat)
  | vector (type : ItemType)
  | structVector (stride : Nat)

/-- The shape of a field, if the names that it has to ask for are known. A single record is found without its type. -/
def Schema.shape (schema : Schema) (f : RecordField) : Except Error FieldShape :=
  match f.type with
  | .scalar _ | .enumeration _ => (schema.scalarOf f).map fun stored => .scalar stored.1 stored.2
  | .text => .ok .text
  | .record _ => .ok .record
  | .struct name => (schema.struct name).map fun s => .struct s.size
  | .vector (.scalar type) => .ok (.vector (.scalar type))
  | .vector .text => .ok (.vector .text)
  | .vector (.record name) => (schema.record name).map fun _ => .vector .record
  | .vector (.struct name) => (schema.struct name).map fun s => .structVector s.size

/-- What an accessor finds. -/
inductive Access where
  | absent
  | item (i : Item)
  | struct (bytes : Bytes)
  | vector (v : TypedVector)
  | structVector (v : StructVector)

/-- Something, or nothing. -/
def Access.ofOption (view : α → Access) (found : Option α) : Access := (found.map view).getD .absent

/-- The accessor of each kind of field. -/
def Table.access (buf : Bytes) (t : Table) (slot : Nat) : FieldShape → Except Error Access
  | .scalar type default =>
    (t.scalar? buf slot type).map fun found => .item (.scalar (found.getD default))
  | .text => (t.text? buf slot).map (.ofOption fun bytes => .item (.text bytes))
  | .record => (t.record? buf slot).map (.ofOption fun child => .item (.record child))
  | .struct size => (t.struct? buf slot size).map (.ofOption .struct)
  | .vector type => (t.vector? buf slot type).map (.ofOption .vector)
  | .structVector stride => (t.structVector? buf slot stride).map (.ofOption .structVector)

/-- A scalar with a default of its own type is what `scalarD` reads. -/
theorem Table.access_scalar (buf : Bytes) (t : Table) (slot : Nat) (default : Scalar) :
    t.access buf slot (.scalar default.type default) =
      (t.scalarD buf slot default).map fun v => .item (.scalar v) := by
  rw [access, scalarD]
  cases t.scalar? buf slot default.type <;> rfl

/-- The same value, whether or not the name of its type is known. -/
inductive ElementView.Gives : ElementView → Item → Prop where
  | scalar (v : Scalar) : Gives (.scalar v) (.scalar v)
  | text (bytes : Bytes) : Gives (.text bytes) (.text bytes)
  | record (name : String) (t : Table) : Gives (.record name t) (.record t)

/-- The same field. Vectors are the same if they have the same length and the same elements, at every index. -/
inductive FieldView.Gives (buf : Bytes) : FieldView → Access → Prop where
  | absent : Gives buf .absent .absent
  | single {e : ElementView} {i : Item} (gives : e.Gives i) : Gives buf (.single e) (.item i)
  | struct (s : StructType) (bytes : Bytes) : Gives buf (.single (.struct s bytes)) (.struct bytes)
  | vector {v : FieldVector} {w : TypedVector} (length : v.length = w.length)
      (each : ∀ i, Agree ElementView.Gives (v.get buf i) (w.get buf i)) :
      Gives buf (.vector v) (.vector w)
  | structVector {v : FieldVector} {w : StructVector} (length : v.length = w.length)
      (each : ∀ i, Agree (fun e bytes => ∃ s, e = .struct s bytes) (v.get buf i) (w.get buf i)) :
      Gives buf (.vector v) (.structVector w)

variable {buf : Bytes} {t : Table} {schema : Schema} {f : RecordField} {pos : Nat}

/-- Inside the buffer the checked read is the unchecked one. -/
theorem scalar_inside (type : ScalarType) (inside : pos + type.size ≤ buf.size) :
    Reading.scalar buf type pos =
      (slice buf pos (pos + type.size)).map fun bytes => Scalar.ofBytes type bytes.toList := by
  have width : (buf.extract pos (pos + type.size)).toList.length = type.size := size_slice inside
  rw [Reading.scalar, nat, if_pos inside, slice_ok (Nat.le_add_right _ _) inside]
  simp only [map_ok, Scalar.ofBytes]
  rw [List.take_of_length_le (Nat.le_of_eq width)]

section Elements

/-- An element type with its names, and without. -/
inductive ResolvedElement.Fits : ResolvedElement → ItemType → Prop where
  | scalar (type : ScalarType) : Fits (.scalar type) (.scalar type)
  | text : Fits .text .text
  | record (name : String) : Fits (.record name) .record

variable {element : ResolvedElement} {type : ItemType}

theorem ResolvedElement.Fits.inlineSize (fits : element.Fits type) :
    element.inlineSize = type.inlineSize := by
  cases fits <;> rfl

/-- Where there is room for the element, both read the same. -/
theorem ResolvedElement.Fits.reads (fits : element.Fits type)
    (inside : pos + element.inlineSize ≤ buf.size) :
    Agree ElementView.Gives (element.read buf pos) (type.read buf pos) := by
  cases fits with
  | scalar type =>
    have inside : pos + type.size ≤ buf.size := inside
    rw [ItemType.read, scalar_inside type inside, ResolvedElement.read,
      slice_ok (Nat.le_add_right _ _) inside]
    exact .ok (.scalar _)
  | text =>
    refine agree_same fun target _ => agree_same fun bytes _ => ?_
    exact .ok (.text bytes)
  | record name =>
    refine agree_same fun target _ => agree_same fun child _ => ?_
    exact .ok (.record name child)

theorem elements_agree (fits : element.Fits type) {start length : Nat}
    (inside : start + length * element.inlineSize ≤ buf.size) (i : Nat) :
    Agree ElementView.Gives (FieldVector.get buf ⟨element, start, length⟩ i)
      (TypedVector.get buf ⟨type, start, length⟩ i) := by
  rw [FieldVector.get_eq, TypedVector.get, ← fits.inlineSize]
  by_cases past : length ≤ i
  · rw [if_pos past, if_pos past]
    exact .error _
  · rw [if_neg past, if_neg past]
    exact fits.reads (FieldVector.element_le (v := ⟨element, start, length⟩) inside (Nat.not_le.1 past))

theorem structs_agree (s : StructType) (start length i : Nat) :
    Agree (fun e bytes => ∃ s, e = .struct s bytes) (FieldVector.get buf ⟨.struct s, start, length⟩ i)
      (StructVector.get buf ⟨start, length, s.size⟩ i) := by
  rw [FieldVector.get_eq, StructVector.get]
  by_cases past : length ≤ i
  · rw [if_pos past, if_pos past]
    exact .error _
  · rw [if_neg past, if_neg past]
    simp only [ResolvedElement.read, ResolvedElement.inlineSize]
    cases slice buf (start + i * s.size) (start + i * s.size + s.size) with
    | ok bytes => exact .ok ⟨s, rfl⟩
    | error e => exact .error e

end Elements

section Fields

/-- Both look for the vector in one place and read one header, so only its elements can tell them apart. -/
theorem vectors_agree {size : Nat} (make : Nat × Nat → α) {view : α → Access}
    {described : Nat × Nat → FieldView}
    (each : ∀ header, header.1 + header.2 * size ≤ buf.size →
      FieldView.Gives buf (described header) (view (make header))) (slot : Nat) :
    Agree (FieldView.Gives buf) (do
        match ← t.target buf slot with
        | none => return .absent
        | some pos => return described (← vectorHeader buf pos size))
      ((do (← t.target buf slot).mapM fun pos => do return make (← vectorHeader buf pos size) :
        Except Error (Option α)).map (.ofOption view)) := by
  cases t.target buf slot with
  | error e => exact .error e
  | ok place =>
    cases place with
    | none => exact .ok .absent
    | some pos =>
      simp only [ok_bind, Option.mapM_some]
      cases read : vectorHeader buf pos size with
      | error e => exact .error e
      | ok header => exact .ok (each header ((vectorHeader_reads buf pos size).of_ok read).2)

theorem vectorField_agrees {type : ElementType} {element : ResolvedElement} {item : ItemType}
    (kind : f.type = .vector type) (known : type.resolve schema = .ok element)
    (fits : element.Fits item) :
    Agree (FieldView.Gives buf) (t.field buf schema f) (t.access buf f.slot (.vector item)) := by
  rw [Table.field_vector kind known, fits.inlineSize]
  refine vectors_agree (fun header => (⟨item, header.1, header.2⟩ : TypedVector))
    (fun header inside => ?_) f.slot
  exact .vector rfl (elements_agree fits (fits.inlineSize ▸ inside))

theorem structVectorField_agrees {name : String} {s : StructType}
    (kind : f.type = .vector (.struct name)) (known : schema.struct name = .ok s) :
    Agree (FieldView.Gives buf) (t.field buf schema f)
      (t.access buf f.slot (.structVector s.size)) := by
  have resolved : (ElementType.struct name).resolve schema = .ok (.struct s) := by
    rw [ElementType.resolve, known, map_ok]
  rw [Table.field_vector kind resolved]
  refine vectors_agree (fun header => (⟨header.1, header.2, s.size⟩ : StructVector))
    (fun header _ => ?_) f.slot
  exact .structVector rfl (structs_agree s header.1 header.2)

/-- What is found, or is not there, is the same. -/
theorem option_agrees {view : α → ElementView} {access : α → Access}
    (same : ∀ a, FieldView.Gives buf (.single (view a)) (access a)) (x : Except Error (Option α)) :
    Agree (FieldView.Gives buf) (do return Table.ofOption ((← x).map view))
      (x.map (.ofOption access)) := by
  cases x with
  | error e => exact .error e
  | ok found =>
    cases found with
    | none => exact .ok .absent
    | some a => exact .ok (same a)

theorem scalarField_agrees (within : t.Within buf) {type : ScalarType} {default : Scalar}
    (stored : schema.scalarOf f = .ok (type, default)) :
    Agree (FieldView.Gives buf) (t.field buf schema f)
      (t.access buf f.slot (.scalar type default)) := by
  have small := type.size_le_eight
  have narrow : type.size < 2 ^ 62 := Nat.lt_of_le_of_lt small (by decide)
  rw [Table.field_scalar stored, Table.access, Table.scalar?]
  cases placed : t.fieldPosition buf f.slot type.size with
  | error e => exact .error e
  | ok place =>
    cases place with
    | none => exact .ok (.single (.scalar default))
    | some pos =>
      have inside := ((Table.fieldPosition_reads within (within.fits narrow)).of_ok placed pos rfl).2
      simp only [ok_bind, Option.mapM_some, scalar_inside type inside,
        slice_ok (Nat.le_add_right pos type.size) inside]
      exact .ok (.single (.scalar _))

end Fields

/-- A field of a table that was read from the buffer is what the accessor of its kind finds, and an error is the
accessor's error, whatever the bytes are. A vector that is not there is absent even if the schema does not know
what it would hold. -/
theorem field_accessed (read : Table.read buf pos = .ok t) (schema : Schema) (f : RecordField) :
    (∀ shape, schema.shape f = .ok shape →
      Agree (FieldView.Gives buf) (t.field buf schema f) (t.access buf f.slot shape)) ∧
    (∀ default, t.access buf f.slot (.scalar default.type default) =
      (t.scalarD buf f.slot default).map fun v => .item (.scalar v)) ∧
    ∀ type, f.type = .vector type → t.target buf f.slot = .ok none →
      t.field buf schema f = .ok .absent := by
  have within := ((Table.read_reads buf pos).of_ok read).2
  refine ⟨fun shape known => ?_, Table.access_scalar buf t f.slot, fun type kind nowhere => ?_⟩
  · unfold Schema.shape at known
    cases kind : f.type with
    | scalar type =>
      rw [kind] at known
      obtain ⟨stored, found, rfl⟩ := map_eq_ok known
      exact scalarField_agrees within found
    | enumeration name =>
      rw [kind] at known
      obtain ⟨stored, found, rfl⟩ := map_eq_ok known
      exact scalarField_agrees within found
    | text =>
      rw [kind] at known
      cases known
      simp only [Table.field, kind]
      exact option_agrees (fun bytes => .single (.text bytes)) _
    | record name =>
      rw [kind] at known
      cases known
      simp only [Table.field, kind]
      exact option_agrees (fun child => .single (.record name child)) _
    | struct name =>
      rw [kind] at known
      obtain ⟨s, found, rfl⟩ := map_eq_ok known
      simp only [Table.field, kind, found, ok_bind]
      exact option_agrees (fun bytes => .struct s bytes) _
    | vector type =>
      cases type with
      | scalar type =>
        rw [kind] at known
        cases known
        exact vectorField_agrees kind rfl (.scalar type)
      | text =>
        rw [kind] at known
        cases known
        exact vectorField_agrees kind rfl .text
      | record name =>
        rw [kind] at known
        obtain ⟨type, found, rfl⟩ := map_eq_ok known
        refine vectorField_agrees kind ?_ (.record name)
        rw [ElementType.resolve, found, map_ok]
      | struct name =>
        rw [kind] at known
        obtain ⟨s, found, rfl⟩ := map_eq_ok known
        exact structVectorField_agrees kind found
  · rw [Table.field, kind]
    simp only [nowhere, ok_bind]
    rfl

/-- A monster whose one place to go is cut short by four bytes. -/
def shortTrip : Bytes := #[
  32, 0, 0, 0, 77, 79, 78, 83, 0, 0, 22, 0, 8, 0, 0, 0, 0, 0, 0, 0, 0, 0, 0, 0, 0, 0, 0, 0, 0, 0, 4, 0,
  22, 0, 0, 0, 4, 0, 0, 0, 1, 0, 0, 0, 0, 0, 128, 63, 0, 0, 0, 64]

theorem shortTrip_accessed :
    let t : Table := ⟨32, 10, 22, 8⟩
    let path := RecordField.ofType "path" 8 (.vector (.struct "Vec3"))
    Table.read shortTrip 32 = .ok t ∧ Schema.Game.schema.shape path = .ok (.structVector 12) ∧
    Agree (FieldView.Gives shortTrip) (t.field shortTrip Schema.Game.schema path)
      (t.access shortTrip 8 (.structVector 12)) ∧
    t.field shortTrip Schema.Game.schema path = .error (.corrupt 40 .vectorTooLong) ∧
    t.structVector? shortTrip 8 12 = .error (.corrupt 40 .vectorTooLong) := by
  have read : Table.read shortTrip 32 = .ok ⟨32, 10, 22, 8⟩ := by decide +kernel
  exact ⟨read, rfl, (field_accessed read Schema.Game.schema
    (.ofType "path" 8 (.vector (.struct "Vec3")))).1 _ rfl, by decide +kernel, by decide +kernel⟩

end FlatRecord
