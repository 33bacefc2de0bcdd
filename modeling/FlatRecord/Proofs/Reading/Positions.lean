import FlatRecord.Proofs.Codec.Layout
import FlatRecord.Proofs.Reading.Descent
import FlatRecord.Schema.Game

/-! Where things stand in a buffer that was verified. Verification looks at a few places of each object; that all
elements of vectors and all members of structs stand at multiples of their sizes follows from how structs are laid
out. -/
namespace FlatRecord

open Reading Verification

/-- What stands somewhere in a record or behind it, with the size that its place goes by. A struct goes by the size
of its largest member. -/
inductive Reaches (buf : Bytes) (schema : Schema) : RecordType → Table → (pos size : Nat) → Prop where
  /-- The beginning of the record, which is the offset to its field table. -/
  | start {type : RecordType} {t : Table} : Reaches buf schema type t t.position offsetSize
  | scalar {type : RecordType} {t : Table} {f : RecordField} {scalar : ScalarType} {default : Scalar}
      {pos : Nat} (mem : f ∈ type.fields) (stored : schema.scalarOf f = .ok (scalar, default))
      (found : t.fieldPosition buf f.slot scalar.size = .ok (some pos)) :
      Reaches buf schema type t pos scalar.size
  | struct {type : RecordType} {t : Table} {f : RecordField} {name : String} {s : StructType} {pos : Nat}
      (mem : f ∈ type.fields) (kind : f.type = .struct name) (known : schema.struct name = .ok s)
      (found : t.fieldPosition buf f.slot s.size = .ok (some pos)) :
      Reaches buf schema type t pos s.alignment
  | member {type : RecordType} {t : Table} {f : RecordField} {name : String} {s : StructType} {pos : Nat}
      {m : Member} (mem : f ∈ type.fields) (kind : f.type = .struct name)
      (known : schema.struct name = .ok s)
      (found : t.fieldPosition buf f.slot s.size = .ok (some pos)) (among : m ∈ s.layout) :
      Reaches buf schema type t (pos + m.offset) m.type.size
  | offset {type : RecordType} {t : Table} {f : RecordField} {pos : Nat} (mem : f ∈ type.fields)
      (apart : f.isInline = false)
      (found : t.fieldPosition buf f.slot offsetSize = .ok (some pos)) :
      Reaches buf schema type t pos offsetSize
  /-- The count of a text or a vector, or the beginning of a record. -/
  | target {type : RecordType} {t : Table} {f : RecordField} {pos : Nat} (mem : f ∈ type.fields)
      (apart : f.isInline = false) (found : t.target buf f.slot = .ok (some pos)) :
      Reaches buf schema type t pos offsetSize
  | element {type : RecordType} {t : Table} {f : RecordField} {v : FieldVector} {i : Nat}
      (mem : f ∈ type.fields) (found : t.field buf schema f = .ok (.vector v)) (below : i < v.length) :
      Reaches buf schema type t (v.start + i * v.element.inlineSize) v.element.alignment
  | elementMember {type : RecordType} {t : Table} {f : RecordField} {v : FieldVector} {i : Nat}
      {s : StructType} {m : Member} (mem : f ∈ type.fields)
      (found : t.field buf schema f = .ok (.vector v)) (below : i < v.length)
      (kind : v.element = .struct s) (among : m ∈ s.layout) :
      Reaches buf schema type t (v.start + i * s.size + m.offset) m.type.size
  /-- The count of a text that is an element. -/
  | elementText {type : RecordType} {t : Table} {f : RecordField} {v : FieldVector} {i pos : Nat}
      (mem : f ∈ type.fields) (found : t.field buf schema f = .ok (.vector v)) (below : i < v.length)
      (kind : v.element = .text) (followed : follow buf (v.start + i * offsetSize) = .ok pos) :
      Reaches buf schema type t pos offsetSize
  | inner {type type' : RecordType} {t t' : Table} {name : String} {pos size : Nat}
      (refers : Refers buf t type.fields name t') (known : schema.record name = .ok type')
      (reaches : Reaches buf schema type' t' pos size) : Reaches buf schema type t pos size

section Visits

variable {buf : Bytes} {schema : Schema} {limits : Limits} {visit : Visit} {t t' : Table}
  {f : RecordField} {pos slot : Nat}

theorem dvd_of_aligned {alignment : Nat} (strict : limits.checkAlignment = true)
    (positive : 0 < alignment) (checked : aligned limits pos alignment = .ok ()) : alignment ∣ pos := by
  obtain ⟨passed, -⟩ := check_eq_ok.1 checked
  by_cases one : alignment = 1
  · exact one ▸ Nat.one_dvd pos
  · refine Nat.dvd_of_mod_eq_zero (Classical.not_not.1 fun off => passed ⟨strict, by omega, off⟩)

/-- What is known to be read is what the walk read. -/
theorem passes_known {α β : Type} {x : Except Error α} {g : α → Counted β} {a : α} {b : β}
    (known : x = .ok a) (passes : Passes (liftM x >>= g) b) : Passes (g a) b := by
  obtain ⟨a', same, passes⟩ := passes_lift_bind passes
  cases known.symm.trans same
  exact passes

theorem passes_target {β : Type} {g : Option Nat → Counted β} {place : Option Nat} {b : β}
    (known : t.target buf slot = .ok place)
    (passes : Passes (liftM (offsetTarget buf limits t slot) >>= g) b) : Passes (g place) b := by
  obtain ⟨place', found, passes⟩ := passes_lift_bind passes
  cases known.symm.trans (target_visited found)
  exact passes

theorem scalar_visited (strict : limits.checkAlignment = true) {scalar : ScalarType} {default : Scalar}
    (visited : Passes (visitField buf schema limits visit t f) ())
    (stored : schema.scalarOf f = .ok (scalar, default))
    (found : t.fieldPosition buf f.slot scalar.size = .ok (some pos)) : scalar.size ∣ pos := by
  simp only [visitField] at visited
  cases kind : f.type with
  | scalar | enumeration =>
    simp only [kind] at visited
    have visited := passes_known stored visited
    have visited := passes_known found visited
    exact dvd_of_aligned strict scalar.size_pos (passes_lift visited)
  | text | vector | record | struct => simp [Schema.scalarOf, kind] at stored

theorem struct_visited (strict : limits.checkAlignment = true) {name : String} {s : StructType}
    (visited : Passes (visitField buf schema limits visit t f) ()) (kind : f.type = .struct name)
    (known : schema.struct name = .ok s) (laid : s.LaidOut)
    (found : t.fieldPosition buf f.slot s.size = .ok (some pos)) : s.alignment ∣ pos := by
  simp only [visitField, kind] at visited
  have visited := passes_known known visited
  have visited := passes_known found visited
  exact dvd_of_aligned strict laid.alignment_pos (passes_lift visited)

/-- A field that is an offset has been followed. -/
theorem offset_visited (visited : Passes (visitField buf schema limits visit t f) ())
    (apart : f.isInline = false) : ∃ place, offsetTarget buf limits t f.slot = .ok place := by
  simp only [visitField] at visited
  cases kind : f.type with
  | scalar | enumeration | struct => simp [RecordField.isInline, kind] at apart
  | text | record | vector =>
    simp only [kind] at visited
    obtain ⟨place, found, -⟩ := passes_lift_bind visited
    exact ⟨place, found⟩

theorem offset_aligned (strict : limits.checkAlignment = true) {place : Option Nat}
    (visited : offsetTarget buf limits t slot = .ok place)
    (found : t.fieldPosition buf slot offsetSize = .ok (some pos)) : offsetSize ∣ pos := by
  obtain ⟨place, same, visited⟩ := bind_eq_ok.1 visited
  cases found.symm.trans same
  obtain ⟨_, passed, -⟩ := bind_eq_ok.1 visited
  exact dvd_of_aligned strict (by decide) passed

/-- A record that is referred to has been visited. -/
theorem refers_visited {fields : List RecordField} {name : String} {type' : RecordType}
    (visited : ∀ f ∈ fields, Passes (visitField buf schema limits visit t f) ())
    (refers : Refers buf t fields name t') (known : schema.record name = .ok type') :
    Passes (visit type' t') () := by
  cases refers with
  | @field f _ pos _ mem kind target read =>
    have visited := visited f mem
    simp only [visitField, kind] at visited
    have visited := passes_target target visited
    have visited := passes_known known visited
    exact passes_known read visited
  | @element f _ pos start length i place _ mem kind target header below followed read =>
    have visited := visited f mem
    simp only [visitField, kind] at visited
    have visited := passes_target target visited
    obtain ⟨-, -, visited⟩ := passes_lift_bind visited
    have visited := passes_known known visited
    have visited := passes_known header visited
    have visited := passes_forM visited i (List.mem_range.2 below)
    have visited := passes_known followed visited
    exact passes_known read visited

/-- What an offset leads to is aligned, if the walk looks at the records that it visits. -/
theorem target_aligned (strict : limits.checkAlignment = true)
    (visits : ∀ type t, Passes (visit type t) () → offsetSize ∣ t.position)
    (visited : Passes (visitField buf schema limits visit t f) ()) (apart : f.isInline = false)
    (found : t.target buf f.slot = .ok (some pos)) : offsetSize ∣ pos := by
  simp only [visitField] at visited
  cases kind : f.type with
  | scalar | enumeration | struct => simp [RecordField.isInline, kind] at apart
  | text =>
    simp only [kind] at visited
    have visited := passes_target found visited
    obtain ⟨_, passed, -⟩ := bind_eq_ok.1 (passes_lift visited)
    exact dvd_of_aligned strict (by decide) passed
  | record name =>
    simp only [kind] at visited
    have visited := passes_target found visited
    obtain ⟨type, -, visited⟩ := passes_lift_bind visited
    obtain ⟨t', read, visited⟩ := passes_lift_bind visited
    exact ((Table.read_reads buf pos).of_ok read).1 ▸ visits type t' visited
  | vector element =>
    simp only [kind] at visited
    have visited := passes_target found visited
    obtain ⟨_, passed, -⟩ := passes_lift_bind visited
    exact dvd_of_aligned strict (by decide) passed

theorem vector_found {v : FieldVector} (visited : Passes (visitField buf schema limits visit t f) ())
    (found : t.field buf schema f = .ok (.vector v)) :
    ∃ element pos, element.resolve schema = .ok v.element ∧
      vectorHeader buf pos v.element.inlineSize = .ok (v.start, v.length) ∧
      Passes (visitVector buf schema limits visit pos element) () := by
  obtain ⟨element, pos, kind, target, resolved, header⟩ := Table.field_found found
  simp only [visitField, kind] at visited
  have visited := passes_target target visited
  exact ⟨element, pos, resolved, header, visited⟩

/-- The first element is aligned. -/
theorem start_aligned (out : schema.LaidOut) (strict : limits.checkAlignment = true) {v : FieldVector}
    (visited : Passes (visitField buf schema limits visit t f) ())
    (found : t.field buf schema f = .ok (.vector v)) : v.element.alignment ∣ v.start := by
  obtain ⟨element, pos, resolved, header, visited⟩ := vector_found visited found
  obtain ⟨_, passed, visited⟩ := passes_lift_bind visited
  have behind : offsetSize ∣ pos + offsetSize :=
    Nat.dvd_add (dvd_of_aligned strict (by decide) passed) (Nat.dvd_refl _)
  rw [← ((vectorHeader_reads buf pos _).of_ok header).1] at behind
  cases element with
  | scalar type =>
    rw [← Except.ok.inj resolved] at header ⊢
    have visited := passes_known header visited
    exact dvd_of_aligned strict type.size_pos (passes_lift visited)
  | struct name =>
    obtain ⟨type, known, visited⟩ := passes_lift_bind visited
    obtain ⟨type', known', same⟩ := map_eq_ok resolved
    cases known.symm.trans known'
    rw [← same] at header ⊢
    have visited := passes_known header visited
    exact dvd_of_aligned strict (out.struct known).alignment_pos (passes_lift visited)
  | text => exact Except.ok.inj resolved ▸ behind
  | record name =>
    obtain ⟨_, -, same⟩ := map_eq_ok resolved
    exact same ▸ behind

theorem alignment_dvd_inlineSize (out : schema.LaidOut) {element : ElementType} {e : ResolvedElement}
    (resolved : element.resolve schema = .ok e) : e.alignment ∣ e.inlineSize := by
  cases e with
  | scalar | text | record => exact Nat.dvd_refl _
  | struct type =>
    obtain ⟨name, known⟩ := resolve_struct resolved
    exact (out.struct known).alignment_dvd_size

/-- Then so are the others, since they are as far apart as they are large. -/
theorem element_aligned (out : schema.LaidOut) (strict : limits.checkAlignment = true) {v : FieldVector}
    (visited : Passes (visitField buf schema limits visit t f) ())
    (found : t.field buf schema f = .ok (.vector v)) (i : Nat) :
    v.element.alignment ∣ v.start + i * v.element.inlineSize := by
  obtain ⟨element, pos, resolved, -, -⟩ := vector_found visited found
  exact Nat.dvd_add (start_aligned out strict visited found)
    (Nat.dvd_mul_left_of_dvd (alignment_dvd_inlineSize out resolved) i)

theorem elementText_aligned (strict : limits.checkAlignment = true) {v : FieldVector}
    (visited : Passes (visitField buf schema limits visit t f) ())
    (found : t.field buf schema f = .ok (.vector v)) {i : Nat} (below : i < v.length)
    (kind : v.element = .text) (followed : follow buf (v.start + i * offsetSize) = .ok pos) :
    offsetSize ∣ pos := by
  obtain ⟨element, place, resolved, header, visited⟩ := vector_found visited found
  rw [kind] at resolved header
  obtain ⟨-, -, visited⟩ := passes_lift_bind visited
  cases element with
  | scalar => cases resolved
  | struct | record =>
    obtain ⟨_, -, same⟩ := map_eq_ok resolved
    cases same
  | text =>
    have visited := passes_known header visited
    have visited := passes_forM visited i (List.mem_range.2 below)
    have visited := passes_known followed visited
    obtain ⟨_, passed, -⟩ := bind_eq_ok.1 (passes_lift visited)
    exact dvd_of_aligned strict (by decide) passed

/-- A visited record is aligned, and all its fields were visited. -/
theorem visited_record (strict : limits.checkAlignment = true) {type : RecordType} {levels : Nat}
    (visited : Passes (visitLevels buf schema limits levels type t) ()) :
    offsetSize ∣ t.position ∧ ∃ below, ∀ f ∈ type.fields,
      Passes (visitField buf schema limits (visitLevels buf schema limits below) t f) () := by
  cases levels with
  | zero =>
    obtain ⟨c, n, visited⟩ := visited
    cases visited
  | succ below =>
    obtain ⟨-, -, visited⟩ := passes_bind visited
    obtain ⟨_, passed, visited⟩ := passes_lift_bind visited
    exact ⟨dvd_of_aligned strict (by decide) passed, below, passes_forM visited⟩

/-- Everything that is reached from a visited record is aligned. -/
theorem visited_aligned (out : schema.LaidOut) (strict : limits.checkAlignment = true) {type : RecordType}
    {size levels : Nat} (reaches : Reaches buf schema type t pos size)
    (visited : Passes (visitLevels buf schema limits levels type t) ()) : size ∣ pos := by
  induction reaches generalizing levels with
  | start => exact (visited_record strict visited).1
  | scalar mem stored found =>
    obtain ⟨-, below, visited⟩ := visited_record strict visited
    exact scalar_visited strict (visited _ mem) stored found
  | struct mem kind known found =>
    obtain ⟨-, below, visited⟩ := visited_record strict visited
    exact struct_visited strict (visited _ mem) kind known (out.struct known) found
  | member mem kind known found among =>
    obtain ⟨-, below, visited⟩ := visited_record strict visited
    have whole := struct_visited strict (visited _ mem) kind known (out.struct known) found
    exact (out.struct known).member_dvd among whole
  | offset mem apart found =>
    obtain ⟨-, below, visited⟩ := visited_record strict visited
    obtain ⟨place, target⟩ := offset_visited (visited _ mem) apart
    exact offset_aligned strict target found
  | target mem apart found =>
    obtain ⟨-, below, visited⟩ := visited_record strict visited
    exact target_aligned strict (fun _ _ visited => (visited_record strict visited).1) (visited _ mem)
      apart found
  | element mem found below =>
    obtain ⟨-, levels, visited⟩ := visited_record strict visited
    exact element_aligned out strict (visited _ mem) found _
  | @elementMember _ _ f v i s m mem found below kind among =>
    obtain ⟨-, levels, visited⟩ := visited_record strict visited
    have whole := element_aligned out strict (visited _ mem) found i
    obtain ⟨element, _, resolved, -, -⟩ := vector_found (visited _ mem) found
    rw [kind] at whole resolved
    obtain ⟨name, known⟩ := resolve_struct resolved
    exact (out.struct known).member_dvd among whole
  | elementText mem found below kind followed =>
    obtain ⟨-, levels, visited⟩ := visited_record strict visited
    exact elementText_aligned strict (visited _ mem) found below kind followed
  | inner refers known reaches ih =>
    obtain ⟨-, below, visited⟩ := visited_record strict visited
    exact ih (refers_visited visited refers known)

end Visits

/-- Either way of opening leaves the offset to the root where a word can stand. -/
theorem rootAt_aligned {bytes : Bytes} {b : Buffer}
    (opened : Buffer.ofBytes bytes = .ok b ∨ Buffer.ofSizePrefixed bytes = .ok b) :
    offsetSize ∣ b.rootAt := by
  rcases opened with opened | opened
  · obtain ⟨-, same⟩ := check_eq_ok.1 opened
    cases same
    exact Nat.dvd_zero _
  · rw [Buffer.ofSizePrefixed_eq] at opened
    obtain ⟨-, opened⟩ := check_eq_ok.1 opened
    obtain ⟨length, -, opened⟩ := bind_eq_ok.1 opened
    obtain ⟨-, opened⟩ := check_eq_ok.1 opened
    obtain ⟨-, same⟩ := check_eq_ok.1 opened
    cases same
    exact Nat.dvd_refl _

/-- In a buffer that passes with its alignment checked, everything that the schema leads to from the root stands at
a multiple of its size, and structs as a whole at multiples of their largest member's. -/
theorem verified_aligned {bytes : Bytes} {b : Buffer}
    (opened : Buffer.ofBytes bytes = .ok b ∨ Buffer.ofSizePrefixed bytes = .ok b) {schema : Schema}
    {root : RecordType} {limits : Limits} (out : schema.LaidOut) (strict : limits.checkAlignment = true)
    (verified : verify b schema root limits = .ok ()) :
    offsetSize ∣ b.rootAt ∧ ∃ t, b.root = .ok t ∧
      ∀ pos size, Reaches b.bytes schema root t pos size → size ∣ pos := by
  obtain ⟨t, found, visited⟩ := bind_eq_ok.1 verified
  obtain ⟨n, visited⟩ := run'_eq_ok.1 visited
  exact ⟨rootAt_aligned opened, t, found,
    fun pos size reaches => visited_aligned out strict reaches ⟨0, n, visited⟩⟩

/-- A monster that has one place to go. -/
def travelBuffer : Buffer :=
  { bytes := #[32, 0, 0, 0, 77, 79, 78, 83, 0, 0, 22, 0, 8, 0, 0, 0, 0, 0, 0, 0, 0, 0, 0, 0, 0, 0, 0, 0, 0, 0,
      4, 0, 22, 0, 0, 0, 4, 0, 0, 0, 1, 0, 0, 0, 0, 0, 128, 63, 0, 0, 0, 64, 0, 0, 64, 64]
    rootAt := 0 }

theorem travelBuffer_aligned :
    Buffer.ofBytes travelBuffer.bytes = .ok travelBuffer ∧ ({} : Limits).checkAlignment = true ∧
    verify travelBuffer Schema.Game.schema Schema.Game.monster {} = .ok () ∧
    ∃ t, travelBuffer.root = .ok t ∧ ∀ pos size,
      Reaches travelBuffer.bytes Schema.Game.schema Schema.Game.monster t pos size → size ∣ pos :=
  have opened : Buffer.ofBytes travelBuffer.bytes = .ok travelBuffer := by decide +kernel
  have verified : verify travelBuffer Schema.Game.schema Schema.Game.monster {} = .ok () := by
    decide +kernel
  ⟨opened, rfl, verified, (verified_aligned (.inl opened) (by decide) rfl verified).2⟩

/-- Its place is a struct of twelve bytes, and does not stand at a multiple of twelve. -/
theorem travelBuffer_struct :
    ({} : Limits).checkAlignment = true ∧
    verify travelBuffer Schema.Game.schema Schema.Game.monster {} = .ok () ∧
    travelBuffer.root = .ok ⟨32, 10, 22, 8⟩ ∧
    .ofType "path" 8 (.vector (.struct "Vec3")) ∈ Schema.Game.monster.fields ∧
    Table.field travelBuffer.bytes ⟨32, 10, 22, 8⟩ Schema.Game.schema
      (.ofType "path" 8 (.vector (.struct "Vec3"))) =
        .ok (.vector ⟨.struct Schema.Game.vec3, 44, 1⟩) ∧
    Schema.Game.vec3.size = 12 ∧ ¬12 ∣ 44 + 0 * 12 := by
  decide +kernel

end FlatRecord
