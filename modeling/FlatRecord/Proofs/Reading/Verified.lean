import FlatRecord.Proofs.Reading.Bounds
import FlatRecord.Decoding

/-! What passes verification can be decoded. The decoder makes only steps that the verifier has made before,
but it counts more. -/
namespace FlatRecord

open Reading Decoding Verification

/-- The walk passes, at least from some count. -/
def Passes (x : Counted α) (a : α) : Prop := ∃ c n, x.run c = .ok (a, n)

/-- From every count, only too many objects can stop the walk. -/
def Completes (x : Counted α) : Prop :=
  ∀ c e, x.run c = .error e → ∃ pos, e = .corrupt pos .tooManyObjects

section Walks

variable {x : Counted α} {a : α} {b : β}

theorem passes_bind {f : α → Counted β} (passes : Passes (x >>= f) b) :
    ∃ a, Passes x a ∧ Passes (f a) b := by
  obtain ⟨c, n, run⟩ := passes
  rw [StateT.run_bind] at run
  obtain ⟨⟨a, m⟩, first, second⟩ := bind_eq_ok.1 run
  exact ⟨a, ⟨c, m, first⟩, m, n, second⟩

theorem passes_lift {x : Except Error α} (passes : Passes (liftM x : Counted α) a) : x = .ok a := by
  obtain ⟨c, n, run⟩ := passes
  cases x with
  | ok a' =>
    cases run
    rfl
  | error e => cases run

theorem passes_lift_bind {x : Except Error α} {f : α → Counted β}
    (passes : Passes (liftM x >>= f) b) : ∃ a, x = .ok a ∧ Passes (f a) b := by
  obtain ⟨a, first, second⟩ := passes_bind passes
  exact ⟨a, passes_lift first, second⟩

theorem passes_pure {a b : α} (passes : Passes (pure a) b) : a = b := by
  obtain ⟨c, n, run⟩ := passes
  cases run
  rfl

theorem passes_map {x : Counted α} {f : α → β} {b : β} (passes : Passes (f <$> x) b) :
    ∃ a, Passes x a ∧ f a = b := by
  rw [map_eq_pure_bind] at passes
  obtain ⟨a, first, last⟩ := passes_bind passes
  exact ⟨a, first, passes_pure last⟩

theorem passes_mapM_related {items : List β} {f : β → Counted α} {answers : List α}
    (passes : Passes (items.mapM f) answers) :
    List.Forall₂ (fun item a => Passes (f item) a) items answers := by
  induction items generalizing answers with
  | nil =>
    obtain rfl := passes_pure passes
    exact .nil
  | cons item rest ih =>
    rw [List.mapM_cons] at passes
    obtain ⟨a, first, passes⟩ := passes_bind passes
    obtain ⟨others, later, last⟩ := passes_bind passes
    obtain rfl := passes_pure last
    exact .cons first (ih later)

theorem passes_forM {items : List β} {f : β → Counted Unit} (passes : Passes (items.forM f) ()) :
    ∀ item ∈ items, Passes (f item) () := by
  induction items with
  | nil => simp
  | cons item rest ih =>
    obtain ⟨_, first, later⟩ := passes_bind passes
    exact List.forall_mem_cons.2 ⟨first, ih later⟩

theorem completes_pure : Completes (pure a) := fun _ _ failed => nomatch failed

theorem completes_charge (limits : Limits) (pos : Nat) : Completes (Decoding.charge limits pos) := by
  intro c e failed
  rw [Decoding.charge, Counted.run_charge] at failed
  split at failed
  · cases failed
    exact ⟨pos, rfl⟩
  · cases failed

theorem completes_bind {f : α → Counted β} (first : Completes x) (second : ∀ a, Completes (f a)) :
    Completes (x >>= f) := by
  intro c e failed
  rw [StateT.run_bind] at failed
  rcases bind_eq_error.1 failed with failed | ⟨⟨a, n⟩, -, failed⟩
  · exact first c e failed
  · exact second a n e failed

theorem completes_lift_bind {x : Except Error α} {f : α → Counted β} (ok : x = .ok a)
    (rest : Completes (f a)) : Completes (liftM x >>= f) := by
  subst ok
  exact rest

theorem completes_map {f : α → β} (completes : Completes x) : Completes (f <$> x) := by
  rw [map_eq_pure_bind]
  exact completes_bind completes fun _ => completes_pure

theorem completes_mapM {items : List β} {f : β → Counted α}
    (each : ∀ item ∈ items, Completes (f item)) : Completes (items.mapM f) := by
  induction items with
  | nil => exact completes_pure
  | cons item rest ih =>
    obtain ⟨here, later⟩ := List.forall_mem_cons.1 each
    rw [List.mapM_cons]
    exact completes_bind here fun _ => completes_bind (ih later) fun _ => completes_pure

theorem completes_foldlM {items : List β} {f : α → β → Counted α} (a : α)
    (each : ∀ a, ∀ item ∈ items, Completes (f a item)) : Completes (items.foldlM f a) := by
  induction items generalizing a with
  | nil => exact completes_pure
  | cons item rest ih =>
    rw [List.foldlM_cons]
    refine completes_bind (each a item List.mem_cons_self) fun a' => ih a' fun a item mem => ?_
    exact each a item (List.mem_cons_of_mem _ mem)

end Walks

section Decoding

variable {limits : Limits} {buf : Bytes} {schema : Schema} {t : Table} {f : RecordField}
variable {visit : Visit} {child : Child}

/-- A struct of full size has all its members. -/
theorem ownedStruct_ok {type : StructType} {bytes : Bytes} (laid : type.LaidOut)
    (whole : bytes.size = type.size) : ∃ r, ownedStruct type bytes = .ok r := by
  obtain ⟨stop, inside, laid⟩ := laid.laid
  let value (m : Member) : Scalar :=
    Scalar.ofBytes m.type (bytes.extract m.offset (m.offset + m.type.size)).toList
  have each : ∀ m ∈ type.layout, member bytes m.offset m.type = .ok (value m) := by
    intro m mem
    have room := (laid.member_le mem).2
    exact if_pos (by omega)
  exact ⟨_, ownedStruct_eq each⟩

/-- Records are decoded wherever they were visited. -/
def CompletesWhereVisited (buf : Bytes) (schema : Schema) (visit : Visit) (child : Child) : Prop :=
  ∀ name type t, schema.record name = .ok type → t.Within buf → Passes (visit type t) () →
    Completes (child name t)

theorem vector_completes {v : FieldVector} (each : ∀ i < v.length, ∃ e, v.get buf i = .ok e ∧
      Completes (decodeElement limits child v.start e)) :
    Completes (decodeVector buf limits child v) := by
  apply completes_bind (completes_charge _ _)
  intro _
  refine completes_bind (completes_mapM fun i mem => ?_) fun _ => completes_pure
  obtain ⟨e, read, completes⟩ := each i (List.mem_range.1 mem)
  exact completes_lift_bind read completes

theorem text_completes (owner : Nat) (bytes : Bytes) :
    Completes (decodeElement limits child owner (.text bytes)) :=
  completes_bind (completes_charge _ _) fun _ => completes_pure

theorem struct_completes (owner : Nat) {type : StructType} {bytes : Bytes} (laid : type.LaidOut)
    (whole : bytes.size = type.size) :
    Completes (decodeElement limits child owner (.struct type bytes)) := by
  obtain ⟨r, owned⟩ := ownedStruct_ok laid whole
  exact completes_lift_bind owned completes_pure

/-- The bytes of a field that was found lie in the buffer. -/
theorem slice_found (within : t.Within buf) {slot size pos : Nat} (narrow : size < 2 ^ 62)
    (found : t.fieldPosition buf slot size = .ok (some pos)) :
    slice buf pos (pos + size) = .ok (buf.extract pos (pos + size)) ∧
      (buf.extract pos (pos + size)).size = size := by
  have inside := ((Table.fieldPosition_reads within (within.fits narrow)).of_ok found pos rfl).2
  exact ⟨slice_ok (Nat.le_add_right _ _) inside, size_slice inside⟩

theorem get_scalar {type : ScalarType} {start length i : Nat}
    (inside : start + length * type.size ≤ buf.size) (below : i < length) :
    (FieldVector.mk (.scalar type) start length).get buf i =
      .ok (.scalar (Scalar.ofBytes type
        (buf.extract (start + i * type.size) (start + i * type.size + type.size)).toList)) := by
  have room := FieldVector.element_le (v := ⟨.scalar type, start, length⟩) inside below
  rw [FieldVector.get_eq, if_neg (Nat.not_le.2 below)]
  exact bind_eq_ok.2 ⟨_, slice_ok (Nat.le_add_right _ _) room, rfl⟩

theorem get_struct {type : StructType} {start length i : Nat}
    (inside : start + length * type.size ≤ buf.size) (below : i < length) :
    ∃ bytes, (FieldVector.mk (.struct type) start length).get buf i = .ok (.struct type bytes) ∧
      bytes.size = type.size := by
  have room := FieldVector.element_le (v := ⟨.struct type, start, length⟩) inside below
  have room : start + i * type.size + type.size ≤ buf.size := room
  rw [FieldVector.get_eq, if_neg (Nat.not_le.2 below)]
  exact ⟨_, bind_eq_ok.2 ⟨_, slice_ok (Nat.le_add_right _ _) room, rfl⟩, size_slice room⟩

/-- The place of an offset field, which verification has found. -/
theorem target_visited {slot : Nat} {place : Option Nat}
    (visited : offsetTarget buf limits t slot = .ok place) : t.target buf slot = .ok place := by
  simp only [offsetTarget] at visited
  simp only [Table.target]
  obtain ⟨found, position, visited⟩ := bind_eq_ok.1 visited
  rw [position]
  cases found with
  | none => exact visited
  | some pos =>
    obtain ⟨-, -, visited⟩ := bind_eq_ok.1 visited
    obtain ⟨p, followed, visited⟩ := bind_eq_ok.1 visited
    cases visited
    rw [ok_bind, Option.mapM_some, followed]
    rfl

theorem vector_visited (out : schema.LaidOut) (children : CompletesWhereVisited buf schema visit child)
    {pos : Nat} {element : ElementType} (visited : Passes (visitVector buf schema limits visit pos element) ()) :
    ∃ v : FieldVector, element.resolve schema = .ok v.element ∧
      vectorHeader buf pos v.element.inlineSize = .ok (v.start, v.length) ∧
      Completes (decodeVector buf limits child v) := by
  obtain ⟨-, -, visited⟩ := passes_lift_bind visited
  cases element with
  | scalar type =>
    obtain ⟨⟨start, length⟩, header, -⟩ := passes_lift_bind visited
    have inside := ((vectorHeader_reads buf pos type.size).of_ok header).2
    refine ⟨⟨.scalar type, start, length⟩, rfl, header, vector_completes fun i below => ?_⟩
    refine ⟨_, get_scalar inside below, completes_pure⟩
  | struct name =>
    obtain ⟨type, known, visited⟩ := passes_lift_bind visited
    obtain ⟨⟨start, length⟩, header, -⟩ := passes_lift_bind visited
    have inside := ((vectorHeader_reads buf pos type.size).of_ok header).2
    refine ⟨⟨.struct type, start, length⟩, by rw [ElementType.resolve, known]; rfl, header,
      vector_completes fun i below => ?_⟩
    obtain ⟨bytes, read, whole⟩ := get_struct inside below
    exact ⟨_, read, struct_completes start (out.struct known) whole⟩
  | text =>
    obtain ⟨⟨start, length⟩, header, visited⟩ := passes_lift_bind visited
    refine ⟨⟨.text, start, length⟩, rfl, header, vector_completes fun i below => ?_⟩
    have visited := passes_forM visited i (List.mem_range.2 below)
    obtain ⟨p, followed, visited⟩ := passes_lift_bind visited
    obtain ⟨-, -, visited⟩ := bind_eq_ok.1 (passes_lift visited)
    obtain ⟨bytes, read, -⟩ := bind_eq_ok.1 visited
    refine ⟨.text bytes, ?_, text_completes start bytes⟩
    rw [FieldVector.get_eq, if_neg (Nat.not_le.2 below)]
    simp only [ResolvedElement.read, ResolvedElement.inlineSize, followed, ok_bind, read]
    rfl
  | record name =>
    obtain ⟨type, known, visited⟩ := passes_lift_bind visited
    obtain ⟨⟨start, length⟩, header, visited⟩ := passes_lift_bind visited
    refine ⟨⟨.record name, start, length⟩, by rw [ElementType.resolve, known]; rfl, header,
      vector_completes fun i below => ?_⟩
    have visited := passes_forM visited i (List.mem_range.2 below)
    obtain ⟨p, followed, visited⟩ := passes_lift_bind visited
    obtain ⟨t', read, visited⟩ := passes_lift_bind visited
    have within' := ((Table.read_reads buf p).of_ok read).2
    refine ⟨.record name t', ?_, completes_bind ?_ fun _ => completes_pure⟩
    · rw [FieldVector.get_eq, if_neg (Nat.not_le.2 below)]
      simp only [ResolvedElement.read, ResolvedElement.inlineSize, followed, ok_bind, read]
      rfl
    · exact children name type t' known within' visited

section Fields

variable {owner : Nat}

/-- The field can be read, and then decoded. -/
def FieldCompletes (buf : Bytes) (schema : Schema) (limits : Limits) (child : Child) (owner : Nat) (t : Table)
    (f : RecordField) : Prop :=
  ∃ view, t.field buf schema f = .ok view ∧ Completes (decodeField buf limits child owner view)

theorem scalarField_completes (within : t.Within buf) {type : ScalarType} {default : Scalar} {place : Option Nat}
    (stored : schema.scalarOf f = .ok (type, default))
    (found : t.fieldPosition buf f.slot type.size = .ok place) :
    FieldCompletes buf schema limits child owner t f := by
  rw [FieldCompletes, Table.field_scalar stored, found, ok_bind]
  cases place with
  | none => exact ⟨_, rfl, completes_map completes_pure⟩
  | some pos =>
    have narrow := type.size_le_eight
    obtain ⟨read, -⟩ := slice_found within (Nat.lt_of_le_of_lt narrow (by decide)) found
    dsimp only
    rw [read]
    exact ⟨_, rfl, completes_map completes_pure⟩

theorem structField_completes (within : t.Within buf) {name : String} {type : StructType} {place : Option Nat}
    (kind : f.type = .struct name) (known : schema.struct name = .ok type) (laid : type.LaidOut)
    (found : t.fieldPosition buf f.slot type.size = .ok place) :
    FieldCompletes buf schema limits child owner t f := by
  simp only [FieldCompletes, Table.field, kind, known, ok_bind, Table.struct?, found]
  cases place with
  | none => exact ⟨_, rfl, completes_pure⟩
  | some pos =>
    obtain ⟨read, whole⟩ := slice_found within laid.size_lt found
    rw [Option.mapM_some, read]
    exact ⟨_, rfl, completes_map (struct_completes owner laid whole)⟩

theorem textField_completes (kind : f.type = .text)
    (visited : Passes (visitField buf schema limits visit t f) ()) :
    FieldCompletes buf schema limits child owner t f := by
  simp only [visitField, kind] at visited
  obtain ⟨place, found, visited⟩ := passes_lift_bind visited
  simp only [FieldCompletes, Table.field, kind, Table.text?, target_visited found, ok_bind]
  cases place with
  | none => exact ⟨_, rfl, completes_pure⟩
  | some pos =>
    obtain ⟨-, -, visited⟩ := bind_eq_ok.1 (passes_lift visited)
    obtain ⟨bytes, read, -⟩ := bind_eq_ok.1 visited
    rw [Option.mapM_some, read]
    exact ⟨_, rfl, completes_map (text_completes owner bytes)⟩

theorem recordField_completes (children : CompletesWhereVisited buf schema visit child) {name : String}
    (kind : f.type = .record name) (visited : Passes (visitField buf schema limits visit t f) ()) :
    FieldCompletes buf schema limits child owner t f := by
  simp only [visitField, kind] at visited
  obtain ⟨place, found, visited⟩ := passes_lift_bind visited
  simp only [FieldCompletes, Table.field, kind, Table.record?, target_visited found, ok_bind]
  cases place with
  | none => exact ⟨_, rfl, completes_pure⟩
  | some pos =>
    obtain ⟨type, known, visited⟩ := passes_lift_bind visited
    obtain ⟨t', read, visited⟩ := passes_lift_bind visited
    have within' := ((Table.read_reads buf pos).of_ok read).2
    rw [Option.mapM_some, read]
    refine ⟨_, rfl, completes_map (completes_bind ?_ fun _ => completes_pure)⟩
    exact children name type t' known within' visited

theorem vectorField_completes (out : schema.LaidOut) (children : CompletesWhereVisited buf schema visit child)
    {element : ElementType} (kind : f.type = .vector element)
    (visited : Passes (visitField buf schema limits visit t f) ()) :
    FieldCompletes buf schema limits child owner t f := by
  simp only [visitField, kind] at visited
  obtain ⟨place, found, visited⟩ := passes_lift_bind visited
  simp only [FieldCompletes, Table.field, kind, target_visited found, ok_bind]
  cases place with
  | none => exact ⟨_, rfl, completes_pure⟩
  | some pos =>
    obtain ⟨v, resolved, header, completes⟩ := vector_visited out children visited
    dsimp only
    rw [resolved, ok_bind, header]
    exact ⟨_, rfl, completes_map completes⟩

theorem field_completes (out : schema.LaidOut) (within : t.Within buf)
    (children : CompletesWhereVisited buf schema visit child)
    (visited : Passes (visitField buf schema limits visit t f) ()) (owner : Nat) :
    FieldCompletes buf schema limits child owner t f := by
  cases kind : f.type with
  | scalar | enumeration =>
    simp only [visitField, kind] at visited
    obtain ⟨stored, scalar, visited⟩ := passes_lift_bind visited
    obtain ⟨place, found, visited⟩ := passes_lift_bind visited
    exact scalarField_completes within scalar found
  | struct name =>
    simp only [visitField, kind] at visited
    obtain ⟨type, known, visited⟩ := passes_lift_bind visited
    obtain ⟨place, found, visited⟩ := passes_lift_bind visited
    exact structField_completes within kind known (out.struct known) found
  | text => exact textField_completes kind visited
  | record name => exact recordField_completes children kind visited
  | vector element => exact vectorField_completes out children kind visited

end Fields

theorem record_completes (out : schema.LaidOut) (children : CompletesWhereVisited buf schema visit child) :
    CompletesWhereVisited buf schema (visitRecord buf schema limits visit)
      (decodeRecord buf schema limits child) := by
  intro name type t known within visited
  obtain ⟨-, -, visited⟩ := passes_bind visited
  obtain ⟨-, -, visited⟩ := passes_lift_bind visited
  have each := passes_forM visited
  refine completes_bind (completes_charge _ _) fun _ => completes_lift_bind known ?_
  apply completes_foldlM []
  intro r f mem
  obtain ⟨view, read, completes⟩ :=
    field_completes out within children (each f (List.mem_of_mem_filter mem)) t.position
  refine completes_lift_bind read (completes_bind completes fun value => ?_)
  cases value with
  | none => exact completes_pure
  | some v => exact completes_pure

theorem levels_complete (out : schema.LaidOut) (levels : Nat) :
    CompletesWhereVisited buf schema (visitLevels buf schema limits levels)
      (decodeLevels buf schema limits levels) := by
  induction levels with
  | zero =>
    -- The verifier stops at the same depth, so nothing was visited here.
    rintro name type t - - ⟨c, n, visited⟩
    cases visited
  | succ levels ih => exact record_completes out ih

end Decoding

end FlatRecord
