import FlatRecord.Builder.Record
import FlatRecord.Proofs.Builder.Objects

/-! What each step of a record does. When a record ends, the bytes that were there before stay as they are:
the offset to the field table is filled in afterwards, but in front of them. -/
namespace FlatRecord

open Builder Build

namespace Builder

/-- The first two bytes give the length of the whole. -/
def TellsLength (table : List UInt8) : Prop :=
  2 ≤ table.length ∧ LittleEndian.decode (table.take 2) = table.length

/-- A field table is stored at `d`; its first two bytes give its length. -/
def TableSaved (s : List UInt8) (d : Nat) : Prop :=
  ∃ table, Holds s d table ∧ 2 ≤ table.length ∧ LittleEndian.decode (table.take 2) = table.length

theorem TableSaved.of_suffix {s t : List UInt8} {d : Nat} (saved : TableSaved t d)
    (suffix : t <:+ s) : TableSaved s d :=
  let ⟨table, holds, header⟩ := saved
  ⟨table, holds.of_suffix suffix, header⟩

theorem Adds.saved {b b' : Builder} {bytes : List UInt8} (adds : Adds b bytes b')
    (saved : ∀ d ∈ b.tables, TableSaved b.written d) : ∀ d ∈ b'.tables, TableSaved b'.written d :=
  fun d mem => (saved d (adds.tables ▸ mem)).of_suffix ⟨bytes, adds.written.symm⟩

/-- The bytes are the field of a slot that the open record did not have. -/
def Added (b : Builder) (slot : Nat) (bytes : List UInt8) (b' : Builder) : Prop :=
  ∃ start fields b₁ gap, b.stage = .record start fields ∧ slot < slotLimit ∧
    slot ∉ fields.map (·.slot) ∧ Adds b (bytes ++ gap) b₁ ∧
    b' = b₁.withStage (.record start (⟨slot, b₁.used⟩ :: fields))

theorem slot_lt_slotCount {fields : List Field} {f : Field} (mem : f ∈ fields) :
    f.slot < slotCount fields := by
  have general (fields : List Field) (count : Nat) :
      count ≤ fields.foldl (fun count f => max count (f.slot + 1)) count ∧
        ∀ f ∈ fields, f.slot < fields.foldl (fun count f => max count (f.slot + 1)) count := by
    induction fields generalizing count with
    | nil => simp
    | cons g rest ih =>
      obtain ⟨least, each⟩ := ih (max count (g.slot + 1))
      simp only [List.foldl_cons, List.mem_cons, forall_eq_or_imp]
      exact ⟨by omega, by omega, each⟩
  exact (general fields 0).2 f mem

theorem slotCount_le {fields : List Field} {limit : Nat} (below : ∀ f ∈ fields, f.slot < limit) :
    slotCount fields ≤ limit := by
  have general (fields : List Field) (count : Nat) (start : count ≤ limit)
      (below : ∀ f ∈ fields, f.slot < limit) :
      fields.foldl (fun count f => max count (f.slot + 1)) count ≤ limit := by
    induction fields generalizing count with
    | nil => exact start
    | cons g rest ih =>
      have head := below g List.mem_cons_self
      exact ih (max count (g.slot + 1)) (by omega) fun f mem => below f (List.mem_cons_of_mem _ mem)
  exact general fields 0 (Nat.zero_le _) below

/-- What a field table gives for a slot. -/
def entryOf (distance : Nat) (fields : List Field) (slot : Nat) : Nat :=
  match fields.find? (·.slot == slot) with
  | some f => distance - f.distance
  | none => 0

theorem tableBytes_eq (distance recordSize : Nat) (fields : List Field) :
    tableBytes distance recordSize fields =
      LittleEndian.encode entrySize (tableHeaderSize + slotCount fields * entrySize) ++
        (LittleEndian.encode entrySize recordSize ++ (List.range (slotCount fields)).flatMap fun slot =>
          LittleEndian.encode entrySize (entryOf distance fields slot)) := by
  rw [tableBytes, List.append_assoc]
  rfl

theorem length_entries (distance : Nat) (fields : List Field) (slots : List Nat) :
    (slots.flatMap fun slot => LittleEndian.encode entrySize (entryOf distance fields slot)).length =
      slots.length * entrySize := by
  induction slots with
  | nil => simp
  | cons slot rest ih =>
    simp only [List.flatMap_cons, List.length_append, LittleEndian.length_encode, ih,
      List.length_cons, Nat.add_mul]
    omega

@[simp] theorem length_tableBytes (distance recordSize : Nat) (fields : List Field) :
    (tableBytes distance recordSize fields).length =
      tableHeaderSize + slotCount fields * entrySize := by
  rw [tableBytes_eq]
  simp only [List.length_append, LittleEndian.length_encode, length_entries, List.length_range,
    tableHeaderSize]
  omega

theorem tableBytes_length_lt (distance recordSize : Nat) {fields : List Field}
    (below : ∀ f ∈ fields, f.slot < slotLimit) :
    (tableBytes distance recordSize fields).length < 2 ^ 16 := by
  have count := slotCount_le below
  rw [length_tableBytes]
  simp only [tableHeaderSize, entrySize, slotLimit] at count ⊢
  omega

theorem tableBytes_tellsLength (distance recordSize : Nat) {fields : List Field}
    (below : ∀ f ∈ fields, f.slot < slotLimit) : TellsLength (tableBytes distance recordSize fields) := by
  have short := tableBytes_length_lt distance recordSize below
  constructor
  · rw [length_tableBytes]; simp only [tableHeaderSize, entrySize]; omega
  · have front : (tableBytes distance recordSize fields).take 2 =
        LittleEndian.encode entrySize (tableHeaderSize + slotCount fields * entrySize) := by
      rw [tableBytes_eq]
      exact List.take_left' (LittleEndian.length_encode ..)
    rw [length_tableBytes] at short ⊢
    rw [front, LittleEndian.decode_encode]
    exact Nat.mod_eq_of_lt short

theorem tableBytes_saved {s : List UInt8} {d distance recordSize : Nat} {fields : List Field}
    (below : ∀ f ∈ fields, f.slot < slotLimit) (holds : Holds s d (tableBytes distance recordSize fields)) :
    TableSaved s d := ⟨_, holds, tableBytes_tellsLength distance recordSize below⟩

end Builder

variable {b : Builder}

theorem startRecord_ends :
    Ends startRecord b
      (fun _ b' => b.stage = .idle ∧ b' = b.withStage (.record b.used []))
      (fun _ b' => b' = b) := by
  rw [startRecord, ends_bind]
  refine ensureIdle_ends.mono (fun _ b₁ start => ?_) (fun _ _ bad => bad.2.1)
  obtain ⟨rfl, idle⟩ := start
  exact ⟨idle, rfl⟩

theorem checkSlot_ends (slot : Nat) :
    Ends (checkSlot slot) b
      (fun start b' => b' = b ∧ ∃ fields, b.stage = .record start fields ∧ slot < slotLimit ∧
        slot ∉ fields.map (·.slot))
      (fun _ b' => b' = b) := by
  rw [checkSlot, ends_bind, ends_get]
  cases stage : b.stage with
  | record start fields =>
    dsimp only
    split
    next => exact rfl
    next small =>
      split
      next => exact rfl
      next fresh =>
        refine ⟨rfl, fields, rfl, by omega, ?_⟩
        simpa using fresh
  | idle | vector | finished => exact rfl

/-- A step that writes a field and notes it, after the slot was found fit. -/
theorem field_ends {slot start : Nat} {fields : List Field} {bytes : List UInt8} {x : Build Unit}
    (stage : b.stage = .record start fields) (small : slot < slotLimit)
    (fresh : slot ∉ fields.map (·.slot))
    (writes : Ends x b (fun _ b' => ∃ gap, Adds b (bytes ++ gap) b') (fun _ b' => Littered b b')) :
    Ends (do x; noteField slot) b (fun _ b' => Added b slot bytes b')
      (fun _ b' => Littered b b') := by
  rw [ends_bind]
  refine writes.mono (fun _ b₁ written => ?_) (fun _ _ bad => bad)
  obtain ⟨gap, adds⟩ := written
  rw [noteField, ends_modify]
  refine ⟨start, fields, b₁, gap, stage, small, fresh, adds, ?_⟩
  simp only [withStage, adds.stage.trans stage, Stage.addField]

theorem pushScalar_writes (sound : b.RegionSound) (v : Scalar) :
    Ends (pushScalar v) b (fun _ b' => ∃ gap, Adds b (v.toBytes ++ gap) b')
      (fun _ b' => Littered b b') :=
  (pushScalar_ends sound v).mono (fun _ _ done => ⟨_, done.2⟩) fun _ _ bad =>
    bad.elim (fun stop => Littered.of_eq sound stop.2.1) fun stray => stray.2.2

/-- A scalar that equals its default is left out, unless the configuration has defaults written. -/
def Builder.elides (b : Builder) (value default : Scalar) : Bool :=
  value.sameNumber default && !b.config.forceDefaults

theorem addField_ends (sound : b.RegionSound) (slot : Nat) (value default : Scalar) :
    Ends (addField slot value default) b
      (fun _ b' => (b.elides value default = true ∧ b' = b) ∨
        (b.elides value default = false ∧ Added b slot value.toBytes b'))
      (fun _ b' => Littered b b') := by
  refine ensureWritable_then (fun _ => Littered.of_eq sound rfl) (fun _ => ?_)
  rw [ends_bind]
  refine (checkSlot_ends slot).mono (fun start b₁ found => ?_)
    (fun _ _ same => Littered.of_eq sound same)
  obtain ⟨rfl, fields, stage, small, fresh⟩ := found
  simp only [ends_bind, ends_get]
  split
  next same => exact .inl ⟨by simpa [elides] using same, rfl⟩
  next differs =>
    have written : b₁.elides value default = false := by simpa [elides] using differs
    exact (field_ends stage small fresh (pushScalar_writes sound value)).mono
      (fun _ _ added => .inr ⟨written, added⟩) (fun _ _ bad => bad)

theorem addRequiredField_ends (sound : b.RegionSound) (slot : Nat) (value : Scalar) :
    Ends (addRequiredField slot value) b (fun _ b' => Added b slot value.toBytes b')
      (fun _ b' => Littered b b') := by
  refine ensureWritable_then (fun _ => Littered.of_eq sound rfl) (fun _ => ?_)
  rw [ends_bind]
  refine (checkSlot_ends slot).mono (fun start b₁ found => ?_)
    (fun _ _ same => Littered.of_eq sound same)
  obtain ⟨rfl, fields, stage, small, fresh⟩ := found
  exact field_ends stage small fresh (pushScalar_writes sound value)

theorem addStructField_ends (sound : b.RegionSound) (slot : Nat) (bytes : List UInt8)
    (alignment : Nat) :
    Ends (addStructField slot bytes alignment) b (fun _ b' => Added b slot bytes b')
      (fun _ b' => Littered b b') := by
  refine ensureWritable_then (fun _ => Littered.of_eq sound rfl) (fun _ => ?_)
  rw [ends_bind]
  refine (checkSlot_ends slot).mono (fun start b₁ found => ?_)
    (fun _ _ same => Littered.of_eq sound same)
  obtain ⟨rfl, fields, stage, small, fresh⟩ := found
  have writes : Ends (do align bytes.length alignment; Builder.write bytes) b₁
      (fun _ b' => ∃ gap, Adds b₁ (bytes ++ gap) b') (fun _ b' => Littered b₁ b') :=
    (align_write_ends sound bytes.length alignment bytes).mono
      (fun _ _ adds => ⟨_, adds⟩) (fun _ _ bad => bad.2)
  have field := field_ends stage small fresh writes
  simpa only [bind_assoc] using field

theorem addRefField_ends (sound : b.RegionSound) (slot : Nat) {kind : ObjectKind}
    (child : Ref kind) :
    Ends (addRefField slot child) b
      (fun _ b' => 0 < child.distance ∧
        (∃ start fields, b.stage = .record start fields ∧ child.distance ≤ start) ∧
        Added b slot (LittleEndian.encode offsetSize (b'.used - child.distance)) b')
      (fun _ b' => Littered b b') := by
  refine ensureWritable_then (fun _ => Littered.of_eq sound rfl) (fun _ => ?_)
  rw [ends_bind]
  refine (checkSlot_ends slot).mono (fun start b₁ found => ?_)
    (fun _ _ same => Littered.of_eq sound same)
  obtain ⟨rfl, fields, stage, small, fresh⟩ := found
  rw [ends_bind]
  refine (checkRef_ends _ _).mono (fun _ b₂ good => ?_)
    (fun _ _ bad => Littered.of_eq sound bad.2)
  obtain ⟨rfl, positive, below⟩ := good
  rw [ends_bind]
  refine (pushOffset_ends sound _).mono (fun _ b₃ written => ?_) (fun _ _ bad => bad.2)
  rw [noteField, ends_modify]
  refine ⟨positive, ⟨start, fields, stage, below⟩,
    start, fields, b₃, _, stage, small, fresh, written.2, ?_⟩
  simp only [withStage, written.2.stage.trans stage, Stage.addField]

/-- What stands at a distance is what is read there. -/
theorem Builder.RegionSound.bytesAt_eq (sound : b.RegionSound) {bytes : List UInt8} (holds : Holds b.written d bytes) :
    b.region.bytesAt d bytes.length = bytes := by
  have inside := holds.le_length
  rw [sound.length_written] at inside
  have used : b.region.used = b.written.length := sound.length_written.symm
  rw [Region.bytesAt_eq _ _ _ sound.sound inside holds.length_le, used]
  exact holds.found

theorem findTable_holds (sound : b.RegionSound) (saved : ∀ d ∈ b.tables, TableSaved b.written d)
    {table : List UInt8} {d : Nat} (found : b.findTable table = some d) :
    d ∈ b.tables ∧ Holds b.written d table := by
  have mem := List.mem_of_find?_eq_some found
  have equal := List.find?_some found
  simp only [Bool.and_eq_true, beq_iff_eq] at equal
  obtain ⟨old, holds, header, length⟩ := saved d mem
  have read := sound.bytesAt_eq (holds.take 2)
  rw [List.length_take, Nat.min_eq_left header] at read
  have lengths : old.length = table.length := by
    rw [← length, ← equal.1, entrySize, read]
  have same := sound.bytesAt_eq holds
  rw [lengths, equal.2] at same
  exact ⟨mem, same ▸ holds⟩

theorem writeTable_ends (sound : b.RegionSound) (table : List UInt8) :
    Ends (writeTable table) b
      (fun d b' => ∃ b₁ gap, Adds b (table ++ gap) b₁ ∧ d = b₁.used ∧
        b' = { b₁ with tables := b₁.used :: b.tables })
      (fun _ b' => Littered b b') := by
  have writes := align_write_ends sound table.length entrySize table
  rw [ends_bind] at writes
  simp only [writeTable, ends_bind]
  refine writes.mono (fun _ b₁ aligned => ?_) (fun _ _ bad => bad.2)
  refine aligned.mono (fun _ b₂ adds => ?_) (fun _ _ bad => bad.2)
  simp only [ends_modify, ends_get, ends_pure]
  exact ⟨b₂, _, adds, rfl, by rw [adds.tables]⟩

/-- The table is one of the older ones, or a new one in front of everything. -/
theorem placeTable_ends (sound : b.RegionSound) (saved : ∀ d ∈ b.tables, TableSaved b.written d)
    (table : List UInt8) :
    Ends (placeTable table) b
      (fun d b' => (b' = b ∧ d ∈ b.tables ∧ Holds b.written d table) ∨
        ∃ b₁ gap, Adds b (table ++ gap) b₁ ∧ d = b₁.used ∧
          b' = { b₁ with tables := b₁.used :: b.tables })
      (fun _ b' => Littered b b') := by
  rw [placeTable, ends_bind, ends_get]
  split
  next d found =>
    split at found
    · exact .inl ⟨rfl, findTable_holds sound saved found⟩
    · cases found
  next => exact (writeTable_ends sound table).mono (fun _ _ new => .inr new) (fun _ _ bad => bad)

/-- What the end of a record has done. -/
structure Closed (b : Builder) (start : Nat) (fields : List Field) (d : Nat) (b' : Builder) :
    Prop where
  stage : b'.stage = .idle
  region : b'.RegionSound
  config : b'.config = b.config
  kept : b.written <:+ b'.written
  behind : b.used + offsetSize ≤ d
  inside : d ≤ b'.used
  size : d - start ≤ largestRecord
  tables : ∀ t ∈ b'.tables, TableSaved b'.written t
  table : ∃ t, t ≤ b'.used ∧ Holds b'.written t (tableBytes d (d - start) fields) ∧
    Holds b'.written d (Scalar.int32 (Int32.ofInt ((t : Int) - d))).toBytes

/-- The placeholder at `d` is replaced by the offset to the table, and the record is closed. -/
def Builder.sealed (b : Builder) (d : Nat) (bytes : List UInt8) : Builder :=
  { b with region := b.region.overwrite d bytes, stage := .idle }

theorem Builder.written_sealed (sound : b.RegionSound) {d : Nat} {bytes : List UInt8}
    (inside : d ≤ b.used) (room : bytes.length ≤ d) :
    (b.sealed d bytes).written = Region.replaced b.written d bytes :=
  Region.written_overwrite b.region d bytes sound.sound inside room

@[simp]
theorem Builder.tables_sealed (b : Builder) (d : Nat) (bytes : List UInt8) :
    (b.sealed d bytes).tables = b.tables := rfl

theorem seal_ends (sound : b.RegionSound) {d : Nat} {bytes : List UInt8} (inside : d ≤ b.used)
    (room : bytes.length ≤ d) :
    Ends (do overwrite d bytes; setStage .idle; return (⟨d⟩ : Ref .record)) b
      (fun ref b' => ref.distance = d ∧ b' = b.sealed d bytes) (fun _ _ => False) := by
  have granted := Region.within_ok b.region d bytes.length sound.sound inside room
  simp only [Builder.overwrite, setStage, ends_bind, ends_get, ends_ofExcept, ends_modify, ends_pure,
    granted, sealed, true_and]
  constructor
  · intros
    trivial
  · intro e refused
    cases refused

theorem closed_sealed {b₁ b₂ : Builder} {start : Nat} {fields : List Field} {t d : Nat}
    {left front bytes : List UInt8} (sound : b.RegionSound)
    (below : ∀ f ∈ fields, f.slot < slotLimit)
    (placeholder : Adds b left b₁) (length : offsetSize ≤ left.length) (here : d = b₁.used)
    (region : b₂.RegionSound) (config : b₂.config = b₁.config)
    (written : b₂.written = front ++ b₁.written) (size : d - start ≤ largestRecord)
    (table : Holds b₂.written t (tableBytes d (d - start) fields))
    (apart : t ≤ b.used ∨ d ≤ t - (tableBytes d (d - start) fields).length)
    (tables : ∀ u ∈ b₂.tables, u ∈ b.tables ∨ u = t)
    (saved : ∀ u ∈ b.tables, TableSaved b.written u)
    (offset : bytes = (Scalar.int32 (Int32.ofInt ((t : Int) - d))).toBytes) :
    Closed b start fields d (b₂.sealed d bytes) := by
  have four : bytes.length = offsetSize := offset ▸ Scalar.length_toBytes _
  have used := placeholder.used sound
  have old := sound.length_written
  have middle := placeholder.region.length_written
  have last := region.length_written
  have total : b₂.used = front.length + b₁.used := by
    rw [← last, written, List.length_append, middle]
  have room : bytes.length ≤ d := by omega
  have inside : d ≤ b₂.written.length := by omega
  have filled : d ≤ b₂.region.used := (show b₂.used = b₂.region.used from rfl) ▸ last ▸ inside
  have replaced := Builder.written_sealed region filled room
  have suffix : b.written <:+ b₂.written := by
    rw [written, placeholder.written, ← List.append_assoc]
    exact List.suffix_append _ _
  have kept : b.written <:+ (b₂.sealed d bytes).written := by
    have same := suffix_replaced room inside (n := b.used) (by omega)
    obtain ⟨more, eq⟩ := suffix
    have cut : b₂.written.drop (b₂.written.length - b.used) = b.written := by
      rw [← eq, List.length_append, old, Nat.add_sub_cancel, List.drop_left]
    rw [replaced]
    rwa [cut] at same
  have holds : Holds (b₂.sealed d bytes).written t (tableBytes d (d - start) fields) := by
    rw [replaced]
    rcases apart with behind | ahead
    · exact table.replaced_behind inside room (by omega)
    · exact table.replaced_ahead room ahead
  refine ⟨rfl, ⟨Region.overwrite_sound b₂.region d bytes region.sound filled, region.limit⟩,
    config.trans placeholder.config, kept, by omega, filled, size,
    fun u mem => ?_, t, ?_, holds, ?_⟩
  · rcases tables u mem with older | rfl
    · exact (saved u older).of_suffix kept
    · exact tableBytes_saved below holds
  · have := table.le_length
    rwa [last] at this
  · rw [replaced, ← offset]
    exact holds_replaced room inside

section Sealing

variable {b₁ b₂ b₃ : Builder} {start t : Nat} {fields : List Field} {left gap : List UInt8}

/-- The place for the offset to the table, with the padding in front of it. -/
theorem placeholder_used (sound : b.RegionSound)
    (placeholder : Adds b ((Scalar.int32 0).toBytes ++
      zeros (padding (b.used + (Scalar.int32 0).size) (Scalar.int32 0).size)) b₁) :
    b₁.used = b.used + padding (b.used + offsetSize) offsetSize + offsetSize := by
  rw [placeholder.used sound, List.length_append, Scalar.length_toBytes, length_zeros]
  simp only [Scalar.size, Scalar.type, ScalarType.size, offsetSize]
  omega

variable (sound : b.RegionSound) (saved : ∀ d ∈ b.tables, TableSaved b.written d)
  (below : ∀ f ∈ fields, f.slot < slotLimit) (placeholder : Adds b left b₁)
  (wide : offsetSize ≤ left.length) (size : b₁.used - start ≤ largestRecord)

include sound saved below placeholder wide size

/-- A record that shares the table of an older one. -/
theorem older_closes (mem : t ∈ b₁.tables)
    (holds : Holds b₁.written t (tableBytes b₁.used (b₁.used - start) fields)) :
    Closed b start fields b₁.used
      (b₁.sealed b₁.used (Scalar.int32 (Int32.ofInt ((t : Int) - b₁.used))).toBytes) := by
  have behind : t ≤ b.used := by
    obtain ⟨_, old, _⟩ := saved t (placeholder.tables ▸ mem)
    exact sound.length_written ▸ old.le_length
  exact closed_sealed sound below placeholder wide rfl placeholder.region rfl
    (List.nil_append _).symm size holds (.inl behind)
    (fun u mem => .inl (placeholder.tables ▸ mem)) saved rfl

/-- A record with a table of its own in front of it. -/
theorem fresh_closes
    (adds : Adds b₁ (tableBytes b₁.used (b₁.used - start) fields ++ gap) b₂)
    (same : b₃ = { b₂ with tables := b₂.used :: b₁.tables }) :
    Closed b start fields b₁.used
      (b₃.sealed b₁.used (Scalar.int32 (Int32.ofInt ((b₂.used : Int) - b₁.used))).toBytes) := by
  subst same
  have more := adds.used placeholder.region
  have front : Holds b₂.written b₂.used (tableBytes b₁.used (b₁.used - start) fields) := by
    rw [adds.written, more, ← placeholder.region.length_written, ← List.length_append]
    exact ⟨[], gap ++ b₁.written, by simp, by simp⟩
  refine closed_sealed sound below placeholder wide rfl ⟨adds.region.sound, adds.region.limit⟩
    adds.config adds.written size front (.inr ?_) (fun u mem => ?_) saved rfl
  · rw [more, List.length_append]
    omega
  · rcases List.mem_cons.1 mem with rfl | older
    · exact .inr rfl
    · exact .inl (placeholder.tables ▸ older)

end Sealing

theorem endRecord_ends (sound : b.RegionSound) (fits : b.stage.Fits b.used)
    (saved : ∀ d ∈ b.tables, TableSaved b.written d) :
    Ends endRecord b
      (fun ref b' => ∃ start fields, b.stage = .record start fields ∧
        Closed b start fields ref.distance b')
      (fun _ b' => Littered b b') := by
  refine ensureWritable_then (fun _ => Littered.of_eq sound rfl) (fun _ => ?_)
  rw [ends_bind, ends_get]
  cases stage : b.stage with
  | record start fields =>
    rw [stage] at fits
    have below : ∀ f ∈ fields, f.slot < slotLimit := fun f mem => (fits.2.1 f mem).2.2
    simp only [ends_bind, ends_get]
    split
    next => exact Littered.of_eq sound rfl
    next short =>
      simp only [ends_bind, ends_get]
      refine (pushScalar_ends sound (.int32 0)).mono (fun _ b₁ placed => ?_) (fun _ _ bad =>
        bad.elim (fun stop => Littered.of_eq sound stop.2.1) fun stray => stray.2.2)
      obtain ⟨_, placeholder⟩ := placed
      have used := placeholder_used sound placeholder
      have wide : offsetSize ≤ ((Scalar.int32 0).toBytes ++ zeros (padding
          (b.used + (Scalar.int32 0).size) (Scalar.int32 0).size)).length := by
        rw [List.length_append, Scalar.length_toBytes]
        simp [Scalar.size, Scalar.type, ScalarType.size, offsetSize]
      rw [← used] at short ⊢
      have size : b₁.used - start ≤ largestRecord := by omega
      refine (placeTable_ends placeholder.region (placeholder.saved saved) _).mono
        (fun t b₂ table => ?_) (fun _ _ bad => Littered.after placeholder bad)
      have enough : (Scalar.int32 (Int32.ofInt ((t : Int) - b₁.used))).toBytes.length ≤ b₁.used := by
        rw [Scalar.length_toBytes, used]
        simp only [Scalar.size, Scalar.type, ScalarType.size, offsetSize]
        omega
      have closes : b₂.RegionSound ∧ b₁.used ≤ b₂.used ∧ Closed b start fields b₁.used (b₂.sealed
          b₁.used (Scalar.int32 (Int32.ofInt ((t : Int) - b₁.used))).toBytes) := by
        rcases table with ⟨rfl, mem, holds⟩ | ⟨b₃, gap, adds, rfl, rfl⟩
        · exact ⟨placeholder.region, Nat.le_refl _,
            older_closes sound saved below placeholder wide size mem holds⟩
        · have more := adds.used placeholder.region
          exact ⟨⟨adds.region.sound, adds.region.limit⟩, (by omega : _ ≤ b₃.used),
            fresh_closes sound saved below placeholder wide size adds rfl⟩
      obtain ⟨region, inside, closed⟩ := closes
      rw [← ends_bind, ← ends_bind, bind_assoc]
      refine (seal_ends region inside enough).mono (fun ref b' done => ?_)
        (fun _ _ never => never.elim)
      obtain ⟨here, rfl⟩ := done
      exact ⟨start, fields, rfl, here ▸ closed⟩
  | idle | vector | finished => exact Littered.of_eq sound rfl

end FlatRecord
