import FlatRecord.Proofs.Builder.Runs
import FlatRecord.Proofs.Reading.Stored

/-! Builder and reader agree: after a run whose references were all handed out in it, every record that was
closed reads back from the finished buffer as it was written. -/
namespace FlatRecord

open Builder Build Reading

variable {buf : Bytes} {j : Journal} {t : Table} {slot : Nat}

/-- No way of reading the slot finds anything. -/
structure Table.Lacks (buf : Bytes) (t : Table) (slot : Nat) : Prop where
  scalar : ∀ type, t.scalar? buf slot type = .ok none
  struct : ∀ size, t.struct? buf slot size = .ok none
  text : t.text? buf slot = .ok none
  vector : ∀ type, t.vector? buf slot type = .ok none
  structVector : ∀ stride, t.structVector? buf slot stride = .ok none
  record : t.record? buf slot = .ok none

/-- An element reads as what was pushed, by those who ask for the right type. -/
def ItemReads (buf : Bytes) (j : Journal) : ItemType → Piece → Except Error Item → Prop
  | .scalar type, .own bytes, result =>
    ∀ v : Scalar, v.type = type → v.toBytes = bytes → result = .ok (.scalar v)
  | .text, .ref .text d, result => (∃ bytes, (d, bytes) ∈ j.texts) ∧
    ∀ bytes, (d, bytes) ∈ j.texts → result = .ok (.text bytes.toArray)
  | .record, .ref .record d, result => (∃ fields, (d, fields) ∈ j.records) ∧
    ∃ child, Table.read buf (buf.size - d) = .ok child ∧ result = .ok (.record child)
  | _, _, _ => True

/-- The slot's vector has exactly the elements of the note, in order. -/
structure VectorReads (buf : Bytes) (j : Journal) (t : Table) (slot : Nat) (v : VectorNote) :
    Prop where
  items : ∀ type : ItemType, type.inlineSize = v.elementSize →
    ∃ w, t.vector? buf slot type = .ok (some w) ∧ w.length = v.elements.length ∧
      ∀ i p, v.elements[i]? = some p → ItemReads buf j type p (w.get buf i)
  structs : ∃ w, t.structVector? buf slot v.elementSize = .ok (some w) ∧
    w.length = v.elements.length ∧
      ∀ i bytes, v.elements[i]? = some (.own bytes) → w.get buf i = .ok bytes.toArray

/-- A slot reads as what the journal has for it. -/
def FieldReads (buf : Bytes) (j : Journal) (t : Table) (slot : Nat) : Option Piece → Prop
  | none => t.Lacks buf slot
  | some (.own bytes) => t.struct? buf slot bytes.length = .ok (some bytes.toArray) ∧
    ∀ v : Scalar, v.toBytes = bytes → t.scalar? buf slot v.type = .ok (some v)
  | some (.ref .text d) => (∃ bytes, (d, bytes) ∈ j.texts) ∧
    ∀ bytes, (d, bytes) ∈ j.texts → t.text? buf slot = .ok (some bytes.toArray)
  | some (.ref .vector d) => (∃ v ∈ j.vectors, v.distance = d) ∧
    ∀ v ∈ j.vectors, v.distance = d → VectorReads buf j t slot v
  | some (.ref .record d) => (∃ fields, (d, fields) ∈ j.records) ∧
    ∃ child, Table.read buf (buf.size - d) = .ok child ∧ t.record? buf slot = .ok (some child)

/-- Everything in the journal is stored in the buffer. -/
structure Journal.Stored (j : Journal) (buf : Bytes) : Prop where
  texts : ∀ d bytes, (d, bytes) ∈ j.texts → TextStored buf.toList d bytes
  vectors : ∀ v ∈ j.vectors, VectorStored buf.toList v.distance v.elementSize v.elements ∧
    ∀ p ∈ v.elements, j.KnowsPiece p
  records : ∀ d fields, (d, fields) ∈ j.records → RecordStored buf.toList d fields ∧
    ∀ f ∈ fields, j.KnowsPiece f.2

theorem lacks_slot {fields : List (Nat × Piece)} (finds : t.Finds buf fields)
    (missing : slot ∉ fields.map (·.1)) : t.Lacks buf slot where
  scalar type := by rw [Table.scalar?, finds.fieldPosition_absent missing]; rfl
  struct size := by rw [Table.struct?, finds.fieldPosition_absent missing]; rfl
  text := by rw [Table.text?, finds.target_absent missing]; rfl
  vector type := by rw [Table.vector?, finds.target_absent missing]; rfl
  structVector stride := by rw [Table.structVector?, finds.target_absent missing]; rfl
  record := by rw [Table.record?, finds.target_absent missing]; rfl

theorem element_reads (stored : j.Stored buf) {type : ItemType} {d : Nat} {p : Piece}
    (here : PieceStored buf.toList d p) (known : j.KnowsPiece p) :
    ItemReads buf j type p (type.read buf (buf.size - d)) := by
  simp only [ItemReads]
  split
  next type bytes =>
    intro v same exact'
    subst exact' same
    rw [ItemType.read, scalar_stored_reads v here]
    rfl
  next target =>
    refine ⟨known, fun bytes mem => ?_⟩
    rw [ItemType.read, follow_stored here, ok_bind,
      text_stored_reads (stored.texts target bytes mem)]
    rfl
  next target =>
    refine ⟨known, ?_⟩
    obtain ⟨fields, mem⟩ := known
    obtain ⟨child, read, _⟩ := record_stored_reads (stored.records target fields mem).1
    refine ⟨child, read, ?_⟩
    rw [ItemType.read, follow_stored here, ok_bind, read]
    rfl
  next => trivial

theorem vector_reads (stored : j.Stored buf) {v : VectorNote} (mem : v ∈ j.vectors)
    (target : t.target buf slot = .ok (some (buf.size - v.distance))) :
    VectorReads buf j t slot v := by
  obtain ⟨vector, known⟩ := stored.vectors v mem
  have header := vectorHeader_stored vector
  constructor
  · intro type size
    have read : TypedVector.read buf type (buf.size - v.distance) =
        .ok ⟨type, buf.size - v.distance + offsetSize, v.elements.length⟩ := by
      rw [TypedVector.read, size, header]
      rfl
    refine ⟨⟨type, buf.size - v.distance + offsetSize, v.elements.length⟩, ?_, rfl,
      fun i p found => ?_⟩
    · rw [Table.vector?, target, ok_bind, Option.mapM_some, read]
      rfl
    · have index : i < v.elements.length := (List.getElem?_eq_some_iff.1 found).1
      have here : ItemReads buf j type p _ := element_reads stored (vector.element i p found)
        (known p (List.mem_of_getElem? found))
      rw [TypedVector.get, if_neg (Nat.not_le.2 index)]
      dsimp only
      rwa [size, element_position vector found]
  · have read : StructVector.read buf v.elementSize (buf.size - v.distance) =
        .ok ⟨buf.size - v.distance + offsetSize, v.elements.length, v.elementSize⟩ := by
      rw [StructVector.read, header]
      rfl
    refine ⟨⟨buf.size - v.distance + offsetSize, v.elements.length, v.elementSize⟩, ?_, rfl,
      fun i bytes found => ?_⟩
    · rw [Table.structVector?, target, ok_bind, Option.mapM_some, read]
      rfl
    · have index : i < v.elements.length := (List.getElem?_eq_some_iff.1 found).1
      have here := slice_of_holds (vector.element i _ found).holds
      rw [Piece.length_bytesAt, vector.sizes _ (List.mem_of_getElem? found)] at here
      rw [StructVector.get, if_neg (Nat.not_le.2 index)]
      dsimp only
      rwa [element_position vector found]

theorem mem_of_lookup {fields : List (Nat × Piece)} {p : Piece}
    (found : fields.lookup slot = some p) : (slot, p) ∈ fields := by
  obtain ⟨before, after, rfl, _⟩ := List.lookup_eq_some_iff.1 found
  simp

theorem hasField_reads {fields : List (Nat × Piece)} (finds : t.Finds buf fields) (slot : Nat) :
    t.hasField buf slot = .ok (fields.lookup slot).isSome := by
  rw [Table.hasField]
  cases found : fields.lookup slot with
  | none =>
    rw [finds.absent slot fun mem => ?_]
    · rfl
    · obtain ⟨f, inside, same⟩ := List.mem_map.1 mem
      have differs := List.lookup_eq_none_iff.1 found f inside
      simp [same] at differs
  | some p =>
    obtain ⟨e, _, _, position⟩ := finds.present slot p (mem_of_lookup found)
    rw [Table.fieldPosition_eq] at position
    obtain ⟨offset, read, position⟩ := bind_eq_ok.1 position
    rw [read]
    cases offset with
    | none => cases position
    | some offset => rfl

theorem field_reads (stored : j.Stored buf) {fields : List (Nat × Piece)}
    (finds : t.Finds buf fields) (known : ∀ f ∈ fields, j.KnowsPiece f.2) (slot : Nat) :
    FieldReads buf j t slot (fields.lookup slot) := by
  cases found : fields.lookup slot with
  | none =>
    apply lacks_slot finds
    intro mem
    obtain ⟨f, inside, same⟩ := List.mem_map.1 mem
    have differs := List.lookup_eq_none_iff.1 found f inside
    simp [same] at differs
  | some p =>
    have mem : (slot, p) ∈ fields := mem_of_lookup found
    have knows := known _ mem
    simp only [FieldReads]
    split
    next same => cases same
    next bytes same =>
      cases same
      refine ⟨finds.struct_own mem, fun v same => ?_⟩
      subst same
      exact finds.scalar_own mem
    next target same =>
      cases same
      refine ⟨knows, fun bytes text => ?_⟩
      rw [Table.text?, finds.target_ref mem, ok_bind, Option.mapM_some,
        text_stored_reads (stored.texts target bytes text)]
      rfl
    next target same =>
      cases same
      refine ⟨knows, fun v inside here => ?_⟩
      exact vector_reads stored inside (here ▸ finds.target_ref mem)
    next target same =>
      cases same
      refine ⟨knows, ?_⟩
      obtain ⟨fields', inside⟩ := knows
      obtain ⟨child, read, _⟩ := record_stored_reads (stored.records target fields' inside).1
      refine ⟨child, read, ?_⟩
      rw [Table.record?, finds.target_ref mem, ok_bind, Option.mapM_some, read]
      rfl

namespace Builder

variable {b : Builder}

theorem Fresh.keeps (fresh : b.Fresh) : Keeps b {} := by
  obtain ⟨config, history, rfl | rfl⟩ := fresh
  · exact ⟨ofConfig_sound config, nofun, nofun, nofun, fun _ _ stage => Stage.noConfusion stage,
      fun _ _ _ _ stage => Stage.noConfusion stage⟩
  · exact keeps_reset (run_sound (ofConfig_sound config) history)

theorem Keeps.stored (keeps : Keeps b j) {root : Nat} {sizePrefixed : Bool} {b' : Builder}
    (finished : Finished b root sizePrefixed buf b') : j.Stored buf := by
  have kept : b.settled <:+ buf.toList := by
    obtain ⟨gap, written⟩ := finished.written
    rw [keeps.sound.settled_idle finished.ready, finished.data]
    exact ⟨_, by rw [written, List.append_assoc]⟩
  exact ⟨fun d bytes mem => (keeps.texts d bytes mem).of_suffix kept,
    fun v mem => let ⟨stored, known⟩ := keeps.vectors v mem; ⟨stored.of_suffix kept, known⟩,
    fun d fields mem =>
      let ⟨stored, known⟩ := keeps.records d fields mem; ⟨stored.of_suffix kept, known⟩⟩

/-- What is known of a finish is known of the buffer that it answers with. -/
theorem buffer_of_finish {root : Ref .record} {identifier : Option Identifier} {sizePrefixed : Bool}
    {ok : Bytes → Builder → Prop} {bad : Error → Builder → Prop}
    (ends : Ends (finish root identifier sizePrefixed) b ok bad)
    (finished : (b.apply (.finish root identifier sizePrefixed)).1 = .ok (.buffer buf)) :
    ∃ b', ok buf b' := by
  have ends : Ends (Operation.finish root identifier sizePrefixed).step b
      (fun answer b' => ∀ bytes, answer = .buffer bytes → ok bytes b') (fun _ _ => True) := by
    rw [Operation.step, ends_map]
    refine ends.mono (fun bytes b' done bytes' same => ?_) fun _ _ _ => trivial
    cases same
    exact done
  exact ⟨_, ends.of_ok (run_of_apply_ok (Prod.ext finished rfl)) buf rfl⟩

theorem finished_of_apply (sound : b.Sound) {root : Ref .record} {identifier : Option Identifier}
    {sizePrefixed : Bool}
    (finished : (b.apply (.finish root identifier sizePrefixed)).1 = .ok (.buffer buf)) :
    ∃ b', Finished b root.distance sizePrefixed buf b' :=
  buffer_of_finish (finish_ends sound.region root identifier sizePrefixed) finished

/-- Every record that was closed reads back as it was written, whatever the configuration, whatever failed
on the way, and however often an object is referred to. -/
theorem finished_run_reads_back (fresh : b.Fresh) (ops : List Operation) (legal : Legal [] b ops)
    (root : Ref .record) (identifier : Option Identifier) (sizePrefixed : Bool) (buf : Bytes)
    (finished : ((b.run ops).apply (.finish root identifier sizePrefixed)).1 = .ok (.buffer buf))
    (d : Nat) (fields : List (Nat × Piece))
    (closed : (d, fields) ∈ (({} : Journal).run b ops).records) :
    ∃ t, Table.read buf (buf.size - d) = .ok t ∧ t.position = buf.size - d ∧
      ∀ slot, t.hasField buf slot = .ok (fields.lookup slot).isSome ∧
        FieldReads buf (({} : Journal).run b ops) t slot (fields.lookup slot) := by
  have keeps := keeps_run fresh.keeps (fun r none => absurd none List.not_mem_nil) ops legal
  obtain ⟨b', ended⟩ := finished_of_apply keeps.sound finished
  have stored := keeps.stored ended
  obtain ⟨record, known⟩ := stored.records d fields closed
  obtain ⟨t, read, position, finds⟩ := record_stored_reads record
  exact ⟨t, read, position, fun slot =>
    ⟨hasField_reads finds slot, field_reads stored finds known slot⟩⟩

/-- A text for two slots, an operation that fails, and a field that equals its default. -/
def sharedText : List Operation := [
  .createText "a", .startRecord, .addRefField 0 .text ⟨8⟩, .endVector, .addRefField 2 .text ⟨8⟩,
  .addField 3 (.int16 5) (.int16 5), .addField 4 (.int16 7) (.int16 5), .endRecord]

def sharedTextBuffer : Bytes := #[
  20, 0, 0, 0, 0, 0, 14, 0, 16, 0, 12, 0, 0, 0, 8, 0, 0, 0, 6, 0,
  14, 0, 0, 0, 0, 0, 7, 0, 8, 0, 0, 0, 4, 0, 0, 0, 1, 0, 0, 0, 97, 0, 0, 0]

theorem sharedText_legal : Legal [] (ofConfig {}) sharedText :=
  ⟨by decide +kernel, fun _ => nofun, by decide +kernel, fun _ => nofun, by decide +kernel,
    fun _ => nofun, by decide +kernel, fun _ => nofun, by decide +kernel, fun _ => nofun,
    by decide +kernel, fun _ => nofun, by decide +kernel, fun _ => nofun, by decide +kernel,
    fun _ => nofun, trivial⟩

theorem sharedText_reads_back :
    ∃ t, Table.read sharedTextBuffer 20 = .ok t ∧ t.position = 20 ∧
      ∀ slot, t.hasField sharedTextBuffer slot = .ok (([(4, .own [7, 0]), (2, .ref .text 8),
          (0, .ref .text 8)] : List (Nat × Piece)).lookup slot).isSome ∧
        FieldReads sharedTextBuffer (({} : Journal).run (ofConfig {}) sharedText) t slot
          (([(4, .own [7, 0]), (2, .ref .text 8), (0, .ref .text 8)] :
            List (Nat × Piece)).lookup slot) :=
  finished_run_reads_back ⟨{}, [], .inl rfl⟩ sharedText sharedText_legal ⟨24⟩ none false
    sharedTextBuffer (by decide +kernel) 24 _ (by decide +kernel)

end Builder

end FlatRecord
