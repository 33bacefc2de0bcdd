import FlatRecord.Proofs.Builder.Header
import FlatRecord.Proofs.Builder.Standing

/-! Where things stand in a finished buffer. The builder aligns what it writes by its distance from the end; since the
header's padding makes the whole length a multiple of every alignment that was asked for, everything stands at a
multiple of its alignment from the front as well. -/
namespace FlatRecord

open Builder Build

/-- Something that was written: a piece at the alignment that it asks for, or a record, whose field table may be that
of another record too. -/
inductive Mark where
  | piece (alignment distance : Nat) (piece : Piece)
  | record (distance size : Nat) (places : List Field)
deriving DecidableEq, Repr

/-- The bytes of the mark are where `P` wants bytes of their alignment to be. -/
def Mark.Meets (P : (alignment distance : Nat) → List UInt8 → Prop) : Mark → Prop
  | piece alignment d p => P alignment d (p.bytesAt d)
  | record d size places => ∃ table, P entrySize table (tableBytes d size places) ∧
    P offsetSize d (tableOffset table d)

theorem Mark.Meets.imp {P Q : Nat → Nat → List UInt8 → Prop} {m : Mark} (meets : m.Meets P)
    (weaker : ∀ alignment d bytes, P alignment d bytes → Q alignment d bytes) : m.Meets Q := by
  cases m with
  | piece => exact weaker _ _ _ meets
  | record => exact Exists.imp (fun _ both => ⟨weaker _ _ _ both.1, weaker _ _ _ both.2⟩) meets

/-- The bytes are found in the buffer, and both their position and the buffer's length are multiples of the
alignment. -/
structure AlignedIn (buf : Bytes) (alignment d : Nat) (bytes : List UInt8) : Prop where
  holds : Holds buf.toList d bytes
  position : alignment ∣ buf.size - d
  total : alignment ∣ buf.size

namespace Builder

def elementMark (b : Builder) (p : Piece) : Mark := .piece (elementAlignment p) b.nextPlace p

/-- What an operation that succeeded has written. A vector's place is marked when it begins, its count when it ends. -/
def Operation.marks (b b' : Builder) : Operation → Answer → List Mark
  | .pushScalar v, _ => [.piece v.size b'.used (.own v.toBytes)]
  | .createText text, .object _ ref =>
    [.piece offsetSize ref.distance (.own (textBytes (Text.toBytes text).toList))]
  | .createBytes bytes, .object _ ref =>
    [.piece offsetSize ref.distance (.own (textBytes bytes.toList))]
  | .startVector _ _ alignment, _ => [.piece (max offsetSize alignment) b'.used (.own [])]
  | .pushElement v, _ => [b.elementMark (.own v.toBytes)]
  | .pushBytesElement bytes, _ => [b.elementMark (.own bytes)]
  | .pushRef kind child, _ => [b.elementMark (.ref kind child.distance)]
  | .endVector, .object _ ref =>
    match b.stage with
    | .vector length .. =>
      [.piece offsetSize ref.distance (.own (Scalar.uint32 (UInt32.ofNat length)).toBytes)]
    | _ => []
  | .addField _ value default, _ =>
    if b.elides value default then [] else [.piece value.size b'.used (.own value.toBytes)]
  | .addRequiredField _ value, _ => [.piece value.size b'.used (.own value.toBytes)]
  | .addStructField _ bytes alignment, _ => [.piece alignment b'.used (.own bytes)]
  | .addRefField _ kind child, _ => [.piece offsetSize b'.used (.ref kind child.distance)]
  | .endRecord, .object _ ref =>
    match b.stage with
    | .record start places => [.record ref.distance (ref.distance - start) places]
    | _ => []
  | _, _ => []

/-- The marks of operations that stop at the first failure. -/
def marksInOrder (b : Builder) : List Operation → List Mark
  | [] => []
  | op :: rest =>
    match b.apply op with
    | (.ok answer, b') => op.marks b b' answer ++ b'.marksInOrder rest
    | (.error _, _) => []

/-- The marks of a run, behind older ones. A reset begins another buffer. -/
def marks (log : List Mark) (b : Builder) : List Operation → List Mark
  | [] => log
  | op :: rest =>
    marks (if op = .reset then [] else log ++ b.marksInOrder (b.parts op)) (b.apply op).2 rest

/-- The marks of a finished buffer's header. -/
def headerMarks (size root : Nat) (identifier : Option Identifier) (sizePrefixed : Bool) : List Mark :=
  let offset := if sizePrefixed then size - offsetSize else size
  (if sizePrefixed then
      [.piece offsetSize size (.own (LittleEndian.encode offsetSize (size - offsetSize)))] else []) ++
    .piece offsetSize offset (.ref .record root) ::
    identifier.toList.map fun id => .piece offsetSize (offset - offsetSize) (.own id.toList)

/-- The alignment that an operation is given. -/
def Operation.alignment? : Operation → Option Nat
  | .startVector _ _ alignment | .addStructField _ _ alignment => some alignment
  | _ => none

/-- Every alignment that the operation is given is a power of two. -/
def Operation.AsksPowers (op : Operation) : Prop := ∀ n, op.alignment? = some n → IsWordPower n

variable {b b' : Builder} {d : Nat} {bytes : List UInt8}

/-- A builder in which every mark is in its place. -/
structure Marked (b : Builder) (log : List Mark) : Prop where
  sound : b.Sound
  regular : b.Regular
  level : b.Level
  placed : ∀ m ∈ log, m.Meets (Placed b)

section Runs

variable {log : List Mark}

theorem finish_lays (sound : b.Sound) (level : b.Level) (root : Ref .record)
    (identifier : Option Identifier) (sizePrefixed : Bool) :
    Ends (finish root identifier sizePrefixed) b (fun _ b' => Lays b b') fun _ b' => Lays b b' := by
  refine (finish_ends sound.region root identifier sizePrefixed).mono (fun bytes b' done => ?_)
    fun _ _ bad => bad.lays level
  exact lays_in_front (done.data ▸ done.suffix) (done.tables ▸ level.tables) (not_inVector_finished done.stage)

/-- A step keeps what older marks say, and leaves its own in their places if it succeeds. -/
def Operation.LeavesMarks (op : Operation) (b : Builder) : Prop :=
  Ends op.step b (fun answer b' => Lays b b' ∧ ∀ m ∈ op.marks b b' answer, m.Meets (Placed b'))
    fun _ b' => Lays b b'

theorem one_mark {m : Mark} (lays : Lays b b') (meets : m.Meets (Placed b')) :
    Lays b b' ∧ ∀ n ∈ [m], n.Meets (Placed b') :=
  ⟨lays, List.forall_mem_singleton.2 meets⟩

theorem no_marks (lays : Lays b b') : Lays b b' ∧ ∀ n ∈ ([] : List Mark), n.Meets (Placed b') :=
  ⟨lays, List.forall_mem_nil _⟩

theorem pushScalar_marks (sound : b.Sound) (level : b.Level) (v : Scalar) :
    (Operation.pushScalar v).LeavesMarks b := by
  rw [Operation.LeavesMarks, Operation.step, ends_bind]
  exact (scalar_placed sound level v).mono (fun _ _ done => one_mark done.1 done.2) fun _ _ bad => bad

theorem createText_marks (sound : b.Sound) (level : b.Level) (text : String) :
    (Operation.createText text).LeavesMarks b := by
  rw [Operation.LeavesMarks, Operation.step, ends_map]
  exact (text_placed sound level (createUnchecked_ends sound.region _)
    (createUnchecked_raises sound.region _)).mono (fun _ _ done => one_mark done.1 done.2) fun _ _ bad => bad

theorem createBytes_marks (sound : b.Sound) (level : b.Level) (bytes : Bytes) :
    (Operation.createBytes bytes).LeavesMarks b := by
  rw [Operation.LeavesMarks, Operation.step, ends_map]
  exact (text_placed sound level (createBytes_ends sound.region bytes)
    (createBytes_raises sound.region bytes)).mono (fun _ _ done => one_mark done.1 done.2) fun _ _ bad => bad

theorem startVector_marks (sound : b.Sound) (level : b.Level) (length elementSize : Nat) {alignment : Nat}
    (power : IsWordPower alignment) : (Operation.startVector length elementSize alignment).LeavesMarks b := by
  rw [Operation.LeavesMarks, Operation.step, ends_bind]
  exact (vector_placed sound level length elementSize power).mono
    (fun _ _ done => one_mark done.1 done.2) fun _ _ bad => bad

theorem pushBytesElement_marks (marked : Marked b log) (bytes : List UInt8) :
    (Operation.pushBytesElement bytes).LeavesMarks b := by
  have sound := marked.sound
  rw [Operation.LeavesMarks, Operation.step, ends_bind]
  exact (element_placed sound marked.regular marked.level (.own bytes)
    (pushBytesElement_ends sound.region sound.fits bytes)).mono
    (fun _ _ done => one_mark done.1 done.2) fun _ _ bad => bad

theorem pushRef_marks (marked : Marked b log) {kind : ObjectKind} (child : Ref kind) :
    (Operation.pushRef kind child).LeavesMarks b := by
  have sound := marked.sound
  rw [Operation.LeavesMarks, Operation.step, ends_bind]
  refine (element_placed sound marked.regular marked.level (.ref kind child.distance)
    ((pushRef_ends sound.region sound.fits child).mono (fun _ _ done => ?_) fun _ _ same => same)).mono
    (fun _ _ done => one_mark done.1 done.2) fun _ _ bad => bad
  obtain ⟨length, pushed, first, stage, more, -, -, same⟩ := done
  exact ⟨length, pushed, first, stage, more, same⟩

theorem endVector_marks (sound : b.Sound) (level : b.Level) : Operation.endVector.LeavesMarks b := by
  rw [Operation.LeavesMarks, Operation.step, ends_map]
  refine (count_placed sound level).mono (fun ref b' done => ?_) fun _ _ bad => bad
  obtain ⟨lays, length, size, first, stage, placed⟩ := done
  rw [Operation.marks, stage]
  exact one_mark lays placed

theorem startRecord_marks (level : b.Level) : Operation.startRecord.LeavesMarks b := by
  rw [Operation.LeavesMarks, Operation.step, ends_bind]
  exact (startRecord_lays level).mono (fun _ _ lays => no_marks lays) fun _ _ bad => bad

/-- A field that is left out leaves no mark. -/
theorem addField_marks (sound : b.Sound) (level : b.Level) (slot : Nat) (value default : Scalar) :
    (Operation.addField slot value default).LeavesMarks b := by
  rw [Operation.LeavesMarks, Operation.step, ends_bind]
  refine (optional_placed sound level slot value default).mono (fun _ b' done => ?_) fun _ _ bad => bad
  obtain ⟨lays, placed⟩ := done
  rw [ends_pure, Operation.marks]
  split
  next => exact no_marks lays
  next written => exact one_mark lays (placed (by simpa using written))

theorem addRequiredField_marks (sound : b.Sound) (level : b.Level) (slot : Nat) (value : Scalar) :
    (Operation.addRequiredField slot value).LeavesMarks b := by
  obtain ⟨k, -, power⟩ := value.type.size_power
  rw [Operation.LeavesMarks, Operation.step, ends_bind]
  exact (field_placed (fun _ => value.toBytes) sound level ⟨k, power⟩
    (addRequiredField_ends sound.region slot value)
    (addRequiredField_raises sound.region slot value)).mono
    (fun _ _ done => one_mark done.1 done.2) fun _ _ bad => bad

theorem addStructField_marks (sound : b.Sound) (level : b.Level) (slot : Nat) (bytes : List UInt8)
    {alignment : Nat} (power : IsWordPower alignment) :
    (Operation.addStructField slot bytes alignment).LeavesMarks b := by
  obtain ⟨k, small, rfl⟩ := power
  rw [Operation.LeavesMarks, Operation.step, ends_bind]
  exact (field_placed (fun _ => bytes) sound level ⟨k, rfl⟩
    (addStructField_ends sound.region slot bytes (2 ^ k))
    (addStructField_raises sound.region slot bytes small)).mono
    (fun _ _ done => one_mark done.1 done.2) fun _ _ bad => bad

theorem addRefField_marks (sound : b.Sound) (level : b.Level) (slot : Nat) {kind : ObjectKind}
    (child : Ref kind) : (Operation.addRefField slot kind child).LeavesMarks b := by
  rw [Operation.LeavesMarks, Operation.step, ends_bind]
  exact (field_placed _ sound level ⟨2, rfl⟩
    ((addRefField_ends sound.region slot child).mono (fun _ _ done => done.2.2) fun _ _ bad => bad)
    (addRefField_raises sound.region slot child)).mono
    (fun _ _ done => one_mark done.1 done.2) fun _ _ bad => bad

theorem endRecord_marks (sound : b.Sound) (level : b.Level) : Operation.endRecord.LeavesMarks b := by
  rw [Operation.LeavesMarks, Operation.step, ends_map]
  refine (record_placed sound level).mono (fun ref b' done => ?_) fun _ _ bad => bad
  obtain ⟨lays, start, places, table, stage, placed⟩ := done
  rw [Operation.marks, stage]
  exact one_mark lays ⟨table, placed⟩

/-- The marks of a header are those of the finished buffer, not of the builder. -/
theorem finish_marks (sound : b.Sound) (level : b.Level) (root : Ref .record)
    (identifier : Option Identifier) (sizePrefixed : Bool) :
    (Operation.finish root identifier sizePrefixed).LeavesMarks b := by
  rw [Operation.LeavesMarks, Operation.step, ends_map]
  exact (finish_lays sound level root identifier sizePrefixed).mono (fun _ _ lays => no_marks lays)
    fun _ _ bad => bad

theorem single_marks (marked : Marked b log) {op : Operation} (single : op.isSingle = true)
    (stays : op ≠ .reset) (powers : op.AsksPowers) : op.LeavesMarks b := by
  have sound := marked.sound
  have level := marked.level
  cases op with
  | reset => exact absurd rfl stays
  | createVector => cases single
  | createRefVector => cases single
  | createTextVector => cases single
  | pushScalar v => exact pushScalar_marks sound level v
  | createText text => exact createText_marks sound level text
  | createBytes bytes => exact createBytes_marks sound level bytes
  | startVector length elementSize => exact startVector_marks sound level length elementSize (powers _ rfl)
  | pushElement v => exact pushBytesElement_marks marked v.toBytes
  | pushBytesElement bytes => exact pushBytesElement_marks marked bytes
  | pushRef kind child => exact pushRef_marks marked child
  | endVector => exact endVector_marks sound level
  | startRecord => exact startRecord_marks level
  | addField slot value default => exact addField_marks sound level slot value default
  | addRequiredField slot value => exact addRequiredField_marks sound level slot value
  | addStructField slot bytes => exact addStructField_marks sound level slot bytes (powers _ rfl)
  | addRefField slot kind child => exact addRefField_marks sound level slot child
  | endRecord => exact endRecord_marks sound level
  | finish root identifier sizePrefixed => exact finish_marks sound level root identifier sizePrefixed

/-- Everything stays in its place while a step lays what it writes, whether it fails or not. -/
theorem Marked.after (marked : Marked b log) (lays : Lays b b') (advances : Advances b b')
    (regular : b'.Regular) (least : b.minAlign ≤ b'.minAlign) : Marked b' log :=
  ⟨advances.sound, regular, lays.level, fun m mem => (marked.placed m mem).imp fun _ _ _ placed =>
    ⟨lays.stands _ _ placed.stands, placed.sits.mono ⟨advances.kept, least⟩⟩⟩

theorem regular_step {op : Operation} (powers : op.AsksPowers) (stays : op ≠ .reset) :
    Remembers IsWordPower op.step := by
  refine remembers_step (fun k small => ?_) ?_ stays
  · rintro _ ⟨j, small', rfl⟩
    exact ⟨max j k, by omega, max_two_pow j k⟩
  · have bears {alignment : Nat} (power : IsWordPower alignment) : Bears IsWordPower alignment :=
      .of_holds power
    cases op with
    | startVector length elementSize alignment => exact fun _ => bears (powers _ rfl)
    | addStructField slot bytes alignment => exact bears (powers _ rfl)
    | _ => trivial

theorem least_step {least : Nat} {op : Operation} (stays : op ≠ .reset) :
    Remembers (least ≤ ·) op.step := by
  refine remembers_step (fun k _ => bears_least least _) ?_ stays
  cases op with
  | startVector => exact fun _ => bears_least least _
  | addStructField => exact bears_least least _
  | _ => trivial

theorem marked_single (marked : Marked b log) {op : Operation} (single : op.isSingle = true)
    (stays : op ≠ .reset) (powers : op.AsksPowers) :
    Ends op.step b (fun answer b' => Marked b' (log ++ op.marks b b' answer))
      fun _ b' => Marked b' log := by
  have kept := (op.safe stays b marked.sound).and ((regular_step powers stays b marked.regular).and
    (least_step stays b (Nat.le_refl b.minAlign)))
  refine ((single_marks marked single stays powers).and kept).mono (fun answer b' done => ?_)
    fun e b' bad => ?_
  · obtain ⟨⟨lays, added⟩, advances, regular, least⟩ := done
    have older := marked.after lays advances regular least
    refine ⟨older.sound, regular, older.level, fun m mem => ?_⟩
    rcases List.mem_append.1 mem with before | here
    · exact older.placed m before
    · exact added m here
  · obtain ⟨lays, advances, regular, least⟩ := bad
    exact marked.after lays advances regular least

theorem marked_inOrder (marked : Marked b log) (ops : List Operation)
    (plain : ∀ op ∈ ops, op.isSingle = true ∧ op ≠ .reset ∧ op.AsksPowers) :
    Marked (b.applyInOrder ops).2 (log ++ b.marksInOrder ops) := by
  induction ops generalizing b log with
  | nil =>
    rw [marksInOrder, List.append_nil]
    exact marked
  | cons op rest ih =>
    obtain ⟨⟨single, stays, powers⟩, later⟩ := List.forall_mem_cons.1 plain
    have ends := marked_single marked single stays powers
    rw [marksInOrder]
    cases result : b.apply op with
    | mk answer b' =>
      cases answer with
      | ok answer =>
        rw [applyInOrder_ok result, ← List.append_assoc]
        exact ih (ends.of_ok (run_of_apply_ok result)) later
      | error e =>
        simp only [Ends, run_of_apply_error result] at ends
        rw [applyInOrder_error result, List.append_nil]
        exact ends

theorem asksPowers_none {op : Operation} (none : op.alignment? = none) : op.AsksPowers := by
  intro n asked
  rw [none] at asked
  cases asked

theorem refVectorParts_plain (kind : ObjectKind) (items : List (Ref kind)) :
    ∀ op ∈ refVectorParts kind items, op.isSingle = true ∧ op ≠ .reset ∧ op.AsksPowers := by
  intro op mem
  rw [refVectorParts, List.cons_append, List.mem_cons, List.mem_append, List.mem_map,
    List.mem_singleton] at mem
  rcases mem with rfl | ⟨ref, -, rfl⟩ | rfl
  · exact ⟨rfl, Operation.noConfusion, fun n asked => ⟨2, by decide, (Option.some.inj asked).symm⟩⟩
  · exact ⟨rfl, Operation.noConfusion, asksPowers_none rfl⟩
  · exact ⟨rfl, Operation.noConfusion, asksPowers_none rfl⟩

/-- The parts of an operation are given what it is given, or the alignments of scalars and offsets. -/
theorem parts_plain {op : Operation} (stays : op ≠ .reset) (powers : op.AsksPowers) :
    ∀ part ∈ b.parts op, part.isSingle = true ∧ part ≠ .reset ∧ part.AsksPowers := by
  cases op with
  | createVector type items =>
    obtain ⟨k, small, power⟩ := type.size_power
    intro part mem
    rw [parts, List.cons_append, List.mem_cons, List.mem_append, List.mem_map,
      List.mem_singleton] at mem
    rcases mem with rfl | ⟨v, -, rfl⟩ | rfl
    · exact ⟨rfl, Operation.noConfusion, fun n asked =>
        ⟨k, by omega, (Option.some.inj asked).symm.trans power⟩⟩
    · exact ⟨rfl, Operation.noConfusion, asksPowers_none rfl⟩
    · exact ⟨rfl, Operation.noConfusion, asksPowers_none rfl⟩
  | createRefVector kind items => exact refVectorParts_plain kind items
  | createTextVector items =>
    intro part mem
    rcases List.mem_append.1 mem with text | vector
    · obtain ⟨item, -, rfl⟩ := List.mem_map.1 text
      exact ⟨rfl, Operation.noConfusion, asksPowers_none rfl⟩
    · split at vector
      · exact refVectorParts_plain .text _ part vector
      · cases vector
  | _ =>
    intro part mem
    obtain rfl := List.mem_singleton.1 mem
    exact ⟨rfl, stays, powers⟩

theorem marked_empty (sound : b.Sound) (idle : b.stage = .idle) (least : b.minAlign = 1)
    (none : b.tables = []) : Marked b [] :=
  ⟨sound, ⟨0, by decide, least⟩, level_of_apart (none ▸ List.forall_mem_nil _) (not_inVector_of_idle idle),
    List.forall_mem_nil _⟩

theorem marked_run (marked : Marked b log) (ops : List Operation)
    (powers : ∀ op ∈ ops, op.AsksPowers) : Marked (b.run ops) (b.marks log ops) := by
  induction ops generalizing b log with
  | nil => exact marked
  | cons op rest ih =>
    obtain ⟨first, later⟩ := List.forall_mem_cons.1 powers
    rw [run_cons, Builder.marks]
    split
    next forgets =>
      subst forgets
      exact ih (marked_empty (reset_sound marked.sound) rfl rfl rfl) later
    next stays =>
      refine ih ?_ later
      rw [apply_parts]
      exact marked_inOrder marked _ (parts_plain stays first)

end Runs

section Finishing

variable {buf : Bytes} {root : Nat} {sizePrefixed : Bool}

theorem alignedIn_offset (holds : Holds buf.toList d bytes) (here : offsetSize ∣ d)
    (total : offsetSize ∣ buf.size) : AlignedIn buf offsetSize d bytes :=
  ⟨holds, Nat.dvd_sub total here, total⟩

/-- The fields of the header come first, and what is in front of each of them is a multiple of four. -/
theorem header_in_place (ended : Finished b root sizePrefixed buf b') (four : offsetSize ∣ buf.size)
    {identifier : Option Identifier}
    (named : ∀ id, identifier = some id → ∃ front rest, front.length = headerEnd sizePrefixed ∧
      buf.toList = front ++ (id.toList ++ rest)) :
    ∀ m ∈ headerMarks buf.size root identifier sizePrefixed, m.Meets (AlignedIn buf) := by
  have used : b'.used = buf.size := by
    rw [← ended.region.length_written, ← ended.data, Array.length_toList]
  obtain ⟨gap, written⟩ := ended.written
  rw [← ended.data, used] at written
  have front : Holds buf.toList buf.size (headerBytes buf.size root sizePrefixed) :=
    ⟨[], gap ++ b.written, written, Array.length_toList.symm.trans (congrArg List.length written)⟩
  have size : buf.toList.length = buf.size := Array.length_toList
  have identified (d : Nat) (place : d = buf.size - headerEnd sizePrefixed) (whole : offsetSize ∣ d) :
      ∀ m ∈ identifier.toList.map fun id => Mark.piece offsetSize d (.own id.toList),
        m.Meets (AlignedIn buf) := by
    intro m mem
    obtain ⟨id, some, rfl⟩ := List.mem_map.1 mem
    obtain ⟨before, rest, length, split⟩ := named id (Option.mem_toList.1 some)
    refine alignedIn_offset ⟨before, rest, split, ?_⟩ whole four
    rw [place, ← size, split, List.length_append, length, Nat.add_sub_cancel_left]
    rfl
  cases sizePrefixed with
  | false =>
    simp only [headerBytes, headerMarks, Bool.false_eq_true, if_false, List.nil_append,
      List.forall_mem_cons] at front ⊢
    refine ⟨alignedIn_offset front four four, identified _ rfl ?_⟩
    exact Nat.dvd_sub four (Nat.dvd_refl _)
  | true =>
    simp only [headerBytes, headerMarks, if_true, List.singleton_append,
      List.forall_mem_cons] at front ⊢
    have behind := front.right
    rw [LittleEndian.length_encode] at behind
    have whole : offsetSize ∣ buf.size - offsetSize := Nat.dvd_sub four (Nat.dvd_refl _)
    refine ⟨alignedIn_offset front.left four four, alignedIn_offset behind whole four,
      identified _ (Nat.sub_sub _ _ _) (Nat.dvd_sub whole (Nat.dvd_refl _))⟩

/-- Whatever was written on the way is in the buffer when it is finished, at a multiple of its alignment: scalars at
their size, structs and vectors at what was asked for them, counts, records, offsets and the header's fields at four,
and field tables at two. The buffer's length is a multiple of all of these, and of what was asked for in vain. -/
theorem finished_in_place (config : Config) (ops : List Operation)
    (powers : ∀ op ∈ ops, op.AsksPowers) (root : Ref .record) (identifier : Option Identifier)
    (sizePrefixed : Bool) (buf : Bytes)
    (finished : (((ofConfig config).run ops).apply (.finish root identifier sizePrefixed)).1 =
      .ok (.buffer buf)) :
    (∀ m ∈ (ofConfig config).marks [] ops ++ headerMarks buf.size root.distance identifier sizePrefixed,
      m.Meets (AlignedIn buf)) ∧
    ((ofConfig config).run ops).minAlign ∣ buf.size := by
  have marked := marked_run (marked_empty (ofConfig_sound config) rfl rfl rfl) ops powers
  obtain ⟨b', ended⟩ := finished_of_apply marked.sound finished
  obtain ⟨_, whole⟩ := buffer_of_finish
    (finish_aligned marked.sound.region marked.regular root identifier sizePrefixed) finished
  obtain ⟨k, small, power⟩ := marked.regular
  have fits : ((ofConfig config).run ops).FitsHeader := by
    rw [FitsHeader, power]
    exact fitsOffsets_two_pow k
  have carries : ((ofConfig config).run ops).ground.Carries buf :=
    ⟨(settled_suffix_written _).trans ended.suffix, fun j asked =>
      whole j (Nat.le_trans asked (Nat.le_max_left _ _))⟩
  refine ⟨fun m mem => ?_, power ▸ carries.whole k (Nat.le_of_eq power.symm)⟩
  rcases List.mem_append.1 mem with before | header
  · refine (marked.placed m before).imp fun alignment d bytes placed => ?_
    obtain ⟨⟨j, rfl⟩, asked, -⟩ := placed.sits
    exact ⟨placed.stands.holds.of_suffix ended.suffix, placed.sits.position carries, carries.whole j asked⟩
  · refine header_in_place ended (whole 2 (Nat.le_max_right _ _)) (fun id named => ?_) m header
    subst named
    obtain ⟨_, split⟩ :=
      buffer_of_finish (finish_names marked.sound.region fits root id sizePrefixed) finished
    exact split

/-- A vector and a struct with alignments of their own, behind a struct that there is no room for. -/
def paddedRun : List Operation := [
  .createText "ab", .pushScalar (.uint8 7), .startVector 1 4 16, .pushRef .text ⟨8⟩, .endVector, .startRecord,
  .addStructField 0 (List.replicate 200 1) 32, .addStructField 0 [1, 2, 3] 8, .addRefField 1 .vector ⟨20⟩, .endRecord]

def narrowConfig : Config := { maxSize := 96 }

def paddedBuffer : Bytes := #[
  60, 0, 0, 0, 20, 0, 0, 0, 70, 87, 66, 84, 0, 0, 0, 0, 8, 0, 20, 0, 8, 0, 4, 0, 8, 0, 0, 0, 16, 0, 0, 0,
  1, 2, 3, 0, 0, 0, 0, 0, 0, 0, 0, 0, 1, 0, 0, 0, 8, 0, 0, 0, 0, 0, 0, 7, 2, 0, 0, 0, 97, 98, 0, 0]

theorem paddedBuffer_in_place :
    (((ofConfig narrowConfig).run paddedRun).apply (.finish ⟨40⟩ (some magic) true)).1 =
      .ok (.buffer paddedBuffer) ∧
    .piece 8 32 (.own [1, 2, 3]) ∈ (ofConfig narrowConfig).marks [] paddedRun ∧
    AlignedIn paddedBuffer 8 32 [1, 2, 3] ∧ 32 ∣ paddedBuffer.size := by
  have finished : (((ofConfig narrowConfig).run paddedRun).apply (.finish ⟨40⟩ (some magic) true)).1 =
      .ok (.buffer paddedBuffer) := by decide +kernel
  have mem : .piece 8 32 (.own [1, 2, 3]) ∈ (ofConfig narrowConfig).marks [] paddedRun := by
    decide +kernel
  have powers : ∀ op ∈ paddedRun, op.AsksPowers := by
    intro op mem n asked
    simp only [paddedRun, List.mem_cons, List.not_mem_nil, or_false] at mem
    rcases mem with rfl | rfl | rfl | rfl | rfl | rfl | rfl | rfl | rfl | rfl <;> cases asked
    · exact ⟨4, by decide, rfl⟩
    · exact ⟨5, by decide, rfl⟩
    · exact ⟨3, by decide, rfl⟩
  have asked : ((ofConfig narrowConfig).run paddedRun).minAlign = 32 := by decide +kernel
  obtain ⟨places, total⟩ := finished_in_place narrowConfig paddedRun powers ⟨40⟩ (some magic) true
    paddedBuffer finished
  exact ⟨finished, mem, places _ (List.mem_append_left _ mem), asked ▸ total⟩

end Finishing

end Builder

end FlatRecord
