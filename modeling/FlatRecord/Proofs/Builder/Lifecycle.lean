import FlatRecord.Proofs.Builder.Aligned
import FlatRecord.Proofs.Builder.OpenVector
import FlatRecord.Proofs.Builder.Runs

/-! The phases of a builder's life. Which operations are in order depends on the phase alone; what is out of
order is refused, and what is refused leaves the builder as it was. -/
namespace FlatRecord

open Builder Build

namespace Builder

/-- What the builder is in the middle of, without the places of what it has written. -/
inductive Phase where
  | idle
  | record
  | vector (length pushed elementSize : Nat)
  | finished
deriving DecidableEq, Repr

def Stage.phase : Stage → Phase
  | .idle => .idle
  | .record .. => .record
  | .vector length pushed elementSize _ => .vector length pushed elementSize
  | .finished => .finished

def phase (b : Builder) : Phase := b.stage.phase

namespace Phase

/-- From one phase to another, and from no other phase. -/
def moves (phase source target : Phase) : Option Phase := if phase = source then some target else none

/-- One element of `size` bytes more, where there is a place for it. -/
def push (size : Nat) : Phase → Option Phase
  | .vector length pushed elementSize =>
    if elementSize = size ∧ pushed < length then some (.vector length (pushed + 1) elementSize)
    else none
  | _ => none

/-- A vector ends when it has all its elements. -/
def close : Phase → Option Phase
  | .vector length pushed _ => if pushed = length then some .idle else none
  | _ => none

/-- The phase after an operation that succeeds. There is none for an operation that is out of order. -/
def next (phase : Phase) : Operation → Option Phase
  | .reset => some .idle
  | .pushScalar _ => if phase = .finished then none else some phase
  | .createText _ | .createBytes _ | .createVector .. | .createRefVector .. | .createTextVector _ =>
    phase.moves .idle .idle
  | .startVector length elementSize _ => phase.moves .idle (.vector length 0 elementSize)
  | .pushElement v => phase.push v.size
  | .pushBytesElement bytes => phase.push bytes.length
  | .pushRef .. => phase.push offsetSize
  | .endVector => phase.close
  | .startRecord => phase.moves .idle .record
  | .addField .. | .addRequiredField .. | .addStructField .. | .addRefField .. =>
    phase.moves .record .record
  | .endRecord => phase.moves .record .idle
  | .finish .. => phase.moves .idle .finished

variable {phase source target : Phase}

@[simp] theorem moves_self : source.moves source target = some target := if_pos rfl

theorem moves_of_ne (other : phase ≠ source) : phase.moves source target = none := if_neg other

end Phase

end Builder

/-- The operation comes at the wrong moment, whatever it was given. -/
def Misuse.isUntimely : Misuse → Bool
  | .badReference | .badElementLayout | .notFinished | .other _ => false
  | _ => true

namespace Error

def IsUntimely (e : Error) : Prop := ∃ misuse, e = .order misuse ∧ misuse.isUntimely = true

/-- The operation comes at the right moment and was given what does not fit. -/
def isUnfit : Error → Bool
  | .order .badReference | .order .badElementLayout | .duplicateField _ => true
  | _ => false

theorem not_untimely_of_unfit {e : Error} (unfit : e.isUnfit = true) : ¬e.IsUntimely := by
  rintro ⟨misuse, rfl, untimely⟩
  cases misuse <;> simp [isUnfit, Misuse.isUntimely] at unfit untimely

theorem not_untimely_of_limit {e : Error} (limit : e.IsLimit) : ¬e.IsUntimely := by
  obtain ⟨requested, largest, rfl⟩ := limit
  rintro ⟨misuse, same, -⟩
  cases same

end Error

namespace Builder

/-- How a step fails that leads to the phase `next` when it succeeds. Nothing but the size limit leaves
anything behind. -/
inductive Declines (b : Builder) : Option Phase → Error → Builder → Prop where
  | untimely {misuse : Misuse} (wrong : misuse.isUntimely = true) : Declines b none (.order misuse) b
  | unfit {phase : Phase} {e : Error} (wrong : e.isUnfit = true) : Declines b (some phase) e b
  | limit {phase : Phase} {e : Error} {b' : Builder} (limit : e.IsLimit) :
    Declines b (some phase) e b'

/-- What comes at the right moment is not declined for coming at the wrong one. -/
theorem Declines.not_untimely {b b' : Builder} {phase : Phase} {e : Error}
    (declined : Declines b (some phase) e b') : ¬e.IsUntimely := by
  cases declined with
  | unfit wrong => exact Error.not_untimely_of_unfit wrong
  | limit limit => exact Error.not_untimely_of_limit limit

/-- Behind the right moment a step fails by the size limit, or before it has changed anything. -/
theorem Declines.limit_or_same {b b' : Builder} {phase : Phase} {e : Error}
    (declined : Declines b (some phase) e b') : e.IsLimit ∨ b' = b := by
  cases declined with
  | unfit => exact .inr rfl
  | limit limit => exact .inl limit

/-- The step leads to the phase `next`, or it is declined. -/
def Abides (x : Build α) (b : Builder) (next : Option Phase) : Prop :=
  Ends x b (fun _ b' => next = some b'.phase) (Declines b next)

variable {b b' : Builder} {target : Phase} {next : Option Phase}

theorem stage_idle (idle : b.phase = .idle) : b.stage = .idle := by
  rw [phase] at idle
  cases stage : b.stage with
  | idle => rfl
  | record | vector | finished => rw [stage] at idle; cases idle

theorem stage_finished (finished : b.phase = .finished) : b.stage = .finished := by
  rw [phase] at finished
  cases stage : b.stage with
  | finished => rfl
  | idle | record | vector => rw [stage] at finished; cases finished

theorem abides_map {x : Build α} (f : α → β) (abides : Abides x b next) :
    Abides (f <$> x) b next := by
  rw [Abides, ends_map]
  exact abides

theorem abides_done {x : Build α} {answer : β} (abides : Abides x b next) :
    Abides (do let _ ← x; return answer) b next := by
  rw [Abides, ends_bind]
  exact abides

/-- A step that is out of order lets nothing come after it. -/
theorem abides_none {x : Build α} {f : α → Build β} (abides : Abides x b none) :
    Abides (x >>= f) b none := by
  rw [Abides, ends_bind]
  exact abides.mono (fun _ _ impossible => nomatch impossible) fun _ _ declined => declined

section Checks

variable {x : Build α}

theorem ensureIdle_then (rest : b.stage = .idle → Abides x b (some target)) :
    Abides (do ensureIdle; x) b (b.phase.moves .idle target) := by
  rw [Abides, ends_bind, ensureIdle, ends_bind, ends_get, phase]
  cases stage : b.stage with
  | idle =>
    rw [Stage.phase, Phase.moves_self]
    exact rest stage
  | record | vector | finished =>
    rw [Phase.moves_of_ne Phase.noConfusion]
    exact .untimely rfl

theorem ensureWritable_unless (finished : b.stage = .finished → next = none)
    (rest : b.stage ≠ .finished → Abides x b next) : Abides (do ensureWritable; x) b next := by
  rw [Abides, ends_bind]
  refine ensureWritable_ends.mono (fun _ b₁ start => ?_) fun e b₁ stop => ?_
  · obtain ⟨rfl, writable⟩ := start
    exact rest writable
  · obtain ⟨rfl, rfl, late⟩ := stop
    rw [finished late]
    exact .untimely rfl

theorem moves_finished {source : Phase} (open' : source ≠ .finished) (late : b.stage = .finished) :
    b.phase.moves source target = none := by
  rw [phase, late]
  exact Phase.moves_of_ne open'.symm

theorem checkSlot_then {slot : Nat} {x : Nat → Build α}
    (rest : ∀ start fields, b.stage = .record start fields → Abides (x start) b (some .record)) :
    Abides (do ensureWritable; x (← checkSlot slot)) b (b.phase.moves .record .record) := by
  refine ensureWritable_unless (moves_finished Phase.noConfusion) fun _ => ?_
  rw [Abides, ends_bind, checkSlot, ends_bind, ends_get, phase]
  cases stage : b.stage with
  | record start fields =>
    rw [Stage.phase, Phase.moves_self]
    dsimp only
    split
    next => exact .limit ⟨_, _, rfl⟩
    next =>
      split
      next => exact .unfit rfl
      next => exact rest start fields stage
  | idle | vector | finished =>
    rw [Phase.moves_of_ne Phase.noConfusion]
    exact .untimely rfl

theorem nextPlaces_then {size : Nat} {x : Nat × Nat → Build α}
    (rest : ∀ length pushed first, b.stage = .vector length pushed size first → pushed < length →
      Abides (x (first - pushed * size, first - length * size)) b
        (some (.vector length (pushed + 1) size))) :
    Abides (do ensureWritable; x (← nextPlaces size)) b (b.phase.push size) := by
  refine ensureWritable_unless (fun late => by rw [phase, late]; rfl) fun _ => ?_
  rw [Abides, ends_bind, nextPlaces, ends_bind, ends_get, phase]
  cases stage : b.stage with
  | vector length pushed elementSize first =>
    dsimp only
    split
    next wrong =>
      have none : (Stage.vector length pushed elementSize first).phase.push size = none :=
        if_neg fun fits => wrong fits.1
      rw [none]
      exact .untimely rfl
    next right =>
      have same : elementSize = size := by simpa using right
      subst same
      split
      next full =>
        have none : (Stage.vector length pushed elementSize first).phase.push elementSize = none :=
          if_neg fun fits => Nat.not_lt.2 full fits.2
        rw [none]
        exact .untimely rfl
      next more =>
        have one : (Stage.vector length pushed elementSize first).phase.push elementSize =
            some (.vector length (pushed + 1) elementSize) := if_pos ⟨rfl, Nat.not_le.1 more⟩
        rw [one]
        exact rest length pushed first stage (Nat.not_le.1 more)
  | idle | record | finished => exact .untimely rfl

theorem checkRef_then {distance limit : Nat}
    (rest : 0 < distance ∧ distance ≤ limit → Abides x b (some target)) :
    Abides (do checkRef distance limit; x) b (some target) := by
  rw [Abides, ends_bind]
  refine (checkRef_ends distance limit).mono (fun _ b₁ good => ?_) fun e b₁ bad => ?_
  · obtain ⟨rfl, inside⟩ := good
    exact rest inside
  · obtain ⟨rfl, rfl⟩ := bad
    exact .unfit rfl

end Checks

/-- The step only puts bytes in front of what an unfinished builder has written. -/
def OnlyWrites (x : Build α) : Prop :=
  ∀ b, b.RegionSound → b.stage ≠ .finished →
    Ends x b (fun _ b' => Littered b b') fun e _ => e.IsLimit

section Writing

theorem onlyWrites_pure (a : α) : OnlyWrites (pure a : Build α) :=
  fun _ sound _ => Littered.of_eq sound rfl

theorem onlyWrites_get {f : Builder → Build α} (rest : ∀ b, OnlyWrites (f b)) :
    OnlyWrites (get >>= f) := by
  intro b sound writable
  rw [ends_bind, ends_get]
  exact rest b b sound writable

theorem onlyWrites_bind {x : Build β} {f : β → Build α} (first : OnlyWrites x)
    (rest : ∀ a, OnlyWrites (f a)) : OnlyWrites (x >>= f) := by
  intro b sound writable
  rw [ends_bind]
  refine (first b sound writable).mono (fun a b₁ littered => ?_) fun _ _ limit => limit
  obtain ⟨left, adds⟩ := littered
  exact (rest a b₁ adds.region (adds.stage ▸ writable)).mono
    (fun _ _ more => more.after adds) fun _ _ limit => limit

theorem onlyWrites_write (bytes : List UInt8) : OnlyWrites (Builder.write bytes) :=
  fun _ sound _ => (write_ends sound bytes).mono (fun _ _ adds => adds.littered) fun _ _ bad => bad.1

theorem onlyWrites_writeZeros (count : Nat) : OnlyWrites (writeZeros count) :=
  fun _ sound _ => (writeZeros_ends sound count).mono (fun _ _ adds => adds.littered)
    fun _ _ bad => bad.1

theorem onlyWrites_align (length alignment : Nat) : OnlyWrites (align length alignment) :=
  fun _ sound _ => (align_ends sound length alignment).mono (fun _ _ adds => adds.littered)
    fun _ _ bad => bad.1

theorem onlyWrites_pushOffset (distance : Nat) : OnlyWrites (pushOffset distance) :=
  fun _ sound _ => (pushOffset_ends sound distance).mono (fun _ _ done => done.2.littered)
    fun _ _ bad => bad.1

theorem onlyWrites_pushScalar (v : Scalar) : OnlyWrites (Builder.pushScalar v) := by
  intro b sound writable
  refine (pushScalar_ends sound v).mono (fun _ _ done => done.2.littered) fun e b' bad => ?_
  rcases bad with ⟨-, -, finished⟩ | ⟨limit, -⟩
  · exact absurd finished writable
  · exact limit

/-- Behind the checks, a step leads from the stage to the phase, or fails by the size limit. -/
def Lands (x : Build α) (stage : Stage) (target : Phase) : Prop :=
  ∀ b, b.RegionSound → b.stage = stage →
    Ends x b (fun _ b' => b'.phase = target) fun e _ => e.IsLimit

variable {stage : Stage}

theorem OnlyWrites.lands {x : Build α} (writes : OnlyWrites x) (writable : stage ≠ .finished) :
    Lands x stage stage.phase := by
  intro b sound same
  refine (writes b sound (same ▸ writable)).mono (fun _ b' littered => ?_) fun _ _ limit => limit
  obtain ⟨left, adds⟩ := littered
  rw [phase, adds.stage, same]

theorem OnlyWrites.then_lands {x : Build β} {f : β → Build α} (writes : OnlyWrites x)
    (writable : stage ≠ .finished) (rest : ∀ a, Lands (f a) stage target) :
    Lands (x >>= f) stage target := by
  intro b sound same
  rw [ends_bind]
  refine (writes b sound (same ▸ writable)).mono (fun a b₁ littered => ?_) fun _ _ limit => limit
  obtain ⟨left, adds⟩ := littered
  exact rest a b₁ adds.region (adds.stage.trans same)

theorem lands_get {f : Builder → Build α} (rest : ∀ b, Lands (f b) stage target) :
    Lands (get >>= f) stage target := by
  intro b sound same
  rw [ends_bind, ends_get]
  exact rest b b sound same

theorem lands_setStage (stage after : Stage) : Lands (setStage after) stage after.phase :=
  fun _ _ _ => rfl

theorem lands_noteField (slot start : Nat) (fields : List Field) :
    Lands (noteField slot) (.record start fields) .record := by
  intro b _ same
  rw [noteField, ends_modify, phase, same]
  rfl

theorem Lands.abides {x : Build α} (lands : Lands x b.stage target) (sound : b.RegionSound) :
    Abides x b (some target) :=
  (lands b sound rfl).mono (fun _ _ done => congrArg some done.symm) fun _ _ limit => .limit limit

end Writing

section Operations

theorem pushScalar_abides (sound : b.RegionSound) (v : Scalar) :
    Abides (Builder.pushScalar v) b (if b.phase = .finished then none else some b.phase) := by
  split
  next finished =>
    exact ensureWritable_unless (fun _ => rfl) fun writable => absurd (stage_finished finished) writable
  next open' =>
    have writable : b.stage ≠ .finished := fun late => open' (by rw [phase, late]; rfl)
    exact ((onlyWrites_pushScalar v).lands writable).abides sound

theorem createUnchecked_abides (sound : b.RegionSound) (bytes : List UInt8) :
    Abides (createUnchecked bytes) b (b.phase.moves .idle .idle) := by
  refine ensureIdle_then fun idle => ?_
  split
  next => exact .limit ⟨_, _, rfl⟩
  next =>
    have writes : OnlyWrites (do
        align (bytes.length + 1) offsetSize
        Builder.write [0]
        Builder.write bytes
        Builder.write (LittleEndian.encode offsetSize bytes.length)
        hereAs .text) :=
      onlyWrites_bind (onlyWrites_align _ _) fun _ => onlyWrites_bind (onlyWrites_write _) fun _ =>
        onlyWrites_bind (onlyWrites_write _) fun _ => onlyWrites_bind (onlyWrites_write _) fun _ =>
          onlyWrites_get fun _ => onlyWrites_pure _
    refine Lands.abides ?_ sound
    rw [idle]
    exact writes.lands Stage.noConfusion

/-- Whether the bytes are a text is asked before anything else. -/
theorem createBytes_abides (sound : b.RegionSound) (bytes : Bytes) :
    Ends (createBytes bytes) b (fun _ b' => b.phase.moves .idle .idle = some b'.phase)
      fun e b' => e = .invalidText ∧ b' = b ∨ Declines b (b.phase.moves .idle .idle) e b' := by
  rw [createBytes, ends_bind, ends_get]
  split
  next => exact .inl ⟨rfl, rfl⟩
  next =>
    exact Ends.mono (createUnchecked_abides sound bytes.toList) (fun _ _ done => done)
      fun _ _ => .inr

theorem startVector_abides (sound : b.RegionSound) (length elementSize alignment : Nat) :
    Abides (startVector length elementSize alignment) b
      (b.phase.moves .idle (.vector length 0 elementSize)) := by
  refine ensureIdle_then fun idle => ?_
  dsimp only
  split
  next => exact .unfit rfl
  next =>
    split
    next => exact .limit ⟨_, _, rfl⟩
    next =>
      have writable : b.stage ≠ .finished := by rw [idle]; exact Stage.noConfusion
      refine Lands.abides ?_ sound
      refine (onlyWrites_align _ _).then_lands writable fun _ => ?_
      refine (onlyWrites_writeZeros _).then_lands writable fun _ => ?_
      exact lands_get fun _ => lands_setStage _ _

theorem pushBytesElement_abides (sound : b.Sound) (bytes : List UInt8) :
    Abides (pushBytesElement bytes) b (b.phase.push bytes.length) := by
  rw [pushBytesElement_eq]
  refine nextPlaces_then (x := fun places => fillElement places.1 bytes)
    fun length pushed first stage more => ?_
  have fits := sound.fits
  rw [stage] at fits
  exact (fillElement_ends sound.region bytes stage more fits.2.1 fits.2.2).mono
    (fun _ _ filled => by rw [filled]; rfl) fun _ _ never => never.elim

theorem pushRef_abides (sound : b.Sound) {kind : ObjectKind} (child : Ref kind) :
    Abides (pushRef child) b (b.phase.push offsetSize) := by
  rw [pushRef_eq]
  refine nextPlaces_then (x := fun places => do
    checkRef child.distance places.2
    fillElement places.1 (LittleEndian.encode offsetSize (places.1 - child.distance)))
    fun length pushed first stage more => ?_
  refine checkRef_then fun _ => ?_
  have fits := sound.fits
  rw [stage] at fits
  have size := LittleEndian.length_encode offsetSize (first - pushed * offsetSize - child.distance)
  have fill := fillElement_ends sound.region (LittleEndian.encode offsetSize
    (first - pushed * offsetSize - child.distance)) (by rw [size]; exact stage) more
    (by rw [size]; exact fits.2.1) fits.2.2
  rw [size] at fill
  exact fill.mono (fun _ _ filled => by rw [filled, phase, Builder.filled, size]; rfl)
    fun _ _ never => never.elim

theorem endVector_abides (sound : b.RegionSound) : Abides endVector b b.phase.close := by
  refine ensureWritable_unless (fun late => by rw [phase, late]; rfl) fun _ => ?_
  rw [Abides, ends_bind, ends_get, phase]
  cases stage : b.stage with
  | vector length pushed elementSize first =>
    dsimp only
    split
    next few =>
      have none : (Stage.vector length pushed elementSize first).phase.close = none := if_neg few
      rw [none]
      exact .untimely rfl
    next full =>
      have one : (Stage.vector length pushed elementSize first).phase.close = some .idle :=
        if_pos (by simpa using full)
      have counts : OnlyWrites (do pushCount length; hereAs .vector) :=
        onlyWrites_bind (onlyWrites_pushScalar _) fun _ => onlyWrites_get fun _ => onlyWrites_pure _
      rw [one, ends_bind, setStage, ends_modify]
      exact (counts.lands Stage.noConfusion (b.withStage .idle) (sound.withStage .idle) rfl).mono
        (fun _ _ done => congrArg some done.symm) fun _ _ limit => .limit limit
  | idle | record | finished => exact .untimely rfl

theorem startRecord_abides : Abides startRecord b (b.phase.moves .idle .record) :=
  ensureIdle_then fun _ => rfl

/-- A field that is written and noted. -/
theorem field_abides {x : Build Unit} (slot : Nat) {start : Nat} {fields : List Field}
    (sound : b.RegionSound) (stage : b.stage = .record start fields) (writes : OnlyWrites x) :
    Abides (do x; noteField slot) b (some .record) := by
  refine Lands.abides (stage ▸ ?_) sound
  exact writes.then_lands Stage.noConfusion fun _ => lands_noteField slot start fields

theorem addField_abides (sound : b.RegionSound) (slot : Nat) (value default : Scalar) :
    Abides (addField slot value default) b (b.phase.moves .record .record) := by
  refine checkSlot_then (x := fun _ => do
    if value.sameNumber default ∧ !(← get).config.forceDefaults then return
    Builder.pushScalar value
    noteField slot) fun start fields stage => ?_
  rw [Abides, ends_bind, ends_get]
  split
  next =>
    change some Phase.record = some b.phase
    rw [phase, stage]
    rfl
  next => exact field_abides slot sound stage (onlyWrites_pushScalar value)

theorem addRequiredField_abides (sound : b.RegionSound) (slot : Nat) (value : Scalar) :
    Abides (addRequiredField slot value) b (b.phase.moves .record .record) :=
  checkSlot_then fun _ _ stage => field_abides slot sound stage (onlyWrites_pushScalar value)

theorem addStructField_abides (sound : b.RegionSound) (slot : Nat) (bytes : List UInt8)
    (alignment : Nat) :
    Abides (addStructField slot bytes alignment) b (b.phase.moves .record .record) := by
  refine checkSlot_then (x := fun _ => do
    align bytes.length alignment
    Builder.write bytes
    noteField slot) fun _ _ stage => ?_
  have writes : OnlyWrites (do align bytes.length alignment; Builder.write bytes) :=
    onlyWrites_bind (onlyWrites_align _ _) fun _ => onlyWrites_write bytes
  have field := field_abides slot sound stage writes
  rwa [bind_assoc] at field

theorem addRefField_abides (sound : b.RegionSound) (slot : Nat) {kind : ObjectKind}
    (child : Ref kind) :
    Abides (addRefField slot child) b (b.phase.moves .record .record) := by
  refine checkSlot_then (x := fun start => do
    checkRef child.distance start
    pushOffset child.distance
    noteField slot) fun _ _ stage => ?_
  exact checkRef_then fun _ => field_abides slot sound stage (onlyWrites_pushOffset _)

theorem endRecord_abides (sound : b.Sound) :
    Abides endRecord b (b.phase.moves .record .idle) := by
  by_cases open' : ∃ start fields, b.stage = .record start fields
  · obtain ⟨start, fields, stage⟩ := open'
    rw [phase, stage, Stage.phase, Phase.moves_self]
    have ends := (endRecord_ends sound.region sound.fits sound.tables_written).and
      (endRecord_raises sound.region sound.tables_written)
    refine Ends.mono ends (fun ref b' done => ?_) fun _ _ bad => .limit (bad.2 ⟨start, fields, stage⟩)
    obtain ⟨⟨_, _, _, closed⟩, -⟩ := done
    rw [phase, closed.stage]
    rfl
  · refine ensureWritable_unless (moves_finished Phase.noConfusion) fun _ => ?_
    rw [Abides, ends_bind, ends_get, phase]
    cases stage : b.stage with
    | record start fields => exact absurd ⟨start, fields, stage⟩ open'
    | idle | vector | finished =>
      rw [Phase.moves_of_ne Phase.noConfusion]
      exact .untimely rfl

/-- The header, written behind all checks. -/
theorem finish_lands (root : Ref .record) (identifier : Option Identifier) (sizePrefixed : Bool) :
    Lands (do
      let header := offsetSize + (if identifier.isSome then identifierSize else 0)
        + (if sizePrefixed then offsetSize else 0)
      align header (max (← get).minAlign offsetSize)
      if let some id := identifier then Builder.write id.toList
      pushOffset root.distance
      if sizePrefixed then pushCount (← get).used
      setStage .finished
      return (← get).region.data) .idle .finished := by
  have rest : Lands (do
      pushOffset root.distance
      if sizePrefixed then pushCount (← get).used
      setStage .finished
      return (← get).region.data) .idle .finished := by
    refine (onlyWrites_pushOffset _).then_lands Stage.noConfusion fun _ => ?_
    have close : Lands (do setStage .finished; return (← get).region.data) .idle .finished :=
      fun _ _ _ => rfl
    cases sizePrefixed with
    | false => exact close
    | true =>
      exact lands_get fun _ => (onlyWrites_pushScalar _).then_lands Stage.noConfusion fun _ => close
  refine lands_get fun _ => (onlyWrites_align _ _).then_lands Stage.noConfusion fun _ => ?_
  cases identifier with
  | none => exact rest
  | some id => exact (onlyWrites_write _).then_lands Stage.noConfusion fun _ => rest

theorem finish_abides (sound : b.RegionSound) (root : Ref .record) (identifier : Option Identifier)
    (sizePrefixed : Bool) :
    Abides (finish root identifier sizePrefixed) b (b.phase.moves .idle .finished) := by
  refine ensureWritable_unless (moves_finished Phase.noConfusion) fun _ => ?_
  rw [Abides, ends_bind, ends_get]
  dsimp only
  split
  next busy =>
    rw [Phase.moves_of_ne fun idle => busy (stage_idle idle)]
    exact .untimely rfl
  next idle =>
    have idle : b.stage = .idle := by simpa using idle
    rw [phase, idle, Stage.phase, Phase.moves_self, ends_bind, ends_get]
    refine checkRef_then fun _ => Lands.abides ?_ sound
    rw [idle]
    exact finish_lands root identifier sizePrefixed

/-- Single operations abide by the phases. -/
theorem single_abides (sound : b.Sound) {op : Operation} (single : op.isSingle = true) :
    Ends op.step b (fun _ b' => b.phase.next op = some b'.phase) fun e b' =>
      (∃ bytes, op = .createBytes bytes) ∧ e = .invalidText ∧ b' = b ∨
        Declines b (b.phase.next op) e b' := by
  have plain {x : Build Answer} {next : Option Phase} (abides : Abides x b next) :
      Ends x b (fun _ b' => next = some b'.phase) fun e b' =>
        (∃ bytes, op = .createBytes bytes) ∧ e = .invalidText ∧ b' = b ∨ Declines b next e b' :=
    Ends.mono abides (fun _ _ done => done) fun _ _ => .inr
  cases op with
  | createVector => cases single
  | createRefVector => cases single
  | createTextVector => cases single
  | reset => exact rfl
  | createBytes bytes =>
    rw [Operation.step, ends_map]
    exact (createBytes_abides sound.region bytes).mono (fun _ _ done => done) fun _ _ bad =>
      bad.imp (fun invalid => ⟨⟨bytes, rfl⟩, invalid⟩) id
  | pushScalar v => exact plain (abides_done (pushScalar_abides sound.region v))
  | createText text => exact plain (abides_map _ (createUnchecked_abides sound.region _))
  | startVector length elementSize alignment =>
    exact plain (abides_done (startVector_abides sound.region length elementSize alignment))
  | pushElement v =>
    have abides := pushBytesElement_abides sound v.toBytes
    rw [Scalar.length_toBytes] at abides
    exact plain (abides_done abides)
  | pushBytesElement bytes => exact plain (abides_done (pushBytesElement_abides sound bytes))
  | pushRef kind child => exact plain (abides_done (pushRef_abides sound child))
  | endVector => exact plain (abides_map _ (endVector_abides sound.region))
  | startRecord => exact plain (abides_done startRecord_abides)
  | addField slot value default =>
    exact plain (abides_done (addField_abides sound.region slot value default))
  | addRequiredField slot value =>
    exact plain (abides_done (addRequiredField_abides sound.region slot value))
  | addStructField slot bytes alignment =>
    exact plain (abides_done (addStructField_abides sound.region slot bytes alignment))
  | addRefField slot kind child =>
    exact plain (abides_done (addRefField_abides sound.region slot child))
  | endRecord => exact plain (abides_map _ (endRecord_abides sound))
  | finish root identifier sizePrefixed =>
    exact plain (abides_map _ (finish_abides sound.region root identifier sizePrefixed))

/-- An operation that is made of others is refused by the first of them. -/
theorem composite_abides (sound : b.RegionSound) {op : Operation} (composite : op.isSingle = false)
    (late : b.phase.next op = none) : Abides op.step b none := by
  have busy (moves : b.phase.moves .idle .idle = none) (target : Phase) :
      b.phase.moves .idle target = none := by
    refine Phase.moves_of_ne fun idle => ?_
    rw [idle, Phase.moves_self] at moves
    cases moves
  have vector (length size alignment : Nat) (moves : b.phase.moves .idle .idle = none) :
      Abides (startVector length size alignment) b none := by
    have abides := startVector_abides sound length size alignment
    rwa [busy moves] at abides
  cases op with
  | createVector type items => exact abides_map _ (abides_none (vector _ _ _ late))
  | createRefVector kind items => exact abides_map _ (abides_none (vector _ _ _ late))
  | createTextVector items =>
    refine abides_map _ ?_
    cases items with
    | nil =>
      rw [Builder.createTextVector, List.mapM_nil, pure_bind]
      exact abides_none (vector _ _ _ late)
    | cons text rest =>
      have abides := createUnchecked_abides sound (Text.toBytes text).toList
      rw [show b.phase.moves .idle .idle = none from late] at abides
      rw [Builder.createTextVector, List.mapM_cons]
      exact abides_none (abides_none abides)
  | _ => cases composite

end Operations

/-- What is out of order is refused and changes nothing. -/
theorem refused_of_next_none (sound : b.Sound) {op : Operation} (late : b.phase.next op = none) :
    ∃ e, b.apply op = (.error e, b) ∧
      (e.IsUntimely ∨ e = .invalidText ∧ ∃ bytes, op = .createBytes bytes) := by
  have ends : Ends op.step b (fun _ _ => False) fun e b' =>
      b' = b ∧ (e.IsUntimely ∨ e = .invalidText ∧ ∃ bytes, op = .createBytes bytes) := by
    have declined {e : Error} {b' : Builder} (declined : Declines b none e b') :
        b' = b ∧ (e.IsUntimely ∨ e = .invalidText ∧ ∃ bytes, op = .createBytes bytes) := by
      cases declined with
      | untimely wrong => exact ⟨rfl, .inl ⟨_, rfl, wrong⟩⟩
    cases single : op.isSingle with
    | true =>
      refine (single_abides sound single).mono (fun _ b' done => ?_) fun e b' bad => ?_
      · rw [late] at done
        cases done
      · rcases bad with ⟨bytes, invalid, same⟩ | bad
        · exact ⟨same, .inr ⟨invalid, bytes⟩⟩
        · exact declined (late ▸ bad)
    | false =>
      exact Ends.mono (composite_abides sound.region single late)
        (fun _ _ impossible => nomatch impossible) fun _ _ bad => declined bad
  simp only [Ends] at ends
  unfold apply
  cases result : op.step.run b with
  | ok answer b' => rw [result] at ends; exact ends.elim
  | error e b' =>
    rw [result] at ends
    obtain ⟨rfl, wrong⟩ := ends
    exact ⟨e, rfl, wrong⟩

theorem next_finished {op : Operation} (stays : op ≠ .reset) : Phase.finished.next op = none := by
  cases op with
  | reset => exact absurd rfl stays
  | _ => rfl

/-- Nothing but a reset changes a finished builder. -/
theorem finished_run (sound : b.Sound) (finished : b.phase = .finished) (ops : List Operation)
    (stays : ∀ op ∈ ops, op ≠ .reset) : b.run ops = b := by
  induction ops with
  | nil => rfl
  | cons op rest ih =>
    obtain ⟨first, later⟩ := List.forall_mem_cons.1 stays
    obtain ⟨e, refused, -⟩ := refused_of_next_none sound (finished ▸ next_finished first)
    rw [run_cons, refused]
    exact ih later

/-- Only `finish` answers with bytes, and they are what the finished builder holds. -/
theorem buffer_finishes (sound : b.Sound) (op : Operation) :
    Ends op.step b (fun answer b' => ∀ bytes, answer = .buffer bytes →
      b'.phase = .finished ∧ b'.finishedData = .ok bytes) fun _ _ => True := by
  have silent {α : Type} {x : Build α} {answer : α → Answer}
      (other : ∀ a bytes, answer a ≠ .buffer bytes) :
      Ends (do let a ← x; return answer a) b (fun answer b' => ∀ bytes, answer = .buffer bytes →
        b'.phase = .finished ∧ b'.finishedData = .ok bytes) fun _ _ => True := by
    rw [ends_bind]
    exact (ends_trivial x).mono (fun a _ _ bytes same => absurd same (other a bytes))
      fun _ _ _ => trivial
  have mapped {α : Type} {x : Build α} {answer : α → Answer}
      (other : ∀ a bytes, answer a ≠ .buffer bytes) :
      Ends (answer <$> x) b (fun answer b' => ∀ bytes, answer = .buffer bytes →
        b'.phase = .finished ∧ b'.finishedData = .ok bytes) fun _ _ => True := by
    rw [map_eq_pure_bind]
    exact silent other
  cases op with
  | finish root identifier sizePrefixed =>
    rw [Operation.step, ends_map]
    refine (finish_ends sound.region root identifier sizePrefixed).mono (fun bytes b' done => ?_)
      fun _ _ _ => trivial
    intro bytes' same
    cases same
    have data : b'.region.data = bytes := by
      apply Array.toList_inj.1
      rw [done.data, Region.toList_data]
      rfl
    refine ⟨by rw [phase, done.stage]; rfl, ?_⟩
    rw [finishedData, isFinished, done.stage, data]
    rfl
  | createText => exact mapped fun _ _ => Answer.noConfusion
  | createBytes => exact mapped fun _ _ => Answer.noConfusion
  | createVector => exact mapped fun _ _ => Answer.noConfusion
  | createRefVector => exact mapped fun _ _ => Answer.noConfusion
  | createTextVector => exact mapped fun _ _ => Answer.noConfusion
  | endVector => exact mapped fun _ _ => Answer.noConfusion
  | endRecord => exact mapped fun _ _ => Answer.noConfusion
  | _ => exact silent fun _ _ => Answer.noConfusion

/-- An operation succeeds only from a phase that it is in order in, and leads to the next one. Out of order it
is refused; and a single operation that is refused, out of order or not, leaves the builder as it was unless
the size limit stopped it. A buffer that was handed out stays what the builder holds until a reset. -/
theorem operations_follow_phases (reachable : b.Reachable) (op : Operation) :
    (b.phase.next op = none → ∃ e, b.apply op = (.error e, b) ∧
      (e.IsUntimely ∨ e = .invalidText ∧ ∃ bytes, op = .createBytes bytes)) ∧
    (op.isSingle = true → ∀ answer b', b.apply op = (.ok answer, b') →
      b.phase.next op = some b'.phase) ∧
    (op.isSingle = true → ∀ e b', b.apply op = (.error e, b') →
      (e.IsUntimely → b.phase.next op = none) ∧ (¬e.IsLimit → b' = b)) ∧
    ∀ bytes b', b.apply op = (.ok (.buffer bytes), b') →
      ∀ ops, (∀ op ∈ ops, op ≠ .reset) → b'.run ops = b' ∧ b'.finishedData = .ok bytes := by
  have sound := reachable.sound
  refine ⟨refused_of_next_none sound, fun single answer b' done => ?_,
    fun single e b' failed => ?_, fun bytes b' done ops stays => ?_⟩
  · exact (single_abides sound single).of_ok (run_of_apply_ok done)
  · have ends := single_abides sound single
    simp only [Ends, run_of_apply_error failed] at ends
    rcases ends with ⟨-, rfl, same⟩ | declined
    · refine ⟨?_, fun _ => same⟩
      rintro ⟨misuse, order, -⟩
      cases order
    · cases next : b.phase.next op with
      | none =>
        rw [next] at declined
        cases declined
        exact ⟨fun _ => rfl, fun _ => rfl⟩
      | some phase =>
        rw [next] at declined
        exact ⟨fun untimely => absurd untimely declined.not_untimely,
          fun unlimited => declined.limit_or_same.resolve_left unlimited⟩
  · obtain ⟨finished, data⟩ := (buffer_finishes sound op).of_ok (run_of_apply_ok done) bytes rfl
    have after : b'.Sound := by
      have step := apply_sound sound op
      rwa [done] at step
    exact ⟨finished_run after finished ops stays, data⟩

/-- A vector of two elements that has one, and a record without fields. -/
def halfVector : List Operation := [.startVector 2 1 1, .pushElement (.uint8 7)]

def bareRecord : List Operation := [.startRecord, .endRecord]

theorem halfVector_refuses_end :
    (∃ e, ((ofConfig {}).run halfVector).apply .endVector = (.error e, (ofConfig {}).run halfVector) ∧
      (e.IsUntimely ∨ e = .invalidText ∧ ∃ bytes, Operation.endVector = .createBytes bytes)) ∧
    ((((ofConfig {}).run bareRecord).apply (.finish ⟨4⟩ none false)).2.run bareRecord).finishedData =
      .ok #[8, 0, 0, 0, 4, 0, 4, 0, 4, 0, 0, 0] := by
  have refused := (operations_follow_phases (b := (ofConfig {}).run halfVector) ⟨{}, halfVector, rfl⟩
    .endVector).1 (by decide +kernel)
  have finished : (((ofConfig {}).run bareRecord).apply (.finish ⟨4⟩ none false)).1 =
      .ok (.buffer #[8, 0, 0, 0, 4, 0, 4, 0, 4, 0, 0, 0]) := by decide +kernel
  obtain ⟨same, data⟩ := (operations_follow_phases (b := (ofConfig {}).run bareRecord)
    ⟨{}, bareRecord, rfl⟩ (.finish ⟨4⟩ none false)).2.2.2 _ _ (Prod.ext finished rfl) bareRecord
      (by decide)
  exact ⟨refused, same ▸ data⟩

end Builder

end FlatRecord
