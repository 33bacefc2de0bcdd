import FlatRecord.Builder.Text
import FlatRecord.Builder.Vector
import FlatRecord.Proofs.Builder.Writing

/-! What each step of a text or a vector does. A step that fails leaves the open object as it was, or, at
the very end of a vector, closed; in front of what was written there may be bytes that nothing refers to. -/
namespace FlatRecord

open Builder Build

namespace Builder

/-- Nothing has changed but that bytes were added in front. -/
def Littered (b b' : Builder) : Prop := ∃ left, Adds b left b'

def withStage (b : Builder) (stage : Stage) : Builder := { b with stage }

variable {b b' : Builder}

@[simp] theorem written_withStage (stage : Stage) : (b.withStage stage).written = b.written := rfl

@[simp] theorem used_withStage (stage : Stage) : (b.withStage stage).used = b.used := rfl

theorem RegionSound.withStage (sound : b.RegionSound) (stage : Stage) :
    (b.withStage stage).RegionSound := ⟨sound.sound, sound.limit⟩

theorem Littered.of_eq (sound : b.RegionSound) (same : b' = b) : Littered b b' :=
  ⟨[], same.symm ▸ Adds.refl sound⟩

theorem Adds.littered {bytes : List UInt8} (adds : Adds b bytes b') : Littered b b' := ⟨bytes, adds⟩

theorem Littered.after {b₁ : Builder} {bytes : List UInt8} (adds : Adds b bytes b₁)
    (rest : Littered b₁ b') : Littered b b' :=
  let ⟨left, more⟩ := rest
  ⟨left ++ bytes, adds.trans more⟩

/-- A text in the buffer: a count, the bytes, and a zero that is not counted. -/
def textBytes (bytes : List UInt8) : List UInt8 :=
  LittleEndian.encode offsetSize bytes.length ++ (bytes ++ [0])

/-- A vector that is open keeps its elements' place among the written bytes, and an open record its
fields. -/
def Stage.Fits : Stage → (used : Nat) → Prop
  | .vector length pushed elementSize first, used =>
    pushed ≤ length ∧ length * elementSize ≤ first ∧ first ≤ used
  | .record start fields, used =>
    start ≤ used ∧ (∀ f ∈ fields, start ≤ f.distance ∧ f.distance ≤ used ∧ f.slot < slotLimit) ∧
      (fields.map (·.slot)).Nodup
  | .idle, _ | .finished, _ => True

end Builder

variable {b : Builder}

theorem hereAs_ends (kind : ObjectKind) {ok : Ref kind → Builder → Prop}
    {bad : Error → Builder → Prop} : Ends (hereAs kind) b ok bad ↔ ok ⟨b.used⟩ b := Iff.rfl

theorem createUnchecked_ends (sound : b.RegionSound) (bytes : List UInt8) :
    Ends (createUnchecked bytes) b
      (fun ref b' => b.stage = .idle ∧ bytes.length < 2 ^ 32 ∧ ref.distance = b'.used ∧
        ∃ gap < offsetSize, Adds b (textBytes bytes ++ zeros gap) b')
      (fun _ b' => Littered b b') := by
  rw [createUnchecked, ends_bind]
  refine ensureIdle_ends.mono (fun _ b₁ start => ?_)
    (fun _ _ bad => Littered.of_eq sound bad.2.1)
  obtain ⟨rfl, idle⟩ := start
  dsimp only
  split
  next =>
    simp only [ends_bind, ends_get, ends_throw]
    exact Littered.of_eq sound rfl
  next short =>
    simp only [ends_bind]
    refine (align_ends sound _ _).mono (fun _ b₁ pad => ?_) (fun _ _ bad => bad.2.littered)
    refine (write_ends pad.region _).mono (fun _ b₂ zero => ?_) (fun _ _ bad => bad.2 ▸ pad.littered)
    have first := pad.trans zero
    refine (write_ends first.region _).mono (fun _ b₃ body => ?_)
      (fun _ _ bad => bad.2 ▸ first.littered)
    have second := first.trans body
    refine (write_ends second.region _).mono (fun _ b₄ count => ?_)
      (fun _ _ bad => bad.2 ▸ second.littered)
    rw [hereAs_ends]
    have text (gap : List UInt8) : LittleEndian.encode offsetSize bytes.length ++
        (bytes ++ ([0] ++ gap)) = textBytes bytes ++ gap := by simp [textBytes]
    exact ⟨idle, by omega, rfl, _, padding_lt _ 2 (by decide), text _ ▸ second.trans count⟩

theorem createBytes_ends (sound : b.RegionSound) (bytes : Bytes) :
    Ends (createBytes bytes) b
      (fun ref b' => b.stage = .idle ∧ bytes.toList.length < 2 ^ 32 ∧ ref.distance = b'.used ∧
        ∃ gap < offsetSize, Adds b (textBytes bytes.toList ++ zeros gap) b')
      (fun _ b' => Littered b b') := by
  rw [createBytes, ends_bind, ends_get]
  split
  next => exact Littered.of_eq sound rfl
  next => exact createUnchecked_ends sound bytes.toList

theorem isPowerOfTwo_iff (n : Nat) : isPowerOfTwo n = true ↔ ∃ k, n = 2 ^ k := by
  rw [isPowerOfTwo, beq_iff_eq]
  constructor
  · exact fun power => ⟨_, power⟩
  · rintro ⟨k, rfl⟩
    rw [Nat.log2_two_pow]

/-- The place of the elements begins at a multiple of four, so that the count will stand in front of it
without a gap. -/
theorem startVector_ends (sound : b.RegionSound) (length elementSize alignment : Nat) :
    Ends (startVector length elementSize alignment) b
      (fun _ b' => b.stage = .idle ∧ elementSize ≠ 0 ∧ length * elementSize < 2 ^ 32 ∧
        ∃ b₁ gap, Adds b (zeros (length * elementSize) ++ gap) b₁ ∧
          gap = zeros (padding (b.used + length * elementSize) (max alignment offsetSize)) ∧
          b₁.used % 4 = 0 ∧ b' = b₁.withStage (.vector length 0 elementSize b₁.used))
      (fun _ b' => Littered b b') := by
  rw [startVector, ends_bind]
  refine ensureIdle_ends.mono (fun _ b₁ start => ?_)
    (fun _ _ bad => Littered.of_eq sound bad.2.1)
  obtain ⟨rfl, idle⟩ := start
  dsimp only
  split
  next => exact Littered.of_eq sound rfl
  next layout =>
    obtain ⟨positive, power⟩ := not_or.1 layout
    obtain ⟨k, rfl⟩ := (isPowerOfTwo_iff alignment).1 (by simpa using power)
    split
    next =>
      simp only [ends_bind, ends_get, ends_throw]
      exact Littered.of_eq sound rfl
    next short =>
      simp only [ends_bind]
      refine (align_ends sound _ _).mono (fun _ b₂ pad => ?_) (fun _ _ bad => bad.2.littered)
      refine (writeZeros_ends pad.region _).mono (fun _ b₃ space => ?_)
        (fun _ _ bad => bad.2 ▸ pad.littered)
      have both := pad.trans space
      refine ⟨idle, positive, by omega, b₃, _, both, rfl, ?_, rfl⟩
      have even : max (2 ^ k) offsetSize = 2 ^ max k 2 := max_two_pow k 2
      have aligned := add_padding_four (b₁.used + length * elementSize) (max k 2) (by omega)
      have used := both.used sound
      rw [← aligned, used, even]
      simp only [List.length_append, length_zeros]
      congr 1
      omega

theorem ensureWritable_then {x : Build α} {ok : α → Builder → Prop} {bad : Error → Builder → Prop}
    (refused : ∀ e, bad e b) (next : b.stage ≠ .finished → Ends x b ok bad) :
    Ends (do ensureWritable; x) b ok bad := by
  rw [ends_bind]
  refine ensureWritable_ends.mono (fun _ b₁ start => ?_) (fun e _ stop => stop.2.1 ▸ refused e)
  obtain ⟨rfl, writable⟩ := start
  exact next writable

namespace Builder

/-- The distances of the next element and of the end of the vector. -/
def nextPlaces (size : Nat) : Build (Nat × Nat) := do
  match (← get).stage with
  | .vector length pushed elementSize first =>
    if elementSize ≠ size then throw (.order .wrongElementSize)
    if length ≤ pushed then throw (.order .tooManyElements)
    return (first - pushed * size, first - length * size)
  | _ => throw (.order .noVectorForElement)

def Stage.countElement : Stage → Stage
  | .vector length pushed elementSize first => .vector length (pushed + 1) elementSize first
  | stage => stage

@[simp] theorem Stage.uncount_count (stage : Stage) : stage.countElement.uncountElement = stage := by
  cases stage <;> rfl

/-- Fills the next element's place. -/
def fillElement (distance : Nat) (bytes : List UInt8) : Build Unit := do
  modify fun b => { b with stage := b.stage.countElement }
  overwrite distance bytes

theorem nextElement_eq (size : Nat) : nextElement size = (do
    let places ← nextPlaces size
    modify fun b => { b with stage := b.stage.countElement }
    return places) := by
  funext b
  simp only [nextElement, nextPlaces, bind_assoc]
  show EStateM.run (get >>= _) b = EStateM.run (get >>= _) b
  rw [run_get, run_get]
  cases stage : b.stage with
  | vector length pushed elementSize first =>
    dsimp only
    split
    next => rfl
    next =>
      split
      next => rfl
      next =>
        have counted : b.stage.countElement = .vector length (pushed + 1) elementSize first := by
          rw [stage]
          rfl
        exact congrArg (fun stage => EStateM.Result.ok _ { b with stage }) counted.symm
  | idle | record | finished => rfl

theorem pushBytesElement_eq (bytes : List UInt8) : pushBytesElement bytes = (do
    ensureWritable
    let places ← nextPlaces bytes.length
    fillElement places.1 bytes) := by
  simp only [pushBytesElement, nextElement_eq, bind_assoc, pure_bind, fillElement]

/-- A reference that is refused has its count taken back, as if it were only counted once it is accepted. -/
theorem pushRef_eq {kind : ObjectKind} (child : Ref kind) : pushRef child = (do
    ensureWritable
    let places ← nextPlaces offsetSize
    checkRef child.distance places.2
    fillElement places.1 (LittleEndian.encode offsetSize (places.1 - child.distance))) := by
  simp only [pushRef, nextElement_eq, bind_assoc, pure_bind, fillElement]
  congr 1
  funext _
  congr 1
  funext places
  funext b
  simp only [checkRef]
  split
  next =>
    exact congrArg (fun stage => EStateM.Result.error _ { b with stage }) (Stage.uncount_count b.stage)
  next => rfl

end Builder

theorem nextPlaces_ends (size : Nat) :
    Ends (nextPlaces size) b
      (fun places b' => b' = b ∧ ∃ length pushed first, b.stage = .vector length pushed size first ∧
        pushed < length ∧ places = (first - pushed * size, first - length * size))
      (fun _ b' => b' = b) := by
  rw [nextPlaces, ends_bind, ends_get]
  cases stage : b.stage with
  | vector length pushed elementSize first =>
    dsimp only
    split
    next => exact rfl
    next same =>
      have same : elementSize = size := by simpa using same
      subst same
      split
      next => exact rfl
      next more => exact ⟨rfl, length, pushed, first, rfl, by omega, rfl⟩
  | idle | record | finished => exact rfl

/-- A vector's next element is filled: nothing but the element's place and the number of elements
changes. -/
def Builder.filled (b : Builder) (length pushed first : Nat) (bytes : List UInt8) : Builder :=
  { b with
    stage := .vector length (pushed + 1) bytes.length first
    region := b.region.overwrite (first - pushed * bytes.length) bytes }

@[simp]
theorem Builder.minAlign_filled (b : Builder) (length pushed first : Nat) (bytes : List UInt8) :
    (b.filled length pushed first bytes).minAlign = b.minAlign := rfl

theorem element_fits {length pushed size first used : Nat} (more : pushed < length)
    (room : length * size ≤ first) (inside : first ≤ used) :
    first - pushed * size ≤ used ∧ size ≤ first - pushed * size := by
  have step : (pushed + 1) * size ≤ length * size := Nat.mul_le_mul_right _ more
  rw [Nat.add_mul] at step
  omega

theorem fillElement_ends (sound : b.RegionSound) {length pushed first : Nat} (bytes : List UInt8)
    (stage : b.stage = .vector length pushed bytes.length first) (more : pushed < length)
    (room : length * bytes.length ≤ first) (inside : first ≤ b.used) :
    Ends (fillElement (first - pushed * bytes.length) bytes) b
      (fun _ b' => b' = b.filled length pushed first bytes) (fun _ _ => False) := by
  have place := element_fits more room inside
  have granted := Region.within_ok b.region (first - pushed * bytes.length) bytes.length sound.sound
    place.1 place.2
  simp only [fillElement, Builder.overwrite, ends_bind, ends_modify, ends_get, ends_ofExcept,
    granted, filled, stage, Stage.countElement]
  constructor
  · intros
    trivial
  · intro e refused
    cases refused

theorem pushBytesElement_ends (sound : b.RegionSound) (fits : b.stage.Fits b.used)
    (bytes : List UInt8) :
    Ends (pushBytesElement bytes) b
      (fun _ b' => ∃ length pushed first, b.stage = .vector length pushed bytes.length first ∧
        pushed < length ∧ b' = b.filled length pushed first bytes)
      (fun _ b' => b' = b) := by
  rw [pushBytesElement_eq]
  refine ensureWritable_then (fun _ => rfl) (fun _ => ?_)
  rw [ends_bind]
  refine (nextPlaces_ends _).mono (fun places b₁ found => ?_) (fun _ _ same => same)
  obtain ⟨rfl, length, pushed, first, stage, more, rfl⟩ := found
  rw [stage] at fits
  exact (fillElement_ends sound bytes stage more fits.2.1 fits.2.2).mono
    (fun _ _ done => ⟨length, pushed, first, stage, more, done⟩) (fun _ _ never => never.elim)

theorem pushRef_ends (sound : b.RegionSound) (fits : b.stage.Fits b.used) {kind : ObjectKind}
    (child : Ref kind) :
    Ends (pushRef child) b
      (fun _ b' => ∃ length pushed first, b.stage = .vector length pushed offsetSize first ∧
        pushed < length ∧ 0 < child.distance ∧ child.distance ≤ first - length * offsetSize ∧
        b' = b.filled length pushed first (LittleEndian.encode offsetSize
          (first - pushed * offsetSize - child.distance)))
      (fun _ b' => b' = b) := by
  rw [pushRef_eq]
  refine ensureWritable_then (fun _ => rfl) (fun _ => ?_)
  rw [ends_bind]
  refine (nextPlaces_ends _).mono (fun places b₁ found => ?_) (fun _ _ same => same)
  obtain ⟨rfl, length, pushed, first, stage, more, rfl⟩ := found
  rw [stage] at fits
  rw [ends_bind]
  refine (checkRef_ends _ _).mono (fun _ b₂ good => ?_) (fun _ _ bad => bad.2)
  obtain ⟨rfl, positive, below⟩ := good
  have size := LittleEndian.length_encode offsetSize
    (first - pushed * offsetSize - child.distance)
  have fill := fillElement_ends sound (LittleEndian.encode offsetSize
    (first - pushed * offsetSize - child.distance)) (by rw [size]; exact stage) more
    (by rw [size]; exact fits.2.1) fits.2.2
  rw [size] at fill
  exact fill.mono
    (fun _ _ done => ⟨length, pushed, first, stage, more, positive, below, done⟩)
    (fun _ _ never => never.elim)

theorem endVector_ends (sound : b.RegionSound) :
    Ends endVector b
      (fun ref b' => ∃ length size first gap, b.stage = .vector length length size first ∧
        ref.distance = b'.used ∧ Adds (b.withStage .idle)
          ((Scalar.uint32 (UInt32.ofNat length)).toBytes ++ gap) b' ∧
        gap = zeros (padding (b.used + offsetSize) offsetSize))
      (fun _ b' => b' = b ∨ (∃ length size first, b.stage = .vector length length size first) ∧
        Littered (b.withStage .idle) b') := by
  refine ensureWritable_then (fun _ => .inl rfl) (fun writable => ?_)
  rw [ends_bind, ends_get]
  cases stage : b.stage with
  | vector length pushed size first =>
    dsimp only
    split
    next => exact .inl rfl
    next full =>
      have full : pushed = length := by simpa using full
      subst full
      rw [ends_bind, setStage, ends_modify, ends_bind, pushCount]
      refine (pushScalar_ends (sound.withStage .idle) _).mono (fun _ b₁ count => ?_)
        (fun _ _ bad => .inr ⟨⟨_, _, _, rfl⟩, ?_⟩)
      · rw [hereAs_ends]
        exact ⟨_, _, _, _, rfl, rfl, count.2, rfl⟩
      · rcases bad with finished | stray
        · exact Littered.of_eq (sound.withStage .idle) finished.2.1
        · exact stray.2.2
  | idle | record | finished => exact .inl rfl

end FlatRecord
