import FlatRecord.Proofs.Builder.Ends
import FlatRecord.Proofs.Padding

/-! The steps that put bytes in front of the written ones. Each adds known bytes when it succeeds; when it
fails, by the size limit, it may leave some of them. -/
namespace FlatRecord

namespace Builder

/-- The written bytes, from the front. -/
def written (b : Builder) : List UInt8 := b.region.written

/-- The region is sound and keeps to the configured limit. -/
structure RegionSound (b : Builder) : Prop where
  sound : b.region.Sound
  limit : b.region.maxSize = b.config.maxSize

theorem RegionSound.length_written {b : Builder} (sound : b.RegionSound) :
    b.written.length = b.used := Region.length_written b.region sound.sound

theorem RegionSound.used_le_maxSize {b : Builder} (sound : b.RegionSound) :
    b.used ≤ b.config.maxSize :=
  sound.limit ▸ Nat.le_trans sound.sound.fits sound.sound.limited

theorem RegionSound.maxSize_lt {b : Builder} (sound : b.RegionSound) : b.region.maxSize < wordLimit :=
  Nat.lt_of_le_of_lt (sound.limit ▸ b.config.maxSize_le) (by decide)

theorem RegionSound.used_le {b : Builder} (sound : b.RegionSound) : b.used ≤ largestBuffer :=
  Nat.le_trans sound.used_le_maxSize b.config.maxSize_le

/-- `b'` is `b` with `bytes` in front of what is written, and perhaps a larger alignment to keep. -/
structure Adds (b : Builder) (bytes : List UInt8) (b' : Builder) : Prop where
  written : b'.written = bytes ++ b.written
  region : b'.RegionSound
  stage : b'.stage = b.stage
  tables : b'.tables = b.tables
  config : b'.config = b.config
  minAlign : b.minAlign ≤ b'.minAlign

variable {b b' b'' : Builder}

theorem Adds.refl (sound : b.RegionSound) : Adds b [] b := ⟨rfl, sound, rfl, rfl, rfl, Nat.le_refl _⟩

theorem Adds.trans {first second : List UInt8} (before : Adds b first b') (after : Adds b' second b'') :
    Adds b (second ++ first) b'' where
  written := by rw [after.written, before.written, List.append_assoc]
  region := after.region
  stage := after.stage.trans before.stage
  tables := after.tables.trans before.tables
  config := after.config.trans before.config
  minAlign := Nat.le_trans before.minAlign after.minAlign

theorem Adds.used {bytes : List UInt8} (adds : Adds b bytes b') (sound : b.RegionSound) :
    b'.used = bytes.length + b.used := by
  rw [← adds.region.length_written, adds.written, List.length_append, sound.length_written]

end Builder

open Builder Build

/-- The size limit is exceeded. -/
def Error.IsLimit (e : Error) : Prop := ∃ requested limit, e = .sizeLimit requested limit

theorem Region.room_error {r : Region} {count : Nat} {e : Error} (refused : r.room count = .error e) :
    e.IsLimit := by
  simp only [Region.room] at refused
  split at refused
  · cases refused
  split at refused
  · cases refused; exact ⟨_, _, rfl⟩
  split at refused
  · cases refused; exact ⟨_, _, rfl⟩
  · cases refused

namespace Builder

/-- The builder with `bytes` in front, at a capacity that has room for them. -/
def extended (b : Builder) (capacity : Nat) (bytes : List UInt8) : Builder :=
  { b with region := b.region.extend capacity bytes }

/-- `count` bytes more are past the limit, and the error says so. -/
def Overruns (b : Builder) (count : Nat) (e : Error) : Prop :=
  b.config.maxSize < b.used + count ∧ e = .sizeLimit (min (b.used + count) largestWord) b.config.maxSize

end Builder

variable {b : Builder}

theorem run_write (b : Builder) (bytes : List UInt8) :
    (Builder.write bytes).run b =
      match b.region.room bytes.length with
      | .ok capacity => .ok ⟨⟩ (b.extended capacity bytes)
      | .error e => .error e b := by
  rw [Builder.write, run_get]
  cases b.region.room bytes.length <;> rfl

theorem adds_extend (sound : b.RegionSound) {bytes : List UInt8} {capacity : Nat}
    (granted : b.region.room bytes.length = .ok capacity) :
    Adds b bytes { b with region := b.region.extend capacity bytes } where
  written := Region.written_extend b.region capacity bytes sound.sound
  region := ⟨Region.extend_sound b.region capacity bytes sound.sound granted,
    (Region.maxSize_extend ..).trans sound.limit⟩
  stage := rfl
  tables := rfl
  config := rfl
  minAlign := Nat.le_refl _

theorem write_ends (sound : b.RegionSound) (bytes : List UInt8) :
    Ends (Builder.write bytes) b (fun _ b' => Adds b bytes b') (fun e b' => e.IsLimit ∧ b' = b) := by
  simp only [Builder.write, ends_bind, ends_get, ends_ofExcept, ends_modify]
  exact ⟨fun _ granted => adds_extend sound granted,
    fun _ refused => ⟨Region.room_error refused, trivial⟩⟩

theorem room_overruns (sound : b.RegionSound) {count : Nat} {e : Error}
    (refused : b.region.room count = .error e) : b.Overruns count e := by
  rw [Overruns, ← sound.limit]
  exact Region.room_refused sound.maxSize_lt refused

theorem write_overruns (sound : b.RegionSound) (bytes : List UInt8) :
    Ends (Builder.write bytes) b (fun _ _ => True) fun e _ => b.Overruns bytes.length e := by
  simp only [Builder.write, ends_bind, ends_get, ends_ofExcept, ends_modify]
  exact ⟨fun _ _ => trivial, fun _ refused => room_overruns sound refused⟩

def zeros (count : Nat) : List UInt8 := List.replicate count 0

@[simp] theorem length_zeros (count : Nat) : (zeros count).length = count := List.length_replicate

theorem writeZeros_eq (count : Nat) : writeZeros count = Builder.write (zeros count) := by
  rw [Builder.write, length_zeros]
  rfl

theorem writeZeros_ends (sound : b.RegionSound) (count : Nat) :
    Ends (writeZeros count) b (fun _ b' => Adds b (zeros count) b')
      (fun e b' => e.IsLimit ∧ b' = b) := by
  simp only [writeZeros, ends_bind, ends_get, ends_ofExcept, ends_modify]
  refine ⟨fun capacity granted => ?_, fun _ refused => ⟨Region.room_error refused, trivial⟩⟩
  have room : b.region.room (zeros count).length = .ok capacity := by rwa [length_zeros]
  exact adds_extend sound room

theorem align_ends (sound : b.RegionSound) (length alignment : Nat) :
    Ends (align length alignment) b
      (fun _ b' => Adds b (zeros (padding (b.used + length) alignment)) b')
      (fun e b' => e.IsLimit ∧ Adds b [] b') := by
  simp only [align, ends_bind, ends_get, ends_modify]
  let raised : Builder := { b with minAlign := max b.minAlign alignment }
  have raise : Adds b [] raised :=
    ⟨rfl, ⟨sound.sound, sound.limit⟩, rfl, rfl, rfl, Nat.le_max_left _ _⟩
  refine (writeZeros_ends raise.region _).mono (fun _ b' adds => ?_) (fun e b' bad => ?_)
  · have both := raise.trans adds
    rwa [List.append_nil] at both
  · exact ⟨bad.1, bad.2 ▸ raise⟩

theorem align_overruns (sound : b.RegionSound) (length alignment : Nat) :
    Ends (align length alignment) b (fun _ _ => True)
      fun e _ => b.Overruns (padding (b.used + length) alignment) e := by
  simp only [align, writeZeros, ends_bind, ends_modify, ends_get, ends_ofExcept]
  let raised : Builder := { b with minAlign := max b.minAlign alignment }
  exact ⟨fun _ _ => trivial, fun _ refused =>
    room_overruns (b := raised) ⟨sound.sound, sound.limit⟩ refused⟩

/-- An aligned write: padding, then the bytes. -/
theorem align_write_ends (sound : b.RegionSound) (length alignment : Nat) (bytes : List UInt8) :
    Ends (do align length alignment; Builder.write bytes) b
      (fun _ b' => Adds b (bytes ++ zeros (padding (b.used + length) alignment)) b')
      (fun e b' => e.IsLimit ∧ ∃ left, Adds b left b') := by
  rw [ends_bind]
  refine (align_ends sound length alignment).mono (fun _ b₁ pad => ?_) (fun _ _ bad => ⟨bad.1, [], bad.2⟩)
  refine (write_ends pad.region bytes).mono (fun _ _ adds => pad.trans adds) (fun _ _ bad => ?_)
  exact ⟨bad.1, _, bad.2 ▸ pad⟩

theorem checkRef_ends (distance limit : Nat) :
    Ends (checkRef distance limit) b (fun _ b' => b' = b ∧ 0 < distance ∧ distance ≤ limit)
      (fun e b' => e = .order .badReference ∧ b' = b) := by
  simp only [checkRef]
  split
  next => exact ⟨rfl, rfl⟩
  next good => exact ⟨rfl, by omega⟩

/-- The offset counts from its own place. -/
theorem pushOffset_ends (sound : b.RegionSound) (distance : Nat) :
    Ends (pushOffset distance) b
      (fun _ b' => b'.used % 4 = 0 ∧ Adds b (LittleEndian.encode offsetSize (b'.used - distance)
        ++ zeros (padding (b.used + offsetSize) offsetSize)) b')
      (fun e b' => e.IsLimit ∧ ∃ left, Adds b left b') := by
  simp only [pushOffset, ends_bind, ends_get]
  refine (align_ends sound offsetSize offsetSize).mono (fun _ b₁ pad => ?_)
    (fun _ _ bad => ⟨bad.1, [], bad.2⟩)
  refine (write_ends pad.region _).mono (fun _ b' adds => ?_) (fun _ _ bad => ⟨bad.1, _, bad.2 ▸ pad⟩)
  have here : b'.used = b₁.used + offsetSize := by
    rw [adds.used pad.region, LittleEndian.length_encode, Nat.add_comm]
  have before : b₁.used = padding (b.used + offsetSize) offsetSize + b.used := by
    rw [pad.used sound, length_zeros]
  constructor
  · have aligned : (b.used + offsetSize + padding (b.used + offsetSize) offsetSize) % 4 = 0 :=
      add_padding_four _ 2 (by decide)
    rw [here, before, ← aligned]
    congr 1
    omega
  · rw [here]
    exact pad.trans adds

theorem ensureWritable_ends : Ends ensureWritable b (fun _ b' => b' = b ∧ b.stage ≠ .finished)
    (fun e b' => e = .order .alreadyFinished ∧ b' = b ∧ b.stage = .finished) := by
  simp only [ensureWritable, ends_bind, ends_get]
  split
  next finished => exact ⟨rfl, rfl, by simpa [isFinished] using finished⟩
  next writable => exact ⟨rfl, by simpa [isFinished] using writable⟩

theorem ensureWritable_run (writable : b.stage ≠ .finished) : ensureWritable.run b = .ok () b := by
  have unfinished : b.isFinished = false := by simpa [isFinished] using writable
  rw [ensureWritable, run_get, unfinished]
  rfl

/-- An unfinished builder is asked for nothing more. -/
theorem ends_writable {x : Build α} {ok : α → Builder → Prop} {bad : Error → Builder → Prop}
    (writable : b.stage ≠ .finished) : Ends (do ensureWritable; x) b ok bad ↔ Ends x b ok bad := by
  rw [Ends, run_bind_ok (ensureWritable_run writable), Ends]

theorem ensureIdle_ends : Ends ensureIdle b (fun _ b' => b' = b ∧ b.stage = .idle)
    (fun e b' => (∃ misuse, e = .order misuse) ∧ b' = b ∧ b.stage ≠ .idle) := by
  simp only [ensureIdle, ends_bind, ends_get]
  cases stage : b.stage <;> simp

theorem pushScalar_ends (sound : b.RegionSound) (v : Scalar) :
    Ends (pushScalar v) b
      (fun _ b' => b.stage ≠ .finished ∧
        Adds b (v.toBytes ++ zeros (padding (b.used + v.size) v.size)) b')
      (fun e b' => e = .order .alreadyFinished ∧ b' = b ∧ b.stage = .finished ∨
        e.IsLimit ∧ b.stage ≠ .finished ∧ ∃ left, Adds b left b') := by
  rw [pushScalar, ends_bind]
  refine ensureWritable_ends.mono (fun _ b₁ start => ?_) (fun _ _ bad => .inl bad)
  obtain ⟨rfl, writable⟩ := start
  exact (align_write_ends sound v.size v.size v.toBytes).mono (fun _ _ adds => ⟨writable, adds⟩)
    (fun _ _ bad => .inr ⟨bad.1, writable, bad.2⟩)

/-- A count that fits its four bytes is stored as it is. -/
theorem toBytes_count (count : Nat) (fits : count < 2 ^ 32) :
    (Scalar.uint32 (UInt32.ofNat count)).toBytes = LittleEndian.encode offsetSize count := by
  have same : (UInt32.ofNat count).toNat = count := UInt32.toNat_ofNat_of_lt' fits
  simp only [Scalar.toBytes, Scalar.size, Scalar.type, ScalarType.size, Scalar.bits, same, offsetSize]

end FlatRecord
