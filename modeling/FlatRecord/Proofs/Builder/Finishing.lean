import FlatRecord.Builder.Finish
import FlatRecord.Proofs.Builder.Objects

/-! What finishing a buffer does: a header comes in front of everything, and nothing else changes. -/
namespace FlatRecord

open Builder Build

/-- The first bytes of a finished buffer of `used` bytes: perhaps its size, which does not count itself,
and the offset to the root record. -/
def Builder.headerBytes (used root : Nat) (sizePrefixed : Bool) : List UInt8 :=
  if sizePrefixed then
    LittleEndian.encode offsetSize (used - offsetSize) ++
      LittleEndian.encode offsetSize (used - offsetSize - root)
  else LittleEndian.encode offsetSize (used - root)

/-- What a successful finish has done. -/
structure Finished (b : Builder) (root : Nat) (sizePrefixed : Bool) (bytes : Bytes) (b' : Builder) :
    Prop where
  ready : b.stage = .idle
  positive : 0 < root
  inside : root ≤ b.used
  stage : b'.stage = .finished
  region : b'.RegionSound
  config : b'.config = b.config
  tables : b'.tables = b.tables
  data : bytes.toList = b'.written
  written : ∃ gap, b'.written = headerBytes b'.used root sizePrefixed ++ (gap ++ b.written)

variable {b : Builder}

/-- The size stands right in front of the offset. -/
theorem prefix_ends (sound : b.RegionSound) (aligned : b.used % 4 = 0) :
    Ends (pushCount b.used) b
      (fun _ b' => Adds b (LittleEndian.encode offsetSize b.used) b')
      (fun _ b' => Littered b b') := by
  have small := sound.used_le
  have count := toBytes_count b.used (by simp only [largestBuffer] at small; omega)
  have gap : padding (b.used + (Scalar.uint32 (UInt32.ofNat b.used)).size)
      (Scalar.uint32 (UInt32.ofNat b.used)).size = 0 := by
    simp only [Scalar.size, Scalar.type, ScalarType.size, padding_four]
    omega
  refine (pushScalar_ends sound _).mono (fun _ _ done => ?_) (fun _ _ bad =>
    bad.elim (fun stop => Littered.of_eq sound stop.2.1) fun stray => stray.2.2)
  have adds := done.2
  rwa [count, gap, zeros, List.replicate_zero, List.append_nil] at adds

/-- The end of the header, behind whatever was written before. -/
theorem header_ends {b₀ : Builder} {before : List UInt8} (idle : b₀.stage = .idle)
    (adds : Adds b₀ before b) (root : Ref .record) (positive : 0 < root.distance)
    (inside : root.distance ≤ b₀.used) (sizePrefixed : Bool) :
    Ends (do
      pushOffset root.distance
      if sizePrefixed then pushCount (← get).used
      setStage .finished
      return (← get).region.data) b
      (fun bytes b' => Finished b₀ root.distance sizePrefixed bytes b')
      (fun _ b' => Littered b₀ b') := by
  have close {b₁ : Builder} {left : List UInt8} (all : Adds b₀ left b₁)
      (written : ∃ gap, b₁.written =
        headerBytes b₁.used root.distance sizePrefixed ++ (gap ++ b₀.written)) :
      Ends (do setStage .finished; return (← get).region.data) b₁
        (fun bytes b' => Finished b₀ root.distance sizePrefixed bytes b')
        (fun _ b' => Littered b₀ b') := by
    simp only [ends_bind, setStage, ends_modify, ends_get, ends_pure]
    exact ⟨idle, positive, inside, rfl, all.region.withStage .finished, all.config, all.tables,
      Region.toList_data b₁.region, written⟩
  rw [ends_bind]
  refine (pushOffset_ends adds.region _).mono (fun _ b₁ offset => ?_) (fun _ _ bad => ?_)
  · obtain ⟨aligned, offset⟩ := offset
    cases sizePrefixed with
    | false =>
      refine close (adds.trans offset) ⟨zeros (padding (b.used + offsetSize) offsetSize) ++ before, ?_⟩
      rw [offset.written, adds.written]
      simp [headerBytes, List.append_assoc]
    | true =>
      simp only [ends_bind, ends_get, if_true]
      refine (prefix_ends offset.region aligned).mono (fun _ b₂ size => ?_)
        (fun _ _ bad => Littered.after (adds.trans offset) bad)
      have all := (adds.trans offset).trans size
      have used : b₂.used - offsetSize = b₁.used := by
        rw [size.used offset.region, LittleEndian.length_encode]; omega
      have rest := close all ⟨zeros (padding (b.used + offsetSize) offsetSize) ++ before, by
        rw [size.written, offset.written, adds.written]
        simp [headerBytes, used, List.append_assoc]⟩
      simpa only [ends_bind, ends_get] using rest
  · obtain ⟨_, stray⟩ := bad
    exact Littered.after adds stray

theorem finish_ends (sound : b.RegionSound) (root : Ref .record) (identifier : Option Identifier)
    (sizePrefixed : Bool) :
    Ends (finish root identifier sizePrefixed) b
      (fun bytes b' => Finished b root.distance sizePrefixed bytes b')
      (fun _ b' => Littered b b') := by
  refine ensureWritable_then (fun _ => Littered.of_eq sound rfl) (fun _ => ?_)
  rw [ends_bind, ends_get]
  dsimp only
  split
  next => exact Littered.of_eq sound rfl
  next idle =>
    have idle : b.stage = .idle := by simpa using idle
    rw [ends_bind, ends_get, ends_bind]
    refine (checkRef_ends _ _).mono (fun _ b₁ good => ?_)
      (fun _ _ bad => Littered.of_eq sound bad.2)
    obtain ⟨rfl, positive, below⟩ := good
    rw [ends_bind, ends_get, ends_bind]
    refine (align_ends sound _ _).mono (fun _ b₂ pad => ?_) (fun _ _ bad => bad.2.littered)
    cases identifier with
    | none => exact header_ends idle pad root positive below sizePrefixed
    | some id =>
      dsimp only
      rw [ends_bind]
      refine (write_ends pad.region id.toList).mono (fun _ b₃ named => ?_)
        (fun _ _ bad => bad.2 ▸ pad.littered)
      exact header_ends idle (pad.trans named) root positive below sizePrefixed

/-- The buffer is all that is written. -/
theorem finish_size {b' : Builder} (sound : b.RegionSound) {root : Ref .record} {identifier : Option Identifier}
    {sizePrefixed : Bool} {bytes : Bytes} (run : (finish root identifier sizePrefixed).run b = .ok bytes b') :
    bytes.size = b'.used := by
  have done := (finish_ends sound root identifier sizePrefixed).of_ok run
  rw [← done.region.length_written, ← done.data, Array.length_toList]

end FlatRecord
