import FlatRecord.Proofs.Builder.OpenVector

/-! Where the end of a record can be stopped by a size limit. The record stays open, as it was; in front of what was
written there may be a few zeros, the place of an offset that was never filled in. -/
namespace FlatRecord

open Builder Build

variable {b : Builder}

namespace Builder

/-- The padding in front of the open record's fields, which comes before its first four bytes. -/
def endGap (b : Builder) : Nat := padding (b.used + offsetSize) offsetSize

/-- How much is written when the open record has its first byte. -/
def endUsed (b : Builder) : Nat := b.used + b.endGap + offsetSize

/-- The record is too large, or the first bytes that would be written at its end are past the limit. -/
def StopsAtOnce (b : Builder) (start : Nat) : Prop :=
  largestRecord < b.endUsed - start ∨
    b.config.maxSize < b.used + if b.endGap = 0 then offsetSize else b.endGap

instance (b : Builder) (start : Nat) : Decidable (b.StopsAtOnce start) :=
  inferInstanceAs (Decidable (_ ∨ _))

/-- The error of a record that cannot even begin to end. -/
def endError (b : Builder) (start : Nat) : Error :=
  if largestRecord < b.endUsed - start then .sizeLimit (b.endUsed - start) largestRecord
  else .sizeLimit (b.used + if b.endGap = 0 then offsetSize else b.endGap) b.config.maxSize

/-- Where the end of a record is stopped: the error, and the number of zeros that are left. -/
inductive Stopped (b : Builder) (start : Nat) : Error → (left : Nat) → Prop where
  | record (large : largestRecord < b.endUsed - start) :
    Stopped b start (.sizeLimit (b.endUsed - start) largestRecord) 0
  | padding (small : b.endUsed - start ≤ largestRecord) (full : b.config.maxSize < b.used + b.endGap) :
    Stopped b start (.sizeLimit (b.used + b.endGap) b.config.maxSize) 0
  | offset (small : b.endUsed - start ≤ largestRecord) (room : b.used + b.endGap ≤ b.config.maxSize)
      (full : b.config.maxSize < b.endUsed) :
    Stopped b start (.sizeLimit b.endUsed b.config.maxSize) b.endGap
  | table {e : Error} (small : b.endUsed - start ≤ largestRecord) (room : b.endUsed ≤ b.config.maxSize) :
    Stopped b start e (b.endGap + offsetSize)

variable {b b' : Builder} {start left : Nat} {fields : List Field} {e : Error}

theorem endGap_lt (b : Builder) : b.endGap < 4 := padding_lt _ 2 (by decide)

theorem Stopped.left_lt (stopped : Stopped b start e left) : left < 8 := by
  have gap := b.endGap_lt
  cases stopped with
  | record | padding => exact Nat.zero_lt_succ 7
  | offset => omega
  | table => rw [offsetSize]; omega

/-- There is room for the padding and the offset. -/
theorem not_stopsAtOnce (small : b.endUsed - start ≤ largestRecord)
    (room : b.endUsed ≤ b.config.maxSize) : ¬b.StopsAtOnce start := by
  rw [endUsed, offsetSize] at room
  refine not_or.2 ⟨Nat.not_lt.2 small, ?_⟩
  rw [offsetSize]
  split <;> omega

theorem Stopped.atOnce_iff (stopped : Stopped b start e left) (limit : b.used ≤ b.config.maxSize) :
    b.StopsAtOnce start ↔ left = 0 := by
  rw [StopsAtOnce]
  cases stopped with
  | record large => exact iff_of_true (.inl large) rfl
  | padding small full =>
    have some : b.endGap ≠ 0 := by omega
    exact iff_of_true (.inr (by rwa [if_neg some])) rfl
  | offset small room full =>
    rw [endUsed] at full
    by_cases none : b.endGap = 0
    · exact iff_of_true (.inr (by rw [if_pos none]; omega)) none
    · rw [if_neg none]
      exact iff_of_false (by omega) none
  | table small room =>
    exact iff_of_false (not_stopsAtOnce small room) (by rw [offsetSize]; omega)

theorem Stopped.error_eq (stopped : Stopped b start e left) (limit : b.used ≤ b.config.maxSize)
    (none : left = 0) : e = b.endError start := by
  simp only [endError]
  cases stopped with
  | record large => rw [if_pos large]
  | padding small full =>
    have some : b.endGap ≠ 0 := by omega
    rw [if_neg (by omega), if_neg some]
  | offset small room full => rw [if_neg (by omega), if_pos none, endUsed, none, Nat.add_zero]
  | table => simp only [offsetSize] at none; omega

section Congruence

variable (used : b'.used = b.used)

include used

theorem endGap_congr : b'.endGap = b.endGap := by rw [endGap, endGap, used]

theorem endUsed_congr : b'.endUsed = b.endUsed := by rw [endUsed, endUsed, endGap_congr used, used]

variable (config : b'.config = b.config)

include config

theorem stopsAtOnce_congr (start : Nat) : b'.StopsAtOnce start ↔ b.StopsAtOnce start := by
  rw [StopsAtOnce, StopsAtOnce, endUsed_congr used, endGap_congr used, used, config]

theorem endError_congr (start : Nat) : b'.endError start = b.endError start := by
  rw [endError, endError, endUsed_congr used, endGap_congr used, used, config]

end Congruence

theorem endUsed_even (b : Builder) : b.endUsed % 4 = 0 := by
  have aligned := add_padding_four (b.used + offsetSize) 2 (by decide)
  rw [endUsed, endGap, Nat.add_right_comm]
  exact aligned

/-- The place of the offset to the table is as large as the offset and holds zeros. -/
theorem placeholder_zeros (b : Builder) :
    (Scalar.int32 0).toBytes ++ zeros (padding (b.used + (Scalar.int32 0).size) (Scalar.int32 0).size) =
      zeros (b.endGap + offsetSize) := by
  rw [Nat.add_comm b.endGap, zeros, zeros, ← List.replicate_append_replicate]
  rfl

/-- The size limit as it was before, where nothing past it is asked for. -/
theorem Overruns.small {count : Nat} (overruns : b.Overruns count e) (fits : b.used ≤ largestBuffer)
    (few : count < 2 ^ 32) :
    b.config.maxSize < b.used + count ∧ e = .sizeLimit (b.used + count) b.config.maxSize := by
  obtain ⟨full, rfl⟩ := overruns
  simp only [largestBuffer, largestWord] at *
  exact ⟨full, by rw [Nat.min_eq_left (by omega)]⟩

end Builder

/-- The place of the offset to the table, in an open record that is not too large. -/
theorem placeholder_stops (sound : b.RegionSound) (writable : b.stage ≠ .finished) {start : Nat}
    (small : b.endUsed - start ≤ largestRecord) :
    Ends (Builder.pushScalar (.int32 0)) b (fun _ b' => Adds b (zeros (b.endGap + offsetSize)) b')
      fun e b' => ∃ left, b.Stopped start e left ∧ Adds b (zeros left) b' := by
  have fits := sound.used_le
  have gap := b.endGap_lt
  rw [Builder.pushScalar, ends_writable writable, ends_bind]
  refine ((align_ends sound offsetSize offsetSize).and (align_overruns sound offsetSize offsetSize)).mono
    (fun _ b₁ pad => ?_) fun e b₁ bad => ?_
  · obtain ⟨pad, -⟩ := pad
    have used : b₁.used = b.used + b.endGap := by
      rw [pad.used sound, length_zeros, Nat.add_comm]
      rfl
    have room := pad.region.used_le_maxSize
    rw [used, pad.config] at room
    refine ((write_ends pad.region _).and (write_overruns pad.region _)).mono
      (fun _ b' adds => placeholder_zeros b ▸ pad.trans adds.1) fun e b' bad => ?_
    obtain ⟨⟨-, rfl⟩, overruns⟩ := bad
    obtain ⟨full, rfl⟩ := overruns.small pad.region.used_le (by rw [Scalar.length_toBytes]; decide)
    rw [used, pad.config] at full ⊢
    exact ⟨_, .offset small room full, pad⟩
  · obtain ⟨⟨-, same⟩, overruns⟩ := bad
    obtain ⟨full, rfl⟩ := overruns.small fits (by change b.endGap < _; omega)
    exact ⟨0, .padding small full, same⟩

/-- The table of a record stands at an even distance without padding. -/
theorem writeTable_stops (sound : b.RegionSound) (even : b.used % 4 = 0) (distance recordSize : Nat)
    (fields : List Field) :
    Ends (writeTable (tableBytes distance recordSize fields)) b (fun _ _ => True)
      fun _ b' => Adds b [] b' := by
  have tight : padding (b.used + (tableBytes distance recordSize fields).length) entrySize = 0 := by
    rw [length_tableBytes]
    simp only [tableHeaderSize, entrySize]
    rw [show 2 = 2 ^ 1 from rfl, padding_two_pow _ _ (by decide)]
    omega
  rw [writeTable, ends_bind]
  refine (align_ends sound _ _).mono (fun _ b₁ pad => ?_) fun _ _ bad => bad.2
  rw [tight] at pad
  rw [ends_bind]
  exact (write_ends pad.region _).mono (fun _ _ _ => trivial) fun _ _ bad => bad.2 ▸ pad

theorem placeTable_stops (sound : b.RegionSound) (even : b.used % 4 = 0) (distance recordSize : Nat)
    (fields : List Field) :
    Ends (placeTable (tableBytes distance recordSize fields)) b (fun _ _ => True)
      fun _ b' => Adds b [] b' := by
  rw [placeTable, ends_bind, ends_get]
  split
  next => trivial
  next => exact writeTable_stops sound even distance recordSize fields

/-- Nothing can stop the end of a record once its table is placed. -/
theorem endRecord_stops (sound : b.Sound) {start : Nat} {fields : List Field}
    (stage : b.stage = .record start fields) :
    Ends endRecord b (fun _ _ => ¬b.StopsAtOnce start)
      fun e b' => ∃ left, b.Stopped start e left ∧ Adds b (zeros left) b' := by
  have region := sound.region
  have saved := sound.tables_written
  have writable : b.stage ≠ .finished := by rw [stage]; exact Stage.noConfusion
  rw [endRecord, ends_writable writable, ends_bind, ends_get, stage]
  simp only [ends_bind, ends_get]
  split
  next large => exact ⟨0, .record large, Adds.refl region⟩
  next small =>
    have small : b.endUsed - start ≤ largestRecord := Nat.not_lt.1 small
    simp only [ends_bind, ends_get]
    refine (placeholder_stops region writable small).mono (fun _ b₁ placeholder => ?_)
      fun _ _ bad => bad
    have used : b₁.used = b.endUsed := by
      rw [placeholder.used region, length_zeros, endUsed]
      omega
    have room := placeholder.region.used_le_maxSize
    rw [used, placeholder.config] at room
    rw [← ends_bind]
    have table := (placeTable_ends placeholder.region (placeholder.saved saved) _).and
      (placeTable_stops placeholder.region (used ▸ b.endUsed_even) b₁.used
        (b.used + padding (b.used + offsetSize) offsetSize + offsetSize - start) fields)
    rw [ends_bind]
    refine table.mono (fun t b₂ placed => ?_) fun _ _ bad =>
      ⟨_, .table small room, placeholder.trans bad.2⟩
    have inside : b₂.RegionSound ∧ b₁.used ≤ b₂.used := by
      rcases placed.1 with ⟨rfl, -, -⟩ | ⟨b₃, gap, adds, rfl, rfl⟩
      · exact ⟨placeholder.region, Nat.le_refl _⟩
      · have more := adds.used placeholder.region
        exact ⟨⟨adds.region.sound, adds.region.limit⟩, (by omega : _ ≤ b₃.used)⟩
    have enough : (Scalar.int32 (Int32.ofInt ((t : Int) - b₁.used))).toBytes.length ≤ b₁.used := by
      rw [Scalar.length_toBytes, used, endUsed]
      simp only [Scalar.size, Scalar.type, ScalarType.size, offsetSize]
      omega
    rw [← ends_bind, ← ends_bind, bind_assoc]
    exact (seal_ends inside.1 inside.2 enough).mono (fun _ _ _ => not_stopsAtOnce small room)
      fun _ _ never => never.elim

namespace Builder

/-- When the end of a record fails, the record is still open with the fields and the field tables that it had,
and at most seven zeros are left in front of what was written. None are left if and only if the record is stopped
at once, and then nothing but more room lets it end: the same call fails with the same error. -/
theorem endRecord_failure (reachable : b.Reachable) {start : Nat} {fields : List Field}
    (stage : b.stage = .record start fields) {e : Error} {b' : Builder}
    (failed : b.apply .endRecord = (.error e, b')) :
    b'.stage = b.stage ∧ b'.tables = b.tables ∧
      b'.written = zeros (b'.used - b.used) ++ b.written ∧ b'.used < b.used + 8 ∧
      (b.StopsAtOnce start ↔ b'.used = b.used) ∧
      (b.StopsAtOnce start → b'.written = b.written ∧ (b'.apply .endRecord).1 = .error e) := by
  have sound := reachable.sound
  have limit := sound.region.used_le_maxSize
  have ends : Ends Operation.endRecord.step b (fun _ _ => ¬b.StopsAtOnce start)
      fun e b' => ∃ left, b.Stopped start e left ∧ Adds b (zeros left) b' := by
    rw [Operation.step, ends_map]
    exact endRecord_stops sound stage
  simp only [Ends, run_of_apply_error failed] at ends
  obtain ⟨left, stopped, adds⟩ := ends
  have used := adds.used sound.region
  rw [length_zeros] at used
  have few := stopped.left_lt
  have atOnce := stopped.atOnce_iff limit
  refine ⟨adds.stage, adds.tables, ?_, by omega, atOnce.trans (by omega), fun stops => ?_⟩
  · rw [adds.written, used, Nat.add_sub_cancel]
  have none : left = 0 := atOnce.1 stops
  subst none
  rw [Nat.zero_add] at used
  refine ⟨adds.written, ?_⟩
  have sound' : b'.Sound := by
    have after := apply_sound sound .endRecord
    rwa [failed] at after
  have again : Ends Operation.endRecord.step b' (fun _ _ => ¬b'.StopsAtOnce start)
      fun e b'' => ∃ left, b'.Stopped start e left ∧ Adds b' (zeros left) b'' := by
    rw [Operation.step, ends_map]
    exact endRecord_stops sound' (adds.stage.trans stage)
  have stops' : b'.StopsAtOnce start := (stopsAtOnce_congr used adds.config start).2 stops
  rw [apply_eq]
  cases result : Operation.endRecord.step.run b' with
  | ok answer b'' =>
    simp only [Ends, result] at again
    exact absurd stops' again
  | error e' b'' =>
    simp only [Ends, result] at again
    obtain ⟨left, stopped', -⟩ := again
    have same : e' = e := by
      have limit' := sound'.region.used_le_maxSize
      rw [stopped'.error_eq limit' ((stopped'.atOnce_iff limit').1 stops'), stopped.error_eq limit rfl,
        endError_congr used adds.config]
    exact congrArg Except.error same

/-- A record with one byte, which leaves a padding of three to be written at its end. -/
def byteRecord : List Operation := [.startRecord, .addRequiredField 0 (.uint8 7)]

/-- With no room for the padding nothing is left. -/
theorem byteRecord_stops :
    ((ofConfig { maxSize := 3 }).run byteRecord).StopsAtOnce 0 ∧
    ((((ofConfig { maxSize := 3 }).run byteRecord).apply .endRecord).2.apply .endRecord).1 =
      .error (.sizeLimit 4 3) := by
  have stops : ((ofConfig { maxSize := 3 }).run byteRecord).StopsAtOnce 0 := by decide +kernel
  have stage : ((ofConfig { maxSize := 3 }).run byteRecord).stage = .record 0 [⟨0, 1⟩] := by
    decide +kernel
  exact ⟨stops, ((endRecord_failure (e := .sizeLimit 4 3) ⟨_, byteRecord, rfl⟩ stage
    (Prod.ext (by decide +kernel) rfl)).2.2.2.2.2 stops).2⟩

/-- With room for the padding and the offset, but not for the table, both are left behind, and the next call asks for
more. -/
theorem byteRecord_litters :
    (((ofConfig { maxSize := 13 }).run byteRecord).apply .endRecord).1 = .error (.sizeLimit 14 13) ∧
    ((ofConfig { maxSize := 13 }).run byteRecord).used = 1 ∧
    (((ofConfig { maxSize := 13 }).run byteRecord).apply .endRecord).2.used = 8 ∧
    ((((ofConfig { maxSize := 13 }).run byteRecord).apply .endRecord).2.apply .endRecord).1 =
      .error (.sizeLimit 18 13) := by
  decide +kernel

end Builder

end FlatRecord
