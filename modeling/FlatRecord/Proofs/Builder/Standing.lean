import FlatRecord.Proofs.Builder.OpenVector
import FlatRecord.Proofs.Builder.Writes

/-! What the builder has written stays where it is, an element's place in an open vector apart, and everything it writes
is put at a multiple of its alignment from the end. -/
namespace FlatRecord.Builder

open Build

/-- Where the open vector's next element goes. -/
def nextPlace (b : Builder) : Nat :=
  match b.stage with
  | .vector _ pushed size first => first - pushed * size
  | _ => 0

/-- A vector is aligned as a whole, and nothing more is asked for an element unless it is an offset. -/
def elementAlignment : Piece → Nat
  | .own _ => 1
  | .ref .. => offsetSize

/-- A power of two in a word. -/
def IsWordPower (n : Nat) : Prop := ∃ k < 64, n = 2 ^ k

variable {b b' : Builder} {d : Nat} {bytes : List UInt8}

/-- The bytes are written, where no element that is still to come will be filled in. -/
structure Stands (b : Builder) (d : Nat) (bytes : List UInt8) : Prop where
  holds : Holds b.written d bytes
  clear : ∀ length pushed size first, b.stage = .vector length pushed size first →
    d ≤ first - length * size ∨ first - pushed * size ≤ d - bytes.length

/-- Field tables are at even distances, and an open vector's elements begin where an offset may stand. -/
structure Level (b : Builder) : Prop where
  tables : ∀ t ∈ b.tables, entrySize ∣ t
  elements : ∀ length pushed size first, b.stage = .vector length pushed size first →
    offsetSize ∣ first ∧ offsetSize ≤ b.minAlign

/-- What a step leaves: whatever stood stands still. -/
structure Lays (b b' : Builder) : Prop where
  level : b'.Level
  stands : ∀ d bytes, Stands b d bytes → Stands b' d bytes

section Laying

theorem Lays.refl (level : b.Level) : Lays b b := ⟨level, fun _ _ stands => stands⟩

theorem Lays.trans {b₁ : Builder} (before : Lays b b₁) (after : Lays b₁ b') : Lays b b' :=
  ⟨after.level, fun d bytes stands => after.stands d bytes (before.stands d bytes stands)⟩

/-- Nothing is filled in while no vector is open. -/
theorem stands_of_holds (holds : Holds b.written d bytes) (apart : ¬b.InVector) : Stands b d bytes :=
  ⟨holds, fun _ _ _ _ stage => absurd ⟨_, _, _, _, stage⟩ apart⟩

theorem level_of_apart (tables : ∀ t ∈ b.tables, entrySize ∣ t) (apart : ¬b.InVector) : b.Level :=
  ⟨tables, fun _ _ _ _ stage => absurd ⟨_, _, _, _, stage⟩ apart⟩

/-- What comes in front leaves the rest, if no vector is open behind it. -/
theorem lays_in_front (kept : b.written <:+ b'.written) (tables : ∀ t ∈ b'.tables, entrySize ∣ t)
    (apart : ¬b'.InVector) : Lays b b' :=
  ⟨level_of_apart tables apart, fun _ _ stands => stands_of_holds (stands.holds.of_suffix kept) apart⟩

theorem Adds.lays {left : List UInt8} (adds : Adds b left b') (level : b.Level) : Lays b b' where
  level := ⟨fun t mem => level.tables t (adds.tables ▸ mem), fun length pushed size first stage =>
    have before := level.elements length pushed size first (adds.stage ▸ stage)
    ⟨before.1, Nat.le_trans before.2 adds.minAlign⟩⟩
  stands _ _ stands := ⟨stands.holds.of_suffix adds.suffix, fun length pushed size first stage =>
    stands.clear length pushed size first (adds.stage ▸ stage)⟩

theorem Littered.lays (littered : Littered b b') (level : b.Level) : Lays b b' :=
  let ⟨_, adds⟩ := littered
  adds.lays level

theorem withStage_lays (level : b.Level) {stage : Stage} (apart : ¬(b.withStage stage).InVector) :
    Lays b (b.withStage stage) := lays_in_front (List.suffix_refl _) level.tables apart

/-- What was written last stands in front of an open vector's elements. -/
theorem Adds.stands {gap : List UInt8} (adds : Adds b (bytes ++ gap) b') (sound : b.Sound) :
    Stands b' b'.used bytes := by
  refine ⟨adds.holds sound.region, fun length pushed size first stage => .inr ?_⟩
  have fits := sound.fits
  rw [← adds.stage, stage] at fits
  have used := adds.used sound.region
  have inside := fits.2.2
  rw [List.length_append] at used
  omega

theorem started_lays {length size : Nat} {gap : List UInt8} (level : b.Level) (sound : b.RegionSound)
    (adds : Adds b (zeros (length * size) ++ gap) b') (whole : offsetSize ∣ b'.used)
    (asked : offsetSize ≤ b'.minAlign) :
    Lays b (b'.withStage (.vector length 0 size b'.used)) where
  level := by
    refine ⟨(adds.lays level).level.tables, fun length pushed size first stage => ?_⟩
    obtain ⟨rfl, rfl, rfl, rfl⟩ := Stage.vector.inj stage
    exact ⟨whole, asked⟩
  stands d bytes stands := by
    refine ⟨stands.holds.of_suffix adds.suffix, fun length pushed size first stage => .inl ?_⟩
    obtain ⟨rfl, rfl, rfl, rfl⟩ := Stage.vector.inj stage
    have inside := stands.holds.le_length
    have used := adds.used sound
    rw [sound.length_written] at inside
    rw [List.length_append, length_zeros] at used
    omega

section Filling

variable {length pushed first : Nat} (sound : b.Sound)
  (stage : b.stage = .vector length pushed bytes.length first) (more : pushed < length)

include sound stage more

/-- The element is in place, and what comes later goes behind it. -/
theorem filled_stands :
    Stands (b.filled length pushed first bytes) (first - pushed * bytes.length) bytes := by
  obtain ⟨inside, room, written⟩ := filled_replaces sound stage more
  refine ⟨?_, fun length' pushed' size' first' stage' => .inr ?_⟩
  · rw [written]
    exact holds_replaced room (sound.region.length_written ▸ inside)
  · obtain ⟨rfl, rfl, rfl, rfl⟩ := Stage.vector.inj stage'
    rw [Nat.add_mul]
    omega

theorem filled_lays (level : b.Level) : Lays b (b.filled length pushed first bytes) where
  level := by
    refine ⟨level.tables, fun length' pushed' size' first' stage' => ?_⟩
    obtain ⟨rfl, rfl, rfl, rfl⟩ := Stage.vector.inj stage'
    exact level.elements _ _ _ _ stage
  stands d old stands := by
    obtain ⟨inside, room, written⟩ := filled_replaces sound stage more
    have step : (pushed + 1) * bytes.length ≤ length * bytes.length := Nat.mul_le_mul_right _ more
    rw [Nat.add_mul] at step
    have clear := stands.clear _ _ _ _ stage
    refine ⟨?_, fun length' pushed' size' first' stage' => ?_⟩
    · rw [written]
      rcases clear with behind | ahead
      · exact stands.holds.replaced_behind (sound.region.length_written ▸ inside) room (by omega)
      · exact stands.holds.replaced_ahead room ahead
    · obtain ⟨rfl, rfl, rfl, rfl⟩ := Stage.vector.inj stage'
      rw [Nat.add_mul]
      omega

end Filling

theorem not_inVector_record {start : Nat} {fields : List Field} (stage : b.stage = .record start fields) :
    ¬b.InVector := by
  rintro ⟨length, pushed, size, first, vector⟩
  exact Stage.noConfusion (stage.symm.trans vector)

theorem not_inVector_finished (finished : b.stage = .finished) : ¬b.InVector := by
  rintro ⟨length, pushed, size, first, vector⟩
  exact Stage.noConfusion (finished.symm.trans vector)

theorem Added.lays {slot : Nat} (added : Added b slot bytes b') (level : b.Level) (sound : b.Sound) :
    Lays b b' ∧ Stands b' b'.used bytes := by
  obtain ⟨start, fields, b₁, gap, stage, -, -, adds, rfl⟩ := added
  have apart := not_inVector_record (b := b₁.withStage (.record start (⟨slot, b₁.used⟩ :: fields))) rfl
  exact ⟨(adds.lays level).trans (withStage_lays (adds.lays level).level apart),
    stands_of_holds (adds.holds sound.region) apart⟩

theorem startRecord_lays (level : b.Level) :
    Ends startRecord b (fun _ b' => Lays b b') fun _ b' => Lays b b' := by
  refine startRecord_ends.mono (fun _ b' done => ?_) fun _ _ same => same.symm ▸ .refl level
  rw [done.2]
  exact withStage_lays level (not_inVector_record rfl)

end Laying

section Tables

theorem placeTable_even (sound : b.RegionSound) (even : ∀ t ∈ b.tables, entrySize ∣ t)
    (table : List UInt8) :
    Ends (placeTable table) b (fun t b' => t ∈ b'.tables ∧ ∀ u ∈ b'.tables, entrySize ∣ u)
      fun _ _ => True := by
  rw [placeTable, ends_bind, ends_get]
  split
  next t found =>
    split at found
    · exact ⟨List.mem_of_find?_eq_some found, even⟩
    · cases found
  next =>
    have whole : Ends (writeTable table) b (fun t _ => entrySize ∣ t) fun _ _ => True := by
      have writes := align_write_raises sound table (k := 1) (by decide)
      rw [ends_bind] at writes
      simp only [writeTable, ends_bind]
      refine writes.mono (fun _ b₁ aligned => ?_) fun _ _ _ => trivial
      refine aligned.mono (fun _ b₂ done => ?_) fun _ _ _ => trivial
      simp only [ends_modify, ends_get, ends_pure]
      exact done.2
    refine (whole.and (writeTable_ends sound table)).mono (fun t b' both => ?_) fun _ _ _ => trivial
    obtain ⟨whole, b₁, gap, -, rfl, rfl⟩ := both
    refine ⟨List.mem_cons_self, fun u mem => ?_⟩
    rcases List.mem_cons.1 mem with rfl | older
    · exact whole
    · exact even u older

/-- What a record's first bytes say of where its field table is. -/
def tableOffset (table d : Nat) : List UInt8 := (Scalar.int32 (Int32.ofInt ((table : Int) - d))).toBytes

theorem tableOffset_injective {t u : Nat} (first : t ≤ largestBuffer) (second : u ≤ largestBuffer)
    (here : d ≤ largestBuffer) (same : tableOffset t d = tableOffset u d) : t = u := by
  have read (v : Nat) : Scalar.ofBytes .int32 (tableOffset v d) = .int32 (Int32.ofInt ((v : Int) - d)) := by
    have read := Scalar.ofBytes_toBytes (.int32 (Int32.ofInt ((v : Int) - d))) []
    rwa [List.append_nil] at read
  have equal := Scalar.int32.inj ((read t).symm.trans ((congrArg _ same).trans (read u)))
  have equal := congrArg Int32.toInt equal
  simp only [largestBuffer] at first second here
  rw [Int32.toInt_ofInt_of_le (by omega) (by omega), Int32.toInt_ofInt_of_le (by omega) (by omega)] at equal
  omega

section Closing

variable {Q : (table : List UInt8) → Nat → List Nat → Prop}
  (places : ∀ {b₁ : Builder} {left : List UInt8} (table : List UInt8), Adds b left b₁ →
    Ends (placeTable table) b₁ (fun t b' => t ∈ b'.tables ∧ Q table t b'.tables) fun _ _ => True)

include places

/-- A closed record begins with the offset to the table that was placed for it. -/
theorem endRecord_offset (sound : b.RegionSound) (saved : ∀ t ∈ b.tables, TableSaved b.written t) :
    Ends endRecord b (fun ref b' => ∃ start fields t, b.stage = .record start fields ∧ t ∈ b'.tables ∧
      Q (tableBytes ref.distance (ref.distance - start) fields) t b'.tables ∧
      Holds b'.written ref.distance (tableOffset t ref.distance)) fun _ _ => True := by
  refine ensureWritable_then (fun _ => trivial) fun _ => ?_
  rw [ends_bind, ends_get]
  cases stage : b.stage with
  | record start fields =>
    simp only [ends_bind, ends_get]
    split
    next => trivial
    next =>
      simp only [ends_bind, ends_get]
      refine (pushScalar_ends sound (.int32 0)).mono (fun _ b₁ placed => ?_) fun _ _ _ => trivial
      obtain ⟨-, placeholder⟩ := placed
      have used := placeholder_used sound placeholder
      rw [← used]
      refine ((placeTable_raises placeholder.region (placeholder.saved saved) _).and
        (places _ placeholder)).mono (fun t b₂ table => ?_) fun _ _ _ => trivial
      obtain ⟨⟨-, region, inside⟩, mem, holds⟩ := table
      have four : (tableOffset t b₁.used).length = offsetSize := Scalar.length_toBytes _
      have room : (tableOffset t b₁.used).length ≤ b₁.used := by omega
      rw [← ends_bind, ← ends_bind, bind_assoc]
      refine (seal_ends region inside room).mono (fun ref b' done => ?_) fun _ _ never => never.elim
      obtain ⟨here, rfl⟩ := done
      rw [Builder.tables_sealed, here, Builder.written_sealed region inside room]
      exact ⟨start, fields, t, rfl, mem, holds, holds_replaced room (region.length_written ▸ inside)⟩
  | idle | vector | finished => trivial

theorem endRecord_places (sound : b.Sound) :
    Ends endRecord b (fun ref b' => ∃ start fields t, b.stage = .record start fields ∧
      Closed b start fields ref.distance b' ∧ t ∈ b'.tables ∧
      Q (tableBytes ref.distance (ref.distance - start) fields) t b'.tables ∧
      Holds b'.written t (tableBytes ref.distance (ref.distance - start) fields) ∧
      Holds b'.written ref.distance (tableOffset t ref.distance)) fun _ b' => Littered b b' := by
  refine ((endRecord_ends sound.region sound.fits sound.tables_written).and
    (endRecord_offset places sound.region sound.tables_written)).mono (fun ref b' done => ?_)
    fun _ _ bad => bad.1
  obtain ⟨⟨start, fields, stage, closed⟩, start', fields', t, stage', mem, holds, offset⟩ := done
  obtain ⟨rfl, rfl⟩ := Stage.record.inj (stage.symm.trans stage')
  obtain ⟨u, inside, table, offset'⟩ := closed.table
  have near := closed.region.used_le
  have same : t = u := by
    obtain ⟨_, saved, -⟩ := closed.tables t mem
    have below := saved.le_length
    rw [closed.region.length_written] at below
    have here := Nat.le_trans closed.inside near
    apply tableOffset_injective (Nat.le_trans below near) (Nat.le_trans inside near) here
    exact offset.eq_of_length offset' ((Scalar.length_toBytes _).trans (Scalar.length_toBytes _).symm)
  subst same
  exact ⟨start, fields, t, stage, closed, mem, holds, table, offset⟩

end Closing

/-- A record that was closed stands at a multiple of four, and its field table at an even distance. -/
theorem endRecord_lays (sound : b.Sound) (level : b.Level) :
    Ends endRecord b (fun ref b' => Lays b b' ∧ ∃ start places table, b.stage = .record start places ∧
        entrySize ∣ table ∧ Stands b' table (tableBytes ref.distance (ref.distance - start) places) ∧
        Stands b' ref.distance (tableOffset table ref.distance))
      fun _ b' => Lays b b' := by
  refine (endRecord_places (Q := fun _ _ tables => ∀ u ∈ tables, entrySize ∣ u)
    (fun table adds => placeTable_even adds.region (adds.tables ▸ level.tables) table) sound).mono
    (fun ref b' done => ?_) fun _ _ bad => bad.lays level
  obtain ⟨start, places, t, stage, closed, mem, even, table, offset⟩ := done
  have apart := not_inVector_of_idle closed.stage
  exact ⟨lays_in_front closed.kept even apart, start, places, t, stage, even t mem,
    stands_of_holds table apart, stands_of_holds offset apart⟩

end Tables

/-- The bytes stand, at a multiple of an alignment that the builder remembers. -/
structure Placed (b : Builder) (alignment d : Nat) (bytes : List UInt8) : Prop where
  stands : Stands b d bytes
  sits : b.ground.Sits alignment d

section Placing

variable {alignment : Nat}

theorem scalar_placed (sound : b.Sound) (level : b.Level) (v : Scalar) :
    Ends (pushScalar v) b (fun _ b' => Lays b b' ∧ Placed b' v.size b'.used v.toBytes)
      fun _ b' => Lays b b' := by
  obtain ⟨k, -, power⟩ := v.type.size_power
  refine ((pushScalar_writes sound.region v).and (pushScalar_raises sound.region v)).mono
    (fun _ b' done => ?_) fun _ _ bad => bad.1.lays level
  obtain ⟨⟨gap, adds⟩, raises, whole⟩ := done
  exact ⟨adds.lays level, adds.stands sound, raises.sits whole ⟨k, power⟩⟩

theorem text_placed (sound : b.Sound) (level : b.Level) {x : Build (Ref .text)} {order : Error → Prop}
    (ends : Ends x b (fun ref b' => b.stage = .idle ∧ bytes.length < 2 ^ 32 ∧
      ref.distance = b'.used ∧ ∃ gap < offsetSize, Adds b (textBytes bytes ++ zeros gap) b')
      fun _ b' => Littered b b')
    (raises : Ends x b (fun ref b' => Raises b offsetSize b' ∧ offsetSize ∣ ref.distance)
      fun e _ => order e) :
    Ends x b (fun ref b' => Lays b b' ∧ Placed b' offsetSize ref.distance (textBytes bytes))
      fun _ b' => Lays b b' := by
  refine (ends.and raises).mono (fun ref b' done => ?_) fun _ _ bad => bad.1.lays level
  obtain ⟨⟨-, -, here, gap, -, adds⟩, raises, whole⟩ := done
  rw [here] at whole ⊢
  exact ⟨adds.lays level, adds.stands sound, raises.sits whole ⟨2, rfl⟩⟩

theorem vector_placed (sound : b.Sound) (level : b.Level) (length size : Nat)
    (power : IsWordPower alignment) :
    Ends (startVector length size alignment) b
      (fun _ b' => Lays b b' ∧ Placed b' (max offsetSize alignment) b'.used []) fun _ b' => Lays b b' := by
  obtain ⟨k, small, rfl⟩ := power
  refine ((startVector_ends sound.region length size (2 ^ k)).and
    (startVector_raises sound.region length size small)).mono (fun _ b' done => ?_)
    fun _ _ bad => bad.1.lays level
  obtain ⟨⟨-, -, -, b₁, gap, adds, -, aligned, rfl⟩, raises, four, whole⟩ := done
  have four' : offsetSize ∣ b₁.used := Nat.dvd_of_mod_eq_zero aligned
  have largest : max offsetSize (2 ^ k) = 2 ^ max 2 k := max_two_pow 2 k
  have all : max offsetSize (2 ^ k) ∣ b₁.used := max_rec' (· ∣ b₁.used) four' whole
  have begun : Holds b₁.written b₁.used [] := ⟨[], b₁.written, rfl, adds.region.length_written.symm⟩
  refine ⟨started_lays level sound.region adds four' four.covers, ⟨begun, fun _ _ _ _ stage => .inr ?_⟩,
    ⟨max 2 k, largest⟩, Nat.max_le.2 ⟨four.covers, raises.covers⟩, all⟩
  obtain ⟨rfl, rfl, rfl, rfl⟩ := Stage.vector.inj stage
  exact Nat.sub_le_sub_left (Nat.zero_le _) _

theorem nextPlace_of_stage {length pushed size first : Nat}
    (stage : b.stage = .vector length pushed size first) : b.nextPlace = first - pushed * size := by
  rw [nextPlace, stage]

theorem element_placed (sound : b.Sound) (regular : b.Regular) (level : b.Level) (p : Piece)
    {x : Build Unit}
    (ends : Ends x b (fun _ b' => ∃ length pushed first, b.stage = .vector length pushed p.size first ∧
      pushed < length ∧ b' = b.filled length pushed first (p.bytesAt (first - pushed * p.size)))
      fun _ b' => b' = b) :
    Ends x b (fun _ b' => Lays b b' ∧
        Placed b' (elementAlignment p) b.nextPlace (p.bytesAt b.nextPlace))
      fun _ b' => Lays b b' := by
  refine ends.mono (fun _ b' done => ?_) fun _ _ same => same.symm ▸ .refl level
  obtain ⟨length, pushed, first, stage, more, rfl⟩ := done
  have place := nextPlace_of_stage stage
  rw [← place]
  rw [← p.length_bytesAt b.nextPlace] at stage place
  have stands := filled_stands sound stage more
  rw [← place] at stands
  have sits : b.ground.Sits (elementAlignment p) b.nextPlace := by
    cases p with
    | own bytes =>
      obtain ⟨k, -, power⟩ := regular
      exact ⟨⟨0, rfl⟩, (power.symm ▸ Nat.two_pow_pos k : 1 ≤ b.minAlign), Nat.one_dvd _⟩
    | ref kind target =>
      obtain ⟨whole, asked⟩ := level.elements _ _ _ _ stage
      rw [place, Piece.length_bytesAt]
      exact ⟨⟨2, rfl⟩, asked, Nat.dvd_sub whole (Nat.dvd_mul_left _ _)⟩
  have least := Nat.le_of_eq (minAlign_filled b length pushed first (p.bytesAt b.nextPlace)).symm
  exact ⟨filled_lays sound stage more level, stands,
    sits.mono ⟨(filled_advances sound stage more).kept, least⟩⟩

theorem count_placed (sound : b.Sound) (level : b.Level) :
    Ends endVector b (fun ref b' => Lays b b' ∧ ∃ length size first, b.stage = .vector length length size first ∧
        Placed b' offsetSize ref.distance (Scalar.uint32 (UInt32.ofNat length)).toBytes)
      fun _ b' => Lays b b' := by
  have closes : Lays b (b.withStage .idle) := withStage_lays level (not_inVector_of_idle rfl)
  refine ((endVector_ends sound.region).and (endVector_raises sound.region)).mono (fun ref b' done => ?_)
    fun _ b' bad => ?_
  · obtain ⟨⟨length, size, first, gap, stage, here, adds, -⟩, raises, whole⟩ := done
    refine ⟨closes.trans (adds.lays closes.level), length, size, first, stage, ?_,
      raises.sits whole ⟨2, rfl⟩⟩
    rw [here]
    exact adds.stands sound.idle_withStage.sound
  · rcases bad.1 with same | ⟨-, stray⟩
    · exact same.symm ▸ .refl level
    · exact closes.trans (stray.lays closes.level)

theorem field_placed (bytes : Builder → List UInt8) (sound : b.Sound) (level : b.Level)
    {x : Build Unit} {slot : Nat} {order : Error → Prop} (power : ∃ k, alignment = 2 ^ k)
    (adds : Ends x b (fun _ b' => Added b slot (bytes b') b') fun _ b' => Littered b b')
    (raises : Ends x b (fun _ b' => Raises b alignment b' ∧ alignment ∣ b'.used) fun e _ => order e) :
    Ends x b (fun _ b' => Lays b b' ∧ Placed b' alignment b'.used (bytes b')) fun _ b' => Lays b b' := by
  refine (adds.and raises).mono (fun _ b' done => ?_) fun _ _ bad => bad.1.lays level
  obtain ⟨added, raises, whole⟩ := done
  obtain ⟨lays, stands⟩ := added.lays level sound
  exact ⟨lays, stands, raises.sits whole power⟩

/-- A field that is not left out. -/
theorem optional_placed (sound : b.Sound) (level : b.Level) (slot : Nat) (value default : Scalar) :
    Ends (addField slot value default) b (fun _ b' => Lays b b' ∧
        (b.elides value default = false → Placed b' value.size b'.used value.toBytes))
      fun _ b' => Lays b b' := by
  obtain ⟨k, -, power⟩ := value.type.size_power
  refine ((addField_ends sound.region slot value default).and
    (addField_raises sound.region slot value default)).mono (fun _ b' done => ?_)
    fun _ _ bad => bad.1.lays level
  obtain ⟨⟨elided, rfl⟩ | ⟨written, added⟩, raises⟩ := done
  · exact ⟨.refl level, fun written => absurd (elided.symm.trans written) (by decide)⟩
  · obtain ⟨lays, stands⟩ := added.lays level sound
    rcases raises with ⟨elided, -⟩ | ⟨raises, whole⟩
    · exact absurd (elided.symm.trans written) (by decide)
    · exact ⟨lays, fun _ => ⟨stands, raises.sits whole ⟨k, power⟩⟩⟩

theorem record_placed (sound : b.Sound) (level : b.Level) :
    Ends endRecord b (fun ref b' => Lays b b' ∧ ∃ start places table, b.stage = .record start places ∧
        Placed b' entrySize table (tableBytes ref.distance (ref.distance - start) places) ∧
        Placed b' offsetSize ref.distance (tableOffset table ref.distance))
      fun _ b' => Lays b b' := by
  refine ((endRecord_lays sound level).and (endRecord_raises sound.region sound.tables_written)).mono
    (fun ref b' done => ?_) fun _ _ bad => bad.1
  obtain ⟨⟨lays, start, places, t, stage, even, table, offset⟩, raises, whole⟩ := done
  have asked : entrySize ≤ b'.minAlign := Nat.le_trans (by decide) raises.covers
  exact ⟨lays, start, places, t, stage, ⟨table, ⟨1, rfl⟩, asked, even⟩, offset,
    raises.sits whole ⟨2, rfl⟩⟩

end Placing

end FlatRecord.Builder
