import FlatRecord.Proofs.Builder.Soundness
import FlatRecord.Proofs.Sizes

/-! Where steps put what they write, and why they fail. Every object stands at a multiple of its alignment from
the end, the builder remembers the largest alignment, and a step that is in order fails only by the size limit. -/
namespace FlatRecord

open Builder Build

namespace Builder

/-- The length of the finished buffer will be a multiple of a power of two. -/
def Regular (b : Builder) : Prop := ∃ k < 64, b.minAlign = 2 ^ k

/-- The builder remembers the alignment, and what it remembered before. -/
structure Raises (b : Builder) (alignment : Nat) (b' : Builder) : Prop where
  keeps : b.minAlign ≤ b'.minAlign
  covers : alignment ≤ b'.minAlign
  regular : b.Regular → b'.Regular

variable {b b' b'' : Builder} {alignment : Nat}

theorem Raises.trans {more : Nat} (before : Raises b alignment b') (after : Raises b' more b'') :
    Raises b alignment b'' where
  keeps := Nat.le_trans before.keeps after.keeps
  covers := Nat.le_trans before.covers after.keeps
  regular regular := after.regular (before.regular regular)

theorem raises_same (same : b'.minAlign = b.minAlign) : Raises b 0 b' :=
  ⟨Nat.le_of_eq same.symm, Nat.zero_le _, fun regular => by rwa [Regular, same]⟩

theorem Raises.same (raises : Raises b alignment b') (same : b''.minAlign = b'.minAlign) :
    Raises b alignment b'' := raises.trans (raises_same same)

theorem raises_max {k : Nat} (small : k < 64) (same : b'.minAlign = max b.minAlign (2 ^ k)) :
    Raises b (2 ^ k) b' := by
  refine ⟨by omega, by omega, fun regular => ?_⟩
  obtain ⟨j, small', power⟩ := regular
  exact ⟨max j k, by omega, by rw [same, power, max_two_pow]⟩

end Builder

variable {b : Builder}

section Writing

theorem write_level (sound : b.RegionSound) (bytes : List UInt8) :
    Ends (Builder.write bytes) b (fun _ b' => Adds b bytes b' ∧ b'.minAlign = b.minAlign)
      (fun e _ => e.IsLimit) := by
  have level : Ends (Builder.write bytes) b (fun _ b' => b'.minAlign = b.minAlign)
      (fun _ _ => True) := by
    simp only [Builder.write, ends_bind, ends_get, ends_ofExcept, ends_modify]
    exact ⟨fun _ _ => trivial, fun _ _ => trivial⟩
  exact ((write_ends sound bytes).and level).mono (fun _ _ both => both) fun _ _ both => both.1.1

theorem align_raises (sound : b.RegionSound) (length : Nat) {k : Nat} (small : k < 64) :
    Ends (align length (2 ^ k)) b
      (fun _ b' => Adds b (zeros (padding (b.used + length) (2 ^ k))) b' ∧ Raises b (2 ^ k) b' ∧
        2 ^ k ∣ b'.used + length) (fun e _ => e.IsLimit) := by
  have level : Ends (align length (2 ^ k)) b (fun _ b' => b'.minAlign = max b.minAlign (2 ^ k))
      (fun _ _ => True) := by
    simp only [align, writeZeros, ends_bind, ends_get, ends_ofExcept, ends_modify]
    exact ⟨fun _ _ => trivial, fun _ _ => trivial⟩
  refine ((align_ends sound length (2 ^ k)).and level).mono (fun _ b' both => ?_)
    fun _ _ both => both.1.1
  obtain ⟨adds, same⟩ := both
  have used := adds.used sound
  have whole := add_padding_mod (b.used + length) k
  rw [length_zeros] at used
  rw [Nat.min_eq_left (by omega)] at whole
  refine ⟨adds, raises_max small same, Nat.dvd_of_mod_eq_zero ?_⟩
  rw [← whole, used]
  congr 1
  omega

theorem align_write_raises (sound : b.RegionSound) (bytes : List UInt8) {k : Nat} (small : k < 64) :
    Ends (do align bytes.length (2 ^ k); Builder.write bytes) b
      (fun _ b' => Raises b (2 ^ k) b' ∧ 2 ^ k ∣ b'.used) (fun e _ => e.IsLimit) := by
  rw [ends_bind]
  refine (align_raises sound bytes.length small).mono (fun _ b₁ pad => ?_) fun _ _ bad => bad
  obtain ⟨pad, raises, whole⟩ := pad
  refine (write_level pad.region bytes).mono (fun _ b' written => ?_) fun _ _ bad => bad
  rw [written.1.used pad.region, Nat.add_comm]
  exact ⟨raises.same written.2, whole⟩

theorem ensureWritable_orderly {x : Build α} {ok : α → Builder → Prop} {order : Prop}
    (writable : order → b.stage ≠ .finished)
    (next : b.stage ≠ .finished → Ends x b ok fun e _ => order → e.IsLimit) :
    Ends (do ensureWritable; x) b ok fun e _ => order → e.IsLimit := by
  rw [ends_bind]
  refine ensureWritable_ends.mono (fun _ b₁ start => ?_) fun e _ stop order => ?_
  · obtain ⟨rfl, writable⟩ := start
    exact next writable
  · exact absurd stop.2.2 (writable order)

/-- A reference to what is complete is accepted. -/
theorem checkRef_orderly {distance limit : Nat} {x : Build α} {ok : α → Builder → Prop}
    {order : Prop} (good : order → 0 < distance ∧ distance ≤ limit)
    (next : Ends x b ok fun e _ => order → e.IsLimit) :
    Ends (do checkRef distance limit; x) b ok fun e _ => order → e.IsLimit := by
  rw [ends_bind, checkRef]
  split
  next bad =>
    intro order
    obtain ⟨positive, below⟩ := good order
    omega
  next => exact next

theorem pushScalar_raises (sound : b.RegionSound) (v : Scalar) :
    Ends (pushScalar v) b (fun _ b' => Raises b v.size b' ∧ v.size ∣ b'.used)
      (fun e _ => b.stage ≠ .finished → e.IsLimit) := by
  obtain ⟨k, small, power⟩ := v.type.size_power
  refine ensureWritable_orderly id fun _ => ?_
  have writes := align_write_raises sound v.toBytes (k := k) (by omega)
  rw [v.length_toBytes, ← show v.size = 2 ^ k from power] at writes
  exact writes.mono (fun _ _ done => done) fun _ _ limit _ => limit

theorem pushOffset_raises (sound : b.RegionSound) (distance : Nat) :
    Ends (pushOffset distance) b (fun _ b' => Raises b offsetSize b' ∧ offsetSize ∣ b'.used)
      (fun e _ => e.IsLimit) := by
  simp only [pushOffset, ends_bind, ends_get]
  refine (align_raises sound offsetSize (k := 2) (by decide)).mono (fun _ b₁ pad => ?_)
    fun _ _ bad => bad
  obtain ⟨pad, raises, whole⟩ := pad
  refine (write_level pad.region _).mono (fun _ b' written => ?_) fun _ _ bad => bad
  rw [written.1.used pad.region, LittleEndian.length_encode, Nat.add_comm]
  exact ⟨raises.same written.2, whole⟩

end Writing

section Objects

theorem ensureIdle_orderly {x : Build α} {ok : α → Builder → Prop} {order : Prop}
    (idle : order → b.stage = .idle)
    (next : b.stage = .idle → Ends x b ok fun e _ => order → e.IsLimit) :
    Ends (do ensureIdle; x) b ok fun e _ => order → e.IsLimit := by
  rw [ends_bind]
  refine ensureIdle_ends.mono (fun _ b₁ start => ?_) fun e _ stop order => ?_
  · obtain ⟨rfl, idle⟩ := start
    exact next idle
  · exact absurd (idle order) stop.2.2

theorem createUnchecked_raises (sound : b.RegionSound) (bytes : List UInt8) :
    Ends (createUnchecked bytes) b (fun ref b' => Raises b offsetSize b' ∧ offsetSize ∣ ref.distance)
      (fun e _ => b.stage = .idle → e.IsLimit) := by
  refine ensureIdle_orderly id fun _ => ?_
  dsimp only
  split
  next =>
    simp only [ends_bind, ends_get, ends_throw]
    exact fun _ => ⟨_, _, rfl⟩
  next =>
    simp only [ends_bind]
    refine (align_raises sound _ (k := 2) (by decide)).mono (fun _ b₁ pad => ?_) fun _ _ bad _ => bad
    obtain ⟨pad, raises, whole⟩ := pad
    refine (write_level pad.region _).mono (fun _ b₂ zero => ?_) fun _ _ bad _ => bad
    refine (write_level zero.1.region _).mono (fun _ b₃ body => ?_) fun _ _ bad _ => bad
    refine (write_level body.1.region _).mono (fun _ b₄ count => ?_) fun _ _ bad _ => bad
    rw [hereAs_ends]
    refine ⟨((raises.same zero.2).same body.2).same count.2, ?_⟩
    have used : b₄.used = b₁.used + (bytes.length + 1) + offsetSize := by
      rw [count.1.used body.1.region, body.1.used zero.1.region, zero.1.used pad.region,
        LittleEndian.length_encode, List.length_singleton]
      omega
    rw [used]
    exact Nat.dvd_add whole (Nat.dvd_refl _)

theorem createBytes_raises (sound : b.RegionSound) (bytes : Bytes) :
    Ends (createBytes bytes) b (fun ref b' => Raises b offsetSize b' ∧ offsetSize ∣ ref.distance)
      (fun e _ => b.stage = .idle ∧ (b.config.validateText = true → (Text.toText? bytes).isSome) →
        e.IsLimit) := by
  rw [createBytes, ends_bind, ends_get]
  split
  next bad =>
    intro order
    obtain ⟨checked, invalid⟩ := bad
    rw [Option.isNone_iff_eq_none] at invalid
    exact absurd (order.2 checked) (by simp [invalid])
  next =>
    exact (createUnchecked_raises sound bytes.toList).mono (fun _ _ done => done)
      fun _ _ limit order => limit order.1

theorem startVector_raises (sound : b.RegionSound) (length size : Nat) {k : Nat} (small : k < 64) :
    Ends (startVector length size (2 ^ k)) b
      (fun _ b' => Raises b (2 ^ k) b' ∧ Raises b offsetSize b' ∧ 2 ^ k ∣ b'.used)
      (fun e _ => b.stage = .idle ∧ size ≠ 0 → e.IsLimit) := by
  refine ensureIdle_orderly And.left fun _ => ?_
  have power : isPowerOfTwo (2 ^ k) = true := (isPowerOfTwo_iff _).2 ⟨k, rfl⟩
  have largest : max (2 ^ k) offsetSize = 2 ^ max k 2 := max_two_pow k 2
  dsimp only
  split
  next bad => exact fun order => absurd bad (by simp [order.2, power])
  next =>
    split
    next =>
      simp only [ends_bind, ends_get, ends_throw]
      exact fun _ => ⟨_, _, rfl⟩
    next =>
      simp only [ends_bind, largest]
      refine (align_raises sound _ (by omega)).mono (fun _ b₁ pad => ?_) fun _ _ bad _ => bad
      obtain ⟨pad, raises, whole⟩ := pad
      have level : Ends (writeZeros (length * size)) b₁ (fun _ b' => b'.minAlign = b₁.minAlign)
          (fun _ _ => True) := by
        simp only [writeZeros, ends_bind, ends_get, ends_ofExcept, ends_modify]
        exact ⟨fun _ _ => trivial, fun _ _ => trivial⟩
      refine ((writeZeros_ends pad.region _).and level).mono (fun _ b₂ space => ?_)
        fun _ _ bad _ => bad.1.1
      have more := raises.same space.2
      have used : b₂.used = b₁.used + length * size := by
        rw [space.1.used pad.region, length_zeros, Nat.add_comm]
      have below : 2 ^ k ≤ 2 ^ max k 2 := Nat.pow_le_pow_right (by decide) (Nat.le_max_left _ _)
      have four : offsetSize ≤ 2 ^ max k 2 :=
        Nat.pow_le_pow_right (show 0 < 2 by decide) (Nat.le_max_right k 2)
      refine ⟨⟨more.keeps, Nat.le_trans below more.covers, more.regular⟩,
        ⟨more.keeps, Nat.le_trans four more.covers, more.regular⟩, ?_⟩
      change 2 ^ k ∣ b₂.used
      rw [used]
      exact Nat.dvd_trans (Nat.pow_dvd_pow 2 (Nat.le_max_left _ _)) whole

/-- There is room for an element of that size. -/
def Builder.HasRoom (b : Builder) (size : Nat) : Prop :=
  ∃ length pushed first, b.stage = .vector length pushed size first ∧ pushed < length

theorem Builder.HasRoom.writable {size : Nat} (room : b.HasRoom size) : b.stage ≠ .finished := by
  obtain ⟨_, _, _, stage, _⟩ := room
  exact fun finished => Stage.noConfusion (stage.symm.trans finished)

/-- An element that there is room for is filled. -/
theorem nextPlaces_orderly {size : Nat} {x : Nat × Nat → Build α} {ok : α → Builder → Prop}
    {order : Prop} (room : order → b.HasRoom size)
    (next : ∀ length pushed first, b.stage = .vector length pushed size first → pushed < length →
      Ends (x (first - pushed * size, first - length * size)) b ok fun e _ => order → e.IsLimit) :
    Ends (do ensureWritable; x (← nextPlaces size)) b ok fun e _ => order → e.IsLimit := by
  refine ensureWritable_orderly (fun order => (room order).writable) fun _ => ?_
  have refused : ∀ e : Error, ¬b.HasRoom size → order → e.IsLimit :=
    fun _ full order => absurd (room order) full
  rw [ends_bind, nextPlaces, ends_bind, ends_get]
  cases stage : b.stage with
  | vector length pushed elementSize first =>
    dsimp only
    split
    next wrong =>
      apply refused
      rintro ⟨_, _, _, stage', -⟩
      exact wrong (Stage.vector.inj (stage.symm.trans stage')).2.2.1
    next right =>
      split
      next full =>
        apply refused
        rintro ⟨_, _, _, stage', more⟩
        obtain ⟨rfl, rfl, -⟩ := Stage.vector.inj (stage.symm.trans stage')
        exact absurd more (by omega)
      next more =>
        have same : elementSize = size := by simpa using right
        subst same
        exact next length pushed first stage (by omega)
  | idle | record | finished =>
    apply refused
    rintro ⟨_, _, _, stage', -⟩
    cases stage.symm.trans stage'

theorem pushBytesElement_orderly (sound : b.RegionSound) (fits : b.stage.Fits b.used)
    (bytes : List UInt8) :
    Ends (pushBytesElement bytes) b (fun _ b' => b'.minAlign = b.minAlign ∧ b'.used = b.used)
      (fun e _ => b.HasRoom bytes.length → e.IsLimit) := by
  rw [pushBytesElement_eq]
  refine nextPlaces_orderly (x := fun places => fillElement places.1 bytes) id
    fun length pushed first stage more => ?_
  rw [stage] at fits
  exact (fillElement_ends sound bytes stage more fits.2.1 fits.2.2).mono
    (fun _ b' done => by rw [done]; exact ⟨rfl, rfl⟩) fun _ _ never => never.elim

theorem pushRef_orderly (sound : b.RegionSound) (fits : b.stage.Fits b.used) {kind : ObjectKind}
    (child : Ref kind) :
    Ends (pushRef child) b (fun _ b' => b'.minAlign = b.minAlign ∧ b'.used = b.used)
      (fun e _ => b.HasRoom offsetSize ∧ 0 < child.distance ∧ child.distance ≤ b.floor →
        e.IsLimit) := by
  rw [pushRef_eq]
  refine nextPlaces_orderly (x := fun places => do
    checkRef child.distance places.2
    fillElement places.1 (LittleEndian.encode offsetSize (places.1 - child.distance))) And.left
    fun length pushed first stage more => ?_
  have floor : b.floor = first - length * offsetSize := by rw [Builder.floor, stage]
  have size := LittleEndian.length_encode offsetSize (first - pushed * offsetSize - child.distance)
  rw [stage] at fits
  refine checkRef_orderly (fun order => floor ▸ order.2) ?_
  have fill := fillElement_ends sound (LittleEndian.encode offsetSize
    (first - pushed * offsetSize - child.distance)) (by rw [size]; exact stage) more
    (by rw [size]; exact fits.2.1) fits.2.2
  rw [size] at fill
  exact fill.mono (fun _ b' done => by rw [done]; exact ⟨rfl, rfl⟩) fun _ _ never => never.elim

/-- All elements are there. -/
def Builder.IsFull (b : Builder) : Prop :=
  ∃ length size first, b.stage = .vector length length size first

theorem endVector_raises (sound : b.RegionSound) :
    Ends endVector b (fun ref b' => Raises b offsetSize b' ∧ offsetSize ∣ ref.distance)
      (fun e _ => b.IsFull → e.IsLimit) := by
  refine ensureWritable_orderly (fun ⟨_, _, _, stage⟩ finished =>
    Stage.noConfusion (stage.symm.trans finished)) fun _ => ?_
  rw [ends_bind, ends_get]
  cases stage : b.stage with
  | vector length pushed size first =>
    dsimp only
    split
    next few =>
      rintro ⟨_, _, _, stage'⟩
      obtain ⟨rfl, rfl, -⟩ := Stage.vector.inj (stage.symm.trans stage')
      exact absurd rfl few
    next =>
      rw [ends_bind, setStage, ends_modify, ends_bind, pushCount]
      refine (pushScalar_raises (sound.withStage .idle) _).mono (fun _ b₁ count => ?_)
        fun _ _ limit _ => limit Stage.noConfusion
      rw [hereAs_ends]
      exact ⟨⟨count.1.keeps, count.1.covers, count.1.regular⟩, count.2⟩
  | idle | record | finished =>
    rintro ⟨_, _, _, stage'⟩
    exact Stage.noConfusion (stage.symm.trans stage')

end Objects

section Records

/-- A record is open that does not have the slot yet. -/
def Builder.Lacks (b : Builder) (slot : Nat) : Prop :=
  ∃ start fields, b.stage = .record start fields ∧ slot ∉ fields.map (·.slot)

theorem Builder.Lacks.writable {slot : Nat} (lacks : b.Lacks slot) : b.stage ≠ .finished := by
  obtain ⟨_, _, stage, _⟩ := lacks
  exact fun finished => Stage.noConfusion (stage.symm.trans finished)

/-- A slot that the open record lacks can be added. -/
theorem checkSlot_orderly {slot : Nat} {x : Nat → Build α} {ok : α → Builder → Prop}
    {order : Prop} (lacks : order → b.Lacks slot)
    (next : ∀ start fields, b.stage = .record start fields →
      Ends (x start) b ok fun e _ => order → e.IsLimit) :
    Ends (do ensureWritable; x (← checkSlot slot)) b ok fun e _ => order → e.IsLimit := by
  refine ensureWritable_orderly (fun order => (lacks order).writable) fun _ => ?_
  have refused : ∀ e : Error, ¬b.Lacks slot → order → e.IsLimit :=
    fun _ has order => absurd (lacks order) has
  rw [ends_bind, checkSlot, ends_bind, ends_get]
  cases stage : b.stage with
  | record start fields =>
    dsimp only
    split
    next => exact fun _ => ⟨_, _, rfl⟩
    next =>
      split
      next taken =>
        apply refused
        rintro ⟨_, _, stage', fresh⟩
        obtain ⟨rfl, rfl⟩ := Stage.record.inj (stage.symm.trans stage')
        exact fresh (by simpa using taken)
      next => exact next start fields stage
  | idle | vector | finished =>
    apply refused
    rintro ⟨_, _, stage', -⟩
    cases stage.symm.trans stage'

theorem startRecord_orderly :
    Ends startRecord b (fun _ b' => b'.minAlign = b.minAlign) (fun e _ => b.stage = .idle → e.IsLimit) := by
  refine ensureIdle_orderly id fun _ => ?_
  rw [ends_bind, ends_get, setStage, ends_modify]

theorem addField_raises (sound : b.RegionSound) (slot : Nat) (value default : Scalar) :
    Ends (addField slot value default) b
      (fun _ b' => (b.elides value default = true ∧ b' = b) ∨
        (Raises b value.size b' ∧ value.size ∣ b'.used))
      (fun e _ => b.Lacks slot → e.IsLimit) := by
  refine checkSlot_orderly (x := fun _ => do
    if value.sameNumber default ∧ !(← get).config.forceDefaults then return
    pushScalar value
    noteField slot) id fun start fields stage => ?_
  simp only [ends_bind, ends_get]
  split
  next same => exact .inl ⟨by simpa [elides] using same, rfl⟩
  next =>
    rw [ends_bind]
    refine (pushScalar_raises sound value).mono (fun _ b₁ done => ?_)
      fun _ _ limit (lacks : b.Lacks slot) => limit lacks.writable
    rw [noteField, ends_modify]
    exact .inr ⟨done.1.same rfl, done.2⟩

theorem addRequiredField_raises (sound : b.RegionSound) (slot : Nat) (value : Scalar) :
    Ends (addRequiredField slot value) b
      (fun _ b' => Raises b value.size b' ∧ value.size ∣ b'.used)
      (fun e _ => b.Lacks slot → e.IsLimit) := by
  refine checkSlot_orderly (x := fun _ => do
    pushScalar value
    noteField slot) id fun start fields stage => ?_
  rw [ends_bind]
  refine (pushScalar_raises sound value).mono (fun _ b₁ done => ?_)
    fun _ _ limit (lacks : b.Lacks slot) => limit lacks.writable
  rw [noteField, ends_modify]
  exact ⟨done.1.same rfl, done.2⟩

theorem addStructField_raises (sound : b.RegionSound) (slot : Nat) (bytes : List UInt8) {k : Nat}
    (small : k < 64) :
    Ends (addStructField slot bytes (2 ^ k)) b
      (fun _ b' => Raises b (2 ^ k) b' ∧ 2 ^ k ∣ b'.used) (fun e _ => b.Lacks slot → e.IsLimit) := by
  refine checkSlot_orderly (x := fun _ => do
    align bytes.length (2 ^ k)
    Builder.write bytes
    noteField slot) id fun start fields stage => ?_
  have writes := align_write_raises sound bytes small
  rw [ends_bind] at writes ⊢
  refine writes.mono (fun _ b₁ aligned => ?_) fun _ _ limit _ => limit
  rw [ends_bind]
  refine aligned.mono (fun _ b₂ done => ?_) fun _ _ limit _ => limit
  rw [noteField, ends_modify]
  exact ⟨done.1.same rfl, done.2⟩

theorem addRefField_raises (sound : b.RegionSound) (slot : Nat) {kind : ObjectKind}
    (child : Ref kind) :
    Ends (addRefField slot child) b
      (fun _ b' => Raises b offsetSize b' ∧ offsetSize ∣ b'.used)
      (fun e _ => b.Lacks slot ∧ 0 < child.distance ∧ child.distance ≤ b.floor → e.IsLimit) := by
  refine checkSlot_orderly (x := fun start => do
    checkRef child.distance start
    pushOffset child.distance
    noteField slot) And.left fun start fields stage => ?_
  have floor : b.floor = start := by rw [Builder.floor, stage]
  refine checkRef_orderly (fun order => floor ▸ order.2) ?_
  rw [ends_bind]
  refine (pushOffset_raises sound _).mono (fun _ b₂ done => ?_) fun _ _ limit _ => limit
  rw [noteField, ends_modify]
  exact ⟨done.1.same rfl, done.2⟩

theorem placeTable_raises (sound : b.RegionSound) (saved : ∀ d ∈ b.tables, TableSaved b.written d)
    (table : List UInt8) :
    Ends (placeTable table) b
      (fun _ b' => Raises b 0 b' ∧ b'.RegionSound ∧ b.used ≤ b'.used) (fun e _ => e.IsLimit) := by
  have level : Ends (placeTable table) b (fun _ b' => Raises b 0 b') (fun e _ => e.IsLimit) := by
    rw [placeTable, ends_bind, ends_get]
    split
    next => exact raises_same rfl
    next =>
      have writes := align_write_raises sound table (k := 1) (by decide)
      rw [ends_bind] at writes
      simp only [writeTable, ends_bind]
      refine writes.mono (fun _ b₁ aligned => ?_) fun _ _ limit => limit
      refine aligned.mono (fun _ b₂ done => ?_) fun _ _ limit => limit
      simp only [ends_modify, ends_get, ends_pure]
      exact ⟨done.1.keeps, Nat.zero_le _, done.1.regular⟩
  refine (level.and (placeTable_ends sound saved table)).mono (fun d b' both => ⟨both.1, ?_⟩)
    fun _ _ both => both.1
  rcases both.2 with ⟨rfl, -, -⟩ | ⟨b₁, gap, adds, -, rfl⟩
  · exact ⟨sound, Nat.le_refl _⟩
  · have used := adds.used sound
    exact ⟨⟨adds.region.sound, adds.region.limit⟩, by change b.used ≤ b₁.used; omega⟩

theorem endRecord_raises (sound : b.RegionSound) (saved : ∀ d ∈ b.tables, TableSaved b.written d) :
    Ends endRecord b (fun ref b' => Raises b offsetSize b' ∧ offsetSize ∣ ref.distance)
      (fun e _ => (∃ start fields, b.stage = .record start fields) → e.IsLimit) := by
  have writable : (∃ start fields, b.stage = .record start fields) → b.stage ≠ .finished := by
    rintro ⟨_, _, stage⟩ finished
    cases stage.symm.trans finished
  refine ensureWritable_orderly writable fun _ => ?_
  rw [ends_bind, ends_get]
  cases stage : b.stage with
  | record start fields =>
    simp only [ends_bind, ends_get]
    split
    next => exact fun _ => ⟨_, _, rfl⟩
    next =>
      simp only [ends_bind, ends_get]
      refine ((pushScalar_ends sound (.int32 0)).and (pushScalar_raises sound (.int32 0))).mono
        (fun _ b₁ placed => ?_) fun _ _ limit _ => limit.2 (by simp [stage])
      obtain ⟨⟨_, placeholder⟩, raises, whole⟩ := placed
      have used := placeholder.used sound
      rw [List.length_append, Scalar.length_toBytes] at used
      refine (placeTable_raises placeholder.region (placeholder.saved saved) _).mono
        (fun t b₂ table => ?_) fun _ _ limit _ => limit
      obtain ⟨level, region, behind⟩ := table
      have granted := Region.within_ok b₂.region b₁.used
        (Scalar.int32 (Int32.ofInt ((t : Int) - b₁.used))).toBytes.length region.sound behind (by
          rw [Scalar.length_toBytes]
          simp only [Scalar.size, Scalar.type, ScalarType.size] at used ⊢
          omega)
      simp only [Builder.overwrite, setStage, ends_bind, ends_get, ends_ofExcept, ends_modify,
        ends_pure, granted]
      constructor
      · exact fun _ _ => ⟨(raises.trans level).same rfl, whole⟩
      · intro e refused
        cases refused
  | idle | vector | finished =>
    rintro ⟨_, _, stage'⟩
    cases stage'

end Records

section Finishing

/-- Behind the one padding, the header needs no other. -/
theorem header_aligned {n total : Nat} (sound : b.RegionSound) (root : Ref .record)
    (sizePrefixed : Bool) (four : 4 ∣ n) (whole : n ∣ total)
    (rest : total = b.used + offsetSize + if sizePrefixed then offsetSize else 0) :
    Ends (do
      pushOffset root.distance
      if sizePrefixed then pushCount (← get).used
      setStage .finished
      return (← get).region.data) b (fun bytes _ => n ∣ bytes.size)
      (fun e _ => b.stage ≠ .finished → e.IsLimit) := by
  have front : 4 ∣ b.used + offsetSize := by
    have all := Nat.dvd_trans four whole
    rw [rest] at all
    cases sizePrefixed with
    | false => exact all
    | true => exact (Nat.dvd_add_left (Nat.dvd_refl 4)).1 all
  have tight : padding (b.used + offsetSize) offsetSize = 0 := by
    rw [offsetSize, padding_four]
    simp only [offsetSize] at front
    omega
  have close {b₁ : Builder} (region : b₁.RegionSound) (used : b₁.used = total) :
      n ∣ b₁.region.data.size := by
    rw [← Array.length_toList, Region.toList_data, ← show b₁.written = b₁.region.written from rfl,
      region.length_written, used]
    exact whole
  rw [ends_bind]
  refine (pushOffset_ends sound _).mono (fun _ b₁ offset => ?_) fun _ _ bad _ => bad.1
  obtain ⟨aligned, offset⟩ := offset
  have used := offset.used sound
  rw [tight, zeros, List.replicate_zero, List.append_nil, LittleEndian.length_encode] at used
  cases sizePrefixed with
  | false =>
    simp only [Bool.false_eq_true, if_false, Nat.add_zero] at rest ⊢
    simp only [ends_bind, setStage, ends_modify, ends_get, ends_pure]
    exact close offset.region (by omega)
  | true =>
    simp only [if_true] at rest ⊢
    rw [ends_bind, ends_get, ends_bind]
    refine ((prefix_ends offset.region aligned).and (pushScalar_raises offset.region _)).mono
      (fun _ b₂ size => ?_) fun _ _ bad writable => bad.2 (by rwa [offset.stage])
    have used' := size.1.used offset.region
    rw [LittleEndian.length_encode] at used'
    simp only [ends_bind, setStage, ends_modify, ends_get, ends_pure]
    exact close size.1.region (by omega)

/-- The length of the buffer is a multiple of every alignment that was asked for. -/
theorem finish_aligned (sound : b.RegionSound) (regular : b.Regular) (root : Ref .record)
    (identifier : Option Identifier) (sizePrefixed : Bool) :
    Ends (finish root identifier sizePrefixed) b
      (fun bytes _ => ∀ j, 2 ^ j ≤ max b.minAlign offsetSize → 2 ^ j ∣ bytes.size)
      (fun e _ => b.stage = .idle ∧ 0 < root.distance ∧ root.distance ≤ b.used → e.IsLimit) := by
  obtain ⟨k, small, power⟩ := regular
  have largest : max b.minAlign offsetSize = 2 ^ max k 2 := by rw [power]; exact max_two_pow k 2
  have four : 4 ∣ 2 ^ max k 2 := Nat.pow_dvd_pow 2 (Nat.le_max_right k 2)
  refine ensureWritable_orderly (fun order finished =>
    Stage.noConfusion (order.1.symm.trans finished)) fun _ => ?_
  rw [ends_bind, ends_get]
  dsimp only
  split
  next busy => exact fun order => absurd order.1 busy
  next idle =>
    have idle : b.stage = .idle := by simpa using idle
    rw [ends_bind, ends_get]
    refine checkRef_orderly And.right ?_
    rw [ends_bind, ends_get, ends_bind, largest]
    refine (align_raises sound _ (by omega)).mono (fun _ b₁ pad => ?_) fun _ _ limit _ => limit
    obtain ⟨pad, -, whole⟩ := pad
    have below {bytes : Bytes} (whole : 2 ^ max k 2 ∣ bytes.size) (j : Nat)
        (asked : 2 ^ j ≤ 2 ^ max k 2) : 2 ^ j ∣ bytes.size :=
      Nat.dvd_trans (Nat.pow_dvd_pow 2 ((Nat.pow_le_pow_iff_right (by decide)).1 asked)) whole
    have writable {b' : Builder} (same : b'.stage = b.stage) : b'.stage ≠ .finished := by
      rw [same, idle]
      exact Stage.noConfusion
    cases identifier with
    | none =>
      refine (header_aligned pad.region root sizePrefixed four whole ?_).mono
        (fun _ _ whole => below whole) fun _ _ limit _ => limit (writable pad.stage)
      simp [Nat.add_assoc]
    | some id =>
      dsimp only
      rw [ends_bind]
      refine (write_level pad.region id.toList).mono (fun _ b₂ named => ?_) fun _ _ limit _ => limit
      have used := named.1.used pad.region
      refine (header_aligned named.1.region root sizePrefixed four whole ?_).mono
        (fun _ _ whole => below whole) fun _ _ limit _ =>
          limit (writable (named.1.stage.trans pad.stage))
      have length : id.toList.length = identifierSize := Vector.length_toList
      rw [used, length]
      simp only [Option.isSome_some, if_true, identifierSize, offsetSize]
      omega

end Finishing

end FlatRecord
