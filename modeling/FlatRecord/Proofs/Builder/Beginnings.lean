import FlatRecord.Proofs.Builder.Writes

/-! Where objects begin. In a builder in which nothing is written yet, a vector has nothing behind it but the zeros
that pad it. An open record keeps the place where it began. -/
namespace FlatRecord

open Builder Build

variable {b b' : Builder}

theorem Builder.written_empty (sound : b.Sound) (empty : b.used = 0) : b.written = [] :=
  List.length_eq_zero_iff.1 (sound.region.length_written.trans empty)

section Vectors

variable {α : Type} {items : List α} {step : α → Build PUnit} {length size alignment : Nat}

/-- The elements are a multiple of their alignment long, so padding is needed for nothing but their count. -/
theorem vector_padding_lt (power : ∃ k < 64, alignment = 2 ^ k) (whole : alignment ∣ size)
    (length : Nat) : padding (length * size) (max alignment offsetSize) < offsetSize := by
  obtain ⟨k, small, rfl⟩ := power
  have largest : max (2 ^ k) offsetSize = 2 ^ max k 2 := max_two_pow k 2
  rw [largest]
  rcases Nat.le_total k 2 with narrow | wide
  · rw [Nat.max_eq_right narrow]
    exact padding_lt _ 2 (by decide)
  · have none : length * size % 2 ^ k = 0 := Nat.mod_eq_zero_of_dvd (Nat.dvd_mul_left_of_dvd whole length)
    rw [Nat.max_eq_left wide, padding_two_pow _ k (by omega), none, Nat.sub_zero, Nat.mod_self]
    decide

/-- The place of the first elements has less than four zeros behind it. -/
theorem startVector_behind (sound : b.Sound) (empty : b.used = 0) (power : ∃ k < 64, alignment = 2 ^ k)
    (whole : alignment ∣ size) :
    Ends (startVector length size alignment) b
      (fun _ b' => ∃ rest < offsetSize, b'.used = length * size + rest ∧ b'.used % 4 = 0 ∧
        zeros rest <:+ b'.settled)
      fun _ _ => True := by
  refine (startVector_ends sound.region length size alignment).mono (fun _ b' done => ?_)
    fun _ _ _ => trivial
  obtain ⟨-, -, -, b₁, gap, adds, rfl, four, rfl⟩ := done
  have small := vector_padding_lt power whole length
  have used := adds.used sound.region
  have total := adds.region.length_written
  rw [empty, Nat.zero_add] at adds used
  simp only [List.length_append, length_zeros] at used
  -- Nothing but the zeros lies behind the elements, and only that is settled while the vector is open.
  have written := adds.written
  rw [Builder.written_empty sound empty, List.append_nil] at written
  have floor : (b₁.withStage (.vector length 0 size b₁.used)).floor = b₁.used - length * size := rfl
  have settled : (b₁.withStage (.vector length 0 size b₁.used)).settled =
      zeros (padding (length * size) (max alignment offsetSize)) := by
    rw [Builder.settled, floor, written_withStage, total, used, written, Nat.add_zero,
      Nat.add_sub_cancel_left, Nat.add_sub_cancel, List.drop_left' (length_zeros _)]
  exact ⟨_, small, used, four, [], settled.symm⟩

/-- The count stands right in front of the elements. -/
theorem endVector_counts (sound : b.Sound) (four : b.used % 4 = 0) :
    Ends endVector b (fun ref _ => ref.distance = offsetSize + b.used) fun _ _ => True := by
  refine (endVector_ends sound.region).mono (fun ref b' done => ?_) fun _ _ _ => trivial
  obtain ⟨_, _, _, _, -, here, adds, rfl⟩ := done
  have used := adds.used (sound.region.withStage .idle)
  have none : padding (b.used + offsetSize) offsetSize = 0 := by
    rw [show offsetSize = 4 from rfl, padding_four]
    omega
  rw [none, List.length_append, Scalar.length_toBytes, used_withStage] at used
  exact here.trans used

/-- Elements are filled in, and nothing is written in front of their place. -/
theorem elements_keep {b₁ : Builder} (sound : b₁.Sound)
    (each : ∀ item ∈ items, ∀ b, b.Sound →
      Ends (step item) b (fun _ b' => Advances b b' ∧ b'.used = b.used) fun _ _ => True) :
    Ends (items.forM step) b₁ (fun _ b' => Advances b₁ b' ∧ b'.used = b₁.used) fun _ _ => True := by
  apply ends_forM (I := fun _ b' => Advances b₁ b' ∧ b'.used = b₁.used) ⟨.refl sound, rfl⟩
  intro done item more split b before
  refine (each item (by simp [split]) b before.1.sound).mono (fun _ _ after => ?_) fun _ _ bad => bad
  exact ⟨before.1.trans after.1, after.2.trans before.2⟩

/-- A vector that is written first has less than four zeros behind it. -/
theorem vector_behind (sound : b.Sound) (empty : b.used = 0) (power : ∃ k < 64, alignment = 2 ^ k)
    (whole : alignment ∣ size)
    (each : ∀ item ∈ items, ∀ b, b.Sound →
      Ends (step item) b (fun _ b' => Advances b b' ∧ b'.used = b.used) fun _ _ => True) :
    Ends (do startVector items.length size alignment; items.forM step; endVector) b
      (fun ref b' => ∃ rest < offsetSize,
        ref.distance = offsetSize + (items.length * size + rest) ∧ zeros rest <:+ b'.settled)
      fun _ _ => True := by
  rw [ends_bind]
  refine ((startVector_behind sound empty power whole).and (safe_startVector _ _ _ b sound)).mono
    (fun _ b₁ begun => ?_) fun _ _ _ => trivial
  obtain ⟨⟨rest, small, used, four, padding⟩, opened⟩ := begun
  rw [ends_bind]
  refine (elements_keep opened.sound each).mono (fun _ b₂ filled => ?_) fun _ _ _ => trivial
  obtain ⟨kept, same⟩ := filled
  refine ((endVector_counts kept.sound (same ▸ four)).and (safe_endVector b₂ kept.sound)).mono
    (fun ref b' ended => ?_) fun _ _ _ => trivial
  obtain ⟨here, closed⟩ := ended
  exact ⟨rest, small, by rw [here, same, used], padding.trans (kept.kept.trans closed.kept)⟩

theorem own_keeps (sound : b.Sound) (bytes : List UInt8) :
    Ends (pushBytesElement bytes) b (fun _ b' => Advances b b' ∧ b'.used = b.used) fun _ _ => True :=
  ((safe_pushBytesElement bytes b sound).and (pushBytesElement_orderly sound.region sound.fits bytes)).mono
    (fun _ _ both => ⟨both.1, both.2.2⟩) fun _ _ _ => trivial

theorem ref_keeps (sound : b.Sound) {kind : ObjectKind} (ref : Ref kind) :
    Ends (pushRef ref) b (fun _ b' => Advances b b' ∧ b'.used = b.used) fun _ _ => True :=
  ((safe_pushRef ref b sound).and (pushRef_orderly sound.region sound.fits ref)).mono
    (fun _ _ both => ⟨both.1, both.2.2⟩) fun _ _ _ => trivial

end Vectors

/-- The open record began at that distance. -/
def Builder.Begun (b : Builder) (start : Nat) : Prop := ∃ places, b.stage = .record start places

theorem Builder.Added.begun {slot start : Nat} {bytes : List UInt8} (added : Added b slot bytes b')
    (begun : b.Begun start) : b'.Begun start := by
  obtain ⟨start', places, b₁, gap, stage, -, -, -, rfl⟩ := added
  obtain ⟨places', stage'⟩ := begun
  obtain ⟨rfl, -⟩ := Stage.record.inj (stage.symm.trans stage')
  exact ⟨_, rfl⟩

end FlatRecord
