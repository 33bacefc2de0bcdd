import FlatRecord.Proofs.Padding
import FlatRecord.Schema.Struct

/-! Sizes of scalars and alignments of structs are small powers of two, and structs are not too large. Every member
stands at a multiple of its size, and so it does in every struct of a vector. All this is the natural layout's: of any
other nothing is known but its members. -/
namespace FlatRecord

namespace ScalarType

theorem size_power (t : ScalarType) : ∃ k ≤ 3, t.size = 2 ^ k := by
  cases t
  case bool | int8 | uint8 => exact ⟨0, by decide, rfl⟩
  case int16 | uint16 => exact ⟨1, by decide, rfl⟩
  case int32 | uint32 | float32 => exact ⟨2, by decide, rfl⟩
  case int64 | uint64 | float64 => exact ⟨3, by decide, rfl⟩

theorem size_le_eight (t : ScalarType) : t.size ≤ 8 := by
  obtain ⟨k, small, power⟩ := t.size_power
  exact power ▸ Nat.pow_le_pow_right (by decide) small

end ScalarType

namespace Member

theorem padding_lt_eight {n alignment : Nat} (power : ∃ k ≤ 3, alignment = 2 ^ k) :
    padding n alignment < 8 := by
  obtain ⟨k, small, rfl⟩ := power
  exact Nat.lt_of_lt_of_le (padding_lt n k (by omega)) (Nat.pow_le_pow_right (by decide) small)

theorem place_le (members : List (String × ScalarType)) (offset : Nat) :
    (place offset members).2 ≤ offset + 16 * members.length := by
  induction members generalizing offset with
  | nil => exact Nat.le_refl _
  | cons member rest ih =>
    have gap := padding_lt_eight (n := offset) member.2.size_power
    have size := member.2.size_le_eight
    have later := ih (offset + padding offset member.2.size + member.2.size)
    simp only [place, List.length_cons]
    omega

/-- Every member stands at a multiple of its size. -/
theorem place_aligned {m : Member} {offset : Nat} {members : List (String × ScalarType)}
    (mem : m ∈ (place offset members).1) : m.type.size ∣ m.offset := by
  induction members generalizing offset with
  | nil => cases mem
  | cons member rest ih =>
    rcases List.mem_cons.1 mem with rfl | later
    · obtain ⟨k, small, power⟩ := member.2.size_power
      have whole := add_padding_mod offset k
      rw [Nat.min_eq_left (by omega), ← power] at whole
      exact Nat.dvd_of_mod_eq_zero whole
    · exact ih later

theorem largest_power (members : List (String × ScalarType)) : ∃ k ≤ 3, largest members = 2 ^ k := by
  simp only [largest]
  suffices general : ∀ a, (∃ k ≤ 3, a = 2 ^ k) →
      ∃ k ≤ 3, members.foldl (fun a m => max a m.2.size) a = 2 ^ k from general 1 ⟨0, by decide, rfl⟩
  induction members with
  | nil => exact fun _ power => power
  | cons member rest ih =>
    intro a power
    apply ih _
    dsimp only
    rcases Nat.le_total a member.2.size with small | large
    · rw [Nat.max_eq_right small]
      exact member.2.size_power
    · rw [Nat.max_eq_left large]
      exact power

/-- The fold that finds the largest size passes none by. -/
theorem le_largest (members : List (String × ScalarType)) (a : Nat) :
    a ≤ members.foldl (fun a m => max a m.2.size) a ∧
      ∀ m ∈ members, m.2.size ≤ members.foldl (fun a m => max a m.2.size) a := by
  induction members generalizing a with
  | nil => exact ⟨Nat.le_refl _, List.forall_mem_nil _⟩
  | cons first rest ih =>
    obtain ⟨start, later⟩ := ih (max a first.2.size)
    exact ⟨Nat.le_trans (Nat.le_max_left _ _) start,
      List.forall_mem_cons.2 ⟨Nat.le_trans (Nat.le_max_right _ _) start, later⟩⟩

end Member

namespace StructType

variable {s : StructType} {m : Member}

theorem member_mem (mem : m ∈ s.layout) : (m.name, m.type) ∈ s.members :=
  s.layout_members ▸ List.mem_map_of_mem mem

namespace LaidOut

theorem alignment_power (laid : s.LaidOut) : ∃ k ≤ 3, s.alignment = 2 ^ k :=
  laid.alignment ▸ Member.largest_power s.members

theorem alignment_pos (laid : s.LaidOut) : 0 < s.alignment := by
  obtain ⟨k, -, power⟩ := laid.alignment_power
  exact power ▸ Nat.two_pow_pos k

/-- Structs are small enough for every sum that their sizes take part in. -/
theorem size_lt (laid : s.LaidOut) : s.size < 2 ^ 62 := by
  have stop := Member.place_le s.members 0
  have few := s.members_lt
  have gap := Member.padding_lt_eight (n := (Member.place 0 s.members).2) (Member.largest_power s.members)
  rw [laid.size, Member.extent]
  omega

/-- Every member stands at a multiple of its size. -/
theorem member_aligned (laid : s.LaidOut) (mem : m ∈ s.layout) : m.type.size ∣ m.offset :=
  Member.place_aligned (laid.layout ▸ mem)

theorem size_le_alignment (laid : s.LaidOut) (mem : m ∈ s.layout) : m.type.size ≤ s.alignment :=
  laid.alignment ▸ (Member.le_largest s.members 1).2 _ (member_mem mem)

/-- The largest member decides, and sizes are powers of two. -/
theorem size_dvd_alignment (laid : s.LaidOut) (mem : m ∈ s.layout) : m.type.size ∣ s.alignment := by
  have least := laid.size_le_alignment mem
  obtain ⟨j, -, size⟩ := m.type.size_power
  obtain ⟨k, -, alignment⟩ := laid.alignment_power
  rw [size, alignment] at least ⊢
  exact Nat.pow_dvd_pow 2 ((Nat.pow_le_pow_iff_right Nat.one_lt_two).1 least)

/-- Where a struct is aligned its members are. -/
theorem member_dvd (laid : s.LaidOut) {pos : Nat} (mem : m ∈ s.layout) (whole : s.alignment ∣ pos) :
    m.type.size ∣ pos + m.offset :=
  Nat.dvd_add (Nat.dvd_trans (laid.size_dvd_alignment mem) whole) (laid.member_aligned mem)

/-- So that in a vector every element is aligned when the first one is. -/
theorem alignment_dvd_size (laid : s.LaidOut) : s.alignment ∣ s.size := by
  obtain ⟨k, small, power⟩ := laid.alignment_power
  have whole := add_padding_mod (Member.place 0 s.members).2 k
  rw [Nat.min_eq_left (by omega), ← power] at whole
  rw [laid.size, Member.extent, ← laid.alignment]
  exact Nat.dvd_of_mod_eq_zero whole

end LaidOut

end StructType

end FlatRecord
