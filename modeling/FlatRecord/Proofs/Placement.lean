import FlatRecord.Proofs.Region

/-! Bytes by their distance from the end of a list. What is placed stays placed when the list grows at its
front, and when bytes elsewhere are replaced. -/
namespace FlatRecord

/-- The bytes that begin at distance `d` from the end of `s` begin with `bytes`. -/
def Holds (s : List UInt8) (d : Nat) (bytes : List UInt8) : Prop :=
  ∃ front rest, s = front ++ (bytes ++ rest) ∧ d = (bytes ++ rest).length

variable {s t bytes : List UInt8} {d : Nat}

theorem Holds.le_length (h : Holds s d bytes) : d ≤ s.length := by
  obtain ⟨front, rest, rfl, rfl⟩ := h
  simp

theorem Holds.length_le (h : Holds s d bytes) : bytes.length ≤ d := by
  obtain ⟨front, rest, rfl, rfl⟩ := h
  simp

theorem Holds.of_suffix (h : Holds t d bytes) (suffix : t <:+ s) : Holds s d bytes := by
  obtain ⟨front, rest, rfl, rfl⟩ := h
  obtain ⟨more, rfl⟩ := suffix
  exact ⟨more ++ front, rest, by simp, rfl⟩

theorem holds_front (bytes s : List UInt8) : Holds (bytes ++ s) (bytes.length + s.length) bytes :=
  ⟨[], s, by simp, by simp⟩

theorem Holds.left {a b : List UInt8} (h : Holds s d (a ++ b)) : Holds s d a := by
  obtain ⟨front, rest, rfl, rfl⟩ := h
  exact ⟨front, b ++ rest, by simp, by simp⟩

theorem Holds.right {a b : List UInt8} (h : Holds s d (a ++ b)) : Holds s (d - a.length) b := by
  obtain ⟨front, rest, rfl, rfl⟩ := h
  exact ⟨front ++ a, rest, by simp, by simp⟩

theorem Holds.take (h : Holds s d bytes) (n : Nat) : Holds s d (bytes.take n) := by
  rw [← List.take_append_drop n bytes] at h
  exact h.left

/-- A part that ends at or before distance `n` lies in every list with the same last `n` bytes. -/
theorem Holds.of_drop_eq (h : Holds s d bytes) {n : Nat} (early : d ≤ n)
    (same : s.drop (s.length - n) = t.drop (t.length - n)) : Holds t d bytes := by
  have suffix : s.drop (s.length - n) <:+ t := same ▸ List.drop_suffix _ t
  refine Holds.of_suffix ?_ suffix
  obtain ⟨front, rest, rfl, rfl⟩ := h
  refine ⟨front.drop ((front ++ (bytes ++ rest)).length - n), rest, ?_, rfl⟩
  rw [List.drop_append_of_le_length]
  simp only [List.length_append] at early ⊢
  omega

theorem Holds.found (h : Holds s d bytes) :
    (s.drop (s.length - d)).take bytes.length = bytes := by
  obtain ⟨front, rest, rfl, rfl⟩ := h
  rw [List.length_append, Nat.add_sub_cancel, List.drop_left, List.take_left]

/-- At one place there is one thing of each length. -/
theorem Holds.eq_of_length {x y : List UInt8} (first : Holds s d x) (second : Holds s d y)
    (length : x.length = y.length) : x = y := by
  have found := second.found
  rw [← length, first.found] at found
  exact found

section Replacing

variable {e : Nat} {new : List UInt8}

theorem length_replaced (room : new.length ≤ e) (inside : e ≤ s.length) :
    (Region.replaced s e new).length = s.length := by
  simp only [Region.replaced, List.length_append, List.length_take, List.length_drop]
  omega

theorem drop_replaced (room : new.length ≤ e) (inside : e ≤ s.length) {n : Nat}
    (below : n ≤ e - new.length) :
    (Region.replaced s e new).drop (s.length - n) = s.drop (s.length - n) := by
  have front : (s.take (s.length - e) ++ new).length = s.length - e + new.length := by
    simp only [List.length_append, List.length_take]; omega
  rw [Region.replaced, List.drop_append, front, List.drop_drop,
    List.drop_eq_nil_of_le (by omega), List.nil_append]
  congr 1
  omega

/-- A replacement leaves what ends before it. -/
theorem Holds.replaced_behind (h : Holds s d bytes) (inside : e ≤ s.length)
    (room : new.length ≤ e) (behind : d ≤ e - new.length) :
    Holds (Region.replaced s e new) d bytes := by
  apply h.of_drop_eq (Nat.le_refl d)
  rw [length_replaced room inside, drop_replaced room inside behind]

/-- A replacement leaves what lies in front of it. -/
theorem Holds.replaced_ahead (h : Holds s d bytes) (room : new.length ≤ e)
    (ahead : e ≤ d - bytes.length) : Holds (Region.replaced s e new) d bytes := by
  obtain ⟨front, rest, rfl, rfl⟩ := h
  simp only [List.length_append] at ahead
  refine ⟨front, rest.take (rest.length - e) ++ new ++
    (front ++ (bytes ++ rest)).drop ((front ++ (bytes ++ rest)).length - e + new.length), ?_, ?_⟩
  · rw [Region.replaced, ← List.append_assoc front, List.take_append,
      List.take_of_length_le (by simp only [List.length_append]; omega)]
    simp only [List.length_append, List.append_assoc]
    congr 4
    omega
  · simp only [List.length_append, List.length_take, List.length_drop]
    omega

theorem suffix_replaced (room : new.length ≤ e) (inside : e ≤ s.length) {n : Nat}
    (below : n ≤ e - new.length) : s.drop (s.length - n) <:+ Region.replaced s e new := by
  rw [← drop_replaced room inside below]
  exact List.drop_suffix _ _

theorem holds_replaced (room : new.length ≤ e) (inside : e ≤ s.length) :
    Holds (Region.replaced s e new) e new :=
  ⟨s.take (s.length - e), s.drop (s.length - e + new.length),
    by simp [Region.replaced], by simp; omega⟩

end Replacing

end FlatRecord
