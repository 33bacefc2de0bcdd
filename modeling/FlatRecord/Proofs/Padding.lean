import FlatRecord.Layout

/-! Padding to powers of two, computed with words. -/
namespace FlatRecord

theorem max_two_pow (j k : Nat) : max (2 ^ j) (2 ^ k) = 2 ^ max j k := by
  rcases Nat.le_total j k with less | more
  · rw [Nat.max_eq_right (Nat.pow_le_pow_right (by decide) less), Nat.max_eq_right less]
  · rw [Nat.max_eq_left (Nat.pow_le_pow_right (by decide) more), Nat.max_eq_left more]

theorem padding_two_pow (n k : Nat) (small : k ≤ 64) :
    padding n (2 ^ k) = (2 ^ k - n % 2 ^ k) % 2 ^ k := by
  obtain ⟨c, whole⟩ : 2 ^ k ∣ 2 ^ 64 := Nat.pow_dvd_pow 2 small
  have positive : 0 < 2 ^ k := Nat.two_pow_pos k
  have bound : 2 ^ k ≤ 2 ^ 64 := Nat.pow_le_pow_right (by decide) small
  have mask : word (2 ^ k + largestWord) = 2 ^ k - 1 := by
    have split : 2 ^ k + largestWord = (2 ^ k - 1) + 2 ^ 64 := by
      simp only [largestWord]; omega
    rw [word, wordLimit, split, Nat.add_mod_right, Nat.mod_eq_of_lt (by omega)]
  have residue : n % 2 ^ 64 % 2 ^ k = n % 2 ^ k := Nat.mod_mod_of_dvd n ⟨c, whole⟩
  have below : n % 2 ^ 64 < 2 ^ 64 := Nat.mod_lt _ (Nat.two_pow_pos 64)
  rw [padding, mask, Nat.and_two_pow_sub_one_eq_mod, word, word, wordLimit,
    Nat.mod_mod_of_dvd _ ⟨c, whole⟩, ← residue]
  generalize n % 2 ^ 64 = m at below
  generalize 2 ^ 64 = w at *
  generalize 2 ^ k = a at *
  subst whole
  have quotient : m / a < c := Nat.div_lt_of_lt_mul below
  have parts : a * (m / a) + m % a = m := Nat.div_add_mod m a
  have last : m % a < a := Nat.mod_lt m positive
  have rest : a * c - m = a * (c - m / a - 1) + (a - m % a) := by
    have count : c - m / a - 1 + m / a + 1 = c := by omega
    have expand : a * c = a * (c - m / a - 1) + a * (m / a) + a := by
      rw [← Nat.mul_add, ← Nat.mul_succ, Nat.succ_eq_add_one, count]
    omega
  rw [rest, Nat.mul_add_mod]

/-- Alignments past the largest word ask for what the largest power of two in words asks for. -/
theorem padding_large (n k : Nat) (large : 64 ≤ k) : padding n (2 ^ k) = padding n (2 ^ 64) := by
  obtain ⟨c, whole⟩ : 2 ^ 64 ∣ 2 ^ k := Nat.pow_dvd_pow 2 large
  have mask : word (2 ^ k + largestWord) = word (2 ^ 64 + largestWord) := by
    simp only [word, wordLimit, whole, Nat.mul_add_mod, Nat.add_mod_left]
  rw [padding, mask, padding]

theorem add_padding_mod (n k : Nat) : (n + padding n (2 ^ k)) % 2 ^ min k 64 = 0 := by
  have aligned (j : Nat) (small : j ≤ 64) : (n + padding n (2 ^ j)) % 2 ^ j = 0 := by
    have positive : 0 < 2 ^ j := Nat.two_pow_pos j
    have last : n % 2 ^ j < 2 ^ j := Nat.mod_lt n positive
    rw [padding_two_pow n j small, Nat.add_mod, Nat.mod_mod]
    by_cases zero : n % 2 ^ j = 0
    · simp [zero]
    · rw [Nat.mod_eq_of_lt (show 2 ^ j - n % 2 ^ j < 2 ^ j by omega),
        show n % 2 ^ j + (2 ^ j - n % 2 ^ j) = 2 ^ j by omega, Nat.mod_self]
  rcases Nat.le_total k 64 with small | large
  · rw [Nat.min_eq_left small]
    exact aligned k small
  · rw [Nat.min_eq_right large, padding_large n k large]
    exact aligned 64 (Nat.le_refl 64)

theorem padding_four (n : Nat) : padding n 4 = (4 - n % 4) % 4 :=
  padding_two_pow n 2 (by decide)

/-- An alignment that is a multiple of four leaves a multiple of four, even if it is no power of two. -/
theorem add_padding_dvd {alignment : Nat} (n : Nat) (whole : 4 ∣ alignment) :
    (n + padding n alignment) % 4 = 0 := by
  have mask : word (alignment + largestWord) % 2 ^ 2 = 2 ^ 2 - 1 := by
    obtain ⟨c, rfl⟩ := whole
    simp only [word, wordLimit, largestWord]
    omega
  have low : padding n alignment % 4 = word (wordLimit - word n) % 4 := by
    rw [padding, show 4 = 2 ^ 2 from rfl, Nat.and_mod_two_pow, mask,
      Nat.and_two_pow_sub_one_eq_mod, Nat.mod_mod]
  rw [Nat.add_mod, low]
  simp only [word, wordLimit]
  omega

theorem add_padding_four (n k : Nat) (large : 2 ≤ k) : (n + padding n (2 ^ k)) % 4 = 0 :=
  add_padding_dvd n (Nat.pow_dvd_pow 2 large)

theorem padding_lt (n k : Nat) (small : k ≤ 64) : padding n (2 ^ k) < 2 ^ k := by
  rw [padding_two_pow n k small]
  exact Nat.mod_lt _ (Nat.two_pow_pos k)

/-- What is longer is no shorter once both are padded, the longer one at least as much aligned. -/
theorem add_padding_le {x y j k : Nat} (less : x ≤ y) (finer : j ≤ k) :
    x + padding x (2 ^ j) ≤ y + padding y (2 ^ k) := by
  -- Both ends are multiples of the smaller alignment, and the first is less than one alignment past `x`.
  have near : padding x (2 ^ j) < 2 ^ min j 64 := by
    rcases Nat.le_total j 64 with small | large
    · rw [Nat.min_eq_left small]
      exact padding_lt x j small
    · rw [Nat.min_eq_right large, padding_large x j large]
      exact padding_lt x 64 (Nat.le_refl 64)
  have coarser : 2 ^ min j 64 ∣ 2 ^ min k 64 := Nat.pow_dvd_pow 2 (by omega)
  obtain ⟨p, first⟩ := Nat.dvd_of_mod_eq_zero (add_padding_mod x j)
  obtain ⟨q, second⟩ := Nat.dvd_trans coarser (Nat.dvd_of_mod_eq_zero (add_padding_mod y k))
  have below : 2 ^ min j 64 * p < 2 ^ min j 64 * (q + 1) := by
    rw [Nat.mul_succ, ← first, ← second]
    omega
  have ordered : p ≤ q := Nat.le_of_lt_succ (Nat.lt_of_mul_lt_mul_left below)
  rw [first, second]
  exact Nat.mul_le_mul_left _ ordered

/-- No multiple of the alignment is nearer. -/
theorem add_padding_least {x y k : Nat} (small : k ≤ 64) (less : x ≤ y) (whole : 2 ^ k ∣ y) :
    x + padding x (2 ^ k) ≤ y := by
  have stays : padding y (2 ^ k) = 0 := by
    rw [padding_two_pow y k small, Nat.mod_eq_zero_of_dvd whole, Nat.sub_zero, Nat.mod_self]
  have ahead := add_padding_le less (Nat.le_refl k)
  rwa [stays, Nat.add_zero] at ahead

end FlatRecord
