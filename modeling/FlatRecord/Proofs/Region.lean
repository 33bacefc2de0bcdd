import FlatRecord.Region

/-! What a region holds, as a list. Room that is granted suffices, bytes that are pushed come in front of
the written ones, and a replacement changes nothing but its own place. -/
namespace FlatRecord.Region

/-- The written bytes, from the front. -/
def written (r : Region) : List UInt8 := (r.cells.toList.take r.used).reverse

/-- The written bytes are there, and the limits are kept. -/
structure Sound (r : Region) : Prop where
  stored : r.used ≤ r.cells.size
  fits : r.used ≤ r.capacity
  limited : r.capacity ≤ r.maxSize

theorem size_put (cells : Bytes) (d : Nat) (b : UInt8) (bound : d ≤ cells.size) :
    (put cells d b).size = max cells.size (d + 1) := by
  simp only [put]
  split
  · rw [Array.size_setIfInBounds]; omega
  · simp only [Array.size_push, Array.size_append, Array.size_replicate]; omega

theorem getElem?_put (cells : Bytes) (d : Nat) (b : UInt8) (bound : d ≤ cells.size) (i : Nat) :
    (put cells d b)[i]? = if i = d then some b else cells[i]? := by
  simp only [put]
  split
  next inside =>
    rw [Array.getElem?_setIfInBounds]
    by_cases same : d = i
    · subst same; simp [inside]
    · simp [same, Ne.symm same]
  next outside =>
    have size : d = cells.size := by omega
    subst size
    simp [Array.getElem?_push]

theorem size_putAll (cells : Bytes) (d : Nat) (bytes : List UInt8) (bound : d ≤ cells.size) :
    (putAll cells d bytes).size = max cells.size (d + bytes.length) := by
  induction bytes generalizing cells d with
  | nil => simp [putAll]; omega
  | cons b rest ih =>
    have size := size_put cells d b bound
    rw [putAll, ih _ _ (by omega), size]
    simp only [List.length_cons]; omega

theorem getElem?_putAll (cells : Bytes) (d : Nat) (bytes : List UInt8) (bound : d ≤ cells.size)
    (i : Nat) :
    (putAll cells d bytes)[i]? =
      if d ≤ i ∧ i < d + bytes.length then bytes[i - d]? else cells[i]? := by
  induction bytes generalizing cells d with
  | nil =>
    rw [if_neg (by rw [List.length_nil]; omega)]
    rfl
  | cons b rest ih =>
    have size := size_put cells d b bound
    rw [putAll, ih _ _ (by omega), getElem?_put _ _ _ bound]
    rcases Nat.lt_trichotomy i d with before | here | after
    · rw [if_neg (by omega), if_neg (by omega), if_neg (by simp; omega)]
    · subst here
      rw [if_neg (by omega), if_pos rfl, if_pos (by simp), Nat.sub_self]
      rfl
    · have step : i - d = i - (d + 1) + 1 := by omega
      simp only [step, List.length_cons, List.getElem?_cons_succ, if_neg (Nat.ne_of_gt after)]
      by_cases within : i < d + 1 + rest.length
      · rw [if_pos ⟨by omega, within⟩, if_pos ⟨by omega, by omega⟩]
      · rw [if_neg (by omega), if_neg (by omega)]

/-- The cells up to the end of what was put. -/
theorem take_putAll (cells : Bytes) (d : Nat) (bytes : List UInt8) (bound : d ≤ cells.size) :
    (putAll cells d bytes).toList.take (d + bytes.length) = cells.toList.take d ++ bytes := by
  apply List.ext_getElem?
  intro i
  have kept : (cells.toList.take d).length = d := by simp [bound]
  rw [List.getElem?_take, Array.getElem?_toList, getElem?_putAll _ _ _ bound]
  by_cases before : i < d
  · have early : ¬(d ≤ i ∧ i < d + bytes.length) := by omega
    rw [List.getElem?_append_left (by omega), List.getElem?_take, if_neg early, if_pos before,
      if_pos (by omega), Array.getElem?_toList]
  · rw [List.getElem?_append_right (by omega), kept]
    by_cases within : i < d + bytes.length
    · rw [if_pos within, if_pos ⟨by omega, within⟩]
    · rw [if_neg within, List.getElem?_eq_none (by omega)]

/-- The cells past what was put are as they were. -/
theorem drop_putAll (cells : Bytes) (d : Nat) (bytes : List UInt8) (bound : d ≤ cells.size) :
    (putAll cells d bytes).toList.drop (d + bytes.length) =
      cells.toList.drop (d + bytes.length) := by
  apply List.ext_getElem?
  intro i
  rw [List.getElem?_drop, List.getElem?_drop, Array.getElem?_toList, Array.getElem?_toList,
    getElem?_putAll _ _ _ bound, if_neg (by omega)]

@[simp] theorem length_written (r : Region) (sound : r.Sound) : r.written.length = r.used := by
  have := sound.stored
  simp [written, this]

theorem toList_data (r : Region) : r.data.toList = r.written := by simp [data, written]

theorem le_doubled (required capacity : Nat) (positive : 0 < capacity) :
    required ≤ doubled required capacity := by
  fun_induction doubled required capacity with
  | case1 capacity grows ih => exact ih (by omega)
  | case2 capacity stays => omega

/-- Room that is granted suffices and keeps the limits. -/
theorem room_ok (r : Region) (count capacity : Nat) (sound : r.Sound)
    (granted : r.room count = .ok capacity) :
    r.used + count ≤ capacity ∧ r.capacity ≤ capacity ∧ capacity ≤ r.maxSize := by
  have fits := sound.fits
  have limited := sound.limited
  simp only [room] at granted
  split at granted
  next => cases granted; omega
  next =>
    split at granted
    · cases granted
    split at granted
    · cases granted
    · have large := le_doubled (r.used + count) (max r.capacity 64) (by omega)
      cases granted
      omega

/-- Room is refused only past the limit. The error says how much was asked for, in a word. -/
theorem room_refused {r : Region} {count : Nat} {e : Error} (limited : r.maxSize < wordLimit)
    (refused : r.room count = .error e) :
    r.maxSize < r.used + count ∧ e = .sizeLimit (min (r.used + count) largestWord) r.maxSize := by
  simp only [room] at refused
  split at refused
  · cases refused
  split at refused
  next huge =>
    cases refused
    simp only [wordLimit, largestWord] at *
    exact ⟨by omega, by rw [Nat.min_eq_right (by omega)]⟩
  split at refused
  next word full =>
    cases refused
    simp only [wordLimit, largestWord] at *
    exact ⟨full, by rw [Nat.min_eq_left (by omega)]⟩
  · cases refused

theorem written_grow (r : Region) (capacity : Nat) (sound : r.Sound) :
    (r.grow capacity).written = r.written ∧ (r.grow capacity).used = r.used ∧
      r.used ≤ (r.grow capacity).cells.size := by
  have := sound.stored
  simp only [grow]
  split
  · exact ⟨rfl, rfl, this⟩
  · refine ⟨?_, rfl, ?_⟩
    · simp [written, List.take_take]
    · simp; omega

/-- Bytes that are pushed come in front of the written ones. -/
theorem written_extend (r : Region) (capacity : Nat) (bytes : List UInt8) (sound : r.Sound) :
    (r.extend capacity bytes).written = bytes ++ r.written := by
  obtain ⟨same, used, stored⟩ := written_grow r capacity sound
  have taken := take_putAll (r.grow capacity).cells (r.grow capacity).used bytes.reverse
    (by omega)
  simp only [List.length_reverse] at taken
  rw [← same]
  simp only [extend, written, taken, List.reverse_append, List.reverse_reverse]

theorem extend_sound (r : Region) (capacity : Nat) (bytes : List UInt8) (sound : r.Sound)
    (granted : r.room bytes.length = .ok capacity) : (r.extend capacity bytes).Sound := by
  obtain ⟨fits, _, limited⟩ := room_ok r _ _ sound granted
  obtain ⟨_, used, stored⟩ := written_grow r capacity sound
  have size := size_putAll (r.grow capacity).cells (r.grow capacity).used bytes.reverse (by omega)
  have limit : (r.grow capacity).maxSize = r.maxSize := by unfold grow; split <;> rfl
  have grown : (r.grow capacity).capacity = capacity := by
    unfold grow; split
    · next same => exact same.symm
    · rfl
  simp only [List.length_reverse] at size
  constructor
  · simp only [extend, size]; omega
  · simp only [extend, used, grown]; exact fits
  · simp only [extend, limit, grown]; exact limited

@[simp] theorem used_extend (r : Region) (capacity : Nat) (bytes : List UInt8) :
    (r.extend capacity bytes).used = r.used + bytes.length := by
  simp only [extend, grow]; split <;> rfl

@[simp] theorem maxSize_extend (r : Region) (capacity : Nat) (bytes : List UInt8) :
    (r.extend capacity bytes).maxSize = r.maxSize := by
  simp only [extend, grow]; split <;> rfl

/-- The list with `bytes` in the place of those that begin at distance `d` from the end. -/
def replaced (s : List UInt8) (d : Nat) (bytes : List UInt8) : List UInt8 :=
  s.take (s.length - d) ++ bytes ++ s.drop (s.length - d + bytes.length)

/-- A replacement inside the written bytes changes nothing else. -/
theorem written_overwrite (r : Region) (d : Nat) (bytes : List UInt8) (sound : r.Sound)
    (inside : d ≤ r.used) (room : bytes.length ≤ d) :
    (r.overwrite d bytes).written = replaced r.written d bytes := by
  have stored := sound.stored
  have length := length_written r sound
  have front := take_putAll r.cells (d - bytes.length) bytes.reverse (by omega)
  have back := drop_putAll r.cells (d - bytes.length) bytes.reverse (by omega)
  have stop : d - bytes.length + bytes.reverse.length = d := by simp; omega
  rw [stop] at front back
  have split : (putAll r.cells (d - bytes.length) bytes.reverse).toList.take r.used =
      r.cells.toList.take (d - bytes.length) ++ bytes.reverse ++
        (r.cells.toList.take r.used).drop d := by
    rw [← front, List.drop_take, ← back, ← List.drop_take]
    conv => lhs; rw [← List.take_append_drop d (List.take r.used _)]
    rw [List.take_take, Nat.min_eq_left inside]
  have rear : (r.cells.toList.take r.used).take (d - bytes.length) =
      r.cells.toList.take (d - bytes.length) := by
    rw [List.take_take, Nat.min_eq_left (by omega)]
  have cells : (r.cells.toList.take r.used).length = r.used := by simp [stored]
  simp only [overwrite, written, split, replaced, List.reverse_append, List.reverse_reverse,
    List.length_reverse, cells, List.take_reverse, List.drop_reverse]
  rw [← rear, show r.used - (r.used - d) = d by omega,
    show r.used - (r.used - d + bytes.length) = d - bytes.length by omega, List.append_assoc]

theorem overwrite_sound (r : Region) (d : Nat) (bytes : List UInt8) (sound : r.Sound)
    (inside : d ≤ r.used) : (r.overwrite d bytes).Sound := by
  have stored := sound.stored
  have size := size_putAll r.cells (d - bytes.length) bytes.reverse (by omega)
  constructor
  · simp only [overwrite, size]; omega
  · exact sound.fits
  · exact sound.limited

/-- The bytes from distance `d` towards the end. -/
theorem bytesAt_eq (r : Region) (d length : Nat) (sound : r.Sound) (inside : d ≤ r.used)
    (room : length ≤ d) : r.bytesAt d length = (r.written.drop (r.used - d)).take length := by
  have stored := sound.stored
  have whole := length_written r sound
  apply List.ext_getElem?
  intro i
  rw [List.getElem?_take, List.getElem?_drop]
  by_cases within : i < length
  · have index : r.used - 1 - (r.used - d + i) = d - 1 - i := by omega
    have cell : (r.cells.toList.take r.used).length = r.used := by simp [stored]
    rw [if_pos within, written, List.getElem?_reverse (by omega), cell, index,
      List.getElem?_take, if_pos (by omega), Array.getElem?_toList]
    simp [bytesAt, byteAt, within, show d - 1 - i < r.cells.size by omega]
  · rw [if_neg within, List.getElem?_eq_none (by simp [bytesAt]; omega)]

theorem within_ok (r : Region) (d length : Nat) (sound : r.Sound) (inside : d ≤ r.used)
    (room : length ≤ d) : r.within d length = .ok () := by
  have := sound.fits
  rw [within, if_pos ⟨by omega, room⟩]

theorem new_sound (initialCapacity maxSize : Nat) : (new initialCapacity maxSize).Sound :=
  ⟨Nat.zero_le _, Nat.zero_le _, Nat.min_le_right _ _⟩

@[simp] theorem written_new (initialCapacity maxSize : Nat) :
    (new initialCapacity maxSize).written = [] := rfl

theorem clear_sound (r : Region) (sound : r.Sound) : r.clear.Sound :=
  ⟨Nat.zero_le _, Nat.zero_le _, sound.limited⟩

@[simp] theorem written_clear (r : Region) : r.clear.written = [] := by simp [written, clear]

end FlatRecord.Region
