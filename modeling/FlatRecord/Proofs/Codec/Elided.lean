import FlatRecord.Proofs.Codec.Layout

/-! Fields that are left out of a record because they equal their defaults. What is written is the same whether
they were pending or not. -/
namespace FlatRecord

open Builder Build Encoding

section Sorting

theorem byAlignment_sorted (pending : List Pending) :
    (byAlignment pending).Pairwise fun p q => q.alignment ≤ p.alignment := by
  rw [byAlignment_eq]
  exact List.pairwise_insertionSort _ pending

theorem insertByAlignment_front {p : Pending} {pending : List Pending}
    (least : ∀ q ∈ pending, q.alignment ≤ p.alignment) : insertByAlignment p pending = p :: pending := by
  cases pending with
  | nil => rfl
  | cons q rest => rw [insertByAlignment, if_pos (least q List.mem_cons_self)]

/-- Where a field goes among some fields does not depend on the others. -/
theorem filter_insertByAlignment (keep : Pending → Bool) (p : Pending) {pending : List Pending}
    (sorted : pending.Pairwise fun p q => q.alignment ≤ p.alignment) :
    (insertByAlignment p pending).filter keep =
      if keep p then insertByAlignment p (pending.filter keep) else pending.filter keep := by
  induction pending with
  | nil => by_cases kept : keep p <;> simp [insertByAlignment, kept]
  | cons q rest ih =>
    obtain ⟨before, sorted'⟩ := List.pairwise_cons.1 sorted
    rw [insertByAlignment]
    split
    next less =>
      have least : ∀ x ∈ (q :: rest).filter keep, x.alignment ≤ p.alignment := by
        intro x mem
        rcases List.mem_cons.1 (List.mem_of_mem_filter mem) with rfl | later
        · exact less
        · exact Nat.le_trans (before x later) less
      rw [insertByAlignment_front least, List.filter_cons]
    next more =>
      rw [List.filter_cons, ih sorted']
      by_cases kept : keep q
      · rw [if_pos kept, List.filter_cons_of_pos kept, insertByAlignment, if_neg more]
        split <;> rfl
      · rw [if_neg kept, List.filter_cons_of_neg kept]

theorem filter_byAlignment (keep : Pending → Bool) (pending : List Pending) :
    (byAlignment pending).filter keep = byAlignment (pending.filter keep) := by
  induction pending with
  | nil => rfl
  | cons p rest ih =>
    have step : byAlignment (p :: rest) = insertByAlignment p (byAlignment rest) := rfl
    rw [step, filter_insertByAlignment keep p (byAlignment_sorted rest), ih, List.filter_cons]
    split <;> rfl

end Sorting

/-- The field is written where defaults are not. -/
def Encoding.Pending.isWritten : Pending → Bool
  | scalar _ value default => !value.sameNumber default
  | struct .. | ref .. => true

/-- A scalar that waits has a default of its own type. -/
def Encoding.Pending.Typed : Pending → Prop
  | scalar _ value default => value.type = default.type
  | struct .. | ref .. => True

section Writing

variable {b : Builder} {start : Nat} {fields : List Field} {p : Pending} {pending : List Pending}

theorem checkSlot_run {slot : Nat} (stage : b.stage = .record start fields) (small : slot < slotLimit)
    (fresh : slot ∉ fields.map (·.slot)) : (checkSlot slot).run b = .ok start b := by
  have free : fields.any (·.slot == slot) = false := by
    rw [List.any_eq_false]
    intro f mem same
    exact fresh (List.mem_map.2 ⟨f, mem, by simpa using same⟩)
  rw [checkSlot, run_get, stage]
  dsimp only
  rw [if_neg (by omega), free]
  rfl

/-- A field that is left out leaves the record as it is. -/
theorem write_elided (lenient : b.config.forceDefaults = false) (stage : b.stage = .record start fields)
    (typed : p.Typed) (small : p.slot < slotLimit) (fresh : p.slot ∉ fields.map (·.slot))
    (elided : p.isWritten = false) : p.write.run b = .ok () b := by
  cases p with
  | scalar slot value default =>
    have typed : value.type = default.type := typed
    have same : value.sameNumber default = true := by simpa [Pending.isWritten] using elided
    have found : (checkSlot slot).run b = .ok start b := checkSlot_run stage small fresh
    rw [Pending.write, if_pos typed, addField, run_bind_ok (ensureWritable_run (by simp [stage])),
      run_bind_ok found, run_get, if_pos ⟨same, by simp [lenient]⟩]
    rfl
  | struct | ref => cases elided

/-- Any other field is added to the record. -/
theorem write_adds (sound : b.RegionSound) :
    Ends p.write b (fun _ b' => b' = b ∨ ∃ bytes, Added b p.slot bytes b') fun _ _ => True := by
  cases p with
  | scalar slot value default =>
    rw [Pending.write]
    split
    next =>
      apply (addField_ends sound slot value default).mono
      · rintro _ b' (⟨-, same⟩ | ⟨-, added⟩)
        · exact .inl same
        · exact .inr ⟨_, added⟩
      · exact fun _ _ _ => trivial
    next => trivial
  | struct slot bytes alignment =>
    exact (addStructField_ends sound slot bytes alignment).mono (fun _ _ added => .inr ⟨_, added⟩)
      fun _ _ _ => trivial
  | ref slot kind child =>
    exact (addRefField_ends sound slot child).mono (fun _ _ added => .inr ⟨_, added.2.2⟩)
      fun _ _ _ => trivial

/-- The fields that are left out need not have been pending. -/
theorem writes_filter (sound : b.RegionSound) (lenient : b.config.forceDefaults = false)
    (stage : b.stage = .record start fields) (typed : ∀ p ∈ pending, p.Typed)
    (small : ∀ p ∈ pending, p.slot < slotLimit) (distinct : (pending.map (·.slot)).Nodup)
    (fresh : ∀ p ∈ pending, p.slot ∉ fields.map (·.slot)) :
    (pending.forM Pending.write).run b = ((pending.filter Pending.isWritten).forM Pending.write).run b := by
  induction pending generalizing b fields with
  | nil => rfl
  | cons p rest ih =>
    obtain ⟨typed₁, typed⟩ := List.forall_mem_cons.1 typed
    obtain ⟨small₁, small⟩ := List.forall_mem_cons.1 small
    obtain ⟨fresh₁, fresh⟩ := List.forall_mem_cons.1 fresh
    obtain ⟨apart, distinct⟩ := List.nodup_cons.1 distinct
    change (p.write >>= fun _ => rest.forM Pending.write).run b = _
    cases written : p.isWritten with
    | false =>
      rw [List.filter_cons_of_neg (by simp [written]),
        run_bind_ok (write_elided lenient stage typed₁ small₁ fresh₁ written)]
      exact ih sound lenient stage typed small distinct fresh
    | true =>
      rw [List.filter_cons_of_pos written]
      change _ = (p.write >>= fun _ => (rest.filter _).forM Pending.write).run b
      cases run : p.write.run b with
      | error e b' => rw [run_bind_error run, run_bind_error run]
      | ok u b' =>
        rw [run_bind_ok run, run_bind_ok run]
        obtain rfl | ⟨bytes, start', fields', b₁, gap, stage', -, -, adds, rfl⟩ :=
          (write_adds sound).of_ok run
        · exact ih sound lenient stage typed small distinct fresh
        · cases stage.symm.trans stage'
          refine ih (adds.region.withStage _) (adds.config ▸ lenient) rfl typed small distinct ?_
          intro q mem taken
          rcases List.mem_cons.1 taken with same | taken
          · exact apart (List.mem_map.2 ⟨q, mem, same⟩)
          · exact fresh q mem taken

end Writing

section Same

variable {fields more : List RecordField} {pending other pending' other' : List Pending}

/-- What waits has a slot of one of the fields, in their order. -/
structure Waits (fields : List RecordField) (pending : List Pending) : Prop where
  slots : (pending.map (·.slot)).Sublist (fields.map (·.slot))
  typed : ∀ p ∈ pending, p.Typed

/-- Of some fields, one and the same is written from either list. -/
structure SameWritten (fields : List RecordField) (pending other : List Pending) : Prop where
  written : pending.filter Pending.isWritten = other.filter Pending.isWritten
  first : Waits fields pending
  second : Waits fields other

theorem waits_nil (fields : List RecordField) : Waits fields [] := ⟨List.nil_sublist _, by simp⟩

theorem sameWritten_nil (fields : List RecordField) : SameWritten fields [] [] :=
  ⟨rfl, waits_nil fields, waits_nil fields⟩

theorem Waits.append (waits : Waits fields pending) (waits' : Waits more pending') :
    Waits (fields ++ more) (pending ++ pending') := by
  refine ⟨?_, ?_⟩
  · rw [List.map_append, List.map_append]
    exact waits.slots.append waits'.slots
  · intro p mem
    rcases List.mem_append.1 mem with mem | mem
    · exact waits.typed p mem
    · exact waits'.typed p mem

theorem SameWritten.append (same : SameWritten fields pending other)
    (same' : SameWritten more pending' other') :
    SameWritten (fields ++ more) (pending ++ pending') (other ++ other') := by
  refine ⟨?_, same.first.append same'.first, same.second.append same'.second⟩
  rw [List.filter_append, List.filter_append, same.written, same'.written]

variable {b : Builder} {start : Nat}

theorem Waits.run (waits : Waits fields pending) (distinct : (fields.map (·.slot)).Nodup)
    (small : ∀ f ∈ fields, f.slot < slotLimit) (sound : b.RegionSound)
    (lenient : b.config.forceDefaults = false) (stage : b.stage = .record start []) :
    ((byAlignment pending).forM Pending.write).run b =
      ((byAlignment (pending.filter Pending.isWritten)).forM Pending.write).run b := by
  have sorted := byAlignment_perm pending
  rw [← filter_byAlignment]
  apply writes_filter sound lenient stage
  · exact fun p mem => waits.typed p (sorted.mem_iff.1 mem)
  · intro p mem
    have among := waits.slots.mem (List.mem_map_of_mem (sorted.mem_iff.1 mem))
    obtain ⟨f, inside, same⟩ := List.mem_map.1 among
    exact same ▸ small f inside
  · exact (sorted.map _).nodup_iff.2 (distinct.sublist waits.slots)
  · simp

/-- The record is written in one and the same way. -/
theorem SameWritten.run (same : SameWritten fields pending other)
    (distinct : (fields.map (·.slot)).Nodup) (small : ∀ f ∈ fields, f.slot < slotLimit)
    (sound : b.RegionSound) (lenient : b.config.forceDefaults = false)
    (stage : b.stage = .record start []) :
    ((byAlignment pending).forM Pending.write).run b = ((byAlignment other).forM Pending.write).run b := by
  rw [same.first.run distinct small sound lenient stage,
    same.second.run distinct small sound lenient stage, same.written]

end Same

end FlatRecord
