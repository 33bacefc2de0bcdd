import FlatRecord.Proofs.Codec.Evolution
import FlatRecord.Proofs.Codec.Image
import FlatRecord.Proofs.Reading.Extended

/-! Buffers with fields that the reader's schema does not have yet. Whatever the bytes are, a reader with an
earlier schema finds what a reader with the later one finds, without the new fields. -/
namespace FlatRecord

open Reading Decoding Verification

/-- Wherever `x` succeeds, `y` succeeds from any count as small, with a related answer and a count as small. -/
def Traces (x : Counted α) (y : Counted β) (R : α → β → Prop) : Prop :=
  ∀ c a n, x.run c = .ok (a, n) → ∀ c' ≤ c, ∃ b, ∃ n' ≤ n, y.run c' = .ok (b, n') ∧ R a b

section Walks

variable {x : Counted α} {y : Counted β} {R : α → β → Prop}

theorem traces_pure {a : α} {b : β} (related : R a b) : Traces (pure a) (pure b) R := by
  intro c a' n run c' small
  cases run
  exact ⟨b, c', small, rfl, related⟩

theorem traces_bind {f : α → Counted γ} {g : β → Counted δ} {S : γ → δ → Prop}
    (first : Traces x y R) (second : ∀ a b, R a b → Traces (f a) (g b) S) :
    Traces (x >>= f) (y >>= g) S := by
  intro c d n run c' small
  rw [StateT.run_bind] at run
  obtain ⟨⟨a, m⟩, run, later⟩ := bind_eq_ok.1 run
  obtain ⟨b, m', small, run', related⟩ := first c a m run c' small
  obtain ⟨e, n', small, later', related'⟩ := second a b related m d n later m' small
  refine ⟨e, n', small, ?_, related'⟩
  rw [StateT.run_bind, run']
  exact later'

theorem traces_map {f : α → γ} {g : β → δ} {S : γ → δ → Prop} (traces : Traces x y R)
    (holds : ∀ a b, R a b → S (f a) (g b)) : Traces (f <$> x) (g <$> y) S := by
  rw [map_eq_pure_bind, map_eq_pure_bind]
  exact traces_bind traces fun a b related => traces_pure (holds a b related)

theorem Traces.mono (traces : Traces x y R) {S : α → β → Prop} (weaker : ∀ a b, R a b → S a b) :
    Traces x y S := by
  intro c a n run c' small
  obtain ⟨b, n', small, run', related⟩ := traces c a n run c' small
  exact ⟨b, n', small, run', weaker a b related⟩

/-- A step of both that does not count. -/
theorem traces_read {e : Except Error γ} {f : γ → Counted α} {g : γ → Counted β}
    (rest : ∀ a, e = .ok a → Traces (f a) (g a) R) : Traces (liftM e >>= f) (liftM e >>= g) R := by
  cases e with
  | ok a => exact rest a rfl
  | error e => exact fun _ _ _ run => nomatch run

theorem traces_charge (limits : Limits) (e : Error) :
    Traces (Counted.charge limits e) (Counted.charge limits e) fun _ _ => True := by
  intro c a n run c' small
  obtain ⟨n', small, run'⟩ := covers_charge rfl e e c a n run c' small
  exact ⟨(), n', small, run', trivial⟩

theorem traces_mapM {items : List γ} {f : γ → Counted α} {g : γ → Counted β} {h : α → β}
    (each : ∀ item ∈ items, Traces (f item) (g item) fun a b => b = h a) :
    Traces (items.mapM f) (items.mapM g) fun as bs => bs = as.map h := by
  induction items with
  | nil => exact traces_pure rfl
  | cons item rest ih =>
    obtain ⟨here, later⟩ := List.forall_mem_cons.1 each
    rw [List.mapM_cons, List.mapM_cons]
    refine traces_bind here fun a b first => traces_bind (ih later) fun as bs rest => ?_
    exact traces_pure (by rw [first, rest, List.map_cons])

/-- A fold over some of the items, while the others make no difference. -/
theorem traces_foldlM {items : List γ} {p : γ → Bool} {f : α → γ → Counted α} {g : β → γ → Counted β}
    {a : α} {b : β} (start : R a b)
    (kept : ∀ item ∈ items, p item = true → ∀ a b, R a b → Traces (f a item) (g b item) R)
    (skipped : ∀ item ∈ items, p item = false → ∀ a b, R a b → Traces (f a item) (pure b) R) :
    Traces (items.foldlM f a) ((items.filter p).foldlM g b) R := by
  induction items generalizing a b with
  | nil => exact traces_pure start
  | cons item rest ih =>
    obtain ⟨keep, keeps⟩ := List.forall_mem_cons.1 kept
    obtain ⟨skip, skips⟩ := List.forall_mem_cons.1 skipped
    rw [List.foldlM_cons]
    cases among : p item with
    | true =>
      rw [List.filter_cons_of_pos among, List.foldlM_cons]
      exact traces_bind (keep among a b start) fun a b related => ih related keeps skips
    | false =>
      rw [List.filter_cons_of_neg (by simp [among]), ← pure_bind b fun b => (rest.filter p).foldlM g b]
      exact traces_bind (skip among a b start) fun a b related => ih related keeps skips

end Walks

section Decoding

variable {schema old new : Schema} {limits : Limits} {buf : Bytes} {t : Table} {f : RecordField}
  {type : ElementType} {child child' : Child} {owner : Nat}

section Records

variable {name : String} {o n : RecordType} {r : Record} {v : Value}

end Records

end Decoding

section Visiting

variable {schema old new : Schema} {limits : Limits} {buf : Bytes} {t : Table} {f : RecordField}
  {visit visit' : Visit}

end Visiting

variable {old new : Schema} {bytes : Bytes} {options : ReaderOptions} {r : Record} {o : RecordType}

end FlatRecord
