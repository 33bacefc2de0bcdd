import FlatRecord.Builder.Basic
import FlatRecord.Proofs.Placement

/-! How building steps end. A step that only writes puts bytes in front of the written ones and leaves the
rest of the builder alone, also when it fails halfway. -/
namespace FlatRecord

/-- Every way in which `x` can end from `b`: with an answer, or with an error. -/
def Build.Ends (x : Build α) (b : Builder) (ok : α → Builder → Prop)
    (bad : Error → Builder → Prop) : Prop :=
  match x.run b with
  | .ok a b' => ok a b'
  | .error e b' => bad e b'

namespace Build

variable {b b' : Builder} {ok : α → Builder → Prop} {bad : Error → Builder → Prop}

@[simp] theorem ends_pure (a : α) : Ends (pure a) b ok bad ↔ ok a b := Iff.rfl

@[simp] theorem ends_throw (e : Error) : Ends (throw e) b ok bad ↔ bad e b := Iff.rfl

@[simp] theorem ends_bind (x : Build β) (f : β → Build α) :
    Ends (x >>= f) b ok bad ↔ Ends x b (fun a b' => Ends (f a) b' ok bad) bad := by
  simp only [Ends, EStateM.run, bind, EStateM.bind]
  cases x b <;> rfl

@[simp] theorem ends_map (x : Build β) (f : β → α) :
    Ends (f <$> x) b ok bad ↔ Ends x b (fun a b' => ok (f a) b') bad := by
  simp only [Ends, EStateM.run, Functor.map, EStateM.map]
  cases x b <;> rfl

@[simp] theorem ends_get {ok : Builder → Builder → Prop} : Ends get b ok bad ↔ ok b b := Iff.rfl

@[simp] theorem ends_modify (f : Builder → Builder) {ok : PUnit → Builder → Prop} :
    Ends (modify f) b ok bad ↔ ok ⟨⟩ (f b) := Iff.rfl

theorem ends_ofExcept (x : Except Error α) :
    Ends (ofExcept x) b ok bad ↔
      (∀ a, x = .ok a → ok a b) ∧ (∀ e, x = .error e → bad e b) := by
  cases x with
  | ok a => simp [ofExcept]
  | error e => simp [ofExcept]

theorem Ends.mono {x : Build α} (h : Ends x b ok bad) {ok' : α → Builder → Prop}
    {bad' : Error → Builder → Prop} (onOk : ∀ a b', ok a b' → ok' a b')
    (onBad : ∀ e b', bad e b' → bad' e b') : Ends x b ok' bad' := by
  unfold Ends at h ⊢
  split
  next eq => rw [eq] at h; exact onOk _ _ h
  next eq => rw [eq] at h; exact onBad _ _ h

theorem Ends.and {x : Build α} (h : Ends x b ok bad) {ok' : α → Builder → Prop}
    {bad' : Error → Builder → Prop} (h' : Ends x b ok' bad') :
    Ends x b (fun a b' => ok a b' ∧ ok' a b') (fun e b' => bad e b' ∧ bad' e b') := by
  unfold Ends at h h' ⊢
  split
  next eq => rw [eq] at h h'; exact ⟨h, h'⟩
  next eq => rw [eq] at h h'; exact ⟨h, h'⟩

theorem Ends.of_ok {x : Build α} (h : Ends x b ok bad) {a : α} (run : x.run b = .ok a b') :
    ok a b' := by
  simp only [Ends] at h
  rwa [run] at h

theorem run_get (f : Builder → Build α) : (get >>= f).run b = (f b).run b := rfl

theorem run_bind_ok {x : Build β} {f : β → Build α} {a : β} (run : x.run b = .ok a b') :
    (x >>= f).run b = (f a).run b' := by
  simp only [EStateM.run, bind, EStateM.bind] at run ⊢
  rw [run]

theorem run_bind_error {x : Build β} {f : β → Build α} {e : Error} (run : x.run b = .error e b') :
    (x >>= f).run b = .error e b' := by
  simp only [EStateM.run, bind, EStateM.bind] at run ⊢
  rw [run]

theorem run_bind_eq_ok {x : Build β} {f : β → Build α} {a : α} (run : (x >>= f).run b = .ok a b') :
    ∃ c b₁, x.run b = .ok c b₁ ∧ (f c).run b₁ = .ok a b' := by
  cases first : x.run b with
  | ok c b₁ =>
    rw [run_bind_ok first] at run
    exact ⟨c, b₁, rfl, run⟩
  | error e b₁ =>
    rw [run_bind_error first] at run
    cases run

/-- What each step of a loop carries from the items done to one more, the loop carries to the end. -/
theorem ends_forM {items : List β} {step : β → Build PUnit} {I : List β → Builder → Prop}
    (start : I [] b)
    (keeps : ∀ done item rest, items = done ++ item :: rest → ∀ b, I done b →
      Ends (step item) b (fun _ b' => I (done ++ [item]) b') bad) :
    Ends (items.forM step) b (fun _ b' => I items b') bad := by
  suffices general : ∀ rest done b, items = done ++ rest → I done b →
      Ends (rest.forM step) b (fun _ b' => I items b') bad from general items [] b rfl start
  intro rest
  induction rest with
  | nil =>
    intro done b split h
    have all : items = done := by simpa using split
    subst all
    exact h
  | cons item rest ih =>
    intro done b split h
    change Ends (step item >>= fun _ => rest.forM step) b _ bad
    rw [ends_bind]
    refine (keeps done item rest split b h).mono (fun _ b' next => ?_) (fun _ _ h => h)
    exact ih (done ++ [item]) b' (by simpa using split) next

/-- A loop that collects answers: the invariant speaks of the items done and their answers. -/
theorem ends_mapM {items : List β} {step : β → Build γ} {I : List β → List γ → Builder → Prop}
    (start : I [] [] b)
    (keeps : ∀ done item rest, items = done ++ item :: rest → ∀ answers b, I done answers b →
      Ends (step item) b (fun a b' => I (done ++ [item]) (answers ++ [a]) b') bad) :
    Ends (items.mapM step) b (fun answers b' => I items answers b') bad := by
  suffices general : ∀ rest done answers b, items = done ++ rest → I done answers b →
      Ends (rest.mapM step) b (fun more b' => I items (answers ++ more) b') bad by
    simpa using general items [] [] b rfl start
  intro rest
  induction rest with
  | nil =>
    intro done answers b split h
    have all : items = done := by simpa using split
    subst all
    simpa using h
  | cons item rest ih =>
    intro done answers b split h
    rw [List.mapM_cons, ends_bind]
    refine (keeps done item rest split answers b h).mono (fun a b' next => ?_) (fun _ _ h => h)
    rw [ends_bind]
    refine (ih (done ++ [item]) (answers ++ [a]) b' (by simpa using split) next).mono
      (fun more b'' finished => ?_) (fun _ _ h => h)
    simpa using finished

end Build

end FlatRecord
