import FlatRecord.Reading.Limits
import Mathlib.Algebra.GroupWithZero.Nat
import Mathlib.Data.List.Forall2

/-! How computations that may fail end, and readers that count. -/
namespace FlatRecord

section Results

variable {ε α β : Type}

@[simp] theorem ok_bind (a : α) (f : α → Except ε β) : (Except.ok a >>= f) = f a := rfl

@[simp] theorem error_bind (e : ε) (f : α → Except ε β) : (Except.error e >>= f) = .error e := rfl

@[simp] theorem pure_eq_ok (a : α) : (pure a : Except ε α) = .ok a := rfl

@[simp] theorem throw_eq_error (e : ε) : (throw e : Except ε α) = .error e := rfl

theorem bind_eq_ok {x : Except ε α} {f : α → Except ε β} {b : β} :
    x >>= f = .ok b ↔ ∃ a, x = .ok a ∧ f a = .ok b := by
  cases x with
  | ok a => simp
  | error e => simp

theorem bind_eq_error {x : Except ε α} {f : α → Except ε β} {e : ε} :
    x >>= f = .error e ↔ x = .error e ∨ ∃ a, x = .ok a ∧ f a = .error e := by
  cases x with
  | ok a => simp
  | error e => simp

theorem map_eq_ok {x : Except ε α} {f : α → β} {b : β} (ok : f <$> x = .ok b) :
    ∃ a, x = .ok a ∧ f a = b := by
  cases x with
  | ok a => exact ⟨a, rfl, Except.ok.inj ok⟩
  | error e => cases ok

@[simp] theorem map_ok (f : α → β) (a : α) : (Except.ok a : Except ε α).map f = .ok (f a) := rfl

@[simp] theorem map_error (f : α → β) (e : ε) :
    (Except.error e : Except ε α).map f = .error e := rfl

/-- A check that stops with an error. -/
theorem check_eq_ok {c : Prop} [Decidable c] {e : ε} {x : Except ε β} {b : β} :
    (if c then .error e else x) = .ok b ↔ ¬c ∧ x = .ok b := by
  split <;> simp [*]

theorem forM_eq_ok {items : List α} {check : α → Except ε Unit} :
    items.forM check = .ok () ↔ ∀ item ∈ items, check item = .ok () := by
  induction items with
  | nil => simp [List.forM, pure, Except.pure]
  | cons item rest ih =>
    change (check item >>= fun _ => rest.forM check) = _ ↔ _
    rw [bind_eq_ok, List.forall_mem_cons, ← ih]
    constructor
    · rintro ⟨_, first, later⟩
      exact ⟨first, later⟩
    · rintro ⟨first, later⟩
      exact ⟨_, first, later⟩

theorem mapM_related {g : α → Except ε β} {items : List α} {answers : List β}
    (all : items.mapM g = .ok answers) : List.Forall₂ (fun a c => g a = .ok c) items answers := by
  induction items generalizing answers with
  | nil => cases all; exact .nil
  | cons a rest ih =>
    rw [List.mapM_cons] at all
    obtain ⟨c, first, all⟩ := bind_eq_ok.1 all
    obtain ⟨cs, later, all⟩ := bind_eq_ok.1 all
    cases all
    exact .cons first (ih later)

theorem mapM_ok {items : List α} {g : α → Except ε β}
    (each : ∀ item ∈ items, ∃ answer, g item = .ok answer) :
    ∃ answers, items.mapM g = .ok answers := by
  induction items with
  | nil => exact ⟨[], rfl⟩
  | cons item rest ih =>
    obtain ⟨⟨answer, first⟩, later⟩ := List.forall_mem_cons.1 each
    obtain ⟨answers, tail⟩ := ih later
    rw [List.mapM_cons, first, ok_bind, tail]
    exact ⟨_, rfl⟩

end Results

section Related

variable {α β γ : Type}

theorem related_left {R : α → β → Prop} {as : List α} {bs : List β} (all : List.Forall₂ R as bs)
    {a : α} (mem : a ∈ as) : ∃ b ∈ bs, R a b := by
  induction all with
  | nil => cases mem
  | cons head tail ih =>
    rcases List.mem_cons.1 mem with rfl | mem
    · exact ⟨_, List.mem_cons_self, head⟩
    · obtain ⟨b, inside, related⟩ := ih mem
      exact ⟨b, List.mem_cons_of_mem _ inside, related⟩

theorem related_right {R : α → β → Prop} {as : List α} {bs : List β} (all : List.Forall₂ R as bs)
    {b : β} (mem : b ∈ bs) : ∃ a ∈ as, R a b :=
  related_left (all.flip) mem

theorem related_trans {R : α → β → Prop} {S : β → γ → Prop} {as : List α} {bs : List β} {cs : List γ}
    (first : List.Forall₂ R as bs) (second : List.Forall₂ S bs cs) :
    List.Forall₂ (fun a c => ∃ b, R a b ∧ S b c) as cs := by
  induction first generalizing cs with
  | nil =>
    cases second
    exact .nil
  | cons head _ ih =>
    cases second with
    | cons head' rest => exact .cons ⟨_, head, head'⟩ (ih rest)

end Related

/-- What `run'` leaves out is the count. -/
theorem run'_eq_ok {α : Type} {x : Counted α} {c : Nat} {a : α} :
    x.run' c = .ok a ↔ ∃ n, x.run c = .ok (a, n) := by
  rw [StateT.run'_eq]
  cases x.run c with
  | ok r =>
    obtain ⟨a', n⟩ := r
    simp [Functor.map, Except.map]
  | error e => simp [Functor.map, Except.map]

namespace Counted

variable {α β : Type} {limits : Limits}

theorem run_charge (limits : Limits) (e : Error) (c : Nat) : (charge limits e).run c =
    if limits.maxObjects < c + 1 then .error e else .ok ((), c + 1) := by
  simp only [charge, StateT.run_bind, StateT.run_modify, StateT.run_get, pure_bind]
  split <;> rfl

/-- The reader answers `a` and counts `n` objects, if there is still room for so many. -/
def Gives (limits : Limits) (x : Counted α) (a : α) (n : Nat) : Prop :=
  ∀ c, c + n ≤ limits.maxObjects → x.run c = .ok (a, c + n)

theorem gives_pure (a : α) : Gives limits (pure a) a 0 := fun _ _ => rfl

theorem gives_lift {x : Except Error α} {a : α} (ok : x = .ok a) :
    Gives limits (liftM x : Counted α) a 0 := by
  intro c _
  rw [ok]
  rfl

theorem gives_bind {x : Counted α} {f : α → Counted β} {a : α} {b : β} {n m : Nat}
    (first : Gives limits x a n) (second : Gives limits (f a) b m) :
    Gives limits (x >>= f) b (n + m) := by
  intro c room
  rw [StateT.run_bind, first c (by omega), ok_bind, second (c + n) (by omega), Nat.add_assoc]

theorem gives_map {x : Counted α} {f : α → β} {a : α} {n : Nat} (gives : Gives limits x a n) :
    Gives limits (f <$> x) (f a) n := by
  intro c room
  rw [StateT.run_map, gives c room]
  rfl

theorem gives_charge (e : Error) : Gives limits (charge limits e) () 1 := by
  intro c room
  rw [run_charge, if_neg (by omega)]

theorem gives_mapM {items : List α} {answers : List β} {g : α → Counted β} {cost : β → Nat}
    (each : List.Forall₂ (fun item answer => Gives limits (g item) answer (cost answer)) items
      answers) : Gives limits (items.mapM g) answers (answers.map cost).sum := by
  induction each with
  | nil => exact gives_pure []
  | cons head tail ih =>
    rw [List.mapM_cons, List.map_cons, List.sum_cons]
    apply gives_bind head
    rw [← Nat.add_zero (List.sum _)]
    exact gives_bind ih (gives_pure _)

theorem gives_forM {items : List α} {answers : List β} {g : α → Counted Unit} {cost : β → Nat}
    (each : List.Forall₂ (fun item answer => Gives limits (g item) () (cost answer)) items answers) :
    Gives limits (items.forM g) () (answers.map cost).sum := by
  induction each with
  | nil => exact gives_pure ()
  | cons head tail ih =>
    rw [List.map_cons, List.sum_cons]
    exact gives_bind head ih

end Counted

end FlatRecord
