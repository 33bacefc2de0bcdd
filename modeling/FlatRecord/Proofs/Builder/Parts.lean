import FlatRecord.Proofs.Builder.Soundness

/-! Operations that write a whole vector are made of others, which happen one after the other until one
fails. -/
namespace FlatRecord.Builder

open Build

/-- The steps one after the other. The answer is the last one's. -/
def inOrder : List Operation → Build Answer
  | [] => return .done
  | [op] => op.step
  | op :: next :: rest => do
    let _ ← op.step
    inOrder (next :: rest)

/-- The operations that write a vector of objects. -/
def refVectorParts (kind : ObjectKind) (items : List (Ref kind)) : List Operation :=
  .startVector items.length offsetSize offsetSize :: items.map (.pushRef kind) ++ [.endVector]

/-- What an operation is made of. The elements of a vector of texts are the texts that were written just
before it. -/
def parts (b : Builder) : Operation → List Operation
  | .createVector type items =>
    .startVector items.length type.size type.size :: items.map .pushElement ++ [.endVector]
  | .createRefVector kind items => refVectorParts kind items
  | .createTextVector items =>
    items.map .createText ++
      match (items.mapM createText).run b with
      | .ok refs _ => refVectorParts .text refs
      | .error _ _ => []
  | op => [op]

/-- The builder after operations that stop at the first failure, and the last answer. -/
def applyInOrder (b : Builder) : List Operation → Except Error Answer × Builder
  | [] => (.ok .done, b)
  | [op] => b.apply op
  | op :: next :: rest =>
    match b.apply op with
    | (.ok _, b') => applyInOrder b' (next :: rest)
    | (.error e, b') => (.error e, b')

/-- After an operation that succeeds come the others. -/
theorem applyInOrder_ok {b b' : Builder} {op : Operation} {answer : Answer}
    (done : b.apply op = (.ok answer, b')) (rest : List Operation) :
    (b.applyInOrder (op :: rest)).2 = (b'.applyInOrder rest).2 := by
  cases rest with
  | nil =>
    change (b.apply op).2 = b'
    rw [done]
  | cons next rest => rw [applyInOrder, done]

/-- A failure is the end of it. -/
theorem applyInOrder_error {b b' : Builder} {op : Operation} {e : Error}
    (failed : b.apply op = (.error e, b')) (rest : List Operation) :
    b.applyInOrder (op :: rest) = (.error e, b') := by
  cases rest with
  | nil => exact failed
  | cons next rest => rw [applyInOrder, failed]

theorem inOrder_cons (op : Operation) {rest : List Operation} (more : rest ≠ []) :
    inOrder (op :: rest) = (do let _ ← op.step; inOrder rest) := by
  cases rest with
  | nil => exact absurd rfl more
  | cons next rest => rfl

/-- A result as an answer or an error, and the builder. -/
def outcome (result : EStateM.Result Error Builder α) : Except Error α × Builder :=
  match result with
  | .ok answer b => (.ok answer, b)
  | .error e b => (.error e, b)

theorem apply_eq (b : Builder) (op : Operation) : b.apply op = outcome (op.step.run b) := by
  simp only [apply]
  cases op.step.run b <;> rfl

theorem of_outcome_ok {result : EStateM.Result Error Builder α} {a : α} {b : Builder}
    (done : outcome result = (.ok a, b)) : result = .ok a b := by
  cases result <;> cases done
  rfl

theorem of_outcome_error {result : EStateM.Result Error Builder α} {e : Error} {b : Builder}
    (failed : outcome result = (.error e, b)) : result = .error e b := by
  cases result <;> cases failed
  rfl

theorem run_of_apply_ok {b b' : Builder} {op : Operation} {answer : Answer}
    (done : b.apply op = (.ok answer, b')) : op.step.run b = .ok answer b' :=
  of_outcome_ok ((apply_eq b op).symm.trans done)

theorem run_of_apply_error {b b' : Builder} {op : Operation} {e : Error}
    (failed : b.apply op = (.error e, b')) : op.step.run b = .error e b' :=
  of_outcome_error ((apply_eq b op).symm.trans failed)

theorem applyInOrder_eq (b : Builder) (ops : List Operation) :
    b.applyInOrder ops = outcome ((inOrder ops).run b) := by
  fun_induction applyInOrder b ops with
  | case1 b => rfl
  | case2 b op => exact apply_eq b op
  | case3 b op next rest answer b' done ih =>
    rw [ih, inOrder_cons op (List.cons_ne_nil _ _), run_bind_ok (run_of_apply_ok done)]
  | case4 b op next rest e b' failed =>
    rw [inOrder_cons op (List.cons_ne_nil _ _), run_bind_error (run_of_apply_error failed)]
    rfl

/-- A loop over items is its steps in order. -/
theorem inOrder_items {items : List α} {part : α → Operation} {g : α → Build PUnit}
    (same : ∀ item, (part item).step = do g item; return .done) (last : Operation) :
    inOrder (items.map part ++ [last]) = (do items.forM g; last.step) := by
  induction items with
  | nil => simp [inOrder]
  | cons item rest ih =>
    rw [List.map_cons, List.cons_append, inOrder_cons _ (by simp), ih, same]
    simp [List.forM_cons]

theorem createVector_inOrder (b : Builder) (type : ScalarType) (items : List Scalar) :
    (Operation.createVector type items).step = inOrder (b.parts (.createVector type items)) := by
  rw [parts, List.cons_append, inOrder_cons _ (by simp),
    inOrder_items (g := Builder.pushElement) fun _ => rfl]
  simp [Operation.step, Builder.createVector]

theorem createRefVector_inOrder (kind : ObjectKind) (items : List (Ref kind)) :
    (.object .vector <$> Builder.createRefVector items : Build Answer) =
      inOrder (refVectorParts kind items) := by
  rw [refVectorParts, List.cons_append, inOrder_cons _ (by simp),
    inOrder_items (g := Builder.pushRef) fun _ => rfl]
  simp [Operation.step, Builder.createRefVector]

theorem inOrder_error {b b' : Builder} {op : Operation} {e : Error} (rest : List Operation)
    (failed : op.step.run b = .error e b') : (inOrder (op :: rest)).run b = .error e b' := by
  cases rest with
  | nil => exact failed
  | cons next rest => exact run_bind_error failed

/-- Texts in order, then what follows them if they were all written. -/
theorem inOrder_texts (items : List String) (b : Builder) (rest : List Operation)
    (stops : rest = [] → ∃ e b', (items.mapM Builder.createText).run b = .error e b') :
    (inOrder (items.map .createText ++ rest)).run b =
      match (items.mapM Builder.createText).run b with
      | .ok _ b' => (inOrder rest).run b'
      | .error e b' => .error e b' := by
  induction items generalizing b with
  | nil => rfl
  | cons item items ih =>
    rw [List.mapM_cons] at stops ⊢
    rw [List.map_cons, List.cons_append]
    have step : (Operation.createText item).step =
        (do let ref ← Builder.createText item; return .object .text ref) := by
      simp [Operation.step]
    cases first : (Builder.createText item).run b with
    | error e b₁ =>
      have failed : (Operation.createText item).step.run b = .error e b₁ :=
        step ▸ run_bind_error first
      rw [run_bind_error first, inOrder_error _ failed]
    | ok ref b₁ =>
      have done : (Operation.createText item).step.run b = .ok (.object .text ref) b₁ :=
        step ▸ run_bind_ok first
      rw [run_bind_ok first] at stops ⊢
      have later : rest = [] → ∃ e b', (items.mapM Builder.createText).run b₁ = .error e b' := by
        intro none
        obtain ⟨e, b', failed⟩ := stops none
        cases result : (items.mapM Builder.createText).run b₁ with
        | error e b₂ => exact ⟨e, b₂, rfl⟩
        | ok refs b₂ => rw [run_bind_ok result] at failed; cases failed
      have more : items.map .createText ++ rest ≠ [] := by
        intro none
        obtain ⟨alone, last⟩ := List.append_eq_nil_iff.1 none
        obtain ⟨e, b', failed⟩ := later last
        rw [List.map_eq_nil_iff.1 alone] at failed
        cases failed
      rw [inOrder_cons _ more, run_bind_ok done, ih b₁ later]
      cases result : (items.mapM Builder.createText).run b₁ with
      | error e b₂ => rw [run_bind_error result]
      | ok refs b₂ => rw [run_bind_ok result]; rfl

theorem createTextVector_inOrder (b : Builder) (items : List String) :
    (Operation.createTextVector items).step.run b =
      (inOrder (b.parts (.createTextVector items))).run b := by
  have stops : (match (items.mapM Builder.createText).run b with
      | .ok refs _ => refVectorParts .text refs
      | .error _ _ => []) = [] → ∃ e b', (items.mapM Builder.createText).run b = .error e b' := by
    cases (items.mapM Builder.createText).run b with
    | ok refs b' => exact fun none => nomatch none
    | error e b' => exact fun _ => ⟨e, b', rfl⟩
  rw [parts, inOrder_texts items b _ stops]
  have step : (Operation.createTextVector items).step =
      (do let refs ← items.mapM Builder.createText
          .object .vector <$> Builder.createRefVector refs) := by
    simp [Operation.step, Builder.createTextVector]
  rw [step]
  cases result : (items.mapM Builder.createText).run b with
  | error e b' => rw [run_bind_error result]
  | ok refs b' => rw [run_bind_ok result, createRefVector_inOrder]

/-- An operation does what its parts do. -/
theorem apply_parts (b : Builder) (op : Operation) :
    b.apply op = b.applyInOrder (b.parts op) := by
  rw [applyInOrder_eq, apply_eq]
  cases op with
  | createVector type items => rw [createVector_inOrder b]
  | createRefVector kind items =>
    exact congrArg (fun x => outcome (EStateM.run x b)) (createRefVector_inOrder kind items)
  | createTextVector items => rw [createTextVector_inOrder]
  | _ => rfl

end FlatRecord.Builder
