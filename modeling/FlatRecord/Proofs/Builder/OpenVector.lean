import FlatRecord.Proofs.Builder.Drafts
import FlatRecord.Proofs.Builder.Journal
import Mathlib.Data.List.Infix

/-! What may be called while a vector is open. Nothing but the elements and the vector's end is accepted, loose
scalars apart, which move the place where the count will stand. -/
namespace FlatRecord.Builder

open Build

instance (b : Builder) : Decidable b.InVector :=
  match stage : b.stage with
  | .vector length pushed elementSize first =>
    isTrue ⟨length, pushed, elementSize, first, stage⟩
  | .idle | .record .. | .finished =>
    isFalse fun ⟨_, _, _, _, vector⟩ => Stage.noConfusion (stage.symm.trans vector)

/-- The element that an operation fills. -/
def Operation.element? : Operation → Option Piece
  | .pushElement v => some (.own v.toBytes)
  | .pushBytesElement bytes => some (.own bytes)
  | .pushRef kind child => some (.ref kind child.distance)
  | _ => none

/-- The elements that a run fills. What fails fills nothing. -/
def pushed (b : Builder) : List Operation → List Piece
  | [] => []
  | op :: rest =>
    match b.apply op with
    | (.ok _, b') => op.element?.toList ++ b'.pushed rest
    | (.error _, b') => b'.pushed rest

variable {b b' : Builder}

theorem refuses_map {x : Build α} (f : α → β) (refuses : Refuses x b) : Refuses (f <$> x) b := by
  rw [Refuses, ends_map]
  exact refuses.mono (fun _ _ impossible => impossible.elim) fun _ _ same => same

theorem startVector_refuses (busy : b.InVector) (length elementSize alignment : Nat) :
    Refuses (startVector length elementSize alignment) b := refuses_bind (ensureIdle_refuses busy)

theorem createTextVector_refuses (busy : b.InVector) (items : List String) :
    Refuses (createTextVector items) b := by
  cases items with
  | nil =>
    rw [createTextVector, List.mapM_nil, pure_bind]
    exact refuses_bind (startVector_refuses busy 0 offsetSize offsetSize)
  | cons item rest =>
    rw [createTextVector, List.mapM_cons]
    exact refuses_bind (refuses_bind (createUnchecked_refuses busy _))

/-- While a vector is open, whatever is not about it is refused, except for loose scalars and a reset. -/
theorem others_refuse (busy : b.InVector) {op : Operation} (other : op.element? = none)
    (apart : ∀ v, op ≠ .pushScalar v) (stays : op ≠ .reset) (goesOn : op ≠ .endVector) :
    Refuses op.step b := by
  have field (slot : Nat) {x : Nat → Build Unit} : Refuses (do ensureWritable; x (← checkSlot slot)) b :=
    refuses_writable (refuses_bind (checkSlot_refuses busy slot))
  cases op with
  | reset => exact absurd rfl stays
  | pushScalar v => exact absurd rfl (apart v)
  | endVector => exact absurd rfl goesOn
  | pushElement => cases other
  | pushBytesElement => cases other
  | pushRef => cases other
  | createText text => exact refuses_map _ (createUnchecked_refuses busy _)
  | createBytes bytes => exact refuses_map _ (createBytes_refuses busy bytes)
  | startVector length elementSize alignment =>
    exact refuses_bind (startVector_refuses busy length elementSize alignment)
  | createVector type items => exact refuses_map _ (refuses_bind (startVector_refuses busy _ _ _))
  | createRefVector kind items => exact refuses_map _ (refuses_bind (startVector_refuses busy _ _ _))
  | createTextVector items => exact refuses_map _ (createTextVector_refuses busy items)
  | startRecord => exact refuses_bind (refuses_bind (ensureIdle_refuses busy))
  | addField slot value default => exact refuses_bind (field slot)
  | addRequiredField slot value => exact refuses_bind (field slot)
  | addStructField slot bytes alignment => exact refuses_bind (field slot)
  | addRefField slot kind child => exact refuses_bind (field slot)
  | endRecord => exact refuses_map _ (endRecord_refuses busy)
  | finish root identifier sizePrefixed =>
    exact refuses_map _ (finish_refuses busy root identifier sizePrefixed)

variable {length size : Nat} {elements : List Piece}

theorem VectorDraft.inVector (draft : VectorDraft b length size elements) : b.InVector :=
  ⟨_, _, _, _, draft.stage⟩

theorem not_inVector_of_idle (idle : b.stage = .idle) : ¬b.InVector := by
  rintro ⟨length, pushed, size, first, stage⟩
  exact Stage.noConfusion (idle.symm.trans stage)

/-- The vector is closed or given up, or it has these elements. -/
def Continues (length size : Nat) (elements : List Piece) (b : Builder) : Prop :=
  b.InVector → VectorDraft b length size elements

/-- A push joins its element to the draft, or leaves everything as it is. -/
theorem push_continues (sound : b.Sound) (draft : VectorDraft b length size elements)
    {op : Operation} {p : Piece} (pushes : op.element? = some p) :
    Ends op.step b (fun _ b' => Continues length size (elements ++ [p]) b') (fun _ b' => b' = b) := by
  have joined {x : Build Unit} {ok : Unit → Builder → Prop}
      (makes : Makes x b fun _ b' => VectorDraft b' length size (elements ++ [p]))
      (ends : Ends x b ok fun _ b' => b' = b) :
      Ends (do x; return Answer.done) b (fun _ b' => Continues length size (elements ++ [p]) b')
        (fun _ b' => b' = b) := by
    rw [ends_bind]
    exact (makes.and ends).mono (fun _ _ both _ => both.1.2) fun _ _ both => both.2
  cases op with
  | pushElement v =>
    cases pushes
    exact joined (own_pushed sound draft v.toBytes)
      (pushBytesElement_ends sound.region sound.fits v.toBytes)
  | pushBytesElement bytes =>
    cases pushes
    exact joined (own_pushed sound draft bytes) (pushBytesElement_ends sound.region sound.fits bytes)
  | pushRef kind child =>
    cases pushes
    exact joined (ref_pushed sound draft child) (pushRef_ends sound.region sound.fits child)
  | _ => cases pushes

theorem endVector_closes (sound : b.Sound) :
    Ends endVector b (fun _ b' => ¬b'.InVector) (fun _ b' => b' = b ∨ ¬b'.InVector) := by
  refine (endVector_ends sound.region).mono (fun ref b' done => ?_) fun _ b' bad => ?_
  · obtain ⟨_, _, _, _, _, _, adds, _⟩ := done
    exact not_inVector_of_idle adds.stage
  · rcases bad with same | ⟨_, left, adds⟩
    · exact .inl same
    · exact .inr (not_inVector_of_idle adds.stage)

/-- One operation, while the vector is open. -/
theorem step_continues (sound : b.Sound) (draft : VectorDraft b length size elements)
    {op : Operation} (apart : ∀ v, op ≠ .pushScalar v) :
    Ends op.step b (fun _ b' => Continues length size (elements ++ op.element?.toList) b')
      (fun _ b' => Continues length size elements b') := by
  have same {b' : Builder} (same : b' = b) : Continues length size elements b' := by
    subst same
    exact fun _ => draft
  cases pushes : op.element? with
  | some p => exact (push_continues sound draft pushes).mono (fun _ _ joined => joined) fun _ _ => same
  | none =>
    rw [Option.toList_none, List.append_nil]
    by_cases forgets : op = .reset
    · subst forgets
      exact fun busy => absurd busy (not_inVector_of_idle rfl)
    by_cases ends : op = .endVector
    · subst ends
      rw [Operation.step, ends_map]
      refine (endVector_closes sound).mono (fun _ _ closed busy => absurd busy closed) fun _ _ bad => ?_
      exact bad.elim same fun closed busy => absurd busy closed
    · exact (others_refuse draft.inVector pushes apart forgets ends).mono
        (fun _ _ impossible => impossible.elim) fun _ _ => same

theorem run_cons (b : Builder) (op : Operation) (rest : List Operation) :
    b.run (op :: rest) = (b.apply op).2.run rest := rfl

/-- Any operations, as long as they leave the vector open. -/
theorem run_continues (sound : b.Sound) (draft : VectorDraft b length size elements)
    (ops : List Operation) (apart : ∀ op ∈ ops, ∀ v, op ≠ .pushScalar v)
    (open' : ∀ before, before <+: ops → (b.run before).InVector) :
    VectorDraft (b.run ops) length size (elements ++ b.pushed ops) := by
  induction ops generalizing b elements with
  | nil => rwa [pushed, List.append_nil]
  | cons op rest ih =>
    obtain ⟨first, later⟩ := List.forall_mem_cons.1 apart
    have busy : (b.apply op).2.InVector := open' [op] ⟨rest, rfl⟩
    have sound' := apply_sound sound op
    have open'' : ∀ before, before <+: rest → ((b.apply op).2.run before).InVector :=
      fun before inside => open' (op :: before) (List.cons_prefix_cons.2 ⟨rfl, inside⟩)
    have ends := step_continues sound draft first
    rw [run_cons, pushed]
    cases result : b.apply op with
    | mk answer b' =>
      rw [result] at busy sound' open''
      cases answer with
      | ok answer =>
        have next := ends.of_ok (run_of_apply_ok result) busy
        dsimp only
        rw [← List.append_assoc]
        exact ih sound' next later open''
      | error e =>
        simp only [Ends, run_of_apply_error result] at ends
        exact ih sound' (ends busy) later open''

theorem run_advances (sound : b.Sound) (ops : List Operation) (stays : ∀ op ∈ ops, op ≠ .reset) :
    Advances b (b.run ops) := by
  induction ops generalizing b with
  | nil => exact .refl sound
  | cons op rest ih =>
    obtain ⟨first, later⟩ := List.forall_mem_cons.1 stays
    have step := apply_advances sound op first
    exact step.trans (ih step.sound later)

/-- What was pushed between a vector's begin and its end is what the vector holds, in order and right behind its
count, whatever else was called in between but a loose scalar, and whatever is called later. -/
theorem vector_holds_pushed (reachable : b.Reachable) {alignment : Nat} {opened : Builder}
    (started : b.apply (.startVector length size alignment) = (.ok .done, opened))
    {ops : List Operation} (apart : ∀ op ∈ ops, ∀ v, op ≠ .pushScalar v)
    (stays : ∀ before, before <+: ops → (opened.run before).InVector)
    {o : Ref .vector} {closed : Builder}
    (ended : (opened.run ops).apply .endVector = (.ok (.object .vector o), closed))
    {later : List Operation} (remembers : ∀ op ∈ later, op ≠ .reset) :
    (opened.pushed ops).length = length ∧
      VectorStored (closed.run later).settled o.distance size (opened.pushed ops) := by
  have begun : Ends (Operation.startVector length size alignment).step b
      (fun _ b' => Advances b b' ∧ VectorDraft b' length size []) (fun _ _ => True) := by
    rw [Operation.step, ends_bind]
    exact vector_begun reachable.sound
  obtain ⟨advances, draft⟩ := begun.of_ok (run_of_apply_ok started)
  have draft := run_continues advances.sound draft ops apart stays
  have sound := run_sound advances.sound ops
  rw [List.nil_append] at draft
  have closes : Ends Operation.endVector.step (opened.run ops)
      (fun answer b' => Advances (opened.run ops) b' ∧ ∀ ref, answer = .object .vector ref →
        (opened.pushed ops).length = length ∧
          VectorStored b'.settled ref.distance size (opened.pushed ops)) (fun _ _ => True) := by
    rw [Operation.step, ends_map]
    refine ((endVector_ends sound.region).and (safe_endVector _ sound)).mono
      (fun ref b' both => ⟨both.2, fun ref' same => ?_⟩) fun _ _ _ => trivial
    obtain ⟨⟨n, size', first, gap, stage, here, adds, tight⟩, advances⟩ := both
    cases same
    rw [advances.sound.settled_idle adds.stage, here]
    obtain ⟨full, -, stored⟩ := vector_closed sound draft stage adds tight
    exact ⟨full, stored⟩
  obtain ⟨advances, stored⟩ := closes.of_ok (run_of_apply_ok ended)
  obtain ⟨full, stored⟩ := stored o rfl
  exact ⟨full, stored.of_suffix (run_advances advances.sound later remembers).kept⟩

/-- Two references to a text. What is called between them is refused. -/
def twoWords : List Operation := [
  .pushRef .text ⟨8⟩, .createText "b", .pushElement (.uint8 1), .pushRef .text ⟨8⟩]

def twoWordsOpened (config : Config) : Builder :=
  (((ofConfig config).run [.createText "a"]).apply (.startVector 2 4 4)).2

def twoWordsClosed (config : Config) : Builder :=
  (((twoWordsOpened config).run twoWords).apply .endVector).2

theorem twoWords_held :
    (twoWordsOpened {}).pushed twoWords = [.ref .text 8, .ref .text 8] ∧
    VectorStored ((twoWordsClosed {}).run [.startRecord]).settled 20 4 ((twoWordsOpened {}).pushed twoWords) :=
  have apart : ∀ op ∈ twoWords, ∀ v, op ≠ .pushScalar v := by simp [twoWords]
  have stays : ∀ before, before <+: twoWords → ((twoWordsOpened {}).run before).InVector := by
    simp only [← List.mem_inits]
    decide +kernel
  have later : ∀ op ∈ ([.startRecord] : List Operation), op ≠ .reset := by decide
  have reachable : ((ofConfig {}).run [.createText "a"]).Reachable := ⟨{}, _, rfl⟩
  have ended : (((twoWordsOpened {}).run twoWords).apply .endVector).1 = .ok (.object .vector ⟨20⟩) := by
    decide +kernel
  ⟨by decide +kernel, (vector_holds_pushed reachable (Prod.ext (by decide +kernel) rfl) apart stays
    (Prod.ext ended rfl) later).2⟩

/-- A scalar that is written behind a vector's back. -/
def looseScalar : List Operation := [.pushElement (.uint8 7), .pushScalar (.uint32 9)]

def looseScalarOpened (config : Config) : Builder := ((ofConfig config).apply (.startVector 1 1 1)).2

def looseScalarClosed (config : Config) : Builder :=
  (((looseScalarOpened config).run looseScalar).apply .endVector).2

/-- The scalar stands where the element should be, although every call succeeds. -/
theorem looseScalar_intrudes :
    ((ofConfig {}).apply (.startVector 1 1 1)).1 = .ok .done ∧
    (∀ before, before <+: looseScalar → ((looseScalarOpened {}).run before).InVector) ∧
    (((looseScalarOpened {}).run looseScalar).apply .endVector).1 = .ok (.object .vector ⟨12⟩) ∧
    (looseScalarOpened {}).pushed looseScalar = [.own [7]] ∧
    Holds (looseScalarClosed {}).settled 12 [1, 0, 0, 0, 9] ∧
    ¬VectorStored (looseScalarClosed {}).settled 12 1 ((looseScalarOpened {}).pushed looseScalar) := by
  have written : (looseScalarClosed {}).settled = [1, 0, 0, 0, 9, 0, 0, 0, 7, 0, 0, 0] := by
    decide +kernel
  have filled : (looseScalarOpened {}).pushed looseScalar = [.own [7]] := by decide +kernel
  refine ⟨by decide +kernel, ?_, by decide +kernel, filled, ?_, fun stored => ?_⟩
  · simp only [← List.mem_inits]
    decide +kernel
  · rw [written]
    exact ⟨[], [0, 0, 0, 7, 0, 0, 0], rfl, rfl⟩
  · rw [filled, written] at stored
    exact absurd (stored.element 0 (.own [7]) rfl).holds.found (by decide)

end FlatRecord.Builder
