import FlatRecord.Proofs.Builder.Lifecycle

/-! Which references an operation accepts. The builder keeps no list of its objects: a reference is accepted by
its distance, which must lead to what was written before the open object began. -/
namespace FlatRecord.Builder

open Build

/-- Something was written at that distance before the open object began. -/
def InReach (b : Builder) (distance : Nat) : Prop := 0 < distance ∧ distance ≤ b.floor

instance (b : Builder) (distance : Nat) : Decidable (b.InReach distance) :=
  inferInstanceAs (Decidable (_ ∧ _))

/-- The references at hand after a run, if these were at hand before. A reset takes them all away. -/
def atHand (given : List (ObjectKind × Nat)) (b : Builder) : List Operation → List (ObjectKind × Nat)
  | [] => given
  | op :: rest => atHand (handedOut given b op) (b.apply op).2 rest

variable {b b' : Builder}

/-- What is true of an object as soon as it is made, and from then on. -/
structure Lasting (Q : Builder → ObjectKind × Nat → Prop) : Prop where
  lasts : ∀ {b b' : Builder} {r : ObjectKind × Nat}, b.Sound → Advances b b' → Q b r → Q b' r
  text : ∀ {b : Builder} (bytes : List UInt8), b.Sound →
    Ends (createUnchecked bytes) b (fun ref b' => Q b' (.text, ref.distance)) fun _ _ => True
  vector : ∀ {b : Builder}, b.Sound →
    Ends endVector b (fun ref b' => Q b' (.vector, ref.distance)) fun _ _ => True
  record : ∀ {b : Builder}, b.Sound →
    Ends endRecord b (fun ref b' => Q b' (.record, ref.distance)) fun _ _ => True

/-- A step that leads from one sound builder to another, and then one that ends as is wanted. -/
theorem safe_then {x : Build α} {f : α → Build β} {ok : β → Builder → Prop} (sound : b.Sound)
    (safe : Safe x) (rest : ∀ a b', b'.Sound → Ends (f a) b' ok fun _ _ => True) :
    Ends (x >>= f) b ok fun _ _ => True := by
  rw [ends_bind]
  exact (safe b sound).mono (fun a b' advances => rest a b' advances.sound) fun _ _ _ => trivial

namespace Lasting

variable {given : List (ObjectKind × Nat)} {Q : Builder → ObjectKind × Nat → Prop}
  (lasting : Lasting Q)

include lasting

theorem whole_vector {items : List α} {step : α → Build PUnit} (sound : b.Sound)
    (length size alignment : Nat) (safe : ∀ item, Safe (step item)) :
    Ends (do startVector length size alignment; items.forM step; endVector) b
      (fun ref b' => Q b' (.vector, ref.distance)) fun _ _ => True :=
  safe_then sound (safe_startVector _ _ _) fun _ _ sound =>
    safe_then sound (safe_forM safe) fun _ _ sound => lasting.vector sound

/-- It is true of what an operation hands out. -/
theorem made (sound : b.Sound) (op : Operation) :
    Ends op.step b (fun answer b' => ∀ kind (ref : Ref kind), answer = .object kind ref →
      Q b' (kind, ref.distance)) fun _ _ => True := by
  have silent {x : Build Unit} : Ends (do x; return Answer.done) b
      (fun answer b' => ∀ kind (ref : Ref kind), answer = .object kind ref →
        Q b' (kind, ref.distance)) fun _ _ => True := by
    rw [ends_bind]
    exact (ends_trivial x).mono (fun _ _ _ _ _ same => Answer.noConfusion same) fun _ _ _ => trivial
  have object {kind : ObjectKind} {x : Build (Ref kind)}
      (ends : Ends x b (fun ref b' => Q b' (kind, ref.distance)) fun _ _ => True) :
      Ends (.object kind <$> x : Build Answer) b
        (fun answer b' => ∀ kind (ref : Ref kind), answer = .object kind ref →
          Q b' (kind, ref.distance)) fun _ _ => True := by
    rw [ends_map]
    refine ends.mono (fun ref b' holds kind' ref' same => ?_) fun _ _ _ => trivial
    cases same
    exact holds
  cases op with
  | createText text => exact object (lasting.text _ sound)
  | createBytes bytes =>
    refine object ?_
    rw [createBytes, ends_bind, ends_get]
    split
    · trivial
    · exact lasting.text _ sound
  | endVector => exact object (lasting.vector sound)
  | createVector type items =>
    exact object (lasting.whole_vector sound _ _ _ fun _ => safe_pushBytesElement _)
  | createRefVector kind items => exact object (lasting.whole_vector sound _ _ _ safe_pushRef)
  | createTextVector items =>
    exact object (safe_then sound (safe_mapM safe_createText) fun _ _ sound =>
      lasting.whole_vector sound _ _ _ safe_pushRef)
  | endRecord => exact object (lasting.record sound)
  | finish root identifier sizePrefixed =>
    rw [Operation.step, ends_map]
    exact (ends_trivial _).mono (fun _ _ _ _ _ same => Answer.noConfusion same) fun _ _ _ => trivial
  | _ => exact silent

theorem handedOut (sound : b.Sound) (holds : ∀ r ∈ given, Q b r) (op : Operation) :
    ∀ r ∈ handedOut given b op, Q (b.apply op).2 r := by
  intro r mem
  rw [Builder.handedOut] at mem
  split at mem
  · cases mem
  next stays =>
    have older (known : r ∈ given) : Q (b.apply op).2 r :=
      lasting.lasts sound (apply_advances sound op stays) (holds r known)
    split at mem
    next kind ref answered =>
      rcases List.mem_cons.1 mem with rfl | known
      · exact (lasting.made sound op).of_ok (run_of_apply_ok (Prod.ext answered rfl)) kind ref rfl
      · exact older known
    next => exact older mem

/-- It is true of all objects that are at hand. -/
theorem atHand (sound : b.Sound) (holds : ∀ r ∈ given, Q b r) (ops : List Operation) :
    ∀ r ∈ atHand given b ops, Q (b.run ops) r := by
  induction ops generalizing b given with
  | nil => exact holds
  | cons op rest ih =>
    exact ih (apply_sound sound op) (lasting.handedOut sound holds op)

end Lasting

theorem text_inReach {bytes : List UInt8} (sound : b.Sound) :
    Ends (createUnchecked bytes) b (fun ref b' => b'.InReach ref.distance) fun _ _ => True := by
  refine (createUnchecked_ends sound.region bytes).mono (fun ref b' done => ?_) fun _ _ _ => trivial
  obtain ⟨idle, -, here, gap, -, adds⟩ := done
  have used := adds.used sound.region
  rw [List.length_append, textBytes, List.length_append, LittleEndian.length_encode] at used
  rw [InReach, floor_idle (adds.stage.trans idle), here]
  simp only [offsetSize] at used
  omega

theorem endVector_inReach (sound : b.RegionSound) :
    Ends endVector b (fun ref b' => b'.InReach ref.distance) fun _ _ => True := by
  refine (endVector_ends sound).mono (fun ref b' done => ?_) fun _ _ _ => trivial
  obtain ⟨length, size, first, gap, -, here, adds, -⟩ := done
  have used := adds.used (sound.withStage .idle)
  rw [List.length_append, Scalar.length_toBytes] at used
  rw [InReach, floor_idle adds.stage, here]
  simp only [Scalar.size, Scalar.type, ScalarType.size] at used
  omega

theorem endRecord_inReach (sound : b.Sound) :
    Ends endRecord b (fun ref b' => b'.InReach ref.distance) fun _ _ => True := by
  refine (endRecord_ends sound.region sound.fits sound.tables_written).mono (fun ref b' done => ?_)
    fun _ _ _ => trivial
  obtain ⟨_, _, -, closed⟩ := done
  have behind := closed.behind
  rw [InReach, floor_idle closed.stage]
  simp only [offsetSize] at behind
  exact ⟨by omega, closed.inside⟩

/-- What is at hand can be referred to. -/
theorem lasting_inReach : Lasting fun b r => b.InReach r.2 where
  lasts sound advances inReach := ⟨inReach.1, Nat.le_trans inReach.2 (advances.floor_le sound)⟩
  text _ sound := text_inReach sound
  vector sound := endVector_inReach sound.region
  record sound := endRecord_inReach sound

/-- What an operation may find wrong, at the right moment, before it looks at the reference. -/
def Operation.Complains : Operation → Error → Prop
  | .addRefField slot _ _, e => e = .duplicateField slot ∨ slotLimit ≤ slot ∧ e.IsLimit
  | _, _ => False

/-- The step succeeds only with a reference in reach. It fails before it has changed anything, or by the size
limit after the reference was found good. -/
def Judges (x : Build α) (b : Builder) (distance : Nat) (complains : Error → Prop) : Prop :=
  Ends x b (fun _ _ => b.InReach distance) fun e b' =>
    b' = b ∧ (e = .order .badReference ∧ ¬b.InReach distance ∨ e.IsUntimely ∨ complains e) ∨
      b.InReach distance ∧ e.IsLimit

section Judging

variable {distance : Nat} {complains : Error → Prop}

theorem judges_after {x : Build β} {f : β → Build α} {P : β → Prop}
    (check : Ends x b (fun a b' => b' = b ∧ P a)
      fun e b' => b' = b ∧ (e.IsUntimely ∨ complains e))
    (rest : ∀ a, P a → Judges (f a) b distance complains) : Judges (x >>= f) b distance complains := by
  rw [Judges, ends_bind]
  refine check.mono (fun a b₁ done => ?_) fun e b₁ bad => .inl ⟨bad.1, .inr bad.2⟩
  obtain ⟨rfl, holds⟩ := done
  exact rest a holds

theorem judges_map {x : Build α} (f : α → β) (judges : Judges x b distance complains) :
    Judges (f <$> x) b distance complains := by
  rw [Judges, ends_map]
  exact judges

theorem judges_done {x : Build α} {answer : β} (judges : Judges x b distance complains) :
    Judges (do let _ ← x; return answer) b distance complains := by
  rw [Judges, ends_bind]
  exact judges

theorem ensureWritable_judges {x : Build α} (rest : Judges x b distance complains) :
    Judges (do ensureWritable; x) b distance complains := by
  refine judges_after (P := fun _ => True) (ensureWritable_ends.mono (fun _ _ done => ⟨done.1, trivial⟩)
    fun e _ stop => ⟨stop.2.1, .inl ⟨_, stop.1, rfl⟩⟩) fun _ _ => rest

/-- The reference is compared with where the open object began. -/
theorem checkRef_judges {x : Build α} {limit : Nat} (floor : limit = b.floor)
    (rest : Ends x b (fun _ _ => True) fun e _ => e.IsLimit) :
    Judges (do checkRef distance limit; x) b distance complains := by
  subst floor
  rw [Judges, ends_bind, checkRef]
  split
  next bad =>
    refine .inl ⟨rfl, .inl ⟨rfl, ?_⟩⟩
    rintro ⟨positive, below⟩
    omega
  next good =>
    have inReach : b.InReach distance := by rw [InReach]; omega
    exact rest.mono (fun _ _ _ => inReach) fun _ _ limit => .inr ⟨inReach, limit⟩

theorem nextPlaces_untimely (size : Nat) :
    Ends (nextPlaces size) b (fun _ _ => True) fun e _ => e.IsUntimely := by
  rw [nextPlaces, ends_bind, ends_get]
  cases b.stage with
  | vector length pushed elementSize first =>
    dsimp only
    split
    next => exact ⟨_, rfl, rfl⟩
    next =>
      split
      next => exact ⟨_, rfl, rfl⟩
      next => trivial
  | idle | record | finished => exact ⟨_, rfl, rfl⟩

theorem checkSlot_complains (slot : Nat) {kind : ObjectKind} (child : Ref kind) :
    Ends (checkSlot slot) b (fun _ _ => True)
      fun e _ => e.IsUntimely ∨ (Operation.addRefField slot kind child).Complains e := by
  rw [checkSlot, ends_bind, ends_get]
  cases b.stage with
  | record start fields =>
    dsimp only
    split
    next large => exact .inr (.inr ⟨large, _, _, rfl⟩)
    next =>
      split
      next => exact .inr (.inl rfl)
      next => trivial
  | idle | vector | finished => exact .inl ⟨_, rfl, rfl⟩

theorem pushRef_judges (sound : b.Sound) {kind : ObjectKind} (child : Ref kind) :
    Judges (pushRef child) b child.distance complains := by
  rw [pushRef_eq]
  apply ensureWritable_judges
  refine judges_after (((nextPlaces_ends offsetSize).and (nextPlaces_untimely offsetSize)).mono
    (fun _ _ done => done.1) fun _ _ bad => ⟨bad.1, .inl bad.2⟩) fun places found => ?_
  obtain ⟨length, pushed, first, stage, more, rfl⟩ := found
  have fits := sound.fits
  rw [stage] at fits
  have size := LittleEndian.length_encode offsetSize (first - pushed * offsetSize - child.distance)
  have fill := fillElement_ends sound.region (LittleEndian.encode offsetSize
    (first - pushed * offsetSize - child.distance)) (by rw [size]; exact stage) more
    (by rw [size]; exact fits.2.1) fits.2.2
  rw [size] at fill
  refine checkRef_judges ?_ (fill.mono (fun _ _ _ => trivial) fun _ _ never => never.elim)
  rw [floor, stage]

theorem addRefField_judges (sound : b.RegionSound) (slot : Nat) {kind : ObjectKind}
    (child : Ref kind) :
    Judges (addRefField slot child) b child.distance
      (Operation.addRefField slot kind child).Complains := by
  apply ensureWritable_judges
  refine judges_after (((checkSlot_ends slot).and (checkSlot_complains slot child)).mono
    (fun _ _ done => done.1) fun _ _ bad => bad) fun start found => ?_
  obtain ⟨fields, stage, -⟩ := found
  have writable : b.stage ≠ .finished := by rw [stage]; exact Stage.noConfusion
  refine checkRef_judges (by rw [floor, stage]) ?_
  rw [ends_bind]
  refine (onlyWrites_pushOffset _ b sound writable).mono (fun _ _ _ => ?_) fun _ _ limit => limit
  rw [noteField, ends_modify]
  trivial

theorem finish_judges (sound : b.RegionSound) (root : Ref .record) (identifier : Option Identifier)
    (sizePrefixed : Bool) :
    Judges (finish root identifier sizePrefixed) b root.distance complains := by
  apply ensureWritable_judges
  rw [Judges, ends_bind, ends_get]
  dsimp only
  split
  next => exact .inl ⟨rfl, .inr (.inl ⟨_, rfl, rfl⟩)⟩
  next idle =>
    have idle : b.stage = .idle := by simpa using idle
    rw [ends_bind, ends_get]
    refine checkRef_judges (floor_idle idle).symm ?_
    exact (finish_lands root identifier sizePrefixed b sound idle).mono (fun _ _ _ => trivial)
      fun _ _ limit => limit

/-- A root that is in reach is finished, unless the size limit stops it. -/
theorem finish_limited (sound : b.RegionSound) (idle : b.stage = .idle) {root : Ref .record}
    (inReach : b.InReach root.distance) (identifier : Option Identifier) (sizePrefixed : Bool) :
    Ends (finish root identifier sizePrefixed) b (fun _ _ => True) fun e _ => e.IsLimit := by
  have abides := finish_abides sound root identifier sizePrefixed
  rw [phase, idle, Stage.phase, Phase.moves_self] at abides
  have judges : Judges (finish root identifier sizePrefixed) b root.distance fun _ => False :=
    finish_judges sound root identifier sizePrefixed
  refine (Ends.and abides judges).mono (fun _ _ _ => trivial) fun e b' bad => ?_
  obtain ⟨declined, ⟨-, wrong⟩ | ⟨-, limit⟩⟩ := bad
  · rcases wrong with ⟨-, outside⟩ | untimely | never
    · exact absurd inReach outside
    · exact absurd untimely declined.not_untimely
    · exact never.elim
  · exact limit

/-- How an operation judges its reference. -/
theorem single_judges (sound : b.Sound) {op : Operation} (single : op.isSingle = true)
    {r : ObjectKind × Nat} (given : r ∈ op.refs) : Judges op.step b r.2 op.Complains := by
  cases op with
  | pushRef kind child =>
    rw [List.mem_singleton.1 given]
    exact judges_done (pushRef_judges sound child)
  | addRefField slot kind child =>
    rw [List.mem_singleton.1 given]
    exact judges_done (addRefField_judges sound.region slot child)
  | finish root identifier sizePrefixed =>
    rw [List.mem_singleton.1 given]
    exact judges_map _ (finish_judges sound.region root identifier sizePrefixed)
  | createRefVector => cases single
  | _ => cases given

end Judging

/-- A reference is judged by its distance alone. What is out of reach is refused, with nothing changed; what is
in reach is never called a bad reference, whoever handed it out; and what the builder has handed out since it
was made or reset is in reach. -/
theorem references_judged (config : Config) (ops : List Operation) (op : Operation)
    (single : op.isSingle = true) {r : ObjectKind × Nat} (given : r ∈ op.refs) :
    (∀ answer b', ((ofConfig config).run ops).apply op = (.ok answer, b') →
      ((ofConfig config).run ops).InReach r.2) ∧
    (¬((ofConfig config).run ops).InReach r.2 →
      ∃ e, ((ofConfig config).run ops).apply op = (.error e, (ofConfig config).run ops) ∧
        ((∃ misuse, e = .order misuse) ∨ op.Complains e)) ∧
    (((ofConfig config).run ops).InReach r.2 →
      (((ofConfig config).run ops).apply op).1 ≠ .error (.order .badReference)) ∧
    (r ∈ atHand [] (ofConfig config) ops → ((ofConfig config).run ops).InReach r.2) := by
  have judges := single_judges (run_sound (ofConfig_sound config) ops) single given
  have inReach := lasting_inReach.atHand (ofConfig_sound config) (List.forall_mem_nil _) ops r
  generalize (ofConfig config).run ops = b at judges inReach ⊢
  refine ⟨fun answer b' done => judges.of_ok (run_of_apply_ok done), ?_⟩
  simp only [Judges, Ends] at judges
  unfold apply
  cases result : op.step.run b with
  | ok answer b' =>
    rw [result] at judges
    refine ⟨fun outside => absurd judges outside, fun _ same => ?_, inReach⟩
    cases same
  | error e b' =>
    rw [result] at judges
    refine ⟨fun outside => ?_, fun inside => ?_, inReach⟩
    · rcases judges with ⟨rfl, wrong⟩ | ⟨inside, -⟩
      · refine ⟨e, rfl, ?_⟩
        rcases wrong with ⟨bad, -⟩ | ⟨misuse, order, -⟩ | complains
        · exact .inl ⟨_, bad⟩
        · exact .inl ⟨misuse, order⟩
        · exact .inr complains
      · exact absurd inside outside
    · intro same
      cases same
      rcases judges with ⟨rfl, wrong⟩ | ⟨-, _, _, limit⟩
      · rcases wrong with ⟨-, outside⟩ | ⟨misuse, order, untimely⟩ | complains
        · exact outside inside
        · cases order
          cases untimely
        · cases op <;> simp [Operation.Complains, Error.IsLimit] at complains
      · cases limit

/-- A text, and a record that is open behind it. -/
def textAndRecord : List Operation := [.createText "a", .startRecord]

theorem textAndRecord_judged :
    (∃ e, ((ofConfig {}).run textAndRecord).apply (.addRefField 0 .text ⟨12⟩) =
        (.error e, (ofConfig {}).run textAndRecord) ∧
      ((∃ misuse, e = .order misuse) ∨ (Operation.addRefField 0 .text ⟨12⟩).Complains e)) ∧
    ((ofConfig {}).run textAndRecord).InReach 8 := by
  have beyond := references_judged {} textAndRecord (.addRefField 0 .text ⟨12⟩) rfl
    (r := (.text, 12)) (by decide)
  have own := references_judged {} textAndRecord (.addRefField 0 .text ⟨8⟩) rfl
    (r := (.text, 8)) (by decide)
  exact ⟨beyond.2.1 (by decide +kernel), own.2.2.2 (by decide +kernel)⟩

/-- A text that a reset has taken away, and another one that is longer. -/
def forgottenText : List Operation := [
  .createText "a", .reset, .createText "bcdefgh", .startRecord]

/-- The reference from before the reset leads into the middle of the other text, and is accepted. -/
theorem forgottenText_accepted :
    ((ofConfig {}).apply (.createText "a")).1 = .ok (.object .text ⟨8⟩) ∧
    atHand [] (ofConfig {}) forgottenText = [(.text, 12)] ∧
    (((ofConfig {}).run forgottenText).apply (.addRefField 0 .text ⟨8⟩)).1 = .ok .done := by
  decide +kernel

end FlatRecord.Builder
