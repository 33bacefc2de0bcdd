import FlatRecord.Proofs.Builder.Lifecycle

/-! The slots of a record while it is open. A slot that holds a field is refused ever after, whatever is to be
added to it; a scalar that is left out for its default holds no slot. -/
namespace FlatRecord.Builder

open Build

/-- The slot that an operation adds a field to. -/
def Operation.slot? : Operation → Option Nat
  | .addField slot _ _ | .addRequiredField slot _ | .addStructField slot _ _ | .addRefField slot _ _ =>
    some slot
  | _ => none

/-- The operation is a field's, and the field is left out because it equals its default. -/
def leavesOut (b : Builder) : Operation → Bool
  | .addField _ value default => b.elides value default
  | _ => false

/-- The slot that an operation fills when it succeeds. -/
def filledBy (b : Builder) (op : Operation) : List Nat :=
  if b.leavesOut op then [] else op.slot?.toList

/-- The slots that a run fills. What fails fills nothing, and neither does what is left out. -/
def filledSlots (b : Builder) : List Operation → List Nat
  | [] => []
  | op :: rest =>
    match b.apply op with
    | (.ok _, b') => b.filledBy op ++ b'.filledSlots rest
    | (.error _, b') => b'.filledSlots rest

/-- The slots of the open record that hold a field. -/
def openSlots (b : Builder) : List Nat :=
  match b.stage with
  | .record _ fields => fields.map (·.slot)
  | .idle | .vector .. | .finished => []

variable {b b' : Builder} {slot start : Nat} {fields : List Field}

theorem openSlots_of_stage (stage : b.stage = .record start fields) :
    b.openSlots = fields.map (·.slot) := by rw [openSlots, stage]

theorem openSlots_congr (same : b'.stage = b.stage) : b'.openSlots = b.openSlots := by
  rw [openSlots, openSlots, same]

theorem Littered.openSlots (littered : Littered b b') : b'.openSlots = b.openSlots :=
  let ⟨_, adds⟩ := littered
  openSlots_congr adds.stage

theorem Added.openSlots {bytes : List UInt8} (added : Added b slot bytes b') :
    b'.openSlots = slot :: b.openSlots := by
  obtain ⟨start, fields, b₁, gap, stage, _, _, _, rfl⟩ := added
  rw [openSlots_of_stage stage]
  rfl

theorem stage_record (open' : b.phase = .record) : ∃ start fields, b.stage = .record start fields := by
  rw [phase] at open'
  cases stage : b.stage with
  | record start fields => exact ⟨start, fields, rfl⟩
  | idle | vector | finished => rw [stage] at open'; cases open'

theorem openSlots_lt (sound : b.Sound) (filled : slot ∈ b.openSlots) : slot < slotLimit := by
  have fits := sound.fits
  rw [openSlots] at filled
  cases stage : b.stage with
  | record start fields =>
    rw [stage] at filled fits
    obtain ⟨f, mem, rfl⟩ := List.mem_map.1 filled
    exact (fits.2.1 f mem).2.2
  | idle | vector | finished => rw [stage] at filled; cases filled

/-- A field is added to its slot, or it is left out and nothing happens. -/
theorem add_ends (sound : b.RegionSound) {op : Operation} (adds : op.slot? = some slot) :
    Ends op.step b
      (fun _ b' => b.leavesOut op = true ∧ b' = b ∨
        b.leavesOut op = false ∧ ∃ bytes, Added b slot bytes b')
      (fun _ b' => Littered b b') := by
  cases op with
  | addField slot value default =>
    cases adds
    rw [Operation.step, ends_bind]
    exact (addField_ends sound slot value default).mono
      (fun _ _ done => done.imp id fun added => ⟨added.1, _, added.2⟩) fun _ _ bad => bad
  | addRequiredField slot value =>
    cases adds
    rw [Operation.step, ends_bind]
    exact (addRequiredField_ends sound slot value).mono (fun _ _ added => .inr ⟨rfl, _, added⟩)
      fun _ _ bad => bad
  | addStructField slot bytes alignment =>
    cases adds
    rw [Operation.step, ends_bind]
    exact (addStructField_ends sound slot bytes alignment).mono
      (fun _ _ added => .inr ⟨rfl, _, added⟩) fun _ _ bad => bad
  | addRefField slot kind child =>
    cases adds
    rw [Operation.step, ends_bind]
    exact (addRefField_ends sound slot child).mono (fun _ _ added => .inr ⟨rfl, _, added.2.2⟩)
      fun _ _ bad => bad
  | _ => cases adds

/-- In an open record nothing but fields, loose scalars, the end and a reset is in order. -/
theorem in_record {op : Operation} {next : Phase} (inOrder : Phase.record.next op = some next)
    (other : op.slot? = none) : op = .reset ∨ (∃ v, op = .pushScalar v) ∨ op = .endRecord := by
  cases op with
  | reset => exact .inl rfl
  | pushScalar v => exact .inr (.inl ⟨v, rfl⟩)
  | endRecord => exact .inr (.inr rfl)
  | addField | addRequiredField | addStructField | addRefField => cases other
  | _ => cases inOrder

/-- One operation, as long as the record stays open. -/
theorem step_fills (sound : b.Sound) (open' : b.phase = .record) (op : Operation) :
    Ends op.step b
      (fun _ b' => b'.phase = .record → ∀ slot,
        slot ∈ b'.openSlots ↔ slot ∈ b.filledBy op ∨ slot ∈ b.openSlots)
      (fun _ b' => b'.phase = .record → b'.openSlots = b.openSlots) := by
  cases adds : op.slot? with
  | some slot =>
    refine (add_ends sound.region adds).mono (fun _ b' done _ s => ?_) fun _ _ bad _ => bad.openSlots
    rcases done with ⟨out, rfl⟩ | ⟨written, bytes, added⟩
    · simp [filledBy, out]
    · simp [filledBy, written, adds, added.openSlots, eq_comm]
  | none =>
    have nothing : b.filledBy op = [] := by simp [filledBy, adds]
    simp only [nothing, List.not_mem_nil, false_or]
    have unchanged {b' : Builder} (same : b'.openSlots = b.openSlots) :
        b'.phase = .record → ∀ slot, slot ∈ b'.openSlots ↔ slot ∈ b.openSlots := by
      intro _ slot
      rw [same]
    cases next : b.phase.next op with
    | none =>
      obtain ⟨e, refused, -⟩ := refused_of_next_none sound next
      simp only [Ends, run_of_apply_error refused]
      exact fun _ => trivial
    | some phase =>
      rw [open'] at next
      rcases in_record next adds with rfl | ⟨v, rfl⟩ | rfl
      · exact fun idle => Phase.noConfusion idle
      · rw [Operation.step, ends_bind]
        refine (pushScalar_writes sound.region v).mono (fun _ _ done => ?_)
          fun _ _ bad _ => bad.openSlots
        obtain ⟨gap, adds⟩ := done
        exact unchanged adds.littered.openSlots
      · rw [Operation.step, ends_map]
        refine (endRecord_ends sound.region sound.fits sound.tables_written).mono
          (fun _ b' done again => ?_) fun _ _ bad _ => bad.openSlots
        obtain ⟨_, _, _, closed⟩ := done
        rw [Builder.phase, closed.stage] at again
        cases again

/-- Any operations, as long as the record stays open: its slots are those that were filled. -/
theorem run_fills (sound : b.Sound) (ops : List Operation)
    (stays : ∀ before, before <+: ops → (b.run before).phase = .record) (slot : Nat) :
    slot ∈ (b.run ops).openSlots ↔ slot ∈ b.filledSlots ops ∨ slot ∈ b.openSlots := by
  induction ops generalizing b with
  | nil => simp [run, filledSlots]
  | cons op rest ih =>
    have open' : b.phase = .record := stays [] (List.nil_prefix)
    have still : (b.apply op).2.phase = .record := stays [op] ⟨rest, rfl⟩
    have later : ∀ before, before <+: rest → ((b.apply op).2.run before).phase = .record :=
      fun before inside => stays (op :: before) (List.cons_prefix_cons.2 ⟨rfl, inside⟩)
    have rests := ih (apply_sound sound op) later
    have ends := step_fills sound open' op
    rw [run_cons, rests, filledSlots]
    cases result : b.apply op with
    | mk answer b' =>
      rw [result] at still
      cases answer with
      | ok answer =>
        have filled := ends.of_ok (run_of_apply_ok result) still slot
        rw [filled, List.mem_append, or_left_comm, or_assoc]
      | error e =>
        simp only [Ends, run_of_apply_error result] at ends
        simp only [ends still]

/-- A slot that holds a field is refused before anything else is looked at. -/
theorem checkSlot_filled (small : slot < slotLimit) (filled : slot ∈ b.openSlots) :
    (checkSlot slot).run b = .error (.duplicateField slot) b := by
  rw [openSlots] at filled
  rw [checkSlot, run_get]
  cases stage : b.stage with
  | record start fields =>
    rw [stage] at filled
    have taken : fields.any (·.slot == slot) = true := by
      obtain ⟨f, mem, same⟩ := List.mem_map.1 filled
      exact List.any_eq_true.2 ⟨f, mem, by simpa using same⟩
    dsimp only
    rw [if_neg (Nat.not_le.2 small), if_pos taken]
    rfl
  | idle | vector | finished => rw [stage] at filled; cases filled

theorem add_refused (sound : b.Sound) {op : Operation} (adds : op.slot? = some slot)
    (filled : slot ∈ b.openSlots) : b.apply op = (.error (.duplicateField slot), b) := by
  have writable : b.stage ≠ .finished := by
    intro finished
    rw [openSlots, finished] at filled
    cases filled
  have refused {x : Nat → Build Unit} :
      (do ensureWritable; x (← checkSlot slot) : Build Unit).run b = .error (.duplicateField slot) b := by
    rw [run_bind_ok (ensureWritable_run writable)]
    exact run_bind_error (checkSlot_filled (openSlots_lt sound filled) filled)
  rw [apply_eq]
  cases op with
  | addField slot value default => cases adds; exact congrArg outcome (run_bind_error refused)
  | addRequiredField slot value => cases adds; exact congrArg outcome (run_bind_error refused)
  | addStructField slot bytes alignment =>
    cases adds
    exact congrArg outcome (run_bind_error refused)
  | addRefField slot kind child => cases adds; exact congrArg outcome (run_bind_error refused)
  | _ => cases adds

/-- A free slot may be refused for its number, for what it refers to or for lack of room. -/
theorem add_fails (sound : b.Sound) (open' : b.phase = .record) {op : Operation}
    (adds : op.slot? = some slot) (free : slot ∉ b.openSlots) :
    Ends op.step b (fun _ _ => True) fun e _ => e.IsLimit ∨ e = .order .badReference := by
  obtain ⟨start, fields, stage⟩ := stage_record open'
  have writable : b.stage ≠ .finished := by rw [stage]; exact Stage.noConfusion
  have fresh : ¬fields.any (·.slot == slot) = true := by
    rw [openSlots_of_stage stage] at free
    simpa using free
  have checked {x : Nat → Build Unit}
      (rest : Ends (x start) b (fun _ _ => True) fun e _ => e.IsLimit ∨ e = .order .badReference) :
      Ends (do (do ensureWritable; x (← checkSlot slot)); return Answer.done) b (fun _ _ => True)
        fun e _ => e.IsLimit ∨ e = .order .badReference := by
    rw [ends_bind, ends_writable writable, ends_bind, checkSlot, ends_bind, ends_get, stage]
    dsimp only
    split
    next => exact .inl ⟨_, _, rfl⟩
    next => exact rest
  have noted {x : Build Unit} (writes : OnlyWrites x) :
      Ends (do x; noteField slot) b (fun _ _ => True) fun e _ => e.IsLimit ∨ e = .order .badReference := by
    rw [ends_bind]
    exact (writes b sound.region writable).mono (fun _ _ _ => trivial) fun _ _ limit => .inl limit
  cases op with
  | addField slot value default =>
    cases adds
    refine checked (x := fun _ => do
      if value.sameNumber default ∧ !(← get).config.forceDefaults then return
      Builder.pushScalar value
      noteField slot) ?_
    rw [ends_bind, ends_get]
    split
    next => trivial
    next => exact noted (onlyWrites_pushScalar value)
  | addRequiredField slot value =>
    cases adds
    exact checked (x := fun _ => do Builder.pushScalar value; noteField slot)
      (noted (onlyWrites_pushScalar value))
  | addStructField slot bytes alignment =>
    cases adds
    refine checked (x := fun _ => do
      align bytes.length alignment
      Builder.write bytes
      noteField slot) ?_
    have writes : OnlyWrites (do align bytes.length alignment; Builder.write bytes) :=
      onlyWrites_bind (onlyWrites_align _ _) fun _ => onlyWrites_write bytes
    simpa only [bind_assoc] using noted writes
  | addRefField slot kind child =>
    cases adds
    refine checked (x := fun start => do
      checkRef child.distance start
      pushOffset child.distance
      noteField slot) ?_
    rw [ends_bind]
    refine (checkRef_ends _ _).mono (fun _ b₁ good => ?_) fun _ _ bad => .inr bad.1
    obtain ⟨rfl, -⟩ := good
    exact noted (onlyWrites_pushOffset _)
  | _ => cases adds

/-- While a record is open, a slot is refused as a duplicate if and only if it was filled since the record began,
whichever operation filled it, whichever one asks, and whatever the values, their defaults and the
configuration are. A refusal changes nothing. -/
theorem slot_refused_iff_filled (reachable : b.Reachable) {opened : Builder}
    (started : b.apply .startRecord = (.ok .done, opened)) {ops : List Operation}
    (stays : ∀ before, before <+: ops → (opened.run before).phase = .record) {op : Operation}
    (adds : op.slot? = some slot) :
    slot ∈ opened.filledSlots ops ↔
      (opened.run ops).apply op = (.error (.duplicateField slot), opened.run ops) := by
  have begun : Ends Operation.startRecord.step b (fun _ b' => b'.openSlots = []) fun _ _ => True := by
    rw [Operation.step, ends_bind]
    refine startRecord_ends.mono (fun _ b' done => ?_) fun _ _ _ => trivial
    rw [done.2]
    rfl
  have sound : opened.Sound := by
    have after := apply_sound reachable.sound .startRecord
    rwa [started] at after
  have slots := run_fills sound ops stays slot
  rw [begun.of_ok (run_of_apply_ok started)] at slots
  simp only [List.not_mem_nil, or_false] at slots
  rw [← slots]
  constructor
  · exact add_refused (run_sound sound ops) adds
  · intro refused
    by_contra free
    have ends := add_fails (run_sound sound ops) (stays ops (List.prefix_refl ops)) adds free
    simp only [Ends, run_of_apply_error refused] at ends
    rcases ends with ⟨requested, limit, same⟩ | same <;> cases same

/-- A number that equals its default, but has to be there, and then a reference that leads nowhere. -/
def requiredZero : List Operation := [.addRequiredField 3 (.uint32 0), .pushScalar (.uint8 1)]

theorem requiredZero_refused :
    3 ∈ ((ofConfig {}).apply .startRecord).2.filledSlots requiredZero ∧
    (((ofConfig {}).apply .startRecord).2.run requiredZero).apply (.addRefField 3 .text ⟨0⟩) =
      (.error (.duplicateField 3), ((ofConfig {}).apply .startRecord).2.run requiredZero) :=
  have filled : 3 ∈ ((ofConfig {}).apply .startRecord).2.filledSlots requiredZero := by decide +kernel
  have stays : ∀ before, before <+: requiredZero →
      (((ofConfig {}).apply .startRecord).2.run before).phase = .record := by
    simp only [← List.mem_inits]
    decide +kernel
  ⟨filled, (slot_refused_iff_filled (b := ofConfig {}) ⟨{}, [], rfl⟩ (Prod.ext (by decide +kernel) rfl)
    stays rfl).1 filled⟩

/-- A scalar that is left out leaves its slot free for another one. -/
theorem defaultZero_accepted_twice :
    ((ofConfig {}).apply .startRecord).1 = .ok .done ∧
    (((ofConfig {}).run [.startRecord]).apply (.addField 3 (.uint32 0) (.uint32 0))).1 = .ok .done ∧
    ((ofConfig {}).run [.startRecord, .addField 3 (.uint32 0) (.uint32 0)]).phase = .record ∧
    (((ofConfig {}).run [.startRecord, .addField 3 (.uint32 0) (.uint32 0)]).apply
      (.addField 3 (.uint32 1) (.uint32 0))).1 = .ok .done := by
  decide +kernel

end FlatRecord.Builder
