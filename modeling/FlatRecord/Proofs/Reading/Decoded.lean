import FlatRecord.Proofs.Reading.Verified

/-! What can be decoded passes verification, as far as values stand where they should. The verifier makes only
steps that the decoder makes too, and counts no more. -/
namespace FlatRecord

open Reading Decoding Verification

/-- Wherever `x` passes, `y` passes from any count as small, and to one as small. -/
def Covers (x : Counted α) (y : Counted Unit) : Prop :=
  ∀ c a n, x.run c = .ok (a, n) → ∀ c' ≤ c, ∃ n' ≤ n, y.run c' = .ok ((), n')

section Walks

variable {x : Counted α} {y z : Counted Unit}

theorem covers_pure {a : α} : Covers (pure a) (pure ()) := by
  intro c a n run c' small
  cases run
  exact ⟨c', small, rfl⟩

theorem covers_bind {f : α → Counted β} (first : Covers x y) (second : ∀ a, Covers (f a) z) :
    Covers (x >>= f) (y >>= fun _ => z) := by
  intro c b n run c' small
  rw [StateT.run_bind] at run
  obtain ⟨⟨a, m⟩, run, later⟩ := bind_eq_ok.1 run
  obtain ⟨m', small, run'⟩ := first c a m run c' small
  obtain ⟨n', small, later'⟩ := second a m b n later m' small
  refine ⟨n', small, ?_⟩
  rw [StateT.run_bind, run']
  exact later'

/-- What comes after in `x` may do more. -/
theorem covers_then {f : α → Counted β} (first : Covers x y) (idle : ∀ a, Covers (f a) (pure ())) :
    Covers (x >>= f) y := by
  have both := covers_bind first idle
  rwa [bind_pure_unit] at both

/-- What comes before in `x` may do more. -/
theorem covers_after {f : α → Counted β} (idle : Covers x (pure ())) (later : ∀ a, Covers (f a) y) :
    Covers (x >>= f) y := by
  have both := covers_bind idle later
  rwa [pure_bind] at both

theorem covers_map {f : α → β} (covers : Covers x y) : Covers (f <$> x) y := by
  rw [map_eq_pure_bind]
  exact covers_then covers fun _ => covers_pure

theorem covers_read {e : Except Error α} {f : α → Counted β}
    (rest : ∀ a, e = .ok a → Covers (f a) y) : Covers (liftM e >>= f) y := by
  cases e with
  | ok a => exact rest a rfl
  | error e => exact fun _ _ _ run => nomatch run

/-- A step of both. -/
theorem covers_known {e : Except Error β} {b : β} {f : β → Counted Unit} (ok : e = .ok b)
    (rest : Covers x (f b)) : Covers x (liftM e >>= f) := by
  subst ok
  exact rest

theorem covers_charge {limits limits' : Limits} (same : limits.maxObjects = limits'.maxObjects)
    (e e' : Error) : Covers (Counted.charge limits e) (Counted.charge limits' e') := by
  intro c a n run c' small
  rw [Counted.run_charge] at run ⊢
  by_cases full : limits.maxObjects < c + 1
  · rw [if_pos full] at run
    cases run
  · rw [if_neg full] at run
    cases run
    rw [if_neg (by omega)]
    exact ⟨c' + 1, by omega, rfl⟩

theorem charge_idle (limits : Limits) (e : Error) : Covers (Counted.charge limits e) (pure ()) := by
  intro c a n run c' small
  rw [Counted.run_charge] at run
  split at run
  · cases run
  · cases run
    exact ⟨c', by omega, rfl⟩

theorem covers_mapM {items : List β} {f : β → Counted α} {g : β → Counted Unit}
    (each : ∀ item ∈ items, Covers (f item) (g item)) : Covers (items.mapM f) (items.forM g) := by
  induction items with
  | nil => exact covers_pure
  | cons item rest ih =>
    obtain ⟨here, later⟩ := List.forall_mem_cons.1 each
    rw [List.mapM_cons]
    exact covers_bind here fun _ => covers_then (ih later) fun _ => covers_pure

theorem mapM_idle {items : List β} {f : β → Counted α}
    (each : ∀ item ∈ items, Covers (f item) (pure ())) : Covers (items.mapM f) (pure ()) := by
  induction items with
  | nil => exact covers_pure
  | cons item rest ih =>
    obtain ⟨here, later⟩ := List.forall_mem_cons.1 each
    rw [List.mapM_cons]
    exact covers_after here fun _ => covers_then (ih later) fun _ => covers_pure

theorem covers_foldlM {items : List β} {f : α → β → Counted α} {g : β → Counted Unit} (a : α)
    (each : ∀ a, ∀ item ∈ items, Covers (f a item) (g item)) :
    Covers (items.foldlM f a) (items.forM g) := by
  induction items generalizing a with
  | nil => exact covers_pure
  | cons item rest ih =>
    rw [List.foldlM_cons]
    refine covers_bind (each a item List.mem_cons_self) fun a' => ih a' fun a item mem => ?_
    exact each a item (List.mem_cons_of_mem _ mem)

end Walks

section Visiting

variable {limits loose : Limits} {buf : Bytes} {schema : Schema} {t : Table} {f : RecordField}
variable {visit : Visit} {child : Child}

/-- Records pass wherever they were decoded. -/
def CoversVisits (schema : Schema) (child : Child) (visit : Visit) : Prop :=
  ∀ name t, Covers (child name t) (do visit (← schema.record name) t)

theorem aligned_ok (anywhere : loose.checkAlignment = false) (pos alignment : Nat) :
    aligned loose pos alignment = .ok () := by
  simp [aligned, anywhere]

theorem covers_aligned {x : Counted α} (anywhere : loose.checkAlignment = false)
    (idle : Covers x (pure ())) (pos alignment : Nat) :
    Covers x (liftM (aligned loose pos alignment)) := by
  rw [aligned_ok anywhere]
  exact idle

theorem visitText_ok (anywhere : loose.checkAlignment = false) {pos : Nat} {bytes : Bytes}
    (read : text buf pos = .ok bytes) : visitText buf loose pos = .ok () := by
  rw [visitText, aligned_ok anywhere, ok_bind, read]
  rfl

theorem offsetTarget_ok (anywhere : loose.checkAlignment = false) {slot : Nat} {place : Option Nat}
    (found : t.target buf slot = .ok place) : offsetTarget buf loose t slot = .ok place := by
  simp only [Table.target] at found
  simp only [offsetTarget]
  obtain ⟨position, here, found⟩ := bind_eq_ok.1 found
  rw [here, ok_bind]
  cases position with
  | none => exact found
  | some pos =>
    rw [Option.mapM_some] at found
    obtain ⟨p, followed, found⟩ := map_eq_ok found
    cases found
    simp only [aligned_ok anywhere, ok_bind, followed]
    rfl

theorem get_read {v : FieldVector} {index : Nat} {e : ElementView} (read : v.get buf index = .ok e) :
    v.element.read buf (v.start + index * v.element.inlineSize) = .ok e := by
  rw [FieldVector.get_eq] at read
  exact (check_eq_ok.1 read).2

theorem vector_covered (anywhere : loose.checkAlignment = false)
    (children : CoversVisits schema child visit) {pos : Nat} {element : ElementType} {v : FieldVector}
    (resolved : element.resolve schema = .ok v.element)
    (header : vectorHeader buf pos v.element.inlineSize = .ok (v.start, v.length)) :
    Covers (decodeVector buf limits child v)
      (visitVector buf schema loose visit pos element) := by
  obtain ⟨element', start, length⟩ := v
  refine covers_after (charge_idle _ _) fun _ => covers_then ?_ fun _ => covers_pure
  apply covers_known (aligned_ok anywhere pos offsetSize)
  cases element with
  | scalar type =>
    cases resolved
    refine covers_known header (covers_aligned anywhere (mapM_idle fun i _ => ?_) _ _)
    apply covers_read
    intro e read
    obtain ⟨bytes, -, read⟩ := bind_eq_ok.1 (get_read read)
    cases read
    exact covers_pure
  | struct name =>
    obtain ⟨type, known, resolved⟩ := map_eq_ok resolved
    cases resolved
    apply covers_known known
    refine covers_known header (covers_aligned anywhere (mapM_idle fun i _ => ?_) _ _)
    apply covers_read
    intro e read
    obtain ⟨bytes, -, read⟩ := bind_eq_ok.1 (get_read read)
    cases read
    exact covers_read fun r _ => covers_pure
  | text =>
    cases resolved
    refine covers_known header (covers_mapM fun i _ => ?_)
    apply covers_read
    intro e read
    obtain ⟨p, followed, read⟩ := bind_eq_ok.1 (get_read read)
    obtain ⟨bytes, text, read⟩ := bind_eq_ok.1 read
    cases read
    apply covers_known followed
    rw [visitText_ok anywhere text]
    exact covers_after (charge_idle _ _) fun _ => covers_pure
  | record name =>
    obtain ⟨type, known, resolved⟩ := map_eq_ok resolved
    cases resolved
    refine covers_known known (covers_known header (covers_mapM fun i _ => ?_))
    apply covers_read
    intro e read
    obtain ⟨p, followed, read⟩ := bind_eq_ok.1 (get_read read)
    obtain ⟨t, table, read⟩ := bind_eq_ok.1 read
    cases read
    refine covers_known followed (covers_known table ?_)
    have covered := children name t
    rw [known] at covered
    exact covers_then covered fun _ => covers_pure

/-- What is done at the place of an inline field asks only where the field is. -/
theorem inline_covered {x : Counted α} (anywhere : loose.checkAlignment = false)
    (idle : Covers x (pure ())) {slot size : Nat} {place : Option Nat}
    (found : t.fieldPosition buf slot size = .ok place) (alignment : Nat) :
    Covers x (do
      if let some pos ← t.fieldPosition buf slot size then aligned loose pos alignment) := by
  apply covers_known found
  cases place with
  | none => exact idle
  | some pos => exact covers_aligned anywhere idle pos alignment

variable {view : FieldView} {owner : Nat}

theorem scalarField_covered (anywhere : loose.checkAlignment = false) {type : ScalarType} {default : Scalar}
    (stored : schema.scalarOf f = .ok (type, default)) (read : t.field buf schema f = .ok view) :
    Covers (decodeField buf limits child owner view) (visitField buf schema loose visit t f) := by
  rw [Table.field_scalar stored] at read
  obtain ⟨place, found, read⟩ := bind_eq_ok.1 read
  have idle : Covers (decodeField buf limits child owner view) (pure ()) := by
    cases place with
    | none =>
      cases read
      exact covers_map covers_pure
    | some pos =>
      obtain ⟨bytes, -, read⟩ := bind_eq_ok.1 read
      cases read
      exact covers_map covers_pure
  rw [visitField]
  rcases scalarOf_type stored with ⟨_, kind⟩ | ⟨_, kind⟩
  all_goals
    simp only [kind]
    exact covers_known stored (inline_covered anywhere idle found _)

theorem structField_covered (anywhere : loose.checkAlignment = false) {name : String}
    (kind : f.type = .struct name) (read : t.field buf schema f = .ok view) :
    Covers (decodeField buf limits child owner view) (visitField buf schema loose visit t f) := by
  simp only [Table.field, kind] at read
  obtain ⟨type, known, read⟩ := bind_eq_ok.1 read
  obtain ⟨bytes, found, read⟩ := bind_eq_ok.1 read
  obtain ⟨place, found, sliced⟩ := bind_eq_ok.1 found
  have idle : Covers (decodeField buf limits child owner view) (pure ()) := by
    cases read
    cases bytes with
    | none => exact covers_pure
    | some bytes => exact covers_map (covers_read fun r _ => covers_pure)
  simp only [visitField, kind]
  exact covers_known known (inline_covered anywhere idle found _)

theorem textField_covered (anywhere : loose.checkAlignment = false) (kind : f.type = .text)
    (read : t.field buf schema f = .ok view) :
    Covers (decodeField buf limits child owner view) (visitField buf schema loose visit t f) := by
  simp only [Table.field, kind] at read
  obtain ⟨bytes?, texts, viewed⟩ := bind_eq_ok.1 read
  obtain ⟨place, found, texts⟩ := bind_eq_ok.1 texts
  simp only [visitField, kind]
  apply covers_known (offsetTarget_ok anywhere found)
  cases viewed
  cases place with
  | none =>
    cases texts
    exact covers_pure
  | some pos =>
    rw [Option.mapM_some] at texts
    obtain ⟨bytes, here, rfl⟩ := map_eq_ok texts
    dsimp only
    rw [visitText_ok anywhere here]
    exact covers_map (covers_after (charge_idle _ _) fun _ => covers_pure)

theorem recordField_covered (anywhere : loose.checkAlignment = false)
    (children : CoversVisits schema child visit) {name : String} (kind : f.type = .record name)
    (read : t.field buf schema f = .ok view) :
    Covers (decodeField buf limits child owner view) (visitField buf schema loose visit t f) := by
  simp only [Table.field, kind] at read
  obtain ⟨t?, records, viewed⟩ := bind_eq_ok.1 read
  obtain ⟨place, found, records⟩ := bind_eq_ok.1 records
  simp only [visitField, kind]
  apply covers_known (offsetTarget_ok anywhere found)
  cases viewed
  cases place with
  | none =>
    cases records
    exact covers_pure
  | some pos =>
    rw [Option.mapM_some] at records
    obtain ⟨t', here, rfl⟩ := map_eq_ok records
    refine covers_map (covers_then ?_ fun _ => covers_pure)
    have covered := children name t'
    dsimp only
    rw [here]
    exact covered

theorem vectorField_covered (anywhere : loose.checkAlignment = false)
    (children : CoversVisits schema child visit) {element : ElementType} (kind : f.type = .vector element)
    (read : t.field buf schema f = .ok view) :
    Covers (decodeField buf limits child owner view) (visitField buf schema loose visit t f) := by
  simp only [Table.field, kind] at read
  obtain ⟨place, found, read⟩ := bind_eq_ok.1 read
  simp only [visitField, kind]
  apply covers_known (offsetTarget_ok anywhere found)
  cases place with
  | none =>
    cases read
    exact covers_pure
  | some pos =>
    obtain ⟨resolved, known, read⟩ := bind_eq_ok.1 read
    obtain ⟨⟨start, length⟩, header, read⟩ := bind_eq_ok.1 read
    cases read
    exact covers_map (vector_covered anywhere children known header)

theorem field_covered (anywhere : loose.checkAlignment = false)
    (children : CoversVisits schema child visit) (read : t.field buf schema f = .ok view) :
    Covers (decodeField buf limits child owner view) (visitField buf schema loose visit t f) := by
  cases kind : f.type with
  | scalar | enumeration =>
    have found := read
    simp only [Table.field, kind] at found
    obtain ⟨answer, stored, -⟩ := bind_eq_ok.1 found
    exact scalarField_covered anywhere stored read
  | struct name => exact structField_covered anywhere kind read
  | text => exact textField_covered anywhere kind read
  | record name => exact recordField_covered anywhere children kind read
  | vector element => exact vectorField_covered anywhere children kind read

theorem record_covered (anywhere : loose.checkAlignment = false)
    (same : limits.maxObjects = loose.maxObjects)
    (current : ∀ type ∈ schema.records, ∀ f ∈ type.fields, f.deprecated = false)
    (children : CoversVisits schema child visit) :
    CoversVisits schema (decodeRecord buf schema limits child)
      (visitRecord buf schema loose visit) := by
  intro name t
  simp only [decodeRecord]
  -- The decoder counts before it looks the type up, so an unknown type stops it only afterwards.
  cases found : schema.record name with
  | error e => exact covers_after (charge_idle _ _) fun _ => covers_read fun _ known => nomatch known
  | ok type =>
    apply covers_bind (covers_charge same _ _)
    intro _
    apply covers_known (aligned_ok anywhere _ _)
    have live : type.liveFields = type.fields := by
      apply List.filter_eq_self.2
      intro f mem
      simp [current type (Schema.record_mem found) f mem]
    apply covers_read
    intro _ known
    cases known
    rw [live]
    refine covers_foldlM [] fun r f mem => covers_read fun view read => ?_
    apply covers_then (field_covered anywhere children read)
    intro value
    cases value with
    | none => exact covers_pure
    | some v => exact covers_pure

theorem levels_covered (anywhere : loose.checkAlignment = false)
    (same : limits.maxObjects = loose.maxObjects)
    (current : ∀ type ∈ schema.records, ∀ f ∈ type.fields, f.deprecated = false) (levels : Nat) :
    CoversVisits schema (decodeLevels buf schema limits levels)
      (visitLevels buf schema loose levels) := by
  induction levels with
  | zero => exact fun _ _ _ _ _ run => nomatch run
  | succ levels ih => exact record_covered anywhere same current ih

end Visiting

variable {schema : Schema} {root : RecordType}

theorem run'_eq_error {x : Counted α} {c : Nat} {e : Error} :
    x.run' c = .error e ↔ x.run c = .error e := by
  rw [StateT.run'_eq]
  cases x.run c with
  | ok r => simp [Functor.map, Except.map]
  | error e' => simp [Functor.map, Except.map]

/-- The verifier and the decoder agree, except that the decoder counts texts and vectors too, and the verifier
alone looks at deprecated fields and at alignment. -/
theorem verify_agrees (rooted : schema.rootRecord = .ok root) (b : Buffer) (limits : Limits) :
    (schema.LaidOut → verify b schema root limits = .ok () →
      ∃ t, b.root = .ok t ∧ ((∃ r, toOwned b.bytes schema root.name t limits = .ok r) ∨
        ∃ pos, toOwned b.bytes schema root.name t limits =
          .error (.corrupt pos .tooManyObjects))) ∧
    ((∀ type ∈ schema.records, ∀ f ∈ type.fields, f.deprecated = false) → ∀ t r,
      b.root = .ok t → toOwned b.bytes schema root.name t limits = .ok r →
        verify b schema root { limits with checkAlignment := false } = .ok ()) := by
  have known := Schema.record_root rooted
  constructor
  · intro out verified
    obtain ⟨t, read, verified⟩ := bind_eq_ok.1 verified
    obtain ⟨n, visited⟩ := run'_eq_ok.1 verified
    obtain ⟨pos, -, table⟩ := bind_eq_ok.1 read
    have within := ((Table.read_reads b.bytes pos).of_ok table).2
    have completes := levels_complete out _ root.name root t known within ⟨0, n, visited⟩
    refine ⟨t, read, ?_⟩
    cases decoded : toOwned b.bytes schema root.name t limits with
    | ok r => exact .inl ⟨r, rfl⟩
    | error e =>
      obtain ⟨pos, rfl⟩ := completes 0 e (run'_eq_error.1 decoded)
      exact .inr ⟨pos, rfl⟩
  · intro current t r read decoded
    obtain ⟨n, decoded⟩ := run'_eq_ok.1 decoded
    have covered : CoversVisits schema (decodeLevels b.bytes schema limits (limits.maxDepth + 1))
        (visitLevels b.bytes schema { limits with checkAlignment := false } (limits.maxDepth + 1)) := by
      refine levels_covered ?_ ?_ current _
      · rfl
      · rfl
    have covered := covered root.name t
    rw [known] at covered
    obtain ⟨n', -, visited⟩ := covered 0 r n decoded 0 (Nat.le_refl _)
    simp only [verify]
    rw [read]
    exact run'_eq_ok.2 ⟨n', visited⟩

/-- A record with one text. -/
def note : RecordType := { name := "Note", fields := [.ofType "text" 0 .text] }

def noteSchema : Schema := { records := [note], root := some "Note" }

def noteBuffer : Buffer :=
  { bytes := #[12, 0, 0, 0, 6, 0, 8, 0, 4, 0, 0, 0, 8, 0, 0, 0, 4, 0, 0, 0, 1, 0, 0, 0, 97, 0, 0, 0]
    rootAt := 0 }

/-- One object is enough to verify the note, and too few to decode it. -/
theorem note_agrees :
    noteSchema.rootRecord = .ok note ∧
    verify noteBuffer noteSchema note { maxObjects := 1 } = .ok () ∧
    (∃ t, noteBuffer.root = .ok t ∧
      ((∃ r, toOwned noteBuffer.bytes noteSchema "Note" t { maxObjects := 1 } = .ok r) ∨
        ∃ pos, toOwned noteBuffer.bytes noteSchema "Note" t { maxObjects := 1 } =
          .error (.corrupt pos .tooManyObjects))) ∧
    (∀ type ∈ noteSchema.records, ∀ f ∈ type.fields, f.deprecated = false) ∧
    noteBuffer.root = .ok ⟨12, 4, 6, 8⟩ ∧
    toOwned noteBuffer.bytes noteSchema "Note" ⟨12, 4, 6, 8⟩ {} = .ok [("text", .text "a")] ∧
    verify noteBuffer noteSchema note { checkAlignment := false } = .ok () :=
  have rooted : noteSchema.rootRecord = .ok note := by decide +kernel
  have verified : verify noteBuffer noteSchema note { maxObjects := 1 } = .ok () := by
    decide +kernel
  have current : ∀ type ∈ noteSchema.records, ∀ f ∈ type.fields, f.deprecated = false := by
    decide +kernel
  have read : noteBuffer.root = .ok ⟨12, 4, 6, 8⟩ := by decide +kernel
  have decoded : toOwned noteBuffer.bytes noteSchema "Note" ⟨12, 4, 6, 8⟩ {} =
      .ok [("text", .text "a")] := by decide +kernel
  ⟨rooted, verified, (verify_agrees rooted noteBuffer { maxObjects := 1 }).1 (by decide) verified, current, read,
    decoded, (verify_agrees rooted noteBuffer {}).2 current _ _ read decoded⟩

end FlatRecord
