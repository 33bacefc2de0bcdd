import FlatRecord.Proofs.Reading.Decoded
import FlatRecord.Proofs.Reading.Opening

/-! Bytes behind a buffer. Every check asks only that something lies before the end, so that what was read of a
buffer is read again when more bytes follow. -/
namespace FlatRecord

open Reading Decoding Verification

variable {α β : Type}

/-- Whatever `x` answers, `y` answers. -/
def Lasts (x y : Except Error α) : Prop := ∀ a, x = .ok a → y = .ok a

/-- Whatever `x` answers from some count, `y` answers from it. -/
def CountedLasts (x y : Counted α) : Prop := ∀ c, Lasts (x.run c) (y.run c)

section Results

variable {x y : Except Error α}

theorem lasts_same (x : Except Error α) : Lasts x x := fun _ ok => ok

theorem lasts_error {e : Error} : Lasts (.error e) y := fun _ ok => nomatch ok

theorem lasts_bind {f g : α → Except Error β} (first : Lasts x y)
    (second : ∀ a, Lasts (f a) (g a)) : Lasts (x >>= f) (y >>= g) := by
  intro b ok
  obtain ⟨a, answered, ok⟩ := bind_eq_ok.1 ok
  rw [first a answered]
  exact second a b ok

/-- What is done with the answer does not look at the buffer. -/
theorem lasts_then {f : α → Except Error β} (first : Lasts x y) : Lasts (x >>= f) (y >>= f) :=
  lasts_bind first fun a => lasts_same (f a)

theorem lasts_map {f : α → β} (first : Lasts x y) : Lasts (x.map f) (y.map f) := by
  intro b ok
  obtain ⟨a, answered, rfl⟩ := map_eq_ok (x := x) ok
  rw [first a answered, map_ok]

/-- A check that stops `y` would have stopped `x`. -/
theorem lasts_check {c d : Prop} [Decidable c] [Decidable d] {e e' : Error} (weaker : d → c)
    (rest : Lasts x y) : Lasts (if c then .error e else x) (if d then .error e' else y) := by
  intro a ok
  obtain ⟨passed, ok⟩ := check_eq_ok.1 ok
  exact check_eq_ok.2 ⟨fun stopped => passed (weaker stopped), rest a ok⟩

theorem lasts_option {f g : α → Except Error β} (each : ∀ a, Lasts (f a) (g a)) (a? : Option α) :
    Lasts (a?.mapM f) (a?.mapM g) := by
  cases a? with
  | none => exact lasts_same _
  | some a => exact lasts_map (each a)

end Results

section Walks

variable {x y : Counted α}

theorem counted_same (x : Counted α) : CountedLasts x x := fun _ => lasts_same _

theorem counted_lift {x y : Except Error α} (lasts : Lasts x y) :
    CountedLasts (liftM x) (liftM y) := fun _ => lasts_then lasts

theorem counted_bind {f g : α → Counted β} (first : CountedLasts x y)
    (second : ∀ a, CountedLasts (f a) (g a)) : CountedLasts (x >>= f) (y >>= g) := fun c =>
  lasts_bind (first c) fun r => second r.1 r.2

theorem counted_map {f : α → β} (first : CountedLasts x y) : CountedLasts (f <$> x) (f <$> y) := by
  rw [map_eq_pure_bind, map_eq_pure_bind]
  exact counted_bind first fun _ => counted_same _

theorem counted_mapM {f g : α → Counted β} (each : ∀ a, CountedLasts (f a) (g a))
    (items : List α) : CountedLasts (items.mapM f) (items.mapM g) := by
  induction items with
  | nil => exact counted_same _
  | cons a rest ih =>
    rw [List.mapM_cons, List.mapM_cons]
    exact counted_bind (each a) fun _ => counted_bind ih fun _ => counted_same _

theorem counted_forM {f g : α → Counted Unit} (each : ∀ a, CountedLasts (f a) (g a))
    (items : List α) : CountedLasts (items.forM f) (items.forM g) := by
  induction items with
  | nil => exact counted_same _
  | cons a rest ih => exact counted_bind (each a) fun _ => ih

theorem counted_foldlM {f g : β → α → Counted β} (each : ∀ b a, CountedLasts (f b a) (g b a))
    (b : β) (items : List α) : CountedLasts (items.foldlM f b) (items.foldlM g b) := by
  induction items generalizing b with
  | nil => exact counted_same _
  | cons a rest ih =>
    rw [List.foldlM_cons, List.foldlM_cons]
    exact counted_bind (each b a) fun b' => ih b'

end Walks

section Steps

variable {buf : Bytes} (more : Bytes)

theorem size_extended (buf more : Bytes) : buf.size ≤ (buf ++ more).size := by
  rw [Array.size_append]
  exact Nat.le_add_right _ _

/-- What lies inside the buffer stays as it is. -/
theorem extract_extended {start stop : Nat} (inside : stop ≤ buf.size) :
    (buf ++ more).extract start stop = buf.extract start stop := by
  rw [Array.extract_append, Nat.sub_eq_zero_of_le inside, Array.extract_empty_of_stop_le_start
    (Nat.zero_le _), Array.append_empty]

theorem slice_lasts (start stop : Nat) :
    Lasts (slice buf start stop) (slice (buf ++ more) start stop) := by
  intro bytes ok
  simp only [slice] at ok ⊢
  split at ok
  · rename_i bounds
    rw [if_pos ⟨bounds.1, Nat.le_trans bounds.2 (size_extended buf more)⟩,
      extract_extended more bounds.2]
    exact ok
  · cases ok

theorem nat_lasts (pos width : Nat) : Lasts (nat buf pos width) (nat (buf ++ more) pos width) := by
  intro n ok
  simp only [nat] at ok ⊢
  split at ok
  · rename_i inside
    rw [if_pos (Nat.le_trans inside (size_extended buf more)), extract_extended more inside]
    exact ok
  · cases ok

theorem follow_lasts (pos : Nat) : Lasts (follow buf pos) (follow (buf ++ more) pos) := by
  have longer := size_extended buf more
  rw [follow_eq, follow_eq]
  refine lasts_bind (nat_lasts more pos offsetSize) fun distance => ?_
  refine lasts_check id (lasts_check (fun outside => ?_) (lasts_same _))
  exact Nat.le_trans longer outside

theorem text_lasts (pos : Nat) : Lasts (text buf pos) (text (buf ++ more) pos) := by
  refine lasts_bind (nat_lasts more pos offsetSize) fun length => ?_
  dsimp only
  cases there : buf[pos + offsetSize + length]? with
  | none => exact lasts_error
  | some terminator =>
    rw [Array.getElem?_append_left (Array.getElem?_eq_some_iff.1 there).1, there]
    exact lasts_check id (slice_lasts more _ _)

theorem vectorHeader_lasts (pos elementSize : Nat) :
    Lasts (vectorHeader buf pos elementSize) (vectorHeader (buf ++ more) pos elementSize) := by
  have longer := size_extended buf more
  rw [vectorHeader_eq, vectorHeader_eq]
  refine lasts_bind (nat_lasts more pos offsetSize) fun length => ?_
  exact lasts_check (Nat.lt_of_le_of_lt longer) (lasts_same _)

theorem readTable_lasts (pos : Nat) : Lasts (Table.read buf pos) (Table.read (buf ++ more) pos) := by
  have longer := size_extended buf more
  rw [Table.read_eq, Table.read_eq]
  refine lasts_bind (nat_lasts more pos offsetSize) fun distance => ?_
  refine lasts_check (Or.imp_right (Nat.le_trans longer)) ?_
  refine lasts_bind (nat_lasts more _ entrySize) fun length => ?_
  refine lasts_bind (nat_lasts more _ entrySize) fun inlineSize => lasts_check id ?_
  refine lasts_check (Nat.lt_of_le_of_lt longer) ?_
  exact lasts_check (Or.imp_right (Nat.lt_of_le_of_lt longer)) (lasts_same _)

variable (t : Table) (slot : Nat)

theorem fieldPosition_lasts (size : Nat) :
    Lasts (t.fieldPosition buf slot size) (t.fieldPosition (buf ++ more) slot size) := by
  have offset : Lasts (t.slotOffset buf slot) (t.slotOffset (buf ++ more) slot) := by
    rw [Table.slotOffset_eq, Table.slotOffset_eq]
    split
    · exact lasts_same _
    · exact lasts_then (slice_lasts more _ _)
  exact lasts_then offset

theorem target_lasts : Lasts (t.target buf slot) (t.target (buf ++ more) slot) :=
  lasts_bind (fieldPosition_lasts more t slot offsetSize) (lasts_option (follow_lasts more))

theorem field_lasts (schema : Schema) (f : RecordField) :
    Lasts (t.field buf schema f) (t.field (buf ++ more) schema f) := by
  simp only [Table.field]
  cases f.type with
  | scalar | enumeration =>
    refine lasts_bind (lasts_same _) fun typed => ?_
    refine lasts_bind (fieldPosition_lasts more t f.slot _) fun place => ?_
    cases place with
    | none => exact lasts_same _
    | some pos => exact lasts_then (slice_lasts more _ _)
  | struct name =>
    refine lasts_bind (lasts_same _) fun type => lasts_then ?_
    refine lasts_bind (fieldPosition_lasts more t f.slot type.size) ?_
    exact lasts_option fun pos => slice_lasts more pos (pos + type.size)
  | text =>
    exact lasts_then (lasts_bind (target_lasts more t f.slot) (lasts_option (text_lasts more)))
  | record name =>
    exact lasts_then (lasts_bind (target_lasts more t f.slot) (lasts_option (readTable_lasts more)))
  | vector element =>
    refine lasts_bind (target_lasts more t f.slot) fun place => ?_
    cases place with
    | none => exact lasts_same _
    | some pos =>
      exact lasts_bind (lasts_same _) fun element => lasts_then (vectorHeader_lasts more pos _)

theorem get_lasts (v : FieldVector) (index : Nat) :
    Lasts (v.get buf index) (v.get (buf ++ more) index) := by
  rw [FieldVector.get_eq, FieldVector.get_eq]
  refine lasts_check id ?_
  cases v.element with
  | scalar type => exact lasts_then (slice_lasts more _ _)
  | text => exact lasts_bind (follow_lasts more _) fun pos => lasts_then (text_lasts more pos)
  | record name => exact lasts_bind (follow_lasts more _) fun pos => lasts_then (readTable_lasts more pos)
  | struct type => exact lasts_then (slice_lasts more _ _)

end Steps

section Decoding

variable {buf : Bytes} (more : Bytes) {schema : Schema} {limits : Limits} {child child' : Child}

/-- A record that `child` decodes, `child'` decodes alike. -/
def ChildLasts (child child' : Child) : Prop := ∀ name t, CountedLasts (child name t) (child' name t)

theorem decodeElement_lasts (children : ChildLasts child child') (owner : Nat) (e : ElementView) :
    CountedLasts (decodeElement limits child owner e) (decodeElement limits child' owner e) := by
  cases e with
  | scalar | text | struct => exact counted_same _
  | record name t => exact counted_bind (children name t) fun _ => counted_same _

theorem decodeField_lasts (children : ChildLasts child child') (owner : Nat) (view : FieldView) :
    CountedLasts (decodeField buf limits child owner view)
      (decodeField (buf ++ more) limits child' owner view) := by
  cases view with
  | absent => exact counted_same _
  | single e => exact counted_map (decodeElement_lasts children owner e)
  | vector v =>
    have items : CountedLasts
        ((List.range v.length).mapM fun i => do
          decodeElement limits child v.start (← v.get buf i))
        ((List.range v.length).mapM fun i => do
          decodeElement limits child' v.start (← v.get (buf ++ more) i)) := by
      refine counted_mapM (fun i => ?_) _
      exact counted_bind (counted_lift (get_lasts more v i)) (decodeElement_lasts children v.start)
    exact counted_map (counted_bind (counted_same _) fun _ => counted_bind items fun _ =>
      counted_same _)

theorem decodeLevels_lasts (schema : Schema) (limits : Limits) (levels : Nat) :
    ChildLasts (decodeLevels buf schema limits levels)
      (decodeLevels (buf ++ more) schema limits levels) := by
  induction levels with
  | zero => exact fun _ _ => counted_same _
  | succ levels ih =>
    intro name t
    refine counted_bind (counted_same _) fun _ => counted_bind (counted_same _) fun type => ?_
    refine counted_foldlM (fun r f => ?_) _ _
    refine counted_bind (counted_lift (field_lasts more t schema f)) fun view => ?_
    exact counted_bind (decodeField_lasts more ih t.position view) fun _ => counted_same _

theorem toOwned_lasts (schema : Schema) (typeName : String) (t : Table) (limits : Limits) :
    Lasts (toOwned buf schema typeName t limits) (toOwned (buf ++ more) schema typeName t limits) := by
  intro r ok
  obtain ⟨n, decoded⟩ := run'_eq_ok.1 ok
  exact run'_eq_ok.2 ⟨n, decodeLevels_lasts more schema limits _ typeName t 0 _ decoded⟩

end Decoding

section Visiting

variable {buf : Bytes} (more : Bytes) {schema : Schema} {limits : Limits} {visit visit' : Visit}

/-- A record that passes `visit` passes `visit'`. -/
def VisitLasts (visit visit' : Visit) : Prop := ∀ type t, CountedLasts (visit type t) (visit' type t)

theorem visitText_lasts (pos : Nat) :
    Lasts (visitText buf limits pos) (visitText (buf ++ more) limits pos) :=
  lasts_bind (lasts_same _) fun _ => lasts_then (text_lasts more pos)

theorem offsetTarget_lasts (t : Table) (slot : Nat) :
    Lasts (offsetTarget buf limits t slot) (offsetTarget (buf ++ more) limits t slot) := by
  refine lasts_bind (fieldPosition_lasts more t slot offsetSize) fun place => ?_
  cases place with
  | none => exact lasts_same _
  | some pos => exact lasts_bind (lasts_same _) fun _ => lasts_then (follow_lasts more pos)

theorem visitTable_lasts (visits : VisitLasts visit visit') (type : RecordType) (pos : Nat) :
    CountedLasts (do visit type (← Table.read buf pos))
      (do visit' type (← Table.read (buf ++ more) pos)) :=
  counted_bind (counted_lift (readTable_lasts more pos)) fun t => visits type t

theorem visitVector_lasts (visits : VisitLasts visit visit') (pos : Nat) (element : ElementType) :
    CountedLasts (visitVector buf schema limits visit pos element)
      (visitVector (buf ++ more) schema limits visit' pos element) := by
  refine counted_bind (counted_same _) fun _ => ?_
  have header (size : Nat) : CountedLasts (liftM (vectorHeader buf pos size))
      (liftM (vectorHeader (buf ++ more) pos size)) := counted_lift (vectorHeader_lasts more pos size)
  have target (entry : Nat) : CountedLasts (liftM (follow buf entry))
      (liftM (follow (buf ++ more) entry)) := counted_lift (follow_lasts more entry)
  cases element with
  | scalar type => exact counted_bind (header _) fun _ => counted_same _
  | struct name =>
    exact counted_bind (counted_same _) fun type => counted_bind (header _) fun _ => counted_same _
  | text =>
    refine counted_bind (header _) fun bounds => counted_forM (fun i => ?_) _
    exact counted_bind (target _) fun p => counted_lift (visitText_lasts more p)
  | record name =>
    refine counted_bind (counted_same _) fun type => ?_
    refine counted_bind (header _) fun bounds => counted_forM (fun i => ?_) _
    exact counted_bind (target _) fun p => visitTable_lasts more visits type p

theorem visitField_lasts (visits : VisitLasts visit visit') (t : Table) (f : RecordField) :
    CountedLasts (visitField buf schema limits visit t f)
      (visitField (buf ++ more) schema limits visit' t f) := by
  have inline (size : Nat) : CountedLasts (liftM (t.fieldPosition buf f.slot size))
      (liftM (t.fieldPosition (buf ++ more) f.slot size)) :=
    counted_lift (fieldPosition_lasts more t f.slot size)
  have target : CountedLasts (liftM (offsetTarget buf limits t f.slot))
      (liftM (offsetTarget (buf ++ more) limits t f.slot)) :=
    counted_lift (offsetTarget_lasts more t f.slot)
  unfold visitField
  cases f.type with
  | scalar | enumeration =>
    exact counted_bind (counted_same _) fun typed => counted_bind (inline _) fun _ => counted_same _
  | struct name =>
    exact counted_bind (counted_same _) fun type => counted_bind (inline _) fun _ => counted_same _
  | text =>
    refine counted_bind target fun place => ?_
    cases place with
    | none => exact counted_same _
    | some p => exact counted_lift (visitText_lasts more p)
  | record name =>
    refine counted_bind target fun place => ?_
    cases place with
    | none => exact counted_same _
    | some p => exact counted_bind (counted_same _) fun type => visitTable_lasts more visits type p
  | vector element =>
    refine counted_bind target fun place => ?_
    cases place with
    | none => exact counted_same _
    | some p => exact visitVector_lasts more visits p element

theorem visitLevels_lasts (schema : Schema) (limits : Limits) (levels : Nat) :
    VisitLasts (visitLevels buf schema limits levels)
      (visitLevels (buf ++ more) schema limits levels) := by
  induction levels with
  | zero => exact fun _ _ => counted_same _
  | succ levels ih =>
    intro type t
    refine counted_bind (counted_same _) fun _ => counted_bind (counted_same _) fun _ => ?_
    exact counted_forM (fun f => visitField_lasts more ih t f) _

end Visiting

namespace Buffer

variable {b : Buffer} (more : Bytes)

/-- The buffer with more bytes behind it. -/
def extend (b : Buffer) (more : Bytes) : Buffer := { b with bytes := b.bytes ++ more }

theorem root_lasts : Lasts b.root (b.extend more).root :=
  lasts_bind (follow_lasts more b.rootAt) (readTable_lasts more)

theorem verify_lasts (schema : Schema) (root : RecordType) (limits : Limits) :
    Lasts (verify b schema root limits) (verify (b.extend more) schema root limits) := by
  refine lasts_bind (root_lasts more) fun t _ ok => ?_
  obtain ⟨n, visited⟩ := run'_eq_ok.1 ok
  exact run'_eq_ok.2 ⟨n, visitLevels_lasts more schema limits _ root t 0 _ visited⟩

theorem hasIdentifier_extend {id : Identifier} (has : b.hasIdentifier id = true) :
    (b.extend more).hasIdentifier id = true := by
  simp only [hasIdentifier, identifier?, beq_iff_eq] at has ⊢
  split at has
  · rename_i room
    have longer := size_extended b.bytes more
    rw [← has]
    simp only [extend, extract_extended more room]
    exact if_pos (Nat.le_trans room longer)
  · cases has

theorem checkIdentifier_lasts (id? : Option Identifier) :
    Lasts (b.checkIdentifier id?) ((b.extend more).checkIdentifier id?) := by
  cases id? with
  | none => exact lasts_same _
  | some id =>
    intro _ ok
    simp only [checkIdentifier, ok_bind] at ok ⊢
    cases has : b.hasIdentifier id with
    | false => simp [has] at ok
    | true => rw [hasIdentifier_extend more has, if_pos rfl]

theorem check_lasts (options : ReaderOptions) (schema : Schema) :
    Lasts (b.check options schema) ((b.extend more).check options schema) := by
  rw [check_eq, check_eq]
  refine lasts_bind (checkIdentifier_lasts more options.identifier) fun _ => ?_
  cases options.strict with
  | false =>
    simp only [Bool.false_eq_true, if_false]
    exact lasts_same _
  | true =>
    simp only [if_true]
    exact lasts_bind (lasts_same _) fun root => verify_lasts more schema root options.limits

end Buffer

/-- What is decoded from some bytes is decoded, with the same options, from any bytes that begin with them. -/
theorem decodeRoot_append {schema : Schema} {bytes : Bytes} {options : ReaderOptions} {r : Record}
    (decoded : decodeRoot schema bytes options = .ok r) (more : Bytes) :
    decodeRoot schema (bytes ++ more) options = .ok r := by
  obtain ⟨b, opened, decoded⟩ := bind_eq_ok.1 decoded
  obtain ⟨b', room, opened⟩ := bind_eq_ok.1 opened
  obtain ⟨_, checked, same⟩ := bind_eq_ok.1 opened
  cases same
  obtain ⟨long, same⟩ := check_eq_ok.1 room
  cases same
  have longer := size_extended bytes more
  have opens : Buffer.openWith (bytes ++ more) options schema = .ok ⟨bytes ++ more, 0⟩ := by
    have front : Buffer.ofBytes (bytes ++ more) = .ok ⟨bytes ++ more, 0⟩ := if_neg (by omega)
    rw [Buffer.openWith, front, ok_bind]
    have passes := Buffer.check_lasts more options schema _ checked
    rw [Buffer.extend] at passes
    rw [passes]
    rfl
  rw [decodeRoot, opens, ok_bind]
  refine lasts_bind (lasts_same _) (fun root => ?_) r decoded
  exact lasts_bind (Buffer.root_lasts more) fun t => toOwned_lasts more schema root.name t _

theorem note_extended :
    decodeRoot noteSchema noteBuffer.bytes { strict := true } = .ok [("text", .text "a")] ∧
    decodeRoot noteSchema (noteBuffer.bytes ++ #[255, 255]) { strict := true } =
      .ok [("text", .text "a")] :=
  have decoded : decodeRoot noteSchema noteBuffer.bytes { strict := true } =
      .ok [("text", .text "a")] := by decide +kernel
  ⟨decoded, decodeRoot_append decoded #[255, 255]⟩

end FlatRecord
