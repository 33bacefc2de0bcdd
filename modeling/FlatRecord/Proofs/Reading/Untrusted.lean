import FlatRecord.Proofs.Reading.Safety

/-! Whole walks over untrusted bytes. A walk meets only tables that were checked, each behind its parent, so
that depths are words too. -/
namespace FlatRecord

open Reading Machine

/-- The checked walk is the walk, from every count within the limit to another, if the limit can be passed. -/
def SaneWalk (limits : Limits) (m : Counting α) (x : Counted α) (good : α → Prop) : Prop :=
  limits.maxObjects < largestWord → ∀ c ≤ limits.maxObjects,
    Sane (m.run c) (x.run c) fun r => good r.1 ∧ r.2 ≤ limits.maxObjects

section Walks

variable {limits : Limits} {m : Counting α} {x : Counted α} {good : α → Prop}

theorem walk_return {a : α} (holds : good a) : SaneWalk limits (pure a) (pure a) good :=
  fun _ _ room => sane_return ⟨holds, room⟩

theorem walk_lift {m : Checked α} {x : Except Error α} (sane : Sane m x good) :
    SaneWalk limits (liftM m) (liftM x) good := fun _ c room =>
  sane_bind sane fun a here => sane_return (a := (a, c)) ⟨here, room⟩

/-- A type that the schema knows is looked up. -/
theorem walk_known {x : Except Error α} {a : α} (known : x = .ok a) :
    SaneWalk limits (liftM (lift x)) (liftM x) (· = a) :=
  walk_lift (sane_lift (known ▸ reads_ok rfl))

theorem walk_bind {f : α → Counting β} {g : α → Counted β} {good' : β → Prop}
    (first : SaneWalk limits m x good) (second : ∀ a, good a → SaneWalk limits (f a) (g a) good') :
    SaneWalk limits (m >>= f) (x >>= g) good' := by
  intro finite c room
  rw [StateT.run_bind, StateT.run_bind]
  exact sane_bind (first finite c room) fun r here => second r.1 here.1 finite r.2 here.2

theorem walk_map {f : α → β} {good' : β → Prop} (walk : SaneWalk limits m x good)
    (holds : ∀ a, good a → good' (f a)) : SaneWalk limits (f <$> m) (f <$> x) good' := by
  rw [map_eq_pure_bind, map_eq_pure_bind]
  exact walk_bind walk fun a here => walk_return (holds a here)

theorem walk_charge (pos : Nat) (defect : Defect) :
    SaneWalk limits (Machine.charge limits (.corrupt pos defect))
      (Counted.charge limits (.corrupt pos defect)) fun _ => True := by
  intro finite c room
  have counted : add c 1 = pure (c + 1) := if_pos (Nat.succ_le_of_lt (Nat.lt_of_le_of_lt room finite))
  rw [Counted.run_charge, StateT.run, Machine.charge, counted, pure_bind]
  exact sane_check fun fits => sane_return ⟨trivial, Nat.not_lt.1 fits⟩

theorem walk_mapM {items : List β} {f : β → Counting α} {g : β → Counted α}
    (each : ∀ b ∈ items, SaneWalk limits (f b) (g b) fun _ => True) :
    SaneWalk limits (items.mapM f) (items.mapM g) fun _ => True := by
  induction items with
  | nil => exact walk_return trivial
  | cons b rest ih =>
    rw [List.mapM_cons, List.mapM_cons]
    apply walk_bind (each b List.mem_cons_self)
    intro a _
    apply walk_bind (ih fun b' mem => each b' (List.mem_cons_of_mem _ mem))
    intro as _
    exact walk_return trivial

theorem walk_forM {items : List β} {f : β → Counting Unit} {g : β → Counted Unit}
    (each : ∀ b ∈ items, SaneWalk limits (f b) (g b) fun _ => True) :
    SaneWalk limits (items.forM f) (items.forM g) fun _ => True := by
  induction items with
  | nil => exact walk_return trivial
  | cons b rest ih =>
    exact walk_bind (each b List.mem_cons_self) fun _ _ =>
      ih fun b' mem => each b' (List.mem_cons_of_mem _ mem)

theorem walk_foldlM {items : List β} {f : α → β → Counting α} {g : α → β → Counted α} (a : α)
    (each : ∀ a, ∀ b ∈ items, SaneWalk limits (f a b) (g a b) fun _ => True) :
    SaneWalk limits (items.foldlM f a) (items.foldlM g a) fun _ => True := by
  induction items generalizing a with
  | nil => exact walk_return trivial
  | cons b rest ih =>
    rw [List.foldlM_cons, List.foldlM_cons]
    exact walk_bind (each a b List.mem_cons_self) fun a' _ =>
      ih a' fun a b' mem => each a b' (List.mem_cons_of_mem _ mem)

end Walks

section Decoding

variable {limits : Limits} {buf : Bytes} {schema : Schema}

/-- A child is decoded sanely wherever it lies, if no deeper than its position. -/
def SaneChild (limits : Limits) (buf : Bytes) (schema : Schema) (child : Machine.Child)
    (child' : Decoding.Child) : Prop :=
  ∀ depth name t, t.Within buf → depth ≤ t.position → (∃ type, schema.record name = .ok type) →
    SaneWalk limits (child depth name t) (child' name t) fun _ => True

variable {child : Machine.Child} {child' : Decoding.Child} {depth start owner : Nat}

/-- One level deeper is a word. -/
theorem deeper_sane (addressable : Addressable buf) {t : Table} (within : t.Within buf)
    (shallow : depth < t.position) {f : Nat → Counting α} {x : Counted α} {good : α → Prop}
    (rest : SaneWalk limits (f (depth + 1)) x good) :
    SaneWalk limits (do f (← add depth 1)) x good := by
  have inside := within.record
  have large : buf.size < 2 ^ 63 := addressable
  -- No limit bounds the depth here: offsets lead forward, so it never exceeds the position.
  have fits : depth + 1 ≤ largestWord := by simp only [largestWord]; omega
  have word : add depth 1 = pure (depth + 1) := if_pos fits
  rw [word]
  exact rest

theorem decodeElement_sane (addressable : Addressable buf)
    (children : SaneChild limits buf schema child child') (shallow : depth ≤ start)
    (owner : Nat) {e : ElementView} (good : e.Good schema buf start) :
    SaneWalk limits (Machine.decodeElement limits child depth owner e)
      (Decoding.decodeElement limits child' owner e) fun _ => True := by
  cases e with
  | scalar v => exact walk_return trivial
  | text bytes => exact walk_bind (walk_charge _ _) fun _ _ => walk_return trivial
  | record name t =>
    obtain ⟨within, behind, known⟩ := good
    apply deeper_sane addressable within (by omega)
    refine walk_bind (children _ name t within (by omega) known) fun _ _ => walk_return trivial
  | struct type bytes =>
    exact walk_bind (walk_lift (ownedStruct_sane good.2 good.1)) fun _ _ => walk_return trivial

theorem decodeField_sane (addressable : Addressable buf)
    (children : SaneChild limits buf schema child child') (shallow : depth ≤ start) (owner : Nat)
    {view : FieldView} (good : view.Good schema buf start) :
    SaneWalk limits (Machine.decodeField buf limits child depth owner view)
      (Decoding.decodeField buf limits child' owner view) fun _ => True := by
  cases view with
  | absent => exact walk_return trivial
  | single e =>
    exact walk_map (decodeElement_sane addressable children shallow owner good) fun _ _ => trivial
  | vector v =>
    have items : SaneWalk limits
        ((List.range v.length).mapM fun i => do
          Machine.decodeElement limits child depth v.start (← Machine.get buf v i))
        ((List.range v.length).mapM fun i => do
          Decoding.decodeElement limits child' v.start (← v.get buf i)) fun _ => True := by
      apply walk_mapM
      intro i mem
      apply walk_bind (walk_lift (get_sane addressable good (List.mem_range.1 mem)))
      intro e here
      exact decodeElement_sane addressable children shallow v.start here
    have vector : SaneWalk limits (Machine.decodeVector buf limits child depth v)
        (Decoding.decodeVector buf limits child' v) fun _ => True :=
      walk_bind (walk_charge _ _) fun _ _ => walk_bind items fun _ _ => walk_return trivial
    exact walk_map vector fun _ _ => trivial

theorem decodeRecord_sane (addressable : Addressable buf) (valid : schema.Valid) (out : schema.LaidOut)
    (children : SaneChild limits buf schema child child') :
    SaneChild limits buf schema (Machine.decodeRecord buf schema limits child)
      (Decoding.decodeRecord buf schema limits child') := by
  intro depth name t within shallow known
  obtain ⟨type, known⟩ := known
  have isValid := valid.records type (Schema.record_mem known)
  apply walk_bind (walk_charge _ _)
  intro _ _
  apply walk_bind (walk_known known)
  intro a same
  subst same
  apply walk_foldlM []
  intro r f mem
  have among := List.mem_of_mem_filter mem
  apply walk_bind (walk_lift (field_sane addressable within (isValid.small f among)
    (isValid.fields f among) out))
  intro view good
  apply walk_bind (decodeField_sane addressable children shallow t.position good)
  intro value _
  cases value with
  | none => exact walk_return trivial
  | some v => exact walk_return trivial

theorem decodeLevels_sane (addressable : Addressable buf) (valid : schema.Valid) (out : schema.LaidOut)
    (levels : Nat) :
    SaneChild limits buf schema (Machine.decodeLevels buf schema limits levels)
      (Decoding.decodeLevels buf schema limits levels) := by
  induction levels with
  | zero => exact fun _ _ _ _ _ _ _ _ _ => sane_corrupt _ _
  | succ levels ih => exact decodeRecord_sane addressable valid out ih

/-- What a walk ends with, apart from its count. -/
theorem walk_run {m : Counting α} {x : Counted α} {good : α → Prop}
    (walk : SaneWalk limits m x good) (finite : limits.maxObjects < largestWord) :
    Sane (m.run' 0) (x.run' 0) good := by
  rw [StateT.run'_eq, StateT.run'_eq]
  exact sane_map (walk finite 0 (Nat.zero_le _)) fun _ here => here.1

theorem toOwned_sane (addressable : Addressable buf) (valid : schema.Valid) (out : schema.LaidOut) {t : Table}
    (within : t.Within buf) {typeName : String} (known : ∃ type, schema.record typeName = .ok type)
    (finite : limits.maxObjects < largestWord) :
    Sane (Machine.toOwned buf schema typeName t limits)
      (Decoding.toOwned buf schema typeName t limits) fun _ => True :=
  walk_run (decodeLevels_sane addressable valid out _ 0 typeName t within (Nat.zero_le _) known) finite

end Decoding

section Visiting

variable {limits : Limits} {buf : Bytes} {schema : Schema} {t : Table} {depth pos start : Nat}

/-- A record of a valid type is visited sanely wherever it lies, if no deeper than its position. -/
def SaneVisit (limits : Limits) (buf : Bytes) (schema : Schema) (visit : Machine.Visit)
    (visit' : Verification.Visit) : Prop :=
  ∀ depth type t, t.Within buf → depth ≤ t.position → type.Valid schema →
    SaneWalk limits (visit depth type t) (visit' type t) fun _ => True

variable {visit : Machine.Visit} {visit' : Verification.Visit}

theorem aligned_reads (limits : Limits) (pos alignment : Nat) :
    Reads (Verification.aligned limits pos alignment) fun _ => True := by
  simp only [Verification.aligned]
  split <;> trivial

theorem walk_aligned (pos alignment : Nat) :
    SaneWalk limits (liftM (lift (Verification.aligned limits pos alignment)))
      (liftM (Verification.aligned limits pos alignment)) fun _ => True :=
  walk_lift (sane_lift (aligned_reads limits pos alignment))

theorem offsetTarget_sane (addressable : Addressable buf) (within : t.Within buf) {slot : Nat}
    (small : slot < slotLimit) :
    Sane (Machine.offsetTarget buf limits t slot) (Verification.offsetTarget buf limits t slot)
      fun place => ∀ p, place = some p → t.position < p := by
  apply sane_bind (fieldPosition_sane addressable within (slot_lt small) (within.fits (by decide)))
  intro place found
  cases place with
  | none => exact sane_return fun _ same => nomatch same
  | some pos =>
    apply sane_bind (sane_lift (aligned_reads limits pos offsetSize))
    intro _ _
    refine sane_bind (sane_lift (follow_reads buf pos)) fun p forward => sane_return ?_
    intro p' same
    cases same
    have behind := (found pos rfl).1
    omega

theorem visitText_sane (addressable : Addressable buf) (pos : Nat) :
    Sane (Machine.visitText buf limits pos) (Verification.visitText buf limits pos)
      fun _ => True := by
  apply sane_bind (sane_lift (aligned_reads limits pos offsetSize))
  intro _ _
  exact sane_bind (text_sane addressable pos) fun _ _ => sane_return trivial

theorem elementTarget_sane (addressable : Addressable buf) {length i : Nat}
    (inside : start + length * offsetSize ≤ buf.size) (below : i < length) :
    Sane (elementTarget buf start i) (follow buf (start + i * offsetSize)) fun p => start < p := by
  have large : buf.size < 2 ^ 63 := addressable
  have inside : start + length * 4 ≤ buf.size := inside
  apply sane_mul (by simp only [largestWord, offsetSize]; omega)
  apply sane_add (by simp only [largestWord, offsetSize]; omega)
  exact sane_lift ((follow_reads buf _).mono fun p forward => by omega)

theorem visitTable_sane (addressable : Addressable buf)
    (visits : SaneVisit limits buf schema visit visit') (shallow : depth < pos) {type : RecordType}
    (valid : type.Valid schema) :
    SaneWalk limits (do
        let child ← readTable buf pos
        visit (← add depth 1) type child)
      (do visit' type (← Table.read buf pos)) fun _ => True := by
  apply walk_bind (walk_lift (readTable_sane addressable pos))
  intro t here
  obtain ⟨position, within⟩ := here
  apply deeper_sane addressable within (by omega)
  exact visits _ type t within (by omega) valid

theorem visitVector_sane (addressable : Addressable buf) (valid : schema.Valid)
    (visits : SaneVisit limits buf schema visit visit') (shallow : depth < pos) {f : RecordField}
    {element : ElementType} (kind : f.type = .vector element) (isValid : f.Valid schema) :
    SaneWalk limits (Machine.visitVector buf schema limits visit depth pos element)
      (Verification.visitVector buf schema limits visit' pos element) fun _ => True := by
  simp only [RecordField.Valid] at isValid
  apply walk_bind (walk_aligned pos offsetSize)
  intro _ _
  cases element with
  | scalar type =>
    apply walk_bind (walk_lift (vectorHeader_sane addressable pos type.size))
    intro header _
    exact walk_aligned _ _
  | struct name =>
    simp only [kind] at isValid
    obtain ⟨type, known⟩ := isValid
    apply walk_bind (walk_known known)
    intro _ same
    subst same
    apply walk_bind (walk_lift (vectorHeader_sane addressable pos _))
    intro header _
    exact walk_aligned _ _
  | text =>
    apply walk_bind (walk_lift (vectorHeader_sane addressable pos offsetSize))
    intro header here
    apply walk_forM
    intro i mem
    have below := List.mem_range.1 mem
    apply walk_bind (walk_lift (elementTarget_sane addressable here.2 below))
    intro p _
    exact walk_lift (visitText_sane addressable p)
  | record name =>
    simp only [kind] at isValid
    obtain ⟨type, known⟩ := isValid
    apply walk_bind (walk_known known)
    intro _ same
    subst same
    apply walk_bind (walk_lift (vectorHeader_sane addressable pos offsetSize))
    intro header here
    apply walk_forM
    intro i mem
    have below := List.mem_range.1 mem
    apply walk_bind (walk_lift (elementTarget_sane addressable here.2 below))
    intro p behind
    have deeper : depth < p := by omega
    exact visitTable_sane addressable visits deeper (valid.records _ (Schema.record_mem known))

/-- What is done at the place of an inline field, if it is there. -/
theorem visitInline_sane (addressable : Addressable buf) (within : t.Within buf) {slot size : Nat}
    (small : slot < slotLimit) (narrow : size < 2 ^ 62) (alignment : Nat) :
    SaneWalk limits (do
        if let some pos ← fieldPosition buf t slot size then
          lift (Verification.aligned limits pos alignment))
      (do
        if let some pos ← t.fieldPosition buf slot size then
          Verification.aligned limits pos alignment) fun _ => True := by
  apply walk_bind (walk_lift (fieldPosition_sane addressable within (slot_lt small) (within.fits narrow)))
  intro place _
  cases place with
  | none => exact walk_return trivial
  | some pos => exact walk_aligned pos alignment

theorem visitField_sane (addressable : Addressable buf) (valid : schema.Valid) (out : schema.LaidOut)
    (visits : SaneVisit limits buf schema visit visit') (within : t.Within buf)
    (shallow : depth ≤ t.position) {f : RecordField} (small : f.slot < slotLimit)
    (isValid : f.Valid schema) :
    SaneWalk limits (Machine.visitField buf schema limits visit depth t f)
      (Verification.visitField buf schema limits visit' t f) fun _ => True := by
  have validField := isValid
  simp only [RecordField.Valid] at isValid
  unfold Machine.visitField Verification.visitField
  have located : Sane (Machine.offsetTarget buf limits t f.slot)
      (Verification.offsetTarget buf limits t f.slot) fun place => ∀ p, place = some p → t.position < p :=
    offsetTarget_sane addressable within small
  cases kind : f.type with
  | scalar | enumeration =>
    simp only [kind] at isValid
    obtain ⟨default, scalar⟩ := isValid
    apply walk_bind (walk_known scalar)
    intro _ same
    subst same
    have narrow := default.type.size_le_eight
    exact visitInline_sane addressable within small (by omega) _
  | struct name =>
    simp only [kind] at isValid
    obtain ⟨type, known⟩ := isValid
    apply walk_bind (walk_known known)
    intro _ same
    subst same
    exact visitInline_sane addressable within small (out.struct known).size_lt _
  | text =>
    apply walk_bind (walk_lift located)
    intro place _
    cases place with
    | none => exact walk_return trivial
    | some p => exact walk_lift (visitText_sane addressable p)
  | record name =>
    simp only [kind] at isValid
    obtain ⟨type, known⟩ := isValid
    apply walk_bind (walk_lift located)
    intro place behind
    cases place with
    | none => exact walk_return trivial
    | some p =>
      apply walk_bind (walk_known known)
      intro _ same
      subst same
      have deeper := Nat.lt_of_le_of_lt shallow (behind p rfl)
      exact visitTable_sane addressable visits deeper (valid.records _ (Schema.record_mem known))
  | vector element =>
    apply walk_bind (walk_lift located)
    intro place behind
    cases place with
    | none => exact walk_return trivial
    | some p =>
      have deeper := Nat.lt_of_le_of_lt shallow (behind p rfl)
      exact visitVector_sane addressable valid visits deeper kind validField

theorem visitRecord_sane (addressable : Addressable buf) (valid : schema.Valid) (out : schema.LaidOut)
    (visits : SaneVisit limits buf schema visit visit') :
    SaneVisit limits buf schema (Machine.visitRecord buf schema limits visit)
      (Verification.visitRecord buf schema limits visit') := by
  intro depth type t within shallow isValid
  apply walk_bind (walk_charge _ _)
  intro _ _
  refine walk_bind (walk_aligned _ _) fun _ _ => walk_forM fun f mem => ?_
  exact visitField_sane addressable valid out visits within shallow (isValid.small f mem)
    (isValid.fields f mem)

theorem visitLevels_sane (addressable : Addressable buf) (valid : schema.Valid) (out : schema.LaidOut)
    (levels : Nat) :
    SaneVisit limits buf schema (Machine.visitLevels buf schema limits levels)
      (Verification.visitLevels buf schema limits levels) := by
  induction levels with
  | zero => exact fun _ _ _ _ _ _ _ _ _ => sane_corrupt _ _
  | succ levels ih => exact visitRecord_sane addressable valid out ih

end Visiting

end FlatRecord
