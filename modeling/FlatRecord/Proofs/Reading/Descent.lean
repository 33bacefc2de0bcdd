import FlatRecord.Proofs.Codec.Image
import FlatRecord.Proofs.Reading.Outcomes
import Mathlib.Logic.Function.Iterate

/-! How deep a buffer can be nested. A reference leads to a record that begins at least five bytes after its own
one, behind the offset to the field table, whatever the bytes and the schema are. So there is no way round in a
circle, and a walk ends by itself: the limit on its depth only cuts it short. -/
namespace FlatRecord

open Reading Decoding Verification

/-- A record among whose fields is a reference, alone or in a vector, and the record that it leads to, with the
name of its type. -/
inductive Refers (buf : Bytes) (t : Table) (fields : List RecordField) : String → Table → Prop where
  | field {f : RecordField} {name : String} {pos : Nat} {t' : Table} (mem : f ∈ fields)
      (kind : f.type = .record name) (target : t.target buf f.slot = .ok (some pos))
      (read : Table.read buf pos = .ok t') : Refers buf t fields name t'
  | element {f : RecordField} {name : String} {pos start length i place : Nat} {t' : Table}
      (mem : f ∈ fields) (kind : f.type = .vector (.record name))
      (target : t.target buf f.slot = .ok (some pos))
      (header : vectorHeader buf pos offsetSize = .ok (start, length)) (below : i < length)
      (followed : follow buf (start + i * offsetSize) = .ok place)
      (read : Table.read buf place = .ok t') : Refers buf t fields name t'

/-- Records that refer each to the next. -/
def Nested (buf : Bytes) (schema : Schema) : List (RecordType × Table) → Prop :=
  List.IsChain fun holder record =>
    ∃ name, Refers buf holder.2 holder.1.fields name record.2 ∧ schema.record name = .ok record.1

variable {ρ α : Type}

/-- A step of a walk that goes on only at records that begin at least five bytes further on. -/
def Descends (buf : Bytes) (step : (ρ → Table → Counted α) → ρ → Table → Counted α) : Prop :=
  ∀ go go' r t, (∀ r' t', t.position + 5 ≤ t'.position → t'.Within buf → go r' t' = go' r' t') →
    step go r t = step go' r t

/-- How many records there is room for behind the record at `t`, one in another. -/
def room (buf : Bytes) (t : Table) : Nat := (buf.size - (t.position + offsetSize)) / 5

section Positions

variable {buf : Bytes} {t t' : Table} {fields : List RecordField} {name : String} {pos slot : Nat}

/-- The first field stands behind the offset to the field table. -/
theorem Table.fieldPosition_behind {size : Nat} (found : t.fieldPosition buf slot size = .ok (some pos)) :
    t.position + offsetSize ≤ pos := by
  rw [Table.fieldPosition_eq] at found
  obtain ⟨offset, -, found⟩ := bind_eq_ok.1 found
  cases offset with
  | none => cases found
  | some offset =>
    obtain ⟨placed, found⟩ := check_eq_ok.1 found
    cases found
    exact Nat.add_le_add_left (Nat.not_lt.1 (not_or.1 placed).1) _

theorem follow_behind (followed : follow buf pos = .ok place) : pos < place :=
  ((follow_reads buf pos).of_ok followed).2.1

theorem Table.target_behind (found : t.target buf slot = .ok (some pos)) : t.position + 5 ≤ pos := by
  obtain ⟨place, position, followed⟩ := bind_eq_ok.1 found
  cases place with
  | none => cases followed
  | some place =>
    obtain ⟨target, followed, same⟩ := map_eq_ok followed
    cases same
    exact (Nat.add_le_add_right (fieldPosition_behind position) 1).trans (follow_behind followed)

theorem Refers.behind (refers : Refers buf t fields name t') :
    t.position + 5 ≤ t'.position ∧ t'.Within buf := by
  cases refers with
  | field mem kind target read =>
    obtain ⟨here, within⟩ := (Table.read_reads buf _).of_ok read
    exact ⟨here ▸ Table.target_behind target, within⟩
  | @element f _ pos start length i place _ mem kind target header below followed read =>
    obtain ⟨here, within⟩ := (Table.read_reads buf _).of_ok read
    have behind := Table.target_behind target
    have start := ((vectorHeader_reads buf _ _).of_ok header).1
    have beyond := follow_behind followed
    exact ⟨by omega, within⟩

theorem Table.Within.room_lt (within : t'.Within buf) (behind : t.position + 5 ≤ t'.position) :
    room buf t' < room buf t := by
  have inline := within.inline
  have record := within.record
  simp only [room, offsetSize] at *
  omega

theorem nested_room {schema : Schema} {root : RecordType} {chain : List (RecordType × Table)}
    (nested : Nested buf schema ((root, t) :: chain)) : chain.length ≤ room buf t := by
  induction chain generalizing root t with
  | nil => exact Nat.zero_le _
  | cons record rest ih =>
    obtain ⟨⟨name, refers, -⟩, nested⟩ := List.isChain_cons_cons.1 nested
    obtain ⟨behind, within⟩ := refers.behind
    exact (Nat.succ_le_succ (ih nested)).trans (within.room_lt behind)

/-- The root is behind the offset that leads to it, so there is room for one record less. -/
theorem Buffer.root_room {b : Buffer} (found : b.root = .ok t) :
    t.Within b.bytes ∧ 5 * (room b.bytes t + 1) ≤ b.bytes.size := by
  obtain ⟨place, followed, read⟩ := bind_eq_ok.1 found
  obtain ⟨rfl, within⟩ := (Table.read_reads b.bytes _).of_ok read
  have behind := follow_behind followed
  have inline := within.inline
  have record := within.record
  simp only [room, offsetSize] at *
  exact ⟨within, by omega⟩

end Positions

section Congruence

variable {β : Type}

theorem read_congr {x : Except Error α} {f g : α → Counted β} (same : ∀ a, x = .ok a → f a = g a) :
    (liftM x >>= f : Counted β) = liftM x >>= g := by
  cases x with
  | ok a => exact same a rfl
  | error e => rfl

theorem forM_congr {items : List α} {f g : α → Counted Unit} (same : ∀ item ∈ items, f item = g item) :
    items.forM f = items.forM g := by
  induction items with
  | nil => rfl
  | cons item rest ih =>
    obtain ⟨first, later⟩ := List.forall_mem_cons.1 same
    change f item >>= (fun _ => rest.forM f) = g item >>= fun _ => rest.forM g
    rw [first, ih later]

theorem mapM_congr {items : List α} {f g : α → Counted β} (same : ∀ item ∈ items, f item = g item) :
    items.mapM f = items.mapM g := by
  induction items with
  | nil => rfl
  | cons item rest ih =>
    obtain ⟨first, later⟩ := List.forall_mem_cons.1 same
    rw [List.mapM_cons, List.mapM_cons, first, ih later]

theorem foldlM_congr {items : List α} {f g : β → α → Counted β} (b : β)
    (same : ∀ b, ∀ item ∈ items, f b item = g b item) : items.foldlM f b = items.foldlM g b := by
  induction items generalizing b with
  | nil => rfl
  | cons item rest ih =>
    rw [List.foldlM_cons, List.foldlM_cons, same b item List.mem_cons_self]
    exact bind_congr fun b' => ih b' fun b item mem => same b item (List.mem_cons_of_mem _ mem)

end Congruence

section Walks

variable {buf : Bytes} {schema : Schema} {limits : Limits} {t : Table} {fields : List RecordField}
  {f : RecordField}

section Verifying

variable {visit visit' : Visit}

theorem visitField_same (mem : f ∈ fields)
    (same : ∀ name type t', Refers buf t fields name t' → schema.record name = .ok type →
      visit type t' = visit' type t') :
    visitField buf schema limits visit t f = visitField buf schema limits visit' t f := by
  simp only [visitField]
  cases kind : f.type with
  | scalar | enumeration | struct | text => rfl
  | record name =>
    refine read_congr fun place found => ?_
    cases place with
    | none => rfl
    | some pos =>
      refine read_congr fun type known => read_congr fun t' read => ?_
      exact same name type t' (.field mem kind (target_visited found) read) known
  | vector element =>
    refine read_congr fun place found => ?_
    cases place with
    | none => rfl
    | some pos =>
      dsimp only
      simp only [visitVector]
      refine read_congr fun _ _ => ?_
      cases element with
      | scalar | struct | text => rfl
      | record name =>
        refine read_congr fun type known => read_congr fun header read => forM_congr fun i below => ?_
        refine read_congr fun place followed => read_congr fun t' read' => ?_
        exact same name type t' (.element mem kind (target_visited found) read
          (List.mem_range.1 below) followed read') known

/-- A record is visited through the references of its fields. -/
theorem visitRecord_same {type : RecordType}
    (same : ∀ name type' t', Refers buf t type.fields name t' → schema.record name = .ok type' →
      visit type' t' = visit' type' t') :
    visitRecord buf schema limits visit type t = visitRecord buf schema limits visit' type t := by
  simp only [visitRecord]
  refine bind_congr fun _ => read_congr fun _ _ => ?_
  exact forM_congr fun f mem => visitField_same mem same

theorem visitRecord_descends (buf : Bytes) (schema : Schema) (limits : Limits) :
    Descends buf (visitRecord buf schema limits) := fun _ _ _ _ same =>
  visitRecord_same fun _ type' t' refers _ => same type' t' refers.behind.1 refers.behind.2

end Verifying

section Decoding

variable {child child' : Child} {owner : Nat} {view : FieldView} {name : String} {t' : Table}

/-- The records that a field was found to refer to. -/
inductive FieldView.Shows (buf : Bytes) : FieldView → String → Table → Prop where
  | single {name : String} {t : Table} : Shows buf (.single (.record name t)) name t
  | element {v : FieldVector} {i : Nat} {name : String} {t : Table}
      (found : v.get buf i = .ok (.record name t)) : Shows buf (.vector v) name t

/-- What was read on the way to a record or a vector. -/
def FieldView.Found (buf : Bytes) (schema : Schema) (t : Table) (f : RecordField) : FieldView → Prop
  | .single (.record name t') => f.type = .record name ∧
    ∃ pos, t.target buf f.slot = .ok (some pos) ∧ Table.read buf pos = .ok t'
  | .vector v => ∃ element pos, f.type = .vector element ∧ t.target buf f.slot = .ok (some pos) ∧
    element.resolve schema = .ok v.element ∧
    vectorHeader buf pos v.element.inlineSize = .ok (v.start, v.length)
  | _ => True

theorem Table.field_found (found : t.field buf schema f = .ok view) : view.Found buf schema t f := by
  simp only [Table.field] at found
  cases kind : f.type with
  | scalar | enumeration =>
    simp only [kind] at found
    obtain ⟨typed, -, found⟩ := bind_eq_ok.1 found
    obtain ⟨place, -, found⟩ := bind_eq_ok.1 found
    cases place with
    | none =>
      cases found
      trivial
    | some pos =>
      obtain ⟨bytes, -, rfl⟩ := map_eq_ok found
      trivial
  | struct =>
    simp only [kind] at found
    obtain ⟨type, -, found⟩ := bind_eq_ok.1 found
    obtain ⟨bytes, -, rfl⟩ := map_eq_ok found
    cases bytes <;> trivial
  | text =>
    simp only [kind] at found
    obtain ⟨bytes, -, rfl⟩ := map_eq_ok found
    cases bytes <;> trivial
  | record =>
    simp only [kind] at found
    obtain ⟨record, read, rfl⟩ := map_eq_ok found
    obtain ⟨place, target, read⟩ := bind_eq_ok.1 read
    cases record with
    | none => trivial
    | some record =>
      cases place with
      | none => cases read
      | some pos =>
        obtain ⟨t'', read, same⟩ := map_eq_ok read
        cases same
        exact ⟨kind, pos, target, read⟩
  | vector element =>
    simp only [kind] at found
    obtain ⟨place, target, found⟩ := bind_eq_ok.1 found
    cases place with
    | none =>
      cases found
      trivial
    | some pos =>
      obtain ⟨e, resolved, found⟩ := bind_eq_ok.1 found
      obtain ⟨header, read, found⟩ := bind_eq_ok.1 found
      cases found
      exact ⟨element, pos, kind, target, resolved, read⟩

/-- What a field shows it refers to. -/
theorem shows_refers (mem : f ∈ fields) (found : t.field buf schema f = .ok view)
    (shows : view.Shows buf name t') : Refers buf t fields name t' := by
  cases shows with
  | single =>
    obtain ⟨kind, pos, target, read⟩ := Table.field_found found
    exact .field mem kind target read
  | @element v i _ _ shown =>
    obtain ⟨element, pos, kind, target, resolved, header⟩ := Table.field_found found
    obtain ⟨below, read⟩ := check_eq_ok.1 (FieldVector.get_eq .. ▸ shown)
    cases get_of resolved shown with
    | record =>
      obtain ⟨_, -, same⟩ := map_eq_ok resolved
      rw [← same] at header read
      obtain ⟨place, followed, read⟩ := bind_eq_ok.1 read
      obtain ⟨t'', read, same⟩ := map_eq_ok read
      cases same
      exact .element mem kind target header (Nat.not_le.1 below) followed read

theorem decodeField_same (same : ∀ name t', view.Shows buf name t' → child name t' = child' name t') :
    decodeField buf limits child owner view = decodeField buf limits child' owner view := by
  have element (e : ElementView) (owner : Nat)
      (same : ∀ name t', e = .record name t' → child name t' = child' name t') :
      decodeElement limits child owner e = decodeElement limits child' owner e := by
    cases e with
    | record name t' => rw [decodeElement, decodeElement, same name t' rfl]
    | scalar | text | struct => rfl
  cases view with
  | absent => rfl
  | single e =>
    refine congrArg (some <$> ·) (element e owner fun name t' record => ?_)
    exact same name t' (record ▸ .single)
  | vector v =>
    refine congrArg (some <$> ·) (bind_congr fun _ => congrArg (· >>= _) ?_)
    refine mapM_congr fun i _ => read_congr fun e found => element e v.start fun name t' record => ?_
    exact same name t' (.element (record ▸ found))

/-- A record is decoded through the references of its fields. -/
theorem decodeRecord_same (same : ∀ type, schema.record name = .ok type → ∀ name' t',
      Refers buf t type.liveFields name' t' → child name' t' = child' name' t') :
    decodeRecord buf schema limits child name t = decodeRecord buf schema limits child' name t := by
  simp only [decodeRecord]
  refine bind_congr fun _ => read_congr fun type known => foldlM_congr [] fun r f mem => ?_
  refine read_congr fun view found => congrArg (· >>= _) (decodeField_same fun name' t' shows => ?_)
  exact same type known name' t' (shows_refers mem found shows)

theorem decodeRecord_descends (buf : Bytes) (schema : Schema) (limits : Limits) :
    Descends buf (decodeRecord buf schema limits) := fun _ _ _ _ same =>
  decodeRecord_same fun _ _ name' t' refers => same name' t' refers.behind.1 refers.behind.2

end Decoding

end Walks

section Ends

variable {buf : Bytes} {schema : Schema} {limits : Limits} {t : Table} {levels : Nat}

/-- What stands at the bottom of the recursion does not matter when there are levels enough. -/
theorem Descends.bottom_unreached {step : (ρ → Table → Counted α) → ρ → Table → Counted α}
    (descends : Descends buf step) (enough : room buf t < levels)
    (bottom bottom' : ρ → Table → Counted α) (r : ρ) :
    step^[levels] bottom r t = step^[levels] bottom' r t := by
  induction levels generalizing r t with
  | zero => exact absurd enough (Nat.not_lt_zero _)
  | succ levels ih =>
    rw [Function.iterate_succ_apply', Function.iterate_succ_apply']
    refine descends _ _ _ _ fun r' t' behind within => ih ?_ r'
    exact Nat.lt_of_lt_of_le (within.room_lt behind) (Nat.le_of_lt_succ enough)

theorem visitLevels_eq (buf : Bytes) (schema : Schema) (limits : Limits) (levels : Nat) :
    visitLevels buf schema limits levels = (visitRecord buf schema limits)^[levels]
      fun _ t => throw (.corrupt t.position .tooDeep) := by
  induction levels with
  | zero => rfl
  | succ levels ih => rw [Function.iterate_succ_apply', ← ih, visitLevels]

theorem decodeLevels_eq (buf : Bytes) (schema : Schema) (limits : Limits) (levels : Nat) :
    decodeLevels buf schema limits levels = (decodeRecord buf schema limits)^[levels]
      fun _ t => throw (.corrupt t.position .tooDeep) := by
  induction levels with
  | zero => rfl
  | succ levels ih => rw [Function.iterate_succ_apply', ← ih, decodeLevels]

variable {child : Child} {view : FieldView} {v : Value} {n : Nat}

/-- A decoder that gives records nested no deeper than there is room for. -/
def Shallow (buf : Bytes) (child : Child) : Prop :=
  ∀ name t r, Passes (child name t) r → Value.levelsEntries r ≤ room buf t

theorem element_levels {e : ElementView}
    (decodes : e.Decodes (fun _ t r => Value.levelsEntries r ≤ room buf t) v)
    (deeper : ∀ name t', e = .record name t' → room buf t' < n) : v.levels ≤ n := by
  cases decodes with
  | scalar => exact Nat.zero_le _
  | text =>
    rw [ownedText]
    split <;> exact Nat.zero_le _
  | record inner => exact Nat.succ_le_of_lt (Nat.lt_of_le_of_lt inner (deeper _ _ rfl))
  | struct => exact Nat.zero_le _

theorem field_levels (decodes : view.Decodes (fun _ t r => Value.levelsEntries r ≤ room buf t) buf (some v))
    (deeper : ∀ name t', view.Shows buf name t' → room buf t' < n) : v.levels ≤ n := by
  cases decodes with
  | single decodes =>
    refine element_levels decodes fun name t' record => deeper name t' ?_
    subst record
    exact .single
  | vector each =>
    refine Value.levelsItems_le.2 fun item mem => ?_
    obtain ⟨i, -, e, found, decodes⟩ := related_right each mem
    refine element_levels decodes fun name t' record => deeper name t' ?_
    subst record
    exact .element found

theorem decodeRecord_shallow (shallow : Shallow buf child) :
    Shallow buf (decodeRecord buf schema limits child) := by
  intro name t r decoded
  obtain ⟨type, -, set⟩ := decodeRecord_decodes decoded
  refine Value.levelsEntries_le.2 fun entry mem => ?_
  rcases set.entry mem with none | ⟨f, live, view, found, decodes⟩
  · cases none
  · refine field_levels (decodes.mono shallow) fun name t' shows => ?_
    obtain ⟨behind, within⟩ := (shows_refers live found shows).behind
    exact within.room_lt behind

theorem decodeLevels_shallow (levels : Nat) : Shallow buf (decodeLevels buf schema limits levels) := by
  induction levels with
  | zero => exact fun _ _ _ decoded => (decodeLevels_zero decoded).elim
  | succ levels ih => exact decodeRecord_shallow ih

end Ends

section Limits

variable {b : Buffer} {t : Table} {schema : Schema} {limits : Limits} {name : String} {r : Record}

theorem toOwned_shallow (found : b.root = .ok t) (owned : toOwned b.bytes schema name t limits = .ok r) :
    5 * (Value.levelsEntries r + 1) ≤ b.bytes.size := by
  obtain ⟨n, run⟩ := run'_eq_ok.1 owned
  have levels := decodeLevels_shallow _ name t r ⟨0, n, run⟩
  have room := (Buffer.root_room found).2
  omega

/-- Opening a buffer leaves its bytes as they are. -/
theorem Buffer.bytes_openWith {bytes : Bytes} {options : ReaderOptions}
    (opened : Buffer.openWith bytes options schema = .ok b) : b.bytes = bytes := by
  obtain ⟨b', front, opened⟩ := bind_eq_ok.1 opened
  obtain ⟨_, -, same⟩ := bind_eq_ok.1 opened
  cases same
  obtain ⟨-, same⟩ := check_eq_ok.1 front
  cases same
  rfl

theorem decodeRoot_shallow {bytes : Bytes} {options : ReaderOptions}
    (decoded : decodeRoot schema bytes options = .ok r) :
    5 * (Value.levelsEntries r + 1) ≤ bytes.size := by
  obtain ⟨b, opened, decoded⟩ := bind_eq_ok.1 decoded
  obtain ⟨root, -, decoded⟩ := bind_eq_ok.1 decoded
  obtain ⟨t, found, owned⟩ := bind_eq_ok.1 decoded
  obtain rfl := Buffer.bytes_openWith opened
  exact toOwned_shallow found owned

theorem levels_enough (found : b.root = .ok t) {levels : Nat} (enough : b.bytes.size / 5 ≤ levels) :
    room b.bytes t < levels := by
  have room := (Buffer.root_room found).2
  omega

/-- Whoever stands at the bottom of the recursion is not met when there are levels enough for the buffer. -/
theorem visitLevels_ends (found : b.root = .ok t) {levels : Nat} (enough : b.bytes.size / 5 ≤ levels)
    (root : RecordType) (bottom : Visit) :
    (visitRecord b.bytes schema limits)^[levels] bottom root t =
      visitLevels b.bytes schema limits levels root t := by
  rw [visitLevels_eq]
  exact (visitRecord_descends _ _ _).bottom_unreached (levels_enough found enough) _ _ root

theorem decodeLevels_ends (found : b.root = .ok t) {levels : Nat} (enough : b.bytes.size / 5 ≤ levels)
    (name : String) (bottom : Child) :
    (decodeRecord b.bytes schema limits)^[levels] bottom name t =
      decodeLevels b.bytes schema limits levels name t := by
  rw [decodeLevels_eq]
  exact (decodeRecord_descends _ _ _).bottom_unreached (levels_enough found enough) _ _ name

/-- The limit on the depth is looked at between the records only. -/
theorem visitField_depth (buf : Bytes) (schema : Schema) (limits : Limits) (depth : Nat) :
    visitField buf schema { limits with maxDepth := depth } = visitField buf schema limits := by
  funext visit t f
  simp only [visitField]
  cases f.type with
  | vector element => cases element <;> rfl
  | _ => rfl

theorem visitRecord_depth (buf : Bytes) (schema : Schema) (limits : Limits) (depth : Nat) :
    visitRecord buf schema { limits with maxDepth := depth } = visitRecord buf schema limits := by
  funext visit type t
  simp only [visitRecord, visitField_depth]
  rfl

/-- So a larger limit changes nothing. -/
theorem verify_deeper (b : Buffer) (schema : Schema) (root : RecordType)
    (enough : b.bytes.size / 5 ≤ limits.maxDepth + 1) (more : Nat) :
    verify b schema root { limits with maxDepth := limits.maxDepth + more } =
      verify b schema root limits := by
  simp only [verify]
  cases found : b.root with
  | error e => rw [error_bind, error_bind]
  | ok t =>
    rw [ok_bind, ok_bind, visitLevels_eq, visitRecord_depth, Nat.add_right_comm,
      Function.iterate_add_apply, visitLevels_ends found enough]

theorem toOwned_deeper (found : b.root = .ok t) (enough : b.bytes.size / 5 ≤ limits.maxDepth + 1)
    (more : Nat) :
    toOwned b.bytes schema name t { limits with maxDepth := limits.maxDepth + more } =
      toOwned b.bytes schema name t limits := by
  have same : decodeRecord b.bytes schema { limits with maxDepth := limits.maxDepth + more } =
      decodeRecord b.bytes schema limits := rfl
  simp only [toOwned]
  rw [decodeLevels_eq, same, Nat.add_right_comm, Function.iterate_add_apply,
    decodeLevels_ends found enough]

/-- A reference leads at least five bytes past the beginning of its record. Both walks go on only along references
and end by themselves, so that no limit on the depth past a fifth of the buffer changes them. Records that are nested
in one another take five bytes each, those that come out of a buffer too. -/
theorem nesting_bounded (found : b.root = .ok t) (schema : Schema) (limits : Limits) :
    (∀ holder fields name record, Refers b.bytes holder fields name record →
      holder.position + 5 ≤ record.position) ∧
    Descends b.bytes (visitRecord b.bytes schema limits) ∧
    Descends b.bytes (decodeRecord b.bytes schema limits) ∧
    (∀ levels, b.bytes.size / 5 ≤ levels →
      (∀ root bottom, (visitRecord b.bytes schema limits)^[levels] bottom root t =
        visitLevels b.bytes schema limits levels root t) ∧
      ∀ name bottom, (decodeRecord b.bytes schema limits)^[levels] bottom name t =
        decodeLevels b.bytes schema limits levels name t) ∧
    (b.bytes.size / 5 ≤ limits.maxDepth + 1 → ∀ more,
      (∀ root, verify b schema root { limits with maxDepth := limits.maxDepth + more } =
        verify b schema root limits) ∧
      ∀ name, toOwned b.bytes schema name t { limits with maxDepth := limits.maxDepth + more } =
        toOwned b.bytes schema name t limits) ∧
    (∀ root chain, Nested b.bytes schema ((root, t) :: chain) →
      5 * (chain.length + 1) ≤ b.bytes.size) ∧
    ∀ options r, decodeRoot schema b.bytes options = .ok r →
      5 * (Value.levelsEntries r + 1) ≤ b.bytes.size := by
  refine ⟨fun _ _ _ _ refers => refers.behind.1, visitRecord_descends _ _ _,
    decodeRecord_descends _ _ _, fun levels enough => ?_, fun enough more => ?_, fun root chain nested => ?_,
    fun _ _ => decodeRoot_shallow⟩
  · exact ⟨visitLevels_ends found enough, decodeLevels_ends found enough⟩
  · exact ⟨fun root => verify_deeper b schema root enough more, fun name => toOwned_deeper found enough more⟩
  · have room := (Buffer.root_room found).2
    have fits := nested_room nested
    omega

end Limits

/-- A record that can hold others of its type. -/
def link : RecordType := { name := "Link", fields := [.ofType "next" 0 (.vector (.record "Link"))] }

def linkSchema : Schema := { records := [link], root := some "Link" }

/-- A link that holds another one. -/
def linkBuffer : Buffer :=
  { bytes := #[12, 0, 0, 0, 0, 0, 6, 0, 8, 0, 4, 0, 6, 0, 0, 0, 4, 0, 0, 0, 1, 0, 0, 0, 8, 0, 0, 0, 4, 0,
      4, 0, 4, 0, 0, 0]
    rootAt := 0 }

theorem linkBuffer_bounded :
    linkBuffer.root = .ok ⟨12, 6, 6, 8⟩ ∧
    Nested linkBuffer.bytes linkSchema [(link, ⟨12, 6, 6, 8⟩), (link, ⟨32, 28, 4, 4⟩)] ∧
    5 * 2 ≤ linkBuffer.bytes.size ∧
    decodeRoot linkSchema linkBuffer.bytes {} = .ok [("next", .vector [.record []])] ∧
    5 * (Value.levelsEntries [("next", .vector [.record []])] + 1) ≤ linkBuffer.bytes.size :=
  have found : linkBuffer.root = .ok ⟨12, 6, 6, 8⟩ := by decide +kernel
  have mem : RecordField.ofType "next" 0 (.vector (.record "Link")) ∈ link.fields := List.mem_cons_self
  have target : Table.target linkBuffer.bytes ⟨12, 6, 6, 8⟩ 0 = .ok (some 20) := by decide +kernel
  have header : vectorHeader linkBuffer.bytes 20 offsetSize = .ok (24, 1) := by decide +kernel
  have followed : follow linkBuffer.bytes (24 + 0 * offsetSize) = .ok 32 := by decide +kernel
  have read : Table.read linkBuffer.bytes 32 = .ok ⟨32, 28, 4, 4⟩ := by decide +kernel
  have nested : Nested linkBuffer.bytes linkSchema [(link, ⟨12, 6, 6, 8⟩), (link, ⟨32, 28, 4, 4⟩)] :=
    List.isChain_cons_cons.2
      ⟨⟨"Link", .element mem rfl target header Nat.one_pos followed read, by decide +kernel⟩, .singleton _⟩
  have decoded : decodeRoot linkSchema linkBuffer.bytes {} = .ok [("next", .vector [.record []])] := by
    decide +kernel
  have bounded := nesting_bounded found linkSchema {}
  ⟨found, nested, bounded.2.2.2.2.2.1 link _ nested, decoded, bounded.2.2.2.2.2.2 {} _ decoded⟩

end FlatRecord
