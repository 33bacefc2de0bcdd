import FlatRecord.Proofs.Codec.Nesting
import FlatRecord.Proofs.Codec.RoundTrip

/-! What is encoded passes verification, with every value at its alignment. The verifier counts the records that
were encoded, and goes as deep as they are nested. -/
namespace FlatRecord

open Builder Build Reading Encoding Verification Counted

variable {schema : Schema} {limits : Limits} {buf : Bytes} {t : Table} {f : RecordField}
  {type : ElementType} {g : Ground} {place : Placement} {visit : Visit} {d : Nat}

theorem aligned_of_dvd {pos alignment : Nat} (whole : alignment ∣ pos) :
    aligned limits pos alignment = .ok () := by
  rw [aligned, if_neg]
  rintro ⟨-, -, off⟩
  exact off (Nat.mod_eq_zero_of_dvd whole)

theorem Ground.Sits.aligned {alignment : Nat} (sits : g.Sits alignment d) (carries : g.Carries buf)
    (limits : Limits) : aligned limits (buf.size - d) alignment = .ok () :=
  aligned_of_dvd (sits.position carries)

/-- Records of that placement are visited, and so many are counted. -/
def PlaceVisited (schema : Schema) (limits : Limits) (place : Placement)
    (count nesting : String → Record → Nat) (buf : Bytes) (g : Ground) : Prop :=
  ∀ name r d type levels, place g name r d → schema.record name = .ok type → nesting name r < levels →
    ∃ t, Table.read buf (buf.size - d) = .ok t ∧
      Gives limits (visitLevels buf schema limits levels type t) () (count name r)

section Objects

theorem TextStands.visited {v : Value} (carries : g.Carries buf) (stands : TextStands g v d) :
    visitText buf limits (buf.size - d) = .ok () := by
  obtain ⟨bytes, -, stored⟩ := stands.stored
  rw [visitText, stands.sits.aligned carries limits, ok_bind,
    text_stored_reads (stored.of_suffix carries.suffix)]
  rfl

/-- Where the elements of a vector begin. -/
theorem VectorLevel.begins {size alignment : Nat} {elements : List Piece}
    (level : VectorLevel g d size alignment elements) (carries : g.Carries buf) :
    alignment ∣ buf.size - d + offsetSize := by
  have stored := level.stored.of_suffix carries.suffix
  have inside := stored.count.le_length
  have room := stored.room
  have first := level.first.position carries
  rw [Array.length_toList] at inside
  rwa [show buf.size - (d - offsetSize) = buf.size - d + offsetSize by omega] at first

variable {count nesting : String → Record → Nat} {items : List Value} {levels : Nat}

/-- Elements that are offsets are visited where the offsets lead. -/
theorem elements_visited {elements : List Piece} (visitAt : Nat → Counted Unit) (cost : Value → Nat)
    (stored : VectorStored buf.toList d offsetSize elements)
    (all : List.Forall₂ (ElementStands schema place g type) items elements)
    (each : ∀ item ∈ items, ∀ p, ElementStands schema place g type item p →
      ∃ kind target, p = .ref kind target ∧ Gives limits (visitAt (buf.size - target)) () (cost item)) :
    Gives limits (visitEach elements.length fun i => do
      visitAt (← follow buf (buf.size - d + offsetSize + i * offsetSize))) ()
      (items.map cost).sum := by
  apply gives_forM
  apply List.forall₂_iff_get.2
  constructor
  · rw [List.length_range, all.length_eq]
  · intro i here there
    rw [List.length_range] at here
    have stands : ElementStands schema place g type items[i] elements[i] := all.get there here
    obtain ⟨kind, target, same, gives⟩ := each _ (List.getElem_mem there) _ stands
    have found : elements[i]? = some (.ref kind target) := by rw [List.getElem?_eq_getElem here, same]
    have followed := follow_stored (stored.element i _ found)
    rw [← element_position stored found] at followed
    simp only [List.get_eq_getElem, List.getElem_range]
    rw [← Nat.zero_add (cost _)]
    exact gives_bind (gives_lift followed) gives

theorem child_visited (children : PlaceVisited schema limits place count nesting buf g) {name : String}
    {record : RecordType} {r : Record} (known : schema.record name = .ok record)
    (stands : place g name r d) (deep : nesting name r < levels) :
    Gives limits (do visitLevels buf schema limits levels record (← Table.read buf (buf.size - d))) ()
      (count name r) := by
  obtain ⟨t, read, gives⟩ := children name r d record levels stands known deep
  rw [← Nat.zero_add (count name r)]
  exact gives_bind (gives_lift read) gives

theorem VectorStands.visited (carries : g.Carries buf)
    (children : PlaceVisited schema limits place count nesting buf g)
    (stands : VectorStands schema place g type items d)
    (deep : ∀ child ∈ nestedIn (.vector type) (.vector items), nesting child.1 child.2 < levels) :
    Gives limits (visitVector buf schema limits (visitLevels buf schema limits levels) (buf.size - d) type)
      () (total count (nestedIn (.vector type) (.vector items))) := by
  obtain ⟨element, elements, resolved, all, level⟩ := stands
  have stored := level.stored.of_suffix carries.suffix
  have header := vectorHeader_stored stored
  have count' := level.count.aligned carries limits
  have begins := level.begins carries
  cases type with
  | scalar t =>
    cases resolved
    change Gives limits _ () (0 + (0 + 0))
    exact gives_bind (gives_lift count')
      (gives_bind (gives_lift header) (gives_lift (aligned_of_dvd begins)))
  | struct name =>
    obtain ⟨s, known, rfl⟩ := map_eq_ok resolved
    change Gives limits _ () (0 + (0 + (0 + 0)))
    exact gives_bind (gives_lift count') (gives_bind (gives_lift known)
      (gives_bind (gives_lift header) (gives_lift (aligned_of_dvd begins))))
  | text =>
    cases resolved
    have each : ∀ item ∈ items, ∀ p, ElementStands schema place g .text item p → ∃ kind target,
        p = .ref kind target ∧ Gives limits (visitText buf limits (buf.size - target)) () 0 := by
      intro item _ p stands
      cases stands with
      | text stands => exact ⟨_, _, rfl, gives_lift (TextStands.visited carries stands)⟩
    have each := elements_visited (fun p => visitText buf limits p) (fun _ => 0) stored all each
    have none : (items.map fun _ => 0).sum = 0 := by simp
    rw [none] at each
    change Gives limits _ () (0 + (0 + 0))
    exact gives_bind (gives_lift count') (gives_bind (gives_lift header) each)
  | record name =>
    obtain ⟨record, known, rfl⟩ := map_eq_ok resolved
    have each : ∀ item ∈ items, ∀ p, ElementStands schema place g (.record name) item p →
        ∃ kind target, p = .ref kind target ∧ Gives limits (do
          visitLevels buf schema limits levels record (← Table.read buf (buf.size - target))) ()
          (total count (recordsAs name item)) := by
      intro item mem p stands
      cases stands with
      | @record name r d stands =>
        have among : (name, r) ∈ items.flatMap (recordsAs name) :=
          List.mem_flatMap.2 ⟨_, mem, List.mem_singleton.2 rfl⟩
        have gives := child_visited children known stands (deep _ among)
        exact ⟨_, _, rfl, by simpa [total, recordsAs] using gives⟩
    have each := elements_visited
      (fun p => do visitLevels buf schema limits levels record (← Table.read buf p))
      (fun item => total count (recordsAs name item)) stored all each
    have whole : total count (nestedIn (.vector (.record name)) (.vector items)) =
        0 + (0 + (0 + (items.map fun item => total count (recordsAs name item)).sum)) := by
      rw [nestedIn, total_flatMap, Nat.zero_add, Nat.zero_add, Nat.zero_add]
    rw [whole]
    exact gives_bind (gives_lift count')
      (gives_bind (gives_lift known) (gives_bind (gives_lift header) each))

end Objects

section Fields

variable {fields : List (Nat × Piece)} {slot : Nat} {p : Piece} {alignment : Nat}

/-- The slot holds the piece, at a multiple of the alignment. -/
def Table.Seats (buf : Bytes) (t : Table) (slot : Nat) (p : Piece) (alignment : Nat) : Prop :=
  ∃ e, PieceStored buf.toList e p ∧ t.fieldPosition buf slot p.size = .ok (some (buf.size - e)) ∧
    alignment ∣ buf.size - e

theorem Table.Seats.target {kind : ObjectKind} {target : Nat}
    (seats : t.Seats buf slot (.ref kind target) offsetSize) :
    offsetTarget buf limits t slot = .ok (some (buf.size - target)) := by
  obtain ⟨e, stored, position, whole⟩ := seats
  have here : t.fieldPosition buf slot offsetSize = .ok (some (buf.size - e)) := position
  rw [offsetTarget, here, ok_bind]
  dsimp only
  rw [aligned_of_dvd whole, ok_bind, follow_stored stored]
  rfl

theorem absent_visited (valid : f.Valid schema) (finds : t.Finds buf fields)
    (missing : f.slot ∉ fields.map (·.1)) : Gives limits (visitField buf schema limits visit t f) () 0 := by
  have nowhere := finds.fieldPosition_absent missing
  have target : offsetTarget buf limits t f.slot = .ok none := by
    rw [offsetTarget, nowhere]
    rfl
  simp only [RecordField.Valid] at valid
  simp only [visitField]
  cases kind : f.type with
  | scalar | enumeration =>
    simp only [kind] at valid
    obtain ⟨default, stored⟩ := valid
    change Gives limits _ () (0 + (0 + 0))
    exact gives_bind (gives_lift stored) (gives_bind (gives_lift (nowhere _)) (gives_pure _))
  | struct name =>
    simp only [kind] at valid
    obtain ⟨s, known⟩ := valid
    change Gives limits _ () (0 + (0 + 0))
    exact gives_bind (gives_lift known) (gives_bind (gives_lift (nowhere _)) (gives_pure _))
  | text | record | vector =>
    change Gives limits _ () (0 + 0)
    exact gives_bind (gives_lift target) (gives_pure _)

variable {count nesting : String → Record → Nat} {levels : Nat} {forced : Bool}

theorem FieldStands.visited (carries : g.Carries buf)
    (children : PlaceVisited schema limits place count nesting buf g) (valid : f.Valid schema) {v : Value}
    {waiting : Pending} (stands : FieldStands schema place g f v waiting)
    (written : waiting.field? forced = some (slot, p)) (seats : t.Seats buf f.slot p waiting.alignment)
    (deep : ∀ child ∈ nestedIn f.type v, nesting child.1 child.2 < levels) :
    Gives limits (visitField buf schema limits (visitLevels buf schema limits levels) t f) ()
      (total count (nestedIn f.type v)) := by
  simp only [visitField]
  cases stands with
  | @scalar t' v w default stored converted =>
    simp only [Pending.field?] at written
    split at written
    · cases written
    · cases written
      obtain ⟨e, -, position, whole⟩ := seats
      have type : w.type = t' := type_fieldScalar converted
      have size : (Piece.own w.toBytes).size = t'.size := by
        rw [← type]
        exact w.length_toBytes
      have aligned : aligned limits (buf.size - e) t'.size = .ok () := by
        rw [← type]
        exact aligned_of_dvd whole
      rw [size] at position
      rcases scalarOf_type stored with ⟨_, kind⟩ | ⟨_, kind⟩
      all_goals
        simp only [kind]
        change Gives limits _ () (0 + (0 + 0))
        exact gives_bind (gives_lift stored) (gives_bind (gives_lift position) (gives_lift aligned))
  | struct kind known written' =>
    cases written
    obtain ⟨e, -, position, whole⟩ := seats
    rw [show (Piece.own _).size = _ from length_structBytes written'] at position
    simp only [kind]
    change Gives limits _ () (0 + (0 + 0))
    exact gives_bind (gives_lift known)
      (gives_bind (gives_lift position) (gives_lift (aligned_of_dvd whole)))
  | text kind stands =>
    cases written
    simp only [kind]
    change Gives limits _ () (0 + 0)
    exact gives_bind (gives_lift seats.target) (gives_lift (TextStands.visited carries stands))
  | vector kind stands =>
    cases written
    simp only [kind] at deep ⊢
    rw [← Nat.zero_add (total _ _)]
    exact gives_bind (gives_lift seats.target) (VectorStands.visited carries children stands deep)
  | @record name r ref kind stands =>
    cases written
    simp only [RecordField.Valid, kind] at valid
    obtain ⟨record, known⟩ := valid
    simp only [kind] at deep ⊢
    have below : nesting name r < levels := deep (name, r) (List.mem_singleton.2 rfl)
    have whole : total count (nestedIn (.record name) (.record r)) = 0 + (0 + count name r) := by
      simp [total, nestedIn, recordsAs]
    rw [whole]
    exact gives_bind (gives_lift seats.target)
      (gives_bind (gives_lift known) (child_visited children known stands below))

end Fields

section Records

variable {count nesting : String → Record → Nat} {forced : Bool} {r : Record} {record : RecordType}
  {pending : List Pending}

/-- A slot that was written was written for a field that the record has a value for. -/
theorem FieldsStand.origin (valid : record.Valid schema)
    (stand : FieldsStand schema place g r (presentFields record r) pending) (mem : f ∈ record.fields)
    (inside : f.slot ∈ (fieldsOf forced (byAlignment pending)).map (·.1)) :
    f ∈ presentFields record r ∧ ∃ p ∈ pending, p.slot = f.slot ∧ (p.field? forced).isSome := by
  obtain ⟨⟨slot, piece⟩, written, same⟩ := List.mem_map.1 inside
  obtain ⟨p, among, here⟩ := List.mem_filterMap.1 (List.mem_reverse.1 written)
  have among := (byAlignment_perm pending).mem_iff.1 among
  have slot : p.slot = f.slot := (slot_of_field? here).symm.trans same
  obtain ⟨other, present, v, -, stands⟩ := related_right stand among
  have live := List.mem_of_mem_filter (List.mem_of_mem_filter present)
  have equal : other = f :=
    List.inj_on_of_nodup_map valid.slots live mem (stands.slot.symm.trans slot)
  exact ⟨equal ▸ present, p, among, slot, by simp [here]⟩

/-- A field that is pending and is not left out stands at the alignment that it asks for. -/
theorem pending_seated (valid : record.Valid schema) (carries : g.Carries buf)
    (stand : FieldsStand schema place g r (presentFields record r) pending) {p : Pending}
    (mem : p ∈ pending) {slot : Nat} {piece : Piece} (written : p.field? forced = some (slot, piece))
    {start table : Nat} {places : List Field}
    (stored : RecordAt buf.toList d start table places (fieldsOf forced (byAlignment pending)))
    (sit : PlacesSit g (askedBy (byAlignment pending)) places) :
    (Table.ofRecord buf.size d start table places).Seats buf slot piece p.alignment := by
  have inside : (slot, piece) ∈ fieldsOf forced (byAlignment pending) := by
    rw [fieldsOf, List.mem_reverse, List.mem_filterMap]
    exact ⟨p, (byAlignment_perm pending).mem_iff.2 mem, written⟩
  obtain ⟨place, among, same, -, piece, position⟩ := stored.found inside
  obtain ⟨alignment, asked, sits⟩ := sit place among
  obtain ⟨q, waiting, asking⟩ := List.mem_map.1 asked
  obtain ⟨slots, rfl⟩ := Prod.mk.inj asking
  -- No other pending field has the slot, so the alignment is the one that this field asks for.
  have equal : q = p := by
    apply List.inj_on_of_nodup_map (stand.distinct valid) ((byAlignment_perm pending).mem_iff.1 waiting)
      mem
    rw [slots, same]
    exact slot_of_field? written
  subst equal
  exact ⟨place.distance, piece, position, sits.position carries⟩

/-- What a field of the type adds to the count. -/
def fieldCount (count : String → Record → Nat) (r : Record) (f : RecordField) : Nat :=
  if f.deprecated then 0 else total count (fieldRecords r f)

theorem sum_fieldCount (count : String → Record → Nat) (record : RecordType) (r : Record) :
    (record.fields.map (fieldCount count r)).sum = total count (childRecords record r) := by
  rw [childRecords, total_flatMap, RecordType.liveFields]
  induction record.fields with
  | nil => rfl
  | cons f rest ih =>
    rw [List.map_cons, List.sum_cons, ih]
    cases deprecated : f.deprecated <;> simp [fieldCount, deprecated]

/-- Fields that the record has no value for add nothing. -/
theorem fieldCount_absent (count : String → Record → Nat) (mem : f ∈ record.fields)
    (absent : f ∉ presentFields record r) : fieldCount count r f = 0 := by
  by_cases old : f.deprecated = true
  · simp [fieldCount, old]
  · have missing : r.get? f.name = none := by
      by_contra here
      apply absent
      rw [presentFields, List.mem_filter, RecordType.liveFields, List.mem_filter]
      exact ⟨⟨mem, by simpa using old⟩, by simpa using Option.isSome_iff_ne_none.2 here⟩
    simp [fieldCount, fieldRecords, missing, total]

theorem fieldCount_present (count : String → Record → Nat) (present : f ∈ presentFields record r)
    {v : Value} (found : r.get? f.name = some v) :
    fieldCount count r f = total count (nestedIn f.type v) := by
  have live := (List.mem_filter.1 (List.mem_of_mem_filter present)).2
  have current : f.deprecated = false := by simpa using live
  simp [fieldCount, current, fieldRecords, found]

/-- Only scalars are left out, and they refer to nothing. -/
theorem nestedIn_elided {v : Value} {p : Pending} (stands : FieldStands schema place g f v p)
    (elided : p.field? forced = none) : nestedIn f.type v = [] := by
  cases stands with
  | scalar stored _ =>
    rcases scalarOf_type stored with ⟨_, kind⟩ | ⟨_, kind⟩
    · simp [kind, nestedIn]
    · simp [kind, nestedIn]
  | struct | text | vector | record => cases elided

/-- Every field of a record that stands is visited, whether it was written or not. -/
theorem fields_visited (valid : record.Valid schema) (carries : g.Carries buf)
    (children : PlaceVisited schema limits place count nesting buf g)
    (stand : FieldsStand schema place g r (presentFields record r) pending) {start table levels : Nat}
    {places : List Field}
    (stored : RecordAt buf.toList d start table places (fieldsOf forced (byAlignment pending)))
    (sit : PlacesSit g (askedBy (byAlignment pending)) places)
    (below : ∀ child ∈ childRecords record r, nesting child.1 child.2 < levels) :
    ∀ f ∈ record.fields, Gives limits (visitField buf schema limits
      (visitLevels buf schema limits levels) (Table.ofRecord buf.size d start table places) f) ()
      (fieldCount count r f) := by
  intro f mem
  by_cases present : f ∈ presentFields record r
  · obtain ⟨p, among, v, found, stands⟩ := related_left stand present
    rw [fieldCount_present count present found]
    cases written : p.field? forced with
    | some written' =>
      obtain ⟨slot, piece⟩ := written'
      have same : slot = f.slot := (slot_of_field? written).trans stands.slot
      subst same
      have seats := pending_seated valid carries stand among written stored sit
      apply FieldStands.visited carries children (valid.fields f mem) stands written seats
      intro child nested
      apply below child
      rw [childRecords, List.mem_flatMap]
      exact ⟨f, List.mem_of_mem_filter present, by rw [fieldRecords, found]; exact nested⟩
    | none =>
      rw [nestedIn_elided stands written]
      apply absent_visited (valid.fields f mem) stored.finds
      intro inside
      obtain ⟨-, q, waiting, slot, isSome⟩ := stand.origin valid mem inside
      have equal : q = p := List.inj_on_of_nodup_map (stand.distinct valid) waiting among
        (slot.trans stands.slot.symm)
      simp [equal, written] at isSome
  · rw [fieldCount_absent count mem present]
    apply absent_visited (valid.fields f mem) stored.finds
    exact fun inside => present (stand.origin valid mem inside).1

theorem record_visited (valid : schema.Valid) (carries : g.Carries buf)
    (children : PlaceVisited schema limits place count nesting buf g) :
    PlaceVisited schema limits (RecordStands schema forced place) (countRecord schema count)
      (nestRecord schema nesting) buf g := by
  rintro name r d record levels ⟨record', pending, known', checked, stand, level⟩ known deep
  cases known.symm.trans known'
  obtain ⟨sits, start, table, places, stored, sit⟩ := level
  have stored := stored.of_suffix carries.suffix
  refine ⟨_, stored.reads, ?_⟩
  cases levels with
  | zero => exact absurd deep (Nat.not_lt_zero _)
  | succ levels =>
    have below : ∀ child ∈ childRecords record r, nesting child.1 child.2 < levels := by
      intro child mem
      simp only [nestRecord, known] at deep
      exact deepest_le.1 (Nat.le_of_lt_succ deep) child mem
    have each := fields_visited (valid.records record (Schema.record_mem known)) carries children stand
      stored sit below
    have whole : countRecord schema count name r =
        1 + (0 + (record.fields.map (fieldCount count r)).sum) := by
      rw [sum_fieldCount, Nat.zero_add]
      simp only [countRecord, known]
    rw [whole]
    apply gives_bind (gives_charge _)
    apply gives_bind (gives_lift (sits.aligned carries limits))
    exact gives_forM (List.forall₂_same.2 each)

theorem levels_visited (valid : schema.Valid) (limits : Limits) (forced : Bool) (levels : Nat)
    (carries : g.Carries buf) : PlaceVisited schema limits (LevelsStand schema forced levels)
      (countLevels schema levels) (nestLevels schema levels) buf g := by
  induction levels with
  | zero => exact fun _ _ _ _ _ never => never.elim
  | succ levels ih => exact record_visited valid carries ih

end Records

section Finishing

variable {b b₁ b₂ : Builder} {root : Ref .record} {identifier : Option Identifier} {sizePrefixed : Bool}
  {bytes : Bytes}

theorem Builder.Fresh.regular (fresh : b.Fresh) : b.Regular := by
  obtain ⟨config, history, rfl | rfl⟩ := fresh
  · exact ⟨0, by decide, rfl⟩
  · exact ⟨0, by decide, rfl⟩

theorem finish_carries (sound : b.Sound) (regular : b.Regular)
    (finished : (finish root identifier sizePrefixed).run b = .ok bytes b₂) : b.ground.Carries bytes := by
  have ended : Finished b root.distance sizePrefixed bytes b₂ :=
    Ends.of_ok (finish_ends sound.region root identifier sizePrefixed) finished
  have whole := Ends.of_ok (finish_aligned sound.region regular root identifier sizePrefixed) finished
  refine ⟨(settled_suffix_written b).trans ended.suffix, ?_⟩
  exact fun k asked => whole k (Nat.le_trans asked (Nat.le_max_left _ _))

/-- What is encoded in a fresh builder and finished opens and passes, whatever follows a size-prefixed buffer. -/
theorem encoded_verifies (valid : schema.Valid) (out : schema.LaidOut) (fresh : b.Fresh) {name : String}
    {type : RecordType} (known : schema.record name = .ok type) {r : Record}
    (encoded : (encode schema name r).run b = .ok root b₁)
    (finished : (finish root identifier sizePrefixed).run b₁ = .ok bytes b₂) (limits : Limits)
    (deep : recordNesting schema name r ≤ limits.maxDepth)
    (many : recordCount schema name r ≤ limits.maxObjects) (more : Bytes) :
    ∃ buf, (if sizePrefixed then Buffer.ofSizePrefixed (bytes ++ more) else Buffer.ofBytes bytes) =
      .ok buf ∧ verify buf schema type limits = .ok () := by
  have written := levels_encode valid out (Record.depth r) b name r fresh.sound rfl rfl
  obtain ⟨proceeds, -, stands⟩ := Ends.of_ok written encoded
  have sound := proceeds.sound
  have carries := finish_carries sound (proceeds.raises.regular fresh.regular) finished
  have ended : Finished b₁ root.distance sizePrefixed bytes b₂ :=
    Ends.of_ok (finish_ends sound.region root identifier sizePrefixed) finished
  obtain ⟨t, read, gives⟩ := levels_visited valid limits b.config.forceDefaults (Record.depth r) carries
    name r root.distance type (limits.maxDepth + 1) stands known (Nat.lt_succ_of_le deep)
  refine ⟨_, ended.opens sound.region more, ?_⟩
  have room : 0 + countLevels schema (Record.depth r) name r ≤ limits.maxObjects := by
    rw [Nat.zero_add]
    exact many
  rw [verify, ended.root_reads sound.region, read, ok_bind, StateT.run'_eq, gives 0 room]
  rfl

theorem rootBuffer_eq {type : RecordType} (rooted : schema.rootRecord = .ok type) (r : Record)
    (config : Config) (sizePrefixed : Bool) : rootBuffer schema r config sizePrefixed =
      match (encode schema type.name r >>= fun root => finish root schema.identifier
        sizePrefixed).run (ofConfig config) with
      | .ok bytes _ => .ok bytes
      | .error e _ => .error e := by
  rw [rootBuffer, rooted, ok_bind]
  rfl

theorem rootBuffer_runs {type : RecordType} (rooted : schema.rootRecord = .ok type) {r : Record}
    {config : Config} (written : rootBuffer schema r config sizePrefixed = .ok bytes) :
    ∃ root b₁ b₂, (encode schema type.name r).run (ofConfig config) = .ok root b₁ ∧
      (finish root schema.identifier sizePrefixed).run b₁ = .ok bytes b₂ := by
  rw [rootBuffer_eq rooted] at written
  split at written
  next run =>
    cases written
    obtain ⟨root, b₁, encoded, finished⟩ := run_bind_eq_ok run
    exact ⟨root, b₁, _, encoded, finished⟩
  next => cases written

/-- The same for the buffer of a root record. -/
theorem rootBuffer_verifies (valid : schema.Valid) (out : schema.LaidOut) {type : RecordType}
    (rooted : schema.rootRecord = .ok type) {r : Record} {config : Config}
    (written : rootBuffer schema r config sizePrefixed = .ok bytes) (limits : Limits)
    (deep : recordNesting schema type.name r ≤ limits.maxDepth)
    (many : recordCount schema type.name r ≤ limits.maxObjects) (more : Bytes) :
    ∃ buf, (if sizePrefixed then Buffer.ofSizePrefixed (bytes ++ more) else Buffer.ofBytes bytes) =
      .ok buf ∧ verify buf schema type limits = .ok () := by
  obtain ⟨root, b₁, b₂, encoded, finished⟩ := rootBuffer_runs rooted written
  exact encoded_verifies valid out ⟨config, [], .inl rfl⟩ (Schema.record_root rooted) encoded finished
    limits deep many more

end Finishing

/-- The type of the point. -/
def point : RecordType := { name := "Point", fields := [.ofType "x" 0 (.scalar .float32),
  .ofType "label" 1 .text] }

/-- The point, finished without a size. -/
def labelledUnsized : Bytes := #[
  12, 0, 0, 0, 8, 0, 12, 0, 8, 0, 4, 0, 8, 0, 0, 0, 8, 0, 0, 0, 0, 0, 128, 63, 1, 0, 0, 0, 97, 0, 0, 0]

/-- If structs have the natural layout, everything that the encoder writes passes verification, with every value at
its alignment: records of any type that are encoded in a fresh builder, and the buffers of root records. -/
theorem encoder_verifies {type : RecordType} (valid : schema.validate = .ok ()) (out : schema.LaidOut)
    (limits : Limits) (known : schema.record type.name = .ok type) (r : Record)
    (deep : recordNesting schema type.name r ≤ limits.maxDepth)
    (many : recordCount schema type.name r ≤ limits.maxObjects) (more : Bytes) :
    (∀ b b₁ b₂ root identifier sizePrefixed bytes, b.Fresh →
      (encode schema type.name r).run b = .ok root b₁ →
      (finish root identifier sizePrefixed).run b₁ = .ok bytes b₂ →
      ∃ buf, (if sizePrefixed then Buffer.ofSizePrefixed (bytes ++ more) else Buffer.ofBytes bytes) =
        .ok buf ∧ verify buf schema type limits = .ok ()) ∧
    ∀ config sizePrefixed bytes, schema.rootRecord = .ok type →
      rootBuffer schema r config sizePrefixed = .ok bytes →
      ∃ buf, (if sizePrefixed then Buffer.ofSizePrefixed (bytes ++ more) else Buffer.ofBytes bytes) =
        .ok buf ∧ verify buf schema type limits = .ok () := by
  have valid := Schema.valid_of_validate valid
  constructor
  · intro b b₁ b₂ root identifier sizePrefixed bytes fresh encoded finished
    exact encoded_verifies valid out fresh known encoded finished limits deep many more
  · intro config sizePrefixed bytes rooted written
    exact rootBuffer_verifies valid out rooted written limits deep many more

theorem labelled_verifies :
    (∃ buf, Buffer.ofSizePrefixed (labelledBuffer ++ #[7]) = .ok buf ∧
      verify buf pointSchema point { maxDepth := 0, maxObjects := 1 } = .ok ()) ∧
    ∃ buf, Buffer.ofBytes labelledUnsized = .ok buf ∧
      verify buf pointSchema point { maxDepth := 0, maxObjects := 1 } = .ok () := by
  have known : pointSchema.record point.name = .ok point := rfl
  obtain ⟨built, root⟩ := encoder_verifies (by decide +kernel) (by decide) { maxDepth := 0, maxObjects := 1 } known
    labelled (by decide +kernel) (by decide +kernel) #[7]
  constructor
  · exact built _ _ _ _ none true _ ⟨{}, [], .inl rfl⟩ labelled_encoded labelled_finished
  · exact root {} false labelledUnsized rfl (by decide +kernel)

/-- A struct that asks for an alignment that is no power of two. -/
def uneven : StructType where
  name := "Uneven"
  members := [("x", .uint8)]
  layout := [⟨"x", .uint8, 0⟩]
  layout_members := rfl
  alignment := 3
  size := 1

def seven : Record := [("one", .struct [("x", .scalar (.uint8 7))])]

/-- Its struct stands at position 17. -/
def unevenBuffer : Bytes := #[12, 0, 0, 0, 0, 0, 6, 0, 8, 0, 5, 0, 6, 0, 0, 0, 0, 7, 0, 0]

/-- Padding is only right for powers of two, so the struct is written where verification does not allow it. -/
theorem uneven_unverified : (Schema.holding uneven).validate = .ok () ∧
    encodeRoot (.holding uneven) seven {} = .ok unevenBuffer ∧
    verify ⟨unevenBuffer, 0⟩ (.holding uneven) (.holding uneven) {} = .error (.corrupt 17 .misaligned) :=
  ⟨Schema.validate_holding uneven, by decide +kernel⟩

end FlatRecord
