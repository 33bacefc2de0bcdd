import FlatRecord.Proofs.Codec.Normal
import FlatRecord.Proofs.Reading.Extended
import FlatRecord.Proofs.Reading.Positions

/-! Where the objects of a buffer end. A walk that passes has asked for the end of every object that it came to,
so it does not pass in a buffer that was cut off in front of one of those ends. -/
namespace FlatRecord

open Reading Verification

/-- The object at `pos`, or one that it leads to, ends at `stop`. The zero behind a text belongs to it. -/
inductive Spans (buf : Bytes) (schema : Schema) : FieldType → (pos stop : Nat) → Prop where
  | text {pos : Nat} {bytes : Bytes} (read : text buf pos = .ok bytes) :
      Spans buf schema .text pos (pos + offsetSize + bytes.size + 1)
  | vector {element : ElementType} {resolved : ResolvedElement} {pos start length : Nat}
      (known : element.resolve schema = .ok resolved)
      (header : vectorHeader buf pos resolved.inlineSize = .ok (start, length)) :
      Spans buf schema (.vector element) pos (start + length * resolved.inlineSize)
  | element {element : ElementType} {resolved : ResolvedElement} {pos start length i place stop : Nat}
      (known : element.resolve schema = .ok resolved)
      (header : vectorHeader buf pos resolved.inlineSize = .ok (start, length)) (below : i < length)
      (followed : follow buf (start + i * offsetSize) = .ok place)
      (spans : Spans buf schema element.asField place stop) : Spans buf schema (.vector element) pos stop
  | record {name : String} {type : RecordType} {pos : Nat} {t : Table}
      (known : schema.record name = .ok type) (read : Table.read buf pos = .ok t) :
      Spans buf schema (.record name) pos (pos + t.inlineSize)
  | field {name : String} {type : RecordType} {pos place stop : Nat} {t : Table} {f : RecordField}
      (known : schema.record name = .ok type) (read : Table.read buf pos = .ok t) (mem : f ∈ type.fields)
      (target : t.target buf f.slot = .ok (some place)) (spans : Spans buf schema f.type place stop) :
      Spans buf schema (.record name) pos stop

/-- A walk that passes came to the object of that type at `pos`. -/
def Walked (buf : Bytes) (schema : Schema) (limits : Limits) : FieldType → (pos : Nat) → Prop
  | .text, pos => visitText buf limits pos = .ok ()
  | .vector element, pos => ∃ levels,
    Passes (visitVector buf schema limits (visitLevels buf schema limits levels) pos element) ()
  | .record name, pos => ∃ levels type t, schema.record name = .ok type ∧ Table.read buf pos = .ok t ∧
    Passes (visitLevels buf schema limits levels type t) ()
  | .scalar _, _ | .enumeration _, _ | .struct _, _ => True

variable {buf more : Bytes} {schema : Schema} {limits : Limits} {pos stop : Nat}

theorem text_within {bytes : Bytes} (read : text buf pos = .ok bytes) :
    pos + offsetSize + bytes.size + 1 ≤ buf.size := by
  rw [text_eq] at read
  obtain ⟨length, -, read⟩ := bind_eq_ok.1 read
  cases there : buf[pos + offsetSize + length]? with
  | none => simp [there] at read
  | some terminator =>
    have inside := (Array.getElem?_eq_some_iff.1 there).1
    rw [there] at read
    obtain ⟨-, read⟩ := check_eq_ok.1 read
    rw [slice_ok (Nat.le_add_right _ _) (Nat.le_of_lt inside)] at read
    cases read
    rw [size_slice (Nat.le_of_lt inside)]
    exact inside

/-- What was read before is what is read when more bytes follow. -/
theorem Lasts.back {α : Type} {x y : Except Error α} {a b : α} (lasts : Lasts x y) (first : x = .ok a)
    (known : y = .ok b) : x = .ok b := by
  cases (lasts a first).symm.trans known
  exact first

section Steps

variable {element : ElementType} {resolved : ResolvedElement}

/-- The walk has read the header of a vector that it came to. -/
theorem Walked.header {header : Nat × Nat} (walked : Walked buf schema limits (.vector element) pos)
    (known : element.resolve schema = .ok resolved)
    (read : vectorHeader (buf ++ more) pos resolved.inlineSize = .ok header) :
    vectorHeader buf pos resolved.inlineSize = .ok header := by
  obtain ⟨levels, walked⟩ := walked
  obtain ⟨-, -, walked⟩ := passes_lift_bind walked
  suffices found : ∃ first, vectorHeader buf pos resolved.inlineSize = .ok first by
    obtain ⟨first, found⟩ := found
    exact (vectorHeader_lasts more pos _).back found read
  cases element with
  | scalar | text =>
    cases known
    obtain ⟨first, found, -⟩ := passes_lift_bind walked
    exact ⟨first, found⟩
  | struct | record =>
    obtain ⟨type, known', rfl⟩ := map_eq_ok known
    have walked := passes_known known' walked
    obtain ⟨first, found, -⟩ := passes_lift_bind walked
    exact ⟨first, found⟩

theorem Walked.elementAt {start length i place : Nat}
    (walked : Walked buf schema limits (.vector element) pos)
    (known : element.resolve schema = .ok resolved)
    (header : vectorHeader buf pos resolved.inlineSize = .ok (start, length)) (below : i < length)
    (followed : follow (buf ++ more) (start + i * offsetSize) = .ok place) :
    Walked buf schema limits element.asField place := by
  obtain ⟨levels, walked⟩ := walked
  obtain ⟨-, -, walked⟩ := passes_lift_bind walked
  cases element with
  | scalar | struct => trivial
  | text =>
    cases known
    have walked := passes_known header walked
    have walked := passes_forM walked i (List.mem_range.2 below)
    obtain ⟨first, found, walked⟩ := passes_lift_bind walked
    cases ((follow_lasts more _).back found followed).symm.trans found
    exact passes_lift walked
  | record name =>
    obtain ⟨type, known', rfl⟩ := map_eq_ok known
    have walked := passes_known known' walked
    have walked := passes_known header walked
    have walked := passes_forM walked i (List.mem_range.2 below)
    obtain ⟨first, found, walked⟩ := passes_lift_bind walked
    cases ((follow_lasts more _).back found followed).symm.trans found
    obtain ⟨t, read, walked⟩ := passes_lift_bind walked
    exact ⟨levels, type, t, known', read, walked⟩

/-- From a field the walk goes where the field leads. -/
theorem walked_target {t : Table} {f : RecordField} {levels place : Nat}
    (visited : Passes (visitField buf schema limits (visitLevels buf schema limits levels) t f) ())
    (target : t.target (buf ++ more) f.slot = .ok (some place)) : Walked buf schema limits f.type place := by
  simp only [visitField] at visited
  have same {first : Option Nat} (found : offsetTarget buf limits t f.slot = .ok first) :
      first = some place := by
    have known := (target_lasts more t f.slot).back (target_visited found) target
    exact Except.ok.inj ((target_visited found).symm.trans known)
  cases kind : f.type with
  | scalar | enumeration | struct => trivial
  | text =>
    simp only [kind] at visited
    obtain ⟨first, found, visited⟩ := passes_lift_bind visited
    obtain rfl := same found
    exact passes_lift visited
  | vector element =>
    simp only [kind] at visited
    obtain ⟨first, found, visited⟩ := passes_lift_bind visited
    obtain rfl := same found
    exact ⟨levels, visited⟩
  | record name =>
    simp only [kind] at visited
    obtain ⟨first, found, visited⟩ := passes_lift_bind visited
    obtain rfl := same found
    obtain ⟨type, known, visited⟩ := passes_lift_bind visited
    obtain ⟨t', read, visited⟩ := passes_lift_bind visited
    exact ⟨levels, type, t', known, read, visited⟩

theorem Walked.field {name : String} {type : RecordType} {t : Table} {f : RecordField} {place : Nat}
    (walked : Walked buf schema limits (.record name) pos) (known : schema.record name = .ok type)
    (read : Table.read (buf ++ more) pos = .ok t) (mem : f ∈ type.fields)
    (target : t.target (buf ++ more) f.slot = .ok (some place)) :
    Walked buf schema limits f.type place := by
  obtain ⟨levels, type', t', known', first, walked⟩ := walked
  cases known.symm.trans known'
  cases (readTable_lasts more pos t' first).symm.trans read
  cases levels with
  | zero =>
    obtain ⟨c, n, walked⟩ := walked
    cases walked
  | succ levels =>
    obtain ⟨-, -, walked⟩ := passes_bind walked
    obtain ⟨-, -, walked⟩ := passes_lift_bind walked
    exact walked_target (passes_forM walked f mem) target

end Steps

/-- Where the walk came to an object, the bytes reach to the end of everything that the object leads to, even if
that end was found with more bytes behind them. -/
theorem Walked.reaches {type : FieldType} (walked : Walked buf schema limits type pos)
    (spans : Spans (buf ++ more) schema type pos stop) : stop ≤ buf.size := by
  induction spans with
  | text read =>
    obtain ⟨_, -, walked⟩ := bind_eq_ok.1 walked
    obtain ⟨first, found, -⟩ := bind_eq_ok.1 walked
    exact text_within ((text_lasts more _).back found read)
  | vector known header => exact ((vectorHeader_reads buf _ _).of_ok (walked.header known header)).2
  | element known header below followed _ ih =>
    exact ih (walked.elementAt known (walked.header known header) below followed)
  | record known read =>
    obtain ⟨levels, type, t', -, first, -⟩ := walked
    obtain ⟨here, within⟩ :=
      (Table.read_reads buf _).of_ok ((readTable_lasts more _).back first read)
    exact here ▸ within.record
  | field known read mem target _ ih => exact ih (walked.field known read mem target)

/-- A buffer that opens strictly reaches to the end of everything that its root leads to. -/
theorem opened_reaches {options : ReaderOptions} {type : RecordType} {b : Buffer} {whole : Bytes}
    (strict : options.strict = true) (rooted : schema.rootRecord = .ok type)
    (opened : Buffer.openWith buf options schema = .ok b) (split : whole = buf ++ more)
    (root : follow whole 0 = .ok pos) (spans : Spans whole schema (.record type.name) pos stop) :
    stop ≤ buf.size := by
  subst split
  obtain ⟨b', front, opened⟩ := bind_eq_ok.1 opened
  obtain ⟨_, checked, -⟩ := bind_eq_ok.1 opened
  obtain ⟨-, same⟩ := check_eq_ok.1 front
  cases same
  rw [Buffer.check_eq, rooted, strict, if_pos rfl, ok_bind] at checked
  obtain ⟨_, -, verified⟩ := bind_eq_ok.1 checked
  obtain ⟨t, found, visited⟩ := bind_eq_ok.1 verified
  obtain ⟨first, followed, read⟩ := bind_eq_ok.1 found
  obtain ⟨n, visited⟩ := run'_eq_ok.1 visited
  cases ((follow_lasts more 0).back followed root).symm.trans followed
  have walked : Walked buf schema options.limits (.record type.name) pos :=
    ⟨_, type, t, Schema.record_root rooted, read, 0, n, visited⟩
  exact walked.reaches spans

end FlatRecord
