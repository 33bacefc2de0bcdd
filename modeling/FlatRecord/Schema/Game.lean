import FlatRecord.Schema.Basic
import FlatRecord.Value

/-! The schema of a small game, and one of its monsters. -/
namespace FlatRecord.Schema.Game

def vec3 : StructType :=
  { name := "Vec3", members := [("x", .float32), ("y", .float32), ("z", .float32)] }

def color : EnumType :=
  { name := "Color"
    underlying := .int8
    variants := [("Red", 0), ("Green", 1), ("Blue", 2)]
    default := "Blue" }

def weapon : RecordType :=
  { name := "Weapon"
    fields := [.ofType "name" 0 .text, .ofType "damage" 1 (.scalar .int16)] }

def monster : RecordType :=
  { name := "Monster"
    fields := [
      .ofType "pos" 0 (.struct "Vec3"),
      { RecordField.ofType "mana" 1 (.scalar .int16) with default := some (.int16 150) },
      { RecordField.ofType "hp" 2 (.scalar .int16) with default := some (.int16 100) },
      .ofType "name" 3 .text,
      { RecordField.ofType "friendly" 4 (.scalar .bool) with deprecated := true },
      .ofType "inventory" 5 (.vector (.scalar .uint8)),
      .ofType "color" 6 (.enumeration "Color"),
      .ofType "weapons" 7 (.vector (.record "Weapon")),
      .ofType "path" 8 (.vector (.struct "Vec3"))] }

def response : RecordType :=
  { name := "Response"
    fields := [.ofType "monsters" 0 (.vector (.record "Monster"))] }

/-- The root is a monster, and the identifier spells MONS. -/
def schema : Schema :=
  { records := [weapon, monster, response]
    structs := [vec3]
    enums := [color]
    root := some "Monster"
    identifier := some #v[0x4D, 0x4F, 0x4E, 0x53] }

/-- A monster with one weapon and nowhere to go, at the place (1, 2, 3). -/
def orc : Record := Record.ofEntries [
  ("pos", .struct (Record.ofEntries [
    ("x", .scalar (.float32 0x3F800000)),
    ("y", .scalar (.float32 0x40000000)),
    ("z", .scalar (.float32 0x40400000))])),
  ("hp", .scalar (.int16 300)),
  ("name", .text "Orc"),
  ("inventory", .vector [.scalar (.uint8 1), .scalar (.uint8 2), .scalar (.uint8 3)]),
  ("color", .scalar (.int8 0)),
  ("weapons", .vector [.record (Record.ofEntries [
    ("name", .text "Axe"), ("damage", .scalar (.int16 50))])]),
  ("path", .vector [])]

end FlatRecord.Schema.Game
