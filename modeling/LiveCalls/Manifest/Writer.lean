import LiveCalls.Json.Basic
import LiveCalls.Manifest.Basic

namespace LiveCalls.Manifest

/-- A double as JSON, which has no infinite numbers and no NaN. -/
def number (x : Float) : Json := if x.isFinite then .number (.real x) else .null

def constant : Constant → Json
  | .bool b => .bool b
  | .num n => number n
  | .str s => .string s
  | .loc p => .object [("loc", .array [number p.x, number p.y, number p.z])]

namespace Term

mutual

def toJson : Term → Json
  | many values => .array (values.map constant)
  | var name => .object [("var", .string name)]
  | list items => .object [("list", .array (toJsons items))]
  | one value => constant value

def toJsons : List Term → List Json
  | [] => []
  | t :: ts => t.toJson :: toJsons ts

end

end Term

/-- An optional part, null where it is absent. -/
def orNull {α : Type} (f : α → Json) : Option α → Json
  | none => .null
  | some a => f a

def Parameter.toJson (p : Parameter) : Json :=
  .object [("name", .string p.name), ("type", .string p.type), ("multiple", .bool p.multiple),
    ("default", orNull Term.toJson p.default)]

def Return.toJson (r : Return) : Json :=
  .object [("type", .string r.type), ("multiple", .bool r.multiple)]

def Function.toJson (f : Function) : Json :=
  .object [("name", .string f.name), ("params", .array (f.params.map Parameter.toJson)),
    ("returns", orNull Return.toJson f.returns), ("body", orNull Term.toJson f.body)]

def Call.toJson (c : Call) : Json :=
  .object [("function", .string c.function), ("args", .array (c.args.map Term.toJson)),
    ("expect", orNull (fun names => .array (names.map .string)) c.expect),
    ("line", orNull (fun n => .number (.natural n)) c.line)]

def Trigger.toJson (t : Trigger) : Json :=
  .object [("on", .string t.event), ("calls", .array (t.calls.map Call.toJson))]

def toJson (m : Manifest) : Json :=
  .object [("functions", .array (m.functions.map Function.toJson)),
    ("triggers", .array (m.triggers.map Trigger.toJson))]

end LiveCalls.Manifest
