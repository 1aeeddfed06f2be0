import LiveCalls.Json.Reader
import LiveCalls.Manifest.Basic

/-!
# Reading manifests

The JSON form of a manifest. An expression has one of four forms, tried in this order: an array of
constants, an object with a member `var`, an object with a member `list`, a constant. Whatever is
in an expression has to be readable; elsewhere only the parts that are used have to be.
-/

namespace LiveCalls.Manifest

/-- A required field. -/
def required {α : Type} (f : Json → Option α) : Option Json → Option α
  | none => none
  | some j => f j

/-- A field that has a value of its own where it is absent. -/
def defaulted {α : Type} (absent : α) (f : Json → Option α) : Option Json → Option α
  | none => some absent
  | some j => f j

/-- A field that may be absent or null. -/
def optional {α : Type} (f : Json → Option α) : Option Json → Option (Option α)
  | none | some .null => some none
  | some j => (f j).map some

/-- A point by its three coordinates. -/
def point? (j : Json) : Option Point := do
  match ← j.list? Json.number? with
  | [x, y, z] => some ⟨x, y, z⟩
  | _ => none

/-- A constant: a truth value, a number, a string, or an object with a member `loc`. -/
def constant? : Json → Option Constant
  | .bool b => some (.bool b)
  | .number n => some (.num n.value)
  | .string s => some (.str s)
  | .object ms =>
    match Json.named "loc" ms with
    | [j] => (point? j).map .loc
    | _ => none
  | _ => none

namespace Term

mutual

/-- The first of the four forms that fits. -/
def form? : Json → Option Term
  | .array items => (items.mapM constant?).map many
  | .object ms =>
    match Json.named "var" ms with
    | [.string name] => some (var name)
    | _ =>
      match lists ms with
      | [some items] => some (list items)
      | _ => (constant? (.object ms)).map one
  | j => (constant? j).map one

/-- The lists that the members `list` of an object are. -/
def lists : List (String × Json) → List (Option (List Term))
  | [] => []
  | (k, j) :: ms => if k = "list" then items? j :: lists ms else lists ms

/-- The expressions in an array. -/
def items? : Json → Option (List Term)
  | .array items => forms? items
  | _ => none

def forms? : List Json → Option (List Term)
  | [] => some []
  | j :: js =>
    match form? j with
    | none => none
    | some t => (forms? js).map (t :: ·)

end

/-- The expression that the JSON is. -/
def ofJson? (j : Json) : Option Term := if j.isReadable then form? j else none

end Term

def Parameter.ofJson? (j : Json) : Option Parameter := do
  match ← j.record? ["name", "type", "multiple", "default"] with
  | [name, type, multiple, default] =>
    some ⟨← required Json.string? name, ← required Json.string? type,
      ← defaulted false Json.bool? multiple, ← optional Term.ofJson? default⟩
  | _ => none

def Return.ofJson? (j : Json) : Option Return := do
  match ← j.record? ["type", "multiple"] with
  | [type, multiple] =>
    some ⟨← required Json.string? type, ← defaulted false Json.bool? multiple⟩
  | _ => none

def Function.ofJson? (j : Json) : Option Function := do
  match ← j.record? ["name", "params", "returns", "body"] with
  | [name, params, returns, body] =>
    some ⟨← required Json.string? name, ← defaulted [] (Json.list? Parameter.ofJson?) params,
      ← optional Return.ofJson? returns, ← optional Term.ofJson? body⟩
  | _ => none

def Call.ofJson? (j : Json) : Option Call := do
  match ← j.record? ["function", "args", "expect", "line"] with
  | [function, args, expect, line] =>
    some ⟨← required Json.string? function, ← defaulted [] (Json.list? Term.ofJson?) args,
      ← optional (Json.list? Json.string?) expect, ← optional Json.natural? line⟩
  | _ => none

def Trigger.ofJson? (j : Json) : Option Trigger := do
  match ← j.record? ["on", "calls"] with
  | [event, calls] =>
    some ⟨← required Json.string? event, ← defaulted [] (Json.list? Call.ofJson?) calls⟩
  | _ => none

def ofJson? (j : Json) : Option Manifest := do
  match ← j.record? ["functions", "triggers"] with
  | [functions, triggers] =>
    some ⟨← defaulted [] (Json.list? Function.ofJson?) functions,
      ← defaulted [] (Json.list? Trigger.ofJson?) triggers⟩
  | _ => none

/-- The manifest that a text is. -/
def parse? (text : String) : Option Manifest := do ofJson? (← Json.parse? text)

def Term.parse? (text : String) : Option Term := do ofJson? (← Json.parse? text)

end LiveCalls.Manifest
