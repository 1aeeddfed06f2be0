import LiveCalls.Builtin
import LiveCalls.Conversion
import LiveCalls.Manifest.Basic
import LiveCalls.Script

/-!
# From manifests to scripts

A manifest becomes a script when its names are in order, its types are known and its defaults are
constants of the right type. The first fault, in the order of the file, decides.
-/

namespace LiveCalls.Manifest

/-- What the name of a type is written for. -/
inductive TypeUse where
  | parameter (name function : String)
  | result (function : String)
  | expected (function : String)

def TypeUse.text : TypeUse → String
  | parameter name function => "parameter '" ++ name ++ "' of function '" ++ function ++ "'"
  | result function => "the return value of function '" ++ function ++ "'"
  | expected function => "the expected result of '" ++ function ++ "'"

/-- Why a default cannot be used. -/
inductive DefaultFault where
  | variable (name : String)
  | empty
  | several
  | misfit (value : Constant) (type : VarType)

def DefaultFault.message : DefaultFault → String
  | .variable name => "a default value must be a constant, found variable '" ++ name ++ "'"
  | .empty => "a default value cannot be empty"
  | .several => "a single parameter cannot default to several values"
  | .misfit value type => "the default value " ++ value.literal ++ " is not a " ++ type.name

/-- Why a manifest is no script. -/
inductive Fault where
  | unknownType (name : String) (use : TypeUse)
  | badDefault (param function : String) (fault : DefaultFault)
  | unnamed
  | builtIn (function : String)
  | duplicateParameter (param function : String)
  | definedTwice (function : String)

def Fault.message : Fault → String
  | unknownType name use => "Unknown type '" ++ name ++ "' for " ++ use.text
  | badDefault param function fault =>
    "Invalid " ++ (TypeUse.parameter param function).text ++ ": " ++ fault.message
  | unnamed => "A function needs a name"
  | builtIn function => "The function '" ++ function ++ "' is built in and cannot be redefined"
  | duplicateParameter param function =>
    "Duplicate parameter '" ++ param ++ "' in function '" ++ function ++ "'"
  | definedTwice function => "the function '" ++ function ++ "' is defined twice"

/-- The type of a name, or the fault that there is none. -/
def typeNamed (name : String) (use : TypeUse) : Except Fault VarType :=
  match VarType.parse? name with
  | some type => .ok type
  | none => .error (.unknownType name use)

namespace Term

mutual

/-- The expression that a term stands for, every part of it at one place. -/
def toExpr (pos : Position) : Term → Expr
  | one value => .constants [value] pos
  | many values => .constants values pos
  | var name => .var name .any pos
  | list items => .list (toExprs pos items) pos

def toExprs (pos : Position) : List Term → List Expr
  | [] => []
  | t :: ts => t.toExpr pos :: toExprs pos ts

end

mutual

/-- The constants in a term, in order, or the first variable in it. -/
def constants : Term → Except String (List Constant)
  | one value => .ok [value]
  | many values => .ok values
  | var name => .error name
  | list items => constantsOf items

def constantsOf : List Term → Except String (List Constant)
  | [] => .ok []
  | t :: ts =>
    match t.constants with
    | .error name => .error name
    | .ok cs => (constantsOf ts).map (cs ++ ·)

end

end Term

/-- The values of a default, each converted to the type of its parameter. -/
def defaultValues (t : Term) (type : VarType) (cardinality : Cardinality) :
    Except DefaultFault (List Constant) :=
  match t.constants with
  | .error name => .error (.variable name)
  | .ok cs =>
    if cs.isEmpty then .error .empty
    else if cardinality.isSingle && 1 < cs.length then .error .several
    else cs.mapM fun c =>
      match c.convert? id type with
      | some d => .ok d
      | none => .error (.misfit c type)

def Parameter.compile (function : String) (p : Parameter) :
    Except Fault (LiveCalls.Parameter Point) := do
  let type ← typeNamed p.type (.parameter p.name function)
  let cardinality := Cardinality.ofMultiple p.multiple
  match p.default with
  | none => .ok ⟨p.name, type, cardinality, none⟩
  | some t =>
    match defaultValues t type cardinality with
    | .error fault => .error (.badDefault p.name function fault)
    | .ok cs => .ok ⟨p.name, type, cardinality, some cs⟩

/-- The parameters of a function; `earlier` are the names of those before them. -/
def compileParameters (function : String) (earlier : List String) :
    List Parameter → Except Fault (List (LiveCalls.Parameter Point))
  | [] => .ok []
  | p :: ps => do
    if p.name ∈ earlier then .error (.duplicateParameter p.name function)
    else
      let q ← p.compile function
      let qs ← compileParameters function (p.name :: earlier) ps
      .ok (q :: qs)

def compileReturn (function : String) : Option Return → Except Fault (Option Result)
  | none => .ok none
  | some r => do
    let type ← typeNamed r.type (.result function)
    .ok (some ⟨type, .ofMultiple r.multiple⟩)

/-- A function, its body placed at `pos`. -/
def Function.compile (pos : Position) (f : Function) : Except Fault (ScriptFunction Point) := do
  if f.name = "" then .error .unnamed
  else if Builtin.isName f.name then .error (.builtIn f.name)
  else
    let parameters ← compileParameters f.name [] f.params
    let result ← compileReturn f.name f.returns
    .ok ⟨⟨f.name, parameters, result⟩, f.body.map (Term.toExpr pos)⟩

/-- The functions of a manifest, which are placed on the lines from `line` on; `earlier` are the
names of those before them. -/
def compileFunctions (line : Nat) (earlier : List String) :
    List Function → Except Fault (List (ScriptFunction Point))
  | [] => .ok []
  | f :: fs => do
    let g ← f.compile ⟨line, 1⟩
    if f.name ∈ earlier then .error (.definedTwice f.name)
    else
      let gs ← compileFunctions (line + 1) (f.name :: earlier) fs
      .ok (g :: gs)

def typesNamed (use : TypeUse) : List String → Except Fault (List VarType)
  | [] => .ok []
  | name :: names => do
    let type ← typeNamed name use
    let types ← typesNamed use names
    .ok (type :: types)

/-- A call. Where no line is given it is the place among all calls of the file. -/
def Call.compile (script : String) (place : Nat) (c : Call) : Except Fault WrittenCall := do
  let pos : Position := ⟨match c.line with | some n => n.toNat | none => place, 1⟩
  let expected ← match c.expect with
    | none => .ok none
    | some names => (typesNamed (.expected c.function) names).map some
  .ok ⟨c.function, Term.toExprs pos c.args, expected, ⟨some script, pos⟩⟩

/-- Calls whose places in the file count from `place`. -/
def compileCalls (script : String) (place : Nat) : List Call → Except Fault (List WrittenCall)
  | [] => .ok []
  | c :: cs => do
    let call ← c.compile script place
    let calls ← compileCalls script (place + 1) cs
    .ok (call :: calls)

/-- Triggers whose calls have places that count from `place`. -/
def compileTriggers (script : String) (place : Nat) :
    List Trigger → Except Fault (List LiveCalls.Trigger)
  | [] => .ok []
  | t :: ts => do
    let calls ← compileCalls script place t.calls
    let triggers ← compileTriggers script (place + t.calls.length) ts
    .ok (⟨t.event, calls⟩ :: triggers)

/-- The script that a manifest is, under the name that diagnostics give it. -/
def compile (script : String) (m : Manifest) : Except Fault (Script Point) := do
  let functions ← compileFunctions 1 [] m.functions
  let triggers ← compileTriggers script 1 m.triggers
  .ok ⟨functions, triggers⟩

end LiveCalls.Manifest
