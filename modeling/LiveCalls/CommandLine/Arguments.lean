/-!
# Command line arguments

Two commands: `check` takes the folder of the scripts, and `run` also takes an event and variables.
An option is written `--name value`, `--name=value`, `-n value`, `-nvalue` or `-n=value`. A value
that stands by itself does not start with a dash, unless it is one.
-/

namespace LiveCalls.CommandLine

/-- What the program is asked to do. -/
inductive Command where
  | check (scripts : String)
  | run (scripts event : String) (vars : List (String × String)) (watch : Bool)
  deriving DecidableEq, Repr

/-- An option, by what it sets. -/
inductive Flag where
  | scripts | event | var | watch
  deriving DecidableEq, Repr

structure Given where
  scripts : Option String
  event : Option String
  vars : List (String × String)
  watch : Bool

namespace Given

def none : Given := ⟨.none, .none, [], false⟩

/-- A variable by the text before the first equals sign and the value after it. -/
def assignment? (text : String) : Option (String × String) :=
  match text.toList.span (· ≠ '=') with
  | ([], _) | (_, []) => .none
  | (name, _ :: value) => some (String.ofList name, String.ofList value)

/-- The options with one more. The folder and the event are given once, and a folder has a
name. -/
def add (g : Given) (flag : Flag) (value : String) : Option Given :=
  match flag with
  | .scripts => if g.scripts.isSome || value = "" then .none else some { g with scripts := value }
  | .event => if g.event.isSome then .none else some { g with event := value }
  | .var => (assignment? value).map fun v => { g with vars := g.vars ++ [v] }
  | .watch => .none

end Given

/-- The option of a long name. The command `run` knows them all. -/
def longFlag? (run : Bool) : String → Option Flag
  | "scripts" => some .scripts
  | "event" => if run then some .event else none
  | "var" => if run then some .var else none
  | "watch" => if run then some .watch else none
  | _ => none

def shortFlag? (run : Bool) : Char → Option Flag
  | 's' => some .scripts
  | 'e' => if run then some .event else none
  | _ => none

/-- An argument as an option: its flag, and the value that is attached to it. -/
def option? (run : Bool) (arg : String) : Option (Flag × Option String) :=
  match arg.toList with
  | '-' :: '-' :: cs =>
    let (name, value) := cs.span (· ≠ '=')
    (longFlag? run (String.ofList name)).map fun flag =>
      (flag, value.head?.map fun _ => String.ofList value.tail)
  | ['-', c] => (shortFlag? run c).map (·, none)
  | '-' :: c :: '=' :: value => (shortFlag? run c).map (·, some (String.ofList value))
  | '-' :: c :: value => (shortFlag? run c).map (·, some (String.ofList value))
  | _ => none

/-- Whether an argument can be the value of the option before it. -/
def isValue (arg : String) : Bool := arg = "-" || !arg.startsWith "-"

/-- The options in a row of arguments. The mark `--` ends them, and nothing may follow. -/
def options? (run : Bool) (g : Given) : List String → Option Given
  | [] => some g
  | ["--"] => some g
  | arg :: rest =>
    match option? run arg with
    | none => none
    | some (.watch, none) => if g.watch then none else options? run { g with watch := true } rest
    | some (flag, some value) =>
      match g.add flag value with
      | none => none
      | some g => options? run g rest
    | some (flag, none) =>
      match rest with
      | [] => none
      | value :: rest =>
        match if isValue value then g.add flag value else none with
        | none => none
        | some g => options? run g rest

def Command.parse? : List String → Option Command
  | "check" :: args => do
    let g ← options? false .none args
    some (.check (← g.scripts))
  | "run" :: args => do
    let g ← options? true .none args
    some (.run (← g.scripts) (← g.event) g.vars g.watch)
  | _ => none

end LiveCalls.CommandLine
