import LiveCalls.CommandLine.Arguments
import LiveCalls.ScriptSet.Fire
import LiveCalls.ScriptSet.Load
import LiveCalls.Text.Terminal

/-!
# Commands and what they report

`check` loads a folder and fails if a call does not fit its function. `run` loads a folder and
fires one event. Both answer with lines of text and an exit status.
-/

namespace LiveCalls.CommandLine

/-- What a command leaves behind: the exit status, and the lines it wrote. -/
structure Report where
  status : Nat
  lines : List String
  deriving DecidableEq, Repr

/-- How grave a line is. -/
inductive Level where
  | info | error
  deriving DecidableEq, Repr

def Level.text : Level → String
  | info => "INFO"
  | error => "ERROR"

/-- A line: what it says, made legible, and then details by name, which are left as they are. -/
def line (level : Level) (message : String) (details : List (String × String)) : String :=
  level.text ++ " " ++ legible message ++
    String.join (details.map fun (name, value) => " " ++ name ++ "=" ++ value)

def diagnosticLine (d : Diagnostic) : String :=
  line .error d.message (d.site.toList.map fun site => ("at", site.text))

/-- The line on which a command that fails says why. -/
def failureLine (reason : String) : String := line .error ("Application error: " ++ reason) []

def counts (s : ScriptSet) : List (String × String) :=
  [("scripts", toString s.scripts.size), ("calls", toString s.callCount)]

/-- What was reported while loading, and the size of what is loaded. -/
def loadedLines (l : ScriptSet.Loaded) : List String :=
  l.diagnostics.map diagnosticLine ++ [line .info "scripts loaded" (counts l.set)]

/-- The line on which scripts that cannot be loaded are given up. -/
def loadFailure (cause : LoadError → String) (e : LoadError) : String :=
  failureLine ("loading scripts failed: " ++ e.message cause)

def valuesText (h : Heap) : Option (List Value) → String
  | some vs => ", ".intercalate (vs.map (Value.text h))
  | none => "<none>"

/-- What one call reported and printed, and what came back. -/
def firedLines (h : Heap) (f : Fired) : List String :=
  f.diagnostics.map diagnosticLine ++ f.printed.map (line .info · []) ++
    [line .info "call executed"
      [("script", f.script), ("call", f.call), ("result", valuesText h f.values)]]

/-- The values of a variable given on the command line: those of the expression that the text is,
or else the text itself. Variables in the expression are not set. -/
def variableValues (text : String) (h : Heap) : List Value × Heap :=
  let term := (Manifest.Term.parse? text).getD (.one (.str text))
  (term.toExpr .unknown).eval .empty h

/-- The context with the variables given on the command line; of two of one name the later
counts. -/
def contextOf (ctx : Context) : List (String × String) → Heap → Context × Heap
  | [], h => (ctx, h)
  | (name, text) :: rest, h =>
    let (vs, h) := variableValues text h
    contextOf (ctx.set name vs) rest h

section
variable (cause : LoadError → String)

/-- Loads the scripts and says whether all their calls fit. -/
def check (d : Disk) (root : Path) : Report :=
  let start := line .info "checking scripts" [("root", root.text)]
  match ScriptSet.load d root .empty with
  | .error e => ⟨1, [start, loadFailure cause e]⟩
  | .ok l =>
    let problems := l.diagnostics.length
    if problems = 0 then
      ⟨0, start :: loadedLines l ++ [line .info "all calls are valid" (counts l.set)]⟩
    else ⟨1, start :: loadedLines l ++ [failureLine (toString problems ++ " problem(s) found")]⟩

/-- Loads the scripts and fires an event. That the scripts are to be watched is said, and left to
whoever keeps the program running. -/
def run (d : Disk) (root : Path) (event : String) (vars : List (String × String)) (watch : Bool) :
    Report :=
  let start := line .info "running scripts"
    [("root", root.text), ("event", event), ("watch_enabled", Datum.boolText watch)]
  match ScriptSet.load d root .empty with
  | .error e => ⟨1, [start, loadFailure cause e]⟩
  | .ok l =>
    let (ctx, heap) := contextOf .empty vars l.heap
    let (fired, _, w) := l.set.fire event ctx ⟨heap, []⟩
    ⟨0, start :: loadedLines l ++ fired.flatMap (firedLines w.heap)⟩

/-- Carries out what the arguments ask for, paths seen from the folder `here`. Arguments that are
no command give the status 2 and no line. -/
def respond (d : Disk) (here : Path) (args : List String) : Report :=
  match Command.parse? args with
  | none => ⟨2, []⟩
  | some (.check scripts) => check cause d (here.join ⟨scripts⟩)
  | some (.run scripts event vars watch) =>
    run cause d (here.join ⟨scripts⟩) event vars watch

end

end LiveCalls.CommandLine
