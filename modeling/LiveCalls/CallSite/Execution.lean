import LiveCalls.CallSite.Basic
import LiveCalls.Diagnostic

/-!
# Execution of call sites

A call site evaluates its arguments in a context and hands copies of their values to the callable
it holds, so that nothing a callee does to its slots reaches the caller.
-/

namespace LiveCalls

namespace CallSite

/-- The site with a callable, looked up by name if it holds none. One that was found is kept until
the next successful validation. -/
def resolve (r : Registry) (c : CallSite) : CallSite :=
  match c.binding with
  | .bound s none => { c with binding := .bound s (r.callables.get? c.function) }
  | .unbound none => { c with binding := .unbound (r.callables.get? c.function) }
  | _ => c

/-- One slot per argument, each a copy of the values of its argument. -/
def slotEach (ctx : Context) : List Expr → Heap → List (List Value) × Heap
  | [], h => ([], h)
  | e :: es, h =>
    let (vs, h) := e.eval ctx h
    let (slot, h) := Value.copyAll vs h
    let (slots, h) := slotEach ctx es h
    (slot :: slots, h)

/-- One slot for all arguments: a copy of their values, one argument after the other. -/
def slotAll (ctx : Context) (es : List Expr) (h : Heap) : List (List Value) × Heap :=
  let (vs, h) := Expr.evalItems ctx es h
  let (slot, h) := Value.copyAll vs h
  ([slot], h)

def slots (ctx : Context) (c : CallSite) (h : Heap) : List (List Value) × Heap :=
  if c.spreads && 1 < c.arguments.length then slotAll ctx c.arguments h
  else slotEach ctx c.arguments h

/-- What came of executing a call site: the site with the callable it found, the values, if any,
and what was reported and printed. -/
structure Execution where
  site : CallSite
  values : Option (List Value)
  world : World
  diagnostics : List Diagnostic
  printed : List String

def nothingToRun : String :=
  "Invalid function call to function that does not exist yet. Be careful when using functions " ++
    "during environment load."

/-- Calls the function with the arguments as they are in the context. -/
def execute (ctx : Context) (r : Registry) (c : CallSite) (w : World) : Execution :=
  let c := c.resolve r
  match c.callable? with
  | none => ⟨c, none, w, [⟨c.site, nothingToRun⟩], []⟩
  | some f =>
    let (slots, heap) := c.slots ctx w.heap
    let reply := f.execute slots { w with heap }
    ⟨c, reply.values.map (·.filter c.uptake.admits), reply.world, [], reply.printed⟩

end CallSite

end LiveCalls
