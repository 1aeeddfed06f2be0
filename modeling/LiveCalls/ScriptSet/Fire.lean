import LiveCalls.ScriptSet.Basic

namespace LiveCalls

/-- What came of one call that an event made. -/
structure Fired where
  script : String
  /-- The call as it is written. -/
  call : String
  values : Option (List Value)
  diagnostics : List Diagnostic
  printed : List String

namespace ScriptSet

/-- The calls kept for an event, each with its script, in the order in which they are made. -/
def callsOn (s : ScriptSet) (event : String) : List (String × CallId) :=
  s.scripts.entries.flatMap fun (name, loaded) =>
    (loaded.triggers.filter (·.event = event)).flatMap fun t => t.calls.map (name, ·)

/-- Makes calls one after the other. A call site that found its callable keeps it. -/
def makeCalls (ctx : Context) (l : Linkage) (w : World) :
    List (String × CallId) → List Fired × Linkage × World
  | [] => ([], l, w)
  | (script, id) :: rest =>
    match l.sites.live.get? id with
    | none => makeCalls ctx l w rest
    | some c =>
      let out := c.execute ctx l.registry w
      let fired := ⟨script, out.site.text, out.values, out.diagnostics, out.printed⟩
      let (more, l, w) := makeCalls ctx { l with sites := l.sites.keep out.site } out.world rest
      (fired :: more, l, w)

/-- Fires an event: the calls that were made, the set with the callables they found, and the world
they leave. -/
def fire (s : ScriptSet) (event : String) (ctx : Context) (w : World) :
    List Fired × ScriptSet × World :=
  let (fired, linkage, w) := makeCalls ctx s.linkage w (s.callsOn event)
  (fired, { s with linkage }, w)

end ScriptSet

end LiveCalls
