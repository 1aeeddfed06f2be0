import LiveCalls.CallSite.Execution
import LiveCalls.CallSite.Validation

/-!
# Linkage

The registry of functions together with the call sites that are bound against it. When a function
is redefined, its callers are told, and every call site among them that is tracked and still there
is validated again.
-/

namespace LiveCalls

/-- The call sites that somebody holds, and the identities of those that follow redefinitions. A
site that is let go of stays tracked until the next news for it. -/
structure CallSites where
  live : Table CallId CallSite
  tracked : Table CallId Unit
  next : CallId

namespace CallSites

def empty : CallSites := ⟨.empty, .empty, 1⟩

def keep (s : CallSites) (c : CallSite) : CallSites := { s with live := s.live.insert c.id c }

def drop (s : CallSites) (id : CallId) : CallSites := { s with live := s.live.erase id }

/-- The call sites with one following redefinitions. Tracking it twice is the same as once. -/
def track (s : CallSites) (id : CallId) : CallSites := { s with tracked := s.tracked.insert id () }

def untrack (s : CallSites) (id : CallId) : CallSites := { s with tracked := s.tracked.erase id }

/-- The tracked call site of this identity, if it is still there. -/
def following? (s : CallSites) (id : CallId) : Option CallSite :=
  if s.tracked.contains id then s.live.get? id else none

/-- An identity that no call site had before. -/
def allot (s : CallSites) : CallId × CallSites := (s.next, { s with next := s.next + 1 })

end CallSites

/-- How many callers a redefinition bound again, and how many it left behind. -/
structure Revalidation where
  rebound : Nat
  stale : Nat
  deriving DecidableEq, Repr, Inhabited

namespace Revalidation

def none : Revalidation := ⟨0, 0⟩

instance : Add Revalidation := ⟨fun a b => ⟨a.rebound + b.rebound, a.stale + b.stale⟩⟩

/-- The count of one validation. -/
def one (accepted : Bool) : Revalidation := if accepted then ⟨1, 0⟩ else ⟨0, 1⟩

end Revalidation

/-- A registry and the call sites bound against it. -/
structure Linkage where
  registry : Registry
  sites : CallSites

namespace Linkage

structure Notified where
  linkage : Linkage
  outcome : Revalidation
  diagnostics : List Diagnostic

/-- Validates the callers again, one after the other. One that is no longer there, or was not
tracked, is passed over and not tracked any more. -/
def notify (l : Linkage) : List CallId → Notified
  | [] => ⟨l, .none, []⟩
  | id :: ids =>
    match l.sites.following? id with
    | none => { l with sites := l.sites.untrack id }.notify ids
    | some c =>
      let v := c.validate .again l.registry
      let rest := notify ⟨v.registry, l.sites.keep v.site⟩ ids
      ⟨rest.linkage, .one v.accepted + rest.outcome, v.diagnostics ++ rest.diagnostics⟩

/-- Passes on the news of one redefinition. -/
def dispatch (l : Linkage) (event : Redefined) : Notified := l.notify event.callers

def forget (l : Linkage) (id : CallId) : Linkage :=
  ⟨l.registry.forget id, (l.sites.untrack id).drop id⟩

end Linkage

end LiveCalls
