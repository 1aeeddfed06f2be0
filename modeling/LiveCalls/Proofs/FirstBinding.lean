import LiveCalls.Proofs.Reading
import LiveCalls.Proofs.Replacement
import Mathlib.Data.List.Basic

/-!
# The calls that a first validation keeps

Whether a call is kept when its script is bound, and what it is bound to, depends on the functions
of the registry alone. It is of no account which calls were bound before it, nor what identity it
gets. Of the functions it matters what they are, and not where their defaults lie.
-/

namespace LiveCalls

/-- A call site without its identity. -/
def CallSite.anonymous (c : CallSite) : CallSite := { c with id := 0 }

namespace WrittenCall

def unbound (call : WrittenCall) : CallSite :=
  .fresh 0 call.function (some call.site) call.expected call.arguments .value

def verdict (r : Registry) (call : WrittenCall) : CallSite.Verdict :=
  call.unbound.validate .first r

/-- The site of a call that fits. -/
def bound? (r : Registry) (call : WrittenCall) : Option CallSite :=
  if (call.verdict r).accepted then some (call.verdict r).site else none

def reports (r : Registry) (call : WrittenCall) : List Diagnostic := (call.verdict r).diagnostics

theorem verdict_congr {r r' : Registry} (same : r.SameFunctions r') (call : WrittenCall) :
    call.bound? r' = call.bound? r ∧ call.reports r' = call.reports r := by
  obtain ⟨accepted, site, diagnostics⟩ := CallSite.validate_congr same .first call.unbound
  refine ⟨?_, diagnostics⟩
  unfold bound? verdict
  rw [accepted, site]

theorem verdict_written (l : Linkage) (call : WrittenCall) :
    ((l.written call).validate .first l.registry).accepted = (call.verdict l.registry).accepted ∧
      ((l.written call).validate .first l.registry).site.anonymous =
        (call.verdict l.registry).site ∧
      ((l.written call).validate .first l.registry).diagnostics = call.reports l.registry := by
  have examined : (l.written call).examine .first l.registry [] =
      call.unbound.examine .first l.registry [] := rfl
  unfold reports verdict CallSite.validate
  rw [examined]
  split
  · exact ⟨rfl, rfl, rfl⟩
  · exact ⟨rfl, rfl, rfl⟩

end WrittenCall

namespace Trigger

/-- The event of a trigger and the sites of its calls that fit. -/
def bound (r : Registry) (t : Trigger) : String × List CallSite :=
  (t.event, t.calls.filterMap (·.bound? r))

def reports (r : Registry) (t : Trigger) : List Diagnostic := t.calls.flatMap (·.reports r)

theorem bound_congr {r r' : Registry} (same : r.SameFunctions r') : bound r' = bound r := by
  funext t
  unfold bound
  rw [List.filterMap_congr fun call _ => (call.verdict_congr same).1]

theorem reports_congr {r r' : Registry} (same : r.SameFunctions r') : reports r' = reports r := by
  funext t
  exact List.flatMap_congr fun call _ => (call.verdict_congr same).2

end Trigger

/-- The event of a loaded trigger and the sites that are kept for it, without their identities. -/
def LoadedTrigger.sites (live : Table CallId CallSite) (t : LoadedTrigger) :
    String × List CallSite :=
  (t.event, (t.calls.filterMap live.get?).map CallSite.anonymous)

theorem LoadedTrigger.sites_congr {live live' : Table CallId CallSite} {ts : List LoadedTrigger}
    (same : ∀ id ∈ ts.flatMap (·.calls), live'.get? id = live.get? id) :
    ts.map (·.sites live') = ts.map (·.sites live) := by
  apply List.map_congr_left
  intro t ht
  have found : ∀ id ∈ t.calls, live'.get? id = live.get? id :=
    fun id hid => same id (List.mem_flatMap.mpr ⟨t, ht, hid⟩)
  unfold sites
  rw [List.filterMap_congr found]

namespace Linkage

/-- The sites of the calls that are kept are those that a first validation accepts, in order. -/
theorem bindCalls_sites {l : Linkage} (h : l.Coherent) (calls : List WrittenCall) :
    ((l.bindCalls calls).kept.filterMap (l.bindCalls calls).linkage.sites.live.get?).map
        CallSite.anonymous = calls.filterMap (·.bound? l.registry) ∧
      (l.bindCalls calls).diagnostics = calls.flatMap (·.reports l.registry) := by
  induction calls generalizing l with
  | nil => exact ⟨rfl, rfl⟩
  | cons call calls ih =>
    obtain ⟨accepted, site, diagnostics⟩ := call.verdict_written l
    have one := bindOne_binds h call
    obtain ⟨sites, later⟩ := ih one.coherent
    have same (call : WrittenCall) := call.verdict_congr one.functions
    rw [List.filterMap_congr fun call _ => (same call).1] at sites
    rw [List.flatMap_congr fun call _ => (same call).2] at later
    rw [bindCalls_cons]
    constructor
    · cases ha : (call.verdict l.registry).accepted with
      | false =>
        rw [List.filterMap_cons_none (by simp [WrittenCall.bound?, ha]), ← sites]
        simp only [accepted, ha, Bool.false_eq_true, if_false, List.nil_append]
      | true =>
        have fits := accepted.trans ha
        have allotted : l.sites.next < (l.bindOne call).sites.next := by
          rw [sites_bindOne fits]
          exact Nat.lt_succ_self _
        have rest := bindCalls_binds one.coherent calls
        have found := rest.old l.sites.next allotted
        rw [live_bindOne fits, if_pos rfl] at found
        rw [List.filterMap_cons_some (b := (call.verdict l.registry).site)
          (by simp [WrittenCall.bound?, ha]), ← sites, ← site]
        simp only [fits, if_true, List.singleton_append, List.filterMap_cons_some found,
          List.map_cons]
    · rw [List.flatMap_cons, ← later, ← diagnostics]

/-- The sites that are kept for the triggers of a script are those that a first validation accepts,
trigger by trigger and in order, and it is reported what is wrong with the others. -/
theorem bindTriggers_sites {l : Linkage} (h : l.Coherent) (triggers : List Trigger) :
    (l.bindTriggers triggers).kept.map
        (·.sites (l.bindTriggers triggers).linkage.sites.live) =
          triggers.map (Trigger.bound l.registry) ∧
      (l.bindTriggers triggers).diagnostics = triggers.flatMap (Trigger.reports l.registry) := by
  induction triggers generalizing l with
  | nil => exact ⟨rfl, rfl⟩
  | cons t ts ih =>
    have first := bindCalls_binds h t.calls
    have rest := bindTriggers_binds first.coherent ts
    obtain ⟨bound, reports⟩ := bindCalls_sites h t.calls
    obtain ⟨sites, later⟩ := ih first.coherent
    rw [Trigger.bound_congr first.functions] at sites
    rw [Trigger.reports_congr first.functions] at later
    have cons : l.bindTriggers (t :: ts) =
        ⟨⟨t.event, (l.bindCalls t.calls).kept⟩ ::
            ((l.bindCalls t.calls).linkage.bindTriggers ts).kept,
          ((l.bindCalls t.calls).linkage.bindTriggers ts).linkage,
          (l.bindCalls t.calls).diagnostics ++
            ((l.bindCalls t.calls).linkage.bindTriggers ts).diagnostics⟩ := rfl
    rw [cons]
    constructor
    · -- the sites bound for the first trigger are still there when the others are bound
      have still : ∀ id ∈ (l.bindCalls t.calls).kept,
          ((l.bindCalls t.calls).linkage.bindTriggers ts).linkage.sites.live.get? id =
            (l.bindCalls t.calls).linkage.sites.live.get? id :=
        fun id hid => rest.old id (first.range id hid).2
      rw [List.map_cons, List.map_cons, sites]
      unfold LoadedTrigger.sites
      rw [List.filterMap_congr still, bound]
      rfl
    · rw [List.flatMap_cons, later, reports]
      rfl

end Linkage

namespace Signature

variable {α β : Type}

@[simp]
theorem spreads_map (f : α → β) (s : Signature α) : (s.map f).spreads = s.spreads := by
  obtain ⟨name, parameters, result⟩ := s
  match parameters with
  | [] => rfl
  | [_] => rfl
  | _ :: _ :: _ => rfl

@[simp]
theorem arity_map (f : α → β) (s : Signature α) : (s.map f).arity = s.arity := List.length_map _

@[simp]
theorem required_map (f : α → β) (s : Signature α) : (s.map f).required = s.required := by
  change requiredOf (s.parameters.map (·.map f)) = requiredOf s.parameters
  induction s.parameters with
  | nil => rfl
  | cons p ps ih =>
    rw [List.map_cons, requiredOf, ih, requiredOf, Parameter.map, Option.isNone_map]

@[simp]
theorem types_map (f : α → β) (s : Signature α) :
    (s.map f).parameters.map (·.type) = s.parameters.map (·.type) := by
  simp [map, Parameter.map, Function.comp_def]

end Signature

namespace CallSite

/-- A site is judged by what a signature says, wherever its defaults lie. -/
theorem fitting_congr {s s' : Signature Ref} {f f' : Ref → Point} (same : s.map f = s'.map f')
    (phase : Phase) (c : CallSite) (sink : List Diagnostic) :
    c.fitting phase s sink = c.fitting phase s' sink := by
  have spreads : s.spreads = s'.spreads := by
    rw [← s.spreads_map f, same, Signature.spreads_map]
  have arity : s.arity = s'.arity := by rw [← s.arity_map f, same, Signature.arity_map]
  have required : s.required = s'.required := by
    rw [← s.required_map f, same, Signature.required_map]
  have types : s.parameters.map (·.type) = s'.parameters.map (·.type) := by
    rw [← s.types_map f, same, Signature.types_map]
  have result : s.result = s'.result := by
    change (s.map f).result = (s'.map f').result
    rw [same]
  have targets (n : Nat) : targets s n = targets s' n := by
    unfold CallSite.targets
    rw [spreads, types, ← List.flatMap_map Parameter.type (List.replicate n), types,
      List.flatMap_map]
  unfold fitting judgeResult judgeCount Signature.resultType? Signature.returnsSingle
  rw [spreads, arity, required, targets, result]

variable {r r' : Registry} {h h' : Heap} {c : CallSite}

/-- Registries that declare the same function reject a site for the same reason, which they explain
alike, or accept it with the same arguments. -/
theorem judge_read (phase : Phase)
    (same : (r.signatures.get? c.function).map (·.map h.read) =
      (r'.signatures.get? c.function).map (·.map h'.read)) :
    c.explained phase r = c.explained phase r' ∧
      ((∃ rejection, c.judge phase r = .error rejection ∧ c.judge phase r' = .error rejection) ∨
        ∃ s s' es single, s.map h.read = s'.map h'.read ∧
          c.judge phase r = .ok ⟨s, r.callables.get? c.function, es, single⟩ ∧
          c.judge phase r' = .ok ⟨s', r'.callables.get? c.function, es, single⟩) := by
  cases hs : r.signatures.get? c.function with
  | none =>
    rw [hs, Option.map_none, eq_comm, Option.map_eq_none_iff] at same
    obtain ⟨judged, silent⟩ := examine_of_undeclared phase hs
    obtain ⟨judged', silent'⟩ := examine_of_undeclared phase same
    exact ⟨silent.trans silent'.symm, .inl ⟨_, judged, judged'⟩⟩
  | some s =>
    rw [hs, Option.map_some, eq_comm, Option.map_eq_some_iff] at same
    obtain ⟨s', hs', same⟩ := same
    obtain ⟨judged, explained⟩ := examine_of_declared phase hs
    obtain ⟨judged', explained'⟩ := examine_of_declared phase hs'
    rw [judged, judged', explained, explained', fitting_congr same]
    refine ⟨rfl, ?_⟩
    cases (c.fitting phase s []).1 with
    | error rejection => exact .inl ⟨rejection, rfl, rfl⟩
    | ok fit => exact .inr ⟨s, s', fit.2, fit.1, same.symm, rfl, rfl⟩

end CallSite

namespace WrittenCall

theorem bound?_eq (r : Registry) (call : WrittenCall) :
    call.bound? r = match call.unbound.judge .first r with
      | .ok a => some (call.unbound.adopt a)
      | .error _ => none := by
  unfold bound? verdict
  cases judged : call.unbound.judge .first r with
  | error rejection => rw [CallSite.validate_of_rejected judged]; rfl
  | ok a => rw [CallSite.validate_of_judged judged]; rfl

theorem reports_eq (r : Registry) (call : WrittenCall) :
    call.reports r = match call.unbound.judge .first r with
      | .ok _ => []
      | .error rejection =>
        call.unbound.explained .first r ++ [call.unbound.notice .first rejection] := by
  unfold reports verdict
  cases judged : call.unbound.judge .first r with
  | error rejection => rw [CallSite.validate_of_rejected judged]
  | ok a => rw [CallSite.validate_of_judged judged]

/-- A call that is bound while its function is only declared, and gets its callable afterwards, is
what it is when it is bound afterwards. -/
theorem resolve_bound? {r r' : Registry} (signatures : r'.signatures = r.signatures)
    (callables : ∀ name f, r.callables.get? name = some f → r'.callables.get? name = some f)
    (call : WrittenCall) :
    (call.bound? r).map (·.resolve r') = call.bound? r' ∧ call.reports r' = call.reports r := by
  obtain ⟨judged, explained⟩ := CallSite.examine_of_signatures signatures .first call.unbound
  rw [bound?_eq, bound?_eq, reports_eq, reports_eq, judged, explained]
  cases ok : call.unbound.judge .first r with
  | error rejection => exact ⟨rfl, rfl⟩
  | ok a =>
    refine ⟨?_, rfl⟩
    obtain ⟨signature, callable, arguments, single⟩ := a
    obtain ⟨-, -, -, -, held⟩ := CallSite.judge_eq_ok_iff.mp ok
    simp only at held
    subst held
    cases hf : r.callables.get? call.unbound.function with
    | none => rfl
    | some f =>
      simp only [map_ok, callables _ f hf]
      rfl

end WrittenCall

/-- A call that is kept, as far as it can be told without a heap and without the identity of its
site. -/
structure KeptCall where
  function : String
  arguments : List Expr
  expected : Option (List VarType)
  site : Option Site
  uptake : Uptake
  single : Bool
  spreads : Bool
  signature : Option (Signature Point)
  callable : Option (Signature Point × Body)

def CallSite.kept (h : Heap) (c : CallSite) : KeptCall :=
  ⟨c.function, c.arguments, c.expected, c.site, c.uptake, c.single, c.spreads,
    c.signature?.map (·.map h.read), c.callable?.map (·.read h)⟩

def WrittenCall.kept? (r : Registry) (h : Heap) (call : WrittenCall) : Option KeptCall :=
  (call.bound? r).map (·.kept h)

/-- What is kept of the calls of a script that a first validation accepts, event by event. -/
def Script.kept {α : Type} (r : Registry) (h : Heap) (s : Script α) :
    List (String × List KeptCall) :=
  s.triggers.map fun t => (t.event, t.calls.filterMap (·.kept? r h))

def Script.reports {α : Type} (r : Registry) (s : Script α) : List Diagnostic :=
  s.triggers.flatMap (·.reports r)

/-- What is kept of the calls of a script that is loaded, event by event. -/
def ScriptSet.kept (s : ScriptSet) (h : Heap) (name : String) : List (String × List KeptCall) :=
  (s.version name).triggers.map fun t =>
    (t.event, (t.calls.filterMap s.linkage.sites.live.get?).map (CallSite.kept h))

theorem ScriptSet.kept_of_sites {s : ScriptSet} {name : String} {script : Script Ref} {r : Registry}
    (sites : (s.version name).triggers.map (·.sites s.linkage.sites.live) =
      script.triggers.map (Trigger.bound r)) (h : Heap) : s.kept h name = script.kept r h := by
  have read := congrArg (List.map fun entry => (entry.1, entry.2.map (CallSite.kept h))) sites
  rw [List.map_map, List.map_map] at read
  have loaded : s.kept h name = (s.version name).triggers.map
      ((fun entry => (entry.1, entry.2.map (CallSite.kept h))) ∘
        (·.sites s.linkage.sites.live)) := by
    apply List.map_congr_left
    intro t _
    simp only [Function.comp_apply, LoadedTrigger.sites, List.map_map]
    rfl
  rw [loaded, read]
  apply List.map_congr_left
  intro t _
  simp only [Function.comp_apply, Trigger.bound, List.map_filterMap]
  rfl

namespace WrittenCall

variable {r r' : Registry} {h h' : Heap} {call : WrittenCall}

/-- A call is kept, and bound to what is declared, wherever the registry has its functions lie. What
there is to run it gets from the registry. -/
theorem kept?_congr (call : WrittenCall)
    (same : (r.signatures.get? call.function).map (·.map h.read) =
      (r'.signatures.get? call.function).map (·.map h'.read)) :
    call.kept? r h = (call.kept? r' h').map (fun kept =>
        { kept with callable := (r.callables.get? call.function).map (·.read h) }) ∧
      call.reports r = call.reports r' := by
  obtain ⟨explained, judged⟩ := CallSite.judge_read (c := call.unbound) .first same
  unfold kept?
  rw [bound?_eq, bound?_eq, reports_eq, reports_eq, explained]
  rcases judged with ⟨rejection, here, there⟩ | ⟨s, s', es, single, same, here, there⟩
  · rw [here, there]
    exact ⟨rfl, rfl⟩
  · rw [here, there]
    refine ⟨?_, rfl⟩
    have kept (s : Signature Ref) (f : Option Callable) (h : Heap) :
        (call.unbound.adopt ⟨s, f, es, single⟩).kept h =
          ⟨call.function, es, call.expected, some call.site, .value, single, s.spreads,
            some (s.map h.read), f.map (·.read h)⟩ := rfl
    have spreads : s.spreads = s'.spreads := by
      rw [← s.spreads_map h.read, same, Signature.spreads_map]
    simp only [Option.map_some, kept, spreads, same]
    rfl

theorem kept?_undeclared (missing : r.signatures.get? call.function = none) :
    call.kept? r h = none := by
  obtain ⟨judged, -⟩ := CallSite.examine_of_undeclared (c := call.unbound) .first missing
  rw [kept?, bound?_eq, judged]
  rfl

theorem kept?_callable : call.kept? r h = (call.kept? r h).map fun kept =>
    { kept with callable := (r.callables.get? call.function).map (·.read h) } :=
  (call.kept?_congr rfl).1

end WrittenCall

/-- Registries that have the same functions keep the same calls of a script, bound to the same, and
report the same about the others. -/
theorem Script.kept_congr {α : Type} {r r' : Registry} {h h' : Heap}
    (same : ∀ name, r.offer? h name = r'.offer? h' name) (s : Script α) :
    s.kept r h = s.kept r' h' ∧ s.reports r = s.reports r' := by
  have calls (call : WrittenCall) :
      call.kept? r h = call.kept? r' h' ∧ call.reports r = call.reports r' := by
    have found := same call.function
    have declared := congrArg (Option.map Offer.signature) found
    have callable := congrArg (Option.map Offer.callable) found
    simp only [Registry.offer?, Option.map_map] at declared callable
    obtain ⟨kept, reports⟩ := call.kept?_congr declared
    refine ⟨kept.trans ?_, reports⟩
    cases hs : r'.signatures.get? call.function with
    | none => rw [WrittenCall.kept?_undeclared hs, Option.map_none]
    | some s' =>
      rw [hs, Option.map_some, Option.map_eq_some_iff] at callable
      obtain ⟨s, _, callable⟩ := callable
      simp only [Function.comp_apply] at callable
      rw [callable]
      exact WrittenCall.kept?_callable.symm
  constructor
  · apply List.map_congr_left
    intro t _
    rw [List.filterMap_congr fun call _ => (calls call).1]
  · apply List.flatMap_congr
    intro t _
    exact List.flatMap_congr fun call _ => (calls call).2

end LiveCalls
