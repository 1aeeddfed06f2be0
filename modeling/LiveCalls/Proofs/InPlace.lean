import LiveCalls.Proofs.Failure
import LiveCalls.Proofs.Replacement
import LiveCalls.ScriptSet.Fire

/-!
# Updates in place

A set of scripts is part of a host, which is changed in place: one table after the other, call by
call, with a log to which diagnostics are added as they come up. An attempt that fails stops where
it is and leaves the host as it has become by then.
-/

namespace LiveCalls

/-- A set of scripts in a world, with what was reported so far. -/
structure Host where
  set : ScriptSet
  world : World
  log : List Diagnostic

namespace Host

/-- A procedure that cannot fail. -/
abbrev Act := StateM Host

/-- A procedure that may fail. What it has done by then stays done. -/
abbrev Attempt := ExceptT LoadError Act

def relinked (h : Host) (l : Linkage) (ds : List Diagnostic) : Host :=
  { h with set.linkage := l, log := h.log ++ ds }

/-- The host with other functions, and other owners of them. -/
def rechanged (h : Host) (r : Registry) (owners : Table String String) : Host :=
  { h with set.linkage.registry := r, set.owners := owners }

def linkage : Act Linkage := return (← get).set.linkage

def relink (f : Linkage → Linkage) : Act Unit :=
  modify fun h => { h with set.linkage := f h.set.linkage }

def rescript (f : Table String LoadedScript → Table String LoadedScript) : Act Unit :=
  modify fun h => { h with set.scripts := f h.set.scripts }

def reown (f : Table String String → Table String String) : Act Unit :=
  modify fun h => { h with set.owners := f h.set.owners }

def report (ds : List Diagnostic) : Act Unit := modify fun h => { h with log := h.log ++ ds }

def change (step : Registry → Option Redefined × Registry) : Act (Option Redefined) :=
  modifyGet fun h =>
    let (event, registry) := step h.set.linkage.registry
    (event, { h with set.linkage.registry := registry })

/-- Validates calls for the first time, and keeps those that fit. -/
def bindCalls : List WrittenCall → Act (List CallId)
  | [] => return []
  | c :: cs => do
    let l ← linkage
    let (id, sites) := l.sites.allot
    let site := CallSite.fresh id c.function (some c.site) c.expected c.arguments .value
    let v := site.validate .first l.registry
    relink fun _ => ⟨v.registry, sites⟩
    report v.diagnostics
    if v.accepted then
      relink fun l => { l with sites := (l.sites.keep v.site).track id }
      return id :: (← bindCalls cs)
    else bindCalls cs

def bindTriggers : List Trigger → Act (List LoadedTrigger)
  | [] => return []
  | t :: ts => do
    let calls ← bindCalls t.calls
    let rest ← bindTriggers ts
    return ⟨t.event, calls⟩ :: rest

def notify : List CallId → Act Revalidation
  | [] => return .none
  | id :: ids => do
    let l ← linkage
    match l.sites.following? id with
    | none =>
      relink fun l => { l with sites := l.sites.untrack id }
      notify ids
    | some c =>
      let v := c.validate .again l.registry
      relink fun l => ⟨v.registry, l.sites.keep v.site⟩
      report v.diagnostics
      let rest ← notify ids
      return .one v.accepted + rest

def passOn : List (List CallId) → Act Revalidation
  | [] => return .none
  | ids :: rest => do
    let first ← notify ids
    let later ← passOn rest
    return first + later

def forgetCalls : List CallId → Act Unit
  | [] => return
  | id :: ids => do
    relink (·.forget id)
    forgetCalls ids

def removeAll : List String → News → Act News
  | [], news => return news
  | f :: fs, news => do
    let event ← change (·.remove f)
    reown (·.erase f)
    removeAll fs (news.merge event)

def install (f : ScriptFunction Ref) (news : News) : Act News := do
  match f.body with
  | some e =>
    let declared ← change (·.declare f.signature)
    let defined ← change (·.define ⟨f.signature, .script e⟩)
    return (news.merge declared).merge defined
  | none =>
    if (← linkage).registry.callables.contains f.signature.name then
      let removed ← change (·.remove f.signature.name)
      let declared ← change (·.declare f.signature)
      return (news.merge removed).merge declared
    else
      let declared ← change (·.declare f.signature)
      return news.merge declared

/-- Installs the functions of a script, and makes it their owner. -/
def installAll (name : String) : List (ScriptFunction Ref) → News → Act News
  | [], news => return news
  | f :: fs, news => do
    let news ← install f news
    reown (·.insert f.signature.name name)
    installAll name fs news

def place (script : Script Point) : Act (Script Ref) :=
  modifyGet fun h =>
    let (script, heap) := script.place h.world.heap
    (script, { h with world.heap := heap })

/-- Refuses a function that another script has. -/
def refuseForeign (name : String) : List String → Attempt Unit
  | [] => return
  | f :: fs => do
    match (← get).set.owners.get? f with
    | some owner =>
      if owner ≠ name then throw (.alreadyDefined name f owner)
      refuseForeign name fs
    | none => refuseForeign name fs

def unloading (name : String) : Act Revalidation := do
  match (← get).set.scripts.get? name with
  | none => return .none
  | some old =>
    rescript (·.erase name)
    forgetCalls old.calls
    let news ← removeAll old.functions .empty
    passOn news.values

def replacing (name : String) (script : Script Ref) : Act Revalidation := do
  let old := ((← get).set.scripts.get? name).getD ⟨[], []⟩
  rescript (·.erase name)
  forgetCalls old.calls
  let news ← removeAll (old.functions.filter (· ∉ script.names)) .empty
  let news ← installAll name script.functions news
  let kept ← bindTriggers script.triggers
  rescript (·.insert name ⟨script.names, kept⟩)
  passOn news.values

def reloading (d : Disk) (p : Path) : Attempt Revalidation := do
  let name ← liftExcept p.scriptName
  if !d.exists? p then unloading name
  else
    let script ← liftExcept (d.script name p)
    refuseForeign name script.names
    let script ← place script
    replacing name script

/-- Makes a script the owner of its functions, up to the first that has an owner already. -/
def claim (name : String) : List String → Attempt Unit
  | [] => return
  | f :: fs => do
    let earlier := (← get).set.owners.get? f
    reown (·.insert f name)
    match earlier with
    | some owner => throw (.alreadyDefined name f owner)
    | none => claim name fs

def gathering (d : Disk) : List Path → Attempt (List (String × Script Point))
  | [] => return []
  | p :: ps => do
    let name ← liftExcept p.scriptName
    let script ← liftExcept (d.script name p)
    claim name script.names
    let rest ← gathering d ps
    return (name, script) :: rest

def placeAll (scripts : List (String × Script Point)) : Act (List (String × Script Ref)) :=
  modifyGet fun h =>
    let (scripts, heap) := ScriptSet.placeAll scripts h.world.heap
    (scripts, { h with world.heap := heap })

def bindScripts : List (String × Script Ref) → Act Unit
  | [] => return
  | (name, script) :: rest => do
    let kept ← bindTriggers script.triggers
    rescript (·.insert name ⟨script.names, kept⟩)
    bindScripts rest

/-- Declares all functions, binds all calls, and defines the functions. -/
def assembling (scripts : List (String × Script Ref)) : Act Unit := do
  let functions := scripts.flatMap (·.2.functions)
  relink fun l => { l with registry := ScriptSet.declareAll l.registry functions }
  bindScripts scripts
  relink fun l => { l with registry := ScriptSet.defineAll l.registry functions }
  relink ScriptSet.link

/-- Loads a folder into a set that has nothing in it yet. -/
def loading (d : Disk) (root : Path) : Attempt Unit := do
  let paths ← liftExcept (d.scripts root)
  let scripts ← gathering d paths
  let scripts ← placeAll scripts
  assembling scripts

section
variable (h : Host)

@[simp] theorem run_linkage : linkage.run h = pure (h.set.linkage, h) := rfl

@[simp] theorem run_relink (f : Linkage → Linkage) :
    (relink f).run h = pure ((), h.relinked (f h.set.linkage) []) := by
  rw [relinked, List.append_nil]
  rfl

@[simp] theorem run_report (ds : List Diagnostic) :
    (report ds).run h = pure ((), h.relinked h.set.linkage ds) := rfl

@[simp] theorem linkage_relinked (l : Linkage) (ds : List Diagnostic) :
    (h.relinked l ds).set.linkage = l := rfl

@[simp] theorem relinked_relinked (l l' : Linkage) (ds ds' : List Diagnostic) :
    (h.relinked l ds).relinked l' ds' = h.relinked l' (ds ++ ds') := by
  simp only [relinked, List.append_assoc]

@[simp] theorem relinked_self : h.relinked h.set.linkage [] = h := by
  rw [relinked, List.append_nil]

end

@[simp] theorem run_bindCalls (h : Host) (cs : List WrittenCall) :
    (bindCalls cs).run h = pure ((h.set.linkage.bindCalls cs).kept,
      h.relinked (h.set.linkage.bindCalls cs).linkage
        (h.set.linkage.bindCalls cs).diagnostics) := by
  induction cs generalizing h with
  | nil => simp [bindCalls, Linkage.bindCalls]
  | cons c cs ih =>
    simp only [bindCalls, Linkage.bindCalls, StateT.run_bind, run_linkage, pure_bind, run_relink,
      run_report]
    split
    · simp [ih]
    · simp [ih]

@[simp] theorem run_bindTriggers (h : Host) (ts : List Trigger) :
    (bindTriggers ts).run h = pure ((h.set.linkage.bindTriggers ts).kept,
      h.relinked (h.set.linkage.bindTriggers ts).linkage
        (h.set.linkage.bindTriggers ts).diagnostics) := by
  induction ts generalizing h with
  | nil => simp [bindTriggers, Linkage.bindTriggers]
  | cons t ts ih => simp [bindTriggers, Linkage.bindTriggers, ih]

@[simp] theorem run_notify (h : Host) (ids : List CallId) :
    (notify ids).run h = pure ((h.set.linkage.notify ids).outcome,
      h.relinked (h.set.linkage.notify ids).linkage (h.set.linkage.notify ids).diagnostics) := by
  induction ids generalizing h with
  | nil => simp [notify, Linkage.notify]
  | cons id ids ih =>
    cases hf : h.set.linkage.sites.following? id with
    | none => simp [notify, Linkage.notify, hf, ih]
    | some c => simp [notify, Linkage.notify, hf, ih]

@[simp] theorem run_passOn (h : Host) (news : List (List CallId)) :
    (passOn news).run h = pure ((ScriptSet.passOn h.set.linkage news).outcome,
      h.relinked (ScriptSet.passOn h.set.linkage news).linkage
        (ScriptSet.passOn h.set.linkage news).diagnostics) := by
  induction news generalizing h with
  | nil => simp [passOn, ScriptSet.passOn]
  | cons ids rest ih => simp [passOn, ScriptSet.passOn, ih]

@[simp] theorem run_forgetCalls (h : Host) (ids : List CallId) :
    (forgetCalls ids).run h = pure ((), h.relinked (h.set.linkage.forgetAll ids) []) := by
  induction ids generalizing h with
  | nil => simp [forgetCalls, Linkage.forgetAll]
  | cons id ids ih => simp [forgetCalls, Linkage.forgetAll, ih]

section
variable (h : Host) (r : Registry) (owners : Table String String)

@[simp] theorem run_change (step : Registry → Option Redefined × Registry) :
    (change step).run h = pure ((step h.set.linkage.registry).1,
      h.rechanged (step h.set.linkage.registry).2 h.set.owners) := rfl

@[simp] theorem run_reown (f : Table String String → Table String String) :
    (reown f).run h = pure ((), h.rechanged h.set.linkage.registry (f h.set.owners)) := rfl

@[simp] theorem registry_rechanged : (h.rechanged r owners).set.linkage.registry = r := rfl

@[simp] theorem owners_rechanged : (h.rechanged r owners).set.owners = owners := rfl

@[simp] theorem rechanged_rechanged (r' : Registry) (owners' : Table String String) :
    (h.rechanged r owners).rechanged r' owners' = h.rechanged r' owners' := rfl

end

@[simp] theorem run_removeAll (h : Host) (fs : List String) (news : News) :
    (removeAll fs news).run h =
      let c := fs.foldl ScriptSet.Change.remove ⟨h.set.linkage.registry, news⟩
      pure (c.news, h.rechanged c.registry (ScriptSet.disown h.set.owners fs)) := by
  induction fs generalizing h news with
  | nil => rfl
  | cons f fs ih =>
    simp [removeAll, ih, ScriptSet.disown, ScriptSet.Change.remove, ScriptSet.Change.next]

theorem run_install (h : Host) (f : ScriptFunction Ref) (news : News) :
    (install f news).run h =
      let c := ScriptSet.Change.install ⟨h.set.linkage.registry, news⟩ f
      pure (c.news, h.rechanged c.registry h.set.owners) := by
  cases hb : f.body with
  | some e => simp [install, ScriptSet.Change.install, ScriptSet.Change.next, hb]
  | none =>
    by_cases run : h.set.linkage.registry.callables.contains f.signature.name <;>
      simp [install, ScriptSet.Change.install, ScriptSet.Change.next, ScriptSet.Change.remove, hb,
        run]

@[simp] theorem run_installAll (h : Host) (name : String) (fs : List (ScriptFunction Ref))
    (news : News) : (installAll name fs news).run h =
      let c := fs.foldl ScriptSet.Change.install ⟨h.set.linkage.registry, news⟩
      pure (c.news, h.rechanged c.registry
        ((fs.map (·.signature.name)).foldl (·.insert · name) h.set.owners)) := by
  induction fs generalizing h news with
  | nil => rfl
  | cons f fs ih => simp [installAll, run_install, ih]

@[simp] theorem run_place (h : Host) (script : Script Point) :
    (place script).run h = pure ((script.place h.world.heap).1,
      { h with world.heap := (script.place h.world.heap).2 }) := rfl

@[simp] theorem run_rescript (h : Host)
    (f : Table String LoadedScript → Table String LoadedScript) :
    (rescript f).run h = pure ((), { h with set.scripts := f h.set.scripts }) := rfl

section
variable {α β : Type} (h : Host)

@[simp] theorem run_attempt_bind (x : Attempt α) (rest : α → Attempt β) :
    (x >>= rest).run.run h = (do
      let out ← x.run.run h
      match out.1 with
      | .ok a => (rest a).run.run out.2
      | .error e => pure (.error e, out.2)) := by
  rw [ExceptT.run_bind, StateT.run_bind]
  refine congrArg (x.run.run h >>= ·) (funext fun out => ?_)
  rcases out with ⟨e | a, h⟩ <;> rfl

@[simp] theorem run_lift (act : Act α) :
    (act : Attempt α).run.run h = pure (.ok (act.run h).1, (act.run h).2) := rfl

@[simp] theorem run_liftExcept (x : Except LoadError α) :
    (liftExcept x : Attempt α).run.run h = pure (x, h) := by
  cases x <;> rfl

end

theorem run_refuseForeign (h : Host) (name : String) (fs : List String) :
    (refuseForeign name fs).run.run h = pure (match ScriptSet.foreign? h.set.owners name fs with
      | some (f, owner) => .error (.alreadyDefined name f owner)
      | none => .ok (), h) := by
  induction fs with
  | nil => rfl
  | cons f fs ih =>
    have turn : (refuseForeign name (f :: fs)).run.run h =
        (match h.set.owners.get? f with
          | some owner => do
            if owner ≠ name then throw (.alreadyDefined name f owner)
            refuseForeign name fs
          | none => refuseForeign name fs : Attempt Unit).run.run h := rfl
    rw [turn, ScriptSet.foreign?]
    cases h.set.owners.get? f with
    | none => exact ih
    | some owner =>
      by_cases own : owner = name
      · simp only [own, ne_eq, not_true, if_false, if_true]
        exact ih
      · simp only [own, ne_eq, not_false_eq_true, if_true, if_false]
        rfl

theorem run_unloading (h : Host) (name : String) :
    (unloading name).run h =
      let out := h.set.unload name h.world.heap
      pure (out.outcome, ⟨out.set, h.world, h.log ++ out.diagnostics⟩) := by
  cases hs : h.set.scripts.get? name with
  | none => simp [unloading, ScriptSet.unload, hs]
  | some old => simp [unloading, ScriptSet.unload, hs, relinked, rechanged]

theorem run_replacing (h : Host) (name : String) (script : Script Ref) :
    (replacing name script).run h =
      let out := h.set.replace name script
      pure (out.2.outcome, ⟨out.1, h.world, h.log ++ out.2.diagnostics⟩) := by
  simp only [replacing, StateT.run_bind, StateT.run_get, pure_bind, run_rescript, run_forgetCalls,
    run_removeAll, run_installAll, run_bindTriggers, run_passOn]
  simp only [relinked, rechanged, List.append_nil, List.append_assoc, Table.insert_erase]
  rfl

theorem run_reloading (h : Host) (d : Disk) (p : Path) :
    (reloading d p).run.run h =
      match h.set.reload d p h.world.heap with
      | .error e => pure (.error e, h)
      | .ok out => pure (.ok out.outcome,
          ⟨out.set, { h.world with heap := out.heap }, h.log ++ out.diagnostics⟩) := by
  cases hn : p.scriptName with
  | error e =>
    have failed : h.set.reload d p h.world.heap = .error e := by
      simp [ScriptSet.reload, hn]
    simp [reloading, hn, failed]
  | ok name =>
    cases there : d.exists? p with
    | false =>
      have gone : h.set.reload d p h.world.heap = .ok (h.set.unload name h.world.heap) := by
        simp [ScriptSet.reload, hn, there]
      have heap : (h.set.unload name h.world.heap).heap = h.world.heap := by
        rw [ScriptSet.unload_eq]
      simp [reloading, run_unloading, hn, there, gone, heap]
    | true =>
      cases hs : d.script name p with
      | error e =>
        have failed : h.set.reload d p h.world.heap = .error e := by
          simp [ScriptSet.reload, hn, there, hs]
        simp [reloading, hn, there, hs, failed]
      | ok script =>
        cases hf : ScriptSet.foreign? h.set.owners name script.names with
        | some foreign =>
          have failed : h.set.reload d p h.world.heap =
              .error (.alreadyDefined name foreign.1 foreign.2) := by
            simp [ScriptSet.reload, hn, there, hs, hf]
          simp [reloading, run_refuseForeign, hn, there, hs, hf, failed]
        | none =>
          simp [reloading, ScriptSet.reload, run_refuseForeign, run_replacing, hn, there, hs, hf]

theorem run_claim (h : Host) (name : String) (fs : List String) :
    ∃ owners, (claim name fs).run.run h =
        pure ((ScriptSet.gather.claim name h.set.owners fs).map fun _ => (),
          h.rechanged h.set.linkage.registry owners) ∧
      ∀ claimed, ScriptSet.gather.claim name h.set.owners fs = .ok claimed → owners = claimed := by
  induction fs generalizing h with
  | nil => exact ⟨h.set.owners, rfl, fun _ same => Except.ok.inj same⟩
  | cons f fs ih =>
    have turn : (claim name (f :: fs)).run.run h =
        (match h.set.owners.get? f with
          | some owner => throw (.alreadyDefined name f owner)
          | none => claim name fs : Attempt Unit).run.run
            (h.rechanged h.set.linkage.registry (h.set.owners.insert f name)) := rfl
    rw [turn, ScriptSet.gather.claim]
    cases h.set.owners.get? f with
    | some owner => exact ⟨_, rfl, nofun⟩
    | none => exact ih (h.rechanged h.set.linkage.registry (h.set.owners.insert f name))

theorem run_gathering (h : Host) (d : Disk) (ps : List Path) :
    ∃ owners, (gathering d ps).run.run h =
        pure ((ScriptSet.gather d h.set.owners ps).map (·.1),
          h.rechanged h.set.linkage.registry owners) ∧
      ∀ gathered, ScriptSet.gather d h.set.owners ps = .ok gathered → owners = gathered.2 := by
  induction ps generalizing h with
  | nil => exact ⟨h.set.owners, rfl, fun _ same => congrArg Prod.snd (Except.ok.inj same)⟩
  | cons p ps ih =>
    cases hn : p.scriptName with
    | error e =>
      refine ⟨h.set.owners, ?_, by simp [ScriptSet.gather, hn]⟩
      simp [gathering, ScriptSet.gather, hn, rechanged]
    | ok name =>
      cases hs : d.script name p with
      | error e =>
        refine ⟨h.set.owners, ?_, by simp [ScriptSet.gather, hn, hs]⟩
        simp [gathering, ScriptSet.gather, hn, hs, rechanged]
      | ok script =>
        obtain ⟨owners, claims, own⟩ := run_claim h name script.names
        cases hc : ScriptSet.gather.claim name h.set.owners script.names with
        | error e =>
          rw [hc] at claims
          refine ⟨owners, ?_, by simp [ScriptSet.gather, hn, hs, hc]⟩
          simp [gathering, ScriptSet.gather, hn, hs, hc, claims]
        | ok claimed =>
          rw [hc, own claimed hc] at claims
          obtain ⟨owners, gathers, own⟩ := ih (h.rechanged h.set.linkage.registry claimed)
          rw [owners_rechanged] at gathers own
          refine ⟨owners, ?_, ?_⟩
          · cases hg : ScriptSet.gather d claimed ps <;>
              simp [gathering, ScriptSet.gather, hn, hs, hc, claims, gathers, hg]
          · cases hg : ScriptSet.gather d claimed ps with
            | error e => simp [ScriptSet.gather, hn, hs, hc, hg]
            | ok gathered =>
              simpa [ScriptSet.gather, hn, hs, hc, hg] using own gathered hg

@[simp] theorem run_bindScripts (h : Host) (scripts : List (String × Script Ref)) :
    (bindScripts scripts).run h =
      let bound := ScriptSet.bindScripts h.set.linkage h.set.scripts scripts
      pure ((), { h.relinked bound.linkage bound.diagnostics with set.scripts := bound.kept }) := by
  induction scripts generalizing h with
  | nil => simp [bindScripts, ScriptSet.bindScripts, relinked]
  | cons entry rest ih => simp [bindScripts, ScriptSet.bindScripts, ih, relinked]

theorem run_assembling {h : Host} {root : Path} {owners : Table String String}
    (fresh : h.set = { ScriptSet.empty root with owners := owners })
    (scripts : List (String × Script Ref)) :
    (assembling scripts).run h =
      let out := ScriptSet.assemble root owners scripts
      pure ((), ⟨out.1, h.world, h.log ++ out.2⟩) := by
  obtain ⟨set, world, log⟩ := h
  subst fresh
  simp [assembling, relinked, ScriptSet.assemble, ScriptSet.empty]

@[simp] theorem run_placeAll (h : Host) (scripts : List (String × Script Point)) :
    (placeAll scripts).run h = pure ((ScriptSet.placeAll scripts h.world.heap).1,
      { h with world.heap := (ScriptSet.placeAll scripts h.world.heap).2 }) := rfl

/-- A load that fails has claimed some functions by then, and has done nothing else. -/
theorem run_loading (d : Disk) (root : Path) (w : World) (log : List Diagnostic) :
    match ScriptSet.load d root w.heap with
    | .error e => ∃ owners, (loading d root).run.run ⟨.empty root, w, log⟩ =
        pure (.error e, ⟨{ ScriptSet.empty root with owners := owners }, w, log⟩)
    | .ok out => (loading d root).run.run ⟨.empty root, w, log⟩ =
        pure (.ok (), ⟨out.set, { w with heap := out.heap }, log ++ out.diagnostics⟩) := by
  cases hl : d.scripts root with
  | error e =>
    have failed : ScriptSet.load d root w.heap = .error e := by simp [ScriptSet.load, hl]
    rw [failed]
    exact ⟨.empty, by simp [loading, hl, ScriptSet.empty]⟩
  | ok paths =>
    obtain ⟨owners, gathers, own⟩ := run_gathering ⟨.empty root, w, log⟩ d paths
    have start : (ScriptSet.empty root).owners = .empty := rfl
    simp only [start] at gathers own
    cases hg : ScriptSet.gather d .empty paths with
    | error e =>
      have failed : ScriptSet.load d root w.heap = .error e := by simp [ScriptSet.load, hl, hg]
      rw [failed]
      refine ⟨owners, ?_⟩
      simp [loading, hl, gathers, hg, rechanged]
    | ok gathered =>
      obtain ⟨scripts, claimed⟩ := gathered
      obtain rfl := own _ hg
      simp only [loading, ScriptSet.load, run_attempt_bind, run_liftExcept, run_lift, hl, gathers,
        hg, ok_bind, map_ok, pure_bind, run_placeAll]
      rw [run_assembling rfl]
      rfl

end Host

end LiveCalls
