import LiveCalls.Proofs.Callers
import LiveCalls.Proofs.Handover

namespace LiveCalls

/-- What is seen of a call that was made: what its values are, wherever they lie. -/
structure Shown where
  script : String
  call : String
  values : Option (List Constant)
  diagnostics : List Diagnostic
  printed : List String

/-- What is seen of a call while the heap is as it is. -/
def Fired.shown (h : Heap) (f : Fired) : Shown :=
  ⟨f.script, f.call, f.values.map (·.map (Value.constant h)), f.diagnostics, f.printed⟩

namespace CallSite

/-- What is seen of the call of a script if it is the only one that is made. -/
def alone (ctx : Context) (r : Registry) (w : World) (script : String) (c : CallSite) : Shown :=
  let x := c.execute ctx r w
  ⟨script, x.site.text, x.constants, x.diagnostics, x.printed⟩

theorem resolve_resolve (r : Registry) (c : CallSite) :
    (c.resolve r).resolve r = c.resolve r := by
  obtain ⟨id, function, arguments, binding, single, expected, site, uptake⟩ := c
  cases binding with
  | bound s held =>
    cases held with
    | none => cases found : r.callables.get? function <;> simp [resolve, found]
    | some f => rfl
  | unbound late =>
    cases late with
    | none => cases found : r.callables.get? function <;> simp [resolve, found]
    | some f => rfl

variable {ctx : Context} {r : Registry} {c : CallSite} {w w' : World} {script : String}

theorem constants_later (own : ∀ f, (c.resolve r).callable? = some f → f.Settled w.heap) {h : Heap}
    (he : (c.execute ctx r w).world.heap.Extends h) :
    (c.execute ctx r w).values.map (·.map (Value.constant h)) = (c.execute ctx r w).constants := by
  unfold Execution.constants
  cases given : (c.execute ctx r w).values with
  | none => rfl
  | some vs =>
    have inHeap := execute_inHeap (fun f hf => (own f hf).own) given
    exact congrArg some ((Value.Hold.self inHeap).extend he).constants

theorem alone_resolve : (c.resolve r).alone ctx r w script = c.alone ctx r w script := by
  simp only [alone, execute, resolve_resolve]

theorem alone_congr (hc : ctx.InHeap w.heap) (he : w.heap.Extends w'.heap)
    (settled : ∀ f, (c.resolve r).callable? = some f → f.Settled w.heap) :
    c.alone ctx r w' script = c.alone ctx r w script := by
  have alike : (c.execute ctx r w).Alike (c.execute ctx r w') := execute_congr hc he rfl settled
  simp only [alone, site_execute, alike.constants, alike.diagnostics, alike.printed]

end CallSite

namespace Linkage

/-- Linkages whose sites run the same: they hold the same sites, but for callables that some have
looked up and others have not. -/
structure SameCalls (l l' : Linkage) : Prop where
  registry : l'.registry = l.registry
  sites : ∀ id, (ScriptSet.link l').sites.live.get? id = (ScriptSet.link l).sites.live.get? id

namespace SameCalls

variable {l l' l'' : Linkage}

theorem refl (l : Linkage) : l.SameCalls l := ⟨rfl, fun _ => rfl⟩

theorem trans (a : l.SameCalls l') (b : l'.SameCalls l'') : l.SameCalls l'' :=
  ⟨b.registry.trans a.registry, fun id => (b.sites id).trans (a.sites id)⟩

/-- A site may keep the callable that it looked up when it was made. -/
theorem execute {c : CallSite} (hc : l.sites.live.get? c.id = some c) (ctx : Context) (w : World) :
    l.SameCalls { l with sites := l.sites.keep (c.execute ctx l.registry w).site } := by
  refine ⟨rfl, ?_⟩
  intro id
  rw [ScriptSet.live_link, ScriptSet.live_link, CallSite.site_execute, CallSites.live_keep,
    (CallSite.frame_resolve l.registry c).1]
  split
  · rename_i same
    rw [same, hc, Option.map_some, Option.map_some, CallSite.resolve_resolve]
  · rfl

/-- A call gives alone what it gives alone in a linkage whose sites run the same, on a larger
heap. -/
theorem alone (same : l.SameCalls l') {w w' : World} (settled : l.Settled w.heap) {ctx : Context}
    (hc : ctx.InHeap w.heap) (he : w.heap.Extends w'.heap) (script : String) (id : CallId) :
    (l'.sites.live.get? id).map (·.alone ctx l'.registry w' script) =
      (l.sites.live.get? id).map (·.alone ctx l.registry w script) := by
  have sites := same.sites id
  rw [ScriptSet.live_link, ScriptSet.live_link, same.registry] at sites
  rw [same.registry]
  cases live : l.sites.live.get? id with
  | none =>
    rw [live] at sites
    rw [Option.map_eq_none_iff.mp sites]
    rfl
  | some c =>
    rw [live] at sites
    obtain ⟨d, found, resolved⟩ := Option.map_eq_some_iff.mp sites
    have gives : d.alone ctx l.registry w' script = c.alone ctx l.registry w script :=
      calc d.alone ctx l.registry w' script
          = (d.resolve l.registry).alone ctx l.registry w' script := CallSite.alone_resolve.symm
        _ = (c.resolve l.registry).alone ctx l.registry w' script := by rw [resolved]
        _ = c.alone ctx l.registry w' script := CallSite.alone_resolve
        _ = c.alone ctx l.registry w script :=
          CallSite.alone_congr hc he fun f hf => settled.resolve live hf
    rw [found, Option.map_some, Option.map_some, gives]

end SameCalls

end Linkage

namespace ScriptSet

/-- Calls that are made one after the other give what each gives alone, and leave sites that run
the same. -/
theorem makeCalls_shown {l : Linkage} {w : World} (coherent : l.Coherent)
    (settled : l.Settled w.heap) {ctx : Context} (hc : ctx.InHeap w.heap)
    (calls : List (String × CallId)) :
    let out := makeCalls ctx l w calls
    out.1.map (·.shown out.2.2.heap) =
        calls.filterMap (fun call =>
          (l.sites.live.get? call.2).map (·.alone ctx l.registry w call.1)) ∧
      l.SameCalls out.2.1 := by
  -- the rest of the calls starts from the linkage and the world that the first one leaves;
  -- `SameCalls.alone` says that they give alone what they give in those that it found
  induction calls generalizing l w with
  | nil => exact ⟨rfl, .refl l⟩
  | cons call rest ih =>
    obtain ⟨script, id⟩ := call
    cases hl : l.sites.live.get? id with
    | none =>
      simp only [makeCalls, hl, List.filterMap_cons, Option.map_none]
      exact ih coherent settled hc
    | some c =>
      obtain ⟨rfl, -⟩ := coherent.site id c hl
      have same := Linkage.SameCalls.execute hl ctx w
      obtain ⟨grows, settled'⟩ := settled.execute hl ctx
      have hc' := hc.mono grows.size
      obtain ⟨later, kept⟩ := ih (coherent.execute hl ctx w) settled' hc'
      have still := (settled'.makeCalls hc' rest).1
      simp only [makeCalls, hl, List.filterMap_cons, Option.map_some, List.map_cons]
      refine ⟨congrArg₂ List.cons ?_ ?_, same.trans kept⟩
      · have constants := CallSite.constants_later (fun f hf => settled.resolve hl hf) still
        simp only [Fired.shown, CallSite.alone, constants]
      · rw [later]
        apply List.filterMap_congr
        intro call _
        exact same.alone settled hc grows call.1 call.2

structure Due where
  script : String
  event : String
  site : CallSite

def due (s : ScriptSet) (script : String) (t : LoadedTrigger) : List Due :=
  (t.calls.filterMap s.linkage.sites.live.get?).map (⟨script, t.event, ·⟩)

/-- The calls that are kept, each with its event: script by script in the order of the names, and
within a script trigger by trigger and call by call. -/
def agenda (s : ScriptSet) : List Due :=
  s.scripts.entries.flatMap fun (name, loaded) => loaded.triggers.flatMap (s.due name)

theorem mem_due {s : ScriptSet} {script : String} {t : LoadedTrigger} {d : Due}
    (hd : d ∈ s.due script t) : d.script = script ∧ d.event = t.event := by
  obtain ⟨c, -, rfl⟩ := List.mem_map.mp hd
  exact ⟨rfl, rfl⟩

theorem sites_agenda (s : ScriptSet) : s.agenda.map (·.site) = s.keptCalls := by
  unfold agenda keptCalls names
  rw [List.map_flatMap, Table.keys, List.flatMap_map]
  apply List.flatMap_congr
  rintro ⟨name, loaded⟩ listed
  have kept : s.scripts.get? name = some loaded := Table.mem_entries_iff.mp listed
  simp only [calls, kept, LoadedScript.calls, due, List.map_flatMap, List.filterMap_flatMap,
    List.map_map]
  exact List.flatMap_congr fun t _ => List.map_id _

theorem scripts_agenda (s : ScriptSet) :
    (s.agenda.map (·.script)).Pairwise fun a b => (compare a b).isLE := by
  have script : ∀ entry : String × LoadedScript,
      ∀ d ∈ entry.2.triggers.flatMap (s.due entry.1), d.script = entry.1 := by
    intro entry d hd
    obtain ⟨t, -, hd⟩ := List.mem_flatMap.mp hd
    exact (mem_due hd).1
  unfold agenda
  rw [List.pairwise_map, List.pairwise_flatMap]
  constructor
  · intro entry _
    apply List.pairwise_of_forall_mem_list
    intro a ha b hb
    have same : compare entry.1 entry.1 = .eq := Std.ReflCmp.compare_self
    rw [script entry a ha, script entry b hb, same]
    rfl
  · apply s.scripts.sorted.imp
    intro entry entry' lt a ha b hb
    rw [script entry a ha, script entry' b hb, lt]
    rfl

theorem filter_due (s : ScriptSet) (script : String) (t : LoadedTrigger) (event : String) :
    (s.due script t).filter (·.event = event) = if t.event = event then s.due script t else [] := by
  split
  · rename_i own
    apply List.filter_eq_self.mpr
    intro d hd
    exact decide_eq_true ((mem_due hd).2.trans own)
  · rename_i other
    apply List.filter_eq_nil_iff.mpr
    intro d hd due
    exact other ((mem_due hd).2.symm.trans (of_decide_eq_true due))

/-- The calls that an event makes are those that are due on it. -/
theorem filterMap_callsOn {α : Type} (s : ScriptSet) (event : String)
    (give : String → CallSite → α) :
    (s.callsOn event).filterMap
        (fun call => (s.linkage.sites.live.get? call.2).map (give call.1)) =
      (s.agenda.filter (·.event = event)).map fun d => give d.script d.site := by
  unfold callsOn agenda
  rw [List.filterMap_flatMap, List.filter_flatMap, List.map_flatMap]
  apply List.flatMap_congr
  rintro ⟨name, functions, triggers⟩ -
  dsimp only
  induction triggers with
  | nil => rfl
  | cons t ts ih =>
    rw [List.flatMap_cons, List.filter_append, List.map_append, ← ih, filter_due, List.filter_cons]
    by_cases own : t.event = event
    · have first : (t.calls.map (name, ·)).filterMap
          (fun call => (s.linkage.sites.live.get? call.2).map (give call.1)) =
          (s.due name t).map fun d => give d.script d.site := by
        rw [due, List.map_map, List.map_filterMap, List.filterMap_map]
        rfl
      rw [if_pos own, if_pos (decide_eq_true own), List.flatMap_cons, List.filterMap_append, first]
    · rw [if_neg own, if_neg (by simpa using own), List.map_nil, List.nil_append]

/-- What is left of a set and a world when events were fired one after the other in a context. -/
def fireAll (ctx : Context) (s : ScriptSet) (w : World) (events : List String) :
    ScriptSet × World :=
  events.foldl (fun (s, w) event => (s.fire event ctx w).2) (s, w)

/-- What is the same in a set and a world as in those that events were fired in. -/
structure Lasts (s : ScriptSet) (w : World) (t : ScriptSet) (w' : World) : Prop where
  scripts : t.scripts = s.scripts
  calls : s.linkage.SameCalls t.linkage
  grows : w.heap.Extends w'.heap
  sound : t.Sound w'

theorem Lasts.trans {s t u : ScriptSet} {w w' w'' : World} (a : s.Lasts w t w')
    (b : t.Lasts w' u w'') : s.Lasts w u w'' :=
  ⟨b.scripts.trans a.scripts, a.calls.trans b.calls, a.grows.trans b.grows, b.sound⟩

variable {s : ScriptSet} {w : World} {ctx : Context}

theorem fire_lasts (sound : s.Sound w) (hc : ctx.InHeap w.heap) (event : String) :
    s.Lasts w (s.fire event ctx w).2.1 (s.fire event ctx w).2.2 where
  scripts := rfl
  calls := (makeCalls_shown sound.held.coherent sound.settled hc (s.callsOn event)).2
  grows := (sound.settled.makeCalls hc (s.callsOn event)).1
  sound := step_sound (.fire event ctx hc) sound

theorem fireAll_lasts (sound : s.Sound w) (hc : ctx.InHeap w.heap) (events : List String) :
    s.Lasts w (s.fireAll ctx w events).1 (s.fireAll ctx w events).2 := by
  induction events generalizing s w with
  | nil => exact ⟨rfl, .refl _, .refl _, sound⟩
  | cons event events ih =>
    have first := fire_lasts sound hc event
    exact first.trans (ih first.sound (hc.mono first.grows.size))

/-- Whatever events were fired before in a context, an event gives in it what each of its calls
gives alone: one entry for every call that is kept for it, ordered by script, trigger and call. No
location that there was is moved. -/
theorem fire_repeatable (h : Reachable s w) (hc : ctx.InHeap w.heap) (earlier : List String)
    (event : String) :
    let before := s.fireAll ctx w earlier
    let out := before.1.fire event ctx before.2
    out.1.map (·.shown out.2.2.heap) =
        (s.agenda.filter (·.event = event)).map
          (fun d => d.site.alone ctx s.linkage.registry w d.script) ∧
      s.agenda.map (·.site) = s.keptCalls ∧ s.keptCalls.length = s.callCount ∧
      (s.agenda.map (·.script)).Pairwise (fun a b => (compare a b).isLE) ∧
      w.heap.Extends out.2.2.heap := by
  intro before out
  have sound := reachable_sound h
  have lasts := fireAll_lasts sound hc earlier
  have hc' := hc.mono lasts.grows.size
  have fired := fire_lasts lasts.sound hc' event
  have shown := (makeCalls_shown lasts.sound.held.coherent lasts.sound.settled hc'
    (before.1.callsOn event)).1
  have same : before.1.callsOn event = s.callsOn event := by
    unfold callsOn
    rw [lasts.scripts]
  refine ⟨?_, s.sites_agenda, length_keptCalls sound.held, s.scripts_agenda,
    lasts.grows.trans fired.grows⟩
  rw [← filterMap_callsOn, ← same]
  refine shown.trans (List.filterMap_congr ?_)
  intro call _
  exact lasts.calls.alone sound.settled hc lasts.grows call.1 call.2

end ScriptSet

namespace Library

open ScriptSet

/-- A call that was bound when there was nothing to run looks its function up the first time that it
is made, keeps what it found, and gives the same whenever it is made again. -/
theorem fire_repeatable_changed :
    let s := (declared.loaded.replace "lib.json" changed.script).1
    let before := s.fireAll .empty .empty ["go", "stop", "go"]
    let out := before.1.fire "go" .empty before.2
    Reachable s .empty ∧ Context.empty.InHeap World.empty.heap ∧
      s.keptCalls.map (·.callable?.isSome) = [false] ∧
      before.1.keptCalls.map (·.callable?.isSome) = [true] ∧
      out.1.map (·.shown out.2.2.heap) =
        [⟨"main.json", "f(\"abc\")", some [.str "new"], [], []⟩] := by
  intro s before out
  have reloaded := changed.reload_disk (s := declared.loaded) rfl World.empty.heap
  have reachable : Reachable s .empty :=
    .next declared.reachable_loaded (.update (.reload changed.disk path scriptName_path reloaded))
  have inHeap : Context.empty.InHeap World.empty.heap := fun _ _ hv => by cases hv
  obtain ⟨shown, -⟩ := fire_repeatable reachable inHeap ["go", "stop", "go"] "go"
  exact ⟨reachable, inHeap, rfl, rfl, shown.trans rfl⟩

end Library

end LiveCalls
