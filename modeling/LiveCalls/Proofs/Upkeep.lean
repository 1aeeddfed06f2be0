import LiveCalls.Proofs.CallerOrder
import LiveCalls.Proofs.Outcome
import Mathlib.Data.List.Induction

/-!
# Keeping call sites up to date

Functions are declared, defined and removed, and all news of it is passed on at once. A call site
that is bound then has the signature that its function is registered with, or was rejected when it
was last told. There is no news where a function is defined that was declared only, though, and none
for a site that is not tracked or has been forgotten. So a site may be overlooked, and then it stays
out of date until it is validated again.
-/

namespace LiveCalls

namespace Registry

variable {r : Registry} {name : String}

theorem news_of_called (called : r.callers name ≠ []) :
    r.news? name = some ⟨name, r.callers name⟩ := by
  unfold news?
  split
  · contradiction
  · rfl

/-- A declaration in the place of another is news to all callers. -/
theorem news_declare {s : Signature Ref} (declared : r.isDeclared s.name)
    (called : r.callers s.name ≠ []) : (r.declare s).1 = some ⟨s.name, r.callers s.name⟩ := by
  rw [declare, if_pos declared]
  exact news_of_called called

/-- A definition of a function that is declared is news to all callers if there was something to run
already, and to nobody if there was not. -/
theorem news_define {f : Callable} (declared : r.isDeclared f.signature.name)
    (called : r.callers f.signature.name ≠ []) :
    (r.define f).1 = if r.callables.contains f.signature.name then
      some ⟨f.signature.name, r.callers f.signature.name⟩ else none := by
  simp only [define, declared, Bool.not_true, Bool.or_false, news_of_called called]

theorem news_remove (declared : r.isDeclared name) (called : r.callers name ≠ []) :
    (r.remove name).1 = some ⟨name, r.callers name⟩ := by
  rw [remove, declared, Bool.true_or, if_pos rfl]
  exact news_of_called called

end Registry

theorem CallSite.signature_of_accepted {phase : Phase} {r : Registry} {c : CallSite}
    (h : (c.validate phase r).accepted) :
    (c.validate phase r).site.signature? = r.signatures.get? c.function := by
  rcases validate_cases phase r c with ⟨a, judged, verdict⟩ | ⟨rejection, -, verdict⟩
  · rw [verdict]
    exact (judge_eq_ok_iff.mp judged).1.symm
  · rw [verdict] at h
    cases h

/-- Something that is done to functions or to call sites. -/
inductive Action where
  | declare (s : Signature Ref)
  | define (f : Callable)
  | remove (name : String)
  | subscribe (name : String) (id : CallId)
  | forget (id : CallId)
  /-- A new call, which nothing has validated. -/
  | write (c : CallSite)
  | validate (phase : Phase) (id : CallId)
  | execute (id : CallId) (ctx : Context) (w : World)
  | track (id : CallId)
  | untrack (id : CallId)
  | drop (id : CallId)

/-- The function that an action gives another definition, or none. -/
def Action.redefines : Action → Option String
  | declare s => some s.name
  | define f => some f.signature.name
  | remove name => some name
  | _ => none

namespace Linkage

/-- What the last validation for a redefinition said of each site, after these have been told one
after the other. -/
def verdicts (l : Linkage) (vs : Table CallId Bool) : List CallId → Table CallId Bool
  | [] => vs
  | id :: ids =>
    match l.trial? id with
    | none => (l.tell id).verdicts vs ids
    | some t => (l.tell id).verdicts (vs.insert id t.accepted) ids

theorem get?_verdicts {l : Linkage} (filed : l.sites.Filed) (vs : Table CallId Bool)
    (ids : List CallId) (id : CallId) :
    (l.verdicts vs ids).get? id =
      (if id ∈ ids then (l.trial? id).map (·.accepted) else none).or (vs.get? id) := by
  induction ids generalizing l vs with
  | nil => rfl
  | cons first ids ih =>
    have same := tell_trial? filed first
    rw [verdicts]
    cases trial : l.trial? first with
    | none =>
      simp only [ih (filed_tell filed first), same, List.mem_cons]
      by_cases own : id = first
      · simp [own, trial]
      · simp [own]
    | some t =>
      simp only [ih (filed_tell filed first), same, List.mem_cons, Table.get?_insert_ite]
      by_cases own : id = first
      · subst own
        by_cases again : id ∈ ids <;> simp [again, trial]
      · simp [own]

theorem filed_notify {l : Linkage} (filed : l.sites.Filed) (ids : List CallId) :
    (l.notify ids).linkage.sites.Filed := by
  induction ids generalizing l with
  | nil => exact filed
  | cons id ids ih =>
    have rest := ih (filed_tell filed id)
    cases found : l.sites.following? id with
    | none => rwa [notify_idle found]
    | some c => rwa [notify_following found]

end Linkage

/-- Functions and call sites, with what the last validation for a redefinition said of each site. -/
structure Session where
  linkage : Linkage
  verdicts : Table CallId Bool

namespace Session

def start (r : Registry) : Session := ⟨⟨r, .empty⟩, .empty⟩

def registry (s : Session) : Registry := s.linkage.registry

def sites (s : Session) : CallSites := s.linkage.sites

/-- The session after functions have changed. If this is news, it is passed on at once. -/
def pass (s : Session) (change : Option Redefined × Registry) : Session :=
  let l : Linkage := ⟨change.2, s.sites⟩
  match change.1 with
  | none => { s with linkage := l }
  | some event => ⟨(l.dispatch event).linkage, l.verdicts s.verdicts event.callers⟩

def act (s : Session) : Action → Session
  | .declare f => s.pass (s.registry.declare f)
  | .define f => s.pass (s.registry.define f)
  | .remove name => s.pass (s.registry.remove name)
  | .subscribe name id => { s with linkage := ⟨s.registry.subscribe name id, s.sites⟩ }
  | .forget id => { s with linkage := ⟨s.registry.forget id, s.sites⟩ }
  | .write c =>
    if s.sites.live.contains c.id then s
    else ⟨⟨s.registry, s.sites.keep { c with binding := .unbound none }⟩, s.verdicts.erase c.id⟩
  | .validate phase id =>
    match s.sites.live.get? id with
    | none => s
    | some c =>
      let v := c.validate phase s.registry
      ⟨⟨v.registry, s.sites.keep v.site⟩,
        if phase = .again then s.verdicts.insert id v.accepted else s.verdicts⟩
  | .execute id ctx w =>
    match s.sites.live.get? id with
    | none => s
    | some c => { s with linkage := ⟨s.registry, s.sites.keep (c.execute ctx s.registry w).site⟩ }
  | .track id => { s with linkage := ⟨s.registry, s.sites.track id⟩ }
  | .untrack id => { s with linkage := ⟨s.registry, s.sites.untrack id⟩ }
  | .drop id => { s with linkage := ⟨s.registry, s.sites.drop id⟩ }

def run (s : Session) (actions : List Action) : Session := actions.foldl act s

/-- The site of this identity, if it is bound, has the signature of its function, or its last
validation for a redefinition rejected it. -/
def Current (s : Session) (id : CallId) : Prop :=
  ∀ c, s.sites.live.get? id = some c → c.isBound →
    c.signature? = s.registry.signatures.get? c.function ∨ s.verdicts.get? id = some false

/-- An action overlooks a site if it gives the function of the site another definition and the site
is not tracked or not registered as a caller, or if it is the definition of a function that was only
declared, with another signature. -/
inductive Overlooks (s : Session) (id : CallId) : Action → Prop where
  | unheard {action : Action} {c : CallSite} (live : s.sites.live.get? id = some c)
      (redefines : action.redefines = some c.function)
      (unheard : ¬(s.sites.tracked.contains id ∧ id ∈ s.registry.callers c.function)) :
      Overlooks s id action
  | silent {f : Callable} {c : CallSite} {old : Signature Ref}
      (live : s.sites.live.get? id = some c) (redefines : f.signature.name = c.function)
      (declared : s.registry.signatures.get? c.function = some old)
      (bare : s.registry.callables.get? c.function = none) (other : old ≠ f.signature) :
      Overlooks s id (.define f)

section
variable {s : Session} (filed : s.sites.Filed) {id : CallId}

theorem Current.congr {t : Session} (current : s.Current id)
    (signatures : t.registry.signatures = s.registry.signatures)
    (verdict : t.verdicts.get? id = s.verdicts.get? id)
    (site : ∀ d, t.sites.live.get? id = some d → d.isBound →
      ∃ c, s.sites.live.get? id = some c ∧ c.signature? = d.signature? ∧ c.function = d.function) :
    t.Current id := by
  intro d live bound
  obtain ⟨c, hc, signature, function⟩ := site d live bound
  have bound : c.isBound := by rwa [CallSite.isBound, signature]
  rw [← signature, signatures, verdict, ← function]
  exact current c hc bound

theorem pass_eq (s : Session) (change : Option Redefined × Registry) :
    let l : Linkage := ⟨change.2, s.sites⟩
    let ids := (change.1.map (·.callers)).getD []
    s.pass change = ⟨(l.notify ids).linkage, l.verdicts s.verdicts ids⟩ := by
  unfold pass
  cases change.1 <;> rfl

theorem signatures_pass (s : Session) (change : Option Redefined × Registry) :
    (s.pass change).registry.signatures = change.2.signatures := by
  rw [s.pass_eq change]
  exact (Linkage.functions_notify ⟨change.2, s.sites⟩ _).signatures

include filed

/-- A change of functions tells a site, which is validated against the functions that there are now,
or leaves the site as it is. -/
theorem pass_cases (change : Option Redefined × Registry) (id : CallId) :
    (∃ c, s.sites.live.get? id = some c ∧
      (s.pass change).sites.live.get? id = some (c.validate .again change.2).site ∧
      (s.pass change).verdicts.get? id = some (c.validate .again change.2).accepted) ∨
    ((s.pass change).sites.live.get? id = s.sites.live.get? id ∧
      (s.pass change).verdicts.get? id = s.verdicts.get? id ∧
      ∀ c event, s.sites.live.get? id = some c → change.1 = some event → id ∈ event.callers →
        ¬s.sites.tracked.contains id) := by
  rw [s.pass_eq change]
  have named (event : Redefined) (news : change.1 = some event) :
      (change.1.map (·.callers)).getD [] = event.callers := by rw [news]; rfl
  generalize (change.1.map (·.callers)).getD [] = ids at named ⊢
  let l : Linkage := ⟨change.2, s.sites⟩
  obtain ⟨hears, -, -⟩ := Linkage.notify_hears (l := l) filed ids
  have site := hears.live id
  have verdict := Linkage.get?_verdicts (l := l) filed s.verdicts ids id
  by_cases told : id ∈ ids ∧ ∃ t, l.trial? id = some t
  · obtain ⟨listed, t, trial⟩ := told
    obtain ⟨-, c, live, rfl⟩ := Linkage.trial_eq_some_iff.mp trial
    rw [if_pos listed, trial] at site verdict
    exact .inl ⟨c, live, site, verdict⟩
  · have silent {α : Type} (f : Trial → α) :
        (if id ∈ ids then (l.trial? id).map f else none) = none := by
      split
      · rename_i listed
        rw [Option.eq_none_iff_forall_ne_some.mpr fun t trial => told ⟨listed, t, trial⟩,
          Option.map_none]
      · rfl
    rw [silent, Option.none_or] at site verdict
    refine .inr ⟨site, verdict, fun c event live news called tracked => ?_⟩
    rw [← named event news] at called
    exact told ⟨called, _, Linkage.trial_eq_some_iff.mpr ⟨tracked, c, live, rfl⟩⟩

/-- A change of functions leaves a site up to date if it tells the site, or leaves the signature of
its function as it is. -/
theorem pass_current (current : s.Current id) (change : Option Redefined × Registry)
    (told : ∀ c, s.sites.live.get? id = some c →
      change.2.signatures.get? c.function ≠ s.registry.signatures.get? c.function →
      s.registry.isDeclared c.function →
      s.sites.tracked.contains id ∧ ∃ event, change.1 = some event ∧ id ∈ event.callers) :
    (s.pass change).Current id := by
  intro d live bound
  rw [s.signatures_pass change]
  rcases pass_cases filed change id with ⟨c, -, site, verdict⟩ | ⟨site, verdict, untold⟩
  · obtain rfl := Option.some.inj (site.symm.trans live)
    rw [verdict, (CallSite.frame_validate .again change.2 c).2.1]
    cases accepted : (c.validate .again change.2).accepted with
    | true => exact .inl (CallSite.signature_of_accepted accepted)
    | false => exact .inr rfl
  · have held : s.sites.live.get? id = some d := site.symm.trans live
    rw [verdict]
    refine (current d held bound).imp_left fun signature => signature.trans ?_
    by_contra changed
    have declared : s.registry.isDeclared d.function := by
      rw [Registry.isDeclared, Table.contains, ← signature]
      exact bound
    obtain ⟨tracked, event, news, called⟩ := told d held (Ne.symm changed) declared
    exact untold d event held news called tracked

omit filed in
/-- Where one site is put in its place, that one has to be up to date, and the others are as they
were. -/
theorem keep_current (current : s.Current id) {d : CallSite} {r : Registry}
    (signatures : r.signatures = s.registry.signatures) {vs : Table CallId Bool}
    (others : id ≠ d.id → vs.get? id = s.verdicts.get? id)
    (own : id = d.id → d.isBound → d.signature? = s.registry.signatures.get? d.function ∨
      vs.get? id = some false) :
    Current ⟨⟨r, s.sites.keep d⟩, vs⟩ id := by
  intro e live bound
  have found : (if id = d.id then some d else s.sites.live.get? id) = some e :=
    (s.sites.live_keep d id).symm.trans live
  change e.signature? = r.signatures.get? e.function ∨ vs.get? id = some false
  rw [signatures]
  split at found
  · rename_i same
    obtain rfl := Option.some.inj found
    exact own same bound
  · rename_i other
    rw [others other]
    exact current e found bound

/-- An action that does not overlook a site leaves it up to date. -/
theorem act_current (current : s.Current id) {action : Action} (h : ¬s.Overlooks id action) :
    (s.act action).Current id := by
  have heard {c : CallSite} (live : s.sites.live.get? id = some c)
      (redefines : action.redefines = some c.function) :
      s.sites.tracked.contains id ∧ id ∈ s.registry.callers c.function :=
    by_contra fun unheard => h (.unheard live redefines unheard)
  cases action with
  | declare f =>
    refine pass_current filed current _ fun c live changed declared => ?_
    rw [Registry.get?_signatures_declare] at changed
    obtain ⟨name, -⟩ := ite_ne_right_iff.mp changed
    obtain ⟨tracked, called⟩ := heard live (congrArg some name.symm)
    rw [name] at declared called
    exact ⟨tracked, _, Registry.news_declare declared (List.ne_nil_of_mem called), called⟩
  | define f =>
    refine pass_current filed current _ fun c live changed declared => ?_
    rw [Registry.get?_signatures_define] at changed
    obtain ⟨name, other⟩ := ite_ne_right_iff.mp changed
    obtain ⟨tracked, called⟩ := heard live (congrArg some name.symm)
    obtain ⟨old, was⟩ := Option.isSome_iff_exists.mp declared
    have installed : s.registry.callables.contains c.function := by
      refine Option.isSome_iff_ne_none.mpr fun bare => h (.silent live name.symm was bare ?_)
      rintro rfl
      exact other was.symm
    rw [name] at declared called installed
    refine ⟨tracked, ⟨f.signature.name, s.registry.callers f.signature.name⟩, ?_, called⟩
    rw [Registry.news_define declared (List.ne_nil_of_mem called), if_pos installed]
  | remove name =>
    refine pass_current filed current _ fun c live changed declared => ?_
    rw [Registry.get?_signatures_remove] at changed
    obtain ⟨rfl, -⟩ := ite_ne_right_iff.mp changed
    obtain ⟨tracked, called⟩ := heard live rfl
    exact ⟨tracked, _, Registry.news_remove declared (List.ne_nil_of_mem called), called⟩
  | subscribe name caller => exact current.congr rfl rfl fun d live _ => ⟨d, live, rfl, rfl⟩
  | forget caller => exact current.congr rfl rfl fun d live _ => ⟨d, live, rfl, rfl⟩
  | track other => exact current.congr rfl rfl fun d live _ => ⟨d, live, rfl, rfl⟩
  | untrack other => exact current.congr rfl rfl fun d live _ => ⟨d, live, rfl, rfl⟩
  | drop other =>
    refine current.congr rfl rfl fun d live _ => ⟨d, ?_, rfl, rfl⟩
    have found : (if id = other then none else s.sites.live.get? id) = some d :=
      (s.sites.live.get?_erase_ite other id).symm.trans live
    exact (Option.ite_none_left_eq_some.mp found).2
  | write c =>
    rw [act]
    split
    · exact current
    · refine keep_current current rfl (fun other => ?_) nofun
      exact s.verdicts.get?_erase_of_ne (Ne.symm other)
  | validate phase other =>
    rw [act]
    split
    · exact current
    · rename_i c live
      obtain rfl := filed other c live
      obtain ⟨own, function, -⟩ := CallSite.frame_validate phase s.registry c
      refine keep_current current (CallSite.functions_validate phase s.registry c).signatures ?_ ?_
      · intro other
        rw [own] at other
        split
        · exact s.verdicts.get?_insert_of_ne _ other
        · rfl
      · intro same bound
        obtain rfl : id = c.id := same.trans own
        cases accepted : (c.validate phase s.registry).accepted with
        | true => exact .inl (function.symm ▸ CallSite.signature_of_accepted accepted)
        | false =>
          rw [CallSite.site_of_rejected accepted] at bound ⊢
          cases phase with
          | first => exact current c live bound
          | again => exact .inr (s.verdicts.get?_insert_self c.id false)
  | execute other ctx w =>
    rw [act]
    split
    · exact current
    · rename_i c live
      obtain rfl := filed other c live
      obtain ⟨own, function, bound⟩ := CallSite.frame_resolve s.registry c
      refine keep_current current rfl (fun _ => rfl) ?_
      rw [CallSite.site_execute, own, function, bound, (CallSite.resolve_eq s.registry c).2]
      rintro rfl held
      exact current c live held

theorem act_filed (action : Action) : (s.act action).sites.Filed := by
  have pass (change : Option Redefined × Registry) : (s.pass change).sites.Filed := by
    rw [s.pass_eq change]
    exact Linkage.filed_notify (l := ⟨change.2, s.sites⟩) filed _
  cases action with
  | declare f => exact pass _
  | define f => exact pass _
  | remove name => exact pass _
  | subscribe name caller => exact filed
  | forget caller => exact filed
  | track other => exact filed
  | untrack other => exact filed
  | drop other =>
    intro i c live
    have found : (if i = other then none else s.sites.live.get? i) = some c :=
      (s.sites.live.get?_erase_ite other i).symm.trans live
    exact filed i c (Option.ite_none_left_eq_some.mp found).2
  | write c =>
    rw [act]
    split
    · exact filed
    · exact filed.keep _
  | validate phase other =>
    rw [act]
    split
    · exact filed
    · exact filed.keep _
  | execute other ctx w =>
    rw [act]
    split
    · exact filed
    · exact filed.keep _

theorem run_filed (actions : List Action) : (s.run actions).sites.Filed := by
  induction actions generalizing s with
  | nil => exact filed
  | cons action rest ih => exact ih (act_filed filed action)

/-- A site that is out of date was up to date until it was overlooked, and not any more since. -/
theorem overlooked_of_outdated (current : s.Current id) {actions : List Action}
    (outdated : ¬(s.run actions).Current id) :
    ∃ before action later, actions = before ++ action :: later ∧
      (s.run before).Current id ∧ (s.run before).Overlooks id action ∧
      ∀ mid, mid <+: later → ¬(s.run (before ++ action :: mid)).Current id := by
  induction actions using List.reverseRecOn with
  | nil => exact absurd current outdated
  | append_singleton earlier last ih =>
    have run : s.run (earlier ++ [last]) = (s.run earlier).act last := by
      rw [Session.run, List.foldl_append]
      rfl
    by_cases before : (s.run earlier).Current id
    · -- the last action is the one that overlooked the site
      refine ⟨earlier, last, [], rfl, before, ?_, fun mid within => ?_⟩
      · by_contra seen
        rw [run] at outdated
        exact outdated (act_current (run_filed filed earlier) before seen)
      · rwa [List.prefix_nil.mp within]
    · obtain ⟨first, action, later, rfl, upToDate, overlooks, since⟩ := ih before
      refine ⟨first, action, later ++ [last], by simp, upToDate, overlooks, fun mid within => ?_⟩
      rcases List.prefix_concat_iff.mp within with whole | within
      · rwa [whole, ← List.cons_append, ← List.append_assoc]
      · exact since mid within

end

/-- A declaration in the place of a signature is news that names exactly the callers of its
function, and so is a definition if there was something to run already. A definition of a function
that was only declared is news to nobody. So if all news is passed on at once, a site that is bound
has the signature that its function is registered with, or its last validation for a redefinition
rejected it, or it was up to date until a change overlooked it and has been out of date since. -/
theorem swap_announced :
    (∀ (r : Registry) (s : Signature Ref), r.isDeclared s.name → r.callers s.name ≠ [] →
      (r.declare s).1 = some ⟨s.name, r.callers s.name⟩) ∧
    (∀ (r : Registry) (f : Callable), r.isDeclared f.signature.name →
      r.callers f.signature.name ≠ [] →
        (r.define f).1 = if r.callables.contains f.signature.name then
          some ⟨f.signature.name, r.callers f.signature.name⟩ else none) ∧
    ∀ (r : Registry) (actions : List Action) (id : CallId) (c : CallSite),
      ((start r).run actions).sites.live.get? id = some c → c.isBound →
        c.signature? = ((start r).run actions).registry.signatures.get? c.function ∨
          ((start r).run actions).verdicts.get? id = some false ∨
          ∃ before action later, actions = before ++ action :: later ∧
            ((start r).run before).Current id ∧ ((start r).run before).Overlooks id action ∧
            ∀ mid, mid <+: later →
              ¬((start r).run (before ++ action :: mid)).Current id := by
  refine ⟨fun r s => Registry.news_declare, fun r f => Registry.news_define, ?_⟩
  intro r actions id c live bound
  have filed : (start r).sites.Filed := CallSites.Filed.empty
  have current : (start r).Current id := fun _ h => by cases h
  by_cases upToDate : ((start r).run actions).Current id
  · exact (upToDate c live bound).imp_right .inl
  · exact .inr (.inr (overlooked_of_outdated filed current upToDate))

def plain : Signature Ref := ⟨"f", [], none⟩

/-- The function with a parameter that may be left out. -/
def roomy : Callable :=
  ⟨⟨"f", [⟨"x", .any, .single, some [.bool true]⟩], none⟩, .script (.var "x" .any .unknown)⟩

/-- The function is declared, and a call of it bound and tracked. -/
def calling : List Action :=
  [.declare plain, .write (.fresh 1 "f" none none [] .value), .validate .first 1, .track 1]

/-- A site is out of date if its function has got another number of parameters and no validation has
rejected it. -/
theorem not_current {s : Session} {id : CallId}
    (moved : (s.sites.live.get? id).any fun c => c.isBound &&
      c.signature?.map (·.arity) != (s.registry.signatures.get? c.function).map (·.arity))
    (passed : s.verdicts.get? id ≠ some false) : ¬s.Current id := by
  intro current
  cases live : s.sites.live.get? id with
  | none =>
    rw [live] at moved
    cases moved
  | some c =>
    rw [live, Option.any_some, Bool.and_eq_true, bne_iff_ne] at moved
    rcases current c live moved.1 with signature | rejected
    · exact moved.2 (congrArg (Option.map Signature.arity) signature)
    · exact passed rejected

/-- What is defined over a bare declaration is news to nobody, and the call that was bound has the
signature that was declared, until it is validated again. -/
theorem swap_announced_plain :
    let s := (start .empty).run calling
    (s.registry.declare roomy.signature).1 = some ⟨"f", [1]⟩ ∧
      ((s.registry.define roomy).2.define roomy).1 = some ⟨"f", [1]⟩ ∧
      (s.registry.define roomy).1 = none ∧
      ∃ before action later, calling ++ [.define roomy] = before ++ action :: later ∧
        ((start .empty).run before).Overlooks 1 action := by
  intro s
  obtain ⟨declares, defines, sites⟩ := swap_announced
  refine ⟨?_, ?_, ?_, ?_⟩
  · exact (declares s.registry roomy.signature (by decide) (by decide)).trans (by decide)
  · exact (defines (s.registry.define roomy).2 roomy (by decide) (by decide)).trans (by decide)
  · exact (defines s.registry roomy (by decide) (by decide)).trans (by decide)
  · rcases sites .empty (calling ++ [.define roomy]) 1 _ rfl rfl with
      signature | rejected | ⟨before, action, later, split, -, overlooks, -⟩
    · exact absurd (congrArg (Option.map Signature.arity) signature) (by decide)
    · exact absurd rejected (by decide)
    · exact ⟨before, action, later, split, overlooks⟩

/-- There are three ways for a function to get another signature behind the back of a call that is
there, tracked and bound, and was never rejected: a definition after a bare declaration, with the
call among those that are registered, and any change while the call was forgotten or not tracked. -/
theorem swap_unannounced :
    let s := (start .empty).run calling
    s.registry.callers "f" = [1] ∧ s.registry.signatures.get? "f" = some plain ∧
      plain ≠ roomy.signature ∧ (s.registry.define roomy).1 = none ∧
      ∀ actions ∈ [[.define roomy], [.forget 1, .declare roomy.signature],
          [.untrack 1, .declare roomy.signature, .track 1]],
        (s.run actions).sites.tracked.contains 1 ∧ ¬(s.run actions).Current 1 := by
  intro s
  refine ⟨by decide, rfl, nofun, by decide, ?_⟩
  simp only [List.forall_mem_cons]
  refine ⟨?_, ?_, ?_, nofun⟩
  · exact ⟨by decide, not_current (by decide) (by decide)⟩
  · exact ⟨by decide, not_current (by decide) (by decide)⟩
  · exact ⟨by decide, not_current (by decide) (by decide)⟩

end Session

end LiveCalls
