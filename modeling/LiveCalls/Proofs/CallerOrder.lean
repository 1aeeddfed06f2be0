import LiveCalls.Proofs.Notification
import LiveCalls.Proofs.Repetition

/-!
# Passing on news in any order

A site that is told of a redefinition is validated against functions that no validation changes, and
validating it once more comes to the same. So what comes of telling sites is settled by the sites
that are named and how often, not by the order in which they are told.
-/

namespace LiveCalls

namespace Table

variable {κ : Type} [Ord κ]

theorem contains_iff {t : Table κ Unit} {k : κ} : t.contains k ↔ t.get? k = some () := by
  rw [contains, Option.isSome_iff_exists]
  constructor
  · rintro ⟨⟨⟩, h⟩
    exact h
  · intro h
    exact ⟨(), h⟩

theorem ext_contains [Std.TransOrd κ] [Std.LawfulEqOrd κ] {s t : Table κ Unit}
    (h : ∀ k, s.contains k ↔ t.contains k) : s = t := by
  apply ext
  intro k
  have same := h k
  rw [contains_iff, contains_iff] at same
  exact Option.ext fun _ => same

end Table

/-- What a validation says of a site, whatever it does to the registry. -/
structure Trial where
  accepted : Bool
  site : CallSite
  diagnostics : List Diagnostic

namespace CallSite

def tried (r : Registry) (c : CallSite) : Trial :=
  ⟨(c.validate .again r).accepted, (c.validate .again r).site, (c.validate .again r).diagnostics⟩

theorem tried_congr {r r' : Registry} (same : r.SameFunctions r') (c : CallSite) :
    c.tried r' = c.tried r := by
  obtain ⟨accepted, site, diagnostics⟩ := validate_congr same .again c
  rw [tried, accepted, site, diagnostics, tried]

/-- A site that has been validated has nothing else said of it. -/
theorem tried_tried (r : Registry) (c : CallSite) : (c.tried r).site.tried r = c.tried r := by
  cases accepted : (c.validate .again r).accepted with
  | true =>
    have same := validate_accepted (.inr rfl) accepted
    have once := tried_congr (functions_validate .again r c) (c.tried r).site
    rw [← once]
    exact congrArg (fun v : Verdict => Trial.mk v.accepted v.site v.diagnostics) same
  | false =>
    have unchanged : (c.tried r).site = c := site_of_rejected accepted
    rw [unchanged]

theorem function_tried (r : Registry) (c : CallSite) : (c.tried r).site.function = c.function :=
  (frame_validate .again r c).2.1

theorem id_tried (r : Registry) (c : CallSite) : (c.tried r).site.id = c.id :=
  (frame_validate .again r c).1

end CallSite

/-- Sites of which the same is said count alike, and alike is reported on them. -/
theorem Revalidation.of_trials {r r' : Registry} {cs ds : List CallSite}
    (same : cs.map (·.tried r) = ds.map (·.tried r')) : of r cs = of r' ds := by
  have counted (r : Registry) (cs : List CallSite) :
      of r cs = ⟨(cs.map (·.tried r)).countP (·.accepted),
        (cs.map (·.tried r)).countP (!·.accepted)⟩ := by
    rw [List.countP_map, List.countP_map]
    rfl
  rw [counted, counted, same]

theorem reports_trials {r r' : Registry} {cs ds : List CallSite}
    (same : cs.map (·.tried r) = ds.map (·.tried r')) : reports r cs = reports r' ds := by
  have listed (r : Registry) (cs : List CallSite) :
      reports r cs = (cs.map (·.tried r)).flatMap (·.diagnostics) := by
    rw [List.flatMap_map]
    rfl
  rw [listed, listed, same]

/-- Every site is kept under its own identity. -/
def CallSites.Filed (s : CallSites) : Prop := ∀ id c, s.live.get? id = some c → c.id = id

namespace CallSites

variable {s : CallSites}

theorem following_eq_some_iff {id : CallId} {c : CallSite} :
    s.following? id = some c ↔ s.tracked.contains id ∧ s.live.get? id = some c := by
  unfold following?
  split <;> simp_all

theorem following_eq_none_iff {id : CallId} :
    s.following? id = none ↔ (s.tracked.contains id → s.live.get? id = none) := by
  unfold following?
  split <;> simp_all

theorem Filed.empty : CallSites.empty.Filed := fun _ _ h => by cases h

theorem Filed.keep (filed : s.Filed) (c : CallSite) : (s.keep c).Filed := by
  intro id d hd
  rw [live_keep] at hd
  split at hd
  · rename_i own
    cases hd
    exact own.symm
  · exact filed id d hd

/-- A site that does not follow anyway may as well not be tracked. -/
theorem following_untrack {id : CallId} (idle : s.following? id = none) :
    (s.untrack id).following? = s.following? := by
  funext id'
  have tracked : (s.untrack id).tracked.get? id' = if id' = id then none else s.tracked.get? id' :=
    s.tracked.get?_erase_ite id id'
  by_cases same : id' = id
  · subst same
    rw [idle]
    refine following_eq_none_iff.mpr fun h => ?_
    rw [Table.contains, tracked, if_pos rfl] at h
    cases h
  · rw [if_neg same] at tracked
    unfold following? Table.contains
    rw [tracked]
    rfl

theorem following_keep {c d : CallSite} (follows : s.following? d.id = some c) (id : CallId) :
    (s.keep d).following? id = if id = d.id then some d else s.following? id := by
  obtain ⟨tracked, -⟩ := following_eq_some_iff.mp follows
  have contains : (s.keep d).tracked.contains id = s.tracked.contains id := rfl
  rw [following?, contains, live_keep]
  by_cases same : id = d.id
  · rw [same, tracked]
    simp
  · rw [if_neg same, if_neg same, following?]

end CallSites

namespace Linkage

/-- What validating the site of this identity again says, if it is there and follows
redefinitions. -/
def trial? (l : Linkage) (id : CallId) : Option Trial :=
  (l.sites.following? id).map (·.tried l.registry)

def tell (l : Linkage) (id : CallId) : Linkage :=
  match l.sites.following? id with
  | none => { l with sites := l.sites.untrack id }
  | some c => l.revalidated c

theorem notify_idle {l : Linkage} {id : CallId} (idle : l.sites.following? id = none)
    (ids : List CallId) : l.notify (id :: ids) = (l.tell id).notify ids := by
  rw [notify, tell, idle]

theorem notify_following {l : Linkage} {id : CallId} {c : CallSite}
    (follows : l.sites.following? id = some c) (ids : List CallId) :
    l.notify (id :: ids) =
      ⟨((l.tell id).notify ids).linkage,
        .one (c.validate .again l.registry).accepted + ((l.tell id).notify ids).outcome,
        (c.validate .again l.registry).diagnostics ++ ((l.tell id).notify ids).diagnostics⟩ := by
  rw [notify, tell, follows]
  rfl

theorem functions_tell (l : Linkage) (id : CallId) :
    l.registry.SameFunctions (l.tell id).registry := by
  unfold tell
  split
  · exact .refl _
  · exact CallSite.functions_validate .again l.registry _

theorem filed_tell {l : Linkage} (filed : l.sites.Filed) (id : CallId) :
    (l.tell id).sites.Filed := by
  unfold tell
  split
  · exact filed
  · exact filed.keep _

/-- Telling one site leaves open what any site would say, this one included. -/
theorem tell_trial? {l : Linkage} (filed : l.sites.Filed) (id : CallId) :
    (l.tell id).trial? = l.trial? := by
  have tried := CallSite.tried_congr (l.functions_tell id)
  funext id'
  unfold trial?
  rw [funext tried]
  unfold tell
  cases found : l.sites.following? id with
  | none => exact congrArg (Option.map _) (congrFun (CallSites.following_untrack found) id')
  | some c =>
    obtain ⟨-, live⟩ := CallSites.following_eq_some_iff.mp found
    obtain rfl := filed id c live
    have own : (c.tried l.registry).site.id = c.id := c.id_tried l.registry
    have follows : l.sites.following? (c.tried l.registry).site.id = some c := by rwa [own]
    refine (congrArg (Option.map _) (CallSites.following_keep follows id')).trans ?_
    rw [own]
    split
    · rename_i same
      rw [same, found]
      exact congrArg some (c.tried_tried l.registry)
    · rfl

/-- What has become of a linkage once the sites of these identities have been told. No function
changes. A site that is named, is there and follows redefinitions is what its validation makes of
it, and calls its function if it was accepted. One that is named and is not there is not tracked any
more. -/
structure Hears (l : Linkage) (ids : List CallId) (m : Linkage) : Prop where
  functions : l.registry.SameFunctions m.registry
  callers : ∀ id name, id ∈ m.registry.callers name ↔ id ∈ l.registry.callers name ∨
    id ∈ ids ∧ ∃ t, l.trial? id = some t ∧ t.accepted ∧ t.site.function = name
  live : ∀ id, m.sites.live.get? id =
    (if id ∈ ids then (l.trial? id).map (·.site) else none).or (l.sites.live.get? id)
  tracked : ∀ id, m.sites.tracked.contains id ↔
    l.sites.tracked.contains id ∧ (id ∈ ids → l.sites.live.contains id)
  next : m.sites.next = l.sites.next

theorem trial_eq_some_iff {l : Linkage} {id : CallId} {t : Trial} :
    l.trial? id = some t ↔ l.sites.tracked.contains id ∧
      ∃ c, l.sites.live.get? id = some c ∧ c.tried l.registry = t := by
  simp only [trial?, Option.map_eq_some_iff, CallSites.following_eq_some_iff, and_assoc,
    exists_and_left]

theorem tell_hears {l : Linkage} (filed : l.sites.Filed) (id : CallId) :
    l.Hears [id] (l.tell id) := by
  cases found : l.sites.following? id with
  | none =>
    have told : l.tell id = { l with sites := l.sites.untrack id } := by rw [tell, found]
    have silent : l.trial? id = none := by rw [trial?, found, Option.map_none]
    rw [told]
    refine ⟨.refl _, fun i name => ?_, fun i => ?_, fun i => ?_, rfl⟩
    · refine (or_iff_left ?_).symm
      rintro ⟨named, t, trial, -⟩
      rw [List.mem_singleton.mp named, silent] at trial
      cases trial
    · split
      · rename_i named
        rw [List.mem_singleton.mp named, silent]
        rfl
      · rfl
    · have idle := CallSites.following_eq_none_iff.mp found
      have tracked : (l.sites.untrack id).tracked.get? i =
          if i = id then none else l.sites.tracked.get? i := l.sites.tracked.get?_erase_ite id i
      rw [Table.contains, tracked, List.mem_singleton]
      by_cases same : i = id
      · subst same
        rw [if_pos rfl]
        refine iff_of_false Bool.false_ne_true ?_
        rintro ⟨follows, there⟩
        have live := there rfl
        rw [Table.contains, idle follows] at live
        cases live
      · simp [same, Table.contains]
  | some c =>
    obtain ⟨tracked, live⟩ := CallSites.following_eq_some_iff.mp found
    obtain rfl := filed id c live
    have told : l.tell c.id = l.revalidated c := by rw [tell, found]
    have trial : l.trial? c.id = some (c.tried l.registry) := by
      rw [trial?, found, Option.map_some]
    rw [told]
    refine ⟨CallSite.functions_validate .again l.registry c, fun i name => ?_, fun i => ?_,
      fun i => ?_, rfl⟩
    · refine CallSite.mem_callers_validate.trans (or_comm.trans (or_congr_right ?_))
      rw [List.mem_singleton]
      constructor
      · rintro ⟨accepted, rfl, rfl⟩
        exact ⟨rfl, _, trial, accepted, c.function_tried l.registry⟩
      · rintro ⟨rfl, t, given, accepted, rfl⟩
        obtain rfl := Option.some.inj (trial.symm.trans given)
        exact ⟨accepted, rfl, c.function_tried l.registry⟩
    · simp only [live_revalidated, List.mem_singleton]
      split
      · rename_i same
        rw [same, trial]
        rfl
      · rfl
    · refine (and_iff_left ?_).symm
      intro named
      rw [List.mem_singleton.mp named]
      exact Table.contains_of_get? live

namespace Hears

variable {l m n : Linkage} {ids ids' : List CallId}

theorem nil (l : Linkage) : l.Hears [] l := by
  constructor <;> simp [Registry.SameFunctions.refl]

theorem contains (h : l.Hears ids m) (id : CallId) :
    m.sites.live.contains id = l.sites.live.contains id := by
  rw [Table.contains, h.live]
  split
  · cases trial : l.trial? id with
    | none => rfl
    | some t =>
      obtain ⟨-, c, live, -⟩ := trial_eq_some_iff.mp trial
      rw [Table.contains, live]
      rfl
  · rfl

theorem trans (h : l.Hears ids m) (same : m.trial? = l.trial?) (h' : m.Hears ids' n) :
    l.Hears (ids ++ ids') n := by
  refine ⟨h.functions.trans h'.functions, fun id name => ?_, fun id => ?_, fun id => ?_,
    h'.next.trans h.next⟩
  · rw [h'.callers, h.callers, same, List.mem_append, or_and_right, or_assoc]
  · rw [h'.live, h.live, same]
    by_cases first : id ∈ ids <;> by_cases later : id ∈ ids' <;>
      cases l.trial? id <;> simp [first, later]
  · rw [h'.tracked, h.tracked, h.contains, List.mem_append, or_imp, and_assoc]

/-- What has become of a linkage depends on which sites have been told, and on nothing else. -/
theorem unique (h : l.Hears ids m) (h' : l.Hears ids' n) (same : ∀ id, id ∈ ids ↔ id ∈ ids') :
    m = n := by
  have live : m.sites.live = n.sites.live := by
    apply Table.ext
    intro id
    rw [h.live, h'.live]
    simp only [same]
  have tracked : m.sites.tracked = n.sites.tracked := by
    apply Table.ext_contains
    intro id
    rw [h.tracked, h'.tracked, same]
  have subscriptions : m.registry.subscriptions = n.registry.subscriptions := by
    apply Table.ext_contains
    intro s
    rw [Table.contains_iff, Table.contains_iff, ← Registry.mem_callers, ← Registry.mem_callers,
      h.callers, h'.callers, same]
  obtain ⟨⟨signatures, callables, _⟩, ⟨_, _, next⟩⟩ := m
  obtain ⟨⟨signatures', callables', _⟩, ⟨_, _, next'⟩⟩ := n
  obtain rfl : signatures = signatures' :=
    h.functions.signatures.trans h'.functions.signatures.symm
  obtain rfl : callables = callables' := h.functions.callables.trans h'.functions.callables.symm
  obtain rfl : next = next' := h.next.trans h'.next.symm
  cases live
  cases tracked
  cases subscriptions
  rfl

end Hears

/-- Each of the sites that are told counts, and is reported, as if it were told alone. -/
theorem notify_hears {l : Linkage} (filed : l.sites.Filed) (ids : List CallId) :
    l.Hears ids (l.notify ids).linkage ∧
      (l.notify ids).outcome = .of l.registry (ids.filterMap l.sites.following?) ∧
      (l.notify ids).diagnostics = reports l.registry (ids.filterMap l.sites.following?) := by
  induction ids generalizing l with
  | nil => exact ⟨.nil l, rfl, rfl⟩
  | cons id ids ih =>
    have first := tell_hears filed id
    have still := tell_trial? filed id
    obtain ⟨later, outcome, diagnostics⟩ := ih (filed_tell filed id)
    have same : (ids.filterMap (l.tell id).sites.following?).map (·.tried (l.tell id).registry) =
        (ids.filterMap l.sites.following?).map (·.tried l.registry) := by
      rw [List.map_filterMap, List.map_filterMap]
      exact congrArg (ids.filterMap ·) still
    rw [Revalidation.of_trials same] at outcome
    rw [reports_trials same] at diagnostics
    have told := first.trans still later
    cases found : l.sites.following? id with
    | none =>
      rw [notify_idle found, List.filterMap_cons_none found]
      exact ⟨told, outcome, diagnostics⟩
    | some c =>
      rw [notify_following found, List.filterMap_cons_some found, Revalidation.of_cons, outcome,
        diagnostics]
      exact ⟨told, rfl, rfl⟩

/-- What telling these sites does: each of them is validated once, and no other site changes. -/
structure Tells (l : Linkage) (cs : List CallSite) (out : Notified) : Prop where
  functions : l.registry.SameFunctions out.linkage.registry
  outcome : out.outcome = .of l.registry cs
  diagnostics : out.diagnostics = reports l.registry cs
  told : ∀ c ∈ cs, out.linkage.sites.live.get? c.id = some (c.validate .again l.registry).site
  others : ∀ id, id ∉ cs.map (·.id) → out.linkage.sites.live.get? id = l.sites.live.get? id

theorem notify_sites {l : Linkage} (h : l.Coherent) {cs : List CallSite}
    (live : ∀ c ∈ cs, l.sites.live.get? c.id = some c) :
    l.Tells cs (l.notify (cs.map (·.id))) := by
  have filed : l.sites.Filed := fun id c hc => (h.site id c hc).1
  have follows : ∀ c ∈ cs, l.sites.following? c.id = some c := by
    intro c hc
    refine CallSites.following_eq_some_iff.mpr ⟨?_, live c hc⟩
    rw [h.tracked]
    exact Table.contains_of_get? (live c hc)
  have named : (cs.map (·.id)).filterMap l.sites.following? = cs := by
    rw [List.filterMap_map]
    exact (List.filterMap_congr follows).trans List.filterMap_some
  obtain ⟨hears, outcome, diagnostics⟩ := notify_hears filed (cs.map (·.id))
  rw [named] at outcome diagnostics
  refine ⟨hears.functions, outcome, diagnostics, fun c hc => ?_, fun id hid => ?_⟩
  · rw [hears.live, if_pos (List.mem_map_of_mem hc), trial?, follows c hc]
    rfl
  · rw [hears.live, if_neg hid, Option.none_or]

/-- What comes of a redefinition does not depend on the order in which its callers are told: neither
the counts, nor what becomes of any site, of the registry and of those that are tracked, nor, their
order apart, the reports. Every time that a site is named which is there and follows redefinitions
counts once. A site that is named and not there is not tracked any more, and any other that was
tracked still is. A site that is not named, or does not follow, is as it was. -/
theorem dispatch_unordered {l : Linkage} (filed : l.sites.Filed) (name : String)
    {ids ids' : List CallId} (reordered : ids'.Perm ids) :
    let out := l.dispatch ⟨name, ids⟩
    let out' := l.dispatch ⟨name, ids'⟩
    (out'.linkage = out.linkage ∧ out'.outcome = out.outcome ∧
        out'.diagnostics.Perm out.diagnostics) ∧
      out.outcome.rebound + out.outcome.stale =
        ids.countP (fun id => (l.sites.following? id).isSome) ∧
      (∀ id, out.linkage.sites.tracked.contains id ↔ l.sites.tracked.contains id ∧
        ¬(id ∈ ids ∧ l.sites.live.get? id = none)) ∧
      ∀ id, id ∉ ids ∨ l.sites.following? id = none →
        out.linkage.sites.live.get? id = l.sites.live.get? id := by
  intro out out'
  obtain ⟨hears, outcome, diagnostics⟩ := notify_hears filed ids
  obtain ⟨hears', outcome', diagnostics'⟩ := notify_hears filed ids'
  have sites := reordered.filterMap l.sites.following?
  refine ⟨⟨hears'.unique hears fun id => reordered.mem_iff, ?_, ?_⟩, ?_, fun id => ?_, ?_⟩
  · exact outcome'.trans ((Revalidation.of_perm l.registry sites).trans outcome.symm)
  · have permuted : (reports l.registry (ids'.filterMap l.sites.following?)).Perm
        (reports l.registry (ids.filterMap l.sites.following?)) := sites.flatMap_right _
    rwa [← diagnostics, ← diagnostics'] at permuted
  · have total := Revalidation.total_of l.registry (ids.filterMap l.sites.following?)
    rwa [← outcome, List.length_filterMap_eq_countP] at total
  · refine (hears.tracked id).trans (and_congr_right fun _ => ?_)
    rw [not_and, Table.contains, Option.isSome_iff_ne_none]
  · intro id untold
    have silent : (if id ∈ ids then (l.trial? id).map (·.site) else none) = none := by
      rcases untold with other | idle
      · exact if_neg other
      · simp [trial?, idle]
    exact (hears.live id).trans (by rw [silent, Option.none_or])

/-- A call that its function takes, one that it does not take, one that has been let go of, and one
that follows no redefinition. -/
def audience : Linkage where
  registry := (Registry.empty.declare ⟨"f", [⟨"x", .str, .single, none⟩], none⟩).2
  sites :=
    let call (id : CallId) (arguments : List Expr) : CallSite :=
      .fresh id "f" none none arguments .value
    let sites := CallSites.empty.keep (call 1 [.constants [.bool true] .unknown])
    let sites := (sites.keep (call 2 [])).keep (call 4 [.var "x" .any .unknown])
    ((sites.track 1).track 2).track 3

/-- All of them are named, the first one twice, in two orders. -/
theorem dispatch_unordered_audience :
    let out := audience.dispatch ⟨"f", [3, 1, 2, 1, 4]⟩
    let out' := audience.dispatch ⟨"f", [1, 1, 2, 3, 4]⟩
    audience.sites.Filed ∧ [1, 1, 2, 3, 4].Perm [3, 1, 2, 1, 4] ∧ out'.linkage = out.linkage ∧
      out'.outcome = ⟨2, 1⟩ ∧ out'.linkage.sites.tracked.keys = [1, 2] := by
  intro out out'
  have filed : audience.sites.Filed := ((CallSites.Filed.empty.keep _).keep _).keep _
  have reordered : [1, 1, 2, 3, 4].Perm [3, 1, 2, 1, 4] := by decide
  obtain ⟨⟨linkage, outcome, -⟩, -⟩ := dispatch_unordered filed "f" reordered
  exact ⟨filed, reordered, linkage, outcome.trans (by decide), linkage ▸ by decide⟩

end Linkage

end LiveCalls
