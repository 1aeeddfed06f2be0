import LiveCalls.Proofs.Validation
import LiveCalls.ScriptSet.Fire
import LiveCalls.ScriptSet.Load
import LiveCalls.ScriptSet.Reload

/-!
# Subscriptions

The sites that are held, those that follow redefinitions and the subscribers of the functions are
kept in three places. They agree, whatever is done to a linkage: sites are bound and kept, validated
again, given their callables, and forgotten.
-/

namespace LiveCalls

namespace Table

variable {κ α : Type} [Ord κ]

theorem contains_of_get? {t : Table κ α} {k : κ} {v : α} (h : t.get? k = some v) :
    t.contains k := by
  rw [contains, h]
  rfl

variable [Std.LawfulEqOrd κ] [DecidableEq κ]

theorem get?_erase_ite (t : Table κ α) (k k' : κ) :
    (t.erase k).get? k' = if k' = k then none else t.get? k' := by
  by_cases h : k' = k
  · rw [h, get?_erase_self, if_pos rfl]
  · rw [get?_erase_of_ne t (Ne.symm h), if_neg h]

theorem get?_insert_ite [Std.TransOrd κ] (t : Table κ α) (k k' : κ) (v : α) :
    (t.insert k v).get? k' = if k' = k then some v else t.get? k' := by
  by_cases h : k' = k
  · rw [h, get?_insert_self, if_pos rfl]
  · rw [get?_insert_of_ne t v h, if_neg h]

end Table

namespace CallSite

theorem frame_resolve (r : Registry) (c : CallSite) :
    (c.resolve r).id = c.id ∧ (c.resolve r).function = c.function ∧
      (c.resolve r).isBound = c.isBound := by
  obtain ⟨id, function, arguments, binding, single, expected, site, uptake⟩ := c
  cases binding with
  | bound s f => cases f <;> exact ⟨rfl, rfl, rfl⟩
  | unbound late => cases late <;> exact ⟨rfl, rfl, rfl⟩

/-- An execution changes a site only in that its callable is looked up. -/
theorem site_execute (ctx : Context) (r : Registry) (c : CallSite) (w : World) :
    (c.execute ctx r w).site = c.resolve r := by
  cases hf : (c.resolve r).callable? with
  | none => simp only [execute, hf]
  | some f => simp only [execute, hf]

end CallSite

/-- A site runs what it holds, or what is defined under the name of its function. -/
theorem CallSite.callable_resolve (r : Registry) (c : CallSite) :
    (c.resolve r).callable? = c.callable?.or (r.callables.get? c.function) := by
  obtain ⟨id, function, arguments, binding, single, expected, site, uptake⟩ := c
  cases binding with
  | bound s held => cases held <;> rfl
  | unbound late => cases late <;> rfl

theorem CallSites.live_of_following {s : CallSites} {id : CallId} {c : CallSite}
    (h : s.following? id = some c) : s.live.get? id = some c := by
  unfold following? at h
  split at h
  · exact h
  · cases h

theorem CallSites.live_keep (s : CallSites) (c : CallSite) (id : CallId) :
    (s.keep c).live.get? id = if id = c.id then some c else s.live.get? id :=
  s.live.get?_insert_ite c.id id c

theorem ScriptSet.live_link (l : Linkage) (id : CallId) :
    (link l).sites.live.get? id = (l.sites.live.get? id).map (·.resolve l.registry) :=
  Table.get?_mapValues ..

namespace Linkage

/-- Every site that is held is bound and has its own identity, which was allotted; the sites held
are those that follow redefinitions; and the subscribers of a function are the sites held that call
it. -/
structure Coherent (l : Linkage) : Prop where
  site : ∀ id c, l.sites.live.get? id = some c → c.id = id ∧ c.isBound ∧ id < l.sites.next
  tracked : ∀ id, l.sites.tracked.contains id = l.sites.live.contains id
  callers : ∀ id name, id ∈ l.registry.callers name ↔
    ∃ c, l.sites.live.get? id = some c ∧ c.function = name

def revalidated (l : Linkage) (c : CallSite) : Linkage :=
  ⟨(c.validate .again l.registry).registry, l.sites.keep (c.validate .again l.registry).site⟩

namespace Coherent

variable {l : Linkage}

/-- There is no site under an identity that was not allotted. -/
theorem unused (h : l.Coherent) {id : CallId} (new : l.sites.next ≤ id) :
    l.sites.live.get? id = none := by
  cases hl : l.sites.live.get? id with
  | none => rfl
  | some c =>
    obtain ⟨-, -, allotted⟩ := h.site id c hl
    exact absurd allotted (Nat.not_lt.mpr new)

/-- Where only functions change, the agreement stays. -/
theorem withRegistry (h : l.Coherent) {r : Registry}
    (hr : ∀ id name, id ∈ r.callers name ↔ id ∈ l.registry.callers name) :
    Coherent ⟨r, l.sites⟩ :=
  ⟨h.site, h.tracked, fun id name => (hr id name).trans (h.callers id name)⟩

theorem forget (h : l.Coherent) (id : CallId) : (l.forget id).Coherent := by
  have live (i : CallId) :
      (l.forget id).sites.live.get? i = if i = id then none else l.sites.live.get? i :=
    l.sites.live.get?_erase_ite id i
  constructor
  · intro i c hc
    rw [live] at hc
    split at hc
    · cases hc
    · exact h.site i c hc
  · intro i
    have tracked : (l.forget id).sites.tracked.get? i =
        if i = id then none else l.sites.tracked.get? i := l.sites.tracked.get?_erase_ite id i
    rw [Table.contains, Table.contains, tracked, live]
    split
    · rfl
    · exact h.tracked i
  · intro i name
    refine Registry.mem_callers_forget.trans ?_
    rw [h.callers, live]
    split
    · rename_i same
      exact iff_of_false (fun hi => hi.1 same) fun ⟨c, hc, _⟩ => by cases hc
    · rename_i other
      exact and_iff_right other

theorem forgetAll (h : l.Coherent) (ids : List CallId) : (l.forgetAll ids).Coherent := by
  unfold Linkage.forgetAll
  induction ids generalizing l with
  | nil => exact h
  | cons id ids ih => exact ih (h.forget id)

/-- A site may change in its arguments and its binding, as long as it stays bound. -/
theorem keep (h : l.Coherent) {c c' : CallSite} (hc : l.sites.live.get? c.id = some c)
    (hid : c'.id = c.id) (hf : c'.function = c.function) (hb : c'.isBound) :
    Coherent ⟨l.registry, l.sites.keep c'⟩ := by
  have live (i : CallId) : (l.sites.keep c').live.get? i =
      if i = c.id then some c' else l.sites.live.get? i := by
    rw [← hid]
    exact l.sites.live_keep c' i
  obtain ⟨-, -, allotted⟩ := h.site c.id c hc
  constructor
  · intro i d hd
    rw [live] at hd
    split at hd
    · rename_i same
      cases hd
      exact ⟨hid.trans same.symm, hb, same ▸ allotted⟩
    · exact h.site i d hd
  · intro i
    change l.sites.tracked.contains i = (l.sites.keep c').live.contains i
    rw [h.tracked, Table.contains, Table.contains, live]
    split
    · rename_i same
      rw [same, hc]
      rfl
    · rfl
  · intro i name
    refine (h.callers i name).trans ?_
    rw [live]
    split
    · rename_i same
      subst same
      rw [hc]
      simp [hf]
    · rfl

theorem revalidate (h : l.Coherent) {c : CallSite} (hc : l.sites.live.get? c.id = some c) :
    (l.revalidated c).Coherent := by
  obtain ⟨hid, hf, -⟩ := CallSite.frame_validate .again l.registry c
  obtain ⟨-, bound, -⟩ := h.site c.id c hc
  apply (h.keep hc hid hf (CallSite.isBound_validate bound)).withRegistry
  intro id name
  refine CallSite.mem_callers_validate.trans (or_iff_right_of_imp ?_)
  rintro ⟨-, rfl, rfl⟩
  exact (h.callers c.id c.function).mpr ⟨c, hc, rfl⟩

/-- A site that does not follow is not there either. -/
theorem untrack (h : l.Coherent) {id : CallId} (hn : l.sites.following? id = none) :
    Coherent { l with sites := l.sites.untrack id } := by
  have gone : l.sites.live.contains id = false := by
    unfold CallSites.following? at hn
    rw [h.tracked] at hn
    cases hl : l.sites.live.get? id with
    | none => simp [Table.contains, hl]
    | some c => simp [Table.contains, hl] at hn
  refine ⟨h.site, ?_, h.callers⟩
  intro i
  change (l.sites.tracked.erase id).contains i = l.sites.live.contains i
  rw [Table.contains, Table.get?_erase_ite]
  split
  · rename_i same
    subst same
    exact gone.symm
  · exact h.tracked i

theorem notify (h : l.Coherent) (ids : List CallId) : (l.notify ids).linkage.Coherent := by
  induction ids generalizing l with
  | nil => exact h
  | cons id ids ih =>
    unfold Linkage.notify
    split
    · rename_i gone
      exact ih (h.untrack gone)
    · rename_i c found
      have hc := CallSites.live_of_following found
      obtain ⟨rfl, -⟩ := h.site id c hc
      exact ih (h.revalidate hc)

theorem passOn (h : l.Coherent) (news : List (List CallId)) :
    (ScriptSet.passOn l news).linkage.Coherent := by
  induction news generalizing l with
  | nil => exact h
  | cons ids rest ih => exact ih (h.notify ids)

theorem execute (h : l.Coherent) {c : CallSite} (hc : l.sites.live.get? c.id = some c)
    (ctx : Context) (w : World) :
    Coherent { l with sites := l.sites.keep (c.execute ctx l.registry w).site } := by
  rw [CallSite.site_execute]
  obtain ⟨hid, hf, hb⟩ := CallSite.frame_resolve l.registry c
  obtain ⟨-, bound, -⟩ := h.site c.id c hc
  exact h.keep hc hid hf (hb.trans bound)

theorem makeCalls (h : l.Coherent) (ctx : Context) (w : World) (calls : List (String × CallId)) :
    (ScriptSet.makeCalls ctx l w calls).2.1.Coherent := by
  induction calls generalizing l w with
  | nil => exact h
  | cons call rest ih =>
    obtain ⟨script, id⟩ := call
    unfold ScriptSet.makeCalls
    split
    · exact ih h w
    · rename_i c hc
      obtain ⟨rfl, -⟩ := h.site id c hc
      exact ih (h.execute hc ctx w) _

theorem link (h : l.Coherent) : (ScriptSet.link l).Coherent := by
  constructor
  · intro id c hc
    rw [ScriptSet.live_link] at hc
    obtain ⟨d, hd, rfl⟩ := Option.map_eq_some_iff.mp hc
    obtain ⟨hid, -, hb⟩ := CallSite.frame_resolve l.registry d
    obtain ⟨own, bound, allotted⟩ := h.site id d hd
    exact ⟨hid.trans own, hb.trans bound, allotted⟩
  · intro id
    refine (h.tracked id).trans ?_
    rw [Table.contains, Table.contains, ScriptSet.live_link, Option.isSome_map]
  · intro id name
    refine (h.callers id name).trans ?_
    rw [ScriptSet.live_link]
    constructor
    · rintro ⟨c, hc, hf⟩
      obtain ⟨-, function, -⟩ := CallSite.frame_resolve l.registry c
      exact ⟨_, by rw [hc]; rfl, function.trans hf⟩
    · rintro ⟨d, hd, hf⟩
      obtain ⟨c, hc, rfl⟩ := Option.map_eq_some_iff.mp hd
      obtain ⟨-, function, -⟩ := CallSite.frame_resolve l.registry c
      exact ⟨c, hc, function.symm.trans hf⟩

end Coherent

end Linkage

end LiveCalls
