import LiveCalls.Proofs.Subscriptions

namespace LiveCalls

namespace Linkage

/-- What binding new calls does: the sites that there were stay as they are, and the new ones are
held under identities of their own. -/
structure Binds (l l' : Linkage) (ids : List CallId) : Prop where
  coherent : l'.Coherent
  functions : l.registry.SameFunctions l'.registry
  next : l.sites.next ≤ l'.sites.next
  nodup : ids.Nodup
  range : ∀ id ∈ ids, l.sites.next ≤ id ∧ id < l'.sites.next
  old : ∀ id, id < l.sites.next → l'.sites.live.get? id = l.sites.live.get? id
  new : ∀ id, l.sites.next ≤ id → (l'.sites.live.contains id ↔ id ∈ ids)
  callable : ∀ id c f, l.sites.next ≤ id → l'.sites.live.get? id = some c →
    c.callable? = some f → l.registry.callables.get? c.function = some f

namespace Binds

theorem refl {l : Linkage} (h : l.Coherent) : l.Binds l [] := by
  constructor
  · exact h
  · exact .refl _
  · exact Nat.le_refl _
  · exact .nil
  · intro id hid
    exact (List.not_mem_nil hid).elim
  · intro id _
    rfl
  · intro id new
    rw [Table.contains, h.unused new]
    exact iff_of_false Bool.false_ne_true List.not_mem_nil
  · intro id c f new hc
    rw [h.unused new] at hc
    cases hc

theorem trans {l l' l'' : Linkage} {ids ids' : List CallId} (a : l.Binds l' ids)
    (b : l'.Binds l'' ids') : l.Binds l'' (ids ++ ids') := by
  constructor
  · exact b.coherent
  · exact a.functions.trans b.functions
  · exact Nat.le_trans a.next b.next
  · apply List.nodup_append.mpr ⟨a.nodup, b.nodup, ?_⟩
    intro i hi j hj
    have before : i < j := Nat.lt_of_lt_of_le (a.range i hi).2 (b.range j hj).1
    exact Nat.ne_of_lt before
  · intro id hid
    rcases List.mem_append.mp hid with hid | hid
    · obtain ⟨low, high⟩ := a.range id hid
      exact ⟨low, Nat.lt_of_lt_of_le high b.next⟩
    · obtain ⟨low, high⟩ := b.range id hid
      exact ⟨Nat.le_trans a.next low, high⟩
  · intro id hid
    have still : id < l'.sites.next := Nat.lt_of_lt_of_le hid a.next
    rw [b.old id still]
    exact a.old id hid
  · intro id hid
    rw [List.mem_append]
    by_cases early : id < l'.sites.next
    · have notLater : id ∉ ids' := by
        intro later
        obtain ⟨low, -⟩ := b.range id later
        exact Nat.not_lt.mpr low early
      rw [Table.contains, b.old id early]
      exact (a.new id hid).trans (or_iff_left notLater).symm
    · have late : l'.sites.next ≤ id := Nat.le_of_not_lt early
      have notEarlier : id ∉ ids := by
        intro earlier
        obtain ⟨-, high⟩ := a.range id earlier
        exact early high
      exact (b.new id late).trans (or_iff_right notEarlier).symm
  · intro id c f hid hc hf
    by_cases early : id < l'.sites.next
    · rw [b.old id early] at hc
      exact a.callable id c f hid hc hf
    · have late : l'.sites.next ≤ id := Nat.le_of_not_lt early
      rw [← a.functions.callables]
      exact b.callable id c f late hc hf

end Binds

def written (l : Linkage) (call : WrittenCall) : CallSite :=
  .fresh l.sites.next call.function (some call.site) call.expected call.arguments .value

/-- The linkage with one call bound, whatever comes of its validation. -/
def bindOne (l : Linkage) (call : WrittenCall) : Linkage :=
  let v := (l.written call).validate .first l.registry
  let sites := { l.sites with next := l.sites.next + 1 }
  ⟨v.registry, if v.accepted then (sites.keep v.site).track l.sites.next else sites⟩

section
variable {l : Linkage} {call : WrittenCall}

theorem sites_bindOne (ha : ((l.written call).validate .first l.registry).accepted) :
    (l.bindOne call).sites = (({ l.sites with next := l.sites.next + 1 }).keep
      ((l.written call).validate .first l.registry).site).track l.sites.next := by
  simp only [bindOne, if_pos ha]

theorem live_bindOne (ha : ((l.written call).validate .first l.registry).accepted) (id : CallId) :
    (l.bindOne call).sites.live.get? id =
      if id = l.sites.next then some ((l.written call).validate .first l.registry).site
      else l.sites.live.get? id := by
  obtain ⟨own, -⟩ := CallSite.frame_validate .first l.registry (l.written call)
  have own : ((l.written call).validate .first l.registry).site.id = l.sites.next := own
  rw [sites_bindOne ha, ← own]
  exact CallSites.live_keep _ _ id

theorem tracked_bindOne (ha : ((l.written call).validate .first l.registry).accepted)
    (id : CallId) : (l.bindOne call).sites.tracked.get? id =
      if id = l.sites.next then some () else l.sites.tracked.get? id := by
  rw [sites_bindOne ha]
  exact l.sites.tracked.get?_insert_ite l.sites.next id ()

/-- A call that fits is held under a new identity, follows and is a caller of its function. -/
theorem coherent_bindOne (h : l.Coherent)
    (ha : ((l.written call).validate .first l.registry).accepted) : (l.bindOne call).Coherent := by
  obtain ⟨own, function, -⟩ := CallSite.frame_validate .first l.registry (l.written call)
  have bound := CallSite.isBound_of_accepted ha
  have next : (l.bindOne call).sites.next = l.sites.next + 1 := by
    rw [sites_bindOne ha]
    rfl
  constructor
  · intro id c hc
    rw [live_bindOne ha] at hc
    rw [next]
    split at hc
    · rename_i same
      cases hc
      have own : ((l.written call).validate .first l.registry).site.id = l.sites.next := own
      have allotted : id < l.sites.next + 1 := same ▸ Nat.lt_succ_self _
      exact ⟨own.trans same.symm, bound, allotted⟩
    · obtain ⟨own, isBound, allotted⟩ := h.site id c hc
      exact ⟨own, isBound, Nat.lt_succ_of_lt allotted⟩
  · intro id
    rw [Table.contains, Table.contains, live_bindOne ha, tracked_bindOne ha]
    split
    · rfl
    · exact h.tracked id
  · intro id name
    have callers : id ∈ (l.bindOne call).registry.callers name ↔ _ :=
      CallSite.mem_callers_validate
    rw [callers, h.callers, live_bindOne ha]
    split
    · rename_i same
      subst same
      rw [h.unused (Nat.le_refl _)]
      constructor
      · rintro (⟨-, -, rfl⟩ | ⟨c, hc, -⟩)
        · exact ⟨_, rfl, function⟩
        · cases hc
      · rintro ⟨c, hc, rfl⟩
        cases hc
        exact .inl ⟨ha, rfl, function⟩
    · rename_i other
      exact or_iff_right fun new => other new.2.1

theorem bindOne_accepted (h : l.Coherent)
    (ha : ((l.written call).validate .first l.registry).accepted) :
    l.Binds (l.bindOne call) [l.sites.next] := by
  obtain ⟨-, function, -⟩ := CallSite.frame_validate .first l.registry (l.written call)
  have next : (l.bindOne call).sites.next = l.sites.next + 1 := by
    rw [sites_bindOne ha]
    rfl
  constructor
  · exact coherent_bindOne h ha
  · exact CallSite.functions_validate .first l.registry (l.written call)
  · rw [next]
    exact Nat.le_succ _
  · exact List.pairwise_singleton _ _
  · intro id hid
    rw [List.mem_singleton] at hid
    rw [hid, next]
    exact ⟨Nat.le_refl _, Nat.lt_succ_self _⟩
  · intro id old
    have other : id ≠ l.sites.next := Nat.ne_of_lt old
    rw [live_bindOne ha, if_neg other]
  · intro id new
    rw [Table.contains, live_bindOne ha, List.mem_singleton]
    split
    · rename_i same
      exact iff_of_true rfl same
    · rename_i other
      rw [h.unused new]
      exact iff_of_false Bool.false_ne_true other
  · intro id c f new hc callable
    rw [live_bindOne ha] at hc
    split at hc
    · cases hc
      rw [function]
      rcases CallSite.callable_validate callable with held | found
      · cases held
      · exact found
    · rw [h.unused new] at hc
      cases hc

theorem bindOne_rejected (h : l.Coherent)
    (ha : ((l.written call).validate .first l.registry).accepted = false) :
    l.Binds (l.bindOne call) [] := by
  have eq : l.bindOne call = ⟨((l.written call).validate .first l.registry).registry,
      { l.sites with next := l.sites.next + 1 }⟩ := by
    simp [bindOne, ha]
  have same := Binds.refl h
  rw [eq]
  constructor
  · constructor
    · intro id c hc
      obtain ⟨own, isBound, allotted⟩ := h.site id c hc
      exact ⟨own, isBound, Nat.lt_succ_of_lt allotted⟩
    · exact h.tracked
    · intro id name
      refine CallSite.mem_callers_validate.trans ((or_iff_right ?_).trans (h.callers id name))
      intro new
      rw [ha] at new
      cases new.1
  · exact CallSite.functions_validate .first l.registry (l.written call)
  · exact Nat.le_succ _
  · exact .nil
  · intro id hid
    exact (List.not_mem_nil hid).elim
  · exact same.old
  · exact same.new
  · exact same.callable

end

theorem bindOne_binds {l : Linkage} (h : l.Coherent) (call : WrittenCall) :
    l.Binds (l.bindOne call)
      (if ((l.written call).validate .first l.registry).accepted then [l.sites.next] else []) := by
  split
  · rename_i accepted
    exact bindOne_accepted h accepted
  · rename_i rejected
    exact bindOne_rejected h (Bool.eq_false_iff.mpr rejected)

theorem bindCalls_cons (l : Linkage) (call : WrittenCall) (calls : List WrittenCall) :
    l.bindCalls (call :: calls) =
      ⟨(if ((l.written call).validate .first l.registry).accepted then [l.sites.next] else []) ++
          ((l.bindOne call).bindCalls calls).kept,
        ((l.bindOne call).bindCalls calls).linkage,
        ((l.written call).validate .first l.registry).diagnostics ++
          ((l.bindOne call).bindCalls calls).diagnostics⟩ := by
  have kept : (l.bindCalls (call :: calls)).kept =
      (if ((l.written call).validate .first l.registry).accepted then [l.sites.next] else []) ++
        ((l.bindOne call).bindCalls calls).kept := by
    change (if ((l.written call).validate .first l.registry).accepted
      then l.sites.next :: ((l.bindOne call).bindCalls calls).kept
      else ((l.bindOne call).bindCalls calls).kept) = _
    split <;> rfl
  rw [← kept]
  rfl

theorem bindCalls_binds {l : Linkage} (h : l.Coherent) (calls : List WrittenCall) :
    l.Binds (l.bindCalls calls).linkage (l.bindCalls calls).kept := by
  induction calls generalizing l with
  | nil => exact .refl h
  | cons call calls ih =>
    have one := bindOne_binds h call
    rw [bindCalls_cons]
    exact one.trans (ih one.coherent)

theorem bindTriggers_binds {l : Linkage} (h : l.Coherent) (triggers : List Trigger) :
    l.Binds (l.bindTriggers triggers).linkage
      ((l.bindTriggers triggers).kept.flatMap (·.calls)) := by
  induction triggers generalizing l with
  | nil => exact .refl h
  | cons t ts ih =>
    have first := bindCalls_binds h t.calls
    exact first.trans (ih first.coherent)

end Linkage

end LiveCalls
