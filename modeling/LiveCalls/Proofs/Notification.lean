import LiveCalls.Proofs.Subscriptions

namespace LiveCalls

namespace Revalidation

theorem add_def (a b : Revalidation) : a + b = ⟨a.rebound + b.rebound, a.stale + b.stale⟩ := rfl

theorem none_add (a : Revalidation) : none + a = a := by
  simp [add_def, none]

theorem add_assoc (a b c : Revalidation) : a + b + c = a + (b + c) := by
  simp [add_def, Nat.add_assoc]

/-- The count of the validations of sites. -/
def of (r : Registry) (cs : List CallSite) : Revalidation :=
  ⟨cs.countP fun c => (c.validate .again r).accepted,
    cs.countP fun c => !(c.validate .again r).accepted⟩

theorem of_cons (r : Registry) (c : CallSite) (cs : List CallSite) :
    of r (c :: cs) = one (c.validate .again r).accepted + of r cs := by
  unfold of one
  cases h : (c.validate .again r).accepted <;> simp [add_def, h, Nat.add_comm]

theorem total_of (r : Registry) (cs : List CallSite) :
    (of r cs).rebound + (of r cs).stale = cs.length := by
  unfold of
  rw [List.length_eq_countP_add_countP fun c : CallSite => (c.validate .again r).accepted]
  simp

theorem of_congr {r r' : Registry} (same : r.SameFunctions r') (cs : List CallSite) :
    of r' cs = of r cs := by
  have accepted (c : CallSite) := (CallSite.validate_congr same .again c).1
  simp only [of, accepted]

theorem of_perm (r : Registry) {cs ds : List CallSite} (h : cs.Perm ds) : of r cs = of r ds := by
  unfold of
  rw [h.countP_eq, h.countP_eq]

end Revalidation

def reports (r : Registry) (cs : List CallSite) : List Diagnostic :=
  cs.flatMap fun c => (c.validate .again r).diagnostics

theorem reports_congr {r r' : Registry} (same : r.SameFunctions r') (cs : List CallSite) :
    reports r' cs = reports r cs := by
  have diagnostics (c : CallSite) := (CallSite.validate_congr same .again c).2.2
  simp only [reports, diagnostics]

namespace Linkage

theorem live_revalidated (l : Linkage) (c : CallSite) (id : CallId) :
    (l.revalidated c).sites.live.get? id =
      if id = c.id then some (c.validate .again l.registry).site else l.sites.live.get? id := by
  obtain ⟨own, -⟩ := CallSite.frame_validate .again l.registry c
  rw [← own]
  exact l.sites.live_keep _ id

/-- News changes no function, whoever is told. -/
theorem functions_notify (l : Linkage) (ids : List CallId) :
    l.registry.SameFunctions (l.notify ids).linkage.registry := by
  induction ids generalizing l with
  | nil => exact .refl _
  | cons id ids ih =>
    unfold notify
    split
    · exact ih { l with sites := l.sites.untrack id }
    · rename_i c _
      exact (CallSite.functions_validate .again l.registry c).trans
        (ih ⟨(c.validate .again l.registry).registry,
          l.sites.keep (c.validate .again l.registry).site⟩)

theorem notify_append (l : Linkage) (ids ids' : List CallId) :
    l.notify (ids ++ ids') =
      ⟨((l.notify ids).linkage.notify ids').linkage,
        (l.notify ids).outcome + ((l.notify ids).linkage.notify ids').outcome,
        (l.notify ids).diagnostics ++ ((l.notify ids).linkage.notify ids').diagnostics⟩ := by
  induction ids generalizing l with
  | nil => simp only [List.nil_append, notify, Revalidation.none_add]
  | cons id ids ih =>
    simp only [List.cons_append, notify]
    split
    · exact ih _
    · simp only [ih, Revalidation.add_assoc, List.append_assoc]

end Linkage

/-- News about several functions is told as if it were one. -/
theorem ScriptSet.passOn_eq (l : Linkage) (news : List (List CallId)) :
    passOn l news = l.notify news.flatten := by
  induction news generalizing l with
  | nil => rfl
  | cons ids rest ih =>
    rw [List.flatten_cons, Linkage.notify_append, ← ih]
    rfl

end LiveCalls
