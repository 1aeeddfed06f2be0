import LiveCalls.Proofs.Outcome
import LiveCalls.Proofs.Subscriptions

namespace LiveCalls

namespace CallSite

/-- What can be done to a call site. -/
inductive Use where
  /-- It is validated, against whatever the registry has become. -/
  | validated (phase : Phase) (r : Registry)
  /-- It is executed. -/
  | executed (ctx : Context) (r : Registry) (w : World)

def used (c : CallSite) : Use → CallSite
  | .validated phase r => (c.validate phase r).site
  | .executed ctx r w => (c.execute ctx r w).site

/-- A site that counts on a single value expects a value, and is bound to a signature that returns
one. -/
def Justified (c : CallSite) : Prop :=
  c.single → ∃ expected s returned, c.expected = some expected ∧ c.signature? = some s ∧
    s.resultType? = some returned ∧ s.returnsSingle

theorem single_of_unexpected {phase : Phase} {r : Registry} {c : CallSite} {a : Adopted}
    (judged : c.judge phase r = .ok a) (expects : c.expected = none) : a.single = c.single := by
  obtain ⟨-, result, -⟩ := judge_eq_ok_iff.mp judged
  exact Except.ok.inj (result.symm.trans (judgeResult_of_unexpected expects))

theorem Justified.validate {c : CallSite} (h : c.Justified) (phase : Phase) (r : Registry) :
    (c.validate phase r).site.Justified := by
  rcases validate_cases phase r c with ⟨a, judged, verdict⟩ | ⟨rejection, -, verdict⟩
  · rw [verdict]
    intro single
    cases hx : c.expected with
    | none =>
      rw [show (c.adopt a).single = c.single from single_of_unexpected judged hx] at single
      obtain ⟨expected, -, -, expects, -⟩ := h single
      rw [hx] at expects
      cases expects
    | some expected =>
      obtain ⟨-, result, -⟩ := judge_eq_ok_iff.mp judged
      obtain ⟨⟨returned, type, -⟩, -⟩ := (judgeResult_eq_ok_iff hx).mp result
      exact ⟨expected, a.signature, returned, hx, rfl, type, single_of_judged hx result single⟩
  · rwa [verdict]

theorem Justified.execute {c : CallSite} (h : c.Justified) (ctx : Context) (r : Registry)
    (w : World) : (c.execute ctx r w).site.Justified := by
  obtain ⟨same, signature⟩ := resolve_eq r c
  have single : (c.resolve r).single = c.single := by rw [same]
  have expected : (c.resolve r).expected = c.expected := by rw [same]
  rw [site_execute]
  unfold Justified
  rwa [single, expected, signature]

/-- Nothing that is done to a site takes away what it counts on. -/
theorem Justified.used {c : CallSite} (h : c.Justified) : (u : Use) → (c.used u).Justified
  | .validated phase r => h.validate phase r
  | .executed ctx r w => h.execute ctx r w

theorem expected_used (c : CallSite) : (u : Use) → (c.used u).expected = c.expected
  | .validated phase r => (frame_validate phase r c).2.2
  | .executed ctx r w => by
    rw [used, site_execute, (resolve_eq r c).1]

theorem Justified.run {c : CallSite} (h : c.Justified) (uses : List Use) :
    (uses.foldl CallSite.used c).Justified := by
  induction uses generalizing c with
  | nil => exact h
  | cons u us ih => exact ih (h.used u)

theorem expected_run (c : CallSite) (uses : List Use) :
    (uses.foldl used c).expected = c.expected := by
  induction uses generalizing c with
  | nil => rfl
  | cons u us ih => exact (ih (c.used u)).trans (c.expected_used u)

theorem single_again (r : Registry) (c : CallSite) :
    (c.validate .again r).site.single = c.single := by
  rcases validate_cases .again r c with ⟨a, judged, verdict⟩ | ⟨rejection, -, verdict⟩
  · rw [verdict]
    cases hx : c.expected with
    | none => exact single_of_unexpected judged hx
    | some expected =>
      obtain ⟨-, result, -⟩ := judge_eq_ok_iff.mp judged
      obtain ⟨-, -, kept⟩ := (judgeResult_eq_ok_iff hx).mp result
      exact kept.symm
  · rw [verdict]

/-- A first validation settles that a site counts on what the signature returns. -/
theorem single_first {r : Registry} {c : CallSite} {s : Signature Ref} {expected : List VarType}
    (expects : c.expected = some expected) (declared : r.signatures.get? c.function = some s)
    (accepted : (c.validate .first r).accepted) :
    (c.validate .first r).site.single = s.returnsSingle := by
  obtain ⟨a, judged⟩ := accepted_iff.mp accepted
  obtain ⟨signature, result, -⟩ := judge_eq_ok_iff.mp judged
  obtain rfl := Option.some.inj (declared.symm.trans signature)
  obtain ⟨-, settled⟩ := (judgeResult_eq_ok_iff expects).mp result
  rw [validate_of_judged judged]
  exact settled.symm

/-- After any validations, in any phases and against whatever the registry has become, and any
executions: a site that counts on a single value expects a value and is bound to a signature that
returns one. Only a first validation that accepts the site settles whether it does; a later one
never changes it, whatever comes of it. A site that expects nothing never counts on a single
value. -/
theorem single_never_narrowed (id : CallId) (function : String) (site : Option Site)
    (expected : Option (List VarType)) (arguments : List Expr) (uptake : Uptake)
    (uses : List Use) :
    let c := uses.foldl used (.fresh id function site expected arguments uptake)
    (c.single → ∃ types s returned, c.expected = some types ∧ c.signature? = some s ∧
        s.resultType? = some returned ∧ s.returnsSingle) ∧
      (∀ r, (c.validate .again r).site.single = c.single) ∧
      (expected = none → c.single = false) ∧
      ∀ r s types, c.expected = some types → r.signatures.get? c.function = some s →
        (c.validate .first r).accepted → (c.validate .first r).site.single = s.returnsSingle := by
  intro c
  have justified : c.Justified := Justified.run (fun single => by cases single) uses
  refine ⟨justified, (single_again · c), ?_, fun r s types => single_first⟩
  rintro rfl
  have expects : c.expected = none := expected_run _ uses
  rw [← Bool.not_eq_true]
  intro single
  obtain ⟨types, -, -, some, -⟩ := justified single
  rw [expects] at some
  cases some

end CallSite

end LiveCalls
