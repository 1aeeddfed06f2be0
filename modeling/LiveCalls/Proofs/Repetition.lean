import LiveCalls.Proofs.Slots

/-!
# Validating twice

A validation that accepts a site leaves it as the next one would have it: its arguments convert to
themselves, and what it counts on is what it gets. So the next one accepts it as it is, even if it
comes of a redefinition that changed nothing. A rejected site is rejected again for the same reason.
-/

namespace LiveCalls

theorem Registry.subscribe_subscribe (r : Registry) (name : String) (caller : CallId) :
    (r.subscribe name caller).subscribe name caller = r.subscribe name caller := by
  have twice (t : Table Subscription Unit) (k : Subscription) :
      (t.insert k ()).insert k () = t.insert k () := by
    apply Table.ext
    intro k'
    rw [Table.get?_insert_ite, Table.get?_insert_ite]
    split <;> rfl
  exact congrArg (Registry.mk r.signatures r.callables) (twice ..)

namespace CallSite

/-- What comes back is judged as before once it is settled whether it is single. -/
theorem judgeResult_adopt {phase next : Phase} (follows : next = phase ∨ next = .again)
    {c : CallSite} {a : Adopted} (judged : judgeResult phase a.signature c = .ok a.single) :
    judgeResult next a.signature (c.adopt a) = .ok a.single := by
  cases hx : c.expected with
  | none => exact judgeResult_of_unexpected hx
  | some expected =>
    obtain ⟨fits, counts⟩ := (judgeResult_eq_ok_iff hx).mp judged
    refine (judgeResult_eq_ok_iff (c := c.adopt a) hx).mpr ⟨fits, ?_⟩
    cases next with
    | first =>
      obtain rfl := follows.resolve_right nofun
      exact counts
    | again => exact ⟨single_of_judged hx judged, rfl⟩

theorem convertPairs_converted {i : Nat} {es bs : List Expr} {ts : List VarType}
    (h : convertPairs i (es.zip ts) = .ok bs) : convertPairs i (bs.zip ts) = .ok bs := by
  induction es generalizing i bs ts with
  | nil =>
    cases h
    rfl
  | cons e es ih =>
    cases ts with
    | nil =>
      cases h
      rfl
    | cons t ts =>
      rw [List.zip_cons_cons, convertPairs] at h
      cases he : e.convert t with
      | error reason =>
        rw [he] at h
        cases h
      | ok b =>
        rw [he, map_eq_ok_iff] at h
        obtain ⟨ds, converted, rfl⟩ := h
        rw [List.zip_cons_cons, convertPairs, Expr.convert_convert e he, ih converted]
        rfl

/-- An accepted site is judged as it was before, also as for a redefinition. -/
theorem judge_adopt {phase next : Phase} (follows : next = phase ∨ next = .again)
    {r r' : Registry} (same : r.SameFunctions r') {c : CallSite} {a : Adopted}
    (judged : c.judge phase r = .ok a) : (c.adopt a).judge next r' = .ok a := by
  obtain ⟨declared, result, count, fit, callable⟩ := judge_eq_ok_iff.mp judged
  have length : (c.adopt a).arguments.length = c.arguments.length := length_fitted count fit
  rw [judge_congr same]
  refine judge_eq_ok_iff.mpr ⟨declared, judgeResult_adopt follows result, ?_, ?_, callable⟩
  · rwa [length]
  · rw [fitted, length]
    exact convertPairs_converted fit

/-- An accepted site is accepted again, with nothing left to change. -/
theorem validate_accepted {phase next : Phase} (follows : next = phase ∨ next = .again)
    {r : Registry} {c : CallSite} (accepted : (c.validate phase r).accepted) :
    (c.validate phase r).site.validate next (c.validate phase r).registry =
      c.validate phase r := by
  obtain ⟨a, judged⟩ := accepted_iff.mp accepted
  rw [validate_of_judged judged,
    validate_of_judged (judge_adopt follows (.subscribe r c.function c.id) judged)]
  exact congrArg (Verdict.mk true (c.adopt a) · []) (r.subscribe_subscribe c.function c.id)

/-- A validation that is repeated gives the same verdict, with the same site, the same registry and
the same reports, and so does one as for a redefinition after a first one that accepted the site. In
particular an argument that was converted is its own conversion. -/
theorem validate_idempotent (phase : Phase) (r : Registry) (c : CallSite) :
    let v := c.validate phase r
    v.site.validate phase v.registry = v ∧
      (phase = .first → v.accepted → v.site.validate .again v.registry = v) ∧
      ∀ (e b : Expr) (t : VarType), e.convert t = .ok b → b.convert t = .ok b := by
  intro v
  refine ⟨?_, fun _ accepted => validate_accepted (.inr rfl) accepted,
    fun e _ _ => Expr.convert_convert e⟩
  rcases validate_cases phase r c with ⟨a, judged, -⟩ | ⟨rejection, -, verdict⟩
  · exact validate_accepted (.inl rfl) (accepted_iff.mpr ⟨a, judged⟩)
  · have unchanged : v = ⟨false, c, r, c.explained phase r ++ [c.notice phase rejection]⟩ := verdict
    rw [unchanged]
    exact verdict

end CallSite

end LiveCalls
