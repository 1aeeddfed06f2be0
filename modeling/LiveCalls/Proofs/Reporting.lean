import LiveCalls.Proofs.Verdict

namespace LiveCalls

/-- The place of a fault in the order in which faults are looked for. The arguments come last, from
the first one on. -/
def Rejection.rank : Rejection → Nat
  | .missing => 0
  | .returnsNothing => 1
  | .returnsOther .. => 2
  | .returnsSeveral => 3
  | .tooMany .. => 4
  | .tooFew .. => 5
  | .misfit index .. => 6 + index

namespace CallSite

/-- A fault of a call of a function with this signature, whatever others it has. -/
inductive HasFault (phase : Phase) (s : Signature Ref) (c : CallSite) : Rejection → Prop where
  | returnsNothing {expected : List VarType} (expects : c.expected = some expected)
      (nothing : s.resultType? = none) : HasFault phase s c .returnsNothing
  | returnsOther {expected : List VarType} {returned : VarType}
      (expects : c.expected = some expected) (returns : s.resultType? = some returned)
      (other : ∀ t ∈ expected, ¬ returned.isSubtype t) :
      HasFault phase s c (.returnsOther returned expected)
  | returnsSeveral {expected : List VarType} (expects : c.expected = some expected)
      (later : phase = .again) (counts : c.single) (several : ¬ s.returnsSingle) :
      HasFault phase s c .returnsSeveral
  | tooMany (apart : ¬ s.spreads) (many : s.arity < c.arguments.length) :
      HasFault phase s c (.tooMany s.arity c.arguments.length)
  | tooFew {i : Nat} {p : Parameter Ref} (parameter : s.parameters[i]? = some p)
      (left : c.arguments.length ≤ i) (default : p.default = none) :
      HasFault phase s c (.tooFew s.required c.arguments.length)
  | misfit {i : Nat} {e : Expr} {p : Parameter Ref} (argument : c.arguments[i]? = some e)
      (taker : s.parameters[s.takerOf i]? = some p) (hindered : e.obstacles p.type ≠ []) :
      HasFault phase s c (.misfit i p.type)

/-- A fault of a call that comes before all others that it has. -/
structure IsFirstFault (phase : Phase) (s : Signature Ref) (c : CallSite) (x : Rejection) :
    Prop where
  has : c.HasFault phase s x
  first : ∀ y, c.HasFault phase s y → x.rank ≤ y.rank

/-- Why a call is rejected: its function is not declared, or it does not fit what is declared. -/
inductive RejectedFor (phase : Phase) (r : Registry) (c : CallSite) : Rejection → Prop where
  | missing (undeclared : r.signatures.get? c.function = none) : RejectedFor phase r c .missing
  | fault {s : Signature Ref} {x : Rejection} (declared : r.signatures.get? c.function = some s)
      (fault : c.IsFirstFault phase s x) : RejectedFor phase r c x

section
variable {phase : Phase} {s : Signature Ref} {c : CallSite} {x y : Rejection}

theorem two_le_rank {returned : VarType} (returns : s.resultType? = some returned)
    (hy : c.HasFault phase s y) : 2 ≤ y.rank := by
  cases hy with
  | returnsNothing expects nothing =>
    rw [returns] at nothing
    cases nothing
  | _ => simp +arith [Rejection.rank]

theorem three_le_rank {expected : List VarType} {returned : VarType}
    (expects : c.expected = some expected) (returns : s.resultType? = some returned)
    (fits : ∃ t ∈ expected, returned.isSubtype t) (hy : c.HasFault phase s y) : 3 ≤ y.rank := by
  have two := two_le_rank returns hy
  cases hy with
  | returnsOther expects' returns' other =>
    obtain rfl := Option.some.inj (expects'.symm.trans expects)
    obtain rfl := Option.some.inj (returns'.symm.trans returns)
    obtain ⟨t, ht, subtype⟩ := fits
    exact absurd subtype (other t ht)
  | _ => simp +arith [Rejection.rank] at two ⊢

/-- Where what comes back is judged well, no fault is about it. -/
theorem four_le_rank {single : Bool} (judged : judgeResult phase s c = .ok single)
    (hy : c.HasFault phase s y) : 4 ≤ y.rank := by
  cases hx : c.expected with
  | none =>
    cases hy with
    | returnsNothing expects | returnsOther expects | returnsSeveral expects =>
      rw [hx] at expects
      cases expects
    | _ => simp +arith [Rejection.rank]
  | some expected =>
    obtain ⟨⟨returned, returns, fits⟩, counts⟩ := (judgeResult_eq_ok_iff hx).mp judged
    have three := three_le_rank hx returns fits hy
    cases hy with
    | returnsSeveral expects later single several =>
      subst later
      exact absurd (counts.1 single) several
    | _ => simp +arith [Rejection.rank] at three ⊢

/-- Where the number of arguments is judged well, too, every fault is about an argument. -/
theorem six_le_rank {single : Bool} (judged : judgeResult phase s c = .ok single)
    (count : judgeCount s c.arguments.length = .ok ()) (hy : c.HasFault phase s y) :
    6 ≤ y.rank := by
  have four := four_le_rank judged hy
  obtain ⟨room, enough⟩ := judgeCount_eq_ok_iff.mp count
  cases hy with
  | tooMany apart many => exact absurd (room.resolve_left apart) (Nat.not_le.mpr many)
  | tooFew parameter left missing =>
    have present := Signature.required_le_iff.mp enough _ _ parameter left
    rw [missing] at present
    cases present
  | _ => simp +arith [Rejection.rank] at four ⊢

theorem firstFault_of_judgeResult (judged : judgeResult phase s c = .error x) :
    c.IsFirstFault phase s x := by
  unfold judgeResult at judged
  split at judged
  · cases judged
  · rename_i expected expects
    split at judged
    · rename_i nothing
      cases judged
      refine ⟨.returnsNothing expects nothing, ?_⟩
      intro y hy
      cases hy <;> simp +arith [Rejection.rank]
    · rename_i returned returns
      split at judged
      · rename_i misses
        cases judged
        have other : ∀ t ∈ expected, ¬ returned.isSubtype t := by simpa using misses
        exact ⟨.returnsOther expects returns other, fun y => two_le_rank returns⟩
      · rename_i hits
        have fits : ∃ t ∈ expected, returned.isSubtype t := by simpa using hits
        split at judged
        · cases judged
        · split at judged
          · rename_i narrowed
            cases judged
            obtain ⟨counts, several⟩ := Bool.and_eq_true_iff.mp narrowed
            have several : ¬ s.returnsSingle := by simpa using several
            exact ⟨.returnsSeveral expects rfl counts several,
              fun y => three_le_rank expects returns fits⟩
          · cases judged

theorem firstFault_of_judgeCount {single : Bool} (result : judgeResult phase s c = .ok single)
    (judged : judgeCount s c.arguments.length = .error x) : c.IsFirstFault phase s x := by
  unfold judgeCount at judged
  split at judged
  · rename_i many
    cases judged
    obtain ⟨apart, many⟩ := Bool.and_eq_true_iff.mp many
    exact ⟨.tooMany (by simpa using apart) (of_decide_eq_true many),
      fun y => four_le_rank result⟩
  · rename_i room
    split at judged
    · rename_i few
      cases judged
      obtain ⟨i, p, left, parameter, missing⟩ := Signature.default_of_lt_required few
      refine ⟨.tooFew parameter left missing, ?_⟩
      intro y hy
      have four := four_le_rank result hy
      cases hy with
      | tooMany apart many => simp [apart, many] at room
      | _ => simp +arith [Rejection.rank] at four ⊢
    · cases judged

theorem firstFault_of_fitted {single : Bool} (result : judgeResult phase s c = .ok single)
    (count : judgeCount s c.arguments.length = .ok ()) (judged : c.fitted s = .error x) :
    c.IsFirstFault phase s x := by
  obtain ⟨k, e, t, reason, hk, fails, rfl, -, earlier⟩ := exists_of_convertPairs judged
  obtain ⟨argument, target⟩ := List.getElem?_zip_eq_some.mp hk
  obtain ⟨inside, -⟩ := List.getElem?_eq_some_iff.mp argument
  obtain ⟨room, -⟩ := judgeCount_eq_ok_iff.mp count
  obtain ⟨p, taker, type⟩ := exists_taker room inside
  obtain rfl : p.type = t := Option.some.inj (type.symm.trans target)
  rw [Nat.zero_add]
  have hindered := (Expr.convert_stops p.type e).isError_iff.mp ⟨reason, fails⟩
  refine ⟨.misfit argument taker hindered, ?_⟩
  intro y hy
  have six := six_le_rank result count hy
  cases hy with
  | @misfit j e' q argument' taker' hindered' =>
    apply Nat.add_le_add_left
    by_contra before
    have before := Nat.not_le.mp before
    obtain ⟨q', hq, type'⟩ := exists_taker room (Nat.lt_trans before inside)
    obtain rfl := Option.some.inj (taker'.symm.trans hq)
    have converts :=
      earlier j before (e', q.type) (List.getElem?_zip_eq_some.mpr ⟨argument', type'⟩)
    exact hindered' ((Expr.convert_stops q.type e').isOk_iff.mp converts)
  | _ => simp +arith [Rejection.rank] at six

theorem rejectedFor_of_judge {r : Registry} (judged : c.judge phase r = .error x) :
    c.RejectedFor phase r x := by
  have stage := rejectedAt_of_judge judged
  generalize c.explained phase r = ds at stage
  cases stage with
  | declaration undeclared => exact .missing undeclared
  | result declared judged => exact .fault declared (firstFault_of_judgeResult judged)
  | count declared result judged =>
    exact .fault declared (firstFault_of_judgeCount result judged)
  | arguments declared result count judged =>
    exact .fault declared (firstFault_of_fitted result count judged)

theorem not_hasFault_of_judge {r : Registry} {a : Adopted} (judged : c.judge phase r = .ok a) :
    ¬ c.HasFault phase a.signature x := by
  intro hx
  obtain ⟨-, result, count, fit, -⟩ := judge_eq_ok_iff.mp judged
  have six := six_le_rank result count hx
  cases hx with
  | misfit argument taker hindered =>
    obtain ⟨room, -⟩ := judgeCount_eq_ok_iff.mp count
    obtain ⟨q, b, taker', converts⟩ := (fitted_isOk_iff room).mp ⟨_, fit⟩ _ _ argument
    obtain rfl := Option.some.inj (taker.symm.trans taker')
    exact hindered ((Expr.convert_stops _ _).isOk_iff.mp ⟨b, converts⟩)
  | _ => simp +arith [Rejection.rank] at six

end

/-- A validation that accepts a call, which is one without a fault, reports nothing, and changes
nothing about the registry but that the call is a caller of its function. One that rejects a call
changes nothing, and reports its first fault: at first with the place of the call, and for an
argument that cannot be converted with the first obstacle in it before that; later without a place
and once. What was reported before stays in the sink, in front of what is added. The log of an
argument has that obstacle and nothing else, and stays as it was if the argument converts. -/
theorem validate_reported (phase : Phase) (r : Registry) (c : CallSite) :
    let v := c.validate phase r
    (v.accepted = true → v.diagnostics = [] ∧ r.SameFunctions v.registry ∧
        (∀ name id, id ∈ v.registry.callers name ↔
          (id = c.id ∧ name = c.function) ∨ id ∈ r.callers name) ∧
        ∃ s, r.signatures.get? c.function = some s ∧ ∀ x, ¬ c.HasFault phase s x) ∧
      (v.accepted = false → v.site = c ∧ v.registry = r ∧
        ∃ x, c.RejectedFor phase r x ∧
          (phase = .again → v.diagnostics = [⟨none, x.staleMessage c.function⟩]) ∧
          (phase = .first →
            ((∀ i t, x ≠ .misfit i t) →
              v.diagnostics = [⟨c.site, x.firstMessage c.function⟩]) ∧
            ∀ i t, x = .misfit i t → ∃ e reason, c.arguments[i]? = some e ∧
              (e.obstacles t).head? = some reason ∧
              v.diagnostics = [⟨c.site, reason.message⟩, ⟨c.site, x.firstMessage c.function⟩])) ∧
      (∀ sink : List Diagnostic, c.examine phase r sink =
        ((c.examine phase r []).1, sink ++ (c.examine phase r []).2)) ∧
      ∀ (e : Expr) (t : VarType) (log : RetainingLog),
        match e.obstacles t with
        | [] => ∃ b, e.convertedTo t log = (some b, log)
        | reason :: _ => e.convertedTo t log = (none, log.report reason.diagnostic) := by
  intro v
  refine ⟨?_, ?_, c.examine_sink phase r, fun e t log => e.convertedTo_logs t log⟩
  · intro accepted
    obtain ⟨a, judged⟩ := accepted_iff.mp accepted
    obtain ⟨declared, -⟩ := judge_eq_ok_iff.mp judged
    have made : v = ⟨true, c.adopt a, r.subscribe c.function c.id, []⟩ := validate_of_judged judged
    rw [made]
    refine ⟨rfl, .subscribe r c.function c.id, ?_, ?_⟩
    · intro name id
      exact Registry.mem_callers_subscribe
    · exact ⟨a.signature, declared, fun x => not_hasFault_of_judge judged⟩
  · intro rejected
    rcases validate_cases phase r c with ⟨a, -, verdict⟩ | ⟨x, judged, verdict⟩
    · cases rejected.symm.trans (congrArg Verdict.accepted verdict)
    · have made : v = ⟨false, c, r, c.explained phase r ++ [c.notice phase x]⟩ := verdict
      rw [made]
      refine ⟨rfl, rfl, x, rejectedFor_of_judge judged, ?_, ?_⟩
      · rintro rfl
        rw [explained_again]
        rfl
      · rintro rfl
        rcases explained_of_rejected judged with
          ⟨other, silent⟩ | ⟨i, e, t, reason, rfl, argument, fails, why⟩
        · rw [silent]
          refine ⟨fun _ => rfl, ?_⟩
          rintro i t rfl
          cases other
        · rw [why]
          refine ⟨fun other => absurd rfl (other i t), ?_⟩
          intro j u same
          cases same
          exact ⟨e, reason, argument, (Expr.convert_stops t e reason).mp fails, rfl⟩

/-- Of two arguments that cannot be converted only the first is reported, the reason before it. -/
example :
    let c : CallSite := .fresh 1 "location" none none
      [.list [.constants [.num 1] .unknown, .constants [.bool true, .loc default] .unknown]
        .unknown, .constants [.bool false] .unknown] .value
    (c.validate .first .builtins).diagnostics =
      [⟨none, "true cannot be converted to num"⟩,
        ⟨none, (Rejection.misfit 0 .num).firstMessage "location"⟩] :=
  rfl

end CallSite

end LiveCalls
