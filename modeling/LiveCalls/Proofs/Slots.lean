import LiveCalls.Proofs.Conversion
import LiveCalls.Proofs.Isolation
import LiveCalls.Proofs.Rebinding
import LiveCalls.Proofs.Settled

namespace LiveCalls

open Value (HoldAll AllBeyond)

/-- The values of an argument that a parameter takes, each converted to its type. -/
def Parameter.takes (vars : String → List Constant) (p : Parameter Ref) (e : Expr) :
    List Constant := e.denoteAs vars p.type

/-- What the slots hold that the arguments of a call fill. A parameter that takes all of them has
their values one after the other, and every other one has those of its own argument. -/
def Signature.filled (vars : String → List Constant) (s : Signature Ref) (es : List Expr) :
    List (List Constant) :=
  if s.spreads && !es.isEmpty then s.parameters.map fun p => es.flatMap (p.takes vars)
  else List.zipWith (fun e p => p.takes vars e) es s.parameters

theorem Signature.spreads_iff {s : Signature Ref} :
    s.spreads ↔ ∃ p, s.parameters = [p] ∧ p.isSingle = false := by
  unfold spreads
  split
  · rename_i p hp
    simp [hp]
  · rename_i other
    refine iff_of_false Bool.false_ne_true ?_
    rintro ⟨p, hp, -⟩
    exact other p hp

theorem Signature.default_of_mem_drop {α : Type} {s : Signature α} {n : Nat} (h : s.required ≤ n) :
    ∀ p ∈ s.parameters.drop n, p.default.isSome := by
  intro p hp
  obtain ⟨i, hi, rfl⟩ := List.mem_iff_getElem.mp hp
  rw [List.getElem_drop]
  exact default_of_required_le (Nat.le_trans h (Nat.le_add_right n i)) _

theorem Callable.defaultRows_isSome {s : Signature Ref} {n : Nat} (h : s.required ≤ n)
    (heap : Heap) : (defaultRows heap (s.parameters.drop n)).isSome := by
  have all (ps : List (Parameter Ref)) (hp : ∀ p ∈ ps, p.default.isSome) :
      (defaultRows heap ps).isSome := by
    induction ps with
    | nil => rfl
    | cons p ps ih =>
      obtain ⟨first, rest⟩ := List.forall_mem_cons.mp hp
      obtain ⟨vs, hvs⟩ := Option.isSome_iff_exists.mp first
      obtain ⟨rows, hrows⟩ := Option.isSome_iff_exists.mp (ih rest)
      simp [defaultRows, hvs, hrows]
  exact all _ (Signature.default_of_mem_drop h)

theorem Callable.length_defaults {ps : List (Parameter Ref)} {h : Heap} {slots : List (List Value)}
    (filled : (defaults ps h).1 = some slots) : slots.length = ps.length := by
  induction ps generalizing h slots with
  | nil =>
    cases filled
    rfl
  | cons p ps ih =>
    unfold defaults at filled
    cases hp : p.default with
    | none =>
      rw [hp] at filled
      cases filled
    | some vs =>
      rw [hp] at filled
      obtain ⟨rest, later, rfl⟩ := Option.map_eq_some_iff.mp filled
      rw [List.length_cons, List.length_cons, ih later]

namespace CallSite

/-- Arguments that convert have, in their new form, the values that their parameters take. -/
theorem denote_fitted {c : CallSite} {s : Signature Ref} {es : List Expr}
    (fit : c.fitted s = .ok es) {vars : String → List Constant}
    (written : ∀ e ∈ c.arguments, e.isWritten ∧ e.Typed vars) :
    es.map (Expr.denote vars) =
      (c.arguments.zip (targets s c.arguments.length)).map fun p => p.1.denoteAs vars p.2 := by
  have among : ∀ p ∈ c.arguments.zip (targets s c.arguments.length), p.1 ∈ c.arguments :=
    fun p hp => (List.of_mem_zip hp).1
  have converts := convertPairs_eq_ok_iff.mp fit
  clear fit
  generalize c.arguments.zip (targets s c.arguments.length) = pairs at among converts
  induction converts with
  | nil => rfl
  | @cons p e pairs es first _ ih =>
    obtain ⟨here, later⟩ := List.forall_mem_cons.mp among
    obtain ⟨hw, typed⟩ := written p.1 here
    rw [List.map_cons, List.map_cons, Expr.denote_convert hw first typed, ih later]

theorem length_fitted {c : CallSite} {s : Signature Ref} {es : List Expr}
    (count : judgeCount s c.arguments.length = .ok ()) (fit : c.fitted s = .ok es) :
    es.length = c.arguments.length := by
  have lengths := (convertPairs_eq_ok_iff.mp fit).length_eq
  rw [← lengths, List.length_zip]
  exact Nat.min_eq_left (length_le_targets count)

theorem judgeCount_eq_ok_iff {s : Signature Ref} {n : Nat} :
    judgeCount s n = .ok () ↔ (s.spreads ∨ n ≤ s.arity) ∧ s.required ≤ n := by
  unfold judgeCount
  cases s.spreads with
  | true =>
    by_cases few : n < s.required
    · simp [few]
    · simp [few, Nat.not_lt.mp few]
  | false =>
    by_cases many : s.arity < n
    · simp [many, Nat.not_le.mpr many]
    · by_cases few : n < s.required
      · simp [many, few]
      · simp [many, few, Nat.not_lt.mp many, Nat.not_lt.mp few]

section
variable {c : CallSite} {a : Adopted} (vars : String → List Constant)

/-- The arguments fill at least the slots that have to be filled, and no more than there are. -/
theorem length_rows (count : judgeCount a.signature c.arguments.length = .ok ())
    (fit : c.fitted a.signature = .ok a.arguments) :
    a.signature.required ≤ ((c.adopt a).rows vars).length ∧
      ((c.adopt a).rows vars).length ≤ a.signature.arity := by
  have length := length_fitted count fit
  obtain ⟨many, enough⟩ := judgeCount_eq_ok_iff.mp count
  have rows : (c.adopt a).rows vars =
      if a.signature.spreads && 1 < a.arguments.length
      then [Expr.denoteItems vars a.arguments] else a.arguments.map (Expr.denote vars) := rfl
  rw [rows]
  cases spreads : a.signature.spreads with
  | false =>
    have few : c.arguments.length ≤ a.signature.arity := by simpa [spreads] using many
    simp only [Bool.false_and, Bool.false_eq_true, if_false, List.length_map, length]
    exact ⟨enough, few⟩
  | true =>
    obtain ⟨p, only, -⟩ := Signature.spreads_iff.mp spreads
    have arity : a.signature.arity = 1 := by rw [Signature.arity, only]; rfl
    have required := a.signature.required_le
    by_cases several : 1 < a.arguments.length
    · simp only [several, decide_true, Bool.and_self, if_true, List.length_singleton]
      omega
    · simp only [several, decide_false, Bool.and_false, Bool.false_eq_true, if_false,
        List.length_map]
      omega

/-- What the slots hold that the arguments of an accepted site fill. -/
theorem rows_adopt (count : judgeCount a.signature c.arguments.length = .ok ())
    (fit : c.fitted a.signature = .ok a.arguments)
    (written : ∀ e ∈ c.arguments, e.isWritten ∧ e.Typed vars) :
    (c.adopt a).rows vars = a.signature.filled vars c.arguments := by
  have length := length_fitted count fit
  have values := denote_fitted fit written
  have rows : (c.adopt a).rows vars =
      if a.signature.spreads && 1 < a.arguments.length
      then [(a.arguments.map (Expr.denote vars)).flatten]
      else a.arguments.map (Expr.denote vars) := by
    rw [← List.flatMap_def, ← Expr.denoteItems_eq_flatMap]
    rfl
  rw [rows, length, values, Signature.filled]
  cases spreads : a.signature.spreads with
  | false =>
    simp only [Bool.false_and, Bool.false_eq_true, if_false, targets, spreads, List.zip,
      List.map_zipWith, List.zipWith_map_right]
    rfl
  | true =>
    obtain ⟨p, only, -⟩ := Signature.spreads_iff.mp spreads
    have pairs (es : List Expr) : es.zip (List.replicate es.length p.type) =
        es.map (·, p.type) := by
      induction es with
      | nil => rfl
      | cons e es ih => rw [List.length_cons, List.replicate_succ, List.zip_cons_cons, ih]; rfl
    have each : ((c.arguments.zip (targets a.signature c.arguments.length)).map fun q =>
        q.1.denoteAs vars q.2) = c.arguments.map (p.takes vars) := by
      simp only [targets, spreads, only, if_true, List.flatMap_singleton, pairs, List.map_map]
      rfl
    rw [each, only]
    match c.arguments with
    | [] => rfl
    | [e] => simp
    | e :: e' :: es => simp [List.flatMap_def]

end

/-- What a site becomes that is executed and rejected after it was bound, in any order. -/
inductive Outlasts (c : CallSite) : CallSite → Prop where
  | refl : Outlasts c c
  | rejected {d : CallSite} {phase : Phase} {r : Registry} (h : Outlasts c d)
      (rejected : (d.validate phase r).accepted = false) : Outlasts c (d.validate phase r).site
  | executed {d : CallSite} (h : Outlasts c d) (ctx : Context) (r : Registry) (w : World) :
      Outlasts c (d.execute ctx r w).site

theorem resolve_of_callable {c : CallSite} {f : Callable} (hf : c.callable? = some f)
    (r : Registry) : c.resolve r = c := by
  obtain ⟨id, function, arguments, binding, single, expected, site, uptake⟩ := c
  cases binding with
  | bound s held =>
    cases held with
    | none => cases hf
    | some g => rfl
  | unbound late =>
    cases late with
    | none => cases hf
    | some g => rfl

/-- A site that holds a callable stays as it is until a validation accepts it. -/
theorem Outlasts.eq {c d : CallSite} (h : c.Outlasts d) {f : Callable}
    (hf : c.callable? = some f) : d = c := by
  induction h with
  | refl => rfl
  | rejected _ rejected ih => rw [site_of_rejected rejected, ih]
  | executed _ ctx r w ih => rw [site_execute, ih, resolve_of_callable hf]

/-- What comes of an execution in which the body of a callable ran on these slots. -/
def ran (c : CallSite) (f : Callable) (slots : List (List Value)) (w : World) : Execution :=
  let reply := f.call slots w
  ⟨c, (reply.values.filter (!·.isEmpty)).map (·.filter c.uptake.admits), reply.world, [],
    reply.printed⟩

/-- A callable that gets neither too many slots nor too few has its body run on them and on copies
of the defaults of the parameters that are left. -/
theorem execute_eq_ran {c : CallSite} {f : Callable} (hf : c.callable? = some f) {ctx : Context}
    {w : World} (hc : ctx.InHeap w.heap) (hs : f.signature.InHeap w.heap)
    (enough : f.signature.required ≤ (c.rows (ctx.constants w.heap)).length)
    (few : (c.rows (ctx.constants w.heap)).length ≤ f.signature.arity) (r : Registry) :
    ∃ slots heap left, c.execute ctx r w = c.ran f slots ⟨heap, w.kept⟩ ∧
      w.heap.Extends heap ∧ slots.length = f.signature.arity ∧ AllBeyond w.heap slots ∧
      HoldAll heap slots (c.rows (ctx.constants w.heap) ++ left) ∧
      Callable.defaultRows w.heap
        (f.signature.parameters.drop (c.rows (ctx.constants w.heap)).length) = some left := by
  obtain ⟨grows, held⟩ := c.slots_yield hc
  have beyond := (c.slots_laidOut ctx w.heap).beyond
  generalize c.rows (ctx.constants w.heap) = rows at *
  have given : (c.slots ctx w.heap).1.length = rows.length := by
    rw [← held.constants, List.length_map]
  have there : ∀ p ∈ f.signature.parameters.drop rows.length, p.InHeap w.heap :=
    fun p hp => hs p (List.mem_of_mem_drop hp)
  obtain ⟨more, defaults⟩ :=
    Callable.defaults_yield _ fun p hp => (there p hp).mono grows.size
  rw [Callable.defaultRows_extend there grows] at defaults
  rcases defaults with ⟨-, missing⟩ | ⟨copies, left, out, hleft, copied⟩
  · have present := Callable.defaultRows_isSome enough w.heap
    rw [missing] at present
    cases present
  · have lengths : copies.length = f.signature.arity - rows.length := by
      have same := Callable.length_defaults out
      rwa [List.length_drop] at same
    refine ⟨(c.slots ctx w.heap).1 ++ copies, _, left, ?_, grows.trans more, ?_, ?_,
      (held.extend more).append copied, hleft⟩
    · simp only [execute, resolve_of_callable hf, hf, Callable.execute, given,
        if_neg (Nat.not_lt.mpr few), out]
      rfl
    · rw [List.length_append, given, lengths]
      omega
    · exact beyond.append ((Callable.defaults_laidOut out).after grows).beyond

/-- A site that was accepted when its function was there to run has the body of that function run
whenever it is executed, until another validation accepts it. There is one slot for each parameter,
of values that nobody else has. The slots that are filled have the values of the arguments that
their parameters take, and those left over have the defaults. -/
theorem execute_runs_body {phase : Phase} {r : Registry} {c : CallSite} {s : Signature Ref}
    {f : Callable} (declared : r.signatures.get? c.function = some s)
    (defined : r.callables.get? c.function = some f) (carries : f.signature = s)
    (accepted : (c.validate phase r).accepted) {d : CallSite}
    (outlasts : (c.validate phase r).site.Outlasts d) {ctx : Context} {w : World}
    (hc : ctx.InHeap w.heap) (hs : s.InHeap w.heap) (r' : Registry) :
    let vars := ctx.constants w.heap
    ∃ slots heap left, d.execute ctx r' w = d.ran f slots ⟨heap, w.kept⟩ ∧
      w.heap.Extends heap ∧ slots.length = s.arity ∧ AllBeyond w.heap slots ∧
      HoldAll heap slots (d.rows vars ++ left) ∧
      Callable.defaultRows w.heap (s.parameters.drop (d.rows vars).length) = some left ∧
      ((∀ e ∈ c.arguments, e.isWritten ∧ e.Typed vars) →
        d.rows vars = s.filled vars c.arguments) := by
  intro vars
  obtain ⟨a, judged⟩ := accepted_iff.mp accepted
  obtain ⟨signature, -, count, fit, callable⟩ := judge_eq_ok_iff.mp judged
  obtain rfl := Option.some.inj (declared.symm.trans signature)
  have bound : (c.validate phase r).site = c.adopt a := by
    rw [validate_of_judged judged]
  have held : (c.adopt a).callable? = some f := callable.trans defined
  rw [bound] at outlasts
  obtain rfl := outlasts.eq held
  obtain ⟨enough, few⟩ := length_rows vars count fit
  rw [← carries] at hs enough few ⊢
  obtain ⟨slots, heap, left, ran, grows, length, beyond, holds, defaults⟩ :=
    execute_eq_ran held hc hs enough few r'
  refine ⟨slots, heap, left, ran, grows, length, beyond, holds, defaults, ?_⟩
  intro written
  rw [carries]
  exact rows_adopt vars count fit written

/-- A call of `location` that gives two of the three coordinates, the second by a variable. -/
def place : CallSite :=
  .fresh 1 "location" none none [.constants [.num 1] .unknown, .var "y" .any .unknown] .value

/-- The number among the values of the variable is taken, and the third coordinate is zero. -/
theorem execute_runs_body_location :
    let ctx := Context.empty.set "y" [.bool true, .num 2]
    let bound := (place.validate .first .builtins).site
    ∃ slots heap, bound.execute ctx .builtins .empty =
        bound.ran ⟨Builtin.location.signature, .builtin .location⟩ slots ⟨heap, []⟩ ∧
      slots.length = 3 ∧ HoldAll heap slots [[.num 1], [.num 2], [.num 0]] := by
  intro ctx bound
  have accepted : (place.validate .first .builtins).accepted := rfl
  have inHeap : ctx.InHeap World.empty.heap := by
    intro name v hv
    rw [Context.get_set] at hv
    split at hv
    · rcases List.mem_pair.mp hv with rfl | rfl <;> trivial
    · cases hv
  obtain ⟨slots, heap, left, ran, -, length, -, held, defaults, filled⟩ :=
    execute_runs_body (s := Builtin.location.signature)
      (f := ⟨Builtin.location.signature, .builtin .location⟩) rfl rfl rfl accepted .refl inHeap
      (Builtin.inHeap_signature .location _) .builtins
  have rows := filled (by
    intro e he
    rcases List.mem_pair.mp he with rfl | rfl
    · exact ⟨rfl, nofun⟩
    · refine ⟨rfl, ?_⟩
      intro x hx k hk
      obtain rfl := List.mem_singleton.mp hx
      exact VarType.isSubtype_any _)
  rw [rows] at held defaults
  obtain rfl := Option.some.inj defaults
  exact ⟨slots, heap, ran, length, held⟩

end CallSite

end LiveCalls
