import LiveCalls.Proofs.Handover

namespace LiveCalls

/-- The type of the values that are taken, if that is only one. -/
def Uptake.type? : Uptake → Option VarType
  | value => none
  | num => some .num
  | bool => some .bool
  | str => some .str
  | loc => some .loc

theorem Uptake.admits_of_isA {u : Uptake} {t : VarType} (hu : u.type? = some t) {v : Value}
    (hv : v.isA t) : u.admits v := by
  cases u with
  | value => cases hu
  | _ => cases hu; cases v <;> first | rfl | cases hv

theorem Uptake.filter_admits {u : Uptake} {t : VarType} (hu : u.type? = some t) {vs : List Value}
    (types : ∀ v ∈ vs, v.isA t) : vs.filter u.admits = vs :=
  List.filter_eq_self.mpr fun v hv => admits_of_isA hu (types v hv)

/-- Values are of the type that a result declares, and at most one if it is single. -/
structure Result.Admits (r : Result) (vs : List Value) : Prop where
  types : ∀ v ∈ vs, v.isA r.type
  single : r.cardinality.isSingle → vs.length ≤ 1

theorem Result.Admits.one {r : Result} {v : Value} (hv : v.isA r.type) : r.Admits [v] := by
  constructor
  · intro w hw
    obtain rfl := List.mem_singleton.mp hw
    exact hv
  · intro _
    exact Nat.le_refl 1

theorem Builtin.run_admitted (b : Builtin) {slots : List (List Value)} {h : Heap} {vs : List Value}
    (given : (b.run slots h).values = some vs) :
    ∃ r, (b.signature : Signature Ref).result = some r ∧ r.Admits vs := by
  cases b with
  | sum | join | round =>
    obtain ⟨_, -, rfl⟩ := Option.map_eq_some_iff.mp given
    exact ⟨_, rfl, .one rfl⟩
  | location =>
    simp only [run] at given
    split at given
    · cases given
      exact ⟨_, rfl, .one rfl⟩
    · cases given
  | shift =>
    simp only [run] at given
    split at given
    · cases given
      exact ⟨_, rfl, .one rfl⟩
    · cases given
  | print => cases given

namespace Callable

/-- A callable that is not supplied from outside: a built-in function with its own signature, or
the function of a script. -/
inductive Own : Callable → Prop where
  | builtin (b : Builtin) : Own ⟨b.signature, .builtin b⟩
  | script (s : Signature Ref) (e : Expr) : Own ⟨s, .script e⟩

theorem evaluate_admitted {s : Signature Ref} {e : Expr} {slots : List (List Value)} {h : Heap}
    {vs : List Value} (given : (evaluate s e slots h).1 = some vs) :
    ∃ r, s.result = some r ∧ r.Admits vs := by
  unfold evaluate at given
  cases hr : s.result with
  | none =>
    rw [hr] at given
    cases given
  | some r =>
    rw [hr] at given
    obtain rfl := Option.some.inj given
    have conform {ws : List Value} {h : Heap} :
        ∀ v ∈ ws.filterMap (Datum.convert? h.read r.type), v.isA r.type := by
      intro v hv
      obtain ⟨w, -, hw⟩ := List.mem_filterMap.mp hv
      exact Datum.isA_of_convert? hw
    refine ⟨r, rfl, ?_, ?_⟩
    · intro v hv
      split at hv
      · exact conform v (List.mem_of_mem_take hv)
      · exact conform v hv
    · intro single
      rw [if_pos single]
      exact List.length_take_le 1 _

/-- A function gives what its signature declares. -/
theorem Own.admits {f : Callable} (own : f.Own) {slots : List (List Value)} {w : World}
    {vs : List Value} (given : (f.call slots w).values = some vs) :
    ∃ r, f.signature.result = some r ∧ r.Admits vs := by
  cases own with
  | builtin b => exact b.run_admitted given
  | script s e => exact evaluate_admitted given

/-- An execution gives no values rather than an empty list of them. -/
theorem Own.execute_admits {f : Callable} (own : f.Own) {given : List (List Value)} {w : World}
    {vs : List Value} (h : (f.execute given w).values = some vs) :
    vs ≠ [] ∧ ∃ r, f.signature.result = some r ∧ r.Admits vs := by
  rw [execute_eq] at h
  split at h
  · cases h
  · obtain ⟨produced, nonempty⟩ := Option.filter_eq_some_iff.mp h
    refine ⟨?_, own.admits produced⟩
    rintro rfl
    cases nonempty

end Callable

namespace CallSite

/-- A site that is accepted gets a type that it expects, and a single value if it counts on one. -/
theorem result_of_judged {phase : Phase} {s : Signature Ref} {c : CallSite}
    {expected : List VarType} (expects : c.expected = some expected) {single : Bool}
    (judged : judgeResult phase s c = .ok single) {r : Result} (declares : s.result = some r) :
    (∃ t ∈ expected, r.type.isSubtype t) ∧ (single → r.cardinality.isSingle) := by
  obtain ⟨⟨returned, type, fits⟩, -⟩ := (judgeResult_eq_ok_iff expects).mp judged
  have one : s.returnsSingle = r.cardinality.isSingle := by
    rw [Signature.returnsSingle, declares]
    rfl
  rw [Signature.resultType?, declares] at type
  obtain rfl := Option.some.inj type
  refine ⟨fits, ?_⟩
  rw [← one]
  exact single_of_judged expects judged

/-- What a site that is accepted expects is what its function gives: no values, or some that are of
types expected, and only one if the site counts on one. -/
theorem conforms_of_judged {phase : Phase} {f : Callable} (own : f.Own) {c : CallSite}
    {expected : List VarType} (expects : c.expected = some expected) {single : Bool}
    (judged : judgeResult phase f.signature c = .ok single) {given : List (List Value)} {w : World}
    {vs : List Value} (produced : (f.execute given w).values = some vs) :
    vs ≠ [] ∧ (∀ v ∈ vs, ∃ t ∈ expected, v.isA t) ∧ (single → vs.length = 1) := by
  obtain ⟨nonempty, result, declares, admits⟩ := own.execute_admits produced
  obtain ⟨⟨t, ht, subtype⟩, one⟩ := result_of_judged expects judged declares
  refine ⟨nonempty, ?_, ?_⟩
  · intro v hv
    exact ⟨t, ht, VarType.isSubtype_trans (admits.types v hv) subtype⟩
  · intro counts
    have atMost := admits.single (one counts)
    have atLeast := List.length_pos_iff.mpr nonempty
    omega

/-- A site that was accepted, in whatever phase, while a function with the declared signature was
there to run gets from it what it expects, until another validation accepts it: no values, or some
that are all of types expected, and only one if the site counts on one. Where only values of the
type expected are taken, all of them are. -/
theorem results_as_expected {phase : Phase} {r : Registry} {c : CallSite} {s : Signature Ref}
    {f : Callable} {expected : List VarType} (expects : c.expected = some expected)
    (declared : r.signatures.get? c.function = some s)
    (defined : r.callables.get? c.function = some f) (carries : f.signature = s) (own : f.Own)
    (accepted : (c.validate phase r).accepted) {d : CallSite}
    (outlasts : (c.validate phase r).site.Outlasts d) (ctx : Context) (r' : Registry) (w : World) :
    let produced := (f.execute (d.slots ctx w.heap).1 ⟨(d.slots ctx w.heap).2, w.kept⟩).values
    let taken := (d.execute ctx r' w).values
    taken = produced.map (·.filter d.uptake.admits) ∧
      (∀ vs, produced = some vs → vs ≠ [] ∧ (∀ v ∈ vs, ∃ t ∈ expected, v.isA t) ∧
        (d.single → vs.length = 1)) ∧
      ∀ t, d.uptake.type? = some t → (∀ u ∈ expected, u = t) →
        taken = produced ∧ taken ≠ some [] := by
  intro produced taken
  obtain ⟨a, judged⟩ := accepted_iff.mp accepted
  obtain ⟨signature, result, -, -, callable⟩ := judge_eq_ok_iff.mp judged
  obtain rfl := Option.some.inj (declared.symm.trans signature)
  have bound : (c.validate phase r).site = c.adopt a := by
    rw [validate_of_judged judged]
  have held : (c.adopt a).callable? = some f := callable.trans defined
  rw [bound] at outlasts
  obtain rfl := outlasts.eq held
  have runs : taken = produced.map (·.filter (c.adopt a).uptake.admits) := by
    simp only [taken, execute, resolve_of_callable held, held, produced]
  have conforms : ∀ vs, produced = some vs → vs ≠ [] ∧ (∀ v ∈ vs, ∃ t ∈ expected, v.isA t) ∧
      (a.single → vs.length = 1) :=
    fun vs given => conforms_of_judged own expects (carries ▸ result) given
  refine ⟨runs, conforms, ?_⟩
  intro t takes only
  cases given : produced with
  | none =>
    rw [runs, given]
    refine ⟨rfl, ?_⟩
    intro empty
    cases empty
  | some vs =>
    obtain ⟨nonempty, types, -⟩ := conforms vs given
    have all : vs.filter (c.adopt a).uptake.admits = vs := by
      apply Uptake.filter_admits takes
      intro v hv
      obtain ⟨u, hu, isA⟩ := types v hv
      rwa [only u hu] at isA
    rw [runs, given, Option.map_some, all]
    exact ⟨rfl, fun empty => nonempty (Option.some.inj empty)⟩

/-- A function of a script that gives one number, with a body of three values. -/
def tally : Callable :=
  ⟨⟨"tally", [], some ⟨.num, .single⟩⟩, .script (.constants [.bool true, .num 2, .num 3] .unknown)⟩

def number : CallSite := .fresh 1 "tally" none (some [.num]) [] .num

/-- The call gives one number, also after the function was removed. -/
theorem results_as_expected_tally :
    let bound := number.validate .first (Registry.empty.define tally).2
    let left := bound.site.validate .again .empty
    bound.accepted ∧ left.accepted = false ∧
      ∃ v, (left.site.execute .empty .empty .empty).values = some [v] ∧ v.isA .num := by
  intro bound left
  have accepted : bound.accepted := rfl
  have rejected : left.accepted = false := rfl
  obtain ⟨-, conform, all⟩ := results_as_expected (f := tally) rfl rfl rfl rfl (.script _ _)
    accepted (.rejected .refl rejected) .empty .empty .empty
  obtain ⟨-, types, single⟩ := conform _ rfl
  obtain ⟨v, one⟩ := List.length_eq_one_iff.mp (single rfl)
  refine ⟨accepted, rejected, v, ?_, ?_⟩
  · exact (all .num rfl fun u hu => List.mem_singleton.mp hu).1.trans (congrArg some one)
  · obtain ⟨t, expected, isA⟩ := types v (one ▸ List.mem_singleton_self v)
    rwa [List.mem_singleton.mp expected] at isA

end CallSite

end LiveCalls
