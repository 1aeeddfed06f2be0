import LiveCalls.Proofs.Compilation

namespace LiveCalls

/-- What is asked of every member of a list does not depend on its place. -/
theorem forall_mem_zipIdx_fst {α : Type} {P : α → Prop} {xs : List α} {n : Nat} :
    (∀ x ∈ xs.zipIdx n, P x.1) ↔ ∀ x ∈ xs, P x := by
  have members := @List.forall_mem_map _ _ Prod.fst (xs.zipIdx n) P
  rw [List.zipIdx_map_fst] at members
  exact members.symm

namespace Manifest

/-- A term that can be the default of a parameter. -/
structure Term.WellFormed (t : Term) (type : VarType) (cardinality : Cardinality) : Prop where
  /-- There is no variable in it, at whatever depth. -/
  constant : t.vars = []
  nonempty : t.leaves ≠ []
  single : cardinality.isSingle → t.leaves.length ≤ 1
  converts : ∀ k ∈ t.leaves, (Datum.convert? id type k).isSome

structure Parameter.WellFormed (p : Parameter) : Prop where
  type : (VarType.parse? p.type).isSome
  default : ∀ t ∈ p.default, ∀ type ∈ VarType.parse? p.type,
    t.WellFormed type (.ofMultiple p.multiple)

def Return.WellFormed (r : Return) : Prop := (VarType.parse? r.type).isSome

structure Function.WellFormed (f : Function) : Prop where
  named : f.name ≠ ""
  custom : Builtin.isName f.name = false
  distinct : (f.params.map (·.name)).Nodup
  parameters : ∀ p ∈ f.params, p.WellFormed
  result : ∀ r ∈ f.returns, r.WellFormed

def Call.WellFormed (c : Call) : Prop :=
  ∀ names ∈ c.expect, ∀ name ∈ names, (VarType.parse? name).isSome

/-- A manifest without a fault. -/
structure WellFormed (m : Manifest) : Prop where
  distinct : (m.functions.map (·.name)).Nodup
  functions : ∀ f ∈ m.functions, f.WellFormed
  calls : ∀ t ∈ m.triggers, ∀ c ∈ t.calls, c.WellFormed

section
variable {t : Term} {type : VarType} {cardinality : Cardinality}

theorem Term.exists_defaults_iff :
    (∃ cs, t.Defaults type cardinality cs) ↔ t.WellFormed type cardinality := by
  have each : (∃ cs, List.Forall₂ (fun k c => Datum.convert? id type k = some c) t.leaves cs) ↔
      ∀ k ∈ t.leaves, (Datum.convert? id type k).isSome := by
    simp only [exists_forall₂_iff, Option.isSome_iff_exists]
  constructor
  · rintro ⟨cs, constant, nonempty, single, converts⟩
    exact ⟨constant, nonempty, single, each.mp ⟨cs, converts⟩⟩
  · rintro ⟨constant, nonempty, single, converts⟩
    obtain ⟨cs, converted⟩ := each.mpr converts
    exact ⟨cs, constant, nonempty, single, converted⟩

theorem Term.Defaults.fit {cs : List Constant} (h : t.Defaults type cardinality cs) :
    cs ≠ [] ∧ (cardinality.isSingle → cs.length = 1) ∧ ∀ c ∈ cs, c.isA type := by
  have length := h.converts.length_eq
  have some := List.length_pos_iff.mpr h.nonempty
  refine ⟨List.length_pos_iff.mp (length ▸ some), fun single => ?_, fun c hc => ?_⟩
  · have few := h.single single
    omega
  · obtain ⟨k, -, converted⟩ := exists_mem_of_forall₂ h.converts hc
    exact Datum.isA_of_convert? converted

end

theorem Parameter.exists_compilesTo_iff {p : Parameter} : (∃ q, p.CompilesTo q) ↔ p.WellFormed := by
  constructor
  · rintro ⟨q, -, type, cardinality, default⟩
    refine ⟨by rw [type]; rfl, fun t ht u hu => ?_⟩
    rw [Option.mem_def, type] at hu
    cases hu
    exact cardinality ▸ Term.exists_defaults_iff.mp (exists_rel_iff.mp ⟨_, default⟩ t ht)
  · rintro ⟨known, default⟩
    obtain ⟨type, known⟩ := Option.isSome_iff_exists.mp known
    obtain ⟨values, related⟩ := exists_rel_iff.mpr fun t ht =>
      Term.exists_defaults_iff.mpr (default t ht type known)
    exact ⟨⟨p.name, type, .ofMultiple p.multiple, values⟩, rfl, known, rfl, related⟩

theorem Return.exists_compilesTo_iff {r : Return} : (∃ u, r.CompilesTo u) ↔ r.WellFormed := by
  constructor
  · rintro ⟨u, known, -⟩
    exact Option.isSome_iff_exists.mpr ⟨_, known⟩
  · intro known
    obtain ⟨type, known⟩ := Option.isSome_iff_exists.mp known
    exact ⟨⟨type, .ofMultiple r.multiple⟩, known, rfl⟩

theorem Function.exists_compilesTo_iff {pos : Position} {f : Function} :
    (∃ g, f.CompilesTo pos g) ↔ f.WellFormed := by
  have parameters : (∃ qs, List.Forall₂ Parameter.CompilesTo f.params qs) ↔
      ∀ p ∈ f.params, p.WellFormed := by
    simp only [exists_forall₂_iff, Parameter.exists_compilesTo_iff]
  have result : (∃ u, Option.Rel Return.CompilesTo f.returns u) ↔
      ∀ r ∈ f.returns, r.WellFormed := by
    simp only [exists_rel_iff, Return.exists_compilesTo_iff]
  constructor
  · rintro ⟨g, h⟩
    exact ⟨h.named, h.custom, h.distinct, parameters.mp ⟨_, h.parameters⟩, result.mp ⟨_, h.result⟩⟩
  · intro h
    obtain ⟨qs, compiled⟩ := parameters.mpr h.parameters
    obtain ⟨u, declared⟩ := result.mpr h.result
    exact ⟨⟨⟨f.name, qs, u⟩, f.body.map (Term.toExpr pos)⟩, h.named, h.custom, h.distinct, rfl,
      compiled, declared, rfl⟩

theorem Call.exists_compilesTo_iff {script : String} {place : Nat} {c : Call} :
    (∃ w, c.CompilesTo script place w) ↔ c.WellFormed := by
  have expected : (∃ ts, Option.Rel (List.Forall₂ fun name type => VarType.parse? name = some type)
      c.expect ts) ↔ c.WellFormed := by
    simp only [exists_rel_iff, exists_forall₂_iff, ← Option.isSome_iff_exists]
    rfl
  constructor
  · rintro ⟨w, h⟩
    exact expected.mp ⟨_, h.expected⟩
  · intro h
    obtain ⟨ts, known⟩ := expected.mpr h
    exact ⟨⟨c.function, c.args.map (Term.toExpr (c.position place)), ts,
      ⟨some script, c.position place⟩⟩, rfl, rfl, known, rfl⟩

theorem compileFunctions_isOk_iff {line : Nat} {fs : List Function} :
    (∃ gs, compileFunctions line [] fs = .ok gs) ↔
      (fs.map (·.name)).Nodup ∧ ∀ f ∈ fs, f.WellFormed := by
  simp only [compileFunctions_eq_ok_iff, List.disjoint_nil_right, and_true, exists_and_left,
    exists_forall₂_iff, Function.exists_compilesTo_iff]
  rw [forall_mem_zipIdx_fst]

theorem compileCalls_isOk_iff {script : String} {place : Nat} {cs : List Call} :
    (∃ ws, compileCalls script place cs = .ok ws) ↔ ∀ c ∈ cs, c.WellFormed := by
  simp only [compileCalls_eq_ok_iff, exists_forall₂_iff, Call.exists_compilesTo_iff]
  rw [forall_mem_zipIdx_fst]

theorem compileTriggers_isOk_iff {script : String} {place : Nat} {ts : List Trigger} :
    (∃ us, compileTriggers script place ts = .ok us) ↔
      ∀ t ∈ ts, ∀ c ∈ t.calls, c.WellFormed := by
  induction ts generalizing place with
  | nil => exact iff_of_true ⟨[], rfl⟩ nofun
  | cons t ts ih =>
    rw [List.forall_mem_cons, ← compileCalls_isOk_iff, ← ih]
    simp only [compileTriggers, bind_eq_ok_iff]
    constructor
    · rintro ⟨_, ws, first, us, rest, -⟩
      exact ⟨⟨ws, first⟩, us, rest⟩
    · rintro ⟨⟨ws, first⟩, us, rest⟩
      exact ⟨_, ws, first, us, rest, rfl⟩

theorem compile_isOk_iff {script : String} {m : Manifest} :
    (∃ s, m.compile script = .ok s) ↔ m.WellFormed := by
  simp only [compile, bind_eq_ok_iff]
  constructor
  · rintro ⟨_, gs, functions, us, triggers, -⟩
    obtain ⟨distinct, each⟩ := compileFunctions_isOk_iff.mp ⟨gs, functions⟩
    exact ⟨distinct, each, compileTriggers_isOk_iff.mp ⟨us, triggers⟩⟩
  · rintro ⟨distinct, functions, calls⟩
    obtain ⟨gs, compiled⟩ := compileFunctions_isOk_iff.mpr ⟨distinct, functions⟩
    obtain ⟨us, triggers⟩ := compileTriggers_isOk_iff.mpr calls
    exact ⟨_, gs, compiled, us, triggers, rfl⟩

theorem CompilesTo.defaults_fit {script : String} {m : Manifest} {s : Script Point}
    (h : m.CompilesTo script s) {g : ScriptFunction Point} (hg : g ∈ s.functions)
    {q : LiveCalls.Parameter Point} (hq : q ∈ g.signature.parameters) {cs : List Constant}
    (hd : q.default = some cs) :
    cs ≠ [] ∧ (q.isSingle → cs.length = 1) ∧ ∀ c ∈ cs, c.isA q.type := by
  obtain ⟨f, -, compiled⟩ := exists_mem_of_forall₂ h.functions hg
  obtain ⟨p, -, parameter⟩ := exists_mem_of_forall₂ compiled.parameters hq
  obtain ⟨t, -, values⟩ := parameter.default_of_some hd
  exact values.fit

/-- A manifest is a script if and only if it is well-formed. The script has its functions with their
parameters, its triggers and its calls, each in its own place and none left out, and every default
has a value, not more than one for a single parameter, and values of the type of the parameter
only. -/
theorem compiles_iff_wellFormed (script : String) (m : Manifest) :
    ((∃ s, m.compile script = .ok s) ↔ m.WellFormed) ∧
      ∀ s, m.compile script = .ok s → m.CompilesTo script s ∧
        ∀ g ∈ s.functions, ∀ q ∈ g.signature.parameters, ∀ cs ∈ q.default,
          cs ≠ [] ∧ (q.isSingle → cs.length = 1) ∧ ∀ c ∈ cs, c.isA q.type := by
  refine ⟨compile_isOk_iff, fun s h => ?_⟩
  have compiled := compile_eq_ok h
  exact ⟨compiled, fun g hg q hq cs hd => compiled.defaults_fit hg hq hd⟩

/-- The values of a default that is a list of lists fit, a text among them too. -/
theorem compiles_iff_wellFormed_lists :
    ∃ s, compile "main.json" ⟨[⟨"f", [⟨"xs", "num", true,
        some (.list [.one (.num 1), .many [.str " 2 "]])⟩], none, none⟩], []⟩ = .ok s ∧
      ∀ g ∈ s.functions, ∀ q ∈ g.signature.parameters, ∀ cs ∈ q.default,
        cs ≠ [] ∧ (q.isSingle → cs.length = 1) ∧ ∀ c ∈ cs, c.isA q.type := by
  let t : Term := .list [.one (.num 1), .many [.str " 2 "]]
  have default : t.WellFormed .num .multiple := by
    refine ⟨rfl, List.cons_ne_nil _ _, nofun, ?_⟩
    rintro k (_ | ⟨_, _ | ⟨_, _ | _⟩⟩) <;> rfl
  have parameter : Parameter.WellFormed ⟨"xs", "num", true, some t⟩ := by
    have known : VarType.parse? "num" = some .num := by cbv
    refine ⟨by rw [known]; rfl, ?_⟩
    rintro _ ⟨⟩ type named
    rw [known] at named
    cases named
    exact default
  have function : Function.WellFormed ⟨"f", [⟨"xs", "num", true, some t⟩], none, none⟩ :=
    ⟨by decide, by decide, List.nodup_singleton _, List.forall_mem_singleton.mpr parameter, nofun⟩
  have accepted := compiles_iff_wellFormed "main.json"
    ⟨[⟨"f", [⟨"xs", "num", true, some t⟩], none, none⟩], []⟩
  obtain ⟨s, compiled⟩ := accepted.1.mpr
    ⟨List.nodup_singleton _, List.forall_mem_singleton.mpr function, nofun⟩
  exact ⟨s, compiled, (accepted.2 s compiled).2⟩

end Manifest

end LiveCalls
