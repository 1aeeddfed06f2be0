import LiveCalls.Proofs.Compilation
import LiveCalls.Proofs.Conversion
import LiveCalls.Proofs.Reading

namespace LiveCalls

/-- An expression without variables, which has these constants as its values in every context. -/
structure Expr.IsConstant (e : Expr) (cs : List Constant) : Prop where
  vars : e.varsIn = []
  constants : e.constantsIn = cs
  denote : ∀ vars, e.denote vars = cs

/-- A constant expression that is written converts if its constants do, and then has as its values
what they become. -/
theorem Expr.IsConstant.convert {e : Expr} {ks cs : List Constant} (h : e.IsConstant ks)
    (written : e.isWritten) {t : VarType} (converts : Constant.convertAll t ks = .ok cs) :
    ∃ b, e.convert t = .ok b ∧ ∀ vars, b.denote vars = cs := by
  obtain ⟨fits, rfl⟩ := Constant.convertAll_eq_ok_iff.mp converts
  have clear : e.obstacles t = [] := by
    rw [e.obstacles_eq_nil_iff written, h.constants, h.vars]
    exact ⟨fits, List.forall_mem_nil _⟩
  obtain ⟨b, hb⟩ := (e.convert_stops t).isOk_iff.mpr clear
  refine ⟨b, hb, fun vars => ?_⟩
  have typed : e.Typed vars := by
    intro x hx
    rw [h.vars] at hx
    cases hx
  rw [e.denote_convert written hb typed, Expr.denoteAs, h.denote]
  exact Expr.filterMap_convert_of_isSome fits

namespace Manifest

mutual

theorem Term.toExpr_constants (pos : Position) : (t : Term) → t.vars = [] →
    (t.toExpr pos).IsConstant t.leaves
  | one _, _ | many _, _ => ⟨rfl, rfl, fun _ => rfl⟩
  | var name, constant => by cases constant
  | list items, constant => by
    obtain ⟨vars, constants, denote⟩ := Term.toExprs_constants pos items constant
    exact ⟨vars, constants, denote⟩

theorem Term.toExprs_constants (pos : Position) : (ts : List Term) → varsAll ts = [] →
    Expr.varsInAll (toExprs pos ts) = [] ∧ Expr.constantsInAll (toExprs pos ts) = leavesAll ts ∧
      ∀ vars, Expr.denoteItems vars (toExprs pos ts) = leavesAll ts
  | [], _ => ⟨rfl, rfl, fun _ => rfl⟩
  | t :: ts, constant => by
    obtain ⟨first, later⟩ := List.append_eq_nil_iff.mp constant
    obtain ⟨vars, constants, denote⟩ := Term.toExpr_constants pos t first
    obtain ⟨varsRest, constantsRest, denoteRest⟩ := Term.toExprs_constants pos ts later
    refine ⟨?_, ?_, fun values => ?_⟩
    · rw [toExprs, Expr.varsInAll, vars, varsRest, List.append_nil]
    · rw [toExprs, Expr.constantsInAll, constants, constantsRest, leavesAll]
    · rw [toExprs, Expr.denoteItems, denote, denoteRest, leavesAll]

end

theorem convertAll_of_forall₂ {type : VarType} {ks cs : List Constant}
    (h : List.Forall₂ (fun k c => Datum.convert? id type k = some c) ks cs) :
    Constant.convertAll type ks = .ok cs := by
  induction h with
  | nil => rfl
  | cons first _ ih =>
    simp only [Constant.convertAll, first, ih]
    rfl

/-- The expression of a default converts to the type of its parameter, and then has the values of
the default in every context. -/
theorem Term.Defaults.toExpr {t : Term} {type : VarType} {cardinality : Cardinality}
    {cs : List Constant} (h : t.Defaults type cardinality cs) (pos : Position) :
    ∃ b, (t.toExpr pos).convert type = .ok b ∧ ∀ vars, b.denote vars = cs :=
  (t.toExpr_constants pos h.constant).convert (t.isWritten_toExpr pos)
    (convertAll_of_forall₂ h.converts)

/-- The defaults that are written for parameters, as arguments. -/
def writtenDefaults (pos : Position) (ps : List Parameter) : List Expr :=
  ps.filterMap fun p => p.default.map (Term.toExpr pos)

/-- Where all parameters have defaults one is written for each, and as arguments they convert to
what the defaults are. -/
theorem defaults_convert {ps : List Parameter} {qs : List (LiveCalls.Parameter Point)}
    (compiled : List.Forall₂ Parameter.CompilesTo ps qs) (all : ∀ q ∈ qs, q.default.isSome)
    (pos : Position) :
    (∀ p ∈ ps, p.default.isSome) ∧
      ∃ bs, List.Forall₂ (fun arg b => arg.1.convert arg.2 = .ok b)
          ((writtenDefaults pos ps).zip (qs.map (·.type))) bs ∧
        ∀ vars, qs.map (·.default) = bs.map fun b => some (b.denote vars) := by
  induction compiled with
  | nil => exact ⟨nofun, [], .nil, fun _ => rfl⟩
  | @cons p q ps qs first _ ih =>
    obtain ⟨present, later⟩ := List.forall_mem_cons.mp all
    obtain ⟨written, bs, converts, values⟩ := ih later
    obtain ⟨cs, hq⟩ := Option.isSome_iff_exists.mp present
    obtain ⟨t, hp, value⟩ := first.default_of_some hq
    obtain ⟨b, convert, denote⟩ := value.toExpr pos
    have args : writtenDefaults pos (p :: ps) = t.toExpr pos :: writtenDefaults pos ps := by
      simp [writtenDefaults, hp]
    refine ⟨List.forall_mem_cons.mpr ⟨by rw [hp]; rfl, written⟩, b :: bs, ?_, fun vars => ?_⟩
    · rw [args]
      exact .cons convert converts
    · rw [List.map_cons, List.map_cons, hq, denote, values vars]

theorem length_writtenDefaults {ps : List Parameter} (all : ∀ p ∈ ps, p.default.isSome)
    (pos : Position) : (writtenDefaults pos ps).length = ps.length := by
  induction ps with
  | nil => rfl
  | cons p ps ih =>
    obtain ⟨first, later⟩ := List.forall_mem_cons.mp all
    obtain ⟨t, hp⟩ := Option.isSome_iff_exists.mp first
    simp only [writtenDefaults, List.filterMap_cons, hp, Option.map_some, List.length_cons] at ih ⊢
    rw [ih later]

end Manifest

end LiveCalls
