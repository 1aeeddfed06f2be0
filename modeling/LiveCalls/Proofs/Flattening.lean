import LiveCalls.Proofs.Isolation
import LiveCalls.Proofs.Terms
import Mathlib.Data.List.Forall2

/-!
# Two readings of a term

A term has constants and variables at the bottom of its lists. A default reads it by collecting the
constants into one list, and stops at the first variable. A body or an argument reads it as an
expression, which is evaluated item by item. Both go through the term in the same order, so that
they agree where it is constant.
-/

namespace LiveCalls

open Value (Hold)

namespace Manifest

/-- A constant or a variable at the bottom of a term. -/
inductive Part where
  | constant (value : Constant)
  | var (name : String)

/-- What a part adds to the values of a term: one value that is the constant, or all the values that
the variable holds. -/
def Part.Gives (ctx : Context) (h : Heap) : Part → List Value → Prop
  | constant value, vs => Hold h vs [value]
  | var name, vs => vs = ctx.get name

/-- The values are those that the parts give, one after the other. -/
def Spells (ctx : Context) (h : Heap) (ps : List Part) (vs : List Value) : Prop :=
  ∃ rows, List.Forall₂ (Part.Gives ctx h) ps rows ∧ vs = rows.flatten

section
variable {ctx : Context} {h h' : Heap} {ps qs : List Part} {vs ws : List Value}
  {cs : List Constant}

theorem Part.Gives.extend {p : Part} (gives : p.Gives ctx h vs) (he : h.Extends h') :
    p.Gives ctx h' vs := by
  cases p with
  | constant value => exact Hold.extend gives he
  | var name => exact gives

theorem Spells.nil : Spells ctx h [] [] := ⟨[], .nil, rfl⟩

theorem Spells.cons {p : Part} (first : p.Gives ctx h vs) (rest : Spells ctx h ps ws) :
    Spells ctx h (p :: ps) (vs ++ ws) := by
  obtain ⟨rows, gives, rfl⟩ := rest
  exact ⟨vs :: rows, .cons first gives, rfl⟩

theorem Spells.extend (spells : Spells ctx h ps vs) (he : h.Extends h') : Spells ctx h' ps vs := by
  obtain ⟨rows, gives, same⟩ := spells
  exact ⟨rows, gives.imp fun _ _ row => row.extend he, same⟩

theorem Spells.append (a : Spells ctx h ps vs) (b : Spells ctx h qs ws) :
    Spells ctx h (ps ++ qs) (vs ++ ws) := by
  obtain ⟨rows, first, rfl⟩ := a
  obtain ⟨more, rest, rfl⟩ := b
  exact ⟨rows ++ more, List.rel_append first rest, List.flatten_append.symm⟩

theorem spells_constants_iff : Spells ctx h (cs.map .constant) vs ↔ Hold h vs cs := by
  induction cs generalizing vs with
  | nil =>
    constructor
    · rintro ⟨_, ⟨⟩, rfl⟩
      exact ⟨nofun, rfl⟩
    · rintro ⟨-, same⟩
      cases List.map_eq_nil_iff.mp same
      exact .nil
  | cons c cs ih =>
    constructor
    · rintro ⟨_, _ | ⟨first, rest⟩, rfl⟩
      exact Hold.append first (ih.mp ⟨_, rest, rfl⟩)
    · rintro ⟨inHeap, same⟩
      obtain ⟨v, vs, rfl, rfl, rest⟩ := List.map_eq_cons_iff.mp same
      obtain ⟨here, there⟩ := List.forall_mem_cons.mp inHeap
      have first : (Part.constant (v.constant h)).Gives ctx h [v] :=
        Hold.self (List.forall_mem_singleton.mpr here)
      exact Spells.cons first (ih.mpr ⟨there, rest⟩)

end

namespace Term

mutual

/-- The parts of a term, in order. -/
def parts : Term → List Part
  | one value => [.constant value]
  | many values => values.map .constant
  | var name => [.var name]
  | list items => partsAll items

def partsAll : List Term → List Part
  | [] => []
  | t :: ts => t.parts ++ partsAll ts

end

mutual

theorem parts_of_constant : (t : Term) → t.vars = [] → t.parts = t.leaves.map .constant
  | one _, _ | many _, _ => rfl
  | var _, h => by cases h
  | list items, h => partsAll_of_constant items h

theorem partsAll_of_constant : (ts : List Term) → varsAll ts = [] →
    partsAll ts = (leavesAll ts).map .constant
  | [], _ => rfl
  | t :: ts, h => by
    obtain ⟨first, rest⟩ := List.append_eq_nil_iff.mp h
    rw [partsAll, leavesAll, parts_of_constant t first, partsAll_of_constant ts rest,
      List.map_append]

end

mutual

/-- Adds the constants in a term to a list. A variable stops it, and what was added before stays in
the list. -/
def collect : Term → List Constant → Except String Unit × List Constant
  | one value, out => (.ok (), out ++ [value])
  | many values, out => (.ok (), out ++ values)
  | var name, out => (.error name, out)
  | list items, out => collectAll items out

def collectAll : List Term → List Constant → Except String Unit × List Constant
  | [], out => (.ok (), out)
  | t :: ts, out =>
    match t.collect out with
    | (.ok (), out) => collectAll ts out
    | (.error name, out) => (.error name, out)

end

mutual

/-- What is collected from a term comes after what was collected before, and is all its constants
unless there is a variable in it. -/
theorem collect_eq : (t : Term) → (out : List Constant) →
    ∃ added, t.collect out = (t.constants.map fun _ => (), out ++ added) ∧
      ∀ cs, t.constants = .ok cs → added = cs
  | one value, _ => ⟨[value], rfl, fun _ h => Except.ok.inj h⟩
  | many values, _ => ⟨values, rfl, fun _ h => Except.ok.inj h⟩
  | var _, out => ⟨[], congrArg _ (List.append_nil out).symm, nofun⟩
  | list items, out => collectAll_eq items out

theorem collectAll_eq : (ts : List Term) → (out : List Constant) →
    ∃ added, collectAll ts out = ((constantsOf ts).map fun _ => (), out ++ added) ∧
      ∀ cs, constantsOf ts = .ok cs → added = cs
  | [], out => ⟨[], congrArg _ (List.append_nil out).symm, fun _ h => Except.ok.inj h⟩
  | t :: ts, out => by
    obtain ⟨added, first, all⟩ := collect_eq t out
    rw [collectAll, first, constantsOf]
    cases ht : t.constants with
    | error name => exact ⟨added, rfl, nofun⟩
    | ok cs =>
      obtain rfl := all cs ht
      -- the later terms find the constants of this one among those collected before
      obtain ⟨more, rest, allMore⟩ := collectAll_eq ts (out ++ added)
      cases hts : constantsOf ts with
      | error name =>
        rw [hts, List.append_assoc] at rest
        exact ⟨added ++ more, rest, nofun⟩
      | ok ds =>
        rw [hts, allMore ds hts, List.append_assoc] at rest
        exact ⟨added ++ ds, rest, fun _ h => Except.ok.inj h⟩

end

mutual

/-- The values of a term are those of its parts, one after the other. -/
theorem eval_spells (ctx : Context) (pos : Position) : (t : Term) → (h : Heap) →
    Spells ctx ((t.toExpr pos).eval ctx h).2 t.parts ((t.toExpr pos).eval ctx h).1
  | one value, h => spells_constants_iff.mpr (Value.placeAll_yields [value] h).hold
  | many values, h => spells_constants_iff.mpr (Value.placeAll_yields values h).hold
  | var name, _ => ⟨[ctx.get name], .cons rfl .nil, (List.append_nil _).symm⟩
  | list items, h => evalItems_spells ctx pos items h

theorem evalItems_spells (ctx : Context) (pos : Position) : (ts : List Term) → (h : Heap) →
    Spells ctx (Expr.evalItems ctx (toExprs pos ts) h).2 (partsAll ts)
      (Expr.evalItems ctx (toExprs pos ts) h).1
  | [], _ => .nil
  | t :: ts, h =>
    -- what comes later only adds cells, and so leaves the values of this term as they are
    ((eval_spells ctx pos t h).extend (Expr.evalItems_extends ctx _ _)).append
      (evalItems_spells ctx pos ts _)

end

/-- The readings of a term agree. Its constants can be told if and only if there is no variable in
it at any depth; then collecting adds just these to what was collected before, and they are the
values of its expression, in order, at every position and in every context. The values of the
expression of any term are its constants and the values of its variables, in order. -/
theorem readings_agree (t : Term) :
    ((∃ cs, t.constants = .ok cs) ↔ t.vars = []) ∧
      (∀ out, (t.collect out).1 = t.constants.map fun _ => ()) ∧
      (∀ cs, t.constants = .ok cs →
        (∀ out, (t.collect out).2 = out ++ cs) ∧
          ∀ pos ctx h, let out := (t.toExpr pos).eval ctx h
            out.1.map (Value.constant out.2) = cs) ∧
      ∀ pos ctx h, let out := (t.toExpr pos).eval ctx h
        Spells ctx out.2 t.parts out.1 := by
  refine ⟨?_, fun out => ?_, fun cs told => ⟨fun out => ?_, fun pos ctx h => ?_⟩,
    fun pos ctx h => eval_spells ctx pos t h⟩
  · rw [constants_eq]
    cases t.vars <;> simp
  · obtain ⟨added, run, -⟩ := collect_eq t out
    rw [run]
  · obtain ⟨added, run, all⟩ := collect_eq t out
    rw [run, all cs told]
  · rw [constants_eq] at told
    split at told
    · cases told
    · rename_i constant
      cases told
      have spells := eval_spells ctx pos t h
      rw [parts_of_constant t constant, spells_constants_iff] at spells
      exact spells.constants

/-- A number, then a list with two texts, an empty list and a location in it. -/
def nested : Term :=
  .list [.one (.num 1), .list [.many [.str "a", .str "b"], .list [], .one (.loc ⟨0, 1, 2⟩)]]

/-- The constants of the nested term are its values, whatever the variables hold. -/
theorem readings_agree_nested :
    let ctx := Context.empty.set "x" [.bool true]
    let out := (nested.toExpr ⟨3, 1⟩).eval ctx .empty
    nested.constants = .ok [.num 1, .str "a", .str "b", .loc ⟨0, 1, 2⟩] ∧
      (nested.collect [.num 0]).2 = [.num 0, .num 1, .str "a", .str "b", .loc ⟨0, 1, 2⟩] ∧
      out.1.map (Value.constant out.2) = [.num 1, .str "a", .str "b", .loc ⟨0, 1, 2⟩] := by
  have agree := (readings_agree nested).2.2.1 _ rfl
  exact ⟨rfl, agree.1 _, agree.2 _ _ _⟩

end Term

end Manifest

end LiveCalls
