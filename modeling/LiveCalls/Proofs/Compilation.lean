import LiveCalls.Proofs.Recast
import LiveCalls.Proofs.Terms
import LiveCalls.Proofs.Validation
import Mathlib.Data.List.Forall2
import Mathlib.Data.List.Nodup

/-!
# What a manifest compiles to

Every part of a manifest is compiled by itself, in the order of the file, and nothing is left out.
What a part compiles to is told by a relation for each kind of part. That the names of functions and
of parameters are different is the one thing that is seen from several parts together.
-/

namespace LiveCalls

/-- Every member of a list has a counterpart if and only if there is a list of counterparts. -/
theorem exists_forall₂_iff {α β : Type} {R : α → β → Prop} {xs : List α} :
    (∃ ys, List.Forall₂ R xs ys) ↔ ∀ x ∈ xs, ∃ y, R x y := by
  induction xs with
  | nil => simp
  | cons x xs ih =>
    rw [List.forall_mem_cons, ← ih]
    constructor
    · rintro ⟨_, _ | ⟨first, rest⟩⟩
      exact ⟨⟨_, first⟩, _, rest⟩
    · rintro ⟨⟨y, first⟩, ys, rest⟩
      exact ⟨y :: ys, .cons first rest⟩

theorem exists_rel_iff {α β : Type} {R : α → β → Prop} {x : Option α} :
    (∃ y, Option.Rel R x y) ↔ ∀ a ∈ x, ∃ b, R a b := by
  cases x with
  | none => exact iff_of_true ⟨none, .none⟩ nofun
  | some a =>
    constructor
    · rintro ⟨_, ⟨related⟩⟩ _ ⟨⟩
      exact ⟨_, related⟩
    · intro all
      obtain ⟨b, related⟩ := all a rfl
      exact ⟨some b, .some related⟩

theorem exists_mem_of_forall₂ {α β : Type} {R : α → β → Prop} {xs : List α} {ys : List β} {y : β}
    (h : List.Forall₂ R xs ys) (hy : y ∈ ys) : ∃ x ∈ xs, R x y := by
  obtain ⟨i, hi, rfl⟩ := List.getElem_of_mem hy
  have hx : i < xs.length := h.length_eq ▸ hi
  exact ⟨xs[i], List.getElem_mem hx, h.get hx hi⟩

theorem mapM_eq_ok_iff {ε α β : Type} {f : α → Except ε β} {xs : List α} {ys : List β} :
    xs.mapM f = .ok ys ↔ List.Forall₂ (fun x y => f x = .ok y) xs ys := by
  induction xs generalizing ys with
  | nil =>
    rw [List.mapM_nil, List.forall₂_nil_left_iff]
    exact ⟨fun same => (Except.ok.inj same).symm, fun same => same ▸ rfl⟩
  | cons x xs ih =>
    simp only [List.mapM_cons, bind_eq_ok_iff, ih, List.forall₂_cons_left_iff]
    constructor
    · rintro ⟨y, first, ys, rest, same⟩
      cases same
      exact ⟨y, ys, first, rest, rfl⟩
    · rintro ⟨y, ys, first, rest, rfl⟩
      exact ⟨y, first, ys, rest, rfl⟩

/-- Names are different from each other and from earlier ones if the first is different from the
earlier ones, and the others are so with the first among the earlier ones. -/
theorem nodup_disjoint_cons {name : String} {names earlier : List String} :
    (name :: names).Nodup ∧ (name :: names).Disjoint earlier ↔
      name ∉ earlier ∧ names.Nodup ∧ names.Disjoint (name :: earlier) := by
  rw [List.nodup_cons, List.disjoint_cons_left, List.disjoint_cons_right]
  constructor
  · rintro ⟨⟨first, rest⟩, old, apart⟩
    exact ⟨old, rest, first, apart⟩
  · rintro ⟨old, rest, first, apart⟩
    exact ⟨⟨first, rest⟩, old, apart⟩

namespace Manifest

theorem typeNamed_eq_ok_iff {name : String} {use : TypeUse} {type : VarType} :
    typeNamed name use = .ok type ↔ VarType.parse? name = some type := by
  unfold typeNamed
  cases VarType.parse? name <;> simp

theorem typesNamed_eq_ok_iff {use : TypeUse} {names : List String} {types : List VarType} :
    typesNamed use names = .ok types ↔
      List.Forall₂ (fun name type => VarType.parse? name = some type) names types := by
  induction names generalizing types with
  | nil =>
    rw [typesNamed, List.forall₂_nil_left_iff, Except.ok.injEq]
    exact eq_comm
  | cons name names ih =>
    simp only [typesNamed, bind_eq_ok_iff, typeNamed_eq_ok_iff, ih, List.forall₂_cons_left_iff]
    constructor
    · rintro ⟨type, first, types, rest, same⟩
      cases same
      exact ⟨type, types, first, rest, rfl⟩
    · rintro ⟨type, types, first, rest, rfl⟩
      exact ⟨type, first, types, rest, rfl⟩

/-- A term gives a parameter its default: it is constant, it has a value, and not more than one for
a single parameter, and each value converts to the type of the parameter. -/
structure Term.Defaults (t : Term) (type : VarType) (cardinality : Cardinality)
    (cs : List Constant) : Prop where
  constant : t.vars = []
  nonempty : t.leaves ≠ []
  single : cardinality.isSingle → t.leaves.length ≤ 1
  converts : List.Forall₂ (fun k c => Datum.convert? id type k = some c) t.leaves cs

theorem defaultValues_eq_ok_iff {t : Term} {type : VarType} {cardinality : Cardinality}
    {cs : List Constant} :
    defaultValues t type cardinality = .ok cs ↔ t.Defaults type cardinality cs := by
  rw [defaultValues, Term.constants_eq]
  cases hv : t.vars with
  | cons name names =>
    refine iff_of_false (fun h => by cases h) fun h => ?_
    rw [h.constant] at hv
    cases hv
  | nil =>
    dsimp only
    split
    · rename_i empty
      refine iff_of_false (fun h => by cases h) fun h => ?_
      exact h.nonempty (List.isEmpty_iff.mp empty)
    · rename_i nonempty
      split
      · rename_i several
        rw [Bool.and_eq_true, decide_eq_true_eq] at several
        refine iff_of_false (fun h => by cases h) fun h => ?_
        exact absurd (h.single several.1) (Nat.not_le_of_lt several.2)
      · rename_i few
        rw [mapM_eq_ok_iff]
        constructor
        · intro each
          refine ⟨hv, fun none => nonempty (List.isEmpty_iff.mpr none), fun single => ?_, ?_⟩
          · simpa [single] using few
          · refine each.imp fun k c value => ?_
            split at value
            · rename_i converted
              cases value
              exact converted
            · cases value
        · rintro ⟨-, -, -, converts⟩
          exact converts.imp fun k c converted => by rw [converted]

structure Parameter.CompilesTo (p : Parameter) (q : LiveCalls.Parameter Point) : Prop where
  name : q.name = p.name
  type : VarType.parse? p.type = some q.type
  cardinality : q.cardinality = .ofMultiple p.multiple
  default : Option.Rel (Term.Defaults · q.type q.cardinality ·) p.default q.default

theorem Parameter.CompilesTo.default_of_some {p : Parameter} {q : LiveCalls.Parameter Point}
    (h : p.CompilesTo q) {cs : List Constant} (hq : q.default = some cs) :
    ∃ t, p.default = some t ∧ t.Defaults q.type q.cardinality cs := by
  have related := h.default
  rw [hq] at related
  generalize p.default = written at related
  cases related with
  | some values => exact ⟨_, rfl, values⟩

theorem Parameter.compile_eq_ok_iff {function : String} {p : Parameter}
    {q : LiveCalls.Parameter Point} : p.compile function = .ok q ↔ p.CompilesTo q := by
  unfold Parameter.compile
  simp only [bind_eq_ok_iff, typeNamed_eq_ok_iff]
  constructor
  · rintro ⟨type, known, h⟩
    cases hd : p.default with
    | none =>
      simp only [hd] at h
      cases h
      exact ⟨rfl, known, rfl, by rw [hd]; exact .none⟩
    | some t =>
      simp only [hd] at h
      split at h
      · cases h
      · rename_i cs values
        cases h
        exact ⟨rfl, known, rfl, by rw [hd]; exact .some (defaultValues_eq_ok_iff.mp values)⟩
  · obtain ⟨name, type, cardinality, default⟩ := q
    rintro ⟨rfl, known, rfl, related⟩
    refine ⟨type, known, ?_⟩
    cases hd : p.default with
    | none =>
      rw [hd] at related
      cases related
      rfl
    | some t =>
      rw [hd] at related
      cases related with
      | some values => simp only [defaultValues_eq_ok_iff.mpr values]

theorem compileParameters_eq_ok_iff {function : String} {earlier : List String}
    {ps : List Parameter} {qs : List (LiveCalls.Parameter Point)} :
    compileParameters function earlier ps = .ok qs ↔
      ((ps.map (·.name)).Nodup ∧ (ps.map (·.name)).Disjoint earlier) ∧
        List.Forall₂ Parameter.CompilesTo ps qs := by
  induction ps generalizing earlier qs with
  | nil => simp [compileParameters, eq_comm]
  | cons p ps ih =>
    rw [compileParameters, List.map_cons, nodup_disjoint_cons, List.forall₂_cons_left_iff]
    split
    · rename_i again
      exact iff_of_false (fun h => by cases h) fun h => h.1.1 again
    · rename_i new
      simp only [bind_eq_ok_iff, Parameter.compile_eq_ok_iff, ih]
      constructor
      · rintro ⟨q, first, qs, ⟨distinct, rest⟩, same⟩
        cases same
        exact ⟨⟨new, distinct⟩, q, qs, first, rest, rfl⟩
      · rintro ⟨⟨-, distinct⟩, q, qs, first, rest, rfl⟩
        exact ⟨q, first, qs, ⟨distinct, rest⟩, rfl⟩

/-- What is declared to be returned. -/
structure Return.CompilesTo (r : Return) (u : Result) : Prop where
  type : VarType.parse? r.type = some u.type
  cardinality : u.cardinality = .ofMultiple r.multiple

theorem compileReturn_eq_ok_iff {function : String} {r : Option Return} {u : Option Result} :
    compileReturn function r = .ok u ↔ Option.Rel Return.CompilesTo r u := by
  cases r with
  | none =>
    cases u with
    | none => exact iff_of_true rfl .none
    | some u => exact iff_of_false (fun h => by cases h) nofun
  | some r =>
    simp only [compileReturn, bind_eq_ok_iff, typeNamed_eq_ok_iff]
    constructor
    · rintro ⟨type, known, same⟩
      cases same
      exact .some ⟨known, rfl⟩
    · intro related
      cases related with
      | some declared => exact ⟨_, declared.type, by rw [← declared.cardinality]⟩

/-- What a function compiles to whose body is placed at `pos`. -/
structure Function.CompilesTo (pos : Position) (f : Function) (g : ScriptFunction Point) :
    Prop where
  named : f.name ≠ ""
  custom : Builtin.isName f.name = false
  distinct : (f.params.map (·.name)).Nodup
  name : g.signature.name = f.name
  parameters : List.Forall₂ Parameter.CompilesTo f.params g.signature.parameters
  result : Option.Rel Return.CompilesTo f.returns g.signature.result
  body : g.body = f.body.map (Term.toExpr pos)

theorem Function.compile_eq_ok_iff {pos : Position} {f : Function} {g : ScriptFunction Point} :
    f.compile pos = .ok g ↔ f.CompilesTo pos g := by
  unfold Function.compile
  split
  · rename_i unnamed
    exact iff_of_false (fun h => by cases h) fun h => h.named unnamed
  · rename_i named
    split
    · rename_i builtin
      refine iff_of_false (fun h => by cases h) fun h => ?_
      rw [h.custom] at builtin
      cases builtin
    · rename_i custom
      simp only [bind_eq_ok_iff, compileParameters_eq_ok_iff, compileReturn_eq_ok_iff,
        List.disjoint_nil_right, and_true]
      constructor
      · rintro ⟨qs, ⟨distinct, parameters⟩, u, result, same⟩
        cases same
        exact ⟨named, Bool.eq_false_iff.mpr custom, distinct, rfl, parameters, result, rfl⟩
      · obtain ⟨⟨name, parameters, result⟩, body⟩ := g
        rintro ⟨-, -, distinct, rfl, related, returned, rfl⟩
        exact ⟨parameters, ⟨distinct, related⟩, result, returned, rfl⟩

/-- Each function is compiled by itself, its body on the line that is its place in the file. -/
theorem compileFunctions_eq_ok_iff {line : Nat} {earlier : List String} {fs : List Function}
    {gs : List (ScriptFunction Point)} :
    compileFunctions line earlier fs = .ok gs ↔
      ((fs.map (·.name)).Nodup ∧ (fs.map (·.name)).Disjoint earlier) ∧
        List.Forall₂ (fun f g => f.1.CompilesTo ⟨f.2, 1⟩ g) (fs.zipIdx line) gs := by
  induction fs generalizing line earlier gs with
  | nil => simp [compileFunctions, eq_comm]
  | cons f fs ih =>
    simp only [compileFunctions, bind_eq_ok_iff, Function.compile_eq_ok_iff]
    rw [List.map_cons, nodup_disjoint_cons, List.zipIdx_cons, List.forall₂_cons_left_iff]
    constructor
    · rintro ⟨g, first, h⟩
      split at h
      · cases h
      · rename_i new
        obtain ⟨gs, rest, same⟩ := bind_eq_ok_iff.mp h
        cases same
        obtain ⟨distinct, later⟩ := ih.mp rest
        exact ⟨⟨new, distinct⟩, g, gs, first, later, rfl⟩
    · rintro ⟨⟨new, distinct⟩, g, gs, first, later, rfl⟩
      refine ⟨g, first, ?_⟩
      rw [if_neg new]
      exact bind_eq_ok_iff.mpr ⟨gs, ih.mpr ⟨distinct, later⟩, rfl⟩

/-- Where a call is: on the line that is given for it, or else on that of its place. -/
def Call.position (place : Nat) (c : Call) : Position :=
  ⟨match c.line with | some n => n.toNat | none => place, 1⟩

structure Call.CompilesTo (script : String) (place : Nat) (c : Call) (w : WrittenCall) : Prop where
  function : w.function = c.function
  arguments : w.arguments = c.args.map (Term.toExpr (c.position place))
  expected : Option.Rel (List.Forall₂ fun name type => VarType.parse? name = some type)
    c.expect w.expected
  site : w.site = ⟨some script, c.position place⟩

theorem Term.toExprs_eq_map (pos : Position) (ts : List Term) :
    toExprs pos ts = ts.map (toExpr pos) := by
  induction ts with
  | nil => rfl
  | cons t ts ih => rw [toExprs, List.map_cons, ih]

theorem Call.compile_eq_ok_iff {script : String} {place : Nat} {c : Call} {w : WrittenCall} :
    c.compile script place = .ok w ↔ c.CompilesTo script place w := by
  simp only [Call.compile, Term.toExprs_eq_map]
  obtain ⟨function, arguments, expected, site⟩ := w
  cases he : c.expect with
  | none =>
    constructor
    · intro h
      cases h
      exact ⟨rfl, rfl, by rw [he]; exact .none, rfl⟩
    · rintro ⟨rfl, rfl, related, rfl⟩
      rw [he] at related
      cases related
      rfl
  | some names =>
    simp only [bind_eq_ok_iff, map_eq_ok_iff, typesNamed_eq_ok_iff]
    constructor
    · rintro ⟨_, ⟨types, known, rfl⟩, same⟩
      cases same
      exact ⟨rfl, rfl, by rw [he]; exact .some known, rfl⟩
    · rintro ⟨rfl, rfl, related, rfl⟩
      rw [he] at related
      cases related with
      | some known => exact ⟨_, ⟨_, known, rfl⟩, rfl⟩

theorem compileCalls_eq_ok_iff {script : String} {place : Nat} {cs : List Call}
    {ws : List WrittenCall} :
    compileCalls script place cs = .ok ws ↔
      List.Forall₂ (fun c w => c.1.CompilesTo script c.2 w) (cs.zipIdx place) ws := by
  induction cs generalizing place ws with
  | nil => simp [compileCalls, eq_comm]
  | cons c cs ih =>
    simp only [compileCalls, bind_eq_ok_iff, Call.compile_eq_ok_iff, ih, List.zipIdx_cons,
      List.forall₂_cons_left_iff]
    constructor
    · rintro ⟨w, first, ws, rest, same⟩
      cases same
      exact ⟨w, ws, first, rest, rfl⟩
    · rintro ⟨w, ws, first, rest, rfl⟩
      exact ⟨w, first, ws, rest, rfl⟩

/-- Every trigger is kept with its event and as many calls as it has, and the calls of all triggers
are compiled one by one, their places counted through the file. -/
theorem compileTriggers_eq_ok {script : String} {place : Nat} {ts : List Trigger}
    {us : List LiveCalls.Trigger} (h : compileTriggers script place ts = .ok us) :
    List.Forall₂ (fun t u => u.event = t.event ∧ u.calls.length = t.calls.length) ts us ∧
      List.Forall₂ (fun c w => c.1.CompilesTo script c.2 w)
        ((ts.flatMap (·.calls)).zipIdx place) (us.flatMap (·.calls)) := by
  induction ts generalizing place us with
  | nil =>
    cases h
    exact ⟨.nil, .nil⟩
  | cons t ts ih =>
    simp only [compileTriggers, bind_eq_ok_iff] at h
    obtain ⟨ws, first, us, rest, same⟩ := h
    cases same
    have calls := compileCalls_eq_ok_iff.mp first
    obtain ⟨later, laterCalls⟩ := ih rest
    constructor
    · have length := calls.length_eq
      rw [List.length_zipIdx] at length
      exact .cons ⟨rfl, length.symm⟩ later
    · rw [List.flatMap_cons, List.flatMap_cons, List.zipIdx_append]
      exact List.rel_append calls laterCalls

/-- A script that has all that is in the file, in order. -/
structure CompilesTo (script : String) (m : Manifest) (s : Script Point) : Prop where
  functions : List.Forall₂ (fun f g => f.1.CompilesTo ⟨f.2, 1⟩ g) (m.functions.zipIdx 1) s.functions
  triggers : List.Forall₂ (fun t u => u.event = t.event ∧ u.calls.length = t.calls.length)
    m.triggers s.triggers
  calls : List.Forall₂ (fun c w => c.1.CompilesTo script c.2 w)
    ((m.triggers.flatMap (·.calls)).zipIdx 1) (s.triggers.flatMap (·.calls))

theorem compile_eq_ok {script : String} {m : Manifest} {s : Script Point}
    (h : m.compile script = .ok s) : m.CompilesTo script s := by
  simp only [compile, bind_eq_ok_iff] at h
  obtain ⟨gs, functions, us, triggers, same⟩ := h
  cases same
  obtain ⟨each, calls⟩ := compileTriggers_eq_ok triggers
  exact ⟨(compileFunctions_eq_ok_iff.mp functions).2, each, calls⟩

theorem CompilesTo.names {script : String} {m : Manifest} {s : Script Point}
    (h : m.CompilesTo script s) : s.names = m.functions.map (·.name) := by
  have named : List.Forall₂ (· = ·) ((m.functions.zipIdx 1).map (·.1.name)) s.names := by
    rw [Script.names, List.forall₂_map_left_iff, List.forall₂_map_right_iff]
    exact h.functions.imp fun _ _ compiled => compiled.name.symm
  rw [List.forall₂_eq_eq_eq] at named
  calc s.names = (m.functions.zipIdx 1).map (·.1.name) := named.symm
    _ = ((m.functions.zipIdx 1).map Prod.fst).map (·.name) := by rw [List.map_map]; rfl
    _ = m.functions.map (·.name) := by rw [List.zipIdx_map_fst]

end Manifest

end LiveCalls
