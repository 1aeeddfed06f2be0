import LiveCalls.Proofs.Handover
import LiveCalls.Proofs.Verdict

/-!
# Arguments one by one, or in a list

A parameter that takes several values can be given them as one argument each, or as a single list.
A list converts if each of its items does, also where its type alone says that nothing is to be
done, and its values are those of its items in order. So the two calls are bound alike, and they
hand over one and the same slot.
-/

namespace LiveCalls

namespace Expr

theorem convertItems_any (items : List Expr) : convertItems .any items = .ok items := by
  induction items with
  | nil => rfl
  | cons e es ih =>
    rw [convertItems, convert_any, ih]
    rfl

/-- A list is converted item by item. That is so as well where the common type of the items lets it
pass at once, since then each of them passes. -/
theorem convert_items (t : VarType) (items : List Expr) (pos : Position) :
    (list items pos).convert t = (convertItems t items).map (list · pos) := by
  by_cases ht : t = .any
  · rw [ht, convert_any, convertItems_any]
    rfl
  · exact convert_list ht items pos

theorem length_convertItems {t : VarType} {es bs : List Expr} (h : convertItems t es = .ok bs) :
    bs.length = es.length := by
  induction es generalizing bs with
  | nil =>
    cases h
    rfl
  | cons e es ih =>
    rw [convertItems] at h
    cases he : e.convert t with
    | error reason =>
      rw [he] at h
      cases h
    | ok b =>
      rw [he, map_eq_ok_iff] at h
      obtain ⟨ds, items, rfl⟩ := h
      rw [List.length_cons, List.length_cons, ih items]

end Expr

/-- A callable of one parameter runs on the slot that it is given and on no other. -/
theorem Callable.supplied_single {f : Callable} (one : f.signature.arity = 1) (slot : List Value)
    (h : Heap) : f.supplied [slot] h = (some [slot], h) := by
  have none : f.signature.parameters.drop 1 = [] := List.drop_of_length_le (Nat.le_of_eq one)
  simp [supplied, one, none, defaults]

namespace CallSite

theorem targets_of_spreads {s : Signature Ref} {p : Parameter Ref} (only : s.parameters = [p])
    (several : p.isSingle = false) (n : Nat) : targets s n = List.replicate n p.type := by
  have spreads : s.spreads := Signature.spreads_iff.mpr ⟨p, only, several⟩
  rw [targets, if_pos spreads, only, List.flatMap_singleton]

theorem convertPairs_replicate {t : VarType} {es bs : List Expr} (i : Nat) :
    convertPairs i (es.zip (List.replicate es.length t)) = .ok bs ↔
      Expr.convertItems t es = .ok bs := by
  induction es generalizing i bs with
  | nil => simp [convertPairs, Expr.convertItems]
  | cons e es ih =>
    rw [List.length_cons, List.replicate_succ, List.zip_cons_cons, convertPairs,
      Expr.convertItems]
    cases e.convert t with
    | error reason => simp
    | ok b => simp only [map_eq_ok_iff, ih]

section
variable {r : Registry} {s : Signature Ref} {p : Parameter Ref} (only : s.parameters = [p])
  (several : p.isSingle = false)
include only several

theorem judgeCount_of_spreads {n : Nat} (hn : 0 < n) : judgeCount s n = .ok () := by
  have arity : s.arity = 1 := by rw [Signature.arity, only]; rfl
  have required := s.required_le
  exact judgeCount_eq_ok_iff.mpr ⟨.inl (Signature.spreads_iff.mpr ⟨p, only, several⟩), by omega⟩

/-- What is adopted by a call whose arguments all go into one parameter: they are converted as the
items of a list are. -/
theorem judge_of_spreads {c : CallSite} (declared : r.signatures.get? c.function = some s)
    (given : c.arguments ≠ []) {phase : Phase} {a : Adopted} :
    c.judge phase r = .ok a ↔
      a.signature = s ∧ judgeResult phase s c = .ok a.single ∧
        Expr.convertItems p.type c.arguments = .ok a.arguments ∧
        a.callable = r.callables.get? c.function := by
  have count := judgeCount_of_spreads only several (List.length_pos_iff.mpr given)
  have fitted : c.fitted s = .ok a.arguments ↔
      Expr.convertItems p.type c.arguments = .ok a.arguments := by
    rw [fitted, targets_of_spreads only several]
    exact convertPairs_replicate 0
  rw [judge_eq_ok_iff, declared]
  constructor
  · rintro ⟨signature, result, -, fit, callable⟩
    obtain rfl := Option.some.inj signature
    exact ⟨rfl, result, fitted.mp fit, callable⟩
  · rintro ⟨rfl, result, items, callable⟩
    exact ⟨rfl, result, count, fitted.mpr items, callable⟩

end

/-- All arguments together fill the one slot. A single one does so without being packed. -/
theorem slots_of_spreads {c : CallSite} (spreads : c.spreads) (given : c.arguments ≠ [])
    (ctx : Context) (h : Heap) : c.slots ctx h = slotAll ctx c.arguments h := by
  unfold slots
  rw [spreads]
  match hc : c.arguments with
  | [] => exact absurd hc given
  | [e] => simp [slotEach, slotAll, Expr.evalItems]
  | e :: e' :: es => simp

theorem slotAll_list (ctx : Context) (es : List Expr) (pos : Position) (h : Heap) :
    slotAll ctx [.list es pos] h = slotAll ctx es h := by
  simp [slotAll, Expr.evalItems, Expr.eval]

/-- Executions that give, leave and print the same, and report the same wherever they do. -/
structure Execution.Same (x x' : Execution) : Prop where
  values : x'.values = x.values
  world : x'.world = x.world
  printed : x'.printed = x.printed
  reported : x'.diagnostics.map (·.message) = x.diagnostics.map (·.message)

/-- Two sites that run the same callable on the same slots come to the same. -/
theorem execute_of_slots {c d : CallSite} {ctx : Context} {w : World} (r : Registry)
    (function : d.function = c.function) (callable : d.callable? = c.callable?)
    (uptake : d.uptake = c.uptake) (slots : d.slots ctx w.heap = c.slots ctx w.heap) :
    (c.execute ctx r w).Same (d.execute ctx r w) := by
  have same : (d.resolve r).callable? = (c.resolve r).callable? := by
    rw [callable_resolve, callable_resolve, callable, function]
  have taken (e : CallSite) : (e.resolve r).uptake = e.uptake := by rw [(resolve_eq r e).1]
  cases hf : (c.resolve r).callable? with
  | none =>
    rw [hf] at same
    simp only [execute, hf, same]
    exact ⟨rfl, rfl, rfl, rfl⟩
  | some f =>
    rw [hf] at same
    simp only [execute, hf, same, slots_resolve, slots, taken, uptake]
    exact ⟨rfl, rfl, rfl, rfl⟩

/-- A call that gives in one list what another gives one by one, where the same is expected. -/
structure Gathers (c d : CallSite) : Prop where
  function : d.function = c.function
  expected : d.expected = c.expected
  uptake : d.uptake = c.uptake
  arguments : ∃ pos, d.arguments = [.list c.arguments pos]

namespace Gathers

variable {c d : CallSite}

theorem result (g : c.Gathers d) (s : Signature Ref) :
    (∃ single, judgeResult .first s d = .ok single) ↔
      ∃ single, judgeResult .first s c = .ok single := by
  rw [judgeResult_isOk_iff, judgeResult_isOk_iff, g.expected]
  simp

/-- The list converts if its items do, to a list of what they become. -/
theorem convertItems_iff (g : c.Gathers d) (t : VarType) {bs : List Expr} :
    Expr.convertItems t d.arguments = .ok bs ↔
      ∃ es pos, Expr.convertItems t c.arguments = .ok es ∧ d.arguments = [.list c.arguments pos] ∧
        bs = [.list es pos] := by
  obtain ⟨pos, list⟩ := g.arguments
  rw [list, Expr.convertItems, Expr.convert_items]
  cases Expr.convertItems t c.arguments with
  | error reason => simp [Except.map]
  | ok es => simp [Except.map, Expr.convertItems, eq_comm]

theorem slots (g : c.Gathers d) (spreads : c.spreads) (spreads' : d.spreads)
    (given : c.arguments ≠ []) (ctx : Context) (h : Heap) : d.slots ctx h = c.slots ctx h := by
  obtain ⟨pos, list⟩ := g.arguments
  have given' : d.arguments ≠ [] := by simp [list]
  rw [slots_of_spreads spreads given, slots_of_spreads spreads' given', list, slotAll_list]

section
variable {r : Registry} {s : Signature Ref} (declared : r.signatures.get? c.function = some s)
  (spreads : s.spreads) (given : c.arguments ≠ [])
include declared spreads given

/-- If one of the two calls is accepted, so is the other, and what they adopt is the same but for
the list. -/
theorem judge (g : c.Gathers d) :
    (∀ a, c.judge .first r = .ok a → ∃ b, d.judge .first r = .ok b) ∧
      ∀ b, d.judge .first r = .ok b → ∃ a, c.judge .first r = .ok a ∧
        (c.adopt a).Gathers (d.adopt b) ∧ (d.adopt b).binding = (c.adopt a).binding ∧
        a.signature = s ∧ a.arguments ≠ [] := by
  obtain ⟨p, only, several⟩ := Signature.spreads_iff.mp spreads
  have declared' : r.signatures.get? d.function = some s := by rwa [g.function]
  obtain ⟨pos, list⟩ := g.arguments
  have given' : d.arguments ≠ [] := by simp [list]
  constructor
  · intro a judged
    obtain ⟨-, result, items, -⟩ := (judge_of_spreads only several declared given).mp judged
    obtain ⟨single, result'⟩ := (g.result s).mpr ⟨_, result⟩
    have items' := (g.convertItems_iff p.type).mpr ⟨a.arguments, pos, items, list, rfl⟩
    exact ⟨⟨s, _, _, single⟩,
      (judge_of_spreads only several declared' given').mpr ⟨rfl, result', items', rfl⟩⟩
  · intro b judged
    obtain ⟨signature, result', items', callable⟩ :=
      (judge_of_spreads only several declared' given').mp judged
    obtain ⟨single, result⟩ := (g.result s).mp ⟨_, result'⟩
    obtain ⟨es, pos, items, -, arguments⟩ := (g.convertItems_iff p.type).mp items'
    refine ⟨⟨s, r.callables.get? c.function, es, single⟩,
      (judge_of_spreads only several declared given).mpr ⟨rfl, result, items, rfl⟩,
      ⟨g.function, g.expected, g.uptake, pos, arguments⟩, ?_, rfl, ?_⟩
    · rw [adopt, adopt, signature, callable, g.function]
    · rintro rfl
      exact given (List.eq_nil_of_length_eq_zero (Expr.length_convertItems items).symm)

end

end Gathers

/-- A call that hands over one slot to a callable of one parameter runs it on that slot. -/
theorem execute_of_slot {c : CallSite} {ctx : Context} {r : Registry} {w : World}
    {slot : List Value} {heap : Heap} (slots : c.slots ctx w.heap = ([slot], heap)) {f : Callable}
    (hf : (c.resolve r).callable? = some f) (one : f.signature.arity = 1) :
    c.execute ctx r w = (c.resolve r).ran f [slot] ⟨heap, w.kept⟩ := by
  apply execute_of_supplied hf
  rw [supplied, slots]
  exact Callable.supplied_single one slot heap

/-- Arguments given one by one to a parameter that takes several values are accepted by a first
validation if and only if a list of them is. Both calls then hand over one and the same slot.
Whenever they are executed, each runs the function on this slot and on nothing else, and they come
to the same, also where there is nothing to run or another function by then. -/
theorem spread_iff_gathered {r : Registry} {s : Signature Ref} {c d : CallSite}
    (gathers : c.Gathers d) (given : c.arguments ≠ [])
    (declared : r.signatures.get? c.function = some s) (spreads : s.spreads) :
    let v := c.validate .first r
    let v' := d.validate .first r
    (v.accepted ↔ v'.accepted) ∧
      (v.accepted → ∀ (ctx : Context) (r' : Registry) (w : World),
        (∃ slot heap, v.site.slots ctx w.heap = ([slot], heap) ∧
          v'.site.slots ctx w.heap = ([slot], heap) ∧
          ∀ f : Callable, f.signature = s → (v.site.resolve r').callable? = some f →
            v.site.execute ctx r' w = (v.site.resolve r').ran f [slot] ⟨heap, w.kept⟩ ∧
            v'.site.execute ctx r' w = (v'.site.resolve r').ran f [slot] ⟨heap, w.kept⟩) ∧
        (v.site.execute ctx r' w).Same (v'.site.execute ctx r' w)) := by
  intro v v'
  obtain ⟨onwards, back⟩ := gathers.judge declared spreads given
  refine ⟨?_, ?_⟩
  · rw [accepted_iff, accepted_iff]
    constructor
    · rintro ⟨a, judged⟩
      exact onwards a judged
    · rintro ⟨b, judged⟩
      obtain ⟨a, judged', -⟩ := back b judged
      exact ⟨a, judged'⟩
  · intro accepted ctx r' w
    obtain ⟨a, judged⟩ := accepted_iff.mp accepted
    obtain ⟨b, judged'⟩ := onwards a judged
    obtain ⟨a', again, gathered, binding, rfl, some⟩ := back b judged'
    obtain rfl : a' = a := Except.ok.inj (again.symm.trans judged)
    have site : v.site = c.adopt a' := by simp only [v, validate_of_judged judged]
    have site' : v'.site = d.adopt b := by simp only [v', validate_of_judged judged']
    have packs : (c.adopt a').spreads := spreads
    have packs' : (d.adopt b).spreads := by
      rwa [CallSite.spreads, signature?, binding]
    have slots := slots_of_spreads packs some ctx w.heap
    have same := gathered.slots packs packs' some ctx w.heap
    have alike : (d.adopt b).callable? = (c.adopt a').callable? := by rw [callable?, binding]; rfl
    rw [site, site']
    refine ⟨⟨_, _, slots, same.trans slots, ?_⟩,
      execute_of_slots r' gathered.function alike gathered.uptake same⟩
    intro f carries held
    obtain ⟨p, only, -⟩ := Signature.spreads_iff.mp spreads
    have one : f.signature.arity = 1 := by rw [carries, Signature.arity, only]; rfl
    have held' : ((d.adopt b).resolve r').callable? = Option.some f := by
      rwa [callable_resolve, alike, gathered.function, ← callable_resolve]
    exact ⟨execute_of_slot slots held one, execute_of_slot (same.trans slots) held' one⟩

/-- A truth value, an empty list and the values of a variable. -/
def mixed : List Expr :=
  [.constants [.bool true] .unknown, .list [] .unknown, .var "who" .any .unknown]

def joining (id : CallId) (arguments : List Expr) : CallSite :=
  .fresh id "join" none (some [.str]) arguments .str

/-- The call is accepted either way, its slot has the two texts and no more, and it gives the two
joined. -/
theorem spread_iff_gathered_join :
    let ctx := Context.empty.set "who" [.str "steve"]
    let v := (joining 1 mixed).validate .first .builtins
    let v' := (joining 2 [.list mixed ⟨1, 1⟩]).validate .first .builtins
    let f : Callable := ⟨Builtin.join.signature, .builtin .join⟩
    v'.accepted ∧
      v.site.execute ctx .builtins .empty =
        v.site.ran f [[.str "true", .str "steve"]] .empty ∧
      v'.site.execute ctx .builtins .empty =
        v'.site.ran f [[.str "true", .str "steve"]] .empty ∧
      (v.site.execute ctx .builtins .empty).values = some [.str "true steve"] ∧
      (v'.site.execute ctx .builtins .empty).values = some [.str "true steve"] := by
  intro ctx v v' f
  have gathers : (joining 1 mixed).Gathers (joining 2 [.list mixed ⟨1, 1⟩]) :=
    ⟨rfl, rfl, rfl, _, rfl⟩
  have accepted : v.accepted := by decide
  obtain ⟨alike, runs⟩ := spread_iff_gathered gathers (List.cons_ne_nil _ _)
    (r := .builtins) (s := Builtin.join.signature) rfl rfl
  obtain ⟨⟨slot, heap, slots, -, bodies⟩, same⟩ := runs accepted ctx .builtins .empty
  have handed : v.site.slots ctx World.empty.heap = ([[.str "true", .str "steve"]], .empty) := rfl
  cases slots.symm.trans handed
  obtain ⟨ran, ran'⟩ := bodies f rfl rfl
  have values : (v.site.execute ctx .builtins .empty).values = some [.str "true steve"] := by
    rw [ran]
    rfl
  exact ⟨alike.mp accepted, ran, ran', values, same.values.trans values⟩

end CallSite

end LiveCalls
