import LiveCalls.CallSite.Execution
import LiveCalls.Proofs.Meaning

namespace LiveCalls

open Value (Hold HoldAll)

/-- Every location in the default of a parameter is a cell of the heap. -/
def Parameter.InHeap (p : Parameter Ref) (h : Heap) : Prop :=
  ∀ vs, p.default = some vs → ∀ v ∈ vs, Value.InHeap h v

theorem Parameter.InHeap.mono {p : Parameter Ref} {h h' : Heap} (hp : p.InHeap h)
    (hs : h.size ≤ h'.size) : p.InHeap h' := fun vs hd v hv => (hp vs hd v hv).mono hs

/-- Every location in the defaults of a signature is a cell of the heap. -/
def Signature.InHeap (s : Signature Ref) (h : Heap) : Prop := ∀ p ∈ s.parameters, p.InHeap h

theorem Signature.InHeap.mono {s : Signature Ref} {h h' : Heap} (hs : s.InHeap h)
    (size : h.size ≤ h'.size) : s.InHeap h' := fun p hp => (hs p hp).mono size

namespace Callable

/-- A callable of this library's own making, its defaults on the heap. One supplied from outside
may keep what it was given, and is none of them. -/
structure Settled (f : Callable) (h : Heap) : Prop where
  own : ∀ n, f.body ≠ .native n
  defaults : f.signature.InHeap h

theorem Settled.mono {f : Callable} {h h' : Heap} (hf : f.Settled h) (hs : h.size ≤ h'.size) :
    f.Settled h' := ⟨hf.own, hf.defaults.mono hs⟩

theorem context_constants_congr {h h' : Heap} {rows : List (List Constant)}
    (params : List (Parameter Ref)) {slots slots' : List (List Value)}
    (held : HoldAll h slots rows) (held' : HoldAll h' slots' rows) :
    (context params slots).constants h = (context params slots').constants h' := by
  obtain ⟨-, rfl⟩ := held
  have same := held'.constants
  -- the contexts are filled one parameter at a time, so they agree from any agreeing start on
  suffices run : ∀ ctx ctx' : Context, ctx.constants h = ctx'.constants h' →
      ((params.zip slots).foldl (fun ctx ps => ctx.set ps.1.name ps.2) ctx).constants h =
        ((params.zip slots').foldl (fun ctx ps => ctx.set ps.1.name ps.2) ctx').constants h' from
    run .empty .empty rfl
  clear held'
  induction params generalizing slots slots' with
  | nil => intro ctx ctx' hctx; exact hctx
  | cons p ps ih =>
    intro ctx ctx' hctx
    cases slots with
    | nil =>
      obtain rfl : slots' = [] := List.map_eq_nil_iff.mp same
      exact hctx
    | cons slot slots =>
      cases slots' with
      | nil => cases same
      | cons slot' slots' =>
        obtain ⟨head, tail⟩ := List.cons.inj same
        apply ih tail
        funext name
        simp only [Context.constants, Context.get_set]
        split
        · exact head.symm
        · exact congrFun hctx name

theorem inHeap_context {h : Heap} (params : List (Parameter Ref)) {slots : List (List Value)}
    (hin : ∀ slot ∈ slots, ∀ v ∈ slot, v.InHeap h) : (context params slots).InHeap h := by
  suffices run : ∀ ctx : Context, ctx.InHeap h →
      ((params.zip slots).foldl (fun ctx ps => ctx.set ps.1.name ps.2) ctx).InHeap h from
    run .empty fun _ _ hv => by cases hv
  induction params generalizing slots with
  | nil => intro ctx hctx; exact hctx
  | cons p ps ih =>
    intro ctx hctx
    cases slots with
    | nil => exact hctx
    | cons slot slots =>
      apply ih fun s hs => hin s (List.mem_cons_of_mem _ hs)
      intro name v hv
      rw [Context.get_set] at hv
      split at hv
      · exact hin slot List.mem_cons_self v hv
      · exact hctx name v hv

end Callable

def Reply.constants (r : Reply) : Option (List Constant) :=
  r.values.map (·.map (Value.constant r.world.heap))

/-- Replies that give the same, wherever it lies, and print the same. -/
structure Reply.Alike (r r' : Reply) : Prop where
  constants : r.constants = r'.constants
  printed : r.printed = r'.printed

theorem Reply.constants_nonempty (r : Reply) :
    Reply.constants { r with values := r.values.filter (!·.isEmpty) } =
      r.constants.filter (!·.isEmpty) := by
  obtain ⟨values, w, printed⟩ := r
  cases values with
  | none => rfl
  | some vs => cases vs <;> rfl

/-- Giving nothing instead of no values keeps replies alike. -/
theorem Reply.Alike.nonempty {r r' : Reply} (h : r.Alike r') :
    Reply.Alike { r with values := r.values.filter (!·.isEmpty) }
      { r' with values := r'.values.filter (!·.isEmpty) } :=
  ⟨by rw [constants_nonempty, constants_nonempty, h.constants], h.printed⟩

namespace Callable

theorem evaluate_congr {h h' : Heap} {rows : List (List Constant)} (s : Signature Ref) (e : Expr)
    {slots slots' : List (List Value)} (held : HoldAll h slots rows)
    (held' : HoldAll h' slots' rows) :
    (evaluate s e slots h).1.map (·.map (Value.constant (evaluate s e slots h).2)) =
      (evaluate s e slots' h').1.map (·.map (Value.constant (evaluate s e slots' h').2)) := by
  cases hr : s.result with
  | none => simp only [evaluate, hr]; rfl
  | some r =>
    have yields := e.eval_yields (inHeap_context s.parameters held.inHeap)
    have yields' := e.eval_yields (inHeap_context s.parameters held'.inHeap)
    rw [← context_constants_congr s.parameters held held'] at yields'
    have converted := (yields.hold.convert r.type).constants
    have converted' := (yields'.hold.convert r.type).constants
    simp only [evaluate, hr, Option.map_some]
    split
    · simp only [List.map_take, converted, converted']
    · rw [converted, converted']

/-- Slots that hold the same have the same outcome. -/
theorem call_congr {c : Callable} {h h' : Heap} {rows : List (List Constant)}
    (hc : ∀ n, c.body ≠ .native n) {slots slots' : List (List Value)} (held : HoldAll h slots rows)
    (held' : HoldAll h' slots' rows) (kept kept' : List (List Value)) :
    (c.call slots ⟨h, kept⟩).Alike (c.call slots' ⟨h', kept'⟩) := by
  unfold call
  cases hb : c.body with
  | builtin b =>
    obtain ⟨values, printed⟩ := b.run_answers held
    obtain ⟨values', printed'⟩ := b.run_answers held'
    exact ⟨values.trans values'.symm, congrArg Option.toList (printed.trans printed'.symm)⟩
  | script e => exact ⟨evaluate_congr c.signature e held held', rfl⟩
  | native n => exact absurd hb (hc n)

/-- What the defaults of parameters are, if all of them have one. -/
def defaultRows (h : Heap) : List (Parameter Ref) → Option (List (List Constant))
  | [] => some []
  | p :: ps => p.default.bind fun vs => (defaultRows h ps).map (vs.map (Value.constant h) :: ·)

theorem defaultRows_extend {ps : List (Parameter Ref)} {h h' : Heap}
    (hin : ∀ p ∈ ps, p.InHeap h) (he : h.Extends h') : defaultRows h' ps = defaultRows h ps := by
  induction ps with
  | nil => rfl
  | cons p ps ih =>
    simp only [defaultRows, ih fun q hq => hin q (List.mem_cons_of_mem _ hq)]
    cases hp : p.default with
    | none => rfl
    | some vs =>
      have same := ((Hold.self (hin p List.mem_cons_self vs hp)).extend he).constants
      rw [Option.bind_some, Option.bind_some, same]

/-- Defaults are copied as long as there is one, and the copies hold what they hold. -/
theorem defaults_yield (ps : List (Parameter Ref)) {h : Heap}
    (hin : ∀ p ∈ ps, p.InHeap h) :
    h.Extends (defaults ps h).2 ∧
      ((defaults ps h).1 = none ∧ defaultRows h ps = none ∨
        ∃ slots rows, (defaults ps h).1 = some slots ∧ defaultRows h ps = some rows ∧
          HoldAll (defaults ps h).2 slots rows) := by
  induction ps generalizing h with
  | nil => exact ⟨.refl h, .inr ⟨[], [], rfl, rfl, .nil h⟩⟩
  | cons p ps ih =>
    cases hp : p.default with
    | none =>
      have out : defaults (p :: ps) h = (none, h) := by simp only [defaults, hp]
      have rows : defaultRows h (p :: ps) = none := by simp only [defaultRows, hp, Option.bind_none]
      rw [out]
      exact ⟨.refl h, .inl ⟨rfl, rows⟩⟩
    | some vs =>
      have copied := Value.copyAll_yields (Hold.self (hin p List.mem_cons_self vs hp))
      obtain ⟨grows, rest⟩ := ih fun q hq =>
        (hin q (List.mem_cons_of_mem _ hq)).mono copied.grows.size
      rw [defaultRows_extend (fun q hq => hin q (List.mem_cons_of_mem _ hq)) copied.grows] at rest
      simp only [defaults, defaultRows, hp, Option.bind_some]
      refine ⟨copied.grows.trans grows, ?_⟩
      rcases rest with ⟨out, rows⟩ | ⟨slots, rows, out, hrows, held⟩
      · exact .inl ⟨by rw [out]; rfl, by rw [rows]; rfl⟩
      · exact .inr ⟨_, _, by rw [out]; rfl, by rw [hrows]; rfl,
          .cons (copied.hold.extend grows) held⟩

theorem Settled.dropped {f : Callable} {h : Heap} (hf : f.Settled h) (n : Nat) :
    ∀ p ∈ f.signature.parameters.drop n, p.InHeap h :=
  fun p hp => hf.defaults p (List.mem_of_mem_drop hp)

/-- A settled callable gives the same for slots that hold the same, the defaults included. -/
theorem execute_congr {f : Callable} {base h h' : Heap} (settled : f.Settled base)
    (he : base.Extends h) (he' : base.Extends h') {given given' : List (List Value)}
    {rows : List (List Constant)} (held : HoldAll h given rows) (held' : HoldAll h' given' rows)
    (kept kept' : List (List Value)) :
    (f.execute given ⟨h, kept⟩).Alike (f.execute given' ⟨h', kept'⟩) := by
  have lengths : given'.length = given.length := by
    simpa using congrArg List.length (held'.constants.trans held.constants.symm)
  unfold execute
  rw [lengths]
  split
  · exact ⟨rfl, rfl⟩
  · obtain ⟨grows, rest⟩ :=
      defaults_yield _ ((settled.mono he.size).dropped given.length)
    obtain ⟨grows', rest'⟩ :=
      defaults_yield _ ((settled.mono he'.size).dropped given.length)
    rw [defaultRows_extend (settled.dropped given.length) he] at rest
    rw [defaultRows_extend (settled.dropped given.length) he'] at rest'
    rcases rest with ⟨out, none⟩ | ⟨slots, more, out, some, filled⟩
    · rcases rest' with ⟨out', -⟩ | ⟨slots', more', -, some', -⟩
      · simp only [out, out']
        exact ⟨rfl, rfl⟩
      · rw [none] at some'
        cases some'
    · rcases rest' with ⟨-, none'⟩ | ⟨slots', more', out', some', filled'⟩
      · rw [some] at none'
        cases none'
      · obtain rfl : more = more' := Option.some.inj (some.symm.trans some')
        simp only [out, out']
        exact (call_congr settled.own ((held.extend grows).append filled)
          ((held'.extend grows').append filled') kept kept').nonempty

end Callable

namespace CallSite

/-- What the slots of a call hold, given what the variables hold. -/
def rows (vars : String → List Constant) (c : CallSite) : List (List Constant) :=
  if c.spreads && 1 < c.arguments.length then [Expr.denoteItems vars c.arguments]
  else c.arguments.map (Expr.denote vars)

theorem slotEach_yields {ctx : Context} (es : List Expr) {h : Heap} (hc : ctx.InHeap h) :
    h.Extends (slotEach ctx es h).2 ∧
      HoldAll (slotEach ctx es h).2 (slotEach ctx es h).1
        (es.map (Expr.denote (ctx.constants h))) := by
  induction es generalizing h with
  | nil => exact ⟨.refl h, .nil h⟩
  | cons e es ih =>
    have values := e.eval_yields hc
    have slot := Value.copyAll_yields values.hold
    have grows := values.grows.trans slot.grows
    obtain ⟨later, rest⟩ := ih (hc.mono grows.size)
    rw [Context.constants_extend hc grows] at rest
    exact ⟨grows.trans later, .cons (slot.hold.extend later) rest⟩

theorem slotAll_yields {ctx : Context} (es : List Expr) {h : Heap} (hc : ctx.InHeap h) :
    h.Extends (slotAll ctx es h).2 ∧
      HoldAll (slotAll ctx es h).2 (slotAll ctx es h).1
        [Expr.denoteItems (ctx.constants h) es] := by
  have values := Expr.evalItems_yields es hc
  have slot := Value.copyAll_yields values.hold
  exact ⟨values.grows.trans slot.grows, .cons slot.hold (.nil _)⟩

theorem slots_yield {ctx : Context} (c : CallSite) {h : Heap} (hc : ctx.InHeap h) :
    h.Extends (c.slots ctx h).2 ∧
      HoldAll (c.slots ctx h).2 (c.slots ctx h).1 (c.rows (ctx.constants h)) := by
  unfold slots rows
  split
  · exact slotAll_yields c.arguments hc
  · exact slotEach_yields c.arguments hc

def Execution.constants (x : Execution) : Option (List Constant) :=
  x.values.map (·.map (Value.constant x.world.heap))

/-- Executions that give the same, wherever it lies, and report and print the same. -/
structure Execution.Alike (x x' : Execution) : Prop where
  constants : x.constants = x'.constants
  diagnostics : x.diagnostics = x'.diagnostics
  printed : x.printed = x'.printed

theorem admits_constant (u : Uptake) (h : Heap) (v : Value) :
    u.admits (v.constant h) = u.admits v := by
  cases u <;> cases v <;> rfl

theorem constants_taken (u : Uptake) (r : Reply) :
    (r.values.map (·.filter u.admits)).map (·.map (Value.constant r.world.heap)) =
      r.constants.map (·.filter u.admits) := by
  obtain ⟨values, w, printed⟩ := r
  cases values with
  | none => rfl
  | some vs =>
    have same : u.admits ∘ Value.constant w.heap = u.admits := funext (admits_constant u w.heap)
    simp only [Reply.constants, Option.map_some, List.filter_map, same]

theorem resolve_eq (r : Registry) (c : CallSite) :
    c.resolve r = { c with binding := (c.resolve r).binding } ∧
      (c.resolve r).signature? = c.signature? := by
  obtain ⟨id, function, arguments, binding, single, expected, site, uptake⟩ := c
  cases binding with
  | bound s f => cases f <;> exact ⟨rfl, rfl⟩
  | unbound late => cases late <;> exact ⟨rfl, rfl⟩

theorem slots_resolve (ctx : Context) (r : Registry) (c : CallSite) (h : Heap) :
    (c.resolve r).slots ctx h = c.slots ctx h := by
  obtain ⟨same, signature⟩ := resolve_eq r c
  have arguments : (c.resolve r).arguments = c.arguments := by rw [same]
  unfold slots spreads
  rw [signature, arguments]

/-- A site that would run the same callable gives the same on a larger heap. -/
theorem execute_congr {ctx : Context} {r r' : Registry} {c : CallSite} {w w' : World}
    (hc : ctx.InHeap w.heap) (he : w.heap.Extends w'.heap)
    (same : (c.resolve r').callable? = (c.resolve r).callable?)
    (settled : ∀ f, (c.resolve r).callable? = some f → f.Settled w.heap) :
    (c.execute ctx r w).Alike (c.execute ctx r' w') := by
  have site (r : Registry) : (c.resolve r).site = c.site := by rw [(resolve_eq r c).1]
  have uptake (r : Registry) : (c.resolve r).uptake = c.uptake := by rw [(resolve_eq r c).1]
  obtain ⟨grows, held⟩ := c.slots_yield hc
  obtain ⟨grows', held'⟩ := c.slots_yield (hc.mono he.size)
  rw [Context.constants_extend hc he] at held'
  cases hf : (c.resolve r).callable? with
  | none =>
    rw [hf] at same
    simp only [execute, hf, same, site]
    exact ⟨rfl, rfl, rfl⟩
  | some f =>
    rw [hf] at same
    have alike := Callable.execute_congr (settled f hf) grows (he.trans grows') held held'
      w.kept w'.kept
    simp only [execute, hf, same, slots_resolve, uptake]
    refine ⟨?_, rfl, alike.printed⟩
    refine (constants_taken c.uptake _).trans (.trans ?_ (constants_taken c.uptake _).symm)
    rw [alike.constants]

end CallSite

end LiveCalls
