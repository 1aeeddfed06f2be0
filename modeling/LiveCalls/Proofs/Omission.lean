import LiveCalls.Proofs.Defaults
import LiveCalls.Proofs.FirstBinding
import LiveCalls.Proofs.Spreading

namespace LiveCalls

open Value (HoldAll)

theorem Callable.defaultRows_eq_some_iff {h : Heap} {ps : List (Parameter Ref)}
    {rows : List (List Constant)} :
    defaultRows h ps = some rows ↔ ps.map (fun p => (p.map h.read).default) = rows.map some := by
  induction ps generalizing rows with
  | nil => cases rows <;> simp [defaultRows]
  | cons p ps ih =>
    cases hp : p.default with
    | none => cases rows <;> simp [defaultRows, hp, Parameter.map]
    | some vs =>
      have same : vs.map (Value.constant h) = vs.map (Datum.map h.read) := rfl
      cases rows with
      | nil => simp [defaultRows, hp]
      | cons row rows => simp [defaultRows, hp, Parameter.map, ih, same, and_comm]

/-- Of a compiled function the parameters after the first required ones have defaults written, which
as arguments convert to the types of these parameters. Their values are those of the defaults that
have been placed on the heap. -/
theorem Manifest.Function.writes_defaults {pos : Position} {f : Manifest.Function}
    {g : ScriptFunction Point} (compiled : f.compile pos = .ok g) (h : Heap) (pos' : Position)
    {k : Nat} (enough : (g.signature.place h).1.required ≤ k) :
    (∀ p ∈ f.params.drop k, p.default.isSome) ∧
      (writtenDefaults pos' (f.params.drop k)).length = (g.signature.place h).1.arity - k ∧
      ∃ bs, List.Forall₂ (fun arg b => arg.1.convert arg.2 = .ok b)
          ((writtenDefaults pos' (f.params.drop k)).zip
            (((g.signature.place h).1.parameters.drop k).map (·.type))) bs ∧
        ∀ {u : Heap}, (g.signature.place h).2.Extends u → ∀ vars,
          ((g.signature.place h).1.parameters.drop k).map (fun p => (p.map u.read).default) =
            bs.map fun b => some (b.denote vars) := by
  have each := (Manifest.Function.compile_eq_ok_iff.mp compiled).parameters
  have reads {u : Heap} (grown : (g.signature.place h).2.Extends u) :
      (g.signature.place h).1.map u.read = g.signature :=
    (Signature.map_extend (g.signature.place_lays h).lies grown).trans (g.signature.map_place h)
  have required : (g.signature.place h).1.required = g.signature.required := by
    conv_rhs => rw [← reads (.refl _), Signature.required_map]
  have arity : (g.signature.place h).1.arity = g.signature.arity := by
    conv_rhs => rw [← reads (.refl _), Signature.arity_map]
  have left {u : Heap} (grown : (g.signature.place h).2.Extends u) :
      ((g.signature.place h).1.parameters.drop k).map (·.map u.read) =
        g.signature.parameters.drop k := by
    conv_rhs => rw [← reads grown]
    exact List.map_drop
  have types : ((g.signature.place h).1.parameters.drop k).map (·.type) =
      (g.signature.parameters.drop k).map (·.type) := by
    rw [← left (.refl _), List.map_map]
    rfl
  obtain ⟨written, bs, converts, values⟩ := defaults_convert (List.forall₂_drop k each)
    (Signature.default_of_mem_drop (required ▸ enough)) pos'
  refine ⟨written, ?_, bs, by rwa [types], fun grown vars => ?_⟩
  · rw [length_writtenDefaults written, List.length_drop, each.length_eq, arity, Signature.arity]
  · rw [← values vars, ← left grown, List.map_map]
    rfl

namespace CallSite

/-- The arguments that are added have targets of their own, and those that were there keep
theirs. -/
theorem zip_targets {s : Signature Ref} {es more : List Expr}
    (room : s.spreads ∨ es.length ≤ s.arity) (length : more.length = s.arity - es.length) :
    (es ++ more).zip (targets s (es ++ more).length) =
      es.zip (targets s es.length) ++ more.zip ((s.parameters.drop es.length).map (·.type)) := by
  cases spreads : s.spreads with
  | true =>
    obtain ⟨p, only, several⟩ := Signature.spreads_iff.mp spreads
    rw [Signature.arity, only, List.length_singleton] at length
    rw [targets_of_spreads only several, targets_of_spreads only several, only]
    cases es with
    | nil =>
      obtain ⟨e, rfl⟩ := List.length_eq_one_iff.mp length
      rfl
    | cons e es =>
      have none : more.length = 0 := length.trans (by rw [List.length_cons]; omega)
      obtain rfl := List.length_eq_zero_iff.mp none
      simp
  | false =>
    have few : es.length ≤ s.arity := by simpa [spreads] using room
    have front : es.length = ((s.parameters.map (·.type)).take es.length).length := by
      rw [List.length_take, List.length_map]
      exact (Nat.min_eq_left few).symm
    have split := List.take_append_drop es.length (s.parameters.map (·.type))
    have alone : es.zip (s.parameters.map (·.type)) =
        es.zip ((s.parameters.map (·.type)).take es.length) := by
      conv_lhs => rw [← split, ← List.append_nil es, List.zip_append (by simpa using front)]
      simp
    have both (n : Nat) : targets s n = s.parameters.map (·.type) := by simp [targets, spreads]
    rw [both, both, alone, List.map_drop, ← List.zip_append front, split]

/-- A call that writes out what another leaves out: where this one has no argument for a parameter,
it has the default that is written for it. -/
structure Completes (d c : CallSite) (more : List Expr) : Prop where
  function : d.function = c.function
  expected : d.expected = c.expected
  single : d.single = c.single
  uptake : d.uptake = c.uptake
  arguments : d.arguments = c.arguments ++ more

theorem judgeResult_congr {phase : Phase} (s : Signature Ref) {c d : CallSite}
    (expected : d.expected = c.expected) (single : d.single = c.single) :
    judgeResult phase s d = judgeResult phase s c := by
  unfold judgeResult
  rw [expected, single]

/-- A call that writes the defaults out is accepted if the one that leaves them out is. -/
theorem Completes.judge {c d : CallSite} {more : List Expr} (completes : d.Completes c more)
    {phase : Phase} {r : Registry} {a : Adopted} (judged : c.judge phase r = .ok a)
    (length : more.length = a.signature.arity - c.arguments.length) {bs : List Expr}
    (converts : List.Forall₂ (fun arg b => arg.1.convert arg.2 = .ok b)
      (more.zip ((a.signature.parameters.drop c.arguments.length).map (·.type))) bs) :
    d.judge phase r = .ok { a with arguments := a.arguments ++ bs } := by
  obtain ⟨signature, result, count, fit, callable⟩ := judge_eq_ok_iff.mp judged
  obtain ⟨room, enough⟩ := judgeCount_eq_ok_iff.mp count
  have total : d.arguments.length = c.arguments.length + more.length := by
    rw [completes.arguments, List.length_append]
  have required := a.signature.required_le
  refine judge_eq_ok_iff.mpr ⟨?_, ?_, ?_, ?_, ?_⟩
  · rwa [completes.function]
  · rwa [judgeResult_congr a.signature completes.expected completes.single]
  · refine judgeCount_eq_ok_iff.mpr ⟨room.imp_right fun few => ?_, ?_⟩ <;>
      dsimp only <;> omega
  · unfold fitted
    rw [completes.arguments, zip_targets room length]
    exact convertPairs_eq_ok_iff.mpr
      (List.rel_append (convertPairs_eq_ok_iff.mp fit) converts)
  · rwa [completes.function]

section
variable {c d : CallSite} {a : Adopted} (vars : String → List Constant)
  (count : judgeCount a.signature c.arguments.length = .ok ())
  (fit : c.fitted a.signature = .ok a.arguments)
include count fit

theorem rows_append {bs : List Expr} (left : bs.length = a.signature.arity - c.arguments.length) :
    (d.adopt { a with arguments := a.arguments ++ bs }).rows vars =
      (c.adopt a).rows vars ++ bs.map (Expr.denote vars) := by
  have given := length_fitted count fit
  have rows (e : CallSite) (es : List Expr) :
      (e.adopt { a with arguments := es }).rows vars =
        if a.signature.spreads && 1 < es.length then [Expr.denoteItems vars es]
        else es.map (Expr.denote vars) := rfl
  have own := rows c a.arguments
  rw [rows d, own]
  cases spreads : a.signature.spreads with
  | false => simp
  | true =>
    obtain ⟨p, only, -⟩ := Signature.spreads_iff.mp spreads
    have arity : a.signature.arity = 1 := by rw [Signature.arity, only]; rfl
    -- the one parameter is left out by a call without arguments only
    by_cases none : a.arguments = []
    · have one : bs.length ≤ 1 := by omega
      simp [none, Nat.not_lt.mpr one]
    · have some := List.length_pos_iff.mpr none
      obtain rfl : bs = [] := List.length_eq_zero_iff.mp (by omega)
      simp

theorem drop_rows : a.signature.parameters.drop ((c.adopt a).rows vars).length =
    a.signature.parameters.drop c.arguments.length := by
  have given := length_fitted count fit
  have rows : (c.adopt a).rows vars =
      if a.signature.spreads && 1 < a.arguments.length then [Expr.denoteItems vars a.arguments]
      else a.arguments.map (Expr.denote vars) := rfl
  rw [rows]
  split
  · rename_i packed
    obtain ⟨spreads, several⟩ := Bool.and_eq_true_iff.mp packed
    obtain ⟨p, only, -⟩ := Signature.spreads_iff.mp spreads
    have many := of_decide_eq_true several
    rw [only, List.length_singleton, List.drop_of_length_le (Nat.le_refl 1),
      List.drop_of_length_le (by simp only [List.length_singleton]; omega)]
  · rw [List.length_map, given]

end

/-- Sites that take the same have executions alike if the body does the same for both. -/
theorem ran_alike {c d : CallSite} {f : Callable} {slots slots' : List (List Value)} {w w' : World}
    (uptake : d.uptake = c.uptake) (alike : (f.call slots w).Alike (f.call slots' w')) :
    (c.ran f slots w).Alike (d.ran f slots' w') := by
  have taken (e : CallSite) (slots : List (List Value)) (w : World) :=
    constants_taken e.uptake
      { f.call slots w with values := (f.call slots w).values.filter (!·.isEmpty) }
  refine ⟨?_, rfl, alike.printed⟩
  refine (taken c slots w).trans (.trans ?_ (taken d slots' w').symm)
  rw [alike.nonempty.constants, uptake]

/-- A bound site has the body of its function run on the values of its arguments and the defaults of
the parameters that are left, as they were on the heap from which its own has grown. -/
theorem execute_filled {c : CallSite} {f : Callable} (held : c.callable? = some f) {u : Heap}
    (settled : f.Settled u) {ctx : Context} (hc : ctx.InHeap u) {w : World}
    (grown : u.Extends w.heap) {rows : List (List Constant)} (left : List (List Constant))
    (filled : c.rows (ctx.constants u) = rows) (enough : f.signature.required ≤ rows.length)
    (few : rows.length ≤ f.signature.arity)
    (defaults : (f.signature.parameters.drop rows.length).map (fun p => (p.map u.read).default) =
      left.map some) (r : Registry) :
    ∃ slots heap, c.execute ctx r w = c.ran f slots ⟨heap, w.kept⟩ ∧
      HoldAll heap slots (rows ++ left) := by
  rw [← Context.constants_extend hc grown] at filled
  subst filled
  obtain ⟨slots, heap, left', ran, -, -, -, holds, found⟩ := execute_eq_ran held
    (hc.mono grown.size) (settled.defaults.mono grown.size) enough few r
  rw [Callable.defaultRows_extend (settled.dropped _) grown, Callable.defaultRows_eq_some_iff,
    defaults] at found
  obtain rfl : left = left' := List.map_injective_iff.mpr (Option.some_injective _) found
  exact ⟨slots, heap, ran, holds⟩

/-- An accepted call and one that writes out the defaults which this one leaves out come to the
same, if the defaults are what is written. The heaps that they are executed on may be different as
long as both have grown from one that holds the defaults and the variables. -/
theorem execute_alike {c d : CallSite} {a : Adopted} {f : Callable}
    (count : judgeCount a.signature c.arguments.length = .ok ())
    (fit : c.fitted a.signature = .ok a.arguments) (held : a.callable = some f)
    (carries : f.signature = a.signature) {u : Heap} (settled : f.Settled u)
    (uptake : d.uptake = c.uptake) {bs : List Expr}
    (left : bs.length = a.signature.arity - c.arguments.length)
    (written : ∀ vars, (a.signature.parameters.drop c.arguments.length).map
      (fun p => (p.map u.read).default) = bs.map fun b => some (b.denote vars))
    {ctx : Context} (hc : ctx.InHeap u) {w w' : World} (grown : u.Extends w.heap)
    (grown' : u.Extends w'.heap) (r r' : Registry) :
    ((c.adopt a).execute ctx r w).Alike
      ((d.adopt { a with arguments := a.arguments ++ bs }).execute ctx r' w') := by
  have both := rows_append (d := d) (ctx.constants u) count fit left
  have dropped := drop_rows (ctx.constants u) count fit
  obtain ⟨enough, few⟩ := length_rows (ctx.constants u) count fit
  have remaining := congrArg List.length dropped
  rw [← carries] at left written dropped enough few remaining
  unfold Signature.arity at left few
  rw [List.length_drop, List.length_drop] at remaining
  -- the one has the defaults supplied, and the other has no parameter left
  obtain ⟨slots, heap, ran, holds⟩ := execute_filled (c := c.adopt a) held settled hc grown
    (bs.map (Expr.denote (ctx.constants u))) rfl enough few
    (by rw [dropped, written (ctx.constants u), List.map_map]; rfl) r
  obtain ⟨slots', heap', ran', holds'⟩ := execute_filled (w := w')
    (c := d.adopt { a with arguments := a.arguments ++ bs }) held settled hc grown' [] both
    (by rw [List.length_append]; omega)
    (by rw [List.length_append, List.length_map, Signature.arity]; omega)
    (by rw [List.drop_of_length_le (by rw [List.length_append, List.length_map]; omega)]; rfl) r'
  rw [List.append_nil] at holds'
  rw [ran, ran']
  exact ran_alike uptake (Callable.call_congr settled.own holds holds' _ _)

/-- What the values of a call are that is made again and again, once in each of these contexts. -/
def repeated (r : Registry) : CallSite → World → List Context → List (Option (List Constant))
  | _, _, [] => []
  | c, w, ctx :: ctxs =>
    let x := c.execute ctx r w
    x.constants :: repeated r x.site x.world ctxs

/-- A call of a function of the library's own leaves its site as it is, and the heap grown. -/
theorem execute_again {c : CallSite} {f : Callable} (held : c.callable? = some f) {u : Heap}
    (settled : f.Settled u) {w : World} (grown : u.Extends w.heap) (ctx : Context) (r : Registry) :
    (c.execute ctx r w).site = c ∧ u.Extends (c.execute ctx r w).world.heap := by
  have same := resolve_of_callable held r
  rw [site_execute, same]
  refine ⟨rfl, grown.trans (execute_extends ctx w ?_)⟩
  rw [same, held]
  rintro _ ⟨⟩
  exact settled.confined

theorem repeated_congr {c d : CallSite} {f : Callable} (held : c.callable? = some f)
    (held' : d.callable? = some f) {u : Heap} (settled : f.Settled u) {r r' : Registry}
    (alike : ∀ (ctx : Context) (w w' : World), ctx.InHeap u → u.Extends w.heap →
      u.Extends w'.heap → (c.execute ctx r w).Alike (d.execute ctx r' w'))
    {ctxs : List Context} (hc : ∀ ctx ∈ ctxs, ctx.InHeap u) {w w' : World}
    (grown : u.Extends w.heap) (grown' : u.Extends w'.heap) :
    c.repeated r w ctxs = d.repeated r' w' ctxs := by
  induction ctxs generalizing w w' with
  | nil => rfl
  | cons ctx ctxs ih =>
    obtain ⟨first, later⟩ := List.forall_mem_cons.mp hc
    obtain ⟨site, more⟩ := execute_again held settled grown ctx r
    obtain ⟨site', more'⟩ := execute_again held' settled grown' ctx r'
    simp only [repeated]
    rw [(alike ctx w w' first grown grown').constants, site, site', ih later more more']

/-- A call of a script function that leaves out arguments at the end can write out the defaults of
the manifest for them: each parameter left has one, the call is accepted just so, and what the two
calls give is the same however often they are made, from any two heaps that have grown from one on
which the function and the contexts are. -/
theorem omitted_as_default {pos pos' : Position} {f : Manifest.Function} {g : ScriptFunction Point}
    (compiled : f.compile pos = .ok g) {h : Heap} {b : Callable}
    (body : ScriptFunction.callable? ⟨(g.signature.place h).1, g.body⟩ = some b)
    {phase : Phase} {r : Registry} {c d : CallSite}
    (declared : r.signatures.get? c.function = some (g.signature.place h).1)
    (defined : r.callables.get? c.function = some b) (accepted : (c.validate phase r).accepted)
    (completes : d.Completes c
      (Manifest.writtenDefaults pos' (f.params.drop c.arguments.length))) :
    let bound := (c.validate phase r).site
    let full := (d.validate phase r).site
    (∀ p ∈ f.params.drop c.arguments.length, p.default.isSome) ∧ (d.validate phase r).accepted ∧
      ∀ u : Heap, (g.signature.place h).2.Extends u →
        ∀ (r' r'' : Registry) (ctxs : List Context), (∀ ctx ∈ ctxs, ctx.InHeap u) →
          ∀ w w' : World, u.Extends w.heap → u.Extends w'.heap →
            bound.repeated r' w ctxs = full.repeated r'' w' ctxs := by
  intro bound full
  obtain ⟨a, judged⟩ := accepted_iff.mp accepted
  obtain ⟨signature, -, count, fit, callable⟩ := judge_eq_ok_iff.mp judged
  obtain ⟨e, -, rfl⟩ := Option.map_eq_some_iff.mp body
  have carries : (g.signature.place h).1 = a.signature :=
    Option.some.inj (declared.symm.trans signature)
  obtain ⟨written, length, bs, converts, values⟩ := f.writes_defaults compiled h pos'
    (carries ▸ (judgeCount_eq_ok_iff.mp count).2)
  rw [carries] at length converts
  have judged' := completes.judge judged length converts
  refine ⟨written, accepted_iff.mpr ⟨_, judged'⟩, ?_⟩
  intro u installed r' r'' ctxs hc w w' grown grown'
  have site : bound = c.adopt a := by simp only [bound, validate_of_judged judged]
  have site' : full = d.adopt { a with arguments := a.arguments ++ bs } := by
    simp only [full, validate_of_judged judged']
  have held := callable.trans defined
  have settled := (ScriptFunction.settled (g.signature.place_lays h).lies body).mono installed.size
  have left : bs.length = a.signature.arity - c.arguments.length := by
    rw [← converts.length_eq, List.length_zip, length, List.length_map, List.length_drop,
      ← Signature.arity, Nat.min_self]
  rw [site, site']
  refine repeated_congr (c := c.adopt a) (d := d.adopt { a with arguments := a.arguments ++ bs })
    held held settled ?_ hc grown grown'
  intro ctx w w' hctx grown grown'
  exact execute_alike count fit held carries settled completes.uptake left
    (carries ▸ values installed) hctx grown grown' r' r''

/-- A function that gives back what it is told, with defaults for all but the first parameter: two
places in a nested list, and a truth value for a text. -/
def telling : Manifest.Function where
  name := "tell"
  params := [⟨"what", "str", false, none⟩,
    ⟨"at", "loc", true, some (.list [.one (.loc default), .list [.many [.loc default]]])⟩,
    ⟨"note", "text", false, some (.one (.bool true))⟩]
  returns := some ⟨"any", true⟩
  body := some (.list [.var "note", .var "at", .var "what"])

def told : ScriptFunction Point where
  signature := ⟨"tell", [⟨"what", .str, .single, none⟩,
    ⟨"at", .loc, .multiple, some [.loc default, .loc default]⟩,
    ⟨"note", .str, .single, some [.str "true"]⟩], some ⟨.any, .multiple⟩⟩
  body := telling.body.map (Manifest.Term.toExpr ⟨1, 1⟩)

/-- What there is to run of it, with its defaults at the start of the heap. -/
def teller : Callable :=
  ⟨(told.signature.place .empty).1, .script (told.body.getD (.list [] ⟨1, 1⟩))⟩

def tellers : Registry := (Registry.builtins.define teller).2

def tellCall (id : CallId) (more : List Expr) : CallSite :=
  .fresh id "tell" none none (.constants [.str "hello"] ⟨3, 1⟩ :: more) .value

/-- The call made twice: the defaults may be left out or written out. -/
theorem omitted_as_default_tell :
    let more := Manifest.writtenDefaults ⟨3, 1⟩ (telling.params.drop 1)
    ((tellCall 1 []).validate .first tellers).accepted ∧
      ((tellCall 2 more).validate .first tellers).accepted ∧
      ((tellCall 2 more).validate .first tellers).site.repeated tellers
          ⟨(told.signature.place .empty).2, []⟩ [.empty, .empty] =
        .replicate 2 (some [.str "true", .loc default, .loc default, .str "hello"]) := by
  intro more
  have accepted : ((tellCall 1 []).validate .first tellers).accepted := by decide
  have declared : tellers.signatures.get? "tell" = some (told.signature.place .empty).1 :=
    (Registry.get?_signatures_define _ teller _).trans (if_pos rfl)
  have defined : tellers.callables.get? "tell" = some teller :=
    (Registry.get?_callables_define _ teller _).trans (if_pos rfl)
  obtain ⟨-, full, alike⟩ := omitted_as_default (f := telling) (g := told) rfl (h := .empty) rfl
    declared defined accepted (d := tellCall 2 more) ⟨rfl, rfl, rfl, rfl, rfl⟩
  have inHeap : ∀ ctx ∈ [Context.empty, .empty], ctx.InHeap (told.signature.place .empty).2 := by
    simp [Context.InHeap, Context.empty, Context.get]
  have same := alike _ (.refl _) tellers tellers _ inHeap ⟨_, []⟩ ⟨_, []⟩ (.refl _) (.refl _)
  exact ⟨accepted, full, same.symm.trans rfl⟩

end CallSite

end LiveCalls
