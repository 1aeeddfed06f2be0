import LiveCalls.Proofs.Subscriptions

/-!
# What is news

Removing and installing functions changes what is declared and what can be called, and gathers the
news for those who call them. A function is news if there was one of its name, and nobody is told
twice.
-/

namespace LiveCalls

namespace ScriptFunction

/-- What there is to run of a function. -/
def callable? (f : ScriptFunction Ref) : Option Callable :=
  f.body.map fun e => ⟨f.signature, .script e⟩

end ScriptFunction

namespace Registry

/-- Who is to be told about a function, unless nobody is. -/
def hears (r : Registry) (name : String) : Option (List CallId) := (r.news? name).map (·.callers)

theorem hears_eq (r : Registry) (name : String) :
    r.hears name = if r.callers name = [] then none else some (r.callers name) := by
  unfold hears news?
  cases r.callers name <;> rfl

theorem hears_congr {r r' : Registry} (h : r'.subscriptions = r.subscriptions) (name : String) :
    r'.hears name = r.hears name := by
  rw [hears_eq, hears_eq, callers_congr h]

theorem isDeclared_of_get? {r : Registry} {name : String} {s : Signature Ref}
    (h : r.signatures.get? name = some s) : r.isDeclared name := Table.contains_of_get? h

theorem isDeclared_congr {r r' : Registry} {name : String}
    (h : r'.signatures.get? name = r.signatures.get? name) :
    r'.isDeclared name = r.isDeclared name := by
  unfold isDeclared Table.contains
  rw [h]

/-- Whatever can be called is declared. -/
def Closed (r : Registry) : Prop := ∀ name, r.callables.contains name → r.isDeclared name

end Registry

namespace News

theorem merge_again (ids : List CallId) :
    ids.foldl (fun ids id => if id ∈ ids then ids else ids ++ [id]) ids = ids := by
  suffices known : ∀ some : List CallId, (∀ id ∈ some, id ∈ ids) →
      some.foldl (fun ids id => if id ∈ ids then ids else ids ++ [id]) ids = ids from
    known ids fun _ => id
  intro some
  induction some with
  | nil => intro _; rfl
  | cons id rest ih =>
    intro known
    obtain ⟨here, there⟩ := List.forall_mem_cons.mp known
    rw [List.foldl_cons, if_pos here]
    exact ih there

/-- News about a function replaces older news about it, which was the same. -/
theorem get?_merge {news : News} {r : Registry} {name : String}
    (old : news.get? name = none ∨ news.get? name = r.hears name) (name' : String) :
    (news.merge (r.news? name)).get? name' =
      if name' = name then r.hears name else news.get? name' := by
  rw [r.hears_eq] at old ⊢
  unfold Registry.news?
  cases hc : r.callers name with
  | nil =>
    rw [hc] at old
    by_cases here : name' = name
    · rw [if_pos here, here]
      exact old.elim id id
    · rw [if_neg here]
      rfl
  | cons id ids =>
    rw [hc] at old
    rcases old with none | same
    · simp only [merge, none]
      exact news.get?_insert_ite name name' (id :: ids)
    · rw [if_neg (List.cons_ne_nil id ids)] at same
      simp only [merge, same, merge_again]
      exact news.get?_insert_ite name name' (id :: ids)

end News

namespace ScriptSet.Change

theorem subscriptions_remove (c : Change) (name : String) :
    (c.remove name).registry.subscriptions = c.registry.subscriptions := rfl

theorem subscriptions_install (c : Change) (f : ScriptFunction Ref) :
    (c.install f).registry.subscriptions = c.registry.subscriptions := by
  unfold install
  split
  · rfl
  · simp only
    split <;> rfl

/-- The news so far is told to those who call the functions now. -/
def Timely (c : Change) : Prop :=
  ∀ name, c.news.get? name = none ∨ c.news.get? name = c.registry.hears name

theorem get?_news_next {c : Change} (h : c.Timely) (name : String) {news : Bool}
    (step : Registry → Option Redefined × Registry)
    (hs : (step c.registry).1 = if news then c.registry.news? name else none) (name' : String) :
    (c.next step).news.get? name' =
      if name' = name ∧ news then c.registry.hears name' else c.news.get? name' := by
  change (c.news.merge (step c.registry).1).get? name' = _
  rw [hs]
  cases news with
  | false => simp [News.merge]
  | true =>
    rw [if_pos rfl, News.get?_merge (h name)]
    by_cases here : name' = name <;> simp [here]

theorem Timely.next {c : Change} (h : c.Timely) (name : String) {news : Bool}
    {step : Registry → Option Redefined × Registry}
    (hs : (step c.registry).1 = if news then c.registry.news? name else none)
    (same : (step c.registry).2.subscriptions = c.registry.subscriptions) :
    (c.next step).Timely := by
  intro name'
  have heard : (c.next step).registry.hears name' = c.registry.hears name' :=
    Registry.hears_congr same name'
  rw [get?_news_next h name step hs, heard]
  split
  · exact .inr rfl
  · exact h name'

theorem Timely.remove {c : Change} (h : c.Timely) (name : String) : (c.remove name).Timely :=
  h.next name rfl rfl

theorem Timely.install {c : Change} (h : c.Timely) (f : ScriptFunction Ref) :
    (c.install f).Timely := by
  unfold Change.install
  split
  · have declared : (c.next (·.declare f.signature)).Timely := h.next f.signature.name rfl rfl
    exact declared.next f.signature.name rfl rfl
  · simp only
    split
    · exact (h.remove _).next f.signature.name rfl rfl
    · exact h.next f.signature.name rfl rfl

theorem get?_news_remove {c : Change} (h : c.Timely) (name name' : String) :
    (c.remove name).news.get? name' =
      if name' = name ∧ (c.registry.isDeclared name || c.registry.callables.contains name)
      then c.registry.hears name' else c.news.get? name' :=
  get?_news_next h name (·.remove name) rfl name'

/-- An installation is news if there was a function of the name, whatever it was. -/
theorem get?_news_install {c : Change} (h : c.Timely) (closed : c.registry.Closed)
    (f : ScriptFunction Ref) (name' : String) :
    (c.install f).news.get? name' =
      if name' = f.signature.name ∧ c.registry.isDeclared f.signature.name
      then c.registry.hears name' else c.news.get? name' := by
  have declaring {c : Change} (h : c.Timely) :=
    get?_news_next h f.signature.name (·.declare f.signature) rfl name'
  unfold install
  cases hb : f.body with
  | some e =>
    have timely : (c.next (·.declare f.signature)).Timely := h.next f.signature.name rfl rfl
    have declared : (c.next (·.declare f.signature)).registry.isDeclared f.signature.name := by
      simp [next, Registry.isDeclared, Table.contains]
    have heard : (c.next (·.declare f.signature)).registry.hears name' = c.registry.hears name' :=
      Registry.hears_congr rfl name'
    have defining := get?_news_next timely f.signature.name
      (·.define ⟨f.signature, .script e⟩) rfl name'
    refine defining.trans ?_
    rw [declaring h, heard, declared, Bool.not_true, Bool.or_false]
    change (if name' = f.signature.name ∧ c.registry.callables.contains f.signature.name then _
      else _) = _
    split
    · rename_i callable
      rw [if_pos ⟨callable.1, closed _ callable.2⟩]
    · rfl
  | none =>
    simp only
    split
    · rename_i callable
      have undeclared :
          (c.remove f.signature.name).registry.isDeclared f.signature.name = false := by
        simp [remove, next, Registry.isDeclared, Table.contains]
      refine (declaring (h.remove _)).trans ?_
      rw [undeclared, get?_news_remove h, callable, closed _ callable]
      simp
    · exact declaring h

theorem get?_signatures_install (c : Change) (f : ScriptFunction Ref) (name : String) :
    (c.install f).registry.signatures.get? name =
      if name = f.signature.name then some f.signature else c.registry.signatures.get? name := by
  unfold install
  cases hb : f.body with
  | some e =>
    simp only [next, Registry.get?_signatures_define, Registry.get?_signatures_declare]
    split <;> rfl
  | none =>
    simp only [next, Registry.get?_signatures_declare]
    split
    · rfl
    · rename_i other
      split
      · exact (Registry.get?_signatures_remove ..).trans (if_neg (Ne.symm other))
      · rfl

theorem get?_callables_install (c : Change) (f : ScriptFunction Ref) (name : String) :
    (c.install f).registry.callables.get? name =
      if name = f.signature.name then f.callable? else c.registry.callables.get? name := by
  unfold install ScriptFunction.callable?
  cases hb : f.body with
  | some e => exact Registry.get?_callables_define ..
  | none =>
    simp only
    split
    · refine (Registry.get?_callables_remove c.registry f.signature.name name).trans ?_
      by_cases here : name = f.signature.name
      · rw [if_pos here, if_pos here.symm]
        rfl
      · rw [if_neg here, if_neg (Ne.symm here)]
    · rename_i absent
      by_cases here : name = f.signature.name
      · rw [if_pos here, here]
        exact Option.not_isSome_iff_eq_none.mp absent
      · rw [if_neg here]
        rfl

theorem get?_signatures_remove (c : Change) (name name' : String) :
    (c.remove name).registry.signatures.get? name' =
      if name' = name then none else c.registry.signatures.get? name' :=
  c.registry.signatures.get?_erase_ite name name'

theorem get?_callables_remove (c : Change) (name name' : String) :
    (c.remove name).registry.callables.get? name' =
      if name' = name then none else c.registry.callables.get? name' :=
  c.registry.callables.get?_erase_ite name name'

theorem closed_remove {c : Change} (h : c.registry.Closed) (name : String) :
    (c.remove name).registry.Closed := by
  intro name' callable
  unfold Table.contains at callable
  unfold Registry.isDeclared Table.contains
  rw [get?_callables_remove] at callable
  rw [get?_signatures_remove]
  split at callable
  · cases callable
  · rename_i other
    rw [if_neg other]
    exact h name' callable

theorem closed_install {c : Change} (h : c.registry.Closed) (f : ScriptFunction Ref) :
    (c.install f).registry.Closed := by
  intro name callable
  unfold Table.contains at callable
  unfold Registry.isDeclared Table.contains
  rw [get?_callables_install] at callable
  rw [get?_signatures_install]
  split at callable
  · rename_i here
    rw [if_pos here]
    rfl
  · rename_i other
    rw [if_neg other]
    exact h name callable

/-- What several removals leave. -/
structure Removed (c : Change) (names : List String) (c' : Change) : Prop where
  timely : c'.Timely
  closed : c'.registry.Closed
  hears : ∀ name, c'.registry.hears name = c.registry.hears name
  signatures : ∀ name, c'.registry.signatures.get? name =
    if name ∈ names then none else c.registry.signatures.get? name
  callables : ∀ name, c'.registry.callables.get? name =
    if name ∈ names then none else c.registry.callables.get? name
  news : ∀ name, c'.news.get? name =
    if name ∈ names ∧ c.registry.isDeclared name then c.registry.hears name else c.news.get? name

theorem removeAll {c : Change} (timely : c.Timely) (closed : c.registry.Closed)
    (names : List String) : c.Removed names (names.foldl remove c) := by
  induction names generalizing c with
  | nil => exact ⟨timely, closed, fun _ => rfl, fun _ => rfl, fun _ => rfl, fun _ => rfl⟩
  | cons n names ih =>
    have rest := ih (timely.remove n) (closed_remove closed n)
    have heard (name : String) : (c.remove n).registry.hears name = c.registry.hears name :=
      Registry.hears_congr rfl name
    have declared (name : String) : (c.remove n).registry.isDeclared name =
        if name = n then false else c.registry.isDeclared name := by
      unfold Registry.isDeclared Table.contains
      rw [get?_signatures_remove]
      split <;> rfl
    have something : (c.registry.isDeclared n || c.registry.callables.contains n) =
        c.registry.isDeclared n := by
      cases hc : c.registry.callables.contains n with
      | false => rw [Bool.or_false]
      | true => rw [Bool.or_true, closed n hc]
    refine ⟨rest.timely, rest.closed, fun name => (rest.hears name).trans (heard name), ?_, ?_, ?_⟩
    · intro name
      refine (rest.signatures name).trans ?_
      rw [get?_signatures_remove]
      by_cases here : name = n <;> by_cases later : name ∈ names <;> simp [here, later]
    · intro name
      refine (rest.callables name).trans ?_
      rw [get?_callables_remove]
      by_cases here : name = n <;> by_cases later : name ∈ names <;> simp [here, later]
    · intro name
      refine (rest.news name).trans ?_
      rw [declared, heard, get?_news_remove timely, something]
      by_cases here : name = n <;> by_cases later : name ∈ names <;> simp [here, later]

/-- What several installations of functions with different names leave. -/
structure Installed (c : Change) (fs : List (ScriptFunction Ref)) (c' : Change) : Prop where
  timely : c'.Timely
  closed : c'.registry.Closed
  function : ∀ f ∈ fs, c'.registry.signatures.get? f.signature.name = some f.signature ∧
    c'.registry.callables.get? f.signature.name = f.callable?
  other : ∀ name, name ∉ fs.map (·.signature.name) →
    c'.registry.signatures.get? name = c.registry.signatures.get? name ∧
      c'.registry.callables.get? name = c.registry.callables.get? name
  news : ∀ name, c'.news.get? name =
    if name ∈ fs.map (·.signature.name) ∧ c.registry.isDeclared name then c.registry.hears name
    else c.news.get? name

theorem installAll {c : Change} (timely : c.Timely) (closed : c.registry.Closed)
    (fs : List (ScriptFunction Ref)) (distinct : (fs.map (·.signature.name)).Nodup) :
    c.Installed fs (fs.foldl install c) := by
  induction fs generalizing c with
  | nil =>
    exact ⟨timely, closed, fun f hf => (List.not_mem_nil hf).elim, fun _ _ => ⟨rfl, rfl⟩,
      fun _ => rfl⟩
  | cons g fs ih =>
    obtain ⟨first, later⟩ := List.nodup_cons.mp distinct
    have rest := ih (timely.install g) (closed_install closed g) later
    have heard (name : String) : (c.install g).registry.hears name = c.registry.hears name :=
      Registry.hears_congr (c.subscriptions_install g) name
    refine ⟨rest.timely, rest.closed, ?_, ?_, ?_⟩
    · refine List.forall_mem_cons.mpr ⟨?_, rest.function⟩
      obtain ⟨signature, callable⟩ := rest.other _ first
      rw [get?_signatures_install, if_pos rfl] at signature
      rw [get?_callables_install, if_pos rfl] at callable
      exact ⟨signature, callable⟩
    · intro name hn
      rw [List.map_cons, List.mem_cons, not_or] at hn
      obtain ⟨signature, callable⟩ := rest.other name hn.2
      rw [get?_signatures_install, if_neg hn.1] at signature
      rw [get?_callables_install, if_neg hn.1] at callable
      exact ⟨signature, callable⟩
    · intro name
      refine (rest.news name).trans ?_
      rw [heard, get?_news_install timely closed]
      by_cases here : name = g.signature.name
      · subst here
        simp [first]
      · have declared : (c.install g).registry.isDeclared name = c.registry.isDeclared name :=
          Registry.isDeclared_congr ((get?_signatures_install c g name).trans (if_neg here))
        rw [declared]
        simp [here]

end ScriptSet.Change

end LiveCalls
