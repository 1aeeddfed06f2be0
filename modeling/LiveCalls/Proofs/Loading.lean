import LiveCalls.Proofs.Gathering
import LiveCalls.Proofs.Ownership

namespace LiveCalls

theorem Script.names_place (s : Script Point) (h : Heap) : (s.place h).1.names = s.names := by
  have placing (fs : List (ScriptFunction Point)) (h : Heap) :
      (placeFunctions fs h).1.map (·.signature.name) = fs.map (·.signature.name) := by
    induction fs generalizing h with
    | nil => rfl
    | cons f fs ih => exact congrArg (f.signature.name :: ·) (ih _)
  exact placing s.functions h

namespace ScriptSet

/-- Scripts of other names are not loaded yet when one is. -/
theorem fresh_insert {loaded : Table String LoadedScript} {name : String} {names : List String}
    (first : name ∉ names) (fresh : ∀ n ∈ names, loaded.get? n = none) (script : LoadedScript) :
    ∀ n ∈ names, (loaded.insert name script).get? n = none := by
  intro n hn
  have other : n ≠ name := by
    rintro rfl
    exact first hn
  rw [Table.get?_insert_of_ne _ _ other]
  exact fresh n hn

/-- Binding the calls of scripts that go by different names keeps every call for one of them. -/
theorem holding_bindScripts {l : Linkage} {loaded : Table String LoadedScript}
    (h : Holding l loaded) {scripts : List (String × Script Ref)}
    (distinct : (scripts.map Prod.fst).Nodup)
    (fresh : ∀ name ∈ scripts.map Prod.fst, loaded.get? name = none) :
    Holding (bindScripts l loaded scripts).linkage (bindScripts l loaded scripts).kept := by
  induction scripts generalizing l loaded with
  | nil => exact h
  | cons entry rest ih =>
    obtain ⟨name, script⟩ := entry
    obtain ⟨first, others⟩ := List.nodup_cons.mp distinct
    obtain ⟨new, later⟩ := List.forall_mem_cons.mp fresh
    have bound := Linkage.bindTriggers_binds h.coherent script.triggers
    have kept : Holding (l.bindTriggers script.triggers).linkage
        (loaded.insert name ⟨script.names, (l.bindTriggers script.triggers).kept⟩) :=
      h.insert new bound
    exact ih kept others (fresh_insert first later _)

theorem subscriptions_declareAll (r : Registry) (fs : List (ScriptFunction Ref)) :
    (declareAll r fs).subscriptions = r.subscriptions := by
  unfold declareAll
  induction fs generalizing r with
  | nil => rfl
  | cons f fs ih => exact ih _

theorem subscriptions_defineAll (r : Registry) (fs : List (ScriptFunction Ref)) :
    (defineAll r fs).subscriptions = r.subscriptions := by
  unfold defineAll
  induction fs generalizing r with
  | nil => rfl
  | cons f fs ih =>
    rw [List.foldl_cons, ih]
    split <;> rfl

/-- The scripts of a folder, with their calls bound, keep every call for one of them. -/
theorem holding_assemble {root : Path} {owners : Table String String}
    {scripts : List (String × Script Ref)} (distinct : (scripts.map Prod.fst).Nodup) :
    Holding (assemble root owners scripts).1.linkage (assemble root owners scripts).1.scripts := by
  have start : Holding ⟨declareAll .builtins (scripts.flatMap (·.2.functions)), .empty⟩ .empty :=
    .start (subscriptions_declareAll _ _)
  have bound := holding_bindScripts start distinct fun _ _ => rfl
  have defined := bound.withRegistry
    (subscriptions_defineAll _ (scripts.flatMap (·.2.functions)))
  exact defined.transfer defined.coherent.link (Linkage.contains_link _)

theorem names_placeAll (scripts : List (String × Script Point)) (h : Heap) :
    (placeAll scripts h).1.map Prod.fst = scripts.map Prod.fst := by
  induction scripts generalizing h with
  | nil => rfl
  | cons entry rest ih =>
    obtain ⟨name, script⟩ := entry
    exact congrArg (name :: ·) (ih _)

theorem load_eq_ok_iff {d : Disk} {root : Path} {heap : Heap} {out : Loaded} :
    load d root heap = .ok out ↔
      ∃ paths scripts owners, d.scripts root = .ok paths ∧
        gather d .empty paths = .ok (scripts, owners) ∧
        out = ⟨(assemble root owners (placeAll scripts heap).1).1, (placeAll scripts heap).2,
          (assemble root owners (placeAll scripts heap).1).2⟩ := by
  unfold load
  simp only [bind_eq_ok_iff]
  constructor
  · rintro ⟨paths, listed, ⟨scripts, owners⟩, gathered, same⟩
    cases same
    exact ⟨paths, scripts, owners, listed, gathered, rfl⟩
  · rintro ⟨paths, scripts, owners, listed, gathered, rfl⟩
    exact ⟨paths, listed, (scripts, owners), gathered, rfl⟩

/-- A folder that is loaded has every call that is bound kept for one script. -/
theorem holding_load {d : Disk} {root : Path} {heap : Heap} {out : Loaded}
    (h : load d root heap = .ok out) : Holding out.set.linkage out.set.scripts := by
  obtain ⟨paths, scripts, owners, listed, gathered, rfl⟩ := load_eq_ok_iff.mp h
  refine holding_assemble ?_
  rw [names_placeAll]
  exact Disk.distinct_readAll listed (gather_eq_ok_iff.mp gathered).1

theorem functions_bindScripts {l : Linkage} {loaded : Table String LoadedScript}
    {scripts : List (String × Script Ref)} (distinct : (scripts.map Prod.fst).Nodup)
    (fresh : ∀ name ∈ scripts.map Prod.fst, loaded.get? name = none) (f name : String) :
    (∃ one, (bindScripts l loaded scripts).kept.get? name = some one ∧ f ∈ one.functions) ↔
      (∃ one, loaded.get? name = some one ∧ f ∈ one.functions) ∨
        ∃ script, (name, script) ∈ scripts ∧ f ∈ script.names := by
  induction scripts generalizing l loaded with
  | nil => simp [bindScripts]
  | cons entry rest ih =>
    obtain ⟨name', script⟩ := entry
    obtain ⟨first, others⟩ := List.nodup_cons.mp distinct
    obtain ⟨new, later⟩ := List.forall_mem_cons.mp fresh
    refine (ih others (fresh_insert first later _)).trans ?_
    rw [Table.get?_insert_ite]
    by_cases here : name = name'
    · subst here
      simp [new]
    · simp [here]

end ScriptSet

namespace Registry

/-- The registry with several callables installed. -/
def defineEach (r : Registry) (cs : List Callable) : Registry :=
  cs.foldl (fun r c => (r.define c).2) r

theorem builtins_eq :
    builtins = empty.defineEach (Builtin.all.map fun b => ⟨b.signature, .builtin b⟩) := by
  rw [defineEach, List.foldl_map]
  rfl

theorem isDeclared_define (r : Registry) (c : Callable) (name : String) :
    (r.define c).2.isDeclared name ↔ name = c.signature.name ∨ r.isDeclared name := by
  unfold isDeclared Table.contains
  rw [get?_signatures_define]
  split
  · rename_i here
    simp [here]
  · rename_i other
    simp [other]

theorem isDeclared_defineEach (r : Registry) (cs : List Callable) (name : String) :
    (r.defineEach cs).isDeclared name ↔
      (∃ c ∈ cs, c.signature.name = name) ∨ r.isDeclared name := by
  unfold defineEach
  induction cs generalizing r with
  | nil => simp
  | cons c cs ih =>
    refine (ih _).trans ?_
    rw [isDeclared_define]
    constructor
    · rintro (⟨d, hd, named⟩ | rfl | declared)
      · exact .inl ⟨d, List.mem_cons_of_mem _ hd, named⟩
      · exact .inl ⟨c, List.mem_cons_self, rfl⟩
      · exact .inr declared
    · rintro (⟨d, hd, named⟩ | declared)
      · rcases List.mem_cons.mp hd with rfl | hd
        · exact .inr (.inl named.symm)
        · exact .inl ⟨d, hd, named⟩
      · exact .inr (.inr declared)

theorem get?_callables_defineEach {r : Registry} {cs : List Callable} {name : String}
    {f : Callable} (h : (r.defineEach cs).callables.get? name = some f) :
    f ∈ cs ∧ f.signature.name = name ∨ r.callables.get? name = some f := by
  unfold defineEach at h
  induction cs generalizing r with
  | nil => exact .inr h
  | cons c cs ih =>
    rcases ih h with ⟨hf, named⟩ | before
    · exact .inl ⟨List.mem_cons_of_mem _ hf, named⟩
    · rw [get?_callables_define] at before
      split at before
      · rename_i here
        cases before
        exact .inl ⟨List.mem_cons_self, here.symm⟩
      · exact .inr before

theorem closed_defineEach {r : Registry} (h : r.Closed) (cs : List Callable) :
    (r.defineEach cs).Closed := by
  intro name callable
  obtain ⟨f, hf⟩ := Option.isSome_iff_exists.mp callable
  refine (isDeclared_defineEach r cs name).mpr ?_
  rcases get?_callables_defineEach hf with ⟨hf, named⟩ | before
  · exact .inl ⟨f, hf, named⟩
  · exact .inr (h name (by rw [Table.contains, before]; rfl))

theorem isDeclared_builtins (name : String) : builtins.isDeclared name ↔ Builtin.isName name := by
  rw [builtins_eq, isDeclared_defineEach, Builtin.isName, List.any_eq_true]
  constructor
  · rintro (⟨c, hc, named⟩ | declared)
    · obtain ⟨b, hb, rfl⟩ := List.mem_map.mp hc
      refine ⟨b, hb, decide_eq_true ?_⟩
      cases b <;> exact named
    · cases declared
  · rintro ⟨b, hb, named⟩
    refine .inl ⟨_, List.mem_map_of_mem hb, ?_⟩
    cases b <;> exact of_decide_eq_true named

theorem closed_builtins : builtins.Closed := by
  rw [builtins_eq]
  apply closed_defineEach
  intro name callable
  cases callable

theorem isDeclared_declareAll (r : Registry) (fs : List (ScriptFunction Ref)) (name : String) :
    (ScriptSet.declareAll r fs).isDeclared name ↔
      name ∈ fs.map (·.signature.name) ∨ r.isDeclared name := by
  unfold ScriptSet.declareAll
  induction fs generalizing r with
  | nil => simp
  | cons f fs ih =>
    refine (ih _).trans ?_
    have declared : (r.declare f.signature).2.isDeclared name ↔
        name = f.signature.name ∨ r.isDeclared name := by
      unfold isDeclared Table.contains
      rw [get?_signatures_declare]
      split
      · rename_i here
        simp [here]
      · rename_i other
        simp [other]
    rw [declared, List.map_cons, List.mem_cons]
    constructor
    · rintro (later | here | before)
      · exact .inl (.inr later)
      · exact .inl (.inl here)
      · exact .inr before
    · rintro ((here | later) | before)
      · exact .inr (.inl here)
      · exact .inl later
      · exact .inr (.inr before)

theorem callables_declareAll (r : Registry) (fs : List (ScriptFunction Ref)) :
    (ScriptSet.declareAll r fs).callables = r.callables := by
  unfold ScriptSet.declareAll
  induction fs generalizing r with
  | nil => rfl
  | cons f fs ih => exact ih _

theorem defineAll_eq (r : Registry) (fs : List (ScriptFunction Ref)) :
    ScriptSet.defineAll r fs = r.defineEach (fs.filterMap ScriptFunction.callable?) := by
  unfold ScriptSet.defineAll defineEach
  induction fs generalizing r with
  | nil => rfl
  | cons f fs ih =>
    rw [List.foldl_cons, ih]
    cases hb : f.body with
    | none => rw [List.filterMap_cons_none (by rw [ScriptFunction.callable?, hb]; rfl)]
    | some e =>
      rw [List.filterMap_cons_some (b := ⟨f.signature, .script e⟩)
        (by rw [ScriptFunction.callable?, hb]; rfl)]
      rfl

theorem closed_declareAll {r : Registry} (h : r.Closed) (fs : List (ScriptFunction Ref)) :
    (ScriptSet.declareAll r fs).Closed := by
  intro name callable
  rw [callables_declareAll] at callable
  exact (isDeclared_declareAll r fs name).mpr (.inr (h name callable))

theorem isDeclared_defineAll {r : Registry} {fs : List (ScriptFunction Ref)}
    (h : ∀ f ∈ fs, r.isDeclared f.signature.name) (name : String) :
    (ScriptSet.defineAll r fs).isDeclared name ↔ r.isDeclared name := by
  rw [defineAll_eq, isDeclared_defineEach]
  refine or_iff_right_of_imp ?_
  rintro ⟨c, hc, rfl⟩
  obtain ⟨f, hf, callable⟩ := List.mem_filterMap.mp hc
  obtain ⟨e, -, rfl⟩ := Option.map_eq_some_iff.mp callable
  exact h f hf

end Registry

namespace ScriptSet

theorem sameFunctions_bindScripts {l : Linkage} (h : l.Coherent)
    (loaded : Table String LoadedScript) (scripts : List (String × Script Ref)) :
    l.registry.SameFunctions (bindScripts l loaded scripts).linkage.registry := by
  induction scripts generalizing l loaded with
  | nil => exact .refl _
  | cons entry rest ih =>
    obtain ⟨name, script⟩ := entry
    have bound := Linkage.bindTriggers_binds h script.triggers
    exact bound.functions.trans (ih bound.coherent _)

/-- Which scripts have a function of a name does not depend on where their locations are. -/
theorem named_placeAll (scripts : List (String × Script Point)) (h : Heap) (name f : String) :
    (∃ script, (name, script) ∈ (placeAll scripts h).1 ∧ f ∈ script.names) ↔
      ∃ script, (name, script) ∈ scripts ∧ f ∈ script.names := by
  induction scripts generalizing h with
  | nil =>
    constructor
    · rintro ⟨_, hs, -⟩
      cases hs
    · rintro ⟨_, hs, -⟩
      cases hs
  | cons entry rest ih =>
    obtain ⟨name', script'⟩ := entry
    have placed : (placeAll ((name', script') :: rest) h).1 =
        (name', (script'.place h).1) :: (placeAll rest (script'.place h).2).1 := rfl
    rw [placed]
    simp only [List.mem_cons, Prod.mk.injEq, or_and_right, exists_or, and_assoc, exists_and_left,
      exists_eq_left, ih, Script.names_place]

theorem names_flatMap {scripts : List (String × Script Ref)} {f : String} :
    f ∈ (scripts.flatMap (·.2.functions)).map (·.signature.name) ↔
      ∃ name script, (name, script) ∈ scripts ∧ f ∈ script.names := by
  rw [List.map_flatMap, List.mem_flatMap]
  constructor
  · rintro ⟨⟨name, script⟩, hs, hf⟩
    exact ⟨name, script, hs, hf⟩
  · rintro ⟨name, script, hs, hf⟩
    exact ⟨(name, script), hs, hf⟩

theorem sameFunctions_assemble (root : Path) (owners : Table String String)
    (scripts : List (String × Script Ref)) :
    ∃ r, (declareAll .builtins (scripts.flatMap (·.2.functions))).SameFunctions r ∧
      (assemble root owners scripts).1.linkage.registry =
        defineAll r (scripts.flatMap (·.2.functions)) := by
  have start : Holding ⟨declareAll .builtins (scripts.flatMap (·.2.functions)), .empty⟩ .empty :=
    .start (subscriptions_declareAll _ _)
  exact ⟨_, sameFunctions_bindScripts start.coherent .empty scripts, rfl⟩

/-- The functions that are declared are those of the scripts and the built-in ones. -/
theorem isDeclared_assemble {root : Path} {owners : Table String String}
    {scripts : List (String × Script Ref)} (f : String) :
    (assemble root owners scripts).1.linkage.registry.isDeclared f ↔
      Builtin.isName f ∨ ∃ name script, (name, script) ∈ scripts ∧ f ∈ script.names := by
  obtain ⟨r, same, registry⟩ := sameFunctions_assemble root owners scripts
  have declared (g : String) : r.isDeclared g ↔
      g ∈ (scripts.flatMap (·.2.functions)).map (·.signature.name) ∨ Builtin.isName g := by
    rw [Registry.isDeclared, same.signatures, ← Registry.isDeclared_builtins]
    exact Registry.isDeclared_declareAll _ _ g
  rw [registry, Registry.isDeclared_defineAll, declared, names_flatMap, or_comm]
  intro g hg
  exact (declared _).mpr (.inl (List.mem_map_of_mem hg))

/-- The scripts of a folder, with their calls bound, own the functions that are declared. -/
theorem owned_assemble {root : Path} {owners : Table String String}
    {scripts : List (String × Script Ref)} (distinct : (scripts.map Prod.fst).Nodup)
    (owned : ∀ f name, owners.get? f = some name ↔
      ∃ script, (name, script) ∈ scripts ∧ f ∈ script.names)
    (custom : ∀ entry ∈ scripts, ∀ f ∈ entry.2.names, Builtin.isName f = false) :
    (assemble root owners scripts).1.Owned := by
  have owner (f : String) :
      owners.contains f ↔ ∃ name script, (name, script) ∈ scripts ∧ f ∈ script.names := by
    rw [Table.contains, Option.isSome_iff_exists]
    exact exists_congr (owned f)
  constructor
  · intro f name
    refine (owned f name).trans (.symm ?_)
    refine (functions_bindScripts distinct (fun _ _ => rfl) f name).trans (or_iff_right ?_)
    rintro ⟨one, none, -⟩
    cases none
  · intro f hf
    obtain ⟨name, script, hs, own⟩ := (owner f).mp hf
    exact custom _ hs f own
  · intro f
    exact (isDeclared_assemble f).trans (or_congr_right (owner f).symm)
  · obtain ⟨r, same, registry⟩ := sameFunctions_assemble root owners scripts
    have closed := Registry.closed_declareAll Registry.closed_builtins
      (scripts.flatMap (·.2.functions))
    rw [registry, Registry.defineAll_eq]
    refine Registry.closed_defineEach ?_ _
    unfold Registry.Closed Registry.isDeclared
    rw [same.signatures, same.callables]
    exact closed

/-- A folder that is loaded has the functions of its scripts, each from the one that it is in. -/
theorem owned_load {d : Disk} {root : Path} {heap : Heap} {out : Loaded}
    (h : load d root heap = .ok out) : out.set.Owned := by
  obtain ⟨paths, scripts, owners, listed, gathered, rfl⟩ := load_eq_ok_iff.mp h
  obtain ⟨free, owned⟩ := owners_gather gathered
  apply owned_assemble
  · rw [names_placeAll]
    exact Disk.distinct_readAll listed (gather_eq_ok_iff.mp gathered).1
  · intro f name
    rw [named_placeAll]
    refine (owned f name).trans (or_iff_right ?_)
    rintro ⟨⟩
  · rintro ⟨name, script⟩ hs f hf
    obtain ⟨script', hs', hf'⟩ := (named_placeAll scripts heap name f).mp ⟨script, hs, hf⟩
    exact (free _ hs' f hf').2

theorem fits_script {s : ScriptSet} {d : Disk} {name : String} {p : Path} {script : Script Point}
    (read : d.script name p = .ok script) (own : foreign? s.owners name script.names = none)
    (heap : Heap) : s.Fits name (script.place heap).1 := by
  obtain ⟨distinct, custom⟩ := Disk.script_distinct read
  refine ⟨?_, ?_, ?_⟩ <;> rw [Script.names_place]
  · exact distinct
  · exact custom
  · exact own

end ScriptSet

end LiveCalls
