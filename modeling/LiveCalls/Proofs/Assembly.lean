import LiveCalls.Proofs.FirstBinding
import Mathlib.Data.List.Nodup
import Mathlib.Data.List.Pairwise

/-!
# What a load makes of scripts

A load reads the files of a folder one after the other, and it might as well read all of them first.
What it makes of the scripts then does not depend on their order, as long as they go by different
names and no function is in two of them.
-/

namespace LiveCalls

namespace Table

variable {κ α : Type} [Ord κ] [Std.TransOrd κ] [Std.LawfulEqOrd κ]

def insertAll (t : Table κ α) (es : List (κ × α)) : Table κ α :=
  es.foldl (fun t e => t.insert e.1 e.2) t

variable [DecidableEq κ]

theorem get?_insertAll {es : List (κ × α)} (distinct : (es.map Prod.fst).Nodup) (t : Table κ α)
    {k : κ} {v : α} : (t.insertAll es).get? k = some v ↔
      (k, v) ∈ es ∨ k ∉ es.map Prod.fst ∧ t.get? k = some v := by
  unfold insertAll
  induction es generalizing t with
  | nil => simp
  | cons e es ih =>
    obtain ⟨k₀, v₀⟩ := e
    obtain ⟨first, rest⟩ := List.nodup_cons.mp distinct
    rw [List.foldl_cons, ih rest, get?_insert_ite]
    by_cases here : k = k₀
    · subst here
      have later : (k, v) ∉ es := fun hm => first (List.mem_map.mpr ⟨(k, v), hm, rfl⟩)
      simp [first, later, eq_comm]
    · simp [here]

theorem get?_ofList {es : List (κ × α)} (distinct : (es.map Prod.fst).Nodup) {k : κ} {v : α} :
    (ofList es).get? k = some v ↔ (k, v) ∈ es := by
  refine (get?_insertAll distinct empty).trans (or_iff_left ?_)
  rintro ⟨-, none⟩
  cases none

theorem insertAll_of_get? {t : Table κ α} {es : List (κ × α)}
    (there : ∀ e ∈ es, t.get? e.1 = some e.2) : t.insertAll es = t := by
  unfold insertAll
  induction es with
  | nil => rfl
  | cons e es ih =>
    obtain ⟨first, rest⟩ := List.forall_mem_cons.mp there
    have same : t.insert e.1 e.2 = t := by
      apply ext
      intro k
      rw [get?_insert_ite]
      split
      · rename_i here
        rw [here, first]
      · rfl
    rw [List.foldl_cons, same, ih rest]

end Table

namespace ScriptSet

/-- Loads scripts that were read before. -/
def loadScripts (root : Path) (scripts : List (String × Script Point)) (h : Heap) :
    Except LoadError Loaded := do
  let owners ← claimAll .empty scripts
  let (scripts, h) := placeAll scripts h
  let (set, diagnostics) := assemble root owners scripts
  .ok ⟨set, h, diagnostics⟩

theorem loadScripts_eq_ok_iff {root : Path} {scripts : List (String × Script Point)} {h : Heap}
    {out : Loaded} :
    loadScripts root scripts h = .ok out ↔ ∃ owners, claimAll .empty scripts = .ok owners ∧
      out = ⟨(assemble root owners (placeAll scripts h).1).1, (placeAll scripts h).2,
        (assemble root owners (placeAll scripts h).1).2⟩ := by
  unfold loadScripts
  rw [bind_eq_ok_iff]
  refine exists_congr fun owners => and_congr_right fun _ => ?_
  rw [Except.ok.injEq]
  exact eq_comm

theorem load_eq_ok_iff_loadScripts {d : Disk} {root : Path} {h : Heap} {out : Loaded} :
    load d root h = .ok out ↔ ∃ paths scripts, d.scripts root = .ok paths ∧
      d.readAll paths = .ok scripts ∧ loadScripts root scripts h = .ok out := by
  rw [load_eq_ok_iff]
  refine exists_congr fun paths => exists_congr fun scripts => ?_
  rw [loadScripts_eq_ok_iff]
  constructor
  · rintro ⟨owners, listed, gathered, same⟩
    obtain ⟨read, claims⟩ := gather_eq_ok_iff.mp gathered
    exact ⟨listed, read, owners, claims, same⟩
  · rintro ⟨listed, read, owners, claims, same⟩
    exact ⟨owners, listed, gather_eq_ok_iff.mpr ⟨read, claims⟩, same⟩

/-- Scripts can be loaded if and only if no two of their functions have the same name. -/
theorem loadScripts_isOk_iff {root : Path} {scripts : List (String × Script Point)} {h : Heap} :
    (∃ out, loadScripts root scripts h = .ok out) ↔ (scripts.flatMap (·.2.names)).Nodup := by
  have claims : (∃ owners, claimAll .empty scripts = .ok owners) ↔ _ := claimAll_isOk_iff
  simp only [loadScripts_eq_ok_iff]
  constructor
  · rintro ⟨-, owners, claimed, -⟩
    exact (claims.mp ⟨owners, claimed⟩).1
  · intro distinct
    obtain ⟨owners, claimed⟩ := claims.mpr ⟨distinct, fun _ _ => rfl⟩
    exact ⟨_, owners, claimed, rfl⟩

/-- Scripts that may be loaded together: they go by different names, and so do their functions, none
of which is called as a built-in function is. -/
structure Loadable {α : Type} (scripts : List (String × Script α)) : Prop where
  names : (scripts.map Prod.fst).Nodup
  functions : (scripts.flatMap (·.2.names)).Nodup
  custom : ∀ entry ∈ scripts, ∀ f ∈ entry.2.names, Builtin.isName f = false

/-- No function is in two scripts if and only if all of their functions have different names. -/
theorem nodup_functions_iff {α : Type} {scripts : List (String × Script α)}
    (names : (scripts.map Prod.fst).Nodup) (each : ∀ entry ∈ scripts, entry.2.names.Nodup) :
    (scripts.flatMap (·.2.names)).Nodup ↔ ∀ a ∈ scripts, ∀ b ∈ scripts, ∀ f,
      f ∈ a.2.names → f ∈ b.2.names → a.1 = b.1 := by
  rw [List.nodup_flatMap]
  constructor
  · rintro ⟨-, apart⟩ a ha b hb
    let one (a b : String × Script α) := ∀ f, f ∈ a.2.names → f ∈ b.2.names → a.1 = b.1
    have symmetric : Std.Symm one := ⟨fun a b same f hf hf' => (same f hf' hf).symm⟩
    have together : scripts.Pairwise one :=
      apart.imp fun disjoint f hf hf' => (disjoint hf hf').elim
    exact together.forall_of_forall (fun _ _ _ _ _ => rfl) ha hb
  · intro apart
    refine ⟨each, ?_⟩
    apply (List.pairwise_map.mp names).imp_of_mem
    intro a b ha hb other f hf hf'
    exact other (apart a ha b hb f hf hf')

theorem Loadable.perm {α : Type} {scripts scripts' : List (String × Script α)}
    (loadable : Loadable scripts) (same : scripts.Perm scripts') : Loadable scripts' := by
  constructor
  · exact (same.map Prod.fst).nodup_iff.mp loadable.names
  · exact (same.flatMap_right _).nodup_iff.mp loadable.functions
  · exact fun entry he => loadable.custom entry (same.mem_iff.mpr he)

/-- The scripts of a folder may be loaded together if no function is in two of them. -/
theorem loadable_readAll {d : Disk} {root : Path} {paths : List Path}
    {scripts : List (String × Script Point)} (listed : d.scripts root = .ok paths)
    (read : d.readAll paths = .ok scripts) (distinct : (scripts.flatMap (·.2.names)).Nodup) :
    Loadable scripts := by
  constructor
  · exact Disk.distinct_readAll listed read
  · exact distinct
  · rintro ⟨name, script⟩ hs f hf
    obtain ⟨p, -, -, compiled⟩ := (Disk.mem_readAll read).mp hs
    exact (Disk.script_distinct compiled).2 f hf

end ScriptSet

namespace Registry

theorem signatures_declareAll (r : Registry) (fs : List (ScriptFunction Ref)) :
    (ScriptSet.declareAll r fs).signatures =
      r.signatures.insertAll (fs.map fun f => (f.signature.name, f.signature)) := by
  unfold ScriptSet.declareAll Table.insertAll
  rw [List.foldl_map]
  induction fs generalizing r with
  | nil => rfl
  | cons f fs ih => exact ih _

theorem signatures_defineEach (r : Registry) (cs : List Callable) :
    (r.defineEach cs).signatures =
      r.signatures.insertAll (cs.map fun c => (c.signature.name, c.signature)) := by
  unfold defineEach Table.insertAll
  rw [List.foldl_map]
  induction cs generalizing r with
  | nil => rfl
  | cons c cs ih => exact ih _

theorem callables_defineEach (r : Registry) (cs : List Callable) :
    (r.defineEach cs).callables =
      r.callables.insertAll (cs.map fun c => (c.signature.name, c)) := by
  unfold defineEach Table.insertAll
  rw [List.foldl_map]
  induction cs generalizing r with
  | nil => rfl
  | cons c cs ih => exact ih _

theorem hasBuiltin_builtins (b : Builtin) : builtins.HasBuiltin b := by
  cases b <;> exact ⟨rfl, rfl⟩

theorem callables_builtins {name : String} (custom : Builtin.isName name = false) :
    builtins.callables.get? name = none := by
  cases hf : builtins.callables.get? name with
  | none => rfl
  | some f =>
    have declared := closed_builtins name (Table.contains_of_get? hf)
    rw [(isDeclared_builtins name).mp declared] at custom
    cases custom

section
variable {r r' : Registry} {fs : List (ScriptFunction Ref)}
  (distinct : (fs.map (·.signature.name)).Nodup)
include distinct

theorem get?_declareAll {f : ScriptFunction Ref} (hf : f ∈ fs) :
    (ScriptSet.declareAll r fs).signatures.get? f.signature.name = some f.signature := by
  rw [signatures_declareAll, Table.get?_insertAll (by rwa [List.map_map])]
  exact .inl (List.mem_map.mpr ⟨f, hf, rfl⟩)

theorem get?_declareAll_other {name : String} (other : name ∉ fs.map (·.signature.name)) :
    (ScriptSet.declareAll r fs).signatures.get? name = r.signatures.get? name := by
  apply Option.ext
  intro s
  rw [signatures_declareAll, Table.get?_insertAll (by rwa [List.map_map]), List.map_map]
  constructor
  · rintro (hs | ⟨-, before⟩)
    · obtain ⟨f, hf, same⟩ := List.mem_map.mp hs
      cases same
      exact absurd (List.mem_map_of_mem hf) other
    · exact before
  · exact fun before => .inr ⟨other, before⟩

theorem signatures_defineAll (same : (ScriptSet.declareAll r fs).SameFunctions r') :
    (ScriptSet.defineAll r' fs).signatures = (ScriptSet.declareAll r fs).signatures := by
  rw [defineAll_eq, signatures_defineEach, same.signatures]
  apply Table.insertAll_of_get?
  intro e he
  obtain ⟨c, hc, rfl⟩ := List.mem_map.mp he
  obtain ⟨f, hf, callable⟩ := List.mem_filterMap.mp hc
  obtain ⟨e, -, rfl⟩ := Option.map_eq_some_iff.mp callable
  exact get?_declareAll distinct hf

theorem mem_callables {f : ScriptFunction Ref} (hf : f ∈ fs) {g : Callable} :
    (f.signature.name, g) ∈ (fs.filterMap (·.callable?)).map (fun c => (c.signature.name, c)) ↔
      f.callable? = some g := by
  have own {f : ScriptFunction Ref} {g : Callable} (callable : f.callable? = some g) :
      g.signature.name = f.signature.name := by
    obtain ⟨e, -, rfl⟩ := Option.map_eq_some_iff.mp callable
    rfl
  rw [List.mem_map]
  constructor
  · rintro ⟨c, hc, same⟩
    obtain ⟨named, rfl⟩ := Prod.mk.inj same
    obtain ⟨f', hf', callable⟩ := List.mem_filterMap.mp hc
    have same : f' = f :=
      List.inj_on_of_nodup_map distinct hf' hf ((own callable).symm.trans named)
    rwa [same] at callable
  · intro callable
    exact ⟨g, List.mem_filterMap.mpr ⟨f, hf, callable⟩, by rw [own callable]⟩

omit distinct in
theorem names_callables :
    ((fs.filterMap (·.callable?)).map fun c => (c.signature.name, c)).map Prod.fst =
      (fs.filter (·.body.isSome)).map (·.signature.name) := by
  induction fs with
  | nil => rfl
  | cons f fs ih =>
    cases hb : f.body with
    | none => simpa [ScriptFunction.callable?, hb] using ih
    | some e => simpa [ScriptFunction.callable?, hb] using ih

theorem nodup_callables :
    (((fs.filterMap (·.callable?)).map fun c => (c.signature.name, c)).map Prod.fst).Nodup := by
  rw [names_callables]
  exact distinct.sublist (List.filter_sublist.map _)

/-- A function that is defined has what there is to run of it. -/
theorem get?_defineAll {f : ScriptFunction Ref} (hf : f ∈ fs)
    (fresh : r.callables.get? f.signature.name = none) :
    (ScriptSet.defineAll r fs).callables.get? f.signature.name = f.callable? := by
  apply Option.ext
  intro g
  rw [defineAll_eq, callables_defineEach, Table.get?_insertAll (nodup_callables distinct),
    mem_callables distinct hf, fresh]
  simp

theorem get?_defineAll_other {name : String} (other : name ∉ fs.map (·.signature.name)) :
    (ScriptSet.defineAll r fs).callables.get? name = r.callables.get? name := by
  have absent : name ∉ ((fs.filterMap (·.callable?)).map fun c =>
      (c.signature.name, c)).map Prod.fst := by
    rw [names_callables]
    intro hn
    obtain ⟨f, hf, named⟩ := List.mem_map.mp hn
    exact other (List.mem_map.mpr ⟨f, (List.mem_filter.mp hf).1, named⟩)
  apply Option.ext
  intro g
  rw [defineAll_eq, callables_defineEach, Table.get?_insertAll (nodup_callables distinct)]
  constructor
  · rintro (defined | ⟨-, before⟩)
    · exact absurd (List.mem_map_of_mem defined) absent
    · exact before
  · exact fun before => .inr ⟨absent, before⟩

end

end Registry

namespace ScriptSet

section
variable {root : Path} {owners : Table String String} {scripts : List (String × Script Ref)}
  (loadable : Loadable scripts)
include loadable

theorem Loadable.distinct :
    ((scripts.flatMap (·.2.functions)).map (·.signature.name)).Nodup := by
  rw [List.map_flatMap]
  exact loadable.functions

theorem Loadable.custom_function {f : ScriptFunction Ref}
    (hf : f ∈ scripts.flatMap (·.2.functions)) : Builtin.isName f.signature.name = false := by
  obtain ⟨entry, he, hf⟩ := List.mem_flatMap.mp hf
  exact loadable.custom entry he _ (List.mem_map_of_mem hf)

theorem signatures_assemble : (assemble root owners scripts).1.linkage.registry.signatures =
    (declareAll .builtins (scripts.flatMap (·.2.functions))).signatures := by
  obtain ⟨r, same, registry⟩ := sameFunctions_assemble root owners scripts
  rw [registry]
  exact Registry.signatures_defineAll loadable.distinct same

theorem function_assemble {f : ScriptFunction Ref} (hf : f ∈ scripts.flatMap (·.2.functions)) :
    let r := (assemble root owners scripts).1.linkage.registry
    r.signatures.get? f.signature.name = some f.signature ∧
      r.callables.get? f.signature.name = f.callable? := by
  obtain ⟨r, same, registry⟩ := sameFunctions_assemble root owners scripts
  constructor
  · rw [signatures_assemble loadable]
    exact Registry.get?_declareAll loadable.distinct hf
  · rw [registry]
    apply Registry.get?_defineAll loadable.distinct hf
    rw [same.callables, Registry.callables_declareAll]
    exact Registry.callables_builtins (loadable.custom_function hf)

theorem not_mem_of_builtin {name : String} (builtin : Builtin.isName name) :
    name ∉ (scripts.flatMap (·.2.functions)).map (·.signature.name) := by
  intro hn
  obtain ⟨f, hf, rfl⟩ := List.mem_map.mp hn
  rw [loadable.custom_function hf] at builtin
  cases builtin

theorem callables_assemble {name : String} {f : Callable}
    (hf : Registry.builtins.callables.get? name = some f) :
    (assemble root owners scripts).1.linkage.registry.callables.get? name = some f := by
  obtain ⟨r, same, registry⟩ := sameFunctions_assemble root owners scripts
  have builtin := (Registry.isDeclared_builtins name).mp
    (Registry.closed_builtins name (Table.contains_of_get? hf))
  rw [registry,
    Registry.get?_defineAll_other loadable.distinct (not_mem_of_builtin loadable builtin),
    same.callables, Registry.callables_declareAll]
  exact hf

theorem builtin_assemble (b : Builtin) :
    (assemble root owners scripts).1.linkage.registry.HasBuiltin b := by
  obtain ⟨signature, callable⟩ := Registry.hasBuiltin_builtins b
  have other := not_mem_of_builtin loadable b.isName_name
  refine ⟨?_, callables_assemble loadable callable⟩
  rw [signatures_assemble loadable, Registry.get?_declareAll_other loadable.distinct other]
  exact signature

end

theorem bindScripts_binds {l : Linkage} (h : l.Coherent) (loaded : Table String LoadedScript)
    (scripts : List (String × Script Ref)) :
    ∃ ids, l.Binds (bindScripts l loaded scripts).linkage ids := by
  induction scripts generalizing l loaded with
  | nil => exact ⟨[], .refl h⟩
  | cons entry rest ih =>
    obtain ⟨name, script⟩ := entry
    have first := Linkage.bindTriggers_binds h script.triggers
    obtain ⟨ids, later⟩ := ih first.coherent (loaded.insert name _)
    exact ⟨_, first.trans later⟩

theorem get?_bindScripts_other {l : Linkage} {loaded : Table String LoadedScript}
    {scripts : List (String × Script Ref)} {name : String} (other : name ∉ scripts.map Prod.fst) :
    (bindScripts l loaded scripts).kept.get? name = loaded.get? name := by
  induction scripts generalizing l loaded with
  | nil => rfl
  | cons entry rest ih =>
    obtain ⟨name', script⟩ := entry
    obtain ⟨first, later⟩ := not_or.mp (mt List.mem_cons.mpr other)
    exact (ih later).trans (Table.get?_insert_of_ne _ _ first)

/-- The sites that are kept for a script are those of its calls that a first validation accepts,
whatever other scripts are bound. -/
theorem bindScripts_sites {l : Linkage} (h : l.Coherent) (loaded : Table String LoadedScript)
    {scripts : List (String × Script Ref)} (distinct : (scripts.map Prod.fst).Nodup) :
    let bound := bindScripts l loaded scripts
    (∀ name script, (name, script) ∈ scripts → ∃ triggers,
      bound.kept.get? name = some ⟨script.names, triggers⟩ ∧
        triggers.map (·.sites bound.linkage.sites.live) =
          script.triggers.map (Trigger.bound l.registry)) ∧
      bound.diagnostics = scripts.flatMap (·.2.reports l.registry) := by
  induction scripts generalizing l loaded with
  | nil => exact ⟨fun _ _ hs => (List.not_mem_nil hs).elim, rfl⟩
  | cons entry rest ih =>
    obtain ⟨name', script'⟩ := entry
    obtain ⟨first, others⟩ := List.nodup_cons.mp distinct
    have bound := Linkage.bindTriggers_binds h script'.triggers
    obtain ⟨sites, reports⟩ := Linkage.bindTriggers_sites h script'.triggers
    obtain ⟨later, reportsLater⟩ := ih bound.coherent
      (loaded.insert name' ⟨script'.names, (l.bindTriggers script'.triggers).kept⟩) others
    rw [Trigger.bound_congr bound.functions] at later
    constructor
    · intro name script hs
      rcases List.mem_cons.mp hs with same | hs
      · cases same
        refine ⟨_, (get?_bindScripts_other first).trans (Table.get?_insert_self ..), ?_⟩
        obtain ⟨ids, rest⟩ := bindScripts_binds bound.coherent
          (loaded.insert name' ⟨script'.names, (l.bindTriggers script'.triggers).kept⟩) rest
        rw [← sites]
        exact LoadedTrigger.sites_congr fun id hid => rest.old id (bound.range id hid).2
      · exact later name script hs
    · rw [List.flatMap_cons, Script.reports, ← reports]
      refine congrArg (_ ++ ·) (reportsLater.trans ?_)
      unfold Script.reports
      rw [Trigger.reports_congr bound.functions]

theorem sites_link (l : Linkage) (t : LoadedTrigger) :
    t.sites (link l).sites.live =
      (t.event, (t.sites l.sites.live).2.map (·.resolve l.registry)) := by
  have found : t.calls.filterMap (link l).sites.live.get? =
      (t.calls.filterMap l.sites.live.get?).map (·.resolve l.registry) := by
    rw [List.map_filterMap]
    exact List.filterMap_congr fun id _ => live_link l id
  have anonymous (c : CallSite) :
      (c.resolve l.registry).anonymous = c.anonymous.resolve l.registry := by
    obtain ⟨id, function, arguments, binding, single, expected, site, uptake⟩ := c
    cases binding with
    | bound s f => cases f <;> rfl
    | unbound late => cases late <;> rfl
  simp only [LoadedTrigger.sites, found, List.map_map, Function.comp_def, anonymous]

section
variable {root : Path} {owners : Table String String} {scripts : List (String × Script Ref)}
  (loadable : Loadable scripts)
include loadable

/-- A call that is bound against what is declared, and given its callable afterwards, is bound as it
would be afterwards. -/
theorem bound_assemble (t : Trigger) :
    let declared := declareAll .builtins (scripts.flatMap (·.2.functions))
    let r := (assemble root owners scripts).1.linkage.registry
    (t.event, (t.bound declared).2.map (·.resolve r)) = t.bound r ∧
      t.reports declared = t.reports r := by
  intro declared r
  have signatures : r.signatures = declared.signatures := signatures_assemble loadable
  have callables : ∀ name f, declared.callables.get? name = some f →
      r.callables.get? name = some f := by
    intro name f hf
    rw [Registry.callables_declareAll] at hf
    exact callables_assemble loadable hf
  have call (call : WrittenCall) := call.resolve_bound? signatures callables
  constructor
  · simp only [Trigger.bound, List.map_filterMap]
    rw [List.filterMap_congr fun c _ => (call c).1]
  · exact List.flatMap_congr fun c _ => (call c).2.symm

/-- What is loaded of a script is what a first validation keeps of it once everything is defined,
and what is wrong with its other calls is reported. -/
theorem kept_assemble (h : Heap) :
    let set := (assemble root owners scripts).1
    (∀ name script, (name, script) ∈ scripts →
      (set.scripts.get? name).map (·.functions) = some script.names ∧
        set.kept h name = script.kept set.linkage.registry h) ∧
      (assemble root owners scripts).2 = scripts.flatMap (·.2.reports set.linkage.registry) := by
  intro set
  have start : Holding ⟨declareAll .builtins (scripts.flatMap (·.2.functions)), .empty⟩ .empty :=
    .start (subscriptions_declareAll _ _)
  obtain ⟨sites, reports⟩ := bindScripts_sites start.coherent .empty loadable.names
  let declared := declareAll .builtins (scripts.flatMap (·.2.functions))
  let bound := (bindScripts ⟨declared, .empty⟩ .empty scripts).linkage.sites
  constructor
  · intro name script hs
    obtain ⟨triggers, found, kept⟩ := sites name script hs
    have found : set.scripts.get? name = some ⟨script.names, triggers⟩ := found
    have version : set.version name = ⟨script.names, triggers⟩ := by
      unfold version
      rw [found, Option.getD_some]
    refine ⟨by rw [found, Option.map_some], ?_⟩
    apply kept_of_sites
    rw [version]
    calc triggers.map (·.sites set.linkage.sites.live)
        = (triggers.map (·.sites bound.live)).map fun entry =>
            (entry.1, entry.2.map (·.resolve set.linkage.registry)) := by
          rw [List.map_map]
          exact List.map_congr_left fun t _ => sites_link ⟨set.linkage.registry, bound⟩ t
      _ = (script.triggers.map (Trigger.bound declared)).map fun entry =>
            (entry.1, entry.2.map (·.resolve set.linkage.registry)) := by rw [kept]
      _ = script.triggers.map (Trigger.bound set.linkage.registry) := by
          rw [List.map_map]
          exact List.map_congr_left fun t _ => (bound_assemble loadable t).1
  · refine reports.trans ?_
    apply List.flatMap_congr
    intro entry _
    exact List.flatMap_congr fun t _ => (bound_assemble loadable t).2

end

theorem mem_placeAll {scripts : List (String × Script Point)} (h : Heap) {name : String}
    {script : Script Point} :
    (name, script) ∈ scripts ↔ ∃ placed, (name, placed) ∈ (placeAll scripts h).1 ∧
      placed.map (placeAll scripts h).2.read = script := by
  conv_lhs => rw [← map_placeAll scripts h]
  rw [List.mem_map]
  constructor
  · rintro ⟨⟨name', placed⟩, hp, same⟩
    cases same
    exact ⟨placed, hp, rfl⟩
  · rintro ⟨placed, hp, rfl⟩
    exact ⟨(name, placed), hp, rfl⟩

theorem Loadable.placeAll {scripts : List (String × Script Point)} (loadable : Loadable scripts)
    (h : Heap) : Loadable (ScriptSet.placeAll scripts h).1 := by
  have names := map_placeAll scripts h
  constructor
  · rw [names_placeAll]
    exact loadable.names
  · have functions := loadable.functions
    rw [← names, List.flatMap_map] at functions
    simpa only [Script.names_map] using functions
  · rintro ⟨name, placed⟩ hp f hf
    refine loadable.custom _ ((mem_placeAll h).mpr ⟨placed, hp, rfl⟩) f ?_
    rw [Script.names_map]
    exact hf

theorem loadScripts_other {root : Path} {scripts : List (String × Script Point)} {h : Heap}
    {out : Loaded} (loaded : loadScripts root scripts h = .ok out) {name : String}
    (other : name ∉ scripts.map Prod.fst) : out.set.scripts.get? name = none := by
  obtain ⟨owners, -, rfl⟩ := loadScripts_eq_ok_iff.mp loaded
  rw [← names_placeAll scripts h] at other
  exact get?_bindScripts_other other

section
variable {root : Path} {scripts : List (String × Script Point)} {h : Heap} {out : Loaded}
  (loadable : Loadable scripts) (loaded : loadScripts root scripts h = .ok out)
include loadable loaded

theorem loadScripts_has :
    (∀ name script, (name, script) ∈ scripts → ∀ f ∈ script.functions,
      out.set.linkage.registry.Has out.heap f) ∧
      ∀ b, out.set.linkage.registry.HasBuiltin b := by
  obtain ⟨owners, -, rfl⟩ := loadScripts_eq_ok_iff.mp loaded
  have placed := loadable.placeAll h
  refine ⟨?_, builtin_assemble placed⟩
  intro name script hs f hf
  obtain ⟨script', hp, rfl⟩ := (mem_placeAll h).mp hs
  obtain ⟨g, hg, rfl⟩ := List.mem_map.mp hf
  exact Registry.has_of_installed ((placeAll_lays scripts h).lies _ hp g hg)
    (function_assemble placed (List.mem_flatMap.mpr ⟨_, hp, hg⟩))

theorem loadScripts_serves : out.set.linkage.registry.Serves out.heap scripts := by
  obtain ⟨functions, builtins⟩ := loadScripts_has loadable loaded
  refine Registry.serves_of functions builtins ?_
  obtain ⟨owners, -, rfl⟩ := loadScripts_eq_ok_iff.mp loaded
  intro f declared
  refine ((isDeclared_assemble f).mp declared).imp id ?_
  rintro ⟨name, placed, hp, hf⟩
  refine ⟨name, _, (mem_placeAll h).mpr ⟨placed, hp, rfl⟩, ?_⟩
  rw [Script.names_map]
  exact hf

/-- What is kept of each script is what a first validation against the functions of all scripts
accepts, and what is wrong with the other calls is reported. -/
theorem loadScripts_kept :
    (∀ name script, (name, script) ∈ scripts →
      (out.set.scripts.get? name).map (·.functions) = some script.names ∧
        out.set.kept out.heap name = script.kept out.set.linkage.registry out.heap) ∧
      out.diagnostics = scripts.flatMap (·.2.reports out.set.linkage.registry) := by
  obtain ⟨owners, -, rfl⟩ := loadScripts_eq_ok_iff.mp loaded
  obtain ⟨kept, reports⟩ := kept_assemble (loadable.placeAll h) (placeAll scripts h).2
  constructor
  · intro name script hs
    obtain ⟨placed, hp, rfl⟩ := (mem_placeAll h).mp hs
    rw [Script.names_map]
    exact kept name placed hp
  · have same := congrArg (List.flatMap fun entry : String × Script Point =>
      entry.2.reports (assemble root owners (placeAll scripts h).1).1.linkage.registry)
      (map_placeAll scripts h)
    rw [List.flatMap_map] at same
    exact reports.trans same

/-- What is kept and reported can be told from any registry that has the functions of the scripts,
in whatever order the scripts are loaded. -/
theorem loadScripts_served {r : Registry} {h' : Heap} {scripts' : List (String × Script Point)}
    (serves : r.Serves h' scripts') (same : scripts.Perm scripts') :
    (∀ name script, (name, script) ∈ scripts →
      out.set.kept out.heap name = script.kept r h') ∧
      out.diagnostics = scripts.flatMap (·.2.reports r) := by
  obtain ⟨kept, reports⟩ := loadScripts_kept loadable loaded
  have offer := (loadScripts_serves loadable loaded).unique serves fun _ => same.mem_iff
  constructor
  · intro name script hs
    exact (kept name script hs).2.trans (script.kept_congr offer).1
  · exact reports.trans (List.flatMap_congr fun entry _ => (entry.2.kept_congr offer).2)

end

end ScriptSet

end LiveCalls
