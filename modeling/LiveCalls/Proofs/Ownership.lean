import LiveCalls.Proofs.News
import LiveCalls.Proofs.Notification
import LiveCalls.Proofs.Replacement

namespace LiveCalls

namespace ScriptSet

/-- The functions of the scripts are declared, each for the script that it is from, and besides
them the built-in ones. -/
structure Owned (s : ScriptSet) : Prop where
  owner : ∀ f name, s.owners.get? f = some name ↔
    ∃ loaded, s.scripts.get? name = some loaded ∧ f ∈ loaded.functions
  custom : ∀ f, s.owners.contains f → Builtin.isName f = false
  declared : ∀ f, s.linkage.registry.isDeclared f ↔ Builtin.isName f ∨ s.owners.contains f
  closed : s.linkage.registry.Closed

/-- A script that may take its place among these: its functions have different names, of which none
is that of a built-in function or one of another script. -/
structure Fits (s : ScriptSet) (name : String) (script : Script Ref) : Prop where
  distinct : script.names.Nodup
  custom : ∀ f ∈ script.names, Builtin.isName f = false
  own : foreign? s.owners name script.names = none

theorem foreign?_eq_none {owners : Table String String} {name : String} {fs : List String} :
    foreign? owners name fs = none ↔
      ∀ f ∈ fs, ∀ owner, owners.get? f = some owner → owner = name := by
  induction fs with
  | nil => simp [foreign?]
  | cons f fs ih =>
    unfold foreign?
    rw [List.forall_mem_cons]
    cases ho : owners.get? f with
    | none => simp [ih]
    | some owner =>
      by_cases own : owner = name
      · simp [own, ih]
      · simp [own]

theorem Fits.vacant (s : ScriptSet) (name : String) : s.Fits name vacant :=
  ⟨.nil, fun _ hf => (List.not_mem_nil hf).elim, rfl⟩

theorem functions_cleared (s : ScriptSet) (name : String) :
    s.linkage.registry.SameFunctions (s.cleared name).registry :=
  s.linkage.functions_forgetAll _

/-- The functions of the set after a replacement are those that were installed. -/
theorem functions_told {s : ScriptSet} (h : Holding s.linkage s.scripts) (name : String)
    (script : Script Ref) :
    (s.installed name script).registry.SameFunctions (s.told name script).linkage.registry := by
  have rebuilt := (rebuilt_binds h name script).functions
  unfold told
  rw [passOn_eq]
  exact rebuilt.trans (Linkage.functions_notify _ _)

theorem get?_disown (owners : Table String String) (fs : List String) (f : String) :
    (disown owners fs).get? f = if f ∈ fs then none else owners.get? f := by
  unfold disown
  induction fs generalizing owners with
  | nil => rfl
  | cons g fs ih =>
    rw [List.foldl_cons, ih, Table.get?_erase_ite]
    by_cases here : f = g <;> by_cases later : f ∈ fs <;> simp [here, later]

theorem get?_reowned (s : ScriptSet) (name : String) (script : Script Ref) (f : String) :
    (s.reowned name script).get? f =
      if f ∈ script.names then some name
      else if f ∈ (s.version name).functions then none else s.owners.get? f := by
  have owning (fs : List String) (owners : Table String String) :
      (fs.foldl (·.insert · name) owners).get? f =
        if f ∈ fs then some name else owners.get? f := by
    induction fs generalizing owners with
    | nil => rfl
    | cons g fs ih =>
      rw [List.foldl_cons, ih, Table.get?_insert_ite]
      by_cases here : f = g <;> by_cases later : f ∈ fs <;> simp [here, later]
  unfold reowned gone
  rw [owning, get?_disown]
  by_cases new : f ∈ script.names <;> by_cases old : f ∈ (s.version name).functions <;>
    simp [new, old]

/-- What is installed by a replacement. -/
structure Installs (s : ScriptSet) (name : String) (script : Script Ref) (c : Change) : Prop where
  closed : c.registry.Closed
  function : ∀ f ∈ script.functions,
    c.registry.signatures.get? f.signature.name = some f.signature ∧
      c.registry.callables.get? f.signature.name = f.callable?
  gone : ∀ f ∈ (s.version name).functions, f ∉ script.names →
    c.registry.signatures.get? f = none ∧ c.registry.callables.get? f = none
  other : ∀ f, f ∉ (s.version name).functions → f ∉ script.names →
    c.registry.signatures.get? f = s.linkage.registry.signatures.get? f ∧
      c.registry.callables.get? f = s.linkage.registry.callables.get? f
  news : ∀ f, c.news.get? f =
    if f ∈ (s.version name).functions then (s.cleared name).registry.hears f else none

theorem mem_version {s : ScriptSet} (h : s.Owned) {name f : String} :
    f ∈ (s.version name).functions ↔ s.owners.get? f = some name :=
  mem_functions_version.trans (h.owner f name).symm

section
variable {s : ScriptSet} (h : s.Owned) (name : String)
include h

theorem closed_cleared : (s.cleared name).registry.Closed := by
  have same := s.functions_cleared name
  unfold Registry.Closed Registry.isDeclared
  rw [same.callables, same.signatures]
  exact h.closed

theorem isDeclared_cleared (f : String) :
    (s.cleared name).registry.isDeclared f ↔ Builtin.isName f ∨ s.owners.contains f := by
  rw [Registry.isDeclared, (s.functions_cleared name).signatures]
  exact h.declared f

theorem old_isDeclared {f : String} (old : f ∈ (s.version name).functions) :
    (s.cleared name).registry.isDeclared f := by
  have owned := Table.contains_of_get? ((mem_version h).mp old)
  exact (isDeclared_cleared h name f).mpr (.inr owned)

/-- A function that a script gets anew is not known before. -/
theorem new_not_isDeclared {script : Script Ref} (fits : s.Fits name script) {f : String}
    (new : f ∈ script.names) (old : f ∉ (s.version name).functions) :
    (s.cleared name).registry.isDeclared f = false := by
  apply Bool.eq_false_iff.mpr
  intro declared
  rcases (isDeclared_cleared h name f).mp declared with builtin | owned
  · rw [fits.custom f new] at builtin
    cases builtin
  · obtain ⟨owner, ho⟩ := Option.isSome_iff_exists.mp owned
    obtain rfl := foreign?_eq_none.mp fits.own f new owner ho
    exact old ((mem_version h).mpr ho)

theorem removed (script : Script Ref) : Change.Removed ⟨(s.cleared name).registry, .empty⟩
    (s.gone name script)
    ((s.gone name script).foldl Change.remove ⟨(s.cleared name).registry, .empty⟩) :=
  Change.removeAll (fun _ => .inl rfl) (closed_cleared h name) (s.gone name script)

/-- A replacement is news about the functions of the old version, and about no others: those that it
adds are not known yet, or nobody is told of their return. -/
theorem installs {script : Script Ref} (fits : s.Fits name script) :
    s.Installs name script (s.installed name script) := by
  have same := s.functions_cleared name
  have removed := removed h name script
  have installed := Change.installAll removed.timely removed.closed script.functions fits.distinct
  have mem_gone (f : String) :
      f ∈ s.gone name script ↔ f ∈ (s.version name).functions ∧ f ∉ script.names := by
    simp [gone]
  constructor
  · exact installed.closed
  · exact installed.function
  · intro f hf hn
    obtain ⟨signature, callable⟩ := installed.other f hn
    rw [removed.signatures, if_pos ((mem_gone f).mpr ⟨hf, hn⟩)] at signature
    rw [removed.callables, if_pos ((mem_gone f).mpr ⟨hf, hn⟩)] at callable
    exact ⟨signature, callable⟩
  · intro f hf hn
    have stays : f ∉ s.gone name script := fun hg => hf ((mem_gone f).mp hg).1
    obtain ⟨signature, callable⟩ := installed.other f hn
    rw [removed.signatures, if_neg stays] at signature
    rw [removed.callables, if_neg stays] at callable
    exact ⟨signature.trans (congrArg (·.get? f) same.signatures),
      callable.trans (congrArg (·.get? f) same.callables)⟩
  · intro f
    apply (installed.news f).trans
    rw [removed.hears, removed.news]
    by_cases new : f ∈ script.names
    · have stays : f ∉ s.gone name script := fun hg => ((mem_gone f).mp hg).2 new
      rw [Registry.isDeclared_congr ((removed.signatures f).trans (if_neg stays))]
      by_cases hf : f ∈ (s.version name).functions
      · rw [if_pos ⟨new, old_isDeclared h name hf⟩, if_pos hf]
      · have unknown := new_not_isDeclared h name fits new hf
        rw [unknown, if_neg (fun both => Bool.false_ne_true both.2),
          if_neg (fun both => Bool.false_ne_true both.2), if_neg hf]
        rfl
    · rw [if_neg fun both => new both.1]
      by_cases hf : f ∈ (s.version name).functions
      · rw [if_pos ⟨(mem_gone f).mpr ⟨hf, new⟩, old_isDeclared h name hf⟩, if_pos hf]
      · rw [if_neg fun both => hf ((mem_gone f).mp both.1).1, if_neg hf]
        rfl

section
variable {script : Script Ref} (fits : s.Fits name script)
include fits

theorem custom_reowned (f : String) (owned : (s.reowned name script).contains f) :
    Builtin.isName f = false := by
  unfold Table.contains at owned
  rw [get?_reowned] at owned
  split at owned
  · rename_i new
    exact fits.custom f new
  · split at owned
    · cases owned
    · exact h.custom f owned

theorem owner_reowned (f name' : String) :
    (s.reowned name script).get? f = some name' ↔
      if name' = name then f ∈ script.names
      else ∃ loaded, s.scripts.get? name' = some loaded ∧ f ∈ loaded.functions := by
  rw [get?_reowned, ← h.owner]
  by_cases new : f ∈ script.names
  · rw [if_pos new]
    split
    · rename_i here
      exact iff_of_true (congrArg some here.symm) new
    · rename_i other
      apply iff_of_false (fun he => other (Option.some.inj he).symm)
      intro owned
      exact other (foreign?_eq_none.mp fits.own f new name' owned)
  · rw [if_neg new]
    by_cases old : f ∈ (s.version name).functions
    · rw [if_pos old]
      apply iff_of_false (Option.some_ne_none name').symm
      intro owned
      split at owned
      · exact new owned
      · rename_i other
        rw [(mem_version h).mp old] at owned
        exact other (Option.some.inj owned).symm
    · rw [if_neg old]
      split
      · rename_i here
        rw [here]
        exact iff_of_false (fun owned => old ((mem_version h).mpr owned)) new
      · rfl

theorem isDeclared_installed (f : String) : (s.installed name script).registry.isDeclared f ↔
    Builtin.isName f ∨ (s.reowned name script).contains f := by
  have installed := installs h name fits
  rw [Table.contains, get?_reowned]
  by_cases new : f ∈ script.names
  · obtain ⟨g, hg, rfl⟩ := List.mem_map.mp new
    rw [if_pos new]
    exact iff_of_true (Registry.isDeclared_of_get? (installed.function g hg).1) (.inr rfl)
  · rw [if_neg new]
    by_cases old : f ∈ (s.version name).functions
    · rw [if_pos old, Registry.isDeclared, Table.contains, (installed.gone f old new).1]
      apply iff_of_false Bool.false_ne_true
      rintro (builtin | owned)
      · rw [h.custom f (Table.contains_of_get? ((mem_version h).mp old))] at builtin
        cases builtin
      · cases owned
    · rw [if_neg old, Registry.isDeclared_congr (installed.other f old new).1]
      exact h.declared f

theorem owned_of_installs {t : ScriptSet} (owners : t.owners = s.reowned name script)
    (functions : (s.installed name script).registry.SameFunctions t.linkage.registry)
    (scripts : ∀ f name', (∃ loaded, t.scripts.get? name' = some loaded ∧ f ∈ loaded.functions) ↔
      if name' = name then f ∈ script.names
      else ∃ loaded, s.scripts.get? name' = some loaded ∧ f ∈ loaded.functions) : t.Owned := by
  constructor
  · intro f name'
    rw [owners, scripts]
    exact owner_reowned h name fits f name'
  · rw [owners]
    exact custom_reowned h name fits
  · intro f
    rw [owners, Registry.isDeclared, functions.signatures]
    exact isDeclared_installed h name fits f
  · unfold Registry.Closed Registry.isDeclared
    rw [functions.callables, functions.signatures]
    exact (installs h name fits).closed

end

end

theorem owned_replace {s : ScriptSet} (held : Holding s.linkage s.scripts) (h : s.Owned)
    {name : String} {script : Script Ref} (fits : s.Fits name script) :
    (s.replace name script).1.Owned := by
  apply owned_of_installs h name fits rfl (functions_told held name script)
  intro f name'
  rw [replace_eq]
  simp only [Table.get?_insert_ite]
  split
  · simp
  · rfl

theorem owned_unload {s : ScriptSet} (held : Holding s.linkage s.scripts) (h : s.Owned)
    (name : String) (heap : Heap) : (s.unload name heap).set.Owned := by
  rw [unload_eq]
  apply owned_of_installs h name (.vacant s name) rfl (functions_told held name vacant)
  intro f name'
  simp only [Table.get?_erase_ite]
  split
  · refine iff_of_false ?_ List.not_mem_nil
    rintro ⟨loaded, hs, -⟩
    cases hs
  · rfl

theorem functions_makeCalls (ctx : Context) (l : Linkage) (w : World)
    (calls : List (String × CallId)) : (makeCalls ctx l w calls).2.1.registry = l.registry := by
  induction calls generalizing l w with
  | nil => rfl
  | cons call rest ih =>
    obtain ⟨script, id⟩ := call
    unfold makeCalls
    split
    · exact ih l w
    · exact ih _ _

theorem owned_fire {s : ScriptSet} (h : s.Owned) (event : String) (ctx : Context) (w : World) :
    (s.fire event ctx w).2.1.Owned := by
  have same : (s.fire event ctx w).2.1.linkage.registry = s.linkage.registry :=
    functions_makeCalls ctx s.linkage w _
  refine ⟨h.owner, h.custom, ?_, ?_⟩
  · rw [same]
    exact h.declared
  · rw [same]
    exact h.closed

end ScriptSet

end LiveCalls
