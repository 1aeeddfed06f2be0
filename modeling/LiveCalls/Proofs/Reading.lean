import LiveCalls.Proofs.Settled

/-!
# What is read off the heap

A signature that is placed has its locations on the heap. Read off it again it is what it was, and
stays so as long as the heap only grows. So what a registry offers under a name can be told without
any heap, and compared with what the scripts say.
-/

namespace LiveCalls

open Value (Hold)

section
variable {α β : Type}

/-- The function with the locations in its defaults given in another way. -/
def ScriptFunction.map (f : α → β) (g : ScriptFunction α) : ScriptFunction β :=
  ⟨g.signature.map f, g.body⟩

/-- The script with the locations in its defaults given in another way. -/
def Script.map (f : α → β) (s : Script α) : Script β := ⟨s.functions.map (·.map f), s.triggers⟩

end

theorem Parameter.map_extend {p : Parameter Ref} {h h' : Heap} (hp : p.InHeap h)
    (he : h.Extends h') : p.map h'.read = p.map h.read := by
  obtain ⟨name, type, cardinality, default⟩ := p
  cases default with
  | none => rfl
  | some vs =>
    have same := ((Hold.self (hp vs rfl)).extend he).constants
    exact congrArg (fun cs => Parameter.mk name type cardinality (some cs)) same

theorem Parameter.map_place (p : Parameter Point) (h : Heap) :
    (p.place h).1.map (p.place h).2.read = p := by
  obtain ⟨name, type, cardinality, default⟩ := p
  cases default with
  | none => rfl
  | some cs =>
    have same := Constant.constants_placeAll cs h
    exact congrArg (fun cs => Parameter.mk name type cardinality (some cs)) same

theorem Parameter.map_placeAll (ps : List (Parameter Point)) (h : Heap) :
    (placeAll ps h).1.map (·.map (placeAll ps h).2.read) = ps := by
  induction ps generalizing h with
  | nil => rfl
  | cons p ps ih =>
    have first := map_extend (p.place_lays h).lies (placeAll_lays ps (p.place h).2).grows
    have placed : placeAll (p :: ps) h =
      ((p.place h).1 :: (placeAll ps (p.place h).2).1, (placeAll ps (p.place h).2).2) := rfl
    rw [placed, List.map_cons, first, p.map_place h, ih]

namespace Signature

theorem map_extend {s : Signature Ref} {h h' : Heap} (hs : s.InHeap h) (he : h.Extends h') :
    s.map h'.read = s.map h.read := by
  have same : s.parameters.map (·.map h'.read) = s.parameters.map (·.map h.read) :=
    List.map_congr_left fun p hp => Parameter.map_extend (hs p hp) he
  unfold map
  rw [same]

theorem map_place (s : Signature Point) (h : Heap) : (s.place h).1.map (s.place h).2.read = s := by
  have same := Parameter.map_placeAll s.parameters h
  exact congrArg (Signature.mk s.name · s.result) same

end Signature

namespace Script

theorem names_map {α β : Type} (f : α → β) (s : Script α) : (s.map f).names = s.names := by
  simp [names, map, ScriptFunction.map, Signature.map, Function.comp_def]

theorem map_placeFunctions (fs : List (ScriptFunction Point)) (h : Heap) :
    (placeFunctions fs h).1.map (·.map (placeFunctions fs h).2.read) = fs := by
  induction fs generalizing h with
  | nil => rfl
  | cons f fs ih =>
    have first := Signature.map_extend (f.signature.place_lays h).lies
      (placeFunctions_lays fs (f.signature.place h).2).grows
    have placed : placeFunctions (f :: fs) h =
      (⟨(f.signature.place h).1, f.body⟩ :: (placeFunctions fs (f.signature.place h).2).1,
        (placeFunctions fs (f.signature.place h).2).2) := rfl
    rw [placed, List.map_cons, ScriptFunction.map, first, f.signature.map_place h, ih]

theorem map_extend {s : Script Ref} {h h' : Heap} (hs : s.InHeap h) (he : h.Extends h') :
    s.map h'.read = s.map h.read := by
  have same : s.functions.map (·.map h'.read) = s.functions.map (·.map h.read) := by
    apply List.map_congr_left
    intro f hf
    rw [ScriptFunction.map, Signature.map_extend (hs f hf) he, ScriptFunction.map]
  unfold map
  rw [same]

/-- A placed script reads back as it was. -/
theorem map_place (s : Script Point) (h : Heap) : (s.place h).1.map (s.place h).2.read = s := by
  have same := map_placeFunctions s.functions h
  exact congrArg (Script.mk · s.triggers) same

end Script

theorem ScriptSet.map_placeAll (scripts : List (String × Script Point)) (h : Heap) :
    (placeAll scripts h).1.map (fun entry => (entry.1, entry.2.map (placeAll scripts h).2.read)) =
      scripts := by
  induction scripts generalizing h with
  | nil => rfl
  | cons entry rest ih =>
    obtain ⟨name, s⟩ := entry
    have first := Script.map_extend (s.place_lays h).lies (placeAll_lays rest (s.place h).2).grows
    have placed : placeAll ((name, s) :: rest) h =
      ((name, (s.place h).1) :: (placeAll rest (s.place h).2).1,
        (placeAll rest (s.place h).2).2) := rfl
    rw [placed, List.map_cons, first, s.map_place h, ih]

/-- What is found under the name of a function: its declared shape, and the shape and the body of
what there is to run. -/
structure Offer where
  signature : Signature Point
  callable : Option (Signature Point × Body)

def Callable.read (h : Heap) (f : Callable) : Signature Point × Body :=
  (f.signature.map h.read, f.body)

def Registry.offer? (r : Registry) (h : Heap) (name : String) : Option Offer :=
  (r.signatures.get? name).map fun s => ⟨s.map h.read, (r.callables.get? name).map (·.read h)⟩

def ScriptFunction.offer (f : ScriptFunction Point) : Offer :=
  ⟨f.signature, f.body.map fun e => (f.signature, .script e)⟩

def Builtin.offer (b : Builtin) : Offer := ⟨b.signature, some (b.signature, .builtin b)⟩

def offers (scripts : List (String × Script Point)) : List Offer :=
  Builtin.all.map Builtin.offer ++ scripts.flatMap (·.2.functions.map ScriptFunction.offer)

theorem mem_offers {scripts : List (String × Script Point)} {o : Offer} :
    o ∈ offers scripts ↔ (∃ b : Builtin, b.offer = o) ∨
      ∃ name script, (name, script) ∈ scripts ∧ ∃ f ∈ script.functions, f.offer = o := by
  simp [offers, Builtin.mem_all]

theorem Builtin.isName_name (b : Builtin) : isName b.name :=
  List.any_eq_true.mpr ⟨b, b.mem_all, decide_eq_true rfl⟩

theorem Builtin.map_signature {α β : Type} (f : α → β) (b : Builtin) :
    b.signature.map f = b.signature := by
  cases b <;> rfl

/-- What some scripts and the built-in functions have under a name. -/
def offered? (scripts : List (String × Script Point)) (name : String) : Option Offer :=
  (offers scripts).find? (·.signature.name = name)

theorem signature_offer {scripts : List (String × Script Point)} {o : Offer}
    (ho : o ∈ offers scripts) {g : Signature Point × Body} (hg : o.callable = some g) :
    g.1 = o.signature := by
  rcases mem_offers.mp ho with ⟨b, rfl⟩ | ⟨-, -, -, f, -, rfl⟩
  · cases hg
    rfl
  · obtain ⟨e, -, rfl⟩ := Option.map_eq_some_iff.mp hg
    rfl

namespace Registry

/-- A registry that declares the built-in functions and those of some scripts, and no others. -/
def Declares (r : Registry) (h : Heap) (scripts : List (String × Script Point)) : Prop :=
  ∀ name, (r.signatures.get? name).map (·.map h.read) = (offered? scripts name).map (·.signature)

/-- A registry that has the built-in functions and those of some scripts, and no others. -/
def Serves (r : Registry) (h : Heap) (scripts : List (String × Script Point)) : Prop :=
  ∀ name o, r.offer? h name = some o ↔ o ∈ offers scripts ∧ o.signature.name = name

/-- Registries that have the functions of the same scripts have the same, in whatever order the
scripts come and wherever their locations are. -/
theorem Serves.unique {r r' : Registry} {h h' : Heap}
    {scripts scripts' : List (String × Script Point)}
    (a : r.Serves h scripts) (b : r'.Serves h' scripts')
    (same : ∀ entry, entry ∈ scripts ↔ entry ∈ scripts') (name : String) :
    r.offer? h name = r'.offer? h' name := by
  apply Option.ext
  intro o
  rw [a, b, mem_offers, mem_offers]
  simp only [same]

theorem Serves.offer?_eq {r : Registry} {h : Heap} {scripts : List (String × Script Point)}
    (serves : r.Serves h scripts) (name : String) : r.offer? h name = offered? scripts name := by
  have found {o : Offer} (ho : offered? scripts name = some o) : r.offer? h name = some o := by
    have named := List.find?_some ho
    exact (serves name o).mpr ⟨List.mem_of_find?_eq_some ho, of_decide_eq_true named⟩
  cases ho : offered? scripts name with
  | some o => exact found ho
  | none =>
    cases hr : r.offer? h name with
    | none => rfl
    | some o =>
      obtain ⟨offered, named⟩ := (serves name o).mp hr
      exact absurd (decide_eq_true named) (List.find?_eq_none.mp ho o offered)

theorem Serves.declares {r : Registry} {h : Heap} {scripts : List (String × Script Point)}
    (serves : r.Serves h scripts) : r.Declares h scripts := by
  intro name
  rw [← serves.offer?_eq, offer?, Option.map_map]
  rfl

/-- The function of a script is in the registry under its name, and what there is to run of it has
its signature. -/
def Has (r : Registry) (h : Heap) (f : ScriptFunction Point) : Prop :=
  ∃ s : Signature Ref, s.InHeap h ∧ s.map h.read = f.signature ∧
    r.signatures.get? f.signature.name = some s ∧
    r.callables.get? f.signature.name = f.body.map fun e => ⟨s, .script e⟩

/-- The built-in function is in the registry under its name. -/
def HasBuiltin (r : Registry) (b : Builtin) : Prop :=
  r.signatures.get? b.name = some b.signature ∧
    r.callables.get? b.name = some ⟨b.signature, .builtin b⟩

theorem Has.offer {r : Registry} {h : Heap} {f : ScriptFunction Point} (hf : r.Has h f) :
    r.offer? h f.signature.name = some f.offer := by
  obtain ⟨s, -, same, signature, callable⟩ := hf
  simp only [offer?, signature, callable, Option.map_some, Option.map_map, ScriptFunction.offer,
    same]
  cases f.body with
  | none => rfl
  | some e => simp [Callable.read, same]

theorem HasBuiltin.offer {r : Registry} {b : Builtin} (hb : r.HasBuiltin b) (h : Heap) :
    r.offer? h b.name = some b.offer := by
  obtain ⟨signature, callable⟩ := hb
  simp only [offer?, signature, callable, Option.map_some, Callable.read, Builtin.offer,
    Builtin.map_signature]

theorem has_of_installed {r : Registry} {h : Heap} {g : ScriptFunction Ref}
    (lies : g.signature.InHeap h)
    (installed : r.signatures.get? g.signature.name = some g.signature ∧
      r.callables.get? g.signature.name = g.callable?) : r.Has h (g.map h.read) :=
  ⟨g.signature, lies, rfl, installed⟩

/-- A registry has the functions of some scripts if it has each of them and the built-in ones, and
declares no others. -/
theorem serves_of {r : Registry} {h : Heap} {scripts : List (String × Script Point)}
    (functions : ∀ name script, (name, script) ∈ scripts → ∀ f ∈ script.functions, r.Has h f)
    (builtins : ∀ b, r.HasBuiltin b)
    (only : ∀ f, r.isDeclared f →
      Builtin.isName f ∨ ∃ name script, (name, script) ∈ scripts ∧ f ∈ script.names) :
    r.Serves h scripts := by
  have named (b : Builtin) : b.offer.signature.name = b.name := by cases b <;> rfl
  intro f o
  rw [mem_offers]
  constructor
  · intro found
    obtain ⟨s, signature, -⟩ := Option.map_eq_some_iff.mp found
    rcases only f (isDeclared_of_get? signature) with builtin | ⟨name, script, hs, hf⟩
    · obtain ⟨b, -, same⟩ := List.any_eq_true.mp builtin
      obtain rfl : b.name = f := of_decide_eq_true same
      rw [(builtins b).offer h] at found
      cases found
      exact ⟨.inl ⟨b, rfl⟩, named b⟩
    · obtain ⟨g, hg, rfl⟩ := List.mem_map.mp hf
      rw [(functions name script hs g hg).offer] at found
      cases found
      exact ⟨.inr ⟨name, script, hs, g, hg, rfl⟩, rfl⟩
  · rintro ⟨⟨b, rfl⟩ | ⟨name, script, hs, g, hg, rfl⟩, rfl⟩
    · rw [named]
      exact (builtins b).offer h
    · exact (functions name script hs g hg).offer

end Registry

end LiveCalls
