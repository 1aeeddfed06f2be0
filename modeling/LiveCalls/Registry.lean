import LiveCalls.Callable
import LiveCalls.Table

/-!
# The registry of functions

Which functions are declared, which have something to run, and who calls them. A call site that
subscribes to a name is told when the function of that name is replaced or removed, until it is
forgotten. What is defined after a bare declaration is news to nobody. Removing a function keeps its
subscribers: they hear of its return if it is defined at once, and not if it is declared first.
-/

namespace LiveCalls

abbrev CallId := Nat

/-- One call site's interest in the function of one name. -/
structure Subscription where
  caller : CallId
  function : String
  deriving DecidableEq, Repr

instance : Ord Subscription where
  compare := compareLex (compareOn Subscription.caller) (compareOn Subscription.function)

instance : Std.TransOrd Subscription :=
  inferInstanceAs (Std.TransCmp (compareLex (compareOn Subscription.caller)
    (compareOn Subscription.function)))

instance : Std.LawfulEqOrd Subscription where
  eq_of_compare {a b} h := by
    have h : (compare a.caller b.caller).then (compare a.function b.function) = .eq := h
    rw [Ordering.then_eq_eq] at h
    obtain ⟨caller, function⟩ := a
    obtain ⟨caller', function'⟩ := b
    simp only [Std.LawfulEqOrd.compare_eq_iff_eq] at h
    simp [h]

/-- The functions of a session and their callers. -/
structure Registry where
  signatures : Table String (Signature Ref)
  callables : Table String Callable
  subscriptions : Table Subscription Unit

/-- The news that the function of a name was replaced or removed, for everyone who calls it. -/
structure Redefined where
  name : String
  callers : List CallId
  deriving DecidableEq, Repr

namespace Registry

def empty : Registry := ⟨.empty, .empty, .empty⟩

/-- The subscribers to a name, in the order of their identities. -/
def callers (r : Registry) (name : String) : List CallId :=
  (r.subscriptions.filter fun s _ => s.function = name).keys.map (·.caller)

def isDeclared (r : Registry) (name : String) : Bool := r.signatures.contains name

/-- The registry with a subscription. Subscribing twice is the same as once. -/
def subscribe (r : Registry) (name : String) (caller : CallId) : Registry :=
  { r with subscriptions := r.subscriptions.insert ⟨caller, name⟩ () }

def forget (r : Registry) (caller : CallId) : Registry :=
  { r with subscriptions := r.subscriptions.filter fun s _ => s.caller ≠ caller }

/-- The news about a name, unless nobody would hear it. -/
def news? (r : Registry) (name : String) : Option Redefined :=
  match r.callers name with
  | [] => none
  | callers => some ⟨name, callers⟩

/-- The registry with a signature declared. It is news if it replaces another. -/
def declare (r : Registry) (s : Signature Ref) : Option Redefined × Registry :=
  (if r.isDeclared s.name then r.news? s.name else none,
    { r with signatures := r.signatures.insert s.name s })

/-- The registry with a function installed together with its signature. It is news if it replaces
another or comes without a declaration; after a bare declaration it is what callers wait for. -/
def define (r : Registry) (c : Callable) : Option Redefined × Registry :=
  let name := c.signature.name
  (if r.callables.contains name || !r.isDeclared name then r.news? name else none,
    { r with
      signatures := r.signatures.insert name c.signature
      callables := r.callables.insert name c })

/-- The registry without the function of a name. It is news if there was one. -/
def remove (r : Registry) (name : String) : Option Redefined × Registry :=
  (if r.isDeclared name || r.callables.contains name then r.news? name else none,
    { r with signatures := r.signatures.erase name, callables := r.callables.erase name })

def builtins : Registry :=
  Builtin.all.foldl (fun r b => (r.define ⟨b.signature, .builtin b⟩).2) empty

theorem mem_callers {r : Registry} {name : String} {id : CallId} :
    id ∈ r.callers name ↔ r.subscriptions.get? ⟨id, name⟩ = some () := by
  simp only [callers, List.mem_map, Table.mem_keys_iff, Table.get?_filter]
  constructor
  · rintro ⟨⟨caller, function⟩, h, rfl⟩
    obtain ⟨u, hu⟩ := Option.isSome_iff_exists.mp h
    rw [Option.filter_eq_some_iff] at hu
    obtain ⟨hget, hname⟩ := hu
    obtain rfl : function = name := by simpa using hname
    exact hget
  · intro h
    exact ⟨⟨id, name⟩, by simp [h, Option.filter], rfl⟩

/-- A subscription adds its caller to the callers of its name and changes no others. -/
theorem mem_callers_subscribe {r : Registry} {name name' : String} {id caller : CallId} :
    id ∈ (r.subscribe name caller).callers name' ↔
      (id = caller ∧ name' = name) ∨ id ∈ r.callers name' := by
  simp only [mem_callers, subscribe, Table.get?_insert, Std.LawfulEqOrd.compare_eq_iff_eq]
  split
  · simp_all
  · rename_i h
    simp only [Subscription.mk.injEq] at h
    simp [h]

/-- A forgotten caller is nobody's caller, and the others stay. -/
theorem mem_callers_forget {r : Registry} {name : String} {id caller : CallId} :
    id ∈ (r.forget caller).callers name ↔ id ≠ caller ∧ id ∈ r.callers name := by
  simp only [mem_callers, forget, Table.get?_filter, Option.filter_eq_some_iff]
  simp [and_comm]

@[simp] theorem get?_signatures_declare (r : Registry) (s : Signature Ref) (name : String) :
    (r.declare s).2.signatures.get? name =
      if name = s.name then some s else r.signatures.get? name := by
  simp [declare, Table.get?_insert]

@[simp] theorem get?_signatures_define (r : Registry) (c : Callable) (name : String) :
    (r.define c).2.signatures.get? name =
      if name = c.signature.name then some c.signature else r.signatures.get? name := by
  simp [define, Table.get?_insert]

@[simp] theorem get?_callables_define (r : Registry) (c : Callable) (name : String) :
    (r.define c).2.callables.get? name =
      if name = c.signature.name then some c else r.callables.get? name := by
  simp [define, Table.get?_insert]

@[simp] theorem get?_signatures_remove (r : Registry) (name name' : String) :
    (r.remove name).2.signatures.get? name' =
      if name = name' then none else r.signatures.get? name' := by
  simp [remove, Table.get?_erase]

@[simp] theorem get?_callables_remove (r : Registry) (name name' : String) :
    (r.remove name).2.callables.get? name' =
      if name = name' then none else r.callables.get? name' := by
  simp [remove, Table.get?_erase]

end Registry

end LiveCalls
