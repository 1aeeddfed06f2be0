import LiveCalls.Manifest.Writer
import LiveCalls.Proofs.Terms
import Mathlib.Data.List.Forall2

/-!
# How manifests may be written

A manifest has more than one form in JSON. A number may be written in any way that denotes it, the
members of an object have no order, a part that is absent may be null or left out, and a part that
has the value of an absent one may be left out too.
-/

namespace LiveCalls

namespace Json

/-- The number is one way to write the double. -/
structure Number.Denotes (n : Number) (x : Float) : Prop where
  value : n.value = x
  finite : x.isFinite

/-- The members that an object has for fields with these values, where it leaves out those without
a value. -/
def present (fields : List (String × Option Json)) : List (String × Json) :=
  fields.filterMap fun field => field.2.map (field.1, ·)

/-- The JSON is an object with these fields and no others, in any order. -/
def IsRecord (fields : List (String × Option Json)) (j : Json) : Prop :=
  ∃ ms, j = .object ms ∧ ms.Perm (present fields)

end Json

/-- Whether a constant has a form in JSON: there is none for a number that is not finite. -/
def Constant.isFinite : Constant → Bool
  | .num x => x.isFinite
  | .loc p => p.x.isFinite && p.y.isFinite && p.z.isFinite
  | _ => true

/-- The forms of a constant. -/
inductive Constant.WrittenAs : Constant → Json → Prop
  | bool (b : Bool) : WrittenAs (.bool b) (.bool b)
  | num {n : Json.Number} {x : Float} : n.Denotes x → WrittenAs (.num x) (.number n)
  | str (s : String) : WrittenAs (.str s) (.string s)
  | loc {a b c : Json.Number} {p : Point} : a.Denotes p.x → b.Denotes p.y → c.Denotes p.z →
      WrittenAs (.loc p) (.object [("loc", .array [.number a, .number b, .number c])])

namespace Manifest

section
variable {α : Type} (W : α → Json → Prop)

/-- The forms of a part that may be absent, from those of one that is not. -/
inductive OptionalAs : Option α → Option Json → Prop
  | null : OptionalAs none (some .null)
  | leftOut : OptionalAs none none
  | given {a : α} {j : Json} : W a j → OptionalAs (some a) (some j)

/-- The forms of a part that has the value `absent` where it is left out. -/
inductive DefaultedAs (absent : α) : α → Option Json → Prop
  | leftOut : DefaultedAs absent absent none
  | given {a : α} {j : Json} : W a j → DefaultedAs absent a (some j)

/-- The forms of a list, item by item. -/
def ListAs (as : List α) (j : Json) : Prop := ∃ js, j = .array js ∧ List.Forall₂ W as js

end

namespace Term

mutual

/-- The forms of an expression. -/
def WrittenAs : Term → Json → Prop
  | many values, j => ListAs Constant.WrittenAs values j
  | var name, j => j = .object [("var", .string name)]
  | list items, j => ∃ js, j = .object [("list", .array js)] ∧ AllWrittenAs items js
  | one value, j => value.WrittenAs j

def AllWrittenAs : List Term → List Json → Prop
  | [], js => js = []
  | t :: ts, js => ∃ j rest, js = j :: rest ∧ t.WrittenAs j ∧ AllWrittenAs ts rest

end

/-- All numbers in an expression, at whatever depth, are finite. -/
def IsFinite (t : Term) : Prop := ∀ c ∈ t.leaves, c.isFinite

end Term

def Parameter.WrittenAs (p : Parameter) (j : Json) : Prop :=
  ∃ multiple default,
    DefaultedAs (fun b j => j = .bool b) false p.multiple multiple ∧
      OptionalAs Term.WrittenAs p.default default ∧
      j.IsRecord [("name", some (.string p.name)), ("type", some (.string p.type)),
        ("multiple", multiple), ("default", default)]

def Return.WrittenAs (r : Return) (j : Json) : Prop :=
  ∃ multiple, DefaultedAs (fun b j => j = .bool b) false r.multiple multiple ∧
    j.IsRecord [("type", some (.string r.type)), ("multiple", multiple)]

def Function.WrittenAs (f : Function) (j : Json) : Prop :=
  ∃ params returns body,
    DefaultedAs (ListAs Parameter.WrittenAs) [] f.params params ∧
      OptionalAs Return.WrittenAs f.returns returns ∧ OptionalAs Term.WrittenAs f.body body ∧
      j.IsRecord [("name", some (.string f.name)), ("params", params), ("returns", returns),
        ("body", body)]

def Call.WrittenAs (c : Call) (j : Json) : Prop :=
  ∃ args expect line,
    DefaultedAs (ListAs Term.WrittenAs) [] c.args args ∧
      OptionalAs (ListAs fun s j => j = .string s) c.expect expect ∧
      OptionalAs (fun n j => j = .number (.natural n)) c.line line ∧
      j.IsRecord [("function", some (.string c.function)), ("args", args), ("expect", expect),
        ("line", line)]

def Trigger.WrittenAs (t : Trigger) (j : Json) : Prop :=
  ∃ calls, DefaultedAs (ListAs Call.WrittenAs) [] t.calls calls ∧
    j.IsRecord [("on", some (.string t.event)), ("calls", calls)]

/-- The forms of a manifest. -/
def WrittenAs (m : Manifest) (j : Json) : Prop :=
  ∃ functions triggers,
    DefaultedAs (ListAs Function.WrittenAs) [] m.functions functions ∧
      DefaultedAs (ListAs Trigger.WrittenAs) [] m.triggers triggers ∧
      j.IsRecord [("functions", functions), ("triggers", triggers)]

/-- The expressions of a function: the defaults of its parameters and its body. -/
def Function.terms (f : Function) : List Term :=
  f.params.flatMap (·.default.toList) ++ f.body.toList

def terms (m : Manifest) : List Term :=
  m.functions.flatMap Function.terms ++ m.triggers.flatMap (·.calls.flatMap (·.args))

/-- All numbers in a manifest are finite. -/
def IsFinite (m : Manifest) : Prop := ∀ t ∈ m.terms, t.IsFinite

/-! ## What the writer gives -/

theorem number_denotes {x : Float} (finite : x.isFinite) :
    ∃ n : Json.Number, number x = .number n ∧ n.Denotes x :=
  ⟨.real x, if_pos finite, rfl, finite⟩

theorem writtenAs_constant {c : Constant} (finite : c.isFinite) : c.WrittenAs (constant c) := by
  cases c with
  | bool b => exact .bool b
  | str s => exact .str s
  | num x =>
    obtain ⟨n, written, denotes⟩ := number_denotes finite
    rw [constant, written]
    exact .num denotes
  | loc p =>
    simp only [Constant.isFinite, Bool.and_eq_true] at finite
    obtain ⟨⟨fx, fy⟩, fz⟩ := finite
    obtain ⟨a, wx, dx⟩ := number_denotes fx
    obtain ⟨b, wy, dy⟩ := number_denotes fy
    obtain ⟨c, wz, dz⟩ := number_denotes fz
    rw [constant, wx, wy, wz]
    exact .loc dx dy dz

section
variable {α : Type} {W : α → Json → Prop} {f : α → Json}

theorem listAs_map {as : List α} (written : ∀ a ∈ as, W a (f a)) :
    ListAs W as (.array (as.map f)) := by
  refine ⟨_, rfl, ?_⟩
  rw [List.forall₂_map_right_iff, List.forall₂_same]
  exact written

theorem optionalAs_orNull {a : Option α} (written : ∀ b ∈ a, W b (f b)) :
    OptionalAs W a (some (orNull f a)) := by
  cases a with
  | none => exact .null
  | some a => exact .given (written a rfl)

/-- An object is a record of its members. -/
theorem isRecord_object (ms : List (String × Json)) :
    (Json.object ms).IsRecord (ms.map fun m => (m.1, some m.2)) := by
  refine ⟨ms, rfl, ?_⟩
  rw [Json.present, List.filterMap_map]
  exact List.Perm.of_eq List.filterMap_some.symm

end

namespace Term

mutual

/-- The writer gives a form of an expression whose numbers are finite. -/
theorem writtenAs_toJson : (t : Term) → t.IsFinite → t.WrittenAs t.toJson
  | many _, finite => listAs_map fun c hc => writtenAs_constant (finite c hc)
  | var _, _ => rfl
  | list items, finite => ⟨_, rfl, allWrittenAs_toJsons items finite⟩
  | one value, finite => writtenAs_constant (finite value (List.mem_singleton_self value))

theorem allWrittenAs_toJsons : (ts : List Term) → (∀ c ∈ leavesAll ts, c.isFinite) →
    AllWrittenAs ts (toJsons ts)
  | [], _ => rfl
  | t :: ts, finite => by
    obtain ⟨first, rest⟩ := List.forall_mem_append.mp finite
    exact ⟨_, _, rfl, writtenAs_toJson t first, allWrittenAs_toJsons ts rest⟩

end

end Term

theorem Parameter.writtenAs_toJson {p : Parameter} (finite : ∀ t ∈ p.default, t.IsFinite) :
    p.WrittenAs p.toJson :=
  ⟨_, _, .given rfl, optionalAs_orNull fun t ht => t.writtenAs_toJson (finite t ht),
    isRecord_object _⟩

theorem Return.writtenAs_toJson (r : Return) : r.WrittenAs r.toJson :=
  ⟨_, .given rfl, isRecord_object _⟩

theorem Function.writtenAs_toJson {f : Function} (finite : ∀ t ∈ f.terms, t.IsFinite) :
    f.WrittenAs f.toJson := by
  obtain ⟨defaults, body⟩ := List.forall_mem_append.mp finite
  refine ⟨_, _, _, .given (listAs_map fun p hp => ?_),
    optionalAs_orNull fun r _ => r.writtenAs_toJson,
    optionalAs_orNull fun t ht => t.writtenAs_toJson (body t (Option.mem_toList.mpr ht)),
    isRecord_object _⟩
  exact Parameter.writtenAs_toJson fun t ht =>
    defaults t (List.mem_flatMap.mpr ⟨p, hp, Option.mem_toList.mpr ht⟩)

theorem Call.writtenAs_toJson {c : Call} (finite : ∀ t ∈ c.args, t.IsFinite) :
    c.WrittenAs c.toJson :=
  ⟨_, _, _, .given (listAs_map fun t ht => t.writtenAs_toJson (finite t ht)),
    optionalAs_orNull fun _ _ => listAs_map fun _ _ => rfl, optionalAs_orNull fun _ _ => rfl,
    isRecord_object _⟩

theorem Trigger.writtenAs_toJson {t : Trigger} (finite : ∀ c ∈ t.calls, ∀ e ∈ c.args, e.IsFinite) :
    t.WrittenAs t.toJson :=
  ⟨_, .given (listAs_map fun c hc => Call.writtenAs_toJson (finite c hc)), isRecord_object _⟩

theorem writtenAs_toJson {m : Manifest} (finite : m.IsFinite) : m.WrittenAs m.toJson := by
  obtain ⟨functions, triggers⟩ := List.forall_mem_append.mp finite
  refine ⟨_, _, .given (listAs_map fun f hf => ?_), .given (listAs_map fun t ht => ?_),
    isRecord_object _⟩
  · exact Function.writtenAs_toJson fun e he => functions e (List.mem_flatMap.mpr ⟨f, hf, he⟩)
  · exact Trigger.writtenAs_toJson fun c hc e he =>
      triggers e (List.mem_flatMap.mpr ⟨t, ht, List.mem_flatMap.mpr ⟨c, hc, he⟩⟩)

end Manifest

end LiveCalls
