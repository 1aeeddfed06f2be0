import LiveCalls.Manifest.Reader
import LiveCalls.Proofs.Spelling

/-!
# Reading what is written

Whichever form of a manifest is read, the manifest itself comes back. An expression is tried in four
forms, one after the other, and the only one that fits is the one it was written in, so that the
order in which they are tried does not matter for what was written.
-/

namespace LiveCalls

theorem mapM_eq_some_of_forall₂ {α β : Type} {f : α → Option β} {xs : List α} {ys : List β}
    (h : List.Forall₂ (fun x y => f x = some y) xs ys) : xs.mapM f = some ys := by
  induction h with
  | nil => rfl
  | cons first _ rest => rw [List.mapM_cons, first, rest]; rfl

/-- Where only one attempt succeeds, it is the one that counts, whatever the order. -/
theorem findSome?_of_only {α β : Type} [DecidableEq α] {f : α → Option β} {a : α} {b : β}
    (only : ∀ x, f x = if x = a then some b else none) {xs : List α} (among : a ∈ xs) :
    xs.findSome? f = some b := by
  induction xs with
  | nil => cases among
  | cons x xs ih =>
    rw [List.findSome?_cons, only x]
    by_cases own : x = a
    · rw [if_pos own]
    · rw [if_neg own]
      exact ih ((List.mem_cons.mp among).resolve_left (Ne.symm own))

namespace Json

theorem named_eq_map_filter (name : String) (ms : List (String × Json)) :
    named name ms = (ms.filter (·.1 = name)).map Prod.snd := by
  induction ms with
  | nil => rfl
  | cons m ms ih =>
    by_cases here : m.1 = name <;> simp [named, here, ih]

/-- The order of the members does not matter to the one member of a name. -/
theorem named_eq_of_perm {ms ms' : List (String × Json)} (h : ms.Perm ms') {name : String}
    {j : Option Json} (found : named name ms' = j.toList) : named name ms = j.toList := by
  have perm : (named name ms).Perm (named name ms') := by
    rw [named_eq_map_filter, named_eq_map_filter]
    exact (h.filter _).map _
  rw [found] at perm
  cases j with
  | none => exact perm.eq_nil
  | some j => exact List.perm_singleton.mp perm

theorem named_present_cons (name : String) (field : String × Option Json)
    (fields : List (String × Option Json)) :
    named name (present (field :: fields)) =
      (if field.1 = name then field.2.toList else []) ++ named name (present fields) := by
  obtain ⟨key, _ | j⟩ := field
  · simp [present]
  · by_cases here : key = name <;> simp [present, named, here]

theorem named_present_of_not_mem {name : String} {fields : List (String × Option Json)}
    (h : name ∉ fields.map Prod.fst) : named name (present fields) = [] := by
  induction fields with
  | nil => rfl
  | cons field fields ih =>
    rw [List.map_cons, List.mem_cons, not_or] at h
    rw [named_present_cons, if_neg (Ne.symm h.1), ih h.2]
    rfl

/-- Of fields with different names each is found under its own. -/
theorem named_present {fields : List (String × Option Json)}
    (distinct : (fields.map Prod.fst).Nodup) {field : String × Option Json} (h : field ∈ fields) :
    named field.1 (present fields) = field.2.toList := by
  induction fields with
  | nil => cases h
  | cons first fields ih =>
    obtain ⟨other, distinct⟩ := List.nodup_cons.mp distinct
    rw [named_present_cons]
    rcases List.mem_cons.mp h with rfl | h
    · rw [if_pos rfl, named_present_of_not_mem other, List.append_nil]
    · have apart : first.1 ≠ field.1 := fun same => other (same ▸ List.mem_map_of_mem h)
      rw [if_neg apart, ih distinct h]
      rfl

theorem record?_of_isRecord {names : List String} {fields : List (String × Option Json)}
    (distinct : names.Nodup) (same : fields.map Prod.fst = names) {j : Json}
    (h : j.IsRecord fields) : j.record? names = some (fields.map Prod.snd) := by
  subst same
  obtain ⟨ms, rfl, perm⟩ := h
  apply mapM_eq_some_of_forall₂
  rw [List.forall₂_map_left_iff, List.forall₂_map_right_iff, List.forall₂_same]
  intro field hf
  rw [named_eq_of_perm perm (named_present distinct hf)]
  cases field.2 <;> rfl

end Json

namespace Manifest

section
variable {α : Type} {W : α → Json → Prop} {f : Json → Option α}

theorem list?_of_listAs (reads : ∀ a j, W a j → f j = some a) (as : List α) (j : Json)
    (h : ListAs W as j) : j.list? f = some as := by
  obtain ⟨js, rfl, items⟩ := h
  exact mapM_eq_some_of_forall₂ (items.flip.imp fun j a => reads a j)

theorem optional_of_optionalAs (reads : ∀ a j, W a j → f j = some a) (null : f .null = none)
    {a : Option α} {j : Option Json} (h : OptionalAs W a j) : optional f j = some a := by
  cases h with
  | null => rfl
  | leftOut => rfl
  | @given a j written =>
    -- what is there is not null, so that it is not taken for an absent part
    have there := reads a j written
    cases j with
    | null => cases null.symm.trans there
    | _ => exact congrArg (Option.map some) there

theorem defaulted_of_defaultedAs (reads : ∀ a j, W a j → f j = some a) {absent a : α}
    {j : Option Json} (h : DefaultedAs W absent a j) : defaulted absent f j = some a := by
  cases h with
  | leftOut => rfl
  | given written => exact reads a _ written

end

/-! ## Constants -/

/-- The constant of one type that the JSON is. -/
def constantOf? : VarType → Json → Option Constant
  | .bool, j => j.bool?.map .bool
  | .num, j => j.number?.map .num
  | .str, j => j.string?.map .str
  | .loc, .object ms =>
    match Json.named "loc" ms with
    | [j] => (point? j).map .loc
    | _ => none
  | _, _ => none

/-- A constant is read as one of the first type that fits. -/
theorem constant?_eq_findSome? (j : Json) :
    constant? j = [VarType.bool, .num, .str, .loc].findSome? (constantOf? · j) := by
  cases j with
  | object ms =>
    have point : constantOf? .loc (.object ms) = constant? (.object ms) := rfl
    simp only [List.findSome?_cons, point]
    cases constant? (.object ms) <;> rfl
  | _ => rfl

/-- A constant is read as one of its own type, and as one of no other type. -/
theorem constantOf?_of_writtenAs {c : Constant} {j : Json} (h : c.WrittenAs j) (type : VarType) :
    constantOf? type j = if type = c.type then some c else none := by
  cases h with
  | bool | str => cases type <;> rfl
  | @num n x denotes =>
    cases type with
    | num => exact congrArg (fun y => some (Datum.num y)) denotes.value
    | _ => rfl
  | @loc a b c p dx dy dz =>
    have point : point? (.array [.number a, .number b, .number c]) = some ⟨p.x, p.y, p.z⟩ := by
      rw [← dx.value, ← dy.value, ← dz.value]
      rfl
    cases type with
    | loc => exact congrArg (Option.map Datum.loc) point
    | _ => rfl

theorem constant?_of_writtenAs (c : Constant) (j : Json) (h : c.WrittenAs j) :
    constant? j = some c := by
  rw [constant?_eq_findSome?]
  apply findSome?_of_only (constantOf?_of_writtenAs h)
  cases c <;> simp [Datum.type]

/-! ## Expressions -/

namespace Term

/-- The forms of an expression, in the order in which they are tried. -/
inductive Form where
  | many | var | list | one
  deriving DecidableEq

def form : Term → Form
  | many _ => .many
  | var _ => .var
  | list _ => .list
  | one _ => .one

/-- The expression in one form, if the JSON has this form. -/
def Form.read? : Form → Json → Option Term
  | many, j => (j.list? constant?).map .many
  | var, .object ms =>
    match Json.named "var" ms with
    | [.string name] => some (.var name)
    | _ => none
  | list, .object ms =>
    match Json.named "list" ms with
    | [j] => (j.list? form?).map .list
    | _ => none
  | one, j => (constant? j).map .one
  | _, _ => none

theorem forms?_eq_mapM (js : List Json) : forms? js = js.mapM form? := by
  induction js with
  | nil => rfl
  | cons j js ih =>
    rw [forms?, List.mapM_cons, ← ih]
    cases form? j with
    | none => rfl
    | some t => cases forms? js <;> rfl

theorem items?_eq_list? (j : Json) : items? j = j.list? form? := by
  cases j with
  | array js => exact forms?_eq_mapM js
  | _ => rfl

theorem lists_eq_map (ms : List (String × Json)) :
    lists ms = (Json.named "list" ms).map items? := by
  induction ms with
  | nil => rfl
  | cons m ms ih =>
    obtain ⟨name, j⟩ := m
    rw [lists, Json.named, ih]
    split <;> rfl

theorem read?_list (ms : List (String × Json)) :
    Form.list.read? (.object ms) = match lists ms with
      | [some items] => some (.list items)
      | _ => none := by
  rw [Form.read?, lists_eq_map]
  rcases Json.named "list" ms with _ | ⟨j, _ | ⟨k, js⟩⟩
  · rfl
  · dsimp only
    rw [← items?_eq_list?, List.map_singleton]
    cases items? j <;> rfl
  · rw [List.map_cons]
    cases items? j <;> rfl

/-- An expression is read in the first of the four forms that fits. -/
theorem form?_eq_findSome? (j : Json) :
    form? j = [Form.many, .var, .list, .one].findSome? (·.read? j) := by
  cases j with
  | array items =>
    simp only [form?, Form.read?, Json.list?, List.findSome?_cons]
    cases items.mapM constant? <;> rfl
  | object ms =>
    have many : Form.many.read? (.object ms) = none := rfl
    have one : Form.one.read? (.object ms) = (constant? (.object ms)).map .one := rfl
    rw [form?]
    -- an object is a variable if its member says so, else a list, else a constant
    split
    · rename_i name found
      have var : Form.var.read? (.object ms) = some (.var name) := by simp only [Form.read?, found]
      simp only [List.findSome?_cons, many, var]
    · have var : Form.var.read? (.object ms) = none := by simp only [Form.read?]
      split
      · rename_i items found
        simp only [List.findSome?_cons, many, var, read?_list, found]
      · simp only [List.findSome?_cons, many, var, read?_list, one]
        cases constant? (.object ms) <;> rfl
  | _ => rfl

theorem form?_of_form {t : Term} {j : Json}
    (h : ∀ f : Form, f.read? j = if f = t.form then some t else none) : form? j = some t := by
  rw [form?_eq_findSome?]
  apply findSome?_of_only h
  cases t.form <;> decide

mutual

/-- An expression is read in the form that it is written in, and no other form fits. -/
theorem read?_of_writtenAs : (t : Term) → {j : Json} → t.WrittenAs j → (f : Form) →
    f.read? j = if f = t.form then some t else none
  | many values, j, h, f => by
    have read := list?_of_listAs constant?_of_writtenAs values j h
    obtain ⟨js, rfl, -⟩ := h
    cases f with
    | many => exact congrArg (Option.map Term.many) read
    | var | list | one => rfl
  | var name, j, h, f => by
    obtain rfl : j = .object [("var", .string name)] := h
    cases f <;> rfl
  | list items, j, h, f => by
    obtain ⟨js, rfl, written⟩ := h
    cases f with
    | list => exact congrArg (Option.map Term.list) (mapM_of_allWrittenAs items written)
    | many | var | one => rfl
  | one value, j, h, f => by
    have read := constant?_of_writtenAs value j h
    cases f with
    | one => exact congrArg (Option.map Term.one) read
    | many | var | list => cases h <;> rfl

theorem mapM_of_allWrittenAs : (ts : List Term) → {js : List Json} → AllWrittenAs ts js →
    js.mapM form? = some ts
  | [], js, h => by
    obtain rfl : js = [] := h
    rfl
  | t :: ts, js, h => by
    obtain ⟨j, rest, rfl, first, later⟩ := h
    rw [List.mapM_cons, form?_of_form (read?_of_writtenAs t first), mapM_of_allWrittenAs ts later]
    rfl

end

end Term

theorem isReadable_of_constant {c : Constant} {j : Json} (h : c.WrittenAs j) : j.isReadable := by
  cases h <;> rfl

theorem areReadable_of_constants {cs : List Constant} {js : List Json}
    (h : List.Forall₂ Constant.WrittenAs cs js) : Json.areReadable js := by
  induction h with
  | nil => rfl
  | cons first _ rest => simp [Json.areReadable, isReadable_of_constant first, rest]

namespace Term

mutual

theorem isReadable_of_writtenAs : (t : Term) → {j : Json} → t.WrittenAs j → j.isReadable
  | many _, j, h => by
    obtain ⟨js, rfl, items⟩ := h
    exact areReadable_of_constants items
  | var name, j, h => by
    obtain rfl : j = .object [("var", .string name)] := h
    rfl
  | list items, j, h => by
    obtain ⟨js, rfl, written⟩ := h
    simp [Json.isReadable, Json.membersReadable, areReadable_of_allWrittenAs items written]
  | one _, _, h => isReadable_of_constant h

theorem areReadable_of_allWrittenAs : (ts : List Term) → {js : List Json} → AllWrittenAs ts js →
    Json.areReadable js
  | [], js, h => by
    obtain rfl : js = [] := h
    rfl
  | t :: ts, js, h => by
    obtain ⟨j, rest, rfl, first, later⟩ := h
    simp [Json.areReadable, isReadable_of_writtenAs t first, areReadable_of_allWrittenAs ts later]

end

/-- An expression comes back from each of its forms. -/
theorem ofJson?_of_writtenAs (t : Term) (j : Json) (h : t.WrittenAs j) : ofJson? j = some t := by
  rw [ofJson?, if_pos (isReadable_of_writtenAs t h), form?_of_form (read?_of_writtenAs t h)]

end Term

/-! ## Manifests -/

theorem defaulted_of_flag {b : Bool} {j : Option Json}
    (h : DefaultedAs (fun b j => j = .bool b) false b j) : defaulted false Json.bool? j = some b :=
  defaulted_of_defaultedAs (by rintro b j rfl; rfl) h

theorem Parameter.ofJson?_of_writtenAs (p : Parameter) (j : Json) (h : p.WrittenAs j) :
    ofJson? j = some p := by
  obtain ⟨multiple, default, hm, hd, record⟩ := h
  have fields : j.record? ["name", "type", "multiple", "default"] = some _ :=
    Json.record?_of_isRecord (by decide) (by rfl) record
  simp [ofJson?, fields, required, Json.string?, defaulted_of_flag hm,
    optional_of_optionalAs Term.ofJson?_of_writtenAs rfl hd]

theorem Return.ofJson?_of_writtenAs (r : Return) (j : Json) (h : r.WrittenAs j) :
    ofJson? j = some r := by
  obtain ⟨multiple, hm, record⟩ := h
  have fields : j.record? ["type", "multiple"] = some _ :=
    Json.record?_of_isRecord (by decide) (by rfl) record
  simp [ofJson?, fields, required, Json.string?, defaulted_of_flag hm]

theorem Function.ofJson?_of_writtenAs (f : Function) (j : Json) (h : f.WrittenAs j) :
    ofJson? j = some f := by
  obtain ⟨params, returns, body, hp, hr, hb, record⟩ := h
  have fields : j.record? ["name", "params", "returns", "body"] = some _ :=
    Json.record?_of_isRecord (by decide) (by rfl) record
  have parameters := defaulted_of_defaultedAs
    (list?_of_listAs Parameter.ofJson?_of_writtenAs) hp
  simp [ofJson?, fields, required, Json.string?, parameters,
    optional_of_optionalAs Return.ofJson?_of_writtenAs rfl hr,
    optional_of_optionalAs Term.ofJson?_of_writtenAs rfl hb]

theorem Call.ofJson?_of_writtenAs (c : Call) (j : Json) (h : c.WrittenAs j) :
    ofJson? j = some c := by
  obtain ⟨args, expect, line, ha, he, hl, record⟩ := h
  have fields : j.record? ["function", "args", "expect", "line"] = some _ :=
    Json.record?_of_isRecord (by decide) (by rfl) record
  have arguments := defaulted_of_defaultedAs
    (list?_of_listAs Term.ofJson?_of_writtenAs) ha
  have expected : optional (Json.list? Json.string?) expect = some c.expect :=
    optional_of_optionalAs (list?_of_listAs (by rintro s j rfl; rfl)) rfl he
  have place : optional Json.natural? line = some c.line :=
    optional_of_optionalAs (by rintro n j rfl; rfl) rfl hl
  simp [ofJson?, fields, required, Json.string?, arguments, expected, place]

theorem Trigger.ofJson?_of_writtenAs (t : Trigger) (j : Json) (h : t.WrittenAs j) :
    ofJson? j = some t := by
  obtain ⟨calls, hc, record⟩ := h
  have fields : j.record? ["on", "calls"] = some _ :=
    Json.record?_of_isRecord (by decide) (by rfl) record
  have read := defaulted_of_defaultedAs
    (list?_of_listAs Call.ofJson?_of_writtenAs) hc
  simp [ofJson?, fields, required, Json.string?, read]

/-- A manifest comes back from each of its forms. -/
theorem ofJson?_of_writtenAs (m : Manifest) (j : Json) (h : m.WrittenAs j) :
    ofJson? j = some m := by
  obtain ⟨functions, triggers, hf, ht, record⟩ := h
  have fields : j.record? ["functions", "triggers"] = some _ :=
    Json.record?_of_isRecord (by decide) (by rfl) record
  have functions := defaulted_of_defaultedAs
    (list?_of_listAs Function.ofJson?_of_writtenAs) hf
  have triggers := defaulted_of_defaultedAs
    (list?_of_listAs Trigger.ofJson?_of_writtenAs) ht
  simp [ofJson?, fields, functions, triggers]

/-- What is written is read back. Constants and expressions are read in the first form that fits.
An expression and a manifest whose numbers are finite have a form, which the writer gives. An
expression comes back from each of its forms: it fits one of the forms that are tried, whatever
comes before, and so do the constants in it. A manifest comes back from each of its forms, with what
is absent in it null or left out, and with the members of its objects in any order. -/
theorem read_back :
    (∀ j, constant? j = [VarType.bool, .num, .str, .loc].findSome? (constantOf? · j) ∧
      Term.form? j = [Term.Form.many, .var, .list, .one].findSome? (·.read? j)) ∧
    (∀ (c : Constant) (j : Json), c.WrittenAs j →
      ∀ type, constantOf? type j = if type = c.type then some c else none) ∧
    (∀ t : Term, t.IsFinite → t.WrittenAs t.toJson) ∧
    (∀ (t : Term) (j : Json), t.WrittenAs j → Term.ofJson? j = some t ∧
      ∀ f : Term.Form, f.read? j = if f = t.form then some t else none) ∧
    (∀ m : Manifest, m.IsFinite → m.WrittenAs m.toJson) ∧
    ∀ (m : Manifest) (j : Json), m.WrittenAs j → ofJson? j = some m := by
  refine ⟨fun j => ⟨constant?_eq_findSome? j, Term.form?_eq_findSome? j⟩,
    fun c j h => constantOf?_of_writtenAs h, Term.writtenAs_toJson, fun t j h => ⟨?_, ?_⟩,
    fun m => writtenAs_toJson, ofJson?_of_writtenAs⟩
  · exact Term.ofJson?_of_writtenAs t j h
  · exact Term.read?_of_writtenAs t h

/-- A list of constants in a row and of another list, which has a location and a variable in it. -/
def pair : Term := .list [.many [.num 3, .str "a"], .list [.one (.loc ⟨0, 1, 2⟩), .var "x"]]

/-- A function with a default and without a body, and a call of it. -/
def sample : Manifest :=
  ⟨[⟨"f", [⟨"a", "num", false, some (.one (.num 3))⟩], some ⟨"num", false⟩, none⟩],
    [⟨"go", [⟨"f", [pair], some ["num"], none⟩]⟩]⟩

/-- The parameter of the sample, its name behind its type and its default without a fraction. -/
def terseParameter : Json :=
  .object [("type", .string "num"), ("name", .string "a"), ("default", .number (.natural 3))]

/-- The sample in a form other than the writer's. -/
def terse : Json :=
  .object [
    ("triggers", .array [.object [("on", .string "go"),
      ("calls", .array [.object [("function", .string "f"), ("args", .array [pair.toJson]),
        ("expect", .array [.string "num"])]])]]),
    ("functions", .array [.object [("name", .string "f"), ("params", .array [terseParameter]),
      ("returns", .object [("type", .string "num")]), ("body", .null)]])]

theorem three_denoted : Json.Number.Denotes (.natural 3) 3 := ⟨by decide, by decide⟩

theorem isFinite_sample : sample.IsFinite := by
  have all : ∀ t ∈ sample.terms, ∀ c ∈ t.leaves, c.isFinite = true := by decide
  exact all

theorem terse_written : sample.WrittenAs terse := by
  have args : pair.WrittenAs pair.toJson :=
    pair.writtenAs_toJson (isFinite_sample pair (by simp [terms, sample, Function.terms]))
  have parameter : Parameter.WrittenAs ⟨"a", "num", false, some (.one (.num 3))⟩ terseParameter :=
    ⟨_, _, .leftOut, .given (.num three_denoted), _, rfl, .swap _ _ _⟩
  have result : Return.WrittenAs ⟨"num", false⟩ (.object [("type", .string "num")]) :=
    ⟨_, .leftOut, _, rfl, .rfl⟩
  refine ⟨_, _, .given ⟨_, rfl, .cons ?_ .nil⟩, .given ⟨_, rfl, .cons ?_ .nil⟩, _, rfl, .swap _ _ _⟩
  · exact ⟨_, _, _, .given ⟨_, rfl, .cons parameter .nil⟩, .given result, .null, _, rfl, .rfl⟩
  · refine ⟨_, .given ⟨_, rfl, .cons ?_ .nil⟩, _, rfl, .rfl⟩
    exact ⟨_, _, _, .given ⟨_, rfl, .cons args .nil⟩, .given ⟨_, rfl, .cons rfl .nil⟩, .leftOut,
      _, rfl, .rfl⟩

/-- The sample comes back from the writer's form and from the terse one, and so do parts of it. -/
theorem read_back_sample :
    sample.WrittenAs terse ∧ ofJson? terse = some sample ∧ sample.WrittenAs sample.toJson ∧
      pair.WrittenAs pair.toJson ∧ Term.ofJson? pair.toJson = some pair ∧
      Term.Form.one.read? pair.toJson = none ∧
      constantOf? .num (.number (.natural 3)) = some (.num 3) := by
  obtain ⟨-, constant, writeTerm, readTerm, write, read⟩ := read_back
  have finite := isFinite_sample pair (by simp [terms, sample, Function.terms])
  have pairRead := readTerm pair pair.toJson (writeTerm pair finite)
  exact ⟨terse_written, read sample terse terse_written, write sample isFinite_sample,
    writeTerm pair finite, pairRead.1, pairRead.2 .one,
    constant (.num 3) (.number (.natural 3)) (.num three_denoted) .num⟩

end Manifest

end LiveCalls
