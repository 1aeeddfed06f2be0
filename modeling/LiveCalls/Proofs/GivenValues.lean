import LiveCalls.CommandLine.Report
import LiveCalls.Proofs.JsonStrings
import LiveCalls.Proofs.Meaning
import LiveCalls.Proofs.Terms

namespace LiveCalls

namespace Manifest

theorem eq_string_of_constant {j : Json} {s : String} (h : constant? j = some (.str s)) :
    j = .string s := by
  unfold constant? at h
  split at h
  · cases h
  · cases h
  · cases h
    rfl
  · split at h
    · obtain ⟨p, -, same⟩ := Option.map_eq_some_iff.mp h
      cases same
    · cases h
  · cases h

theorem str_mem_constants {js : List Json} {cs : List Constant} {s : String}
    (h : js.mapM constant? = some cs) (hs : Datum.str s ∈ cs) : s ∈ Json.stringsAll js := by
  induction js generalizing cs with
  | nil =>
    cases h
    cases hs
  | cons j js ih =>
    simp only [List.mapM_cons, Option.bind_eq_bind, Option.bind_eq_some_iff] at h
    obtain ⟨c, first, rest, later, same⟩ := h
    cases same
    rcases List.mem_cons.mp hs with rfl | hs
    · rw [eq_string_of_constant first]
      exact List.mem_append_left _ (List.mem_singleton_self s)
    · exact List.mem_append_right _ (ih later hs)

namespace Term

mutual

theorem str_mem_form : (j : Json) → {t : Term} → {s : String} → form? j = some t →
    Datum.str s ∈ t.leaves → s ∈ j.strings
  | .array items, t, s, h, hs => by
    rw [form?] at h
    obtain ⟨cs, constants, rfl⟩ := Option.map_eq_some_iff.mp h
    exact str_mem_constants constants hs
  | .object ms, t, s, h, hs => by
    rw [form?] at h
    split at h
    · cases h
      cases hs
    · split at h
      · rename_i items found
        cases h
        exact str_mem_lists ms (found ▸ List.mem_singleton_self _) hs
      · obtain ⟨c, constant, rfl⟩ := Option.map_eq_some_iff.mp h
        obtain rfl := List.mem_singleton.mp hs
        cases eq_string_of_constant constant
  | .null, t, s, h, hs => by cases h
  | .bool b, t, s, h, hs => by
    cases h
    cases List.mem_singleton.mp hs
  | .number n, t, s, h, hs => by
    cases h
    cases List.mem_singleton.mp hs
  | .string text, t, s, h, hs => by
    cases h
    cases List.mem_singleton.mp hs
    exact List.mem_singleton_self _
  | .unreadable, t, s, h, hs => by cases h

theorem str_mem_lists : (ms : List (String × Json)) → {ts : List Term} → {s : String} →
    some ts ∈ lists ms → Datum.str s ∈ leavesAll ts → s ∈ Json.stringsOf ms
  | [], ts, s, h, hs => by cases h
  | (k, j) :: ms, ts, s, h, hs => by
    rw [lists] at h
    split at h
    · rcases List.mem_cons.mp h with here | h
      · exact List.mem_append_left _ (str_mem_items j here.symm hs)
      · exact List.mem_append_right _ (str_mem_lists ms h hs)
    · exact List.mem_append_right _ (str_mem_lists ms h hs)

theorem str_mem_items : (j : Json) → {ts : List Term} → {s : String} → items? j = some ts →
    Datum.str s ∈ leavesAll ts → s ∈ j.strings
  | .array items, ts, s, h, hs => str_mem_forms items h hs
  | .null, _, _, h, _ | .bool _, _, _, h, _ | .number _, _, _, h, _ | .string _, _, _, h, _
  | .object _, _, _, h, _ | .unreadable, _, _, h, _ => by cases h

theorem str_mem_forms : (js : List Json) → {ts : List Term} → {s : String} →
    forms? js = some ts → Datum.str s ∈ leavesAll ts → s ∈ Json.stringsAll js
  | [], ts, s, h, hs => by
    cases h
    cases hs
  | j :: js, ts, s, h, hs => by
    rw [forms?] at h
    split at h
    · cases h
    · rename_i t first
      obtain ⟨rest, later, rfl⟩ := Option.map_eq_some_iff.mp h
      rcases List.mem_append.mp hs with hs | hs
      · exact List.mem_append_left _ (str_mem_form j first hs)
      · exact List.mem_append_right _ (str_mem_forms js later hs)

end

/-- A text among the constants of an expression is shorter than the text of the expression. -/
theorem length_of_mem_leaves {text s : String} {t : Term} (h : parse? text = some t)
    (hs : Datum.str s ∈ t.leaves) : s.length < text.length := by
  obtain ⟨j, json, form⟩ := Option.bind_eq_some_iff.mp h
  unfold ofJson? at form
  split at form
  · exact Json.length_of_mem_strings json (str_mem_form j form hs)
  · cases form

end Term

end Manifest

namespace CommandLine

/-- What a text is meant to be taken for: the constants that it is the JSON of, or else itself. -/
def givenValues (text : String) : List Constant :=
  match Manifest.Term.parse? text with
  | some t => if t.vars = [] then t.leaves else [.str text]
  | none => [.str text]

/-- A text that is an expression is taken for the constants in it, and any other text for itself. -/
theorem variableValues_yields (text : String) (h : Heap) :
    Value.Yields h (variableValues text h)
      (((Manifest.Term.parse? text).map Manifest.Term.leaves).getD [.str text]) := by
  have nowhere : Context.empty.InHeap h := fun _ _ hv => by cases hv
  let t := (Manifest.Term.parse? text).getD (.one (.str text))
  have yields := (t.toExpr .unknown).eval_yields nowhere
  have unset : Context.empty.constants h = fun _ => [] := rfl
  rw [unset, t.denote_unset] at yields
  have leaves : t.leaves =
      ((Manifest.Term.parse? text).map Manifest.Term.leaves).getD [.str text] := by
    unfold t
    cases Manifest.Term.parse? text <;> rfl
  exact leaves ▸ yields

/-- A text that is an expression is taken for the constants in it, in order and at whatever depth,
and any other text for itself. This is what is meant if and only if there is no variable in the
expression. -/
theorem variableValues_eq_iff (text : String) (h : Heap) :
    let out := variableValues text h
    let values := out.1.map (Value.constant out.2)
    values = ((Manifest.Term.parse? text).map Manifest.Term.leaves).getD [.str text] ∧
      (values = givenValues text ↔ ∀ t ∈ Manifest.Term.parse? text, t.vars = []) := by
  intro out values
  have taken : values = _ := (variableValues_yields text h).hold.constants
  refine ⟨taken, ?_⟩
  rw [taken, givenValues]
  cases ht : Manifest.Term.parse? text with
  | none => exact iff_of_true rfl nofun
  | some t =>
    simp only [Option.map_some, Option.getD_some, Option.mem_some_iff, forall_eq']
    split
    · rename_i constant
      exact iff_of_true rfl constant
    · rename_i unfixed
      refine iff_of_false (fun same => ?_) unfixed
      have hs : Datum.str text ∈ t.leaves := by
        rw [same]
        exact List.mem_singleton_self _
      exact Nat.lt_irrefl _ (Manifest.Term.length_of_mem_leaves ht hs)

/-- Nothing is left of a variable, which is not a constant. -/
theorem variable_dropped :
    let text := "\x7b\"var\":\"y\"\x7d"
    Manifest.Term.parse? text = some (.var "y") ∧ (variableValues text .empty).1 = [] ∧
      givenValues text = [.str text] := by
  have parsed : Manifest.Term.parse? "\x7b\"var\":\"y\"\x7d" = some (.var "y") := by cbv
  refine ⟨parsed, ?_, ?_⟩
  · rw [variableValues, parsed]
    rfl
  · rw [givenValues, parsed]
    rfl

end CommandLine

end LiveCalls
