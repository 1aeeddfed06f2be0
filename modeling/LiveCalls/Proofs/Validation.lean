import LiveCalls.CallSite.Validation
import LiveCalls.Proofs.Failure

/-!
# What a validation does

A validation is judged by the signatures and callables of the registry alone, whoever calls what.
It changes what a site is bound to, if it accepts it, and adds one subscription then. What it
reports comes out of the logs of the arguments: those of arguments that convert stay empty, and the
first that does not convert has one line in its log.
-/

namespace LiveCalls

namespace Registry

/-- Registries with the same functions, whoever calls them. -/
structure SameFunctions (r r' : Registry) : Prop where
  signatures : r'.signatures = r.signatures
  callables : r'.callables = r.callables

namespace SameFunctions

theorem refl (r : Registry) : r.SameFunctions r := ⟨rfl, rfl⟩

theorem trans {r r' r'' : Registry} (a : r.SameFunctions r') (b : r'.SameFunctions r'') :
    r.SameFunctions r'' :=
  ⟨b.signatures.trans a.signatures, b.callables.trans a.callables⟩

theorem subscribe (r : Registry) (name : String) (caller : CallId) :
    r.SameFunctions (r.subscribe name caller) := ⟨rfl, rfl⟩

theorem forget (r : Registry) (caller : CallId) : r.SameFunctions (r.forget caller) := ⟨rfl, rfl⟩

end SameFunctions

theorem callers_congr {r r' : Registry} (h : r'.subscriptions = r.subscriptions) (name : String) :
    r'.callers name = r.callers name := by
  unfold callers
  rw [h]

end Registry

namespace CallSite

theorem judgeResult_of_unexpected {phase : Phase} {s : Signature Ref} {c : CallSite}
    (expects : c.expected = none) : judgeResult phase s c = .ok c.single := by
  unfold judgeResult
  rw [expects]

/-- Where something is expected, a value of an expected type has to come back, and no more than one
where the site counts on one. Whether it counts on one is settled by a first validation. -/
theorem judgeResult_eq_ok_iff {phase : Phase} {s : Signature Ref} {c : CallSite}
    {expected : List VarType} (expects : c.expected = some expected) {single : Bool} :
    judgeResult phase s c = .ok single ↔
      (∃ t, s.resultType? = some t ∧ ∃ u ∈ expected, t.isSubtype u) ∧
        match phase with
        | .first => s.returnsSingle = single
        | .again => (c.single → s.returnsSingle) ∧ c.single = single := by
  unfold judgeResult
  rw [expects]
  cases hr : s.resultType? with
  | none => simp
  | some t =>
    by_cases fits : expected.any t.isSubtype
    · have found := List.any_eq_true.mp fits
      cases phase with
      | first => simp [fits, found]
      | again => cases c.single <;> cases s.returnsSingle <;> simp [fits, found]
    · have missing : ¬ ∃ u ∈ expected, t.isSubtype u := fun found =>
        fits (List.any_eq_true.mpr found)
      simp [fits, missing]

/-- A site that counts on a single value gets no more than one. -/
theorem single_of_judged {phase : Phase} {s : Signature Ref} {c : CallSite}
    {expected : List VarType} (expects : c.expected = some expected) {single : Bool}
    (judged : judgeResult phase s c = .ok single) : single → s.returnsSingle := by
  obtain ⟨-, counts⟩ := (judgeResult_eq_ok_iff expects).mp judged
  cases phase with
  | first => exact counts.trans
  | again =>
    obtain ⟨kept, rfl⟩ := counts
    exact kept

section
variable (phase : Phase) (site : Option Site)

/-- The arguments converted, if all of them can be, without what is reported. -/
def convertPairs (index : Nat) : List (Expr × VarType) → Except Rejection (List Expr)
  | [] => .ok []
  | (e, type) :: rest =>
    match e.convert type with
    | .error _ => .error (.misfit index type)
    | .ok e' => (convertPairs (index + 1) rest).map (e' :: ·)

/-- Why the first argument that cannot be converted cannot. -/
def hindrance? : List (Expr × VarType) → Option Unconvertible
  | [] => none
  | (e, type) :: rest =>
    match e.convert type with
    | .error reason => some reason
    | .ok _ => hindrance? rest

/-- What is explained about arguments: to a site that is new, and if there is something in the
way. -/
def explanation (pairs : List (Expr × VarType)) : List Diagnostic :=
  match phase with
  | .first => ((hindrance? pairs).map fun reason => ⟨site, reason.message⟩).toList
  | .again => []

/-- The logs of the arguments are empty up to that of the first which cannot be converted. Only this
one is passed on, and there are no more of them. -/
theorem convertArguments_eq (i : Nat) (sink : List Diagnostic) (pairs : List (Expr × VarType)) :
    convertArguments phase site i sink pairs =
      (convertPairs i pairs, sink ++ explanation phase site pairs) := by
  induction pairs generalizing i with
  | nil => cases phase <;> simp [convertArguments, convertPairs, explanation, hindrance?]
  | cons p pairs ih =>
    obtain ⟨e, t⟩ := p
    rw [convertArguments, Expr.convertedTo_eq, convertPairs]
    cases he : e.convert t with
    | error reason =>
      have hindered : hindrance? ((e, t) :: pairs) = some reason := by rw [hindrance?, he]
      cases phase with
      | first => rw [explanation, hindered]; rfl
      | again => exact congrArg (Prod.mk _) (List.append_nil sink).symm
    | ok b =>
      have later : hindrance? ((e, t) :: pairs) = hindrance? pairs := by rw [hindrance?, he]
      simp only [RetainingLog.after, RetainingLog.discard, ih, explanation, later]

variable {phase site} {i : Nat} {pairs : List (Expr × VarType)}

/-- If the arguments convert, there is nothing to explain. -/
theorem explanation_of_converted {es : List Expr} (h : convertPairs i pairs = .ok es) :
    explanation phase site pairs = [] := by
  have free : hindrance? pairs = none := by
    induction pairs generalizing i es with
    | nil => rfl
    | cons p pairs ih =>
      obtain ⟨e, t⟩ := p
      rw [convertPairs] at h
      rw [hindrance?]
      cases he : e.convert t with
      | error reason => simp [he] at h
      | ok b =>
        simp only [he, map_eq_ok_iff] at h
        obtain ⟨bs, rest, -⟩ := h
        exact ih rest
  cases phase with
  | first => simp [explanation, free]
  | again => rfl

/-- The arguments are converted up to the first that cannot be, and it is explained why that one
cannot. -/
theorem exists_of_convertPairs {x : Rejection} (h : convertPairs i pairs = .error x) :
    ∃ k e t reason, pairs[k]? = some (e, t) ∧ e.convert t = .error reason ∧
      x = .misfit (i + k) t ∧ hindrance? pairs = some reason ∧
        ∀ j < k, ∀ p, pairs[j]? = some p → ∃ b, p.1.convert p.2 = .ok b := by
  induction pairs generalizing i with
  | nil => cases h
  | cons p pairs ih =>
    obtain ⟨e, t⟩ := p
    rw [convertPairs] at h
    rw [hindrance?]
    cases he : e.convert t with
    | error reason =>
      rw [he] at h
      cases h
      exact ⟨0, e, t, reason, rfl, he, rfl, rfl, fun j hj => absurd hj (Nat.not_lt_zero j)⟩
    | ok b =>
      rw [he, map_eq_error_iff] at h
      obtain ⟨k, e', t', reason, hk, fails, rfl, why, earlier⟩ := ih h
      refine ⟨k + 1, e', t', reason, hk, fails, by rw [Nat.add_assoc, Nat.add_comm 1 k], why, ?_⟩
      intro j hj p hp
      cases j with
      | zero =>
        cases hp
        exact ⟨b, he⟩
      | succ j => exact earlier j (Nat.lt_of_succ_lt_succ hj) p hp

end

/-- The arguments converted to the types that a signature wants them to have. -/
def fitted (c : CallSite) (s : Signature Ref) : Except Rejection (List Expr) :=
  convertPairs 0 (c.arguments.zip (targets s c.arguments.length))

/-- What a site is judged by, one after the other, and what that leaves in the sink. -/
theorem fitting_eq (phase : Phase) (s : Signature Ref) (c : CallSite) (sink : List Diagnostic) :
    c.fitting phase s sink =
      match judgeResult phase s c, judgeCount s c.arguments.length with
      | .error x, _ => (.error x, sink)
      | .ok _, .error x => (.error x, sink)
      | .ok single, .ok _ =>
        ((c.fitted s).map (single, ·), sink ++ explanation phase c.site
          (c.arguments.zip (targets s c.arguments.length))) := by
  unfold fitting
  cases judgeResult phase s c with
  | error x => rfl
  | ok single =>
    cases judgeCount s c.arguments.length with
    | error x => rfl
    | ok u =>
      simp only [convertArguments_eq]
      rfl

def judge (phase : Phase) (r : Registry) (c : CallSite) : Except Rejection Adopted :=
  (c.examine phase r []).1

/-- What a validation explains before it gives its verdict. -/
def explained (phase : Phase) (r : Registry) (c : CallSite) : List Diagnostic :=
  (c.examine phase r []).2

/-- What is in the sink stays there, and makes no difference to what is added. -/
theorem examine_sink (phase : Phase) (r : Registry) (c : CallSite) (sink : List Diagnostic) :
    c.examine phase r sink = (c.judge phase r, sink ++ c.explained phase r) := by
  unfold judge explained examine
  cases r.signatures.get? c.function with
  | none => simp
  | some s =>
    simp only [fitting_eq]
    cases judgeResult phase s c with
    | error x => simp
    | ok single => cases judgeCount s c.arguments.length <;> simp

theorem examine_of_declared (phase : Phase) {r : Registry} {c : CallSite} {s : Signature Ref}
    (declared : r.signatures.get? c.function = some s) :
    c.judge phase r = (c.fitting phase s []).1.map
        (fun fit => ⟨s, r.callables.get? c.function, fit.2, fit.1⟩) ∧
      c.explained phase r = (c.fitting phase s []).2 := by
  unfold judge explained examine
  rw [declared]
  exact ⟨rfl, rfl⟩

theorem examine_of_undeclared (phase : Phase) {r : Registry} {c : CallSite}
    (undeclared : r.signatures.get? c.function = none) :
    c.judge phase r = .error .missing ∧ c.explained phase r = [] := by
  unfold judge explained examine
  rw [undeclared]
  exact ⟨rfl, rfl⟩

/-- What a site is judged to be depends on the signatures, and what it gets to run on the
callables. -/
theorem examine_of_signatures {r r' : Registry} (same : r'.signatures = r.signatures)
    (phase : Phase) (c : CallSite) :
    c.judge phase r' = (c.judge phase r).map
        (fun a => { a with callable := r'.callables.get? c.function }) ∧
      c.explained phase r' = c.explained phase r := by
  unfold judge explained examine
  rw [same]
  cases r.signatures.get? c.function with
  | none => exact ⟨rfl, rfl⟩
  | some s =>
    refine ⟨?_, rfl⟩
    simp only
    cases (c.fitting phase s []).1 <;> rfl

theorem fitting_eq_ok_iff {phase : Phase} {s : Signature Ref} {c : CallSite} {single : Bool}
    {es : List Expr} :
    (c.fitting phase s []).1 = .ok (single, es) ↔ judgeResult phase s c = .ok single ∧
      judgeCount s c.arguments.length = .ok () ∧ c.fitted s = .ok es := by
  rw [fitting_eq]
  cases judgeResult phase s c with
  | error x => simp
  | ok b =>
    cases judgeCount s c.arguments.length with
    | error x => simp
    | ok u =>
      rw [map_eq_ok_iff]
      simp only [Prod.mk.injEq, Except.ok.injEq, true_and]
      constructor
      · rintro ⟨es', fit, rfl, rfl⟩
        exact ⟨rfl, fit⟩
      · rintro ⟨rfl, fit⟩
        exact ⟨es, fit, rfl, rfl⟩

/-- What an accepted site is judged by. -/
theorem judge_eq_ok_iff {phase : Phase} {r : Registry} {c : CallSite} {a : Adopted} :
    c.judge phase r = .ok a ↔
      r.signatures.get? c.function = some a.signature ∧
        judgeResult phase a.signature c = .ok a.single ∧
        judgeCount a.signature c.arguments.length = .ok () ∧
        c.fitted a.signature = .ok a.arguments ∧ a.callable = r.callables.get? c.function := by
  obtain ⟨signature, callable, arguments, single⟩ := a
  cases hs : r.signatures.get? c.function with
  | none => simp [(examine_of_undeclared phase hs).1]
  | some s =>
    rw [(examine_of_declared phase hs).1, map_eq_ok_iff]
    constructor
    · rintro ⟨⟨b, es⟩, fit, same⟩
      cases same
      obtain ⟨result, count, fit⟩ := fitting_eq_ok_iff.mp fit
      exact ⟨rfl, result, count, fit, rfl⟩
    · rintro ⟨declared, result, count, fit, rfl⟩
      obtain rfl := Option.some.inj declared
      exact ⟨(single, arguments), fitting_eq_ok_iff.mpr ⟨result, count, fit⟩, rfl⟩

theorem explained_of_accepted {phase : Phase} {r : Registry} {c : CallSite} {a : Adopted}
    (judged : c.judge phase r = .ok a) : c.explained phase r = [] := by
  obtain ⟨declared, result, count, fit, -⟩ := judge_eq_ok_iff.mp judged
  rw [(examine_of_declared phase declared).2, fitting_eq, result, count]
  exact explanation_of_converted fit

/-- A validation accepts the site, which adopts what it is bound to and subscribes, or it rejects
the site and changes nothing. -/
theorem validate_cases (phase : Phase) (r : Registry) (c : CallSite) :
    (∃ a, c.judge phase r = .ok a ∧
      c.validate phase r = ⟨true, c.adopt a, r.subscribe c.function c.id, []⟩) ∨
      ∃ rejection, c.judge phase r = .error rejection ∧ c.validate phase r =
        ⟨false, c, r, c.explained phase r ++ [c.notice phase rejection]⟩ := by
  have parts : c.examine phase r [] = (c.judge phase r, c.explained phase r) := rfl
  unfold validate
  rw [parts]
  cases judged : c.judge phase r with
  | error rejection => exact .inr ⟨rejection, rfl, rfl⟩
  | ok a =>
    rw [explained_of_accepted judged]
    exact .inl ⟨a, rfl, rfl⟩

theorem validate_of_judged {phase : Phase} {r : Registry} {c : CallSite} {a : Adopted}
    (judged : c.judge phase r = .ok a) :
    c.validate phase r = ⟨true, c.adopt a, r.subscribe c.function c.id, []⟩ := by
  rcases validate_cases phase r c with ⟨b, judged', verdict⟩ | ⟨x, judged', -⟩
  · cases judged.symm.trans judged'
    exact verdict
  · cases judged.symm.trans judged'

theorem validate_of_rejected {phase : Phase} {r : Registry} {c : CallSite} {x : Rejection}
    (judged : c.judge phase r = .error x) :
    c.validate phase r = ⟨false, c, r, c.explained phase r ++ [c.notice phase x]⟩ := by
  rcases validate_cases phase r c with ⟨a, judged', -⟩ | ⟨y, judged', verdict⟩
  · cases judged.symm.trans judged'
  · cases judged.symm.trans judged'
    exact verdict

theorem explained_again (r : Registry) (c : CallSite) : c.explained .again r = [] := by
  cases hs : r.signatures.get? c.function with
  | none => exact (examine_of_undeclared .again hs).2
  | some s =>
    rw [(examine_of_declared .again hs).2, fitting_eq]
    split <;> rfl

end CallSite

/-- Whether a call is rejected for an argument that cannot be converted. -/
def Rejection.isMisfit : Rejection → Bool
  | .misfit .. => true
  | _ => false

namespace CallSite

theorem not_isMisfit_of_judgeResult {phase : Phase} {s : Signature Ref} {c : CallSite}
    {x : Rejection} (h : judgeResult phase s c = .error x) : x.isMisfit = false := by
  unfold judgeResult at h
  split at h
  · cases h
  · split at h
    · cases h
      rfl
    · split at h
      · cases h
        rfl
      · split at h
        · cases h
        · split at h
          · cases h
            rfl
          · cases h

theorem not_isMisfit_of_judgeCount {s : Signature Ref} {n : Nat} {x : Rejection}
    (h : judgeCount s n = .error x) : x.isMisfit = false := by
  unfold judgeCount at h
  split at h
  · cases h
    rfl
  · split at h
    · cases h
      rfl
    · cases h

/-- What a validation has explained when it rejects a site, by what it looked at last: whether the
function is declared, what comes back, how many arguments there are, and the arguments. -/
inductive RejectedAt (phase : Phase) (r : Registry) (c : CallSite) :
    Rejection → List Diagnostic → Prop where
  | declaration (undeclared : r.signatures.get? c.function = none) :
      RejectedAt phase r c .missing []
  | result {s : Signature Ref} {x : Rejection}
      (declared : r.signatures.get? c.function = some s)
      (judged : judgeResult phase s c = .error x) : RejectedAt phase r c x []
  | count {s : Signature Ref} {x : Rejection} {single : Bool}
      (declared : r.signatures.get? c.function = some s)
      (result : judgeResult phase s c = .ok single)
      (judged : judgeCount s c.arguments.length = .error x) : RejectedAt phase r c x []
  | arguments {s : Signature Ref} {x : Rejection} {single : Bool}
      (declared : r.signatures.get? c.function = some s)
      (result : judgeResult phase s c = .ok single)
      (count : judgeCount s c.arguments.length = .ok ()) (judged : c.fitted s = .error x) :
      RejectedAt phase r c x (explanation phase c.site
        (c.arguments.zip (targets s c.arguments.length)))

theorem rejectedAt_of_judge {phase : Phase} {r : Registry} {c : CallSite} {x : Rejection}
    (judged : c.judge phase r = .error x) : c.RejectedAt phase r x (c.explained phase r) := by
  cases declared : r.signatures.get? c.function with
  | none =>
    obtain ⟨missing, silent⟩ := examine_of_undeclared phase declared
    cases missing.symm.trans judged
    rw [silent]
    exact .declaration declared
  | some s =>
    obtain ⟨verdict, explained⟩ := examine_of_declared phase declared
    rw [verdict, map_eq_error_iff] at judged
    rw [explained]
    rw [fitting_eq] at judged ⊢
    cases result : judgeResult phase s c with
    | error y =>
      rw [result] at judged
      cases judged
      exact .result declared result
    | ok single =>
      cases count : judgeCount s c.arguments.length with
      | error y =>
        rw [result, count] at judged
        cases judged
        exact .count declared result count
      | ok u =>
        rw [result, count] at judged
        exact .arguments declared result count (map_eq_error_iff.mp judged)

/-- What a first validation explains to a site that it rejects: why the argument that it is rejected
for cannot be converted, if it is rejected for one. -/
theorem explained_of_rejected {r : Registry} {c : CallSite} {x : Rejection}
    (judged : c.judge .first r = .error x) :
    (x.isMisfit = false ∧ c.explained .first r = []) ∨
      ∃ i e t reason, x = .misfit i t ∧ c.arguments[i]? = some e ∧ e.convert t = .error reason ∧
        c.explained .first r = [⟨c.site, reason.message⟩] := by
  have stage := rejectedAt_of_judge judged
  generalize c.explained .first r = ds at stage ⊢
  cases stage with
  | declaration => exact .inl ⟨rfl, rfl⟩
  | result _ judged => exact .inl ⟨not_isMisfit_of_judgeResult judged, rfl⟩
  | count _ _ judged => exact .inl ⟨not_isMisfit_of_judgeCount judged, rfl⟩
  | arguments _ _ _ judged =>
    obtain ⟨k, e, t, reason, hk, fails, rfl, why, -⟩ := exists_of_convertPairs judged
    obtain ⟨argument, -⟩ := List.getElem?_zip_eq_some.mp hk
    refine .inr ⟨0 + k, e, t, reason, rfl, by rwa [Nat.zero_add], fails, ?_⟩
    rw [explanation, why]
    rfl

theorem accepted_iff {phase : Phase} {r : Registry} {c : CallSite} :
    (c.validate phase r).accepted ↔ ∃ a, c.judge phase r = .ok a := by
  rcases validate_cases phase r c with ⟨a, judged, verdict⟩ | ⟨rejection, judged, verdict⟩
  · simp [judged, verdict]
  · simp [judged, verdict]

/-- A validation changes neither the identity of a site, nor the function that it calls, nor what is
expected of it. -/
theorem frame_validate (phase : Phase) (r : Registry) (c : CallSite) :
    (c.validate phase r).site.id = c.id ∧ (c.validate phase r).site.function = c.function ∧
      (c.validate phase r).site.expected = c.expected := by
  rcases validate_cases phase r c with ⟨a, -, verdict⟩ | ⟨rejection, -, verdict⟩
  · rw [verdict]
    exact ⟨rfl, rfl, rfl⟩
  · rw [verdict]
    exact ⟨rfl, rfl, rfl⟩

theorem site_of_rejected {phase : Phase} {r : Registry} {c : CallSite}
    (h : (c.validate phase r).accepted = false) : (c.validate phase r).site = c := by
  rcases validate_cases phase r c with ⟨a, -, verdict⟩ | ⟨rejection, -, verdict⟩
  · rw [verdict] at h
    cases h
  · rw [verdict]

theorem isBound_of_accepted {phase : Phase} {r : Registry} {c : CallSite}
    (h : (c.validate phase r).accepted) : (c.validate phase r).site.isBound := by
  rcases validate_cases phase r c with ⟨a, -, verdict⟩ | ⟨rejection, -, verdict⟩
  · rw [verdict]
    rfl
  · rw [verdict] at h
    cases h

/-- A bound site stays bound, whatever comes of a validation. -/
theorem isBound_validate {phase : Phase} {r : Registry} {c : CallSite} (h : c.isBound) :
    (c.validate phase r).site.isBound := by
  cases ha : (c.validate phase r).accepted with
  | true => exact isBound_of_accepted ha
  | false => rwa [site_of_rejected ha]

theorem callable_validate {phase : Phase} {r : Registry} {c : CallSite} {f : Callable}
    (h : (c.validate phase r).site.callable? = some f) :
    c.callable? = some f ∨ r.callables.get? c.function = some f := by
  rcases validate_cases phase r c with ⟨a, judged, verdict⟩ | ⟨rejection, -, verdict⟩
  · right
    rw [verdict] at h
    obtain ⟨-, -, -, -, adopted⟩ := judge_eq_ok_iff.mp judged
    exact adopted.symm.trans h
  · left
    rwa [verdict] at h

theorem functions_validate (phase : Phase) (r : Registry) (c : CallSite) :
    r.SameFunctions (c.validate phase r).registry := by
  rcases validate_cases phase r c with ⟨a, -, verdict⟩ | ⟨rejection, -, verdict⟩
  · rw [verdict]
    exact .subscribe r c.function c.id
  · rw [verdict]
    exact .refl r

/-- An accepted site becomes a caller of its function, and nobody else becomes or ceases to be a
caller. -/
theorem mem_callers_validate {phase : Phase} {r : Registry} {c : CallSite} {name : String}
    {id : CallId} :
    id ∈ (c.validate phase r).registry.callers name ↔
      ((c.validate phase r).accepted ∧ id = c.id ∧ name = c.function) ∨ id ∈ r.callers name := by
  rcases validate_cases phase r c with ⟨a, -, verdict⟩ | ⟨rejection, -, verdict⟩
  · simp [verdict, Registry.mem_callers_subscribe]
  · simp [verdict]

theorem examine_congr {r r' : Registry} (same : r.SameFunctions r') (phase : Phase)
    (c : CallSite) : c.examine phase r' = c.examine phase r := by
  unfold examine
  rw [same.signatures, same.callables]

theorem judge_congr {r r' : Registry} (same : r.SameFunctions r') (phase : Phase) (c : CallSite) :
    c.judge phase r' = c.judge phase r := by
  rw [judge, judge, examine_congr same]

/-- The verdict on a site does not depend on who else calls what. -/
theorem validate_congr {r r' : Registry} (same : r.SameFunctions r') (phase : Phase)
    (c : CallSite) :
    (c.validate phase r').accepted = (c.validate phase r).accepted ∧
      (c.validate phase r').site = (c.validate phase r).site ∧
      (c.validate phase r').diagnostics = (c.validate phase r).diagnostics := by
  unfold validate
  rw [examine_congr same]
  split
  · exact ⟨rfl, rfl, rfl⟩
  · exact ⟨rfl, rfl, rfl⟩

end CallSite

end LiveCalls
