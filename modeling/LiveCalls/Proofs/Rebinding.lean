import LiveCalls.CallSite.Execution
import LiveCalls.Proofs.Recast
import LiveCalls.Proofs.Validation
import Mathlib.Data.List.Forall2

/-!
# Validating a call site again

A validation that succeeds puts the converted arguments in the place of those that were there, so a
later one starts from what the earlier ones made of them. `CallSite.history` is what each argument
has been through. With it one can tell whether a site is judged, and bound, as if it had just been
written.
-/

namespace LiveCalls

/-- An argument as it was written, with the types that it was accepted at, one after the other. -/
structure Argument where
  written : Expr
  types : List VarType

namespace Argument

def stored (a : Argument) : Expr := a.written.after a.types

def new (e : Expr) : Argument := ⟨e, []⟩

def accept (a : Argument) (t : VarType) : Argument := ⟨a.written, a.types ++ [t]⟩

@[simp] theorem stored_new (e : Expr) : (new e).stored = e := e.after_nil

/-- Whether the argument, as it has become, converts to a type. -/
structure Converts (a : Argument) (t : VarType) : Prop where
  vars : a.written.MayBe t
  constants : ∀ k ∈ a.written.constantsIn, (Datum.convert? id t (k.through a.types)).isSome

/-- The types that the argument was accepted at make no difference to it at one more type: its
constants convert as they were written would, and where any value is taken no variable is left
wrapped in an earlier conversion. -/
structure Unspoiled (a : Argument) (t : VarType) : Prop where
  constants : ∀ k ∈ a.written.constantsIn,
    Datum.convert? id t (k.through a.types) = Datum.convert? id t k
  vars : t = .any → ∀ u, Expr.lastTyped a.types = some u →
    ∀ x ∈ a.written.varsIn, x.2.isSubtype u

/-- An argument that is known from its writing and its history. -/
structure Sound (a : Argument) : Prop where
  written : a.written.isWritten
  types : ∀ t ∈ a.types, a.written.MayBe t

theorem Sound.new {e : Expr} (hw : e.isWritten) : (new e).Sound := ⟨hw, fun t ht => by cases ht⟩

theorem Sound.accept {a : Argument} (ha : a.Sound) {t : VarType} (ht : a.written.MayBe t) :
    (a.accept t).Sound := by
  constructor
  · exact ha.written
  · intro u hu
    rcases List.mem_append.mp hu with hu | hu
    · exact ha.types u hu
    · rw [List.mem_singleton] at hu
      subst hu
      exact ht

theorem convert_stored {a : Argument} (ha : a.Sound) {t : VarType} {b : Expr} :
    a.stored.convert t = .ok b ↔ a.Converts t ∧ b = (a.accept t).stored := by
  refine (Expr.convert_after ha.written ha.types t).trans ?_
  constructor
  · rintro ⟨may, fits, same⟩
    exact ⟨⟨may, fits⟩, same⟩
  · rintro ⟨⟨may, fits⟩, same⟩
    exact ⟨may, fits, same⟩

/-- An unspoiled argument converts where it would as it was written. -/
theorem Unspoiled.converts_iff {a : Argument} {t : VarType} (h : a.Unspoiled t) :
    a.Converts t ↔ (new a.written).Converts t := by
  have found : ∀ k ∈ a.written.constantsIn,
      (Datum.convert? id t (k.through a.types)).isSome = (Datum.convert? id t k).isSome := by
    intro k hk
    rw [h.constants k hk]
  constructor
  · intro c
    refine ⟨c.vars, ?_⟩
    intro k hk
    exact (found k hk).symm.trans (c.constants k hk)
  · intro c
    refine ⟨c.vars, ?_⟩
    intro k hk
    exact (found k hk).trans (c.constants k hk)

/-- Arguments that convert, as they are and as they were written, have the same values afterwards
if and only if they are unspoiled. -/
theorem unspoiled_iff {a : Argument} (ha : a.Sound) {t : VarType} (hc : a.Converts t)
    (hn : (new a.written).Converts t) :
    a.Unspoiled t ↔ (a.accept t).stored.SameValues ((new a.written).accept t).stored := by
  refine Iff.trans ?_ (Expr.sameValues_after_iff ha.written a.types t).symm
  constructor
  · intro h
    refine ⟨?_, h.vars⟩
    intro k hk
    obtain ⟨d, hd⟩ := Option.isSome_iff_exists.mp (hn.constants k hk)
    have hd' := (h.constants k hk).trans hd
    rw [Constant.towards, Constant.towards, hd', show Datum.convert? id t k = some d from hd]
    rfl
  · rintro ⟨ends, vars⟩
    refine ⟨?_, vars⟩
    intro k hk
    obtain ⟨c, hc⟩ := Option.isSome_iff_exists.mp (hc.constants k hk)
    obtain ⟨d, hd⟩ := Option.isSome_iff_exists.mp (hn.constants k hk)
    have hd : Datum.convert? id t k = some d := hd
    have same := ends k hk
    rw [Constant.towards, Constant.towards, hc, hd] at same
    rw [hc, hd]
    exact congrArg some same

end Argument

namespace CallSite

/-- Whether the arguments convert to the types that a signature wants them to have. -/
def Fits (c : CallSite) (s : Signature Ref) : Prop := ∃ es, c.fitted s = .ok es

theorem convertPairs_eq_ok_iff {i : Nat} {pairs : List (Expr × VarType)} {es : List Expr} :
    convertPairs i pairs = .ok es ↔
      List.Forall₂ (fun p e => p.1.convert p.2 = .ok e) pairs es := by
  induction pairs generalizing i es with
  | nil =>
    rw [convertPairs, List.forall₂_nil_left_iff, Except.ok.injEq]
    exact eq_comm
  | cons p rest ih =>
    obtain ⟨e, t⟩ := p
    rw [List.forall₂_cons_left_iff]
    cases he : e.convert t with
    | error reason =>
      simp [convertPairs, he]
    | ok b =>
      simp only [convertPairs, he, map_eq_ok_iff, ih]
      constructor
      · rintro ⟨bs, hbs, rfl⟩
        exact ⟨b, bs, rfl, hbs, rfl⟩
      · rintro ⟨b', bs, same, hbs, rfl⟩
        obtain rfl := Except.ok.inj same
        exact ⟨bs, hbs, rfl⟩

/-- Arguments with their histories convert together if each of them does. -/
theorem convertPairs_stored {i : Nat} {as : List Argument} (ha : ∀ a ∈ as, a.Sound)
    {ts : List VarType} {es : List Expr} :
    convertPairs i ((as.map Argument.stored).zip ts) = .ok es ↔
      (∀ p ∈ as.zip ts, p.1.Converts p.2) ∧
        es = (as.zip ts).map fun p => (p.1.accept p.2).stored := by
  rw [convertPairs_eq_ok_iff, List.zip_map_left, List.forall₂_map_left_iff]
  have sound : ∀ p ∈ as.zip ts, p.1.Sound := fun p hp => ha p.1 (List.of_mem_zip hp).1
  change List.Forall₂ (fun p e => p.1.stored.convert p.2 = .ok e) (as.zip ts) es ↔ _
  generalize as.zip ts = pairs at sound
  induction pairs generalizing es with
  | nil => simp
  | cons p rest ih =>
    obtain ⟨first, others⟩ := List.forall_mem_cons.mp sound
    simp only [List.forall₂_cons_left_iff, List.forall_mem_cons, List.map_cons,
      Argument.convert_stored first, ih others]
    constructor
    · rintro ⟨b, bs, ⟨hp, rfl⟩, ⟨hrest, rfl⟩, rfl⟩
      exact ⟨⟨hp, hrest⟩, rfl⟩
    · rintro ⟨⟨hp, hrest⟩, rfl⟩
      exact ⟨_, _, ⟨hp, rfl⟩, ⟨hrest, rfl⟩, rfl⟩

theorem length_le_targets {s : Signature Ref} {n : Nat} (h : judgeCount s n = .ok ()) :
    n ≤ (targets s n).length := by
  unfold judgeCount at h
  split at h
  · cases h
  · rename_i enough
    unfold targets
    cases hp : s.parameters with
    | nil => simp_all [Signature.spreads, Signature.arity]
    | cons p ps =>
      split
      · simp
      · rename_i single
        simp [Signature.arity, single, hp] at enough ⊢
        omega

/-- A site whose arguments are known from their writing and their histories. -/
structure Followed (c : CallSite) (as : List Argument) : Prop where
  stored : c.arguments = as.map Argument.stored
  sound : ∀ a ∈ as, a.Sound

/-- The histories of the arguments after a validation. -/
def follow (phase : Phase) (r : Registry) (c : CallSite) (as : List Argument) : List Argument :=
  match c.judge phase r with
  | .ok a => (as.zip (targets a.signature as.length)).map fun p => p.1.accept p.2
  | .error _ => as

/-- A site validated again against one registry after another, whatever comes of it. -/
def revalidate (c : CallSite) : List Registry → CallSite
  | [] => c
  | r :: rs => (c.validate .again r).site.revalidate rs

def history (c : CallSite) (as : List Argument) : List Registry → List Argument
  | [] => as
  | r :: rs => (c.validate .again r).site.history (c.follow .again r as) rs

namespace Followed

variable {c : CallSite} {as : List Argument}

theorem new {es : List Expr} (hw : ∀ e ∈ es, e.isWritten) (hc : c.arguments = es) :
    c.Followed (es.map Argument.new) := by
  constructor
  · rw [hc, List.map_map]
    exact (List.map_id es).symm.trans (List.map_congr_left fun e _ => (Argument.stored_new e).symm)
  · intro a ha
    obtain ⟨e, he, rfl⟩ := List.mem_map.mp ha
    exact .new (hw e he)

theorem length (h : c.Followed as) : c.arguments.length = as.length := by
  rw [h.stored, List.length_map]

theorem fitted_eq_ok_iff (h : c.Followed as) {s : Signature Ref} {es : List Expr} :
    c.fitted s = .ok es ↔
      (∀ p ∈ as.zip (targets s as.length), p.1.Converts p.2) ∧
        es = (as.zip (targets s as.length)).map fun p => (p.1.accept p.2).stored := by
  rw [fitted, h.length, h.stored]
  exact convertPairs_stored h.sound

theorem fits_iff (h : c.Followed as) {s : Signature Ref} :
    c.Fits s ↔ ∀ p ∈ as.zip (targets s as.length), p.1.Converts p.2 := by
  constructor
  · rintro ⟨es, hes⟩
    exact (h.fitted_eq_ok_iff.mp hes).1
  · intro all
    exact ⟨_, h.fitted_eq_ok_iff.mpr ⟨all, rfl⟩⟩

theorem validate (h : c.Followed as) (phase : Phase) (r : Registry) :
    (c.validate phase r).site.Followed (c.follow phase r as) := by
  unfold follow
  cases hj : c.judge phase r with
  | error rejection =>
    rw [validate_of_rejected hj]
    exact h
  | ok a =>
    rw [validate_of_judged hj]
    obtain ⟨-, -, count, fit, -⟩ := judge_eq_ok_iff.mp hj
    obtain ⟨converts, stored⟩ := h.fitted_eq_ok_iff.mp fit
    constructor
    · change a.arguments =
        ((as.zip (targets a.signature as.length)).map fun p => p.1.accept p.2).map Argument.stored
      rw [stored, List.map_map]
      rfl
    · intro b hb
      obtain ⟨p, hp, rfl⟩ := List.mem_map.mp hb
      exact (h.sound p.1 (List.of_mem_zip hp).1).accept (converts p hp).vars

/-- The stored arguments are the written ones after their histories. -/
theorem history (h : c.Followed as) (rs : List Registry) :
    (c.revalidate rs).Followed (c.history as rs) := by
  induction rs generalizing c as with
  | nil => exact h
  | cons r rs ih => exact ih (h.validate .again r)

end Followed

section
open Argument (written)

theorem written_follow {phase : Phase} {r : Registry} {c : CallSite} {as : List Argument}
    (h : c.Followed as) :
    (c.follow phase r as).map written = as.map written := by
  unfold follow
  cases hj : c.judge phase r with
  | error rejection => rfl
  | ok a =>
    obtain ⟨-, -, count, -⟩ := judge_eq_ok_iff.mp hj
    have enough := length_le_targets count
    rw [h.length] at enough
    calc ((as.zip (targets a.signature as.length)).map fun p => p.1.accept p.2).map written
        = ((as.zip (targets a.signature as.length)).map Prod.fst).map written := by
          rw [List.map_map, List.map_map]; rfl
      _ = as.map written := by rw [List.map_fst_zip enough]

theorem written_history {c : CallSite} {as : List Argument} (h : c.Followed as)
    (rs : List Registry) : (c.history as rs).map written = as.map written := by
  induction rs generalizing c as with
  | nil => rfl
  | cons r rs ih => exact (ih (h.validate .again r)).trans (written_follow h)

end

/-- A site is bound as if it had just been written: its arguments convert where they would as they
were written, and have the same values then. -/
structure StartsOver (s : Signature Ref) (fresh c : CallSite) : Prop where
  fits : c.Fits s ↔ fresh.Fits s
  same : ∀ es ds, c.fitted s = .ok es → fresh.fitted s = .ok ds → List.Forall₂ Expr.SameValues es ds

def anew (as : List Argument) : List Argument := as.map fun a => .new a.written

theorem Followed.anew_fitted {fresh : CallSite} {as : List Argument} (h : fresh.Followed (anew as))
    {s : Signature Ref} {ds : List Expr} :
    fresh.fitted s = .ok ds ↔
      (∀ p ∈ as.zip (targets s as.length), (Argument.new p.1.written).Converts p.2) ∧
        ds = (as.zip (targets s as.length)).map fun p =>
          ((Argument.new p.1.written).accept p.2).stored := by
  rw [h.fitted_eq_ok_iff, anew, List.length_map, List.zip_map_left, List.forall_mem_map,
    List.map_map]
  rfl

/-- A site is bound as if it had just been written exactly if its arguments would convert neither
way or none of them is spoiled. -/
theorem startsOver_iff {fresh c : CallSite} {as : List Argument} (h : c.Followed as)
    (hf : fresh.Followed (anew as)) {s : Signature Ref} :
    StartsOver s fresh c ↔
      (¬ c.Fits s ∧ ¬ fresh.Fits s) ∨ ∀ p ∈ as.zip (targets s as.length), p.1.Unspoiled p.2 := by
  have sound : ∀ p ∈ as.zip (targets s as.length), p.1.Sound := by
    intro p hp
    exact h.sound p.1 (List.of_mem_zip hp).1
  have freshFits : fresh.Fits s ↔
      ∀ p ∈ as.zip (targets s as.length), (Argument.new p.1.written).Converts p.2 := by
    constructor
    · rintro ⟨ds, hds⟩
      exact (hf.anew_fitted.mp hds).1
    · intro all
      exact ⟨_, hf.anew_fitted.mpr ⟨all, rfl⟩⟩
  constructor
  · intro starts
    by_cases fits : c.Fits s
    · right
      obtain ⟨es, hes⟩ := fits
      obtain ⟨ds, hds⟩ := starts.fits.mp ⟨es, hes⟩
      have same := starts.same es ds hes hds
      obtain ⟨converts, rfl⟩ := h.fitted_eq_ok_iff.mp hes
      obtain ⟨converts', rfl⟩ := hf.anew_fitted.mp hds
      rw [List.forall₂_map_left_iff, List.forall₂_map_right_iff, List.forall₂_same] at same
      intro p hp
      exact (Argument.unspoiled_iff (sound p hp) (converts p hp) (converts' p hp)).mpr (same p hp)
    · exact .inl ⟨fits, fun freshly => fits (starts.fits.mpr freshly)⟩
  · rintro (⟨never, neither⟩ | unspoiled)
    · exact ⟨iff_of_false never neither, fun es _ hes => absurd ⟨es, hes⟩ never⟩
    · constructor
      · rw [h.fits_iff, freshFits]
        exact forall₂_congr fun p hp => (unspoiled p hp).converts_iff
      · intro es ds hes hds
        obtain ⟨converts, rfl⟩ := h.fitted_eq_ok_iff.mp hes
        obtain ⟨converts', rfl⟩ := hf.anew_fitted.mp hds
        rw [List.forall₂_map_left_iff, List.forall₂_map_right_iff, List.forall₂_same]
        intro p hp
        exact (Argument.unspoiled_iff (sound p hp) (converts p hp) (converts' p hp)).mp
          (unspoiled p hp)

theorem arguments_validate {phase : Phase} {r : Registry} {c : CallSite} {a : Adopted}
    (h : c.judge phase r = .ok a) : (c.validate phase r).site.arguments = a.arguments := by
  rw [validate_of_judged h]
  rfl

theorem frame_revalidate (c : CallSite) (rs : List Registry) :
    (c.revalidate rs).function = c.function ∧ (c.revalidate rs).expected = c.expected := by
  induction rs generalizing c with
  | nil => exact ⟨rfl, rfl⟩
  | cons r rs ih =>
    obtain ⟨-, function, expected⟩ := frame_validate .again r c
    obtain ⟨function', expected'⟩ := ih (c.validate .again r).site
    exact ⟨function'.trans function, expected'.trans expected⟩

/-- What comes back would do at first, too, if it does again. -/
theorem judgeResult_first {s : Signature Ref} {c fresh : CallSite} {b : Bool}
    (he : fresh.expected = c.expected) (h : judgeResult .again s c = .ok b) :
    ∃ b', judgeResult .first s fresh = .ok b' := by
  unfold judgeResult at h ⊢
  rw [he]
  cases hx : c.expected with
  | none => exact ⟨_, rfl⟩
  | some expected =>
    rw [hx] at h
    cases hr : s.resultType? with
    | none => simp [hr] at h
    | some returned =>
      by_cases fits : expected.any returned.isSubtype
      · exact ⟨s.returnsSingle, by simp [fits]⟩
      · simp [hr, fits] at h

/-- A site that is bound as if it had just been written is accepted only if it would be accepted
then, and passes on the same values. -/
theorem StartsOver.accepted {s : Signature Ref} {fresh c : CallSite} (starts : StartsOver s fresh c)
    (hf : fresh.function = c.function) (he : fresh.expected = c.expected)
    (hn : fresh.arguments.length = c.arguments.length) {r : Registry}
    (hs : r.signatures.get? c.function = some s) (ha : (c.validate .again r).accepted) :
    (fresh.validate .first r).accepted ∧
      List.Forall₂ Expr.SameValues (c.validate .again r).site.arguments
        (fresh.validate .first r).site.arguments := by
  obtain ⟨a, hj⟩ := accepted_iff.mp ha
  obtain ⟨signature, result, count, fit, -⟩ := judge_eq_ok_iff.mp hj
  obtain rfl := Option.some.inj (hs.symm.trans signature)
  obtain ⟨single, result'⟩ := judgeResult_first he result
  obtain ⟨ds, fit'⟩ := starts.fits.mp ⟨_, fit⟩
  have hj' : fresh.judge .first r = .ok ⟨a.signature, r.callables.get? c.function, ds, single⟩ := by
    rw [judge_eq_ok_iff, hf, hn]
    exact ⟨hs, result', count, fit', rfl⟩
  rw [arguments_validate hj, arguments_validate hj']
  exact ⟨accepted_iff.mpr ⟨_, hj'⟩, starts.same _ _ fit fit'⟩

/-- A call site that was validated when it was written, and again against one registry after
another, is bound to the next signature as if it had just been written exactly if its arguments
would convert neither way or none of them is spoiled by what it has been through. It is accepted
only if it would be accepted then, and passes on the same values. -/
theorem rebinding_starts_over_iff (id : CallId) (function : String) (site : Option Site)
    (expected : Option (List VarType)) (uptake : Uptake) {written : List Expr}
    (hw : ∀ e ∈ written, e.isWritten) (r₀ : Registry) (rs : List Registry) (s : Signature Ref) :
    let fresh := CallSite.fresh id function site expected written uptake
    let first := (fresh.validate .first r₀).site
    let c := first.revalidate rs
    let as := first.history (fresh.follow .first r₀ (written.map .new)) rs
    (StartsOver s fresh c ↔
      (¬ c.Fits s ∧ ¬ fresh.Fits s) ∨
        ∀ p ∈ as.zip (targets s written.length), p.1.Unspoiled p.2) ∧
      (StartsOver s fresh c → ∀ r : Registry, r.signatures.get? function = some s →
        (c.validate .again r).accepted → (fresh.validate .first r).accepted ∧
          List.Forall₂ Expr.SameValues (c.validate .again r).site.arguments
            (fresh.validate .first r).site.arguments) := by
  intro fresh first c as
  have start : fresh.Followed (written.map .new) := .new hw rfl
  have bound : first.Followed (fresh.follow .first r₀ (written.map .new)) :=
    start.validate .first r₀
  have followed : c.Followed as := bound.history rs
  have kept : as.map Argument.written = written := by
    rw [written_history bound rs, written_follow start, List.map_map]
    exact List.map_id written
  have forgotten : anew as = written.map .new := by
    rw [← kept, List.map_map]
    rfl
  have count : as.length = written.length := by rw [← kept, List.length_map]
  obtain ⟨-, function₀, expected₀⟩ := frame_validate .first r₀ fresh
  obtain ⟨function', expected'⟩ := frame_revalidate first rs
  constructor
  · rw [← count]
    exact startsOver_iff followed (forgotten ▸ start)
  · intro starts r hs ha
    have same : c.function = function := function'.trans function₀
    refine starts.accepted same.symm (expected'.trans expected₀).symm ?_ (same ▸ hs) ha
    rw [start.length, followed.length, count, List.length_map]

/-- A function that gives back the values of its one parameter. -/
def echo (t : VarType) : Callable :=
  ⟨⟨"f", [⟨"x", t, .single, none⟩], some ⟨.any, .multiple⟩⟩,
    .native ⟨fun slots w => ⟨some slots.flatten, w, []⟩⟩⟩

/-- A text that spells a truth value, given to that function. -/
def yes : CallSite := .fresh 1 "f" none none [.constants [.str "yes"] .unknown] .value

theorem rebinding_starts_over_truth :
    (∀ e ∈ yes.arguments, e.isWritten) ∧
      StartsOver (echo .bool).signature yes
        ((yes.validate .first (Registry.empty.define (echo .bool)).2).site.revalidate
          [(Registry.empty.define (echo .any)).2]) := by
  have hw : ∀ e ∈ yes.arguments, e.isWritten := by decide
  refine ⟨hw, ?_⟩
  refine (rebinding_starts_over_iff 1 "f" none none .value hw
    (Registry.empty.define (echo .bool)).2 [(Registry.empty.define (echo .any)).2]
    (echo .bool).signature).1.mpr (.inr ?_)
  intro p hp
  obtain rfl := List.mem_singleton.mp hp
  constructor
  · intro k hk
    obtain rfl := List.mem_singleton.mp hk
    rfl
  · nofun

/-- Rebound to a function of texts, the call passes on the spelling of the truth value that it
became, where it passes on the text that is written if it is bound for the first time. -/
theorem truth_rebound_to_text :
    let bound := yes.validate .first (Registry.empty.define (echo .bool)).2
    let r := (bound.registry.define (echo .str)).2
    let again := bound.site.validate .again r
    let anew := yes.validate .first r
    ¬ StartsOver (echo .str).signature yes bound.site ∧
      again.accepted ∧ (again.site.execute .empty r .empty).values = some [.str "true"] ∧
      anew.accepted ∧ (anew.site.execute .empty r .empty).values = some [.str "yes"] := by
  refine ⟨fun starts => ?_, rfl, rfl, rfl, rfl⟩
  have same := (List.forall₂_cons.mp (starts.same _ _ rfl rfl)).1 .empty .empty
  have texts : [Datum.str "true"] = [(Datum.str "yes" : Constant)] := same
  exact absurd (Datum.str.inj (List.cons.inj texts).1) (by decide)

end CallSite

end LiveCalls
