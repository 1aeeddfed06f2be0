import LiveCalls.Expr.Conversion
import LiveCalls.Manifest.Compile
import LiveCalls.Proofs.Failure
import LiveCalls.Proofs.Meaning

/-!
# Expressions that were converted before

An expression that was accepted at several types, one after the other, has its constants converted
from type to type, and each of its variables is wrapped in a conversion to the last of these types
other than `any`, unless it has that type already. `Expr.after` is this form.
-/

namespace LiveCalls

theorem VarType.eq_of_common_isSubtype {ts : List VarType} {t : VarType} (ht : t ≠ .any)
    (h : (VarType.common ts).isSubtype t) : ∀ s ∈ ts, s = t := by
  cases ts with
  | nil => intro s hs; cases hs
  | cons s ss =>
    rw [VarType.isSubtype_iff] at h
    have same : VarType.common (s :: ss) = t := h.resolve_right ht
    simp only [VarType.common] at same
    split at same
    · rename_i all
      subst same
      intro u hu
      rcases List.mem_cons.mp hu with rfl | hu
      · rfl
      · exact of_decide_eq_true (List.all_eq_true.mp all u hu)
    · exact absurd same.symm ht

namespace Constant

/-- The constant as one of type `t`, or as it is if it has no counterpart there. -/
def towards (t : VarType) (c : Constant) : Constant := (Datum.convert? id t c).getD c

def through (ts : List VarType) (c : Constant) : Constant := ts.foldl (fun c t => c.towards t) c

@[simp] theorem convert?_any (c : Constant) : Datum.convert? id .any c = some c :=
  Datum.convert?_of_isA (VarType.isSubtype_any _)

@[simp] theorem towards_any (c : Constant) : c.towards .any = c := by
  simp [towards]

theorem through_append (ts : List VarType) (t : VarType) (c : Constant) :
    c.through (ts ++ [t]) = (c.through ts).towards t := by
  simp [through]

theorem convertAll_eq_ok_iff {t : VarType} {cs ds : List Constant} :
    convertAll t cs = .ok ds ↔
      (∀ c ∈ cs, (Datum.convert? id t c).isSome) ∧ ds = cs.map (towards t) := by
  induction cs generalizing ds with
  | nil =>
    simp only [convertAll, Except.ok.injEq, List.not_mem_nil, false_implies, implies_true, true_and,
      List.map_nil]
    exact eq_comm
  | cons c cs ih =>
    cases hc : Datum.convert? id t c with
    | none => simp [convertAll, hc]
    | some d =>
      cases hr : convertAll t cs with
      | error reason =>
        have never : ¬ ∀ c ∈ cs, (Datum.convert? id t c).isSome := by
          intro all
          have converted := ih.mpr ⟨all, rfl⟩
          rw [hr] at converted
          cases converted
        simp [convertAll, hc, hr, never, Except.map]
      | ok es =>
        obtain ⟨all, rfl⟩ := ih.mp hr
        simp only [convertAll, hc, hr, Except.map, Except.ok.injEq, List.forall_mem_cons,
          Option.isSome_some, true_and, List.map_cons, towards, Option.getD_some]
        exact ⟨fun h => ⟨all, h.symm⟩, fun h => h.2.symm⟩

end Constant

namespace Expr

mutual

/-- Whether no part of the expression is a conversion. -/
def isWritten : Expr → Bool
  | constants .. | var .. => true
  | list items _ => areWritten items
  | converted .. => false

def areWritten : List Expr → Bool
  | [] => true
  | e :: es => e.isWritten && areWritten es

end

mutual

/-- The constants in an expression, in order. -/
def constantsIn : Expr → List Constant
  | constants cs _ => cs
  | var .. => []
  | list items _ => constantsInAll items
  | converted e _ _ => e.constantsIn

def constantsInAll : List Expr → List Constant
  | [] => []
  | e :: es => e.constantsIn ++ constantsInAll es

end

mutual

def varsIn : Expr → List (String × VarType)
  | constants .. => []
  | var name ty _ => [(name, ty)]
  | list items _ => varsInAll items
  | converted e _ _ => e.varsIn

def varsInAll : List Expr → List (String × VarType)
  | [] => []
  | e :: es => e.varsIn ++ varsInAll es

end

/-- A variable that is to have values of a type, wrapped unless it has no others anyway. -/
def wrap (target : Option VarType) (name : String) (ty : VarType) (pos : Position) : Expr :=
  match target with
  | none => var name ty pos
  | some t => if ty.isSubtype t then var name ty pos else converted (var name ty pos) t pos

mutual

/-- The expression with its constants changed and its variables wrapped. -/
def recast (f : Constant → Constant) (target : Option VarType) : Expr → Expr
  | constants cs pos => constants (cs.map f) pos
  | var name ty pos => wrap target name ty pos
  | list items pos => list (recastAll f target items) pos
  | converted e t pos => converted e t pos

def recastAll (f : Constant → Constant) (target : Option VarType) : List Expr → List Expr
  | [] => []
  | e :: es => e.recast f target :: recastAll f target es

end

/-- Whether the variables in an expression may turn out to have values of a type. -/
def MayBe (e : Expr) (t : VarType) : Prop := ∀ x ∈ e.varsIn, x.2.mayConvert t

/-- The last of these types that says anything about a value. -/
def lastTyped (ts : List VarType) : Option VarType := (ts.filter (· ≠ .any)).getLast?

/-- What stands in the place of an expression that was accepted at these types, one after the
other. -/
def after (e : Expr) (ts : List VarType) : Expr := e.recast (Constant.through ts) (lastTyped ts)

theorem lastTyped_append (ts : List VarType) (t : VarType) :
    lastTyped (ts ++ [t]) = if t = .any then lastTyped ts else some t := by
  by_cases ht : t = .any <;> simp [lastTyped, ht]

theorem mem_of_lastTyped {ts : List VarType} {t : VarType} (h : lastTyped ts = some t) :
    t ∈ ts ∧ t ≠ .any := by
  have last := List.mem_of_getLast? h
  simpa using last

theorem convertItems_of_types {t : VarType} (items : List Expr) (h : ∀ s ∈ types items, s = t) :
    convertItems t items = .ok items := by
  induction items with
  | nil => rfl
  | cons e es ih =>
    have first : e.convert t = .ok e := by
      unfold convert
      rw [h e.type List.mem_cons_self, if_pos (VarType.isSubtype_refl t)]
    rw [convertItems, first]
    simp only [ih fun s hs => h s (List.mem_cons_of_mem _ hs)]
    rfl

theorem convert_var (t : VarType) (name : String) (ty : VarType) (pos : Position) :
    (var name ty pos).convert t =
      if ty.mayConvert t then .ok (wrap (some t) name ty pos)
      else .error (.var name t) := by
  unfold convert wrap
  by_cases fits : ty.isSubtype t
  · have may : ty.mayConvert t := by simp [VarType.mayConvert, fits]
    simp [type, fits, may]
  · simp [type, fits]

theorem convert_converted (t : VarType) (e : Expr) (u : VarType) (pos : Position) :
    (converted e u pos).convert t =
      if u.isSubtype t then .ok (converted e u pos) else e.convert t := by
  rw [convert]
  rfl

theorem convert_any (e : Expr) : e.convert .any = .ok e := by
  unfold convert
  rw [if_pos (VarType.isSubtype_any _)]

section
variable {t : VarType} (ht : t ≠ .any)
include ht

theorem convert_constants (cs : List Constant) (pos : Position) :
    (constants cs pos).convert t = (Constant.convertAll t cs).map (constants · pos) := by
  unfold convert
  split
  · rename_i fits
    have same := VarType.eq_of_common_isSubtype ht fits
    have own : ∀ c ∈ cs, Datum.convert? id t c = some c := by
      intro c hc
      apply Datum.convert?_of_isA
      rw [Datum.isA, same c.type (List.mem_map_of_mem hc)]
      exact VarType.isSubtype_refl t
    have all : Constant.convertAll t cs = .ok cs := by
      rw [Constant.convertAll_eq_ok_iff]
      constructor
      · intro c hc
        rw [own c hc]
        rfl
      · refine (List.map_id cs).symm.trans (List.map_congr_left ?_)
        intro c hc
        rw [Constant.towards, own c hc]
        rfl
    rw [all]
    rfl
  · rfl

theorem convert_list (items : List Expr) (pos : Position) :
    (list items pos).convert t = (convertItems t items).map (list · pos) := by
  unfold convert
  split
  · rename_i fits
    rw [convertItems_of_types items (VarType.eq_of_common_isSubtype ht fits)]
    rfl
  · rfl

/-- A wrapped variable starts over from the variable. -/
theorem convert_wrap (target : Option VarType) (name : String) (ty : VarType) (pos : Position)
    (h : ∀ u, target = some u → ty.mayConvert u) :
    (wrap target name ty pos).convert t = (var name ty pos).convert t := by
  cases target with
  | none => rfl
  | some u =>
    by_cases fits : ty.isSubtype u
    · simp only [wrap, if_pos fits]
    · simp only [wrap, if_neg fits]
      rw [convert_converted]
      by_cases same : u = t
      · subst same
        rw [if_pos (VarType.isSubtype_refl u), convert_var, if_pos (h u rfl), wrap, if_neg fits]
      · have other : ¬ u.isSubtype t := by simp [VarType.isSubtype, same, ht]
        rw [if_neg other]

end

mutual

/-- Converting a changed expression changes each constant once more and wraps the variables
anew. -/
theorem convert_recast {t : VarType} (ht : t ≠ .any) {f : Constant → Constant}
    {target : Option VarType} :
    (e : Expr) → e.isWritten → (∀ u, target = some u → e.MayBe u) → {b : Expr} →
    ((e.recast f target).convert t = .ok b ↔
      e.MayBe t ∧ (∀ k ∈ e.constantsIn, (Datum.convert? id t (f k)).isSome) ∧
        b = e.recast (fun k => (f k).towards t) (some t))
  | constants cs pos, _, _, b => by
    simp only [recast, constantsIn, MayBe, varsIn, convert_constants ht, map_eq_ok_iff,
      Constant.convertAll_eq_ok_iff, List.forall_mem_map, List.map_map]
    constructor
    · rintro ⟨ds, ⟨fits, rfl⟩, rfl⟩
      exact ⟨nofun, fits, rfl⟩
    · rintro ⟨-, fits, rfl⟩
      exact ⟨_, ⟨fits, rfl⟩, rfl⟩
  | var name ty pos, _, hm, b => by
    have may : ∀ u, target = some u → ty.mayConvert u := fun u hu =>
      hm u hu (name, ty) List.mem_cons_self
    simp only [recast, constantsIn, MayBe, varsIn, convert_wrap ht target name ty pos may,
      convert_var, List.forall_mem_singleton]
    split
    · rename_i fits
      constructor
      · intro h
        exact ⟨fits, nofun, (Except.ok.inj h).symm⟩
      · rintro ⟨-, -, rfl⟩
        rfl
    · rename_i misfit
      exact ⟨nofun, fun h => absurd h.1 misfit⟩
  | list items pos, hw, hm, b => by
    simp only [recast, constantsIn, MayBe, varsIn, convert_list ht, map_eq_ok_iff,
      convertItems_recast ht items hw hm]
    constructor
    · rintro ⟨bs, ⟨may, fits, rfl⟩, rfl⟩
      exact ⟨may, fits, rfl⟩
    · rintro ⟨may, fits, rfl⟩
      exact ⟨_, ⟨may, fits, rfl⟩, rfl⟩
  | converted .., hw, _, _ => by cases hw

theorem convertItems_recast {t : VarType} (ht : t ≠ .any) {f : Constant → Constant}
    {target : Option VarType} :
    (es : List Expr) → areWritten es →
    (∀ u, target = some u → ∀ x ∈ varsInAll es, x.2.mayConvert u) → {bs : List Expr} →
    (convertItems t (recastAll f target es) = .ok bs ↔
      (∀ x ∈ varsInAll es, x.2.mayConvert t) ∧
        (∀ k ∈ constantsInAll es, (Datum.convert? id t (f k)).isSome) ∧
        bs = recastAll (fun k => (f k).towards t) (some t) es)
  | [], _, _, bs => by
    simp only [recastAll, convertItems, varsInAll, constantsInAll, List.not_mem_nil,
      false_implies, implies_true, true_and, Except.ok.injEq]
    exact eq_comm
  | e :: es, hw, hm, bs => by
    obtain ⟨he, hes⟩ := Bool.and_eq_true_iff.mp hw
    have first := @convert_recast t ht f target e he fun u hu x hx =>
      hm u hu x (List.mem_append_left _ hx)
    have rest := @convertItems_recast t ht f target es hes fun u hu x hx =>
      hm u hu x (List.mem_append_right _ hx)
    simp only [recastAll, convertItems, varsInAll, constantsInAll, List.forall_mem_append]
    cases hf : (e.recast f target).convert t with
    | error reason =>
      constructor
      · nofun
      · intro h
        have accepted := first.mpr ⟨h.1.1, h.2.1.1, rfl⟩
        rw [hf] at accepted
        cases accepted
    | ok a =>
      obtain ⟨may, fits, rfl⟩ := first.mp hf
      simp only [map_eq_ok_iff, rest]
      constructor
      · rintro ⟨as, ⟨mays, fitting, rfl⟩, rfl⟩
        exact ⟨⟨may, mays⟩, ⟨fits, fitting⟩, rfl⟩
      · rintro ⟨⟨-, mays⟩, ⟨-, fitting⟩, rfl⟩
        exact ⟨_, ⟨mays, fitting, rfl⟩, rfl⟩

end

mutual

theorem recast_id : (e : Expr) → e.recast id none = e
  | constants cs pos => congrArg (constants · pos) (List.map_id cs)
  | var .. | converted .. => rfl
  | list items pos => congrArg (list · pos) (recastAll_id items)

theorem recastAll_id : (es : List Expr) → recastAll id none es = es
  | [] => rfl
  | e :: es => by rw [recastAll, recast_id e, recastAll_id es]

end

mutual

theorem recast_congr {f g : Constant → Constant} {target : Option VarType} : (e : Expr) →
    (∀ k ∈ e.constantsIn, f k = g k) → e.recast f target = e.recast g target
  | constants _ pos, h => congrArg (constants · pos) (List.map_congr_left h)
  | var .., _ | converted .., _ => rfl
  | list items pos, h => congrArg (list · pos) (recastAll_congr items h)

theorem recastAll_congr {f g : Constant → Constant} {target : Option VarType} : (es : List Expr) →
    (∀ k ∈ constantsInAll es, f k = g k) → recastAll f target es = recastAll g target es
  | [], _ => rfl
  | e :: es, h => by
    obtain ⟨first, rest⟩ := List.forall_mem_append.mp h
    rw [recastAll, recastAll, recast_congr e first, recastAll_congr es rest]

end

@[simp] theorem after_nil (e : Expr) : e.after [] = e := recast_id e

/-- The form for one more type, given that for the earlier ones. -/
theorem after_append (e : Expr) (ts : List VarType) (t : VarType) :
    e.after (ts ++ [t]) =
      e.recast (fun k => (k.through ts).towards t)
        (if t = .any then lastTyped ts else some t) := by
  rw [after, lastTyped_append]
  exact recast_congr e fun k _ => k.through_append ts t

/-- Converting an expression that was accepted at several types succeeds where its variables may
have the type and its constants, as they have become, have counterparts in it. -/
theorem convert_after {e b : Expr} (hw : e.isWritten) {ts : List VarType}
    (hm : ∀ t ∈ ts, e.MayBe t) (t : VarType) :
    (e.after ts).convert t = .ok b ↔
      e.MayBe t ∧ (∀ k ∈ e.constantsIn, (Datum.convert? id t (k.through ts)).isSome) ∧
        b = e.after (ts ++ [t]) := by
  rw [after_append]
  by_cases ht : t = .any
  · subst ht
    have may : e.MayBe .any := fun x _ => by simp [VarType.mayConvert]
    have same : e.recast (fun k => (k.through ts).towards .any) (lastTyped ts) = e.after ts :=
      recast_congr e fun k _ => (k.through ts).towards_any
    rw [convert_any, if_pos rfl, same]
    constructor
    · intro h
      exact ⟨may, fun k _ => by rw [Constant.convert?_any]; rfl, (Except.ok.inj h).symm⟩
    · rintro ⟨-, -, rfl⟩
      rfl
  · rw [if_neg ht]
    exact convert_recast ht e hw fun u hu => hm u (mem_of_lastTyped hu).1

/-- Expressions whose values are the same in every context. -/
def SameValues (a b : Expr) : Prop := ∀ (ctx : Context) (h : Heap),
  (a.eval ctx h).1.map (Value.constant (a.eval ctx h).2) =
    (b.eval ctx h).1.map (Value.constant (b.eval ctx h).2)

theorem SameValues.denote {a b : Expr} (same : a.SameValues b) {ctx : Context} {h : Heap}
    (hc : ctx.InHeap h) : a.denote (ctx.constants h) = b.denote (ctx.constants h) := by
  rw [← (a.eval_yields hc).hold.constants, ← (b.eval_yields hc).hold.constants]
  exact same ctx h

theorem denote_wrap_nil (target : Option VarType) (name : String) (ty : VarType) (pos : Position) :
    (wrap target name ty pos).denote (fun _ => []) = [] := by
  cases target with
  | none => rfl
  | some u => by_cases fits : ty.isSubtype u <;> simp [wrap, fits, denote]

mutual

/-- Without variables only the constants are left. -/
theorem denote_recast_nil {f : Constant → Constant} {target : Option VarType} : (e : Expr) →
    e.isWritten → (e.recast f target).denote (fun _ => []) = e.constantsIn.map f
  | constants .., _ => rfl
  | var name ty pos, _ => denote_wrap_nil target name ty pos
  | list items _, hw => denoteItems_recast_nil items hw
  | converted .., hw => by cases hw

theorem denoteItems_recast_nil {f : Constant → Constant} {target : Option VarType} :
    (es : List Expr) → areWritten es →
    denoteItems (fun _ => []) (recastAll f target es) = (constantsInAll es).map f
  | [], _ => rfl
  | e :: es, hw => by
    obtain ⟨he, hes⟩ := Bool.and_eq_true_iff.mp hw
    rw [recastAll, denoteItems, denote_recast_nil e he, denoteItems_recast_nil es hes,
      constantsInAll, List.map_append]

end

mutual

/-- Where no variable needs it nothing is wrapped. -/
theorem recast_plain {f : Constant → Constant} {u : VarType} : (e : Expr) →
    (∀ x ∈ e.varsIn, x.2.isSubtype u) → e.recast f (some u) = e.recast f none
  | constants .., _ | converted .., _ => rfl
  | var name ty _, h => if_pos (h (name, ty) List.mem_cons_self)
  | list items pos, h => congrArg (list · pos) (recastAll_plain items h)

theorem recastAll_plain {f : Constant → Constant} {u : VarType} : (es : List Expr) →
    (∀ x ∈ varsInAll es, x.2.isSubtype u) → recastAll f (some u) es = recastAll f none es
  | [], _ => rfl
  | e :: es, h => by
    obtain ⟨first, rest⟩ := List.forall_mem_append.mp h
    rw [recastAll, recastAll, recast_plain e first, recastAll_plain es rest]

end

/-- How many of these constants are not of a type. -/
def strangers (u : VarType) (cs : List Constant) : Nat := cs.countP (·.type ≠ u)

theorem strangers_append (u : VarType) (cs ds : List Constant) :
    strangers u (cs ++ ds) = strangers u cs + strangers u ds := List.countP_append

theorem strangers_convert {u : VarType} (hu : u ≠ .any) (cs : List Constant) :
    strangers u (cs.filterMap (Datum.convert? id u)) = 0 := by
  apply List.countP_eq_zero.mpr
  intro c hc
  obtain ⟨k, -, hk⟩ := List.mem_filterMap.mp hc
  have fits := VarType.isSubtype_iff.mp (Datum.isA_of_convert? hk)
  simpa using fits.resolve_right hu

/-- How many values that are not of a type the variables lose that do not have it anyway. -/
def lost (u : VarType) (vars : String → List Constant) (xs : List (String × VarType)) : Nat :=
  strangers u ((xs.filter (!·.2.isSubtype u)).flatMap fun x => vars x.1)

theorem lost_append (u : VarType) (vars : String → List Constant)
    (xs ys : List (String × VarType)) :
    lost u vars (xs ++ ys) = lost u vars xs + lost u vars ys := by
  rw [lost, List.filter_append, List.flatMap_append, strangers_append]
  rfl

theorem lost_pos {u : VarType} {vars : String → List Constant} {xs : List (String × VarType)}
    {x : String × VarType} (hx : x ∈ xs) (misfit : ¬ x.2.isSubtype u)
    (some : 0 < strangers u (vars x.1)) : 0 < lost u vars xs := by
  obtain ⟨c, hc, stranger⟩ := List.countP_pos_iff.mp some
  have wrapped : x ∈ xs.filter (!·.2.isSubtype u) := List.mem_filter.mpr ⟨hx, by simp [misfit]⟩
  exact List.countP_pos_iff.mpr ⟨c, List.mem_flatMap.mpr ⟨x, wrapped, hc⟩, stranger⟩

mutual

/-- Wrapping variables loses their values of other types, and no other values. -/
theorem strangers_recast {u : VarType} (hu : u ≠ .any) (vars : String → List Constant) :
    (e : Expr) → e.isWritten →
    strangers u ((e.recast id (some u)).denote vars) + lost u vars e.varsIn =
      strangers u (e.denote vars)
  | constants cs _, _ => by
    rw [recast, List.map_id]
    rfl
  | var name ty pos, _ => by
    by_cases fits : ty.isSubtype u
    · simp [recast, wrap, varsIn, lost, fits, strangers]
    · simp [recast, wrap, varsIn, lost, fits, denote, strangers_convert hu]
  | list items _, hw => strangers_recastAll hu vars items hw
  | converted .., hw => by cases hw

theorem strangers_recastAll {u : VarType} (hu : u ≠ .any) (vars : String → List Constant) :
    (es : List Expr) → areWritten es →
    strangers u (denoteItems vars (recastAll id (some u) es)) + lost u vars (varsInAll es) =
      strangers u (denoteItems vars es)
  | [], _ => rfl
  | e :: es, hw => by
    obtain ⟨he, hes⟩ := Bool.and_eq_true_iff.mp hw
    have first := strangers_recast hu vars e he
    have rest := strangers_recastAll hu vars es hes
    simp only [recastAll, denoteItems, varsInAll, strangers_append, lost_append]
    omega

end

def stranger (u : VarType) : Value := if u = .str then .bool true else .str ""

/-- A variable that is wrapped shows in some context. -/
theorem isSubtype_of_sameValues {e : Expr} (hw : e.isWritten) {u : VarType} (hu : u ≠ .any)
    (same : (e.recast id (some u)).SameValues e) : ∀ x ∈ e.varsIn, x.2.isSubtype u := by
  intro x hx
  apply Decidable.byContradiction
  intro misfit
  let ctx := Context.empty.set x.1 [stranger u]
  have hc : ctx.InHeap .empty := by
    intro name v hv
    rw [Context.get_set] at hv
    split at hv
    · rw [List.mem_singleton] at hv
      subst hv
      unfold stranger
      split <;> trivial
    · cases hv
  have probe : 0 < strangers u (ctx.constants .empty x.1) := by
    simp only [Context.constants, ctx, Context.get_set, if_true]
    unfold stranger strangers
    split
    · rename_i hs
      subst hs
      decide
    · rename_i hs
      simp [Value.constant, Datum.map, Datum.type, Ne.symm hs]
  have count := strangers_recast hu (ctx.constants .empty) e hw
  have some := lost_pos hx misfit probe
  rw [same.denote hc] at count
  omega

/-- An expression that was accepted at several types, and at last at `t`, has the values of one that
was accepted at `t` alone if its constants ended as they would have, and if no variable is still
wrapped where `t` admits every value. -/
theorem sameValues_after_iff {e : Expr} (hw : e.isWritten) (ts : List VarType) (t : VarType) :
    (e.after (ts ++ [t])).SameValues (e.after [t]) ↔
      (∀ k ∈ e.constantsIn, (k.through ts).towards t = k.towards t) ∧
        (t = .any → ∀ u, lastTyped ts = some u → ∀ x ∈ e.varsIn, x.2.isSubtype u) := by
  have once : e.after [t] = e.recast (·.towards t) (if t = .any then none else some t) := by
    rw [show [t] = [] ++ [t] from rfl, after_append]
    rfl
  rw [once, after_append]
  constructor
  · intro same
    have ends : ∀ k ∈ e.constantsIn, (k.through ts).towards t = k.towards t := by
      have nowhere : Context.empty.InHeap .empty := fun _ _ hv => by cases hv
      have bare := same.denote nowhere
      have nothing : Context.empty.constants .empty = fun _ => [] := rfl
      rw [nothing, denote_recast_nil e hw, denote_recast_nil e hw] at bare
      exact List.map_inj_left.mp bare
    refine ⟨ends, ?_⟩
    rintro rfl u hu
    rw [recast_congr e ends, if_pos rfl, if_pos rfl, hu] at same
    have plain (target : Option VarType) :
        e.recast (fun k => k.towards .any) target = e.recast id target :=
      recast_congr e fun k _ => k.towards_any
    rw [plain, plain, recast_id] at same
    exact isSubtype_of_sameValues hw (mem_of_lastTyped hu).2 same
  · rintro ⟨ends, unwrapped⟩
    suffices equal : e.recast (fun k => (k.through ts).towards t)
        (if t = .any then lastTyped ts else some t) =
          e.recast (·.towards t) (if t = .any then none else some t) by
      rw [equal]
      exact fun _ _ => rfl
    rw [recast_congr e ends]
    by_cases ht : t = .any
    · rw [if_pos ht, if_pos ht]
      cases hu : lastTyped ts with
      | none => rfl
      | some u => exact recast_plain e (unwrapped ht u hu)
    · rw [if_neg ht, if_neg ht]

end Expr

namespace Manifest.Term

mutual

theorem isWritten_toExpr (pos : Position) : (t : Term) → (t.toExpr pos).isWritten
  | one .. | many .. | var .. => rfl
  | list items => areWritten_toExprs pos items

theorem areWritten_toExprs (pos : Position) : (ts : List Term) →
    Expr.areWritten (toExprs pos ts)
  | [] => rfl
  | t :: ts => Bool.and_eq_true_iff.mpr ⟨isWritten_toExpr pos t, areWritten_toExprs pos ts⟩

end

end Manifest.Term

end LiveCalls
