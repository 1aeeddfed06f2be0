import LiveCalls.Proofs.Recast
import Mathlib.Data.List.Forall2

/-!
# Conversion ahead of time

An expression is converted before its variables have values. What can be converted then is
converted, and the rest is left to the evaluation. Where this fails, one constant or variable is to
blame, and where it succeeds, the values are those that would have come of converting every value at
the evaluation.
-/

namespace LiveCalls

theorem VarType.isSubtype_of_common {ts : List VarType} {t : VarType}
    (h : (VarType.common ts).isSubtype t) : ∀ s ∈ ts, s.isSubtype t := by
  intro s hs
  by_cases ht : t = .any
  · subst ht
    exact isSubtype_any s
  · rw [eq_of_common_isSubtype ht h s hs]
    exact isSubtype_refl t

theorem VarType.mayConvert_of_isSubtype {source t : VarType} (h : source.isSubtype t) :
    source.mayConvert t := by
  simp [mayConvert, h]

theorem Datum.mayConvert_of_convert? {α : Type} {read : α → Point} {t : VarType} {d e : Datum α}
    (h : d.convert? read t = some e) : d.type.mayConvert t := by
  unfold convert? at h
  split at h
  · rename_i fits
    exact VarType.mayConvert_of_isSubtype fits
  · split at h
    · rfl
    · rfl
    · cases d <;> rfl
    · cases h

theorem VarType.convert?_eq_none {α : Type} {source t : VarType} (never : ¬ source.mayConvert t)
    {d : Datum α} (hd : d.isA source) (read : α → Point) : d.convert? read t = none := by
  have own : source ≠ .any := by
    rintro rfl
    exact never (by simp [mayConvert])
  obtain rfl := (isSubtype_iff.mp hd).resolve_right own
  rw [Option.eq_none_iff_forall_ne_some]
  intro e he
  exact never (Datum.mayConvert_of_convert? he)

namespace Constant

/-- The constants converted one by one stop at the first that has no counterpart. -/
theorem convertAll_stops (t : VarType) (cs : List Constant) :
    StopsAtFirst (convertAll t cs)
      ((cs.filter fun c => (Datum.convert? id t c).isNone).map (.constant · t)) := by
  induction cs with
  | nil => exact .ok []
  | cons c cs ih =>
    unfold convertAll
    cases hc : Datum.convert? id t c with
    | none =>
      rw [List.filter_cons_of_pos (by rw [hc]; rfl), List.map_cons]
      exact .error _ _
    | some d =>
      rw [List.filter_cons_of_neg (by rw [hc]; exact Bool.false_ne_true)]
      exact ih.map _

theorem convert?_eq_towards {t : VarType} {c : Constant} (h : (Datum.convert? id t c).isSome) :
    Datum.convert? id t c = some (c.towards t) := by
  obtain ⟨d, hd⟩ := Option.isSome_iff_exists.mp h
  rw [towards, hd]
  rfl

theorem convert?_towards {t : VarType} {c : Constant} (h : (Datum.convert? id t c).isSome) :
    Datum.convert? id t (c.towards t) = some (c.towards t) :=
  Datum.convert?_of_isA (Datum.isA_of_convert? (convert?_eq_towards h))

theorem convertAll_convertAll {t : VarType} {cs ds : List Constant}
    (h : convertAll t cs = .ok ds) : convertAll t ds = .ok ds := by
  obtain ⟨fits, rfl⟩ := convertAll_eq_ok_iff.mp h
  have own : ∀ c ∈ cs, Datum.convert? id t (c.towards t) = some (c.towards t) :=
    fun c hc => convert?_towards (fits c hc)
  rw [convertAll_eq_ok_iff, List.forall_mem_map, List.map_map]
  constructor
  · intro c hc
    rw [own c hc]
    rfl
  · apply List.map_congr_left
    intro c hc
    rw [Function.comp_apply, towards.eq_def t (c.towards t), own c hc]
    rfl

end Constant

namespace Expr

mutual

/-- The constants and variables that keep an expression from having values of one type only, in
order. A conversion to that type has no others, whatever is behind it. -/
def obstacles (t : VarType) : Expr → List Unconvertible
  | constants cs _ => (cs.filter fun c => (Datum.convert? id t c).isNone).map (.constant · t)
  | var name ty _ => if ty.mayConvert t then [] else [.var name t]
  | list items _ => obstaclesAll t items
  | converted e u _ => if u.isSubtype t then [] else e.obstacles t

def obstaclesAll (t : VarType) : List Expr → List Unconvertible
  | [] => []
  | e :: es => e.obstacles t ++ obstaclesAll t es

end

theorem convert_of_isSubtype {e : Expr} {t : VarType} (h : e.type.isSubtype t) :
    e.convert t = .ok e := by
  unfold convert
  rw [if_pos h]

mutual

theorem obstacles_of_isSubtype {t : VarType} : (e : Expr) → e.type.isSubtype t → e.obstacles t = []
  | constants cs pos, h => by
    have fits := VarType.isSubtype_of_common h
    rw [obstacles, List.map_eq_nil_iff, List.filter_eq_nil_iff]
    intro c hc
    have own : c.isA t := fits c.type (List.mem_map_of_mem hc)
    rw [Datum.convert?_of_isA own]
    exact Bool.false_ne_true
  | var name ty pos, h => if_pos (VarType.mayConvert_of_isSubtype h)
  | list items pos, h => obstaclesAll_of_isSubtype items (VarType.isSubtype_of_common h)
  | converted e u pos, h => if_pos h

theorem obstaclesAll_of_isSubtype {t : VarType} : (es : List Expr) →
    (∀ s ∈ types es, s.isSubtype t) → obstaclesAll t es = []
  | [], _ => rfl
  | e :: es, h => by
    obtain ⟨first, rest⟩ := List.forall_mem_cons.mp h
    rw [obstaclesAll, obstacles_of_isSubtype e first, obstaclesAll_of_isSubtype es rest]
    rfl

end

mutual

/-- A conversion fails at the first obstacle, and succeeds if there is none. -/
theorem convert_stops (t : VarType) : (e : Expr) → StopsAtFirst (e.convert t) (e.obstacles t)
  | constants cs pos => by
    by_cases h : (constants cs pos).type.isSubtype t
    · rw [convert_of_isSubtype h, obstacles_of_isSubtype _ h]
      exact .ok _
    · rw [convert, if_neg h]
      exact (Constant.convertAll_stops t cs).map _
  | var name ty pos => by
    rw [convert_var, obstacles]
    split
    · exact .ok _
    · exact .error _ _
  | list items pos => by
    by_cases h : (list items pos).type.isSubtype t
    · rw [convert_of_isSubtype h, obstacles_of_isSubtype _ h]
      exact .ok _
    · rw [convert, if_neg h]
      exact (convertItems_stops t items).map _
  | converted e u pos => by
    rw [convert_converted, obstacles]
    split
    · exact .ok _
    · exact convert_stops t e

theorem convertItems_stops (t : VarType) : (es : List Expr) →
    StopsAtFirst (convertItems t es) (obstaclesAll t es)
  | [] => .ok []
  | e :: es => by
    have first := convert_stops t e
    rw [convertItems, obstaclesAll]
    cases he : e.convert t with
    | error reason =>
      intro other
      rw [he] at first
      rw [List.head?_append, (first reason).mp rfl]
      simp
    | ok b =>
      rw [first.isOk_iff.mp ⟨b, he⟩]
      exact (convertItems_stops t es).map _

end

/-- A conversion leaves the log as it was if there is no obstacle, and adds the first one to it if
there is. What comes after that, or converts before it, is not logged. -/
theorem convertedTo_logs (t : VarType) (e : Expr) (log : RetainingLog) :
    match e.obstacles t with
    | [] => ∃ b, e.convertedTo t log = (some b, log)
    | reason :: _ => e.convertedTo t log = (none, log.report reason.diagnostic) := by
  have stops := convert_stops t e
  rw [convertedTo_eq]
  cases he : e.obstacles t with
  | nil =>
    obtain ⟨b, converts⟩ := stops.isOk_iff.mpr he
    rw [converts]
    exact ⟨b, rfl⟩
  | cons reason rest =>
    rw [(stops reason).mpr (by rw [he]; rfl)]
    rfl

mutual

/-- What is written meets no obstacle if its constants convert and its variables may. -/
theorem obstacles_eq_nil_iff {t : VarType} : (e : Expr) → e.isWritten →
    (e.obstacles t = [] ↔
      (∀ k ∈ e.constantsIn, (Datum.convert? id t k).isSome) ∧ ∀ x ∈ e.varsIn, x.2.mayConvert t)
  | constants cs _, _ => by
    simp [obstacles, constantsIn, varsIn, Option.isSome_iff_ne_none]
  | var name ty _, _ => by
    simp [obstacles, constantsIn, varsIn]
  | list items _, hw => obstaclesAll_eq_nil_iff items hw
  | converted .., hw => by cases hw

theorem obstaclesAll_eq_nil_iff {t : VarType} : (es : List Expr) → areWritten es →
    (obstaclesAll t es = [] ↔
      (∀ k ∈ constantsInAll es, (Datum.convert? id t k).isSome) ∧
        ∀ x ∈ varsInAll es, x.2.mayConvert t)
  | [], _ => by simp [obstaclesAll, constantsInAll, varsInAll]
  | e :: es, hw => by
    obtain ⟨he, hes⟩ := Bool.and_eq_true_iff.mp hw
    rw [obstaclesAll, constantsInAll, varsInAll, List.append_eq_nil_iff, List.forall_mem_append,
      List.forall_mem_append, obstacles_eq_nil_iff e he, obstaclesAll_eq_nil_iff es hes]
    exact and_and_and_comm

end

mutual

/-- What was converted stays as it is when it is converted again. -/
theorem convert_convert {t : VarType} : (e : Expr) → {b : Expr} → e.convert t = .ok b →
    b.convert t = .ok b
  | constants cs pos, b, h => by
    by_cases ht : t = .any
    · rw [ht]
      exact convert_any b
    · rw [convert_constants ht, map_eq_ok_iff] at h
      obtain ⟨ds, converted, rfl⟩ := h
      rw [convert_constants ht, Constant.convertAll_convertAll converted]
      rfl
  | var name ty pos, b, h => by
    rw [convert_var] at h
    split at h
    · rename_i may
      cases h
      by_cases fits : ty.isSubtype t
      · rw [wrap, if_pos fits]
        exact convert_of_isSubtype fits
      · rw [wrap, if_neg fits]
        exact convert_of_isSubtype (VarType.isSubtype_refl t)
    · cases h
  | list items pos, b, h => by
    by_cases ht : t = .any
    · rw [ht]
      exact convert_any b
    · rw [convert_list ht, map_eq_ok_iff] at h
      obtain ⟨bs, converted, rfl⟩ := h
      rw [convert_list ht, convertItems_convertItems items converted]
      rfl
  | converted e u pos, b, h => by
    rw [convert_converted] at h
    split at h
    · rename_i fits
      cases h
      exact convert_of_isSubtype fits
    · exact convert_convert e h

theorem convertItems_convertItems {t : VarType} : (es : List Expr) → {bs : List Expr} →
    convertItems t es = .ok bs → convertItems t bs = .ok bs
  | [], bs, h => by
    cases h
    rfl
  | e :: es, bs, h => by
    rw [convertItems] at h
    cases he : e.convert t with
    | error reason =>
      rw [he] at h
      cases h
    | ok b =>
      rw [he, map_eq_ok_iff] at h
      obtain ⟨ds, converted, rfl⟩ := h
      rw [convertItems, convert_convert e he, convertItems_convertItems es converted]
      rfl

end

/-- The values of an expression that have a counterpart in a type, converted to it. -/
def denoteAs (vars : String → List Constant) (t : VarType) (e : Expr) : List Constant :=
  (e.denote vars).filterMap (Datum.convert? id t)

/-- Every variable of the expression has values of its declared type only. -/
def Typed (vars : String → List Constant) (e : Expr) : Prop :=
  ∀ x ∈ e.varsIn, ∀ k ∈ vars x.1, k.isA x.2

theorem denoteItems_eq_flatMap (vars : String → List Constant) (es : List Expr) :
    denoteItems vars es = es.flatMap (denote vars) := by
  induction es with
  | nil => rfl
  | cons e es ih => rw [denoteItems, ih, List.flatMap_cons]

theorem filterMap_convert_of_isA {t : VarType} {cs : List Constant} (h : ∀ k ∈ cs, k.isA t) :
    cs.filterMap (Datum.convert? id t) = cs := by
  have own : ∀ k ∈ cs, Datum.convert? id t k = some k := fun k hk => Datum.convert?_of_isA (h k hk)
  rw [List.filterMap_congr own, List.filterMap_some]

theorem filterMap_convert_of_isSome {t : VarType} {cs : List Constant}
    (h : ∀ k ∈ cs, (Datum.convert? id t k).isSome) :
    cs.filterMap (Datum.convert? id t) = cs.map (Constant.towards t) := by
  have turned : ∀ k ∈ cs, Datum.convert? id t k = some (k.towards t) :=
    fun k hk => Constant.convert?_eq_towards (h k hk)
  rw [List.filterMap_congr turned]
  exact congrFun List.filterMap_eq_map cs

mutual

/-- Changing the constants and wrapping the variables converts the values. -/
theorem denote_recast {vars : String → List Constant} {t : VarType} : (e : Expr) → e.isWritten →
    e.Typed vars → (∀ k ∈ e.constantsIn, (Datum.convert? id t k).isSome) →
    (e.recast (·.towards t) (some t)).denote vars = e.denoteAs vars t
  | constants cs _, _, _, fits => (filterMap_convert_of_isSome fits).symm
  | var name ty pos, _, typed, _ => by
    by_cases narrow : ty.isSubtype t
    · have own : ∀ k ∈ vars name, k.isA t := by
        intro k hk
        exact VarType.isSubtype_trans (typed (name, ty) List.mem_cons_self k hk) narrow
      simp only [recast, wrap, if_pos narrow, denoteAs, denote, filterMap_convert_of_isA own]
    · simp only [recast, wrap, if_neg narrow, denoteAs, denote]
  | list items _, hw, typed, fits => denoteItems_recast items hw typed fits
  | converted .., hw, _, _ => by cases hw

theorem denoteItems_recast {vars : String → List Constant} {t : VarType} : (es : List Expr) →
    areWritten es → (∀ x ∈ varsInAll es, ∀ k ∈ vars x.1, k.isA x.2) →
    (∀ k ∈ constantsInAll es, (Datum.convert? id t k).isSome) →
    denoteItems vars (recastAll (·.towards t) (some t) es) =
      (denoteItems vars es).filterMap (Datum.convert? id t)
  | [], _, _, _ => rfl
  | e :: es, hw, typed, fits => by
    obtain ⟨he, hes⟩ := Bool.and_eq_true_iff.mp hw
    obtain ⟨typedFirst, typedRest⟩ := List.forall_mem_append.mp typed
    obtain ⟨fitsFirst, fitsRest⟩ := List.forall_mem_append.mp fits
    rw [recastAll, denoteItems, denote_recast e he typedFirst fitsFirst,
      denoteItems_recast es hes typedRest fitsRest, denoteItems, List.filterMap_append, denoteAs]

end

/-- A converted expression has those values of the written one that convert, converted and in
order. -/
theorem denote_convert {e b : Expr} (hw : e.isWritten) {t : VarType}
    (converts : e.convert t = .ok b)
    {vars : String → List Constant} (typed : e.Typed vars) :
    b.denote vars = e.denoteAs vars t := by
  by_cases ht : t = .any
  · subst ht
    rw [convert_any] at converts
    cases converts
    exact (filterMap_convert_of_isA fun k _ => VarType.isSubtype_any _).symm
  · rw [← recast_id e] at converts
    obtain ⟨-, fits, rfl⟩ := (convert_recast ht e hw fun _ none => by cases none).mp converts
    exact denote_recast e hw typed fits

mutual

/-- The constants of what is written are among its values, in their order. -/
theorem constantsIn_sublist {vars : String → List Constant} : (e : Expr) → e.isWritten →
    e.constantsIn.Sublist (e.denote vars)
  | constants .., _ => .refl _
  | var .., _ => List.nil_sublist _
  | list items _, hw => constantsInAll_sublist items hw
  | converted .., hw => by cases hw

theorem constantsInAll_sublist {vars : String → List Constant} : (es : List Expr) →
    areWritten es → (constantsInAll es).Sublist (denoteItems vars es)
  | [], _ => .refl _
  | e :: es, hw => by
    obtain ⟨he, hes⟩ := Bool.and_eq_true_iff.mp hw
    exact (constantsIn_sublist e he).append (constantsInAll_sublist es hes)

end

section
variable {e b : Expr} (hw : e.isWritten) {t : VarType}
include hw

/-- What is written cannot be converted if and only if a constant in it has no counterpart or a
variable may not turn out to have one. -/
theorem convert_isError_iff :
    (∃ reason, e.convert t = .error reason) ↔
      (∃ k ∈ e.constantsIn, Datum.convert? id t k = none) ∨
        ∃ x ∈ e.varsIn, ¬ x.2.mayConvert t := by
  rw [(convert_stops t e).isError_iff, Ne, obstacles_eq_nil_iff e hw]
  simp only [not_and_or, not_forall, exists_prop, Option.not_isSome_iff_eq_none]

/-- No constant is lost in a conversion: each is there as its counterpart, in their order. -/
theorem constants_converted (converts : e.convert t = .ok b) {vars : String → List Constant}
    (typed : e.Typed vars) :
    ∃ ds, List.Forall₂ (fun k d => Datum.convert? id t k = some d) e.constantsIn ds ∧
      ds.Sublist (b.denote vars) := by
  have free := (convert_stops t e).isOk_iff.mp ⟨b, converts⟩
  obtain ⟨fits, -⟩ := (obstacles_eq_nil_iff e hw).mp free
  refine ⟨e.constantsIn.map (Constant.towards t), ?_, ?_⟩
  · rw [List.forall₂_map_right_iff, List.forall₂_same]
    exact fun k hk => Constant.convert?_eq_towards (fits k hk)
  · rw [denote_convert hw converts typed, denoteAs, ← filterMap_convert_of_isSome fits]
    exact (constantsIn_sublist e hw).filterMap _

end

/-- Converting what is written ahead of time comes to the same as converting its values at the
evaluation. If it succeeds, the values are those that have a counterpart in the type, converted and
in order; they are of that type, and those of constants are all there. It fails if and only if a
constant has no counterpart or a variable may not turn out to have one, and then no value that the
variable can hold has one. -/
theorem conversion_agrees {e : Expr} (hw : e.isWritten) (t : VarType) {ctx : Context} {h : Heap}
    (hc : ctx.InHeap h) (typed : e.Typed (ctx.constants h)) :
    (∀ b, e.convert t = .ok b →
      let written := e.eval ctx h
      let converted := b.eval ctx h
      converted.1.map (Value.constant converted.2) =
          (written.1.filterMap (Datum.convert? written.2.read t)).map (Value.constant written.2) ∧
        (∀ v ∈ converted.1, v.isA t) ∧
        ∃ ds, List.Forall₂ (fun k d => Datum.convert? id t k = some d) e.constantsIn ds ∧
          ds.Sublist (converted.1.map (Value.constant converted.2))) ∧
      ((∃ reason, e.convert t = .error reason) ↔
        (∃ k ∈ e.constantsIn, Datum.convert? id t k = none) ∨
          ∃ x ∈ e.varsIn, ¬ x.2.mayConvert t) ∧
      ∀ x ∈ e.varsIn, ¬ x.2.mayConvert t →
        ∀ v : Value, v.isA x.2 → ∀ read, v.convert? read t = none := by
  refine ⟨?_, convert_isError_iff hw,
    fun x _ never v hv read => VarType.convert?_eq_none never hv read⟩
  intro b converts written converted
  have values := (b.eval_yields hc).hold.constants
  have counterparts := ((e.eval_yields hc).hold.convert t).constants
  have same := denote_convert hw converts typed
  refine ⟨(values.trans same).trans counterparts.symm, ?_, ?_⟩
  · intro v hv
    have there : v.constant converted.2 ∈ e.denoteAs (ctx.constants h) t := by
      rw [← same, ← values]
      exact List.mem_map_of_mem hv
    obtain ⟨k, -, hk⟩ := List.mem_filterMap.mp there
    have conforms := Datum.isA_of_convert? hk
    rwa [Datum.isA, Value.constant, Datum.type_map] at conforms
  · rw [values]
    exact constants_converted hw converts typed

/-- A text that spells a truth value, then the values of a variable. -/
def answers : Expr :=
  .list [.constants [.str " yes"] .unknown, .var "x" .any .unknown, .list [] .unknown] .unknown

/-- Of the values of the variable only the text that spells a truth value is left. -/
theorem conversion_agrees_answers :
    let ctx := Context.empty.set "x" [.num 2, .str "no"]
    ∃ b, answers.convert .bool = .ok b ∧
      (b.eval ctx .empty).1.map (Value.constant (b.eval ctx .empty).2) =
        [.bool true, .bool false] := by
  intro ctx
  have inHeap : ctx.InHeap .empty := by
    intro name v hv
    rw [Context.get_set] at hv
    split at hv
    · rcases List.mem_pair.mp hv with rfl | rfl <;> trivial
    · cases hv
  have typed : answers.Typed (ctx.constants .empty) := by
    intro x hx k hk
    obtain rfl := List.mem_singleton.mp hx
    exact VarType.isSubtype_any _
  exact ⟨_, rfl, ((conversion_agrees rfl .bool inHeap typed).1 _ rfl).1⟩

end Expr

end LiveCalls
