import LiveCalls.Proofs.Binding

namespace LiveCalls

namespace Table

variable {κ α : Type} [Ord κ] [Std.LawfulEqOrd κ]

theorem nodup_keys (t : Table κ α) : t.keys.Nodup := by
  apply List.pairwise_map.mpr
  apply t.sorted.imp
  intro a b before same
  simp [same, Std.ReflCmp.compare_self] at before

section
variable [DecidableEq κ]

theorem get?_erase_eq_some_iff {t : Table κ α} {k k' : κ} {v : α} :
    (t.erase k).get? k' = some v ↔ k' ≠ k ∧ t.get? k' = some v := by
  rw [get?_erase_ite]
  split
  · rename_i same
    simp [same]
  · rename_i other
    simp [other]

variable [Std.TransOrd κ]

theorem get?_insert_eq_some_iff {t : Table κ α} {k k' : κ} {v w : α} (fresh : t.get? k = none) :
    (t.insert k v).get? k' = some w ↔ k' = k ∧ w = v ∨ t.get? k' = some w := by
  rw [get?_insert_ite]
  split
  · rename_i same
    simp [same, fresh, eq_comm]
  · rename_i other
    simp [other]

theorem insert_erase (t : Table κ α) (k : κ) (v : α) : (t.erase k).insert k v = t.insert k v := by
  apply Table.ext
  intro k'
  rw [get?_insert_ite, get?_insert_ite, get?_erase_ite]
  split <;> rfl

end

end Table

namespace Linkage

theorem contains_keep {l : Linkage} {c : CallSite} (hc : l.sites.live.contains c.id) (id : CallId) :
    (l.sites.keep c).live.contains id = l.sites.live.contains id := by
  rw [Table.contains, CallSites.live_keep]
  split
  · rename_i same
    rw [same, hc]
    rfl
  · rfl

theorem functions_forgetAll (l : Linkage) (ids : List CallId) :
    l.registry.SameFunctions (l.forgetAll ids).registry := by
  unfold forgetAll
  induction ids generalizing l with
  | nil => exact .refl _
  | cons id ids ih => exact (Registry.SameFunctions.forget l.registry id).trans (ih (l.forget id))

theorem live_forgetAll (l : Linkage) (ids : List CallId) (id : CallId) :
    (l.forgetAll ids).sites.live.get? id = if id ∈ ids then none else l.sites.live.get? id := by
  unfold forgetAll
  induction ids generalizing l with
  | nil => rfl
  | cons i ids ih =>
    rw [List.foldl_cons, ih]
    have first : (l.forget i).sites.live.get? id = if id = i then none else l.sites.live.get? id :=
      l.sites.live.get?_erase_ite i id
    rw [first]
    by_cases same : id = i <;> by_cases later : id ∈ ids <;> simp [same, later]

theorem contains_notify {l : Linkage} (h : l.Coherent) (ids : List CallId) (id : CallId) :
    (l.notify ids).linkage.sites.live.contains id = l.sites.live.contains id := by
  induction ids generalizing l with
  | nil => rfl
  | cons i ids ih =>
    unfold notify
    split
    · rename_i gone
      exact ih (h.untrack gone)
    · rename_i c found
      have hc := CallSites.live_of_following found
      obtain ⟨rfl, -⟩ := h.site i c hc
      refine (ih (h.revalidate hc)).trans (contains_keep ?_ id)
      obtain ⟨same, -⟩ := CallSite.frame_validate .again l.registry c
      rw [same, Table.contains, hc]
      rfl

theorem contains_passOn {l : Linkage} (h : l.Coherent) (news : List (List CallId)) (id : CallId) :
    (ScriptSet.passOn l news).linkage.sites.live.contains id = l.sites.live.contains id := by
  induction news generalizing l with
  | nil => rfl
  | cons ids rest ih => exact (ih (h.notify ids)).trans (contains_notify h ids id)

theorem contains_makeCalls {l : Linkage} (h : l.Coherent) (ctx : Context) (w : World)
    (calls : List (String × CallId)) (id : CallId) :
    (ScriptSet.makeCalls ctx l w calls).2.1.sites.live.contains id =
      l.sites.live.contains id := by
  induction calls generalizing l w with
  | nil => rfl
  | cons call rest ih =>
    obtain ⟨script, i⟩ := call
    unfold ScriptSet.makeCalls
    split
    · exact ih h w
    · rename_i c hc
      obtain ⟨rfl, -⟩ := h.site i c hc
      refine (ih (h.execute hc ctx w) _).trans (contains_keep ?_ id)
      rw [CallSite.site_execute, (CallSite.frame_resolve l.registry c).1, Table.contains, hc]
      rfl

theorem contains_link (l : Linkage) (id : CallId) :
    (ScriptSet.link l).sites.live.contains id = l.sites.live.contains id := by
  rw [Table.contains, ScriptSet.live_link, Option.isSome_map]
  rfl

end Linkage

/-- The sites that are held are those kept for the scripts, each for one script and once. -/
structure Holding (l : Linkage) (scripts : Table String LoadedScript) : Prop where
  coherent : l.Coherent
  held : ∀ id, l.sites.live.contains id ↔
    ∃ name loaded, scripts.get? name = some loaded ∧ id ∈ loaded.calls
  once : ∀ name loaded, scripts.get? name = some loaded → loaded.calls.Nodup
  apart : ∀ id name name' loaded loaded', scripts.get? name = some loaded →
    scripts.get? name' = some loaded' → id ∈ loaded.calls → id ∈ loaded'.calls → name = name'

namespace Holding

variable {l l' : Linkage} {scripts : Table String LoadedScript}

/-- Whatever leaves the sites there that are there keeps it so. -/
theorem transfer (h : Holding l scripts) (coherent : l'.Coherent)
    (same : ∀ id, l'.sites.live.contains id = l.sites.live.contains id) : Holding l' scripts :=
  ⟨coherent, fun id => by rw [same]; exact h.held id, h.once, h.apart⟩

theorem withRegistry (h : Holding l scripts) {r : Registry}
    (hr : r.subscriptions = l.registry.subscriptions) : Holding ⟨r, l.sites⟩ scripts :=
  h.transfer (h.coherent.withRegistry fun _ name => by rw [Registry.callers_congr hr])
    fun _ => rfl

theorem start {r : Registry} (hr : r.subscriptions = .empty) :
    Holding ⟨r, .empty⟩ .empty := by
  have nobody (id : CallId) : CallSites.empty.live.get? id = none := rfl
  have nowhere (name : String) : (Table.empty : Table String LoadedScript).get? name = none := rfl
  constructor
  · constructor
    · intro id c hc
      simp [nobody] at hc
    · intro id
      rfl
    · intro id name
      rw [Registry.mem_callers, hr]
      simp [nobody]
  · intro id
    simp [Table.contains, nobody, nowhere]
  · intro name loaded hs
    simp [nowhere] at hs
  · intro id name name' loaded loaded' hs
    simp [nowhere] at hs

theorem live (h : Holding l scripts) {name : String} {loaded : LoadedScript}
    (hs : scripts.get? name = some loaded) {id : CallId} (hid : id ∈ loaded.calls) :
    ∃ c, l.sites.live.get? id = some c ∧ c.id = id ∧ c.isBound := by
  obtain ⟨c, hc⟩ := Option.isSome_iff_exists.mp ((h.held id).mpr ⟨name, loaded, hs, hid⟩)
  obtain ⟨own, bound, -⟩ := h.coherent.site id c hc
  exact ⟨c, hc, own, bound⟩

theorem erase (h : Holding l scripts) (name : String) :
    Holding (l.forgetAll ((scripts.get? name).getD ⟨[], []⟩).calls) (scripts.erase name) := by
  constructor
  · exact h.coherent.forgetAll _
  · intro id
    rw [Table.contains, Linkage.live_forgetAll]
    split
    · rename_i own
      apply iff_of_false Bool.false_ne_true
      rintro ⟨name', loaded', hs', hid'⟩
      obtain ⟨other, hs'⟩ := Table.get?_erase_eq_some_iff.mp hs'
      cases hs : scripts.get? name with
      | none => rw [hs] at own; cases own
      | some loaded =>
        rw [hs] at own
        exact other (h.apart id name' name loaded' loaded hs' hs hid' own)
    · rename_i foreign
      apply (h.held id).trans
      constructor
      · rintro ⟨name', loaded', hs', hid'⟩
        refine ⟨name', loaded', Table.get?_erase_eq_some_iff.mpr ⟨?_, hs'⟩, hid'⟩
        rintro rfl
        rw [hs'] at foreign
        exact foreign hid'
      · rintro ⟨name', loaded', hs', hid'⟩
        exact ⟨name', loaded', (Table.get?_erase_eq_some_iff.mp hs').2, hid'⟩
  · intro name' loaded' hs'
    exact h.once name' loaded' (Table.get?_erase_eq_some_iff.mp hs').2
  · intro id name₁ name₂ loaded₁ loaded₂ h₁ h₂
    exact h.apart id name₁ name₂ loaded₁ loaded₂ (Table.get?_erase_eq_some_iff.mp h₁).2
      (Table.get?_erase_eq_some_iff.mp h₂).2

/-- A call kept for a script was allotted before those that are bound now. -/
theorem early (h : Holding l scripts) {ids : List CallId} (b : l.Binds l' ids) {name : String}
    {loaded : LoadedScript} (hs : scripts.get? name = some loaded) {id : CallId}
    (hid : id ∈ loaded.calls) : id < l.sites.next ∧ id ∉ ids := by
  obtain ⟨c, hc, -⟩ := h.live hs hid
  obtain ⟨-, -, allotted⟩ := h.coherent.site id c hc
  refine ⟨allotted, ?_⟩
  intro new
  obtain ⟨low, -⟩ := b.range id new
  exact Nat.not_lt.mpr low allotted

theorem insert (h : Holding l scripts) {name : String} (fresh : scripts.get? name = none)
    {loaded : LoadedScript} (b : l.Binds l' loaded.calls) :
    Holding l' (scripts.insert name loaded) := by
  constructor
  · exact b.coherent
  · intro id
    by_cases old : id < l.sites.next
    · rw [Table.contains, b.old id old]
      apply (h.held id).trans
      constructor
      · rintro ⟨name', loaded', hs, hid⟩
        exact ⟨name', loaded', (Table.get?_insert_eq_some_iff fresh).mpr (.inr hs), hid⟩
      · rintro ⟨name', loaded', hs, hid⟩
        rcases (Table.get?_insert_eq_some_iff fresh).mp hs with ⟨-, rfl⟩ | hs
        · obtain ⟨low, -⟩ := b.range id hid
          exact absurd old (Nat.not_lt.mpr low)
        · exact ⟨name', loaded', hs, hid⟩
    · have new : l.sites.next ≤ id := Nat.le_of_not_lt old
      apply (b.new id new).trans
      constructor
      · intro hid
        exact ⟨name, loaded, (Table.get?_insert_eq_some_iff fresh).mpr (.inl ⟨rfl, rfl⟩), hid⟩
      · rintro ⟨name', loaded', hs, hid⟩
        rcases (Table.get?_insert_eq_some_iff fresh).mp hs with ⟨-, rfl⟩ | hs
        · exact hid
        · exact absurd (h.early b hs hid).1 old
  · intro name' loaded' hs
    rcases (Table.get?_insert_eq_some_iff fresh).mp hs with ⟨-, rfl⟩ | hs
    · exact b.nodup
    · exact h.once name' loaded' hs
  · intro id name₁ name₂ loaded₁ loaded₂ h₁ h₂ id₁ id₂
    rcases (Table.get?_insert_eq_some_iff fresh).mp h₁ with ⟨rfl, rfl⟩ | old₁
    · rcases (Table.get?_insert_eq_some_iff fresh).mp h₂ with ⟨rfl, -⟩ | old₂
      · rfl
      · exact absurd id₁ (h.early b old₂ id₂).2
    · rcases (Table.get?_insert_eq_some_iff fresh).mp h₂ with ⟨rfl, rfl⟩ | old₂
      · exact absurd id₂ (h.early b old₁ id₁).2
      · exact h.apart id name₁ name₂ loaded₁ loaded₂ old₁ old₂ id₁ id₂

end Holding

end LiveCalls
