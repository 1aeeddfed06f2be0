/-!
# Tables in key order

`Table κ α` holds at most one value per key and lists its entries in increasing key order, so
whatever is read off a table in order does not depend on how the table was built.
-/

namespace LiveCalls

/-- At most one value per key, the entries in strictly increasing key order. -/
structure Table (κ α : Type) [Ord κ] where
  entries : List (κ × α)
  sorted : entries.Pairwise fun a b => compare a.1 b.1 = .lt

namespace Table

variable {κ α β : Type} [Ord κ]

def lookup (k : κ) : List (κ × α) → Option α
  | [] => none
  | (k', v) :: rest => if compare k k' = .eq then some v else lookup k rest

/-- The entries with `k ↦ v` put in its place, over an older value of `k`. -/
def place (k : κ) (v : α) : List (κ × α) → List (κ × α)
  | [] => [(k, v)]
  | (k', v') :: rest =>
    match compare k k' with
    | .lt => (k, v) :: (k', v') :: rest
    | .eq => (k, v) :: rest
    | .gt => (k', v') :: place k v rest

theorem mem_place {k : κ} {v : α} {e : κ × α} {es : List (κ × α)} (h : e ∈ place k v es) :
    e = (k, v) ∨ e ∈ es := by
  induction es with
  | nil => simpa [place] using h
  | cons hd rest ih =>
    obtain ⟨k', v'⟩ := hd
    simp only [place] at h
    split at h
    · simpa using h
    · rcases List.mem_cons.mp h with rfl | h
      · exact .inl rfl
      · exact .inr (List.mem_cons_of_mem _ h)
    · rcases List.mem_cons.mp h with rfl | h
      · exact .inr List.mem_cons_self
      · exact (ih h).imp_right (List.mem_cons_of_mem _)

theorem place_sorted [Std.TransOrd κ] [Std.LawfulEqOrd κ] (k : κ) (v : α) {es : List (κ × α)}
    (h : es.Pairwise fun a b => compare a.1 b.1 = .lt) :
    (place k v es).Pairwise fun a b => compare a.1 b.1 = .lt := by
  induction es with
  | nil => simp [place]
  | cons hd rest ih =>
    obtain ⟨k', v'⟩ := hd
    obtain ⟨hd_lt, rest_sorted⟩ := List.pairwise_cons.mp h
    simp only [place]
    split
    · rename_i hlt
      refine List.pairwise_cons.mpr ⟨fun e he => ?_, h⟩
      rcases List.mem_cons.mp he with rfl | he
      · exact hlt
      · exact Std.TransCmp.lt_trans hlt (hd_lt e he)
    · rename_i heq
      obtain rfl := Std.LawfulEqCmp.eq_of_compare heq
      exact List.pairwise_cons.mpr ⟨fun e he => hd_lt e he, rest_sorted⟩
    · rename_i hgt
      refine List.pairwise_cons.mpr ⟨fun e he => ?_, ih rest_sorted⟩
      rcases mem_place he with rfl | he
      · exact Std.OrientedCmp.lt_of_gt hgt
      · exact hd_lt e he

def empty : Table κ α := ⟨[], .nil⟩

instance : Inhabited (Table κ α) := ⟨empty⟩

def get? (t : Table κ α) (k : κ) : Option α := lookup k t.entries

def contains (t : Table κ α) (k : κ) : Bool := (t.get? k).isSome

/-- The table with `v` kept for `k`, over an older value. -/
def insert [Std.TransOrd κ] [Std.LawfulEqOrd κ] (t : Table κ α) (k : κ) (v : α) : Table κ α :=
  ⟨place k v t.entries, place_sorted k v t.sorted⟩

/-- The entries that `keep` accepts. -/
def filter (t : Table κ α) (keep : κ → α → Bool) : Table κ α :=
  ⟨t.entries.filter fun e => keep e.1 e.2, t.sorted.filter _⟩

/-- The table without `k`. -/
def erase (t : Table κ α) (k : κ) : Table κ α := t.filter fun k' _ => compare k k' != .eq

/-- The same keys with `f` applied to each value. -/
def mapValues (t : Table κ α) (f : α → β) : Table κ β :=
  ⟨t.entries.map fun e => (e.1, f e.2), by simpa [List.pairwise_map] using t.sorted⟩

/-- The keys in increasing order. -/
def keys (t : Table κ α) : List κ := t.entries.map (·.1)

/-- The values in the order of their keys. -/
def values (t : Table κ α) : List α := t.entries.map (·.2)

def size (t : Table κ α) : Nat := t.entries.length

/-- The table of these pairs; of two pairs with one key the later counts. -/
def ofList [Std.TransOrd κ] [Std.LawfulEqOrd κ] (es : List (κ × α)) : Table κ α :=
  es.foldl (fun t e => t.insert e.1 e.2) empty

@[simp] theorem get?_empty (k : κ) : (empty : Table κ α).get? k = none := rfl

section
variable [Std.LawfulEqOrd κ]

theorem lookup_eq_some_iff {k : κ} {v : α} {es : List (κ × α)}
    (h : es.Pairwise fun a b => compare a.1 b.1 = .lt) :
    lookup k es = some v ↔ (k, v) ∈ es := by
  induction es with
  | nil => simp [lookup]
  | cons hd rest ih =>
    obtain ⟨k', v'⟩ := hd
    obtain ⟨hd_lt, rest_sorted⟩ := List.pairwise_cons.mp h
    simp only [lookup]
    split
    · rename_i heq
      obtain rfl := Std.LawfulEqCmp.eq_of_compare heq
      constructor
      · rintro ⟨⟩
        exact List.mem_cons_self
      · intro hm
        rcases List.mem_cons.mp hm with he | hm
        · simp [(Prod.mk.inj he).2]
        · simpa [Std.ReflCmp.compare_self] using hd_lt _ hm
    · rename_i hne
      rw [ih rest_sorted]
      refine ⟨List.mem_cons_of_mem _, fun hm => ?_⟩
      rcases List.mem_cons.mp hm with he | hm
      · obtain ⟨rfl, rfl⟩ := Prod.mk.inj he
        exact absurd Std.ReflCmp.compare_self hne
      · exact hm

/-- The entries are exactly the look-ups that succeed. -/
theorem mem_entries_iff {t : Table κ α} {k : κ} {v : α} :
    (k, v) ∈ t.entries ↔ t.get? k = some v :=
  (lookup_eq_some_iff t.sorted).symm

theorem mem_keys_iff {t : Table κ α} {k : κ} : k ∈ t.keys ↔ (t.get? k).isSome := by
  simp only [keys, List.mem_map, Option.isSome_iff_exists]
  constructor
  · rintro ⟨⟨k', v⟩, hm, rfl⟩
    exact ⟨v, mem_entries_iff.mp hm⟩
  · rintro ⟨v, h⟩
    exact ⟨(k, v), mem_entries_iff.mpr h, rfl⟩

theorem lookup_place (k k' : κ) (v : α) (es : List (κ × α)) :
    lookup k' (place k v es) = if compare k' k = .eq then some v else lookup k' es := by
  induction es with
  | nil => simp [place, lookup]
  | cons hd rest ih =>
    obtain ⟨k₀, v₀⟩ := hd
    simp only [place]
    split
    · simp [lookup]
    · rename_i heq
      obtain rfl := Std.LawfulEqCmp.eq_of_compare heq
      simp only [lookup]
      split <;> rfl
    · rename_i hgt
      simp only [lookup, ih]
      by_cases h₀ : compare k' k₀ = .eq
      · obtain rfl := Std.LawfulEqCmp.eq_of_compare h₀
        have : compare k' k ≠ .eq := by
          intro he
          obtain rfl := Std.LawfulEqCmp.eq_of_compare he
          simp [Std.ReflCmp.compare_self] at hgt
        simp [this]
      · simp [h₀]

theorem get?_filter (t : Table κ α) (keep : κ → α → Bool) (k : κ) :
    (t.filter keep).get? k = (t.get? k).filter (keep k) := by
  ext v
  rw [← mem_entries_iff]
  simp [filter, mem_entries_iff, Option.filter_eq_some_iff]

theorem get?_erase (t : Table κ α) (k k' : κ) :
    (t.erase k).get? k' = if compare k k' = .eq then none else t.get? k' := by
  rw [erase, get?_filter]
  by_cases h : compare k k' = .eq
  · cases t.get? k' <;> simp [h, Option.filter]
  · cases t.get? k' <;> simp [h, Option.filter]

@[simp] theorem get?_erase_self (t : Table κ α) (k : κ) : (t.erase k).get? k = none := by
  simp [get?_erase, Std.ReflCmp.compare_self]

theorem get?_erase_of_ne (t : Table κ α) {k k' : κ} (h : k ≠ k') :
    (t.erase k).get? k' = t.get? k' := by
  rw [get?_erase, if_neg fun he => h (Std.LawfulEqCmp.eq_of_compare he)]

variable [Std.TransOrd κ]

theorem get?_insert (t : Table κ α) (k k' : κ) (v : α) :
    (t.insert k v).get? k' = if compare k' k = .eq then some v else t.get? k' :=
  lookup_place k k' v t.entries

@[simp] theorem get?_insert_self (t : Table κ α) (k : κ) (v : α) :
    (t.insert k v).get? k = some v := by
  simp [get?_insert, Std.ReflCmp.compare_self]

theorem get?_insert_of_ne (t : Table κ α) {k k' : κ} (v : α) (h : k' ≠ k) :
    (t.insert k v).get? k' = t.get? k' := by
  rw [get?_insert, if_neg fun he => h (Std.LawfulEqCmp.eq_of_compare he)]

end

@[simp] theorem get?_mapValues (t : Table κ α) (f : α → β) (k : κ) :
    (t.mapValues f).get? k = (t.get? k).map f := by
  simp only [get?, mapValues]
  induction t.entries with
  | nil => rfl
  | cons hd rest ih =>
    simp only [List.map_cons, lookup]
    split
    · rfl
    · exact ih

theorem eq_of_mem_iff {es fs : List (κ × α)} [Std.TransOrd κ] [Std.LawfulEqOrd κ]
    (he : es.Pairwise fun a b => compare a.1 b.1 = .lt)
    (hf : fs.Pairwise fun a b => compare a.1 b.1 = .lt) (h : ∀ x, x ∈ es ↔ x ∈ fs) : es = fs := by
  have antisymm (a b : κ × α) (_ : a ∈ es) (_ : b ∈ fs) (hab : compare a.1 b.1 = .lt)
      (hba : compare b.1 a.1 = .lt) : a = b := by
    simp [Std.OrientedCmp.gt_of_lt hba] at hab
  have nodup {l : List (κ × α)} (hl : l.Pairwise fun a b => compare a.1 b.1 = .lt) : l.Nodup :=
    hl.imp fun {a b} hab => by
      rintro rfl
      simp [Std.ReflCmp.compare_self] at hab
  exact List.Perm.eq_of_pairwise antisymm he hf
    ((List.perm_ext_iff_of_nodup (nodup he) (nodup hf)).mpr h)

/-- Tables that answer every look-up alike are equal. -/
theorem ext [Std.TransOrd κ] [Std.LawfulEqOrd κ] {s t : Table κ α}
    (h : ∀ k, s.get? k = t.get? k) : s = t := by
  obtain ⟨es, hs⟩ := s
  obtain ⟨fs, ht⟩ := t
  have : es = fs := eq_of_mem_iff hs ht fun ⟨k, v⟩ => by
    rw [← lookup_eq_some_iff hs, ← lookup_eq_some_iff ht]
    exact iff_of_eq (congrArg (· = some v) (h k))
  subst this
  rfl

end Table

end LiveCalls
