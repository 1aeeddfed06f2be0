namespace LiveCalls

section
variable {ε α β : Type}

@[simp] theorem ok_bind (f : α → Except ε β) (a : α) : (Except.ok a >>= f) = f a := rfl

@[simp] theorem error_bind (f : α → Except ε β) (e : ε) : (Except.error e >>= f) = .error e := rfl

@[simp] theorem map_ok (g : α → β) (a : α) : (Except.ok a : Except ε α).map g = .ok (g a) := rfl

@[simp] theorem map_error (g : α → β) (e : ε) : (Except.error e).map g = .error e := rfl

theorem bind_eq_ok_iff {x : Except ε α} {f : α → Except ε β} {b : β} :
    x >>= f = .ok b ↔ ∃ a, x = .ok a ∧ f a = .ok b := by
  cases x with
  | error e => simp
  | ok a => simp

theorem map_eq_ok_iff {f : α → β} {x : Except ε α} {b : β} :
    x.map f = .ok b ↔ ∃ a, x = .ok a ∧ b = f a := by
  cases x with
  | error e => simp
  | ok a => simp [eq_comm]

theorem map_eq_error_iff {f : α → β} {x : Except ε α} {e : ε} :
    x.map f = .error e ↔ x = .error e := by
  cases x with
  | error e' => simp
  | ok a => simp

end

/-- A computation fails with the first of these faults, and succeeds if there are none. -/
def StopsAtFirst {ε α : Type} (x : Except ε α) (faults : List ε) : Prop :=
  ∀ fault, x = .error fault ↔ faults.head? = some fault

namespace StopsAtFirst

variable {ε α β : Type} {x : Except ε α} {faults : List ε}

theorem ok (a : α) : StopsAtFirst (.ok a) ([] : List ε) := fun _ => ⟨nofun, nofun⟩

theorem error (fault : ε) (faults : List ε) :
    StopsAtFirst (.error fault : Except ε α) (fault :: faults) := by
  intro other
  simp

theorem map (h : StopsAtFirst x faults) (f : α → β) : StopsAtFirst (x.map f) faults := by
  intro fault
  rw [map_eq_error_iff]
  exact h fault

theorem isOk_iff (h : StopsAtFirst x faults) : (∃ a, x = .ok a) ↔ faults = [] := by
  cases x with
  | ok a =>
    refine iff_of_true ⟨a, rfl⟩ ?_
    cases faults with
    | nil => rfl
    | cons fault faults => cases (h fault).mpr rfl
  | error fault =>
    have first := (h fault).mp rfl
    refine iff_of_false nofun ?_
    rintro rfl
    cases first

theorem isError_iff (h : StopsAtFirst x faults) : (∃ fault, x = .error fault) ↔ faults ≠ [] := by
  rw [Ne, ← h.isOk_iff]
  cases x <;> simp

end StopsAtFirst

end LiveCalls
