/-!
# Steps that may fail

What two steps in a row give is known from what each of them gives: the second is
taken only when the first does not fail.
-/

namespace BuildDigest.Except

variable {ε α β : Type} {x : Except ε α}

theorem ok_bind (a : α) (f : α → Except ε β) : .ok a >>= f = f a :=
  rfl

/-- Two steps give a result exactly when both do. -/
theorem bind_eq_ok {f : α → Except ε β} {b : β} :
    x >>= f = .ok b ↔ ∃ a, x = .ok a ∧ f a = .ok b := by
  cases x with
  | error fault => exact ⟨nofun, nofun⟩
  | ok a => exact ⟨fun h => ⟨a, rfl, h⟩, fun ⟨_, ha, h⟩ => Except.ok.inj ha ▸ h⟩

/-- Two steps fail when the first does, or the second after it. -/
theorem bind_eq_error {f : α → Except ε β} {e : ε} :
    x >>= f = .error e ↔ x = .error e ∨ ∃ a, x = .ok a ∧ f a = .error e := by
  cases x with
  | error fault =>
    refine ⟨fun h => Or.inl (Except.error.inj h ▸ rfl), fun h => ?_⟩
    rcases h with hFail | ⟨_, ha, _⟩
    · exact Except.error.inj hFail ▸ rfl
    · cases ha
  | ok a =>
    refine ⟨fun h => Or.inr ⟨a, rfl, h⟩, fun h => ?_⟩
    rcases h with hFail | ⟨_, ha, h⟩
    · cases hFail
    · exact Except.ok.inj ha ▸ h

/-- A step after which nothing can fail succeeds exactly if it did before. -/
theorem map_eq_ok {f : α → β} {b : β} : x.map f = .ok b ↔ ∃ a, x = .ok a ∧ f a = b := by
  cases x with
  | error fault => exact ⟨nofun, nofun⟩
  | ok a =>
    refine ⟨fun h => ⟨a, rfl, Except.ok.inj h⟩, fun ⟨_, ha, h⟩ => ?_⟩
    rw [Except.ok.inj ha, ← h]
    rfl

theorem map_eq_error {f : α → β} {e : ε} : x.map f = .error e ↔ x = .error e := by
  cases x with
  | error fault => exact ⟨fun h => Except.error.inj h ▸ rfl, fun h => Except.error.inj h ▸ rfl⟩
  | ok a => exact ⟨nofun, nofun⟩

-- ---------------------------------------------------------------------------
-- When a step fails
-- ---------------------------------------------------------------------------

section

variable {allowed : ε → Prop} {wrong wrong' : Prop}

/-- A step fails exactly when something is wrong, and for no other causes than those allowed. -/
def FailsIff (allowed : ε → Prop) (wrong : Prop) (x : Except ε α) : Prop :=
  match x with
  | .ok _ => ¬ wrong
  | .error cause => wrong ∧ allowed cause

theorem FailsIff.of_iff (h : FailsIff allowed wrong x) (hWrong : wrong ↔ wrong') :
    FailsIff allowed wrong' x := by
  rwa [← propext hWrong]

/-- Two steps in a row fail when something is wrong with the first or with the second. -/
theorem FailsIff.bind {f : α → Except ε β} (h : FailsIff allowed wrong x)
    (hf : ∀ a, FailsIff allowed wrong' (f a)) : FailsIff allowed (wrong ∨ wrong') (x >>= f) := by
  cases x with
  | error cause => exact ⟨Or.inl h.1, h.2⟩
  | ok a =>
    refine (hf a).of_iff ⟨Or.inr, ?_⟩
    rintro (hFirst | hSecond)
    · exact absurd hFirst h
    · exact hSecond

/-- A step after which nothing can fail. -/
theorem FailsIff.map (h : FailsIff allowed wrong x) (f : α → β) :
    FailsIff allowed wrong (x.map f) := by
  cases x with
  | error cause => exact h
  | ok a => exact h

/-- A step fails in some way exactly when something is wrong. -/
theorem FailsIff.exists_error_iff (h : FailsIff allowed wrong x) :
    (∃ cause, x = .error cause) ↔ wrong := by
  cases x with
  | error cause => exact ⟨fun _ => h.1, fun _ => ⟨cause, rfl⟩⟩
  | ok a => exact ⟨nofun, fun hWrong => absurd hWrong h⟩

/-- A step succeeds exactly when nothing is wrong. -/
theorem FailsIff.exists_ok_iff (h : FailsIff allowed wrong x) :
    (∃ a, x = .ok a) ↔ ¬ wrong := by
  cases x with
  | error cause => exact ⟨nofun, fun hRight => absurd h.1 hRight⟩
  | ok a => exact ⟨fun _ => h, fun _ => ⟨a, rfl⟩⟩

end

end BuildDigest.Except
