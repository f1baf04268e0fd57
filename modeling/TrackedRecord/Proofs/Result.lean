/-!
# Results of computations that may fail

What a result says about the parts that it was computed from.
-/

namespace TrackedRecord.Result

variable {ε α β γ : Type}

theorem bind_ok {x : Except ε α} {f : α → Except ε β} {b : β} (h : x >>= f = .ok b) :
    ∃ a, x = .ok a ∧ f a = .ok b := by
  cases x with
  | error e => cases h
  | ok a => exact ⟨a, rfl, h⟩

theorem bind_of_ok {x : Except ε α} {f : α → Except ε β} {a : α} (h : x = .ok a) : x >>= f = f a := by
  rw [h]
  rfl

theorem bind_ok_iff {x : Except ε α} {f : α → Except ε β} {b : β} :
    x >>= f = .ok b ↔ ∃ a, x = .ok a ∧ f a = .ok b :=
  ⟨bind_ok, fun ⟨_, first, rest⟩ => (bind_of_ok first).trans rest⟩

theorem pure_ok {a b : α} (h : (pure a : Except ε α) = .ok b) : b = a := by
  cases h
  rfl

/-- A result of one part. -/
theorem part_ok {x : Except ε α} {g : α → β} {b : β} :
    (do let a ← x; return g a) = .ok b ↔ ∃ a, x = .ok a ∧ b = g a := by
  constructor
  · intro h
    obtain ⟨a, part, h⟩ := bind_ok h
    exact ⟨a, part, pure_ok h⟩
  · rintro ⟨a, part, rfl⟩
    rw [bind_of_ok part]
    rfl

theorem map_ok {x : Except ε α} {g : α → β} {b : β} : x.map g = .ok b ↔ ∃ a, x = .ok a ∧ b = g a := by
  cases x with
  | error e => exact ⟨nofun, fun ⟨_, absurd, _⟩ => nomatch absurd⟩
  | ok a => exact ⟨fun made => ⟨a, rfl, (Except.ok.inj made).symm⟩, by rintro ⟨_, ⟨⟩, rfl⟩; rfl⟩

/-- A result of two parts. -/
theorem parts_ok {x : Except ε α} {y : Except ε β} {g : α → β → γ} {c : γ} :
    (do let a ← x; let b ← y; return g a b) = .ok c ↔ ∃ a b, x = .ok a ∧ y = .ok b ∧ c = g a b := by
  constructor
  · intro h
    obtain ⟨a, first, h⟩ := bind_ok h
    obtain ⟨b, second, same⟩ := part_ok.mp h
    exact ⟨a, b, first, second, same⟩
  · rintro ⟨a, b, first, second, same⟩
    rw [bind_of_ok first]
    exact part_ok.mpr ⟨b, second, same⟩

/-- A result of two parts that are known, each under its condition. -/
theorem known_parts_ok {x : Except ε α} {y : Except ε β} {g : α → β → γ} {P Q : Prop} {a : α} {b : β}
    (first : ∀ a', x = .ok a' ↔ P ∧ a' = a) (second : ∀ b', y = .ok b' ↔ Q ∧ b' = b) {c : γ} :
    (do let a ← x; let b ← y; return g a b) = .ok c ↔ (P ∧ Q) ∧ c = g a b := by
  simp only [parts_ok, first, second]
  constructor
  · rintro ⟨_, _, ⟨p, rfl⟩, ⟨q, rfl⟩, same⟩
    exact ⟨⟨p, q⟩, same⟩
  · rintro ⟨⟨p, q⟩, same⟩
    exact ⟨a, b, ⟨p, rfl⟩, ⟨q, rfl⟩, same⟩

/-! ### Computations with a state -/

section Run

variable {σ : Type} {x : EStateM ε σ α} {f : α → EStateM ε σ β} {s s₁ s' : σ}

theorem bind_run_ok {b : β} (h : (x >>= f) s = .ok b s') : ∃ a s₁, x s = .ok a s₁ ∧ f a s₁ = .ok b s' := by
  change EStateM.bind x f s = .ok b s' at h
  unfold EStateM.bind at h
  split at h
  · exact ⟨_, _, ‹_›, h⟩
  · cases h

theorem bind_of_run {a : α} (h : x s = .ok a s₁) : (x >>= f) s = f a s₁ := by
  change EStateM.bind x f s = f a s₁
  simp only [EStateM.bind, h]

theorem bind_of_failed {e : ε} (h : x s = .error e s₁) : (x >>= f) s = .error e s₁ := by
  change EStateM.bind x f s = .error e s₁
  simp only [EStateM.bind, h]

end Run

/-! ### Errors -/

/-- Where there is no result, `p` holds of the error. -/
def Raises (p : ε → Prop) (x : Except ε α) : Prop := ∀ e, x = .error e → p e

namespace Raises

variable {p q : ε → Prop} {x : Except ε α} {y : Except ε β}

theorem ok (a : α) : Raises p (.ok a) := fun _ => nofun

theorem error {e : ε} (holds : p e) : Raises p (.error e : Except ε α) := by
  rintro _ ⟨⟩
  exact holds

theorem mono (raises : Raises p x) (weaker : ∀ e, p e → q e) : Raises q x :=
  fun e failed => weaker e (raises e failed)

/-- What follows is only run on a result. -/
theorem bind_given {f : α → Except ε β} (first : Raises p x) (rest : ∀ a, x = .ok a → Raises p (f a)) :
    Raises p (x >>= f) := by
  cases x with
  | ok a => exact rest a rfl
  | error e => exact error (first e rfl)

theorem bind {f : α → Except ε β} (first : Raises p x) (rest : ∀ a, Raises p (f a)) : Raises p (x >>= f) :=
  first.bind_given fun a _ => rest a

theorem map {g : α → β} (inner : Raises p x) : Raises p (x.map g) := by
  cases x with
  | ok a => exact ok (g a)
  | error e => exact error (inner e rfl)

theorem part {g : α → β} (inner : Raises p x) : Raises p (do let a ← x; return g a) :=
  inner.bind fun a => ok (g a)

theorem parts {g : α → β → γ} (first : Raises p x) (second : Raises p y) :
    Raises p (do let a ← x; let b ← y; return g a b) :=
  first.bind fun _ => second.part

theorem ite {c : Prop} [Decidable c] {x y : Except ε α} (yes : Raises p x) (no : Raises p y) :
    Raises p (if c then x else y) := by
  split
  · exact yes
  · exact no

end Raises

end TrackedRecord.Result
