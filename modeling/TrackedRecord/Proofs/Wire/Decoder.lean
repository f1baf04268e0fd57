import TrackedRecord.Proofs.Result
import TrackedRecord.Wire.Cursor

/-!
# Runs of decoders

What a successful run says about its parts, and how a run goes on from a part whose result is known.
-/

namespace TrackedRecord.Wire.Decoder

variable {α β γ : Type}

theorem bind_ok {d : Decoder α} {f : α → Decoder β} {c c' : Cursor} {b : β}
    (h : (d >>= f) c = .ok b c') : ∃ a c₁, d c = .ok a c₁ ∧ f a c₁ = .ok b c' :=
  Result.bind_run_ok h

theorem bind_of_ok {d : Decoder α} {f : α → Decoder β} {c c₁ : Cursor} {a : α}
    (h : d c = .ok a c₁) : (d >>= f) c = f a c₁ :=
  Result.bind_of_run h

theorem bind_of_error {d : Decoder α} {f : α → Decoder β} {c c₁ : Cursor} {e : Error}
    (h : d c = .error e c₁) : (d >>= f) c = .error e c₁ :=
  Result.bind_of_failed h

theorem map_of_ok {d : Decoder α} (f : α → β) {c c₁ : Cursor} {a : α} (h : d c = .ok a c₁) :
    (f <$> d) c = .ok (f a) c₁ :=
  bind_of_ok (f := fun a => pure (f a)) h

theorem map_of_error {d : Decoder α} (f : α → β) {c c₁ : Cursor} {e : Error} (h : d c = .error e c₁) :
    (f <$> d) c = .error e c₁ :=
  bind_of_error (f := fun a => pure (f a)) h

theorem pure_ok {a b : α} {c c' : Cursor} (h : (pure a : Decoder α) c = .ok b c') : b = a ∧ c' = c := by
  cases h
  exact ⟨rfl, rfl⟩

theorem throw_ok {e : Error} {b : α} {c c' : Cursor} : ¬(throw e : Decoder α) c = .ok b c' := by
  intro h
  cases h

theorem position_bind (f : Nat → Decoder β) (c : Cursor) : (position >>= f) c = f c.pos c := rfl

theorem within_ok {segment : String} {d : Decoder α} {c c' : Cursor} {a : α} :
    within segment d c = .ok a c' ↔ d c = .ok a c' := by
  unfold within
  split <;> simp_all

theorem within_of_error {segment : String} {d : Decoder α} {c c' : Cursor} {e : Error}
    (h : d c = .error e c') : within segment d c = .error (e.within segment) c' := by
  unfold within
  rw [h]

theorem within_map (segment : String) (f : α → β) (d : Decoder α) :
    within segment (do let a ← d; return f a) = (do let a ← within segment d; return f a) := by
  funext c
  cases run : d c with
  | ok a c₁ => exact (within_ok.mpr (map_of_ok f run)).trans (map_of_ok f (within_ok.mpr run)).symm
  | error e c₁ =>
    exact (within_of_error (map_of_error f run)).trans (map_of_error f (within_of_error run)).symm

theorem within_bind (segment : String) (d : Decoder α) (f : α → β) (g : β → Decoder γ) :
    (do let a ← within segment d; g (f a)) =
      (do let b ← within segment (do let a ← d; return f a); g b) := by
  rw [within_map, bind_assoc]
  simp only [pure_bind]

/-! ### What every result is -/

/-- Every result of the decoder is as `P` says, whatever the input. -/
def Gives (P : α → Prop) (d : Decoder α) : Prop := ∀ c a c', d c = .ok a c' → P a

namespace Gives

variable {P : α → Prop} {Q : β → Prop} {d : Decoder α}

theorem any (d : Decoder α) : Gives (fun _ => True) d := fun _ _ _ _ => trivial

theorem pure {a : α} (holds : P a) : Gives P (pure a : Decoder α) := by
  intro c b c' run
  obtain ⟨rfl, _⟩ := pure_ok run
  exact holds

theorem throw (e : Error) : Gives P (throw e : Decoder α) := fun _ _ _ run => (throw_ok run).elim

theorem bind {f : α → Decoder β} (first : Gives P d) (rest : ∀ a, P a → Gives Q (f a)) : Gives Q (d >>= f) := by
  intro c b c' run
  obtain ⟨a, c₁, run₁, run₂⟩ := bind_ok run
  exact rest a (first c a c₁ run₁) c₁ b c' run₂

theorem map {f : α → β} (inner : Gives P d) (each : ∀ a, P a → Q (f a)) : Gives Q (f <$> d) :=
  inner.bind fun a holds => pure (each a holds)

theorem within {segment : String} (inner : Gives P d) : Gives P (within segment d) :=
  fun c a c' run => inner c a c' (within_ok.mp run)

theorem ite {condition : Prop} [Decidable condition] {d' : Decoder α} (yes : condition → Gives P d)
    (no : ¬condition → Gives P d') : Gives P (if condition then d else d') := by
  split
  · exact yes ‹_›
  · exact no ‹_›

end Gives

end TrackedRecord.Wire.Decoder
