import TrackedRecord.Schema.Vocabulary

/-!
# Outcomes of parsing

A vocabulary is left behind by a computation that fails as well as by one that does not, so what is shown
of a computation says what holds in either case.
-/

namespace TrackedRecord.Vocabulary

variable {α β : Type}

/-- From `v` on, the computation ends with a result and a vocabulary of which `good` holds, or it fails
and leaves one of which `bad` holds. -/
def Ends (p : Parsing α) (v : Vocabulary) (good : α → Vocabulary → Prop) (bad : Vocabulary → Prop) : Prop :=
  match p v with
  | .ok a v' => good a v'
  | .error _ v' => bad v'

variable {v v' : Vocabulary} {good good' : α → Vocabulary → Prop} {bad bad' : Vocabulary → Prop}
  {p : Parsing α}

namespace Ends

theorem ok (ends : Ends p v good bad) {a : α} (run : p v = .ok a v') : good a v' := by
  unfold Ends at ends
  rwa [run] at ends

theorem error (ends : Ends p v good bad) {e : SchemaError} (run : p v = .error e v') : bad v' := by
  unfold Ends at ends
  rwa [run] at ends

theorem mono (ends : Ends p v good bad) (ok : ∀ a v', good a v' → good' a v') (error : ∀ v', bad v' → bad' v') :
    Ends p v good' bad' := by
  unfold Ends at ends ⊢
  split
  · rename_i run
    rw [run] at ends
    exact ok _ _ ends
  · rename_i run
    rw [run] at ends
    exact error _ ends

theorem pure {a : α} (holds : good a v) : Ends (pure a) v good bad := holds

theorem refuse {node : String} {cause : SchemaError.Cause} (holds : bad v) :
    Ends (refuse node cause) v good bad := holds

theorem throw {e : SchemaError} (holds : bad v) : Ends (throw e) v good bad := holds

theorem bind {f : α → Parsing β} {good : β → Vocabulary → Prop} {mid : α → Vocabulary → Prop}
    (first : Ends p v mid bad) (second : ∀ a v₁, mid a v₁ → Ends (f a) v₁ good bad) :
    Ends (p >>= f) v good bad := by
  change match EStateM.bind p f v with
    | .ok a v' => good a v'
    | .error _ v' => bad v'
  unfold Ends at first
  unfold EStateM.bind
  split at first
  · rename_i run
    rw [run]
    exact second _ _ first
  · rename_i run
    rw [run]
    exact first

theorem refuse_bind {f : α → Parsing β} {good : β → Vocabulary → Prop} {node : String}
    {cause : SchemaError.Cause} (holds : bad v) : Ends (Vocabulary.refuse node cause >>= f) v good bad := holds

theorem throw_bind {f : α → Parsing β} {good : β → Vocabulary → Prop} {e : SchemaError} (holds : bad v) :
    Ends (MonadExcept.throw e >>= f) v good bad := holds

theorem always (holds : ∀ v', bad v') : Ends p v (fun _ _ => True) bad := by
  unfold Ends
  split
  · trivial
  · exact holds _

theorem and (ends : Ends p v good bad) (more : Ends p v good' bad') :
    Ends p v (fun a v' => good a v' ∧ good' a v') fun v' => bad v' ∧ bad' v' := by
  unfold Ends at ends more ⊢
  split
  · rename_i run
    rw [run] at ends more
    exact ⟨ends, more⟩
  · rename_i run
    rw [run] at ends more
    exact ⟨ends, more⟩

/-- The vocabulary is read and then the rest goes on from it. -/
theorem get {f : Vocabulary → Parsing α} (rest : Ends (f v) v good bad) : Ends (get >>= f) v good bad := rest

end Ends

/-- The computation changes nothing, and `found` holds of its result. -/
def Checks (p : Parsing α) (v : Vocabulary) (found : α → Prop) : Prop :=
  Ends p v (fun a v' => v' = v ∧ found a) fun v' => v' = v

namespace Checks

variable {found : α → Prop}

theorem pure {a : α} (holds : found a) : Checks (pure a) v found := ⟨rfl, holds⟩

theorem refuse {node : String} {cause : SchemaError.Cause} : Checks (refuse node cause) v found := rfl

theorem require {node : String} {cause : SchemaError.Cause} {found : Option α} :
    Checks (require node cause found) v (found = some ·) := by
  cases found with
  | none => exact Checks.refuse
  | some a => exact Checks.pure rfl

theorem bind {f : α → Parsing β} {good : β → Vocabulary → Prop} (first : Checks p v found) (error : bad v)
    (rest : ∀ a, found a → Ends (f a) v good bad) : Ends (p >>= f) v good bad :=
  Ends.bind (first.mono (fun _ _ holds => holds) fun _ same => same ▸ error) fun a _ ⟨same, holds⟩ =>
    same ▸ rest a holds

/-- Checks in a row are one. -/
theorem andThen {f : α → Parsing β} {last : β → Prop} (first : Checks p v found)
    (rest : ∀ a, found a → Checks (f a) v last) : Checks (p >>= f) v last :=
  first.bind rfl rest

end Checks

end TrackedRecord.Vocabulary
