import TrackedRecord.Proofs.Wire.Reports
import TrackedRecord.Wire.Slice

/-!
# Checked runs and decoders

A checked run refines a decoder if, wherever it starts in an input, it ends as the decoder does: with the same
value or error and with as many bytes taken. So it never traps, its position never goes back or leaves the input,
and its errors are placed in the input. Refinements in a row are one. Where something may be missing, a run may
also trap, but only where the decoder reports a fault.
-/

namespace TrackedRecord.Wire

namespace Slice

/-- The bytes behind the position. -/
def cursor (s : Slice) : Cursor := ⟨s.data.drop s.pos, s.pos⟩

/-- A position in an input of `size` bytes, which is a word. -/
structure Inside (size : Nat) (s : Slice) : Prop where
  small : size < wordBound
  length : s.data.length = size
  pos : s.pos ≤ size

/-- A later position in the same input, or the same one. -/
structure Onward (s s' : Slice) : Prop where
  data : s'.data = s.data
  forward : s.pos ≤ s'.pos
  inside : s'.pos ≤ s.data.length

variable {size : Nat} {s s₁ s' : Slice}

theorem Inside.onward (inside : s.Inside size) : s.Onward s where
  data := rfl
  forward := Nat.le_refl _
  inside := inside.length ▸ inside.pos

theorem Inside.rest_length (inside : s.Inside size) : s.cursor.rest.length = size - s.pos := by
  rw [cursor, List.length_drop, inside.length]

theorem Onward.keeps (onward : s.Onward s') (inside : s.Inside size) : s'.Inside size where
  small := inside.small
  length := onward.data ▸ inside.length
  pos := inside.length ▸ onward.inside

theorem Onward.trans (first : s.Onward s₁) (second : s₁.Onward s') : s.Onward s' where
  data := second.data.trans first.data
  forward := Nat.le_trans first.forward second.forward
  inside := first.data ▸ second.inside

/-- The two ends of a checked run and of a decoder that both started in `s`. -/
inductive Agree {α : Type} (size : Nat) (s : Slice) :
    EStateM.Result Halt Slice α → EStateM.Result Error Cursor α → Prop where
  | ok {a : α} {s' : Slice} (onward : s.Onward s') : Agree size s (.ok a s') (.ok a s'.cursor)
  | error {e : Error} {s' : Slice} (onward : s.Onward s') (placed : e.Placed size) :
    Agree size s (.error (.error e) s') (.error e s'.cursor)

/-- Ends that agree after `s₁` agree after what leads to it. -/
theorem Agree.since {α : Type} {r : EStateM.Result Halt Slice α} {r' : EStateM.Result Error Cursor α}
    (agree : Agree size s₁ r r') (onward : s.Onward s₁) : Agree size s r r' := by
  cases agree with
  | ok onward' => exact .ok (onward.trans onward')
  | error onward' placed => exact .error (onward.trans onward') placed

end Slice

open Slice (Agree Inside)

/-- In an input of `size` bytes, the checked run ends as the decoder does. -/
def Refines {α : Type} (size : Nat) (run : Checked α) (d : Decoder α) : Prop :=
  ∀ s : Slice, s.Inside size → Agree size s (run s) (d s.cursor)

/-- The run traps where the decoder reports a fault. -/
def Traps {α : Type} (r : EStateM.Result Halt Slice α) (r' : EStateM.Result Error Cursor α) : Prop :=
  ∃ s e c, r = .error .trap s ∧ r' = .error e c ∧ e.kind = .fault

/-- The checked run ends as the decoder does, unless something is missing: then it may trap where the decoder
reports a fault. -/
def RefinesUnless {α : Type} (missing : Prop) (size : Nat) (run : Checked α) (d : Decoder α) : Prop :=
  ∀ s : Slice, s.Inside size → Agree size s (run s) (d s.cursor) ∨ missing ∧ Traps (run s) (d s.cursor)

section

variable {α β : Type} {missing : Prop} {size : Nat} {run : Checked α} {d : Decoder α} {f : α → Checked β}
  {g : α → Decoder β}

namespace RefinesUnless

theorem of (refines : Refines size run d) : RefinesUnless missing size run d :=
  fun s inside => Or.inl (refines s inside)

theorem refines (either : RefinesUnless missing size run d) (complete : ¬missing) : Refines size run d :=
  fun s inside => (either s inside).resolve_right fun missed => complete missed.1

theorem trap {e : Error} (missed : missing) (fault : e.kind = .fault) :
    RefinesUnless missing size (Checked.trap : Checked α) (throw e) :=
  fun s _ => Or.inr ⟨missed, s, e, s.cursor, rfl, rfl, fault⟩

/-- What follows counts only for what the decoder may give. -/
theorem bind_given {P : α → Prop} (first : RefinesUnless missing size run d) (gives : d.Gives P)
    (rest : ∀ a, P a → RefinesUnless missing size (f a) (g a)) :
    RefinesUnless missing size (run >>= f) (d >>= g) := by
  intro s inside
  rcases first s inside with agree | ⟨missed, s₁, e, c, ran, decoded, fault⟩
  · generalize ran : run s = r, decoded : d s.cursor = r' at agree
    cases agree with
    | ok onward =>
      rw [Result.bind_of_run ran, Decoder.bind_of_ok decoded]
      exact (rest _ (gives _ _ _ decoded) _ (onward.keeps inside)).imp_left (Agree.since · onward)
    | error onward placed =>
      rw [Result.bind_of_failed ran, Decoder.bind_of_error decoded]
      exact Or.inl (.error onward placed)
  · rw [Result.bind_of_failed ran, Decoder.bind_of_error decoded]
    exact Or.inr ⟨missed, s₁, e, c, rfl, rfl, fault⟩

theorem bind (first : RefinesUnless missing size run d) (rest : ∀ a, RefinesUnless missing size (f a) (g a)) :
    RefinesUnless missing size (run >>= f) (d >>= g) :=
  first.bind_given (.any d) fun a _ => rest a

theorem within {segment : String} (inner : RefinesUnless missing size run d) :
    RefinesUnless missing size (Checked.within segment run) (Decoder.within segment d) := by
  intro s inside
  rcases inner s inside with agree | ⟨missed, s₁, e, c, ran, decoded, fault⟩
  · generalize ran : run s = r, decoded : d s.cursor = r' at agree
    cases agree with
    | ok onward =>
      rw [Decoder.within_ok.mpr decoded, Checked.within, ran]
      exact Or.inl (.ok onward)
    | error onward placed =>
      rw [Decoder.within_of_error decoded, Checked.within, ran]
      exact Or.inl (.error onward placed.within)
  · rw [Decoder.within_of_error decoded, Checked.within, ran]
    exact Or.inr ⟨missed, s₁, e.within segment, c, rfl, rfl, fault⟩

end RefinesUnless

namespace Refines

theorem pure (a : α) : Refines size (pure a : Checked α) (pure a) := fun _ inside => .ok inside.onward

theorem refuse {e : Error} (placed : e.Placed size) : Refines size (Checked.refuse e : Checked α) (throw e) :=
  fun _ inside => .error inside.onward placed

/-- The two ends, one beside the other. -/
theorem ends (refines : Refines size run d) {s : Slice} (inside : s.Inside size) :
    (∃ a s', run s = .ok a s' ∧ d s.cursor = .ok a s'.cursor ∧ s.Onward s') ∨
      ∃ e s', run s = .error (.error e) s' ∧ d s.cursor = .error e s'.cursor ∧ s.Onward s' ∧ e.Placed size := by
  have agree := refines s inside
  generalize run s = r, d s.cursor = r' at agree ⊢
  cases agree with
  | ok onward => exact Or.inl ⟨_, _, rfl, rfl, onward⟩
  | error onward placed => exact Or.inr ⟨_, _, rfl, rfl, onward, placed⟩

/-- What follows counts only for what the decoder may give. -/
theorem bind_given {P : α → Prop} (first : Refines size run d) (gives : d.Gives P)
    (rest : ∀ a, P a → Refines size (f a) (g a)) : Refines size (run >>= f) (d >>= g) :=
  ((RefinesUnless.of first).bind_given gives fun a given => .of (rest a given)).refines not_false

theorem bind (first : Refines size run d) (rest : ∀ a, Refines size (f a) (g a)) :
    Refines size (run >>= f) (d >>= g) :=
  first.bind_given (.any d) fun a _ => rest a

theorem map {h : α → β} (inner : Refines size run d) :
    Refines size (do let a ← run; return h a) (do let a ← d; return h a) :=
  inner.bind fun a => .pure (h a)

theorem discard (inner : Refines size run d) : Refines size (discard run) (discard d) := by
  rw [Functor.discard, Functor.discard, map_const, map_const]
  exact inner.map

theorem position {f : Nat → Checked β} {g : Nat → Decoder β}
    (rest : ∀ start, start ≤ size → Refines size (f start) (g start)) :
    Refines size (Checked.position >>= f) (Decoder.position >>= g) :=
  fun s inside => rest s.pos inside.pos s inside

theorem within {segment : String} (inner : Refines size run d) :
    Refines size (Checked.within segment run) (Decoder.within segment d) :=
  (RefinesUnless.of inner).within.refines not_false

theorem ite {p : Prop} [Decidable p] {run' : Checked α} {d' : Decoder α} (yes : p → Refines size run d)
    (no : ¬p → Refines size run' d') : Refines size (if p then run else run') (if p then d else d') := by
  split
  · exact yes ‹_›
  · exact no ‹_›

end Refines

theorem RefinesUnless.map {h : α → β} (inner : RefinesUnless missing size run d) :
    RefinesUnless missing size (do let a ← run; return h a) (do let a ← d; return h a) :=
  inner.bind fun a => .of (.pure (h a))

end

/-! ### Words and indices -/

namespace Checked

variable {α : Type}

theorem add_eq {a b : Nat} (small : a + b < wordBound) : add a b = pure (a + b) := if_pos small

theorem sub_eq {a b : Nat} (le : b ≤ a) : sub a b = pure (a - b) := if_pos le

theorem mul_eq {a b : Nat} (small : a * b < wordBound) : mul a b = pure (a * b) := if_pos small

theorem amount_eq {width n : Nat} (less : n < width) : amount width n = pure n := if_pos less

theorem index_eq {items : List α} {i : Nat} {a : α} (present : items[i]? = some a) : index items i = pure a := by
  rw [index, present]

theorem put_eq {items : List α} {i : Nat} (inside : i < items.length) (a : α) :
    put items i a = pure (items.set i a) :=
  if_pos inside

theorem range_eq {items : List α} {start n : Nat} (inside : start + n ≤ items.length) :
    range items start (start + n) = pure ((items.drop start).take n) := by
  rw [range, if_pos ⟨Nat.le_add_right _ _, inside⟩, Nat.add_sub_cancel_left]

end Checked

end TrackedRecord.Wire
