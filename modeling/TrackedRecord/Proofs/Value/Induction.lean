import TrackedRecord.Value.Basic

/-!
# Induction over values

What holds of a value that is made of others may be shown from what holds of each of them.
-/

namespace TrackedRecord.Value

@[elab_as_elim]
theorem induction {P : Value → Prop} (null : P .null) (boolean : ∀ b, P (.boolean b)) (int : ∀ n, P (.int n))
    (long : ∀ n, P (.long n)) (float : ∀ bits, P (.float bits)) (double : ∀ bits, P (.double bits))
    (bytes : ∀ data, P (.bytes data)) (string : ∀ s, P (.string s)) (enum : ∀ ordinal, P (.enum ordinal))
    (fixed : ∀ data, P (.fixed data))
    (record : ∀ layout slots dirty readable, (∀ slot ∈ slots, P slot) →
      P (.record ⟨layout, slots, dirty, readable⟩))
    (array : ∀ items, (∀ item ∈ items, P item) → P (.array items))
    (map : ∀ entries states, (∀ entry ∈ entries, P (Prod.snd entry)) → P (.map ⟨entries, states⟩))
    (union : ∀ branch value, P value → P (.union branch value)) (value : Value) : P value := by
  refine @Value.rec P (fun r => ∀ slot ∈ r.slots, P slot) (fun values => ∀ value ∈ values, P value)
    (fun m => ∀ entry ∈ m.entries, P (Prod.snd entry)) (fun entries => ∀ entry ∈ entries, P (Prod.snd entry))
    (fun entry => P entry.2) null boolean int long float double bytes string enum fixed
    (fun r => record r.layout r.slots r.dirty r.readable) array (fun m => map m.entries m.states) union
    (fun _ _ _ _ each => each) (fun _ member => nomatch member) ?values (fun _ _ each => each)
    (fun _ member => nomatch member) ?entries (fun _ _ each => each) value
  case values | entries =>
    intro head tail first others value member
    rcases List.mem_cons.mp member with same | later
    · exact same ▸ first
    · exact others value later

end TrackedRecord.Value
