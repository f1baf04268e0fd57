import TrackedRecord.Proofs.Wire.Number
import TrackedRecord.Wire.PackedBits

/-!
# Decoders and the end of the input

What a sequential decoder takes from an input decides its run: with other bytes behind them it gives the
same, and with fewer of them it reports that the input ended, never anything else. Sequential decoders
in a row are sequential.
-/

namespace TrackedRecord.Wire

/-- From position `pos` on, `d` takes `taken` and gives `a`, and every shorter input ends too early. -/
structure Takes {α : Type} (d : Decoder α) (pos : Nat) (taken : List UInt8) (a : α) : Prop where
  onward : ∀ more, d ⟨taken ++ more, pos⟩ = .ok a ⟨more, pos + taken.length⟩
  short : ∀ part, part <+: taken → part ≠ taken → ∃ e c, d ⟨part, pos⟩ = .error e c ∧ e.kind = .truncated

def Sequential {α : Type} (d : Decoder α) : Prop :=
  ∀ c a c', d c = .ok a c' →
    ∃ taken, c.rest = taken ++ c'.rest ∧ c'.pos = c.pos + taken.length ∧ Takes d c.pos taken a

namespace Takes

variable {α β : Type} {d : Decoder α} {f : α → Decoder β} {pos : Nat}
  {taken more : List UInt8} {a : α} {b : β}

theorem nil (run : ∀ rest, d ⟨rest, pos⟩ = .ok a ⟨rest, pos⟩) : Takes d pos [] a where
  onward := run
  short _ start different := (different (List.prefix_nil.mp start)).elim

theorem bind (first : Takes d pos taken a) (second : Takes (f a) (pos + taken.length) more b) :
    Takes (d >>= f) pos (taken ++ more) b where
  onward rest := by
    rw [List.append_assoc, Decoder.bind_of_ok (first.onward _), second.onward, List.length_append,
      Nat.add_assoc]
  short part start different := by
    -- the cut falls into the bytes of the first decoder or into those of the second
    rcases List.prefix_or_prefix_of_prefix start (List.prefix_append taken more) with early | late
    · by_cases whole : part = taken
      · have rest : more ≠ [] := by
          rintro rfl
          exact different (by rw [whole, List.append_nil])
        obtain ⟨e, c, failed, kind⟩ := second.short [] (List.nil_prefix) rest.symm
        have run := first.onward []
        rw [List.append_nil] at run
        exact ⟨e, c, by rw [whole, Decoder.bind_of_ok run, failed], kind⟩
      · obtain ⟨e, c, failed, kind⟩ := first.short part early whole
        exact ⟨e, c, Decoder.bind_of_error failed, kind⟩
    · obtain ⟨left, rfl⟩ := late
      have startSecond : left <+: more := (List.prefix_append_right_inj taken).mp start
      have differentSecond : left ≠ more := fun same => different (by rw [same])
      obtain ⟨e, c, failed, kind⟩ := second.short left startSecond differentSecond
      exact ⟨e, c, by rw [Decoder.bind_of_ok (first.onward left), failed], kind⟩

theorem within {segment : String} (inner : Takes d pos taken a) :
    Takes (Decoder.within segment d) pos taken a where
  onward more := Decoder.within_ok.mpr (inner.onward more)
  short part start different := by
    obtain ⟨e, c, failed, kind⟩ := inner.short part start different
    exact ⟨_, c, Decoder.within_of_error failed, kind⟩

end Takes

namespace Sequential

variable {α β : Type}

theorem pure (a : α) : Sequential (pure a : Decoder α) := by
  intro c b c' h
  obtain ⟨rfl, rfl⟩ := Decoder.pure_ok h
  exact ⟨[], rfl, rfl, Takes.nil fun _ => rfl⟩

theorem throw (e : Error) : Sequential (throw e : Decoder α) := by
  intro c a c' h
  exact (Decoder.throw_ok h).elim

theorem position : Sequential Decoder.position := by
  intro c start c' h
  cases h
  exact ⟨[], rfl, rfl, Takes.nil fun _ => rfl⟩

theorem bind {d : Decoder α} {f : α → Decoder β} (first : Sequential d) (second : ∀ a, Sequential (f a)) :
    Sequential (d >>= f) := by
  intro c b c' h
  obtain ⟨a, c₁, run, h⟩ := Decoder.bind_ok h
  obtain ⟨taken, front, moved, takes⟩ := first _ _ _ run
  obtain ⟨more, frontSecond, movedSecond, takesSecond⟩ := second a _ _ _ h
  rw [moved] at movedSecond takesSecond
  refine ⟨taken ++ more, ?_, ?_, takes.bind takesSecond⟩
  · rw [front, frontSecond, List.append_assoc]
  · rw [movedSecond, List.length_append, Nat.add_assoc]

theorem map {d : Decoder α} {f : α → β} (inner : Sequential d) : Sequential (do let a ← d; return f a) :=
  inner.bind fun a => Sequential.pure (f a)

theorem within {segment : String} {d : Decoder α} (inner : Sequential d) :
    Sequential (Decoder.within segment d) := by
  intro c a c' h
  obtain ⟨taken, front, moved, takes⟩ := inner _ _ _ (Decoder.within_ok.mp h)
  exact ⟨taken, front, moved, takes.within⟩

theorem ite {p : Prop} [Decidable p] {d e : Decoder α} (yes : Sequential d) (no : Sequential e) :
    Sequential (if p then d else e) := by
  split
  · exact yes
  · exact no

end Sequential

namespace Decoder

/-! ### Scalars -/

theorem byte_sequential : Sequential byte := by
  intro c b c' h
  obtain ⟨front, moved⟩ := byte_ok h
  refine ⟨[b], front, moved, fun _ => rfl, ?_⟩
  intro part start different
  obtain rfl : part = [] := by
    rcases List.prefix_cons_iff.mp start with empty | ⟨tail, whole, nothing⟩
    · exact empty
    · exact (different (by rw [whole, List.prefix_nil.mp nothing])).elim
  exact ⟨_, _, rfl, rfl⟩

theorem exact_short {n pos : Nat} {part : List UInt8} (fewer : part.length < n) :
    exact n ⟨part, pos⟩ = .error (.truncated pos (n - (part.take n).length)) ⟨part, pos⟩ := by
  have missing : (part.take n).length ≠ n := by
    rw [List.length_take]
    omega
  unfold exact
  dsimp only
  rw [if_neg missing]

theorem exact_sequential (n : Nat) : Sequential (exact n) := by
  intro c bytes c' h
  obtain ⟨front, length, moved⟩ := exact_ok h
  refine ⟨bytes, front, by rw [moved, length], ?_, ?_⟩
  · intro more
    rw [exact_reads length]
  · intro part start different
    have fewer : part.length < n := by
      have := start.length_le
      have : part.length ≠ bytes.length := fun same => different (start.eq_of_length same)
      omega
    exact ⟨_, _, exact_short fewer, rfl⟩

theorem varintGroups_sequential (start left : Nat) : Sequential (varintGroups start left) := by
  induction left with
  | zero => exact Sequential.throw _
  | succ left ih =>
    rw [varintGroups_succ]
    refine byte_sequential.bind fun b => Sequential.ite (Sequential.throw _)
      (Sequential.ite (Sequential.pure _) ?_)
    exact ih.map

theorem varint_sequential : Sequential varint :=
  Sequential.position.bind fun start => varintGroups_sequential start 10

theorem count_sequential (settings : Settings) : Sequential (count settings) := by
  refine Sequential.position.bind fun start => varint_sequential.bind fun n => ?_
  exact Sequential.ite (Sequential.throw _) (Sequential.pure _)

theorem boolean_sequential : Sequential boolean := by
  refine Sequential.position.bind fun start => byte_sequential.bind fun b => ?_
  exact Sequential.ite (Sequential.pure _) (Sequential.ite (Sequential.pure _) (Sequential.throw _))

theorem fixedWidth_sequential (width : Nat) : Sequential (fixedWidth width) :=
  (exact_sequential width).map

theorem byteString_sequential (settings : Settings) : Sequential (byteString settings) := by
  refine Sequential.position.bind fun start => varint_sequential.bind fun length => ?_
  exact Sequential.ite (Sequential.throw _) (exact_sequential length)

theorem text_sequential (settings : Settings) : Sequential (text settings) := by
  refine Sequential.position.bind fun start => (byteString_sequential settings).bind fun bytes => ?_
  cases Utf8.decode? bytes with
  | some s => exact Sequential.pure s
  | none => exact Sequential.throw _

theorem packedBits_sequential (len : Nat) : Sequential (packedBits len) := by
  refine Sequential.position.bind fun start => (exact_sequential _).bind fun bytes => ?_
  exact Sequential.ite (Sequential.throw _) (Sequential.pure _)

end Decoder

end TrackedRecord.Wire
