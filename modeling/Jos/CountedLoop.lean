import Mathlib.Logic.Basic

/- Loops that run a fixed number of rounds and may stop with an error. A C loop whose
   round count is known before it starts is such a loop. -/
namespace CountedLoop
variable {ε α β σ τ : Type}

theorem ok_bind (a : α) (f : α → Except ε β) : (Except.ok a >>= f) = f a := rfl

theorem bind_ok {x : Except ε α} {f : α → Except ε β} {b : β} :
    x >>= f = .ok b ↔ ∃ a, x = .ok a ∧ f a = .ok b := by
  cases x with
  | error e => exact ⟨nofun, nofun⟩
  | ok a =>
    refine ⟨fun run => ⟨a, rfl, run⟩, ?_⟩
    rintro ⟨_, ⟨⟩, run⟩
    exact run

theorem bind_error {x : Except ε α} {f : α → Except ε β} {e : ε} :
    x >>= f = .error e ↔ x = .error e ∨ ∃ a, x = .ok a ∧ f a = .error e := by
  cases x with
  | error e' =>
    refine ⟨fun failed => Or.inl (congrArg Except.error (Except.error.inj failed)), ?_⟩
    rintro (failed | ⟨_, never, _⟩)
    · exact congrArg Except.error (Except.error.inj failed)
    · cases never
  | ok a =>
    refine ⟨fun failed => Or.inr ⟨a, rfl, failed⟩, ?_⟩
    rintro (never | ⟨_, ⟨⟩, failed⟩)
    · cases never
    · exact failed

/-- Rounds 0, 1, ..., n - 1 in this order, ending at the first error. -/
def times (body : Nat → σ → Except ε σ) : Nat → σ → Except ε σ
  | 0, s => .ok s
  | n + 1, s => times body n s >>= body n

/-- Partial correctness: what every successful round keeps holds after the loop. -/
theorem times_keeps {body : Nat → σ → Except ε σ} {n : Nat} {s t : σ}
    (I : Nat → σ → Prop) (start : I 0 s)
    (round : ∀ k a b, k < n → I k a → body k a = .ok b → I (k + 1) b)
    (run : times body n s = .ok t) : I n t := by
  induction n generalizing t with
  | zero =>
    have same : s = t := by simpa [times] using run
    exact same ▸ start
  | succ n ih =>
    obtain ⟨a, before, last⟩ := bind_ok.mp run
    have ia := ih (fun k a b small => round k a b (by omega)) before
    exact round n a t (by omega) ia last

theorem times_total {body : Nat → σ → Except ε σ} {n : Nat} {s : σ}
    (I : Nat → σ → Prop) (start : I 0 s)
    (round : ∀ k a, k < n → I k a → ∃ b, body k a = .ok b ∧ I (k + 1) b) :
    ∃ t, times body n s = .ok t ∧ I n t := by
  induction n with
  | zero => exact ⟨s, rfl, start⟩
  | succ n ih =>
    obtain ⟨a, before, ia⟩ := ih (fun k a small => round k a (by omega))
    obtain ⟨b, last, ib⟩ := round n a (by omega) ia
    exact ⟨b, bind_ok.mpr ⟨a, before, last⟩, ib⟩

theorem times_outcome {body : Nat → σ → Except ε σ} {n : Nat} {s : σ} {e : ε}
    (I : Nat → σ → Prop) (start : I 0 s)
    (round : ∀ k a, k < n → I k a → body k a = .error e ∨ ∃ b, body k a = .ok b ∧ I (k + 1) b) :
    times body n s = .error e ∨ ∃ t, times body n s = .ok t ∧ I n t := by
  induction n with
  | zero => exact Or.inr ⟨s, rfl, start⟩
  | succ n ih =>
    rcases ih (fun k a small => round k a (by omega)) with failed | ⟨a, before, ia⟩
    · exact Or.inl (bind_error.mpr (Or.inl failed))
    · rcases round n a (by omega) ia with failed | ⟨b, last, ib⟩
      · exact Or.inl (bind_error.mpr (Or.inr ⟨a, before, failed⟩))
      · exact Or.inr ⟨b, bind_ok.mpr ⟨a, before, last⟩, ib⟩

/-- Lockstep: a round of the first loop that succeeds from related states is matched by the
    same round of the second. -/
theorem times_lockstep {body : Nat → σ → Except ε σ} {body' : Nat → τ → Except ε τ} {n : Nat}
    {s t : σ} {s' : τ} (R : Nat → σ → τ → Prop) (start : R 0 s s')
    (round : ∀ k a a' b, k < n → R k a a' → body k a = .ok b →
      ∃ b', body' k a' = .ok b' ∧ R (k + 1) b b')
    (run : times body n s = .ok t) : ∃ t', times body' n s' = .ok t' ∧ R n t t' := by
  induction n generalizing t with
  | zero =>
    have same : s = t := by simpa [times] using run
    exact ⟨s', rfl, same ▸ start⟩
  | succ n ih =>
    obtain ⟨a, before, last⟩ := bind_ok.mp run
    obtain ⟨a', before', related⟩ := ih (fun k a a' b small => round k a a' b (by omega)) before
    obtain ⟨b', last', related'⟩ := round n a a' t (by omega) related last
    exact ⟨b', bind_ok.mpr ⟨a', before', last'⟩, related'⟩

theorem times_congr {body body' : Nat → σ → Except ε σ} {n : Nat}
    (same : ∀ k, k < n → body k = body' k) (s : σ) : times body n s = times body' n s := by
  induction n with
  | zero => rfl
  | succ n ih =>
    unfold times
    rw [ih fun k small => same k (by omega), same n (by omega)]

theorem times_first {body : Nat → σ → Except ε σ} {n : Nat} {s t : σ}
    (run : times body (n + 1) s = .ok t) : ∃ a, body 0 s = .ok a := by
  induction n generalizing t with
  | zero =>
    obtain ⟨a, start, last⟩ := bind_ok.mp run
    have same : s = a := by simpa [times] using start
    exact ⟨t, same ▸ last⟩
  | succ n ih =>
    obtain ⟨a, before, _⟩ := bind_ok.mp run
    exact ih before

theorem times_part {body : Nat → σ → Except ε σ} {n k : Nat} {s t : σ} (part : k ≤ n)
    (run : times body n s = .ok t) : ∃ a, times body k s = .ok a := by
  induction n generalizing t with
  | zero =>
    rw [Nat.le_zero.mp part]
    exact ⟨t, run⟩
  | succ n ih =>
    obtain ⟨a, before, _⟩ := bind_ok.mp run
    rcases Nat.lt_or_eq_of_le part with earlier | rfl
    · exact ih (Nat.le_of_lt_succ earlier) before
    · exact ⟨t, run⟩

theorem times_idle {body : Nat → σ → Except ε σ} {n : Nat} {s : σ}
    (idle : ∀ k, k < n → body k s = .ok s) : times body n s = .ok s := by
  induction n with
  | zero => rfl
  | succ n ih =>
    exact bind_ok.mpr ⟨s, ih fun k small => idle k (by omega), idle n (by omega)⟩

theorem times_foldlM (f : σ → α → Except ε σ) (item : Nat → α) (n : Nat) (s : σ) :
    times (fun k a => f a (item k)) n s = ((List.range n).map item).foldlM f s := by
  induction n with
  | zero => rfl
  | succ n ih =>
    rw [List.range_succ, List.map_append, List.foldlM_append, ← ih]
    change _ = times _ n s >>= fun a => f a (item n) >>= pure
    simp only [bind_pure]
    rfl

theorem foldlM_filter {f : σ → α → Except ε σ} {keep : α → Bool} {items : List α} (s : σ)
    (idle : ∀ x ∈ items, keep x = false → ∀ a, f a x = .ok a) :
    (items.filter keep).foldlM f s = items.foldlM f s := by
  induction items generalizing s with
  | nil => rfl
  | cons x rest ih =>
    have rest_idle : ∀ y ∈ rest, keep y = false → ∀ a, f a y = .ok a :=
      fun y member => idle y (List.mem_cons_of_mem x member)
    cases kept : keep x with
    | true =>
      rw [List.filter_cons_of_pos kept, List.foldlM_cons, List.foldlM_cons]
      exact congrArg _ (funext fun a => ih a rest_idle)
    | false =>
      have nothing := idle x List.mem_cons_self kept s
      rw [List.filter_cons_of_neg (by simp [kept]), List.foldlM_cons, nothing, ok_bind]
      exact ih s rest_idle

end CountedLoop
