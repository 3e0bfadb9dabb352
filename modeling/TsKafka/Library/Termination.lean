import TsKafka.Library.PartialRun

/-!
# Runs that come to an end

A rank that goes down with every step bounds the length of every run. When moreover a step is
enabled in every state that is not final, each run ends in a final state, whichever steps are
chosen: no schedule goes on for ever, and none gets stuck.
-/

namespace PartialRun

variable {σ α : Type*} {step : σ → α → Option σ} {s t : σ}

/-- A quantity that no step increases is not increased by a run. -/
theorem run_le {I : σ → Prop} (f : σ → ℕ) (hI : ∀ s a t, I s → step s a = some t → I t)
    (hf : ∀ s a t, I s → step s a = some t → f t ≤ f s) {as : List α}
    (hrun : run step s as = some t) (hs : I s) : f t ≤ f s := by
  have hinv : I t ∧ f t ≤ f s := by
    apply run_invariant (I := fun u => I u ∧ f u ≤ f s) ?_ hrun ⟨hs, Nat.le_refl _⟩
    rintro u a v ⟨hu, hle⟩ hstep
    exact ⟨hI u a v hu hstep, Nat.le_trans (hf u a v hu hstep) hle⟩
  exact hinv.2

/-- A rank that goes down with every step bounds the runs. -/
theorem length_add_rank_le {I : σ → Prop} (rank : σ → ℕ)
    (hI : ∀ s a t, I s → step s a = some t → I t)
    (hrank : ∀ s a t, I s → step s a = some t → rank t < rank s) {as : List α}
    (hrun : run step s as = some t) (hs : I s) : as.length + rank t ≤ rank s := by
  induction as generalizing s with
  | nil =>
    cases hrun
    simp
  | cons a as ih =>
    obtain ⟨m, ha, hm⟩ := run_cons_eq_some.mp hrun
    have hrest := ih hm (hI s a m hs ha)
    have hfirst := hrank s a m hs ha
    rw [List.length_cons]
    omega

/-- Every run from `s` has at most `n` steps, and can go on until it is in a final state. -/
def EndsWithin (step : σ → α → Option σ) (n : ℕ) (final : σ → Prop) (s : σ) : Prop :=
  ∀ as t, run step s as = some t → as.length ≤ n ∧ (final t ∨ ∃ a, (step t a).isSome)

theorem EndsWithin.of_rank {I final : σ → Prop} (rank : σ → ℕ)
    (hI : ∀ s a t, I s → step s a = some t → I t)
    (hrank : ∀ s a t, I s → step s a = some t → rank t < rank s)
    (hgoes : ∀ s, I s → final s ∨ ∃ a, (step s a).isSome) {n : ℕ} (hs : I s) (hn : rank s ≤ n) :
    EndsWithin step n final s := by
  intro as t hrun
  have hlength := length_add_rank_le rank hI hrank hrun hs
  exact ⟨by omega, hgoes t (run_invariant hI hrun hs)⟩

end PartialRun
