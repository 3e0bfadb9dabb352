import TsKafka.Library.PartialRun

/-!
# What is observed along a run

A step shows what it does to an observer; a run shows what its steps show, in order. The
observations are a function of the run, so a system need not record them in its state. The rules
below are the induction for what relates the state of a run to its observations.
-/

namespace PartialRun

variable {σ α β γ : Type*} {step : σ → α → Option σ} {obs : σ → α → List β} {s t : σ}

/-- What is observed along the run of `as` from `s`: `obs s a` is what the step `a` shows in `s`. -/
def observed (step : σ → α → Option σ) (obs : σ → α → List β) (s : σ) : List α → List β
  | [] => []
  | a :: as =>
    match step s a with
    | some t => obs s a ++ observed step obs t as
    | none => []

theorem observed_cons {a : α} (ha : step s a = some t) (as : List α) :
    observed step obs s (a :: as) = obs s a ++ observed step obs t as := by
  rw [observed, ha]

/-- A relation between the state and what two observers have seen so far that every step keeps is
kept by a run. -/
theorem observed_invariant₂ {obs' : σ → α → List γ} {I : σ → List β → List γ → Prop}
    (hstep : ∀ s out out' a t, I s out out' → step s a = some t →
      I t (out ++ obs s a) (out' ++ obs' s a)) {as : List α}
    (hrun : run step s as = some t) {out : List β} {out' : List γ} (hs : I s out out') :
    I t (out ++ observed step obs s as) (out' ++ observed step obs' s as) := by
  induction as generalizing s out out' with
  | nil =>
    cases hrun
    rwa [observed, observed, List.append_nil, List.append_nil]
  | cons a as ih =>
    obtain ⟨m, ha, hm⟩ := run_cons_eq_some.mp hrun
    rw [observed_cons ha, observed_cons ha, ← List.append_assoc, ← List.append_assoc]
    exact ih hm (hstep s out out' a m hs ha)

/-- The same for one observer. -/
theorem observed_invariant {I : σ → List β → Prop}
    (hstep : ∀ s out a t, I s out → step s a = some t → I t (out ++ obs s a)) {as : List α}
    (hrun : run step s as = some t) {out : List β} (hs : I s out) :
    I t (out ++ observed step obs s as) :=
  @observed_invariant₂ σ α β Unit step obs s t (fun _ _ => []) (fun s out _ => I s out)
    (fun s out _ a t h ha => hstep s out a t h ha) as hrun out [] hs

end PartialRun
