import Mathlib.Logic.Basic
import Mathlib.Data.List.Basic

/-!
# Runs of a labelled partial step

A system is a function `step : σ → α → Option σ`: the label names what happens and carries
every choice of the environment, and `none` says that the label is not enabled. `run` follows
a list of labels, `Meets` says that every step of a run satisfies a guard on the state before
it, and the rules below are the inductions every safety proof uses: an invariant of one step
is an invariant of a run, with or without a guard, and a run that breaks its guard has a first
step that does.
-/

namespace PartialRun

variable {σ τ α β : Type*}

/-- The state after the labels `as`, when every one of them is enabled in turn. -/
def run (step : σ → α → Option σ) (s : σ) : List α → Option σ
  | [] => some s
  | a :: as => (step s a).bind fun t => run step t as

/-- Every step of the run along `as` meets `guard` in the state before it. -/
def Meets (step : σ → α → Option σ) (guard : σ → α → Prop) (s : σ) : List α → Prop
  | [] => True
  | a :: as => guard s a ∧ ∀ t, step s a = some t → Meets step guard t as

variable {step : σ → α → Option σ} {guard guard' : σ → α → Prop} {s t u : σ}

@[simp] theorem run_nil : run step s [] = some s := rfl

theorem run_cons_eq_some {a : α} {as : List α} :
    run step s (a :: as) = some u ↔ ∃ t, step s a = some t ∧ run step t as = some u := by
  simp [run, Option.bind_eq_some_iff]

theorem run_append {as bs : List α} :
    run step s (as ++ bs) = (run step s as).bind fun t => run step t bs := by
  induction as generalizing s with
  | nil => rfl
  | cons a as ih => cases h : step s a <;> simp [run, h, ih]

theorem run_append_eq_some {as bs : List α} :
    run step s (as ++ bs) = some u ↔ ∃ t, run step s as = some t ∧ run step t bs = some u := by
  simp [run_append, Option.bind_eq_some_iff]

theorem run_singleton {a : α} (ha : step s a = some t) : run step s [a] = some t :=
  run_cons_eq_some.mpr ⟨t, ha, rfl⟩

/-- What every step preserves, every run preserves. -/
theorem run_invariant {I : σ → Prop} (hstep : ∀ s a t, I s → step s a = some t → I t)
    {as : List α} (hrun : run step s as = some t) (hs : I s) : I t := by
  induction as generalizing s with
  | nil => cases hrun; exact hs
  | cons a as ih =>
    obtain ⟨m, ha, hm⟩ := run_cons_eq_some.mp hrun
    exact ih hm (hstep s a m hs ha)

/-- What every guarded step preserves, every run whose steps meet the guard preserves. -/
theorem run_invariant_of_meets {I : σ → Prop}
    (hstep : ∀ s a t, I s → guard s a → step s a = some t → I t)
    {as : List α} (hmeets : Meets step guard s as) (hrun : run step s as = some t)
    (hs : I s) : I t := by
  induction as generalizing s with
  | nil => cases hrun; exact hs
  | cons a as ih =>
    obtain ⟨m, ha, hm⟩ := run_cons_eq_some.mp hrun
    exact ih (hmeets.2 m ha) hm (hstep s a m hs hmeets.1 ha)

@[simp] theorem meets_nil : Meets step guard s [] := trivial

instance Meets.decidable [∀ s a, Decidable (guard s a)] :
    ∀ (s : σ) (as : List α), Decidable (Meets step guard s as)
  | _, [] => isTrue trivial
  | s, a :: as =>
    match hstep : step s a with
    | none => decidable_of_iff (guard s a) (by simp [Meets, hstep])
    | some t =>
      have := Meets.decidable t as
      decidable_of_iff (guard s a ∧ Meets step guard t as) (by simp [Meets, hstep])

theorem Meets.and {as : List α} (h : Meets step guard s as) (h' : Meets step guard' s as) :
    Meets step (fun s a => guard s a ∧ guard' s a) s as := by
  induction as generalizing s with
  | nil => trivial
  | cons a as ih => exact ⟨⟨h.1, h'.1⟩, fun t ht => ih (h.2 t ht) (h'.2 t ht)⟩

/-- A guard that an invariant of the run implies is met by the run. -/
theorem meets_of_invariant {I : σ → Prop}
    (hstep : ∀ s a t, I s → guard s a → step s a = some t → I t)
    (himp : ∀ s a, I s → guard s a → guard' s a)
    {as : List α} (hmeets : Meets step guard s as) (hs : I s) : Meets step guard' s as := by
  induction as generalizing s with
  | nil => trivial
  | cons a as ih =>
    exact ⟨himp s a hs hmeets.1, fun t ht =>
      ih (hmeets.2 t ht) (hstep s a t hs hmeets.1 ht)⟩

/-- A run that breaks its guard has a first step that breaks it. -/
theorem exists_first_break {as : List α} (hrun : run step s as = some u)
    (hbreak : ¬ Meets step guard s as) :
    ∃ before a after t v, as = before ++ a :: after ∧ Meets step guard s before ∧
      run step s before = some t ∧ ¬ guard t a ∧ step t a = some v ∧
      run step v after = some u := by
  induction as generalizing s with
  | nil => exact absurd trivial hbreak
  | cons a as ih =>
    obtain ⟨m, ha, hm⟩ := run_cons_eq_some.mp hrun
    by_cases hg : guard s a
    · have hrest : ¬ Meets step guard m as := by
        intro hmeets
        refine hbreak ⟨hg, fun t ht => ?_⟩
        rw [ha] at ht
        cases ht
        exact hmeets
      obtain ⟨before, b, after, t, v, rfl, hbefore, ht, hb, hv, hafter⟩ := ih hm hrest
      refine ⟨a :: before, b, after, t, v, rfl, ⟨hg, ?_⟩, ?_, hb, hv, hafter⟩
      · intro x hx
        rw [ha] at hx
        cases hx
        exact hbefore
      · exact run_cons_eq_some.mpr ⟨m, ha, ht⟩
    · exact ⟨[], a, as, s, m, rfl, trivial, rfl, hg, ha, hm⟩

/-- Some run comes to a state with the property `P`. -/
def Reaches (step : σ → α → Option σ) (P : σ → Prop) (s : σ) : Prop :=
  ∃ as t, run step s as = some t ∧ P t

theorem Reaches.here {P : σ → Prop} (h : P s) : Reaches step P s := ⟨[], s, rfl, h⟩

theorem Reaches.of_run {P : σ → Prop} {as : List α} (hrun : run step s as = some t)
    (h : Reaches step P t) : Reaches step P s := by
  obtain ⟨bs, u, hbs, hu⟩ := h
  exact ⟨as ++ bs, u, run_append_eq_some.mpr ⟨t, hrun, hbs⟩, hu⟩

theorem Reaches.of_step {P : σ → Prop} {a : α} (ha : step s a = some t)
    (h : Reaches step P t) : Reaches step P s :=
  .of_run (run_singleton ha) h

/-- Forward simulation: when every step of the concrete system is matched by a run of the
abstract one, so is every run. -/
theorem run_simulation {step' : τ → β → Option τ} {R : σ → τ → Prop}
    (hstep : ∀ s a t s', R s s' → step s a = some t →
      ∃ bs t', run step' s' bs = some t' ∧ R t t')
    {as : List α} {s' : τ} (hrun : run step s as = some t) (hs : R s s') :
    ∃ bs t', run step' s' bs = some t' ∧ R t t' := by
  induction as generalizing s s' with
  | nil => cases hrun; exact ⟨[], s', rfl, hs⟩
  | cons a as ih =>
    obtain ⟨m, ha, hm⟩ := run_cons_eq_some.mp hrun
    obtain ⟨bs, m', hbs, hR⟩ := hstep s a m s' hs ha
    obtain ⟨cs, t', hcs, hR'⟩ := ih hm hR
    exact ⟨bs ++ cs, t', run_append_eq_some.mpr ⟨m', hbs, hcs⟩, hR'⟩

end PartialRun
