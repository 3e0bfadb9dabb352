import TsKafka.Library.PartialRun
import Mathlib.Data.List.Perm.Subperm

/-!
# A log with several writers

Writers append to one log. The abstract store performs each write as one operation, which either
adds its entry or adds nothing, and remembers every operation with its result. Its log is always
the entries of the operations that were taken, in the order in which they were performed. The
part `byWriter w` of the log is then the taken writes of writer `w`, in its own order.
-/

namespace WriterLog
open PartialRun

variable {ω δ ε ρ : Type*}

/-! ## The abstract store -/

/-- A completed write: what was given, and the result. -/
structure Write (δ ρ : Type*) where
  datum : δ
  result : ρ

/-- What a write adds: its encoded datum when the result says that it was taken. -/
def Write.entry (enc : δ → ε) (taken : ρ → Bool) (write : Write δ ρ) : Option ε :=
  if taken write.result then some (enc write.datum) else none

/-- The log and the operations performed on it. -/
structure Store (ω δ ε ρ : Type*) where
  entries : List (ω × ε)
  performed : List (ω × Write δ ρ)

/-- No operation performed yet. -/
def Store.empty : Store ω δ ε ρ := ⟨[], []⟩

/-- One write, as a single step. -/
def Store.perform (enc : δ → ε) (taken : ρ → Bool) (s : Store ω δ ε ρ)
    (op : ω × Write δ ρ) : Option (Store ω δ ε ρ) :=
  some ⟨s.entries ++ ((op.2.entry enc taken).map fun e => (op.1, e)).toList,
    s.performed ++ [op]⟩

/-- The log holds the entries of the performed writes and nothing else. -/
def Store.Exact (enc : δ → ε) (taken : ρ → Bool) (s : Store ω δ ε ρ) : Prop :=
  s.entries =
    s.performed.filterMap fun op => (op.2.entry enc taken).map fun e => (op.1, e)

theorem Store.exact_perform {enc : δ → ε} {taken : ρ → Bool} (s : Store ω δ ε ρ)
    (op : ω × Write δ ρ) (t : Store ω δ ε ρ) (hs : s.Exact enc taken)
    (h : s.perform enc taken op = some t) : t.Exact enc taken := by
  cases h
  unfold Store.Exact at hs ⊢
  simp only [hs, List.filterMap_append]
  cases h : op.2.entry enc taken <;> simp [h]

/-! ## The part of one writer -/

section ByWriter
variable [DecidableEq ω]

/-- The items of writer `w`, in order. -/
def byWriter (w : ω) (items : List (ω × ε)) : List ε :=
  items.filterMap fun item => if item.1 = w then some item.2 else none

@[simp] theorem byWriter_nil (w : ω) : byWriter w ([] : List (ω × ε)) = [] := rfl

@[simp] theorem byWriter_append (w : ω) (xs ys : List (ω × ε)) :
    byWriter w (xs ++ ys) = byWriter w xs ++ byWriter w ys := by
  simp [byWriter]

@[simp] theorem byWriter_singleton (w v : ω) (e : ε) :
    byWriter w [(v, e)] = if v = w then [e] else [] := by
  by_cases h : v = w <;> simp [byWriter, h]

/-- Items that one writer adds. -/
theorem byWriter_map_pair (w v : ω) (es : List ε) :
    byWriter w (es.map fun e => (v, e)) = if v = w then es else [] := by
  induction es with
  | nil => simp
  | cons e es ih =>
    have hcons : byWriter w ((v, e) :: es.map fun e => (v, e)) =
        byWriter w [(v, e)] ++ byWriter w (es.map fun e => (v, e)) := byWriter_append w [(v, e)] _
    rw [List.map_cons, hcons, byWriter_singleton, ih]
    split <;> rfl

theorem count_byWriter [DecidableEq ε] (w : ω) (e : ε) (items : List (ω × ε)) :
    (byWriter w items).count e = items.count (w, e) := by
  induction items with
  | nil => rfl
  | cons item rest ih =>
    obtain ⟨v, d⟩ := item
    have hcons : byWriter w ((v, d) :: rest) = byWriter w [(v, d)] ++ byWriter w rest :=
      byWriter_append w [(v, d)] rest
    rw [hcons, List.count_append, ih, byWriter_singleton, List.count_cons]
    by_cases hv : v = w
    · subst hv
      by_cases hd : d = e <;> simp [hd, Nat.add_comm]
    · simp [hv]

/-- A log whose parts are contained in another's parts is contained in it, item by item. -/
theorem subperm_of_byWriter [DecidableEq ε] {xs ys : List (ω × ε)}
    (h : ∀ w, (byWriter w xs).Sublist (byWriter w ys)) : xs.Subperm ys := by
  rw [List.subperm_ext_iff]
  rintro ⟨w, e⟩ -
  rw [← count_byWriter, ← count_byWriter]
  exact (h w).count_le e

theorem subperm_map {xs ys : List δ} (f : δ → ε) (h : xs.Subperm ys) :
    (xs.map f).Subperm (ys.map f) := by
  obtain ⟨zs, hperm, hsublist⟩ := h
  exact ⟨zs.map f, hperm.map f, hsublist.map f⟩

theorem subperm_filterMap {xs ys : List δ} (f : δ → Option ε) (h : xs.Subperm ys) :
    (xs.filterMap f).Subperm (ys.filterMap f) := by
  obtain ⟨zs, hperm, hsublist⟩ := h
  exact ⟨zs.filterMap f, hperm.filterMap f, hsublist.filterMap f⟩

/-- Selecting a writer commutes with selecting and mapping items by their content. -/
theorem byWriter_filterMap (w : ω) (f : δ → Option ε) (items : List (ω × δ)) :
    byWriter w (items.filterMap fun item => (f item.2).map fun e => (item.1, e)) =
      (byWriter w items).filterMap f := by
  induction items with
  | nil => rfl
  | cons item rest ih =>
    obtain ⟨v, d⟩ := item
    cases h : f d with
    | none => by_cases hv : v = w <;> simpa [byWriter, h, hv] using ih
    | some e => by_cases hv : v = w <;> simpa [byWriter, h, hv] using ih

/-- In every run, the entries of one writer are its taken writes, in order. -/
theorem Store.byWriter_entries {enc : δ → ε} {taken : ρ → Bool} {ops : List (ω × Write δ ρ)}
    {s : Store ω δ ε ρ} (h : run (Store.perform enc taken) Store.empty ops = some s) (w : ω) :
    byWriter w s.entries = (byWriter w s.performed).filterMap (Write.entry enc taken) := by
  have hexact : s.Exact enc taken := run_invariant Store.exact_perform h rfl
  rw [hexact, byWriter_filterMap]

end ByWriter

end WriterLog
