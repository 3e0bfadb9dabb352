import Mathlib.Logic.Function.Basic
import Mathlib.Data.List.Basic

/-!
# Successive writes to named places

A store holds a value for some of its names. Writing a list of named values in turn leaves, at each
name, the last value written to it, or what was there before when none was.
-/

namespace Overwrite

variable {κ ν : Type*} [DecidableEq κ]

/-- The store after the writes, in order. -/
def writeAll (store : κ → Option ν) (writes : List (κ × ν)) : κ → Option ν :=
  writes.foldl (fun store w => Function.update store w.1 (some w.2)) store

/-- The last value that is written to `k`. -/
def lastWrite : List (κ × ν) → κ → Option ν
  | [], _ => none
  | w :: rest, k => (lastWrite rest k).or (if w.1 = k then some w.2 else none)

variable {store : κ → Option ν} {xs ys writes : List (κ × ν)} {k : κ}

theorem writeAll_apply (store : κ → Option ν) (writes : List (κ × ν)) (k : κ) :
    writeAll store writes k = (lastWrite writes k).or (store k) := by
  induction writes generalizing store with
  | nil => rfl
  | cons w rest ih =>
    have hstep : writeAll store (w :: rest) k =
      writeAll (Function.update store w.1 (some w.2)) rest k := rfl
    rw [hstep, ih, lastWrite]
    by_cases h : w.1 = k
    · subst h
      cases lastWrite rest w.1 <;> simp
    · rw [Function.update_of_ne (Ne.symm h), if_neg h, Option.or_none]

theorem writeAll_append (store : κ → Option ν) (xs ys : List (κ × ν)) :
    writeAll store (xs ++ ys) = writeAll (writeAll store xs) ys :=
  List.foldl_append

theorem lastWrite_append (xs ys : List (κ × ν)) (k : κ) :
    lastWrite (xs ++ ys) k = (lastWrite ys k).or (lastWrite xs k) := by
  induction xs with
  | nil => simp [lastWrite]
  | cons w rest ih => rw [List.cons_append, lastWrite, ih, lastWrite, Option.or_assoc]

theorem lastWrite_eq_none : lastWrite writes k = none ↔ ∀ w ∈ writes, w.1 ≠ k := by
  induction writes with
  | nil => simp [lastWrite]
  | cons w rest ih =>
    rw [lastWrite, Option.or_eq_none_iff, ih, List.forall_mem_cons, and_comm]
    by_cases h : w.1 = k <;> simp [h]

/-- A write that no later one covers is the last. -/
theorem lastWrite_append_cons (w : κ × ν) (hys : ∀ u ∈ ys, u.1 ≠ w.1) :
    lastWrite (xs ++ w :: ys) w.1 = some w.2 := by
  rw [lastWrite_append, lastWrite, lastWrite_eq_none.mpr hys]
  simp

/-- With one write to each name, every write is the last one. -/
theorem lastWrite_of_mem (hnodup : (writes.map Prod.fst).Nodup) {w : κ × ν} (hw : w ∈ writes) :
    lastWrite writes w.1 = some w.2 := by
  induction writes with
  | nil => cases hw
  | cons v rest ih =>
    obtain ⟨hv, hrest⟩ := List.nodup_cons.mp hnodup
    rw [lastWrite]
    rcases List.mem_cons.mp hw with rfl | hw
    · have hnone : lastWrite rest w.1 = none := by
        rw [lastWrite_eq_none]
        intro u hu hkey
        exact hv (List.mem_map.mpr ⟨u, hu, hkey⟩)
      simp [hnone]
    · rw [ih hrest hw]
      rfl

end Overwrite
