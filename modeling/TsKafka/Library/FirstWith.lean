import Mathlib.Data.Seq.Basic

/-!
# The first element of a sequence with a property

`IsFirst p s n` says that element number `n` of the possibly infinite sequence `s` is the first
with the property `p`. A loop that leaves at the first such element looks at nothing behind it:
the rules below cut every longer part of the sequence there.
-/

namespace FirstWith
open Stream' (Seq)

variable {α : Type*}

/-- Element number `n` of `s` is the first with the property `p`. -/
def IsFirst (p : α → Prop) (s : Seq α) (n : Nat) : Prop :=
  (∃ a, s.get? n = some a ∧ p a) ∧ ∀ i < n, ∀ a, s.get? i = some a → ¬ p a

variable {p q : α → Prop} {s : Seq α} {m n : Nat}

/-- A sequence with an element that has the property has a first one. -/
theorem exists_isFirst {a : α} (hget : s.get? n = some a) (ha : p a) :
    ∃ m, m ≤ n ∧ IsFirst p s m := by
  classical
  have hex : ∃ m, ∃ a, s.get? m = some a ∧ p a := ⟨n, a, hget, ha⟩
  refine ⟨Nat.find hex, Nat.find_le ⟨a, hget, ha⟩, Nat.find_spec hex, ?_⟩
  intro i hi b hb hpb
  exact Nat.find_min hex hi ⟨b, hb, hpb⟩

/-- Nothing with the property comes before the first one. -/
theorem IsFirst.le (h : IsFirst p s m) {a : α} (hget : s.get? n = some a) (ha : p a) :
    m ≤ n := by
  by_contra hlt
  exact h.2 n (by omega) a hget ha

/-- The first with one of two properties is the first with one of them, and the first with the
other, if there is one, does not come before it. -/
theorem isFirst_or : IsFirst (fun a => p a ∨ q a) s m ↔
    (IsFirst p s m ∧ ∀ k, IsFirst q s k → m ≤ k) ∨
      (IsFirst q s m ∧ ∀ k, IsFirst p s k → m ≤ k) := by
  constructor
  · intro h
    obtain ⟨⟨a, hget, ha⟩, hbefore⟩ := id h
    rcases ha with ha | ha
    · left
      refine ⟨⟨⟨a, hget, ha⟩, fun i hi b hb hpb => hbefore i hi b hb (.inl hpb)⟩, ?_⟩
      rintro k ⟨⟨b, hb, hqb⟩, -⟩
      exact h.le hb (.inr hqb)
    · right
      refine ⟨⟨⟨a, hget, ha⟩, fun i hi b hb hqb => hbefore i hi b hb (.inr hqb)⟩, ?_⟩
      rintro k ⟨⟨b, hb, hpb⟩, -⟩
      exact h.le hb (.inl hpb)
  · rintro (⟨hp, hq⟩ | ⟨hq, hp⟩)
    · obtain ⟨⟨a, hget, ha⟩, hbefore⟩ := hp
      refine ⟨⟨a, hget, .inl ha⟩, ?_⟩
      rintro i hi b hb (hpb | hqb)
      · exact hbefore i hi b hb hpb
      · obtain ⟨k, hk, hfirst⟩ := exists_isFirst hb hqb
        have := hq k hfirst
        omega
    · obtain ⟨⟨a, hget, ha⟩, hbefore⟩ := hq
      refine ⟨⟨a, hget, .inr ha⟩, ?_⟩
      rintro i hi b hb (hpb | hqb)
      · obtain ⟨k, hk, hfirst⟩ := exists_isFirst hb hpb
        have := hp k hfirst
        omega
      · exact hbefore i hi b hb hqb

/-- A longer part of a sequence starts with each shorter one. -/
theorem take_take (h : m ≤ n) : (s.take n).take m = s.take m := by
  apply List.ext_getElem?
  intro i
  by_cases hi : i < m
  · rw [List.getElem?_take_of_lt hi, Seq.getElem?_take, Seq.getElem?_take, if_pos hi,
      if_pos (by omega)]
  · rw [List.getElem?_eq_none (by rw [List.length_take]; omega), Seq.getElem?_take, if_neg hi]

/-- The part before the first element with the property has none with it. -/
theorem IsFirst.not_mem_take (h : IsFirst p s m) : ∀ a ∈ s.take m, ¬ p a := by
  intro a ha
  obtain ⟨i, hi⟩ := List.getElem?_of_mem ha
  rw [Seq.getElem?_take] at hi
  split at hi
  · rename_i hlt
    exact h.2 i hlt a hi
  · cases hi

/-- Up to an element that is there, the sequence is there. -/
theorem length_take_of_get? {a : α} (hget : s.get? m = some a) :
    (s.take (m + 1)).length = m + 1 := by
  apply Nat.le_antisymm Seq.length_take_le
  have hat : (s.take (m + 1))[m]? = some a := by
    rw [Seq.getElem?_take, if_pos (by omega), hget]
  exact (List.getElem?_eq_some_iff.mp hat).1

/-- The cut behind an element that is there. -/
theorem take_eq_of_get? {a : α} (hget : s.get? m = some a) (hlt : m < n) :
    s.take n = s.take m ++ a :: (s.take n).drop (m + 1) := by
  have hat : (s.take n)[m]? = some a := by
    rw [Seq.getElem?_take, if_pos hlt, hget]
  obtain ⟨hlen, hat⟩ := List.getElem?_eq_some_iff.mp hat
  rw [← take_take (Nat.le_of_lt hlt), ← hat, List.getElem_cons_drop, List.take_append_drop]

theorem take_succ_of_get? {a : α} (hget : s.get? m = some a) :
    s.take (m + 1) = s.take m ++ [a] := by
  have hcut := take_eq_of_get? hget (Nat.lt_succ_self m)
  rwa [List.drop_eq_nil_of_le (Nat.le_of_eq (length_take_of_get? hget))] at hcut

/-- A part without the property, when no element of it has it. -/
theorem forall_mem_take (h : ∀ m, m < n → ¬ IsFirst p s m) : ∀ a ∈ s.take n, ¬ p a := by
  intro a ha hpa
  obtain ⟨i, hi⟩ := List.getElem?_of_mem ha
  rw [Seq.getElem?_take] at hi
  split at hi
  · obtain ⟨m, hm, hfirst⟩ := exists_isFirst hi hpa
    exact h m (by omega) hfirst
  · cases hi

end FirstWith
