import TsKafka.Library.WriterLog
import Mathlib.Data.List.Sort

/-!
# A log in partitions, and a reader of it

Entries are appended to the partitions `π` of one log, and a reader takes them out, from each
partition one after the other from a position on and in any order across the partitions. What it
has taken from a partition is always a piece of that partition, without a gap or a repetition; and
when the entries of each partition carry ascending numbers, so do the taken ones.
-/

namespace PartitionedLog
open WriterLog

variable {π ε δ : Type*}

/-- The entries in the order in which they were appended, and what a reader has taken of them.
`position p` is the place in partition `p` of the entry that is taken from it next. -/
structure Partitions (π ε : Type*) where
  entries : List (π × ε)
  position : π → ℕ
  taken : List (π × ε)

namespace Partitions

/-- An empty log; `position` is where the reader is going to begin. -/
def empty (position : π → ℕ) : Partitions π ε := ⟨[], position, []⟩

/-- `e` is appended to partition `p`. -/
def append (s : Partitions π ε) (p : π) (e : ε) : Partitions π ε :=
  { s with entries := s.entries ++ [(p, e)] }

variable [DecidableEq π]

/-- The log of partition `p`. -/
def log (s : Partitions π ε) (p : π) : List ε := byWriter p s.entries

/-- The entry `e` is taken from partition `p`. -/
def took (s : Partitions π ε) (p : π) (e : ε) : Partitions π ε :=
  { s with
    position := Function.update s.position p (s.position p + 1)
    taken := s.taken ++ [(p, e)] }

/-- The next entry of partition `p`. -/
def next (s : Partitions π ε) (p : π) : Option ε := (s.log p)[s.position p]?

@[simp] theorem log_append (s : Partitions π ε) (p q : π) (e : ε) :
    (s.append p e).log q = s.log q ++ if p = q then [e] else [] := by
  simp [log, append]

/-! ## What has been taken -/

/-- From each partition a piece has been taken, from `start` up to the position. -/
structure InOrder (start : π → ℕ) (s : Partitions π ε) : Prop where
  /-- The position is where the reader began, or there are entries up to it. -/
  position : ∀ p, s.position p = start p ∨ start p ≤ s.position p ∧ s.position p ≤ (s.log p).length
  taken : ∀ p, byWriter p s.taken = ((s.log p).take (s.position p)).drop (start p)

theorem InOrder.empty (start : π → ℕ) : InOrder start (Partitions.empty start : Partitions π ε) :=
  ⟨fun _ => .inl rfl, fun p => by simp [Partitions.empty, log]⟩

theorem InOrder.append {start : π → ℕ} {s : Partitions π ε} (h : s.InOrder start) (p : π) (e : ε) :
    (s.append p e).InOrder start := by
  constructor
  · intro q
    refine (h.position q).imp id ?_
    rintro ⟨hstart, hlength⟩
    rw [log_append, List.length_append]
    exact ⟨hstart, hlength.trans (Nat.le_add_right _ _)⟩
  · intro q
    show byWriter q s.taken = _
    rw [h.taken, log_append]
    show _ = ((s.log q ++ _).take (s.position q)).drop (start q)
    rcases h.position q with hstart | ⟨-, hlength⟩
    · rw [hstart, List.drop_take, List.drop_take, Nat.sub_self, List.take_zero, List.take_zero]
    · rw [List.take_append_of_le_length hlength]

theorem InOrder.took {start : π → ℕ} {s : Partitions π ε} (h : s.InOrder start) {p : π} {e : ε}
    (hnext : s.next p = some e) : (s.took p e).InOrder start := by
  obtain ⟨hlt, -⟩ := List.getElem?_eq_some_iff.mp hnext
  have hstart : start p ≤ s.position p := (h.position p).elim (fun heq => heq.ge) And.left
  constructor
  · intro q
    by_cases hq : q = p
    · subst hq
      refine .inr ?_
      simp only [Partitions.took, Function.update_self]
      exact ⟨hstart.trans (Nat.le_succ _), hlt⟩
    · simpa [Partitions.took, log, hq] using h.position q
  · intro q
    by_cases hq : q = p
    · subst hq
      have htake : (s.log q).take (s.position q + 1) = (s.log q).take (s.position q) ++ [e] := by
        rw [List.take_add_one]
        exact congrArg _ (congrArg Option.toList hnext)
      have hlength : start q ≤ ((s.log q).take (s.position q)).length := by
        rw [List.length_take]
        exact le_min hstart (hstart.trans hlt.le)
      simp only [Partitions.took, byWriter_append, byWriter_singleton, if_true,
        Function.update_self, h.taken]
      show _ = ((s.log q).take (s.position q + 1)).drop (start q)
      rw [htake, List.drop_append_of_le_length hlength]
    · simp only [Partitions.took, byWriter_append, byWriter_singleton, if_neg (Ne.symm hq),
        List.append_nil, Function.update_of_ne hq, h.taken]
      rfl

/-- What has been taken from a partition is part of it. -/
theorem InOrder.taken_sublist {start : π → ℕ} {s : Partitions π ε} (h : s.InOrder start) (p : π) :
    (byWriter p s.taken).Sublist (s.log p) := by
  rw [h.taken]
  exact (List.drop_sublist _ _).trans (List.take_sublist _ _)

/-- A partition that is read from its beginning to its end has been taken as a whole. -/
theorem InOrder.taken_eq_log {start : π → ℕ} {s : Partitions π ε} (h : s.InOrder start) {p : π}
    (hstart : start p = 0) (hend : s.position p = (s.log p).length) :
    byWriter p s.taken = s.log p := by
  rw [h.taken, hstart, hend, List.take_length, List.drop_zero]

end Partitions

/-! ## Numbered entries -/

section Numbered

variable [DecidableEq π]

theorem mem_byWriter {p : π} {e : ε} {items : List (π × ε)} :
    e ∈ byWriter p items ↔ (p, e) ∈ items := by
  simp only [byWriter, List.mem_filterMap, Prod.exists]
  constructor
  · rintro ⟨q, d, hmem, heq⟩
    split at heq
    · subst q
      cases heq
      exact hmem
    · cases heq
  · intro hmem
    exact ⟨p, e, hmem, if_pos rfl⟩

/-- A number that occurs once in the log is taken at most once. -/
theorem nodup_filterMap_of_byWriter [DecidableEq ε] {xs ys : List (π × ε)} (f : π × ε → Option δ)
    (h : ∀ p, (byWriter p xs).Sublist (byWriter p ys)) (hys : (ys.filterMap f).Nodup) :
    (xs.filterMap f).Nodup := by
  obtain ⟨zs, hperm, hsublist⟩ := subperm_filterMap f (subperm_of_byWriter h)
  exact hperm.nodup_iff.mp (hys.sublist hsublist)

end Numbered

/-- Ascending numbers below `n`, in order, are part of all of them. -/
theorem sublist_range {numbers : List ℕ} {n : ℕ} (hascending : numbers.Pairwise (· < ·))
    (hbound : ∀ i ∈ numbers, i < n) : numbers.Sublist (List.range n) := by
  apply List.sublist_of_subperm_of_pairwise (r := (· < ·)) _ hascending List.pairwise_lt_range
  exact List.subperm_of_subset (hascending.imp Nat.ne_of_lt) fun i hi =>
    List.mem_range.mpr (hbound i hi)

theorem filterMap_getElem?_range (items : List δ) :
    (List.range items.length).filterMap (items[·]?) = items := by
  induction items with
  | nil => rfl
  | cons d rest ih =>
    have hhead : (fun i => (d :: rest)[i]?) 0 = some d := rfl
    rw [List.length_cons, List.range_succ_eq_map, List.filterMap_cons_some hhead,
      List.filterMap_map]
    exact congrArg (d :: ·) ih

/-- What is found under ascending numbers comes in the order of the numbers. -/
theorem filterMap_getElem?_sublist (items : List δ) {numbers : List ℕ}
    (hascending : numbers.Pairwise (· < ·)) (hbound : ∀ i ∈ numbers, i < items.length) :
    (numbers.filterMap (items[·]?)).Sublist items := by
  have hsublist := (sublist_range hascending hbound).filterMap (items[·]?)
  rwa [filterMap_getElem?_range] at hsublist

/-- What is found under different numbers are different places of the list. -/
theorem filterMap_getElem?_subperm (items : List δ) {numbers : List ℕ} (hnodup : numbers.Nodup)
    (hbound : ∀ i ∈ numbers, i < items.length) :
    (numbers.filterMap (items[·]?)).Subperm items := by
  have hrange : numbers.Subperm (List.range items.length) :=
    hnodup.subperm fun i hi => List.mem_range.mpr (hbound i hi)
  have hsubperm := subperm_filterMap (items[·]?) hrange
  rwa [filterMap_getElem?_range] at hsubperm

/-- Numbered items are what is found under their numbers. -/
theorem map_eq_filterMap_getElem? (f : δ × ℕ → ε) {xs : List δ} {items : List (δ × ℕ)}
    (h : items ⊆ xs.zipIdx) :
    items.map f = (items.map Prod.snd).filterMap fun k => (xs.zipIdx.map f)[k]? := by
  rw [List.filterMap_map, ← List.filterMap_eq_map]
  apply List.filterMap_congr
  intro item hitem
  have hmem : xs[item.2]? = some item.1 := List.mem_zipIdx_iff_getElem?.mp (h hitem)
  simp [hmem]

/-- A part of a numbered list, with its numbers. -/
theorem subperm_numbered (f : δ × ℕ → ε) {xs : List δ} {ys : List ε}
    (h : ys.Subperm (xs.zipIdx.map f)) :
    ∃ items : List (δ × ℕ), ys = items.map f ∧ items ⊆ xs.zipIdx ∧
      (items.map Prod.snd).Subperm (List.range xs.length) := by
  obtain ⟨zs, hperm, hsublist⟩ := h
  obtain ⟨chosen, hchosen, rfl⟩ := List.sublist_map_iff.mp hsublist
  -- the same items in the order of `ys`
  have hmap : List.Forall₂ (fun e item => e = f item) (chosen.map f) chosen :=
    List.forall₂_map_left_iff.mpr (List.forall₂_same.mpr fun _ _ => rfl)
  obtain ⟨items, hitems, hsame⟩ := List.perm_comp_forall₂ hperm.symm hmap
  refine ⟨items, ?_, fun item hitem => hchosen.subset (hsame.subset hitem), ?_⟩
  · have heq := List.forall₂_map_right_iff.mpr hitems
    rwa [List.forall₂_eq_eq_eq] at heq
  · rw [List.range_eq_range', ← List.zipIdx_map_snd]
    exact ((hsame.map Prod.snd).subperm).trans (hchosen.map _).subperm

/-- A part of a numbered list, in its order, with its numbers. -/
theorem sublist_numbered (f : δ × ℕ → ε) {xs : List δ} {ys : List ε}
    (h : ys.Sublist (xs.zipIdx.map f)) :
    ∃ items : List (δ × ℕ), ys = items.map f ∧
      (items.map Prod.snd).Sublist (List.range xs.length) ∧
      ys = (items.map Prod.snd).filterMap fun k => (xs.zipIdx.map f)[k]? := by
  obtain ⟨items, hitems, rfl⟩ := List.sublist_map_iff.mp h
  refine ⟨items, rfl, ?_, ?_⟩
  · rw [List.range_eq_range', ← List.zipIdx_map_snd]
    exact hitems.map _
  · exact map_eq_filterMap_getElem? f hitems.subset

end PartitionedLog
