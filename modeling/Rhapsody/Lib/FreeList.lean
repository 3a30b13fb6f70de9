import Mathlib

/-! Lists threaded through an array: each cell names the next one, the list starts at
what cell 0 names and ends with the name 0. -/

namespace Rhapsody.Lib

open List Function

def Linked (next : ℕ → ℕ) : ℕ → List ℕ → Prop
  | i, [] => i = 0
  | i, x :: xs => i = x ∧ x ≠ 0 ∧ Linked next (next x) xs

structure Threads (next : ℕ → ℕ) (xs : List ℕ) : Prop where
  linked : Linked next (next 0) xs
  nodup : xs.Nodup

/-- The cell that names `y`, searched for from `i` in at most `fuel` steps. -/
def predecessor (next : ℕ → ℕ) (y : ℕ) : ℕ → ℕ → ℕ
  | 0, i => i
  | fuel + 1, i => if next i = y then i else predecessor next y fuel (next i)

variable {next next' : ℕ → ℕ} {i y : ℕ} {xs ys : List ℕ}

lemma Linked.zero_notMem (h : Linked next i xs) : 0 ∉ xs := by
  induction xs generalizing i with
  | nil => simp
  | cons x xs ih =>
    obtain ⟨-, hx, htail⟩ := h
    simpa using ⟨hx.symm, ih htail⟩

lemma Linked.congr (h : Linked next i xs) (hnext : ∀ x ∈ xs, next' x = next x) :
    Linked next' i xs := by
  induction xs generalizing i with
  | nil => exact h
  | cons x xs ih =>
    obtain ⟨hi, hx, htail⟩ := h
    refine ⟨hi, hx, ?_⟩
    rw [hnext x (by simp)]
    exact ih htail fun z hz => hnext z (by simp [hz])

lemma predecessor_linked {fuel : ℕ} (h : Linked next (next i) (xs ++ y :: ys))
    (hnodup : (xs ++ y :: ys).Nodup) (hfuel : xs.length < fuel) :
    predecessor next y fuel i = (i :: xs).getLast (by simp) := by
  induction xs generalizing i fuel with
  | nil =>
    obtain _ | fuel := fuel
    · omega
    simp [predecessor, h.1]
  | cons x xs ih =>
    obtain _ | fuel := fuel
    · omega
    obtain ⟨hi, -, htail⟩ := h
    rw [cons_append, nodup_cons] at hnodup
    have hne : next i ≠ y := by
      rintro rfl
      exact hnodup.1 (by simp [hi])
    rw [predecessor, if_neg hne, hi, ih htail hnodup.2 (by simpa using hfuel)]
    rfl

lemma Linked.unlink (h : Linked next (next i) (xs ++ y :: ys))
    (hnodup : (i :: (xs ++ y :: ys)).Nodup) :
    Linked (update next ((i :: xs).getLast (by simp)) (next y))
      (update next ((i :: xs).getLast (by simp)) (next y) i) (xs ++ ys) := by
  induction xs generalizing i with
  | nil =>
    obtain ⟨-, -, htail⟩ := h
    simp only [nil_append, nodup_cons, mem_cons, not_or] at hnodup
    simp only [getLast_singleton, update_self, nil_append]
    refine htail.congr fun z hz => update_of_ne ?_ _ _
    rintro rfl
    exact hnodup.1.2 hz
  | cons x xs ih =>
    obtain ⟨hi, hx, htail⟩ := h
    rw [cons_append, nodup_cons] at hnodup
    have hne : i ≠ (x :: xs).getLast (by simp) := by
      intro hlast
      have hmem : i ∈ x :: xs := hlast ▸ getLast_mem _
      exact hnodup.1 (by simpa using Or.imp_right .inl (mem_cons.1 hmem))
    rw [getLast_cons (by simp), update_of_ne hne]
    exact ⟨hi, hx, ih htail hnodup.2⟩

namespace Threads

section
variable (h : Threads next xs)
include h

lemma zero_notMem : 0 ∉ xs := h.linked.zero_notMem

lemma congr (hzero : next' 0 = next 0) (hnext : ∀ x ∈ xs, next' x = next x) : Threads next' xs :=
  ⟨hzero ▸ h.linked.congr hnext, h.nodup⟩

lemma eq_cons (hzero : next 0 ≠ 0) : ∃ ys, xs = next 0 :: ys := by
  cases xs with
  | nil => exact absurd h.linked hzero
  | cons x xs => exact ⟨xs, by rw [h.linked.1]⟩

lemma push (hi : i ≠ 0) (hmem : i ∉ xs) (hzero : next' 0 = i) (hnew : next' i = next 0)
    (hnext : ∀ x ∈ xs, next' x = next x) : Threads next' (i :: xs) := by
  refine ⟨⟨hzero, hi, ?_⟩, nodup_cons.2 ⟨hmem, h.nodup⟩⟩
  rw [hnew]
  exact h.linked.congr hnext

lemma length_le {n : ℕ} (hlt : ∀ x ∈ xs, x < n) : xs.length ≤ n := by
  have hsub : xs ⊆ range n := fun x hx => mem_range.2 (hlt x hx)
  simpa using (h.nodup.subperm hsub).length_le

end

lemma pred_eq {fuel : ℕ} (h : Threads next (xs ++ y :: ys)) (hfuel : xs.length < fuel) :
    predecessor next y fuel 0 = (0 :: xs).getLast (by simp) :=
  predecessor_linked h.linked h.nodup hfuel

lemma unlink (h : Threads next (xs ++ y :: ys)) :
    Threads (update next ((0 :: xs).getLast (by simp)) (next y)) (xs ++ ys) := by
  refine ⟨h.linked.unlink (nodup_cons.2 ⟨h.zero_notMem, h.nodup⟩), ?_⟩
  exact h.nodup.sublist (List.Sublist.append_left (sublist_cons_self _ _) _)

end Threads

end Rhapsody.Lib
