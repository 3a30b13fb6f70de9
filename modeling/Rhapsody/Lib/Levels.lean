import Mathlib

/-! Queues held in numbered levels, as a scheduler or an event wheel keeps them:
the highest level in use and the number of members over all levels. -/

namespace Rhapsody.Lib.Levels

open List Function

variable {α : Type*}

def highest (q : ℕ → List α) : ℕ → Option ℕ
  | 0 => if (q 0).isEmpty then none else some 0
  | n + 1 => if (q (n + 1)).isEmpty then highest q n else some (n + 1)

variable {i n : ℕ} {q : ℕ → List α}

lemma highest_spec (h : highest q n = some i) :
    i ≤ n ∧ q i ≠ [] ∧ ∀ l, i < l → l ≤ n → q l = [] := by
  induction n with
  | zero =>
    rw [highest] at h
    split at h
    · cases h
    next hq =>
      cases h
      exact ⟨le_rfl, fun hnil => hq (isEmpty_iff.2 hnil), by omega⟩
  | succ n ih =>
    rw [highest] at h
    split at h
    next hq =>
      obtain ⟨hle, hi, habove⟩ := ih h
      refine ⟨hle.trans n.le_succ, hi, ?_⟩
      intro l hil hln
      rcases Nat.lt_or_eq_of_le hln with hlt | rfl
      · exact habove l hil (Nat.le_of_lt_succ hlt)
      · exact isEmpty_iff.1 hq
    next hq =>
      cases h
      exact ⟨le_rfl, fun hnil => hq (isEmpty_iff.2 hnil), by omega⟩

lemma exists_highest {l : ℕ} (hl : q l ≠ []) (hle : l ≤ n) : ∃ i, highest q n = some i := by
  have hne : (q l).isEmpty = false := by simpa using hl
  induction n with
  | zero =>
    obtain rfl : l = 0 := by omega
    exact ⟨0, by simp [highest, hne]⟩
  | succ n ih =>
    rw [highest]
    split
    next hq =>
      refine ih (Nat.le_of_lt_succ (lt_of_le_of_ne hle ?_))
      rintro rfl
      simp [hne] at hq
    · exact ⟨n + 1, rfl⟩

def members (q : ℕ → List α) (n : ℕ) : List α := (List.range n).flatMap q

lemma mem_members {a : α} : a ∈ members q n ↔ ∃ l < n, a ∈ q l := by
  simp [members]

lemma length_members (q : ℕ → List α) (n : ℕ) :
    (members q n).length = ∑ l ∈ Finset.range n, (q l).length := by
  rw [members, length_flatMap]
  induction n with
  | zero => rfl
  | succ n ih => rw [range_succ, map_append, sum_append, ih,
      Finset.sum_range_succ, map_singleton, sum_singleton]

lemma length_members_update (q : ℕ → List α) (hi : i < n) (xs : List α) :
    (members (update q i xs) n).length + (q i).length = (members q n).length + xs.length := by
  have hmem : i ∈ Finset.range n := Finset.mem_range.2 hi
  rw [length_members, length_members, ← Finset.add_sum_erase _ _ hmem,
    ← Finset.add_sum_erase (Finset.range n) (fun l => (q l).length) hmem]
  have hrest : ∑ l ∈ (Finset.range n).erase i, (update q i xs l).length =
      ∑ l ∈ (Finset.range n).erase i, (q l).length := by
    refine Finset.sum_congr rfl fun l hl => ?_
    rw [update_of_ne (Finset.ne_of_mem_erase hl)]
  rw [hrest, update_self]
  omega

lemma length_members_succ (q : ℕ → List α) (n : ℕ) :
    (members q (n + 1)).length = (members q n).length + (q n).length := by
  rw [length_members, length_members, Finset.sum_range_succ]

lemma length_members_of_le {m : ℕ} (hmn : m ≤ n) (hnil : ∀ l, m ≤ l → q l = []) :
    (members q n).length = (members q m).length := by
  induction n, hmn using Nat.le_induction with
  | base => rfl
  | succ n hmn ih => rw [length_members_succ, ih, hnil n hmn, length_nil, add_zero]

lemma length_members_congr {q' : ℕ → List α} (h : ∀ l < n, q' l = q l) :
    (members q' n).length = (members q n).length := by
  rw [length_members, length_members]
  refine Finset.sum_congr rfl fun l hl => ?_
  rw [h l (Finset.mem_range.1 hl)]

end Rhapsody.Lib.Levels
