import Mathlib

/-! A first-in first-out queue whose deliveries are numbered, seen through the
events at its two ends. -/

namespace Rhapsody.Lib

variable {α ν : Type*}

inductive QueueEvent (α ν : Type*) where
  | accept (a : α)
  | deliver (a : α) (n : ν)
  | renumber (n : ν)
  deriving DecidableEq

namespace QueueEvent

def accepted (es : List (QueueEvent α ν)) : List α :=
  es.filterMap fun
    | accept a => some a
    | _ => none

def delivered (es : List (QueueEvent α ν)) : List (α × ν) :=
  es.filterMap fun
    | deliver a n => some (a, n)
    | _ => none

end QueueEvent

open QueueEvent

variable [AddMonoidWithOne ν]

/-- The events lead a queue that holds `q` and numbers its next delivery `n` to one with `q'` and
`n'`. -/
inductive Fifo : List α → ν → List (QueueEvent α ν) → List α → ν → Prop
  | nil (q n) : Fifo q n [] q n
  | accept {q n es q' n'} (a) (rest : Fifo (q ++ [a]) n es q' n') : Fifo q n (.accept a :: es) q' n'
  | deliver {q n es q' n'} (a) (rest : Fifo q (n + 1) es q' n') :
      Fifo (a :: q) n (.deliver a n :: es) q' n'
  | renumber {q n es q' n'} (k) (rest : Fifo q k es q' n') : Fifo q n (.renumber k :: es) q' n'

namespace Fifo

variable {q q1 q2 : List α} {n n1 n2 : ν} {es fs : List (QueueEvent α ν)}

lemma append (h : Fifo q n es q1 n1) (h' : Fifo q1 n1 fs q2 n2) : Fifo q n (es ++ fs) q2 n2 := by
  induction h with
  | nil => exact h'
  | accept a _ ih => exact .accept a (ih h')
  | deliver a _ ih => exact .deliver a (ih h')
  | renumber k _ ih => exact .renumber k (ih h')

lemma split (h : Fifo q n (es ++ fs) q2 n2) : ∃ q1 n1, Fifo q n es q1 n1 ∧ Fifo q1 n1 fs q2 n2 := by
  induction es generalizing q n with
  | nil => exact ⟨q, n, .nil q n, h⟩
  | cons e es ih =>
    cases h with
    | accept a rest =>
      obtain ⟨q1, n1, h1, h2⟩ := ih rest
      exact ⟨q1, n1, .accept a h1, h2⟩
    | deliver a rest =>
      obtain ⟨q1, n1, h1, h2⟩ := ih rest
      exact ⟨q1, n1, .deliver a h1, h2⟩
    | renumber k rest =>
      obtain ⟨q1, n1, h1, h2⟩ := ih rest
      exact ⟨q1, n1, .renumber k h1, h2⟩

lemma conserved (h : Fifo q n es q1 n1) : q ++ accepted es = (delivered es).map Prod.fst ++ q1 := by
  induction h with
  | nil => simp [accepted, delivered]
  | accept a _ ih | deliver a _ ih | renumber k _ ih => simpa [accepted, delivered] using ih

lemma numbered (h : Fifo q n es q1 n1) (hes : ∀ k, .renumber k ∉ es) : (delivered es).map Prod.snd =
      (List.range (delivered es).length).map fun i : ℕ => n + (i : ν) := by
  induction h with
  | nil => simp [delivered]
  | accept a _ ih => simpa [delivered] using ih fun k hk => hes k (by simp [hk])
  | renumber k => exact absurd (by simp) (hes k)
  | @deliver q n es q' n' a rest ih =>
    have hih := ih fun k hk => hes k (by simp [hk])
    have hcons : delivered (.deliver a n :: es) = (a, n) :: delivered es := rfl
    rw [hcons, List.map_cons, List.length_cons, List.range_succ_eq_map, hih]
    -- the number of the delivery after the first one counts from `n + 1`
    have hshift : ∀ i : ℕ, n + 1 + (i : ν) = n + ((i + 1 : ℕ) : ν) := by
      intro i
      rw [Nat.cast_succ, ← Nat.cast_one, add_assoc, ← Nat.cast_add, add_comm 1 i, Nat.cast_add]
    simp [hshift]

end Fifo

end Rhapsody.Lib
