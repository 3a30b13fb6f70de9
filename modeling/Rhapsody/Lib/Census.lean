import Mathlib

/-! A population kept as a list, counted by a property of its members: one member
changes, or leaves. Both are counted against the list without that member. -/

namespace Rhapsody.Census

open List

variable {α : Type*} {l : List α} {k : ℕ} {a : α} {p : α → Bool}

lemma length_eq (h : l[k]? = some a) : l.length = (l.eraseIdx k).length + 1 := by
  obtain ⟨hk, -⟩ := List.getElem?_eq_some_iff.1 h
  rw [length_eraseIdx_of_lt hk]
  omega

lemma perm (h : l[k]? = some a) : l.Perm (a :: l.eraseIdx k) := by
  obtain ⟨hk, rfl⟩ := List.getElem?_eq_some_iff.1 h
  exact (getElem_cons_eraseIdx_perm hk).symm

lemma perm_set (h : l[k]? = some a) (b : α) : (l.set k b).Perm (b :: l.eraseIdx k) := by
  obtain ⟨hk, rfl⟩ := List.getElem?_eq_some_iff.1 h
  have hset : (l.set k b)[k]? = some b := getElem?_set_self hk
  have hperm := perm hset
  rwa [eraseIdx_set_eq] at hperm

lemma countP_eq (p : α → Bool) (h : l[k]? = some a) :
    l.countP p = (l.eraseIdx k).countP p + if p a then 1 else 0 := by
  rw [(perm h).countP_eq, countP_cons]

lemma countP_set (p : α → Bool) (h : l[k]? = some a) (b : α) :
    (l.set k b).countP p = (l.eraseIdx k).countP p + if p b then 1 else 0 := by
  rw [(perm_set h b).countP_eq, countP_cons]

lemma map_set_eq {β : Type*} {f : α → β} {b : α} (h : l[k]? = some a) (hf : f b = f a) :
    (l.set k b).map f = l.map f := by
  obtain ⟨hk, rfl⟩ := List.getElem?_eq_some_iff.1 h
  rw [map_set, hf, ← getElem_map f, set_getElem_self]
  rwa [length_map]

end Rhapsody.Census
