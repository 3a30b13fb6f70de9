import Mathlib

/-! Circular doubly linked lists, with no head: every cell links to the one after it and to
the one before it, and a cell on its own links to itself. -/

namespace Rhapsody

open List Function

variable {α : Type*}

structure Links (α : Type*) where
  fwd : α → α
  bwd : α → α

namespace Links

section

variable [DecidableEq α]

def insque (L : Links α) (n a : α) : Links α where
  fwd := update (update L.fwd n (L.fwd a)) a n
  bwd := update (update L.bwd n a) (L.fwd a) n

def remque (L : Links α) (e : α) : Links α where
  fwd := update L.fwd (L.bwd e) (L.fwd e)
  bwd := update L.bwd (L.fwd e) (L.bwd e)

end

def Path (L : Links α) : α → List α → α → Prop
  | a, [], b => L.fwd a = b ∧ L.bwd b = a
  | a, x :: l, b => L.fwd a = x ∧ L.bwd x = a ∧ L.Path x l b

/-- The ring through `a`, with `l` the other cells from `a` on. -/
structure Ring (L : Links α) (a : α) (l : List α) : Prop where
  path : L.Path a l a
  nodup : (a :: l).Nodup

variable {L L' : Links α} {a b n x : α} {l l1 l2 : List α}

lemma Path.congr (h : L.Path a l b) (hfwd : ∀ y ∈ a :: l, L'.fwd y = L.fwd y)
    (hbwd : ∀ y ∈ b :: l, L'.bwd y = L.bwd y) : L'.Path a l b := by
  induction l generalizing a with
  | nil => exact ⟨(hfwd a (by simp)).trans h.1, (hbwd b (by simp)).trans h.2⟩
  | cons x l ih =>
    obtain ⟨hx, hax, hrest⟩ := h
    refine ⟨(hfwd a (by simp)).trans hx, (hbwd x (by simp)).trans hax, ih hrest ?_ ?_⟩
    · intro y hy
      exact hfwd y (mem_cons_of_mem a hy)
    intro y hy
    apply hbwd y
    rcases mem_cons.1 hy with rfl | hy
    · exact mem_cons_self
    · exact mem_cons_of_mem b (mem_cons_of_mem x hy)

lemma path_append : L.Path a (l1 ++ x :: l2) b ↔ L.Path a l1 x ∧ L.Path x l2 b := by
  induction l1 generalizing a with
  | nil => exact and_assoc.symm
  | cons y l1 ih =>
    show _ ∧ _ ∧ L.Path y (l1 ++ x :: l2) b ↔ (_ ∧ _ ∧ _) ∧ _
    rw [ih, and_assoc, and_assoc]

lemma Path.fwd_mem (h : L.Path a l b) : L.fwd a ∈ b :: l := by
  cases l with
  | nil =>
    rw [h.1]
    exact mem_cons_self
  | cons x l =>
    rw [h.1]
    exact mem_cons_of_mem b mem_cons_self

lemma Path.bwd_mem (h : L.Path a l b) : L.bwd b ∈ a :: l := by
  induction l generalizing a with
  | nil =>
    rw [h.2]
    exact mem_cons_self
  | cons x l ih => exact mem_cons_of_mem a (ih h.2.2)

namespace Ring

lemma rotate (h : L.Ring a (l1 ++ x :: l2)) : L.Ring x (l2 ++ a :: l1) := by
  obtain ⟨hpath, hnodup⟩ := h
  obtain ⟨hleft, hright⟩ := path_append.1 hpath
  refine ⟨path_append.2 ⟨hright, hleft⟩, ?_⟩
  have hperm : (a :: l1 ++ x :: l2).Perm (x :: l2 ++ a :: l1) := perm_append_comm
  exact hperm.nodup_iff.1 hnodup

lemma of_mem (h : L.Ring a l) (hx : x ∈ a :: l) :
    ∃ l', L.Ring x l' ∧ ∀ y, y ∈ x :: l' ↔ y ∈ a :: l := by
  rcases mem_cons.1 hx with rfl | hx
  · exact ⟨l, h, fun y => Iff.rfl⟩
  obtain ⟨l1, l2, rfl⟩ := append_of_mem hx
  refine ⟨l2 ++ a :: l1, h.rotate, ?_⟩
  intro y
  simp only [mem_cons, mem_append]
  tauto

lemma alone (h : L.Ring a l) (ha : L.fwd a = a) : l = [] := by
  cases l with
  | nil => rfl
  | cons x l =>
    have hx : a = x := ha.symm.trans h.path.1
    have hnot : a ∉ x :: l := (nodup_cons.1 h.nodup).1
    exact absurd (hx ▸ mem_cons_self) hnot

variable [DecidableEq α]

lemma insque (h : L.Ring a l) (hn : n ∉ a :: l) : (L.insque n a).Ring a (n :: l) := by
  have hna : n ≠ a := fun heq => hn (heq ▸ mem_cons_self)
  obtain ⟨hpath, hnodup⟩ := h
  refine ⟨?_, ?_⟩
  · cases l with
    | nil =>
      obtain ⟨hfwd, -⟩ := hpath
      simp [Path, Links.insque, hfwd, hna]
    | cons x l =>
      obtain ⟨hfwd, -, hrest⟩ := hpath
      have hax : a ∉ x :: l := (nodup_cons.1 hnodup).1
      have hxl : x ∉ l := (nodup_cons.1 (nodup_cons.1 hnodup).2).1
      have hxa : x ≠ a := fun heq => hax (heq ▸ mem_cons_self)
      have hnx : n ≠ x := fun heq => hn (by simp [heq])
      refine ⟨by simp [Links.insque], ?_, ?_, by simp [Links.insque, hfwd], ?_⟩
      · simp [Links.insque, hfwd, hnx]
      · simp [Links.insque, hfwd, hna]
      apply hrest.congr
      · intro y hy
        have hya : y ≠ a := fun heq => hax (heq ▸ hy)
        have hyn : y ≠ n := fun heq => hn (heq ▸ mem_cons_of_mem a hy)
        simp [Links.insque, hya, hyn]
      intro y hy
      have hyx : y ≠ x := by
        rintro rfl
        rcases mem_cons.1 hy with rfl | hy
        · exact hxa rfl
        · exact hxl hy
      have hyn : y ≠ n := by
        rintro rfl
        apply hn
        rcases mem_cons.1 hy with rfl | hy
        · exact mem_cons_self
        · exact mem_cons_of_mem a (mem_cons_of_mem x hy)
      simp [Links.insque, hfwd, hyx, hyn]
  · rw [mem_cons, not_or] at hn
    obtain ⟨ha, hl⟩ := nodup_cons.1 hnodup
    refine nodup_cons.2 ⟨?_, nodup_cons.2 ⟨hn.2, hl⟩⟩
    intro hmem
    rcases mem_cons.1 hmem with heq | hmem
    · exact hna heq.symm
    · exact ha hmem

lemma remque (h : L.Ring a (x :: l)) : (L.remque a).Ring x l := by
  obtain ⟨⟨hfwd, -, hrest⟩, hnodup⟩ := h
  have hl := (nodup_cons.1 hnodup).2
  refine ⟨?_, hl⟩
  rcases eq_nil_or_concat l with rfl | ⟨l, z, rfl⟩
  · obtain ⟨-, hax⟩ := hrest
    simp [Path, Links.remque, hfwd, hax]
  rw [concat_eq_append] at hrest hl ⊢
  obtain ⟨hleft, hza, haz⟩ := path_append.1 hrest
  have hxz : x ∉ l ++ [z] := (nodup_cons.1 hl).1
  have hzl : z ∉ x :: l := by
    have hperm : (x :: l ++ [z]).Perm ([z] ++ x :: l) := perm_append_comm
    exact (nodup_cons.1 (hperm.nodup_iff.1 hl)).1
  refine path_append.2 ⟨hleft.congr ?_ ?_, ?_, ?_⟩
  · intro y hy
    have hyz : y ≠ z := fun heq => hzl (heq ▸ hy)
    simp [Links.remque, haz, hyz]
  · intro y hy
    have hyx : y ≠ x := by
      rintro rfl
      apply hxz
      rcases mem_cons.1 hy with rfl | hy
      · simp
      · exact mem_append_left _ hy
    simp [Links.remque, hfwd, hyx]
  all_goals simp [Links.remque, haz, hfwd]

end Ring

end Links

end Rhapsody
