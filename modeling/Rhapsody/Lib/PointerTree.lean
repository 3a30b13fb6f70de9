import Mathlib

/-! Binary trees and lists threaded through memory, which is seen through the functions that give
the pointers of a cell; a shape says which cells a pointer leads to. A change to cells outside a
shape leaves it as it is. -/

namespace Rhapsody.PointerTree

open List Function

variable {α : Type*}

inductive Shape (α : Type*) where
  | leaf
  | node (a : α) (l r : Shape α)

namespace Shape

def toList : Shape α → List α
  | leaf => []
  | node a l r => l.toList ++ a :: r.toList

def hang (t : Shape α) : Shape α → Shape α
  | leaf => t
  | node a l r => node a (hang t l) r

@[simp] lemma toList_hang (t s : Shape α) : (hang t s).toList = t.toList ++ s.toList := by
  induction s with
  | leaf => exact (append_nil _).symm
  | node a l r ihl _ => rw [hang, toList, ihl, append_assoc, toList]

def Search (key : α → ℕ) : Shape α → Prop
  | leaf => True
  | node a l r => (∀ b ∈ l.toList, key b < key a) ∧ (∀ b ∈ r.toList, key a < key b) ∧
      l.Search key ∧ r.Search key

lemma search_of_pairwise {key : α → ℕ} {t : Shape α}
    (h : t.toList.Pairwise fun a b => key a < key b) : t.Search key := by
  induction t with
  | leaf => trivial
  | node a l r ihl ihr =>
    obtain ⟨hl, hr, hlr⟩ := pairwise_append.1 h
    obtain ⟨har, hr⟩ := pairwise_cons.1 hr
    exact ⟨fun b hb => hlr b hb a mem_cons_self, har, ihl hl, ihr hr⟩

end Shape

def Rep (left right : α → Option α) : Option α → Shape α → Prop
  | p, .leaf => p = none
  | p, .node a l r => p = some a ∧ Rep left right (left a) l ∧ Rep left right (right a) r

def Threaded (next : α → Option α) : Option α → List α → Prop
  | p, [] => p = none
  | p, a :: as => p = some a ∧ Threaded next (next a) as

variable {left right left' right' next next' : α → Option α} {p : Option α} {t : Shape α}
  {as : List α}

lemma Rep.congr (h : Rep left right p t) (hl : ∀ a ∈ t.toList, left' a = left a)
    (hr : ∀ a ∈ t.toList, right' a = right a) : Rep left' right' p t := by
  induction t generalizing p with
  | leaf => exact h
  | node a l r ihl ihr =>
    obtain ⟨hp, h1, h2⟩ := h
    have ha : a ∈ (Shape.node a l r).toList := mem_append_right _ mem_cons_self
    refine ⟨hp, ?_, ?_⟩
    · rw [hl a ha]
      exact ihl h1 (fun b hb => hl b (mem_append_left _ hb)) fun b hb => hr b (mem_append_left _ hb)
    rw [hr a ha]
    exact ihr h2 (fun b hb => hl b (mem_append_right _ (mem_cons_of_mem a hb)))
      fun b hb => hr b (mem_append_right _ (mem_cons_of_mem a hb))

lemma Rep.leaf_of_none (h : Rep left right none t) : t = .leaf := by
  cases t with
  | leaf => rfl
  | node b _ _ => cases h.1

lemma Rep.child_mem {a b : α} (h : Rep left right p t) (ha : a ∈ t.toList)
    (hb : left a = some b ∨ right a = some b) : b ∈ t.toList := by
  induction t generalizing p with
  | leaf => cases ha
  | node c l r ihl ihr =>
    obtain ⟨-, h1, h2⟩ := h
    have hroot {d : α} {q : Option α} {s : Shape α} (hs : Rep left right q s) (hq : q = some d) :
        d ∈ s.toList := by
      cases s with
      | leaf => rw [show q = none from hs] at hq; cases hq
      | node x _ _ =>
        rw [hs.1] at hq
        cases hq
        exact mem_append_right _ mem_cons_self
    rcases mem_append.1 ha with ha | ha
    · exact mem_append_left _ (ihl h1 ha)
    rcases mem_cons.1 ha with rfl | ha
    · rcases hb with hb | hb
      · exact mem_append_left _ (hroot h1 hb)
      · exact mem_append_right _ (mem_cons_of_mem a (hroot h2 hb))
    · exact mem_append_right _ (mem_cons_of_mem c (ihr h2 ha))

lemma Rep.reach {P : α → Prop} (h : Rep left right p t) (hp : ∀ a, p = some a → P a)
    (hl : ∀ a b, P a → left a = some b → P b) (hr : ∀ a b, P a → right a = some b → P b) :
    ∀ a ∈ t.toList, P a := by
  induction t generalizing p with
  | leaf => exact nofun
  | node c l r ihl ihr =>
    obtain ⟨hpc, h1, h2⟩ := h
    intro a ha
    rcases mem_append.1 ha with ha | ha
    · exact ihl h1 (fun b => hl c b (hp c hpc)) a ha
    rcases mem_cons.1 ha with rfl | ha
    · exact hp a hpc
    · exact ihr h2 (fun b => hr c b (hp c hpc)) a ha

lemma Threaded.congr (h : Threaded next p as) (hn : ∀ a ∈ as, next' a = next a) :
    Threaded next' p as := by
  induction as generalizing p with
  | nil => exact h
  | cons a as ih =>
    refine ⟨h.1, ?_⟩
    rw [hn a mem_cons_self]
    exact ih h.2 fun b hb => hn b (mem_cons_of_mem a hb)

lemma Rep.of_head {a : α} (h : Rep left right (some a) t) (hlist : t.toList = a :: as)
    (hnot : a ∉ as) : ∃ r, t = .node a .leaf r ∧ r.toList = as := by
  cases t with
  | leaf => cases hlist
  | node b l r =>
    obtain rfl : a = b := Option.some.inj h.1
    cases l with
    | leaf => exact ⟨r, rfl, (cons.inj hlist).2⟩
    | node c l1 r1 =>
      -- else the cell would come once more
      exfalso
      apply hnot
      cases hl : (Shape.node c l1 r1).toList with
      | nil => exact absurd hl (append_ne_nil_of_right_ne_nil _ (cons_ne_nil _ _))
      | cons d ds =>
        rw [Shape.toList, hl, cons_append] at hlist
        rw [← (cons.inj hlist).2]
        exact mem_append_right _ mem_cons_self

def leftEnd (left : α → Option α) : ℕ → α → Option α
  | 0, _ => none
  | fuel + 1, a =>
    match left a with
    | none => some a
    | some b => leftEnd left fuel b

lemma Rep.hang [DecidableEq α] {a : α} {fuel : ℕ} {q : Option α} {u : Shape α}
    (h : Rep left right (some a) t) (hnodup : (u.toList ++ t.toList).Nodup)
    (hq : Rep left right q u) (hfuel : t.toList.length ≤ fuel) :
    ∃ e ∈ t.toList, leftEnd left fuel a = some e ∧ left e = none ∧
      Rep (update left e q) right (some a) (Shape.hang u t) := by
  induction t generalizing a fuel with
  | leaf => cases h
  | node b l r ihl _ =>
    obtain ⟨hab, h1, h2⟩ := h
    obtain rfl : a = b := Option.some.inj hab
    obtain ⟨fuel, rfl⟩ : ∃ f, fuel = f + 1 := by
      refine ⟨fuel - 1, ?_⟩
      rw [Shape.toList, length_append, length_cons] at hfuel
      omega
    have hmem : a ∈ (Shape.node a l r).toList := mem_append_right _ mem_cons_self
    obtain ⟨hu, ht, hut⟩ := nodup_append.1 hnodup
    obtain ⟨hl, hr, hlr⟩ := nodup_append.1 ht
    obtain ⟨har, -⟩ := nodup_cons.1 hr
    cases l with
    | leaf =>
      have hnone : left a = none := h1
      refine ⟨a, hmem, by rw [leftEnd, hnone], hnone, rfl, ?_, ?_⟩
      · rw [update_self]
        refine hq.congr (fun c hc => update_of_ne ?_ _ _) fun _ _ => rfl
        rintro rfl
        exact hut c hc c hmem rfl
      refine h2.congr (fun c hc => update_of_ne ?_ _ _) fun _ _ => rfl
      rintro rfl
      exact har hc
    | node c l1 r1 =>
      have hsome : left a = some c := h1.1
      have hsub : (u.toList ++ (Shape.node c l1 r1).toList).Nodup := by
        refine nodup_append.2 ⟨hu, hl, fun x hx y hy => hut x hx y ?_⟩
        exact mem_append_left _ hy
      rw [hsome] at h1
      have hlen : (Shape.node c l1 r1).toList.length ≤ fuel := by
        rw [Shape.toList, length_append, length_cons] at hfuel
        omega
      obtain ⟨e, he, hend, hnone, hrep⟩ := ihl h1 hsub hlen
      have hne : e ≠ a := fun hea => hlr e he a mem_cons_self hea
      refine ⟨e, mem_append_left _ he, by rw [leftEnd, hsome]; exact hend, hnone, rfl, ?_, ?_⟩
      · rw [update_of_ne hne.symm, hsome]
        exact hrep
      refine h2.congr (fun x hx => update_of_ne ?_ _ _) fun _ _ => rfl
      rintro rfl
      exact hlr x he x (mem_cons_of_mem a hx) rfl

end Rhapsody.PointerTree
