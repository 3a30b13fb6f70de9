import Mathlib

/-! Binary trees with open spines. A spine is a tree whose right-most (or left-most) child field
is still open; it is kept with the node next to the hole first. A rearrangement is harmless
exactly when it keeps the symmetric-order list of entries. -/

namespace Rhapsody.Lib

open List

inductive NameTree (κ α : Type*) where
  | null
  | node (lchild : NameTree κ α) (name : κ) (entry : α) (rchild : NameTree κ α)
  deriving DecidableEq

structure OpenNode (κ α : Type*) where
  name : κ
  entry : α
  child : NameTree κ α
  deriving DecidableEq

variable {κ α : Type*}

variable (f : κ → α → α)

namespace NameTree

def toList : NameTree κ α → List (κ × α)
  | null => []
  | node l n e r => l.toList ++ (n, e) :: r.toList

def size : NameTree κ α → ℕ
  | null => 0
  | node l _ _ r => l.size + 1 + r.size

def lchild : NameTree κ α → NameTree κ α
  | null => null
  | node l _ _ _ => l

def rchild : NameTree κ α → NameTree κ α
  | null => null
  | node _ _ _ r => r

def isNull : NameTree κ α → Bool
  | null => true
  | node .. => false

@[simp] lemma isNull_iff {t : NameTree κ α} : t.isNull = true ↔ t = null := by
  cases t <;> simp [isNull]

@[simp] lemma isNull_eq_false_iff {t : NameTree κ α} : t.isNull = false ↔ t ≠ null := by
  cases t <;> simp [isNull]

@[simp] lemma toList_null : (null : NameTree κ α).toList = [] := rfl

@[simp] lemma toList_node (l : NameTree κ α) (n : κ) (e : α) (r : NameTree κ α) :
    (node l n e r).toList = l.toList ++ (n, e) :: r.toList := rfl

@[simp] lemma toList_eq_nil {t : NameTree κ α} : t.toList = [] ↔ t = null := by
  cases t <;> simp

@[simp] lemma lchild_node (l : NameTree κ α) (n : κ) (e : α) (r : NameTree κ α) :
    (node l n e r).lchild = l := rfl

@[simp] lemma rchild_node (l : NameTree κ α) (n : κ) (e : α) (r : NameTree κ α) :
    (node l n e r).rchild = r := rfl

lemma length_toList (t : NameTree κ α) : t.toList.length = t.size := by
  induction t with
  | null => rfl
  | node l n e r ihl ihr => simp [size, ihl, ihr]; omega

def mapEntries (f : κ → α → α) : NameTree κ α → NameTree κ α
  | null => null
  | node l n e r => node (l.mapEntries f) n (f n e) (r.mapEntries f)

@[simp] lemma toList_mapEntries (t : NameTree κ α) :
    (t.mapEntries f).toList = t.toList.map fun a => (a.1, f a.1 a.2) := by
  induction t with
  | null => rfl
  | node l n e r ihl ihr => simp [mapEntries, ihl, ihr]

end NameTree

@[simps] def OpenNode.mapEntries (f : κ → α → α) (x : OpenNode κ α) : OpenNode κ α :=
  ⟨x.name, f x.name x.entry, x.child.mapEntries f⟩

/-! ## Spines -/

def lspineList : List (OpenNode κ α) → List (κ × α)
  | [] => []
  | x :: s => lspineList s ++ x.child.toList ++ [(x.name, x.entry)]

def rspineList : List (OpenNode κ α) → List (κ × α)
  | [] => []
  | x :: s => (x.name, x.entry) :: x.child.toList ++ rspineList s

def plugLeft : List (OpenNode κ α) → NameTree κ α → NameTree κ α
  | [], t => t
  | x :: s, t => plugLeft s (.node x.child x.name x.entry t)

def plugRight : List (OpenNode κ α) → NameTree κ α → NameTree κ α
  | [], t => t
  | x :: s, t => plugRight s (.node t x.name x.entry x.child)

@[simp] lemma lspineList_nil : lspineList ([] : List (OpenNode κ α)) = [] := rfl

@[simp] lemma rspineList_nil : rspineList ([] : List (OpenNode κ α)) = [] := rfl

@[simp] lemma lspineList_cons (x : OpenNode κ α) (s : List (OpenNode κ α)) :
    lspineList (x :: s) = lspineList s ++ x.child.toList ++ [(x.name, x.entry)] := rfl

@[simp] lemma rspineList_cons (x : OpenNode κ α) (s : List (OpenNode κ α)) :
    rspineList (x :: s) = (x.name, x.entry) :: x.child.toList ++ rspineList s := rfl

variable (s : List (OpenNode κ α))

lemma lspineList_mapEntries : lspineList (s.map (OpenNode.mapEntries f)) =
      (lspineList s).map fun a => (a.1, f a.1 a.2) := by
  induction s with
  | nil => rfl
  | cons x s ih => simp [ih]

lemma rspineList_mapEntries : rspineList (s.map (OpenNode.mapEntries f)) =
      (rspineList s).map fun a => (a.1, f a.1 a.2) := by
  induction s with
  | nil => rfl
  | cons x s ih => simp [ih]

@[simp] lemma toList_plugLeft (t : NameTree κ α) :
    (plugLeft s t).toList = lspineList s ++ t.toList := by
  induction s generalizing t with
  | nil => simp [plugLeft]
  | cons x s ih => simp [plugLeft, ih]

@[simp] lemma toList_plugRight (t : NameTree κ α) :
    (plugRight s t).toList = t.toList ++ rspineList s := by
  induction s generalizing t with
  | nil => simp [plugRight]
  | cons x s ih => simp [plugRight, ih]

/-! ## Name-ordered entry lists -/

section
variable [LinearOrder κ]

def Ordered (xs : List (κ × α)) : Prop := xs.Pairwise (fun a b => a.1 < b.1)

@[simp] lemma ordered_nil : Ordered ([] : List (κ × α)) := List.Pairwise.nil

variable {xs ys : List (κ × α)} {a : κ × α} {e : α} {k name : κ}

lemma ordered_append :
    Ordered (xs ++ ys) ↔ Ordered xs ∧ Ordered ys ∧ ∀ a ∈ xs, ∀ b ∈ ys, a.1 < b.1 :=
  pairwise_append

lemma ordered_cons : Ordered (a :: xs) ↔ (∀ b ∈ xs, a.1 < b.1) ∧ Ordered xs := pairwise_cons

lemma Ordered.above (h : Ordered (xs ++ (k, e) :: ys)) (hk : name < k) :
    ∀ a ∈ (k, e) :: ys, name < a.1 := by
  exact forall_mem_cons.2 ⟨hk, fun a ha =>
    hk.trans ((ordered_cons.1 (ordered_append.1 h).2.1).1 a ha)⟩

lemma Ordered.below (h : Ordered (xs ++ (k, e) :: ys)) (hk : k < name) :
    ∀ a ∈ xs ++ [(k, e)], a.1 < name := by
  intro a ha
  obtain ha | ha := mem_append.1 ha
  · exact ((ordered_append.1 h).2.2 a ha (k, e) (mem_cons_self ..)).trans hk
  · rwa [mem_singleton.1 ha]

lemma Ordered.insert (h : Ordered (xs ++ ys)) (hx : ∀ a ∈ xs, a.1 < k) (hy : ∀ a ∈ ys, k < a.1)
    (e : α) : Ordered (xs ++ (k, e) :: ys) := by
  obtain ⟨hxs, hys, hxy⟩ := ordered_append.1 h
  refine ordered_append.2 ⟨hxs, ordered_cons.2 ⟨hy, hys⟩, fun a ha b hb => ?_⟩
  obtain rfl | hb := mem_cons.1 hb
  · exact hx a ha
  · exact hxy a ha b hb

lemma Ordered.erase (h : Ordered (xs ++ a :: ys)) :
    Ordered (xs ++ ys) := List.Pairwise.sublist (by simp) h

def NameTree.IsSearch : NameTree κ α → Prop
  | .null => True
  | .node l n _ r =>
    (∀ a ∈ l.toList, a.1 < n) ∧ (∀ a ∈ r.toList, n < a.1) ∧ l.IsSearch ∧ r.IsSearch

lemma NameTree.isSearch_iff {t : NameTree κ α} : t.IsSearch ↔ Ordered t.toList := by
  induction t with
  | null => simp [NameTree.IsSearch]
  | node l n e r ihl ihr =>
    rw [NameTree.IsSearch, ihl, ihr, toList_node, ordered_append, ordered_cons]
    constructor
    · rintro ⟨hl, hr, hol, hor⟩
      refine ⟨hol, ⟨hr, hor⟩, fun a ha b hb => ?_⟩
      obtain rfl | hb := mem_cons.1 hb
      · exact hl a ha
      · exact (hl a ha).trans (hr b hb)
    · rintro ⟨hol, ⟨hr, hor⟩, hlr⟩
      exact ⟨fun a ha => hlr a ha (n, e) (mem_cons_self ..), hr, hol, hor⟩

def find (xs : List (κ × α)) (name : κ) : Option α := xs.lookup name

@[simp] lemma find_nil (name : κ) : find ([] : List (κ × α)) name = none := rfl

lemma find_cons (a : κ × α) (xs : List (κ × α)) (name : κ) :
    find (a :: xs) name = if name = a.1 then some a.2 else find xs name := by
  obtain ⟨k, e⟩ := a
  by_cases h : name = k
  · simp [find, h]
  · have hb : (name == k) = false := by simpa using h
    simp [find, lookup_cons, hb, h]

lemma find_append (xs ys : List (κ × α)) (name : κ) :
    find (xs ++ ys) name = (find xs name).or (find ys name) := lookup_append

lemma find_eq_none_iff : find xs name = none ↔ ∀ a ∈ xs, a.1 ≠ name := by
  simp only [find, lookup_eq_none_iff, bne_iff_ne]
  exact forall₂_congr fun a _ => ne_comm

lemma find_eq_none_of_lt (h : ∀ a ∈ xs, a.1 < name) :
    find xs name = none := find_eq_none_iff.2 fun a ha => (h a ha).ne

lemma find_eq_none_of_gt (h : ∀ a ∈ xs, name < a.1) :
    find xs name = none := find_eq_none_iff.2 fun a ha => (h a ha).ne'

lemma find_eq_some_iff (h : Ordered xs) : find xs name = some e ↔ (name, e) ∈ xs := by
  induction xs with
  | nil => simp
  | cons a xs ih =>
    obtain ⟨hlt, hxs⟩ := ordered_cons.1 h
    rw [find_cons, mem_cons]
    split_ifs with hn
    · subst hn
      have hnot : (a.1, e) ∉ xs := fun hm => lt_irrefl _ (hlt (a.1, e) hm)
      simp [hnot, Prod.ext_iff, eq_comm]
    rw [ih hxs]
    have hne : (name, e) ≠ a := fun he => hn (congrArg Prod.fst he)
    simp [hne]

lemma find_mid (hx : ∀ a ∈ xs, a.1 < name) (k : κ) :
    find (xs ++ (name, e) :: ys) k = if k = name then some e else find (xs ++ ys) k := by
  rw [find_append, find_cons, find_append]
  split_ifs with hk
  · rw [hk, find_eq_none_of_lt hx, Option.none_or]
  · rfl

end

end Rhapsody.Lib
