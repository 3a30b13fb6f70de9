import Mathlib

/-! Doubly linked lists that hang off the entries of an array: an entry names the first
cell of its list, a cell the one after it and the one before it. -/

namespace Rhapsody

open Function List

structure Buckets (κ ι : Type*) where
  head : κ → Option ι
  next : ι → Option ι
  prev : ι → Option ι

namespace Buckets

variable {κ ι : Type*} {b b' : Buckets κ ι} {chain : κ → List ι} {k k' : κ} {x y : ι}
  {l l1 l2 : List ι}

section
variable [DecidableEq κ] [DecidableEq ι]

def store (f : ι → Option ι) : Option ι → Option ι → ι → Option ι
  | some y, v => update f y v
  | none, _ => f

def push (b : Buckets κ ι) (k : κ) (x : ι) : Buckets κ ι where
  head := update b.head k (some x)
  next := update b.next x (b.head k)
  prev := update (store b.prev (b.head k) (some x)) x none

def cutHead (b : Buckets κ ι) (k : κ) (x : ι) : Buckets κ ι :=
  if b.head k = some x then { b with head := update b.head k (b.next x) } else b

def cutLinks (b : Buckets κ ι) (x : ι) : Buckets κ ι where
  head := b.head
  next := update (store b.next (b.prev x) (b.next x)) x none
  prev := update (store b.prev (b.next x) (b.prev x)) x none

def clear (b : Buckets κ ι) (x : ι) : Buckets κ ι where
  head := b.head
  next := update b.next x none
  prev := update b.prev x none

end

def walk (b : Buckets κ ι) : ℕ → Option ι → List ι
  | 0, _ => []
  | _ + 1, none => []
  | fuel + 1, some x => x :: b.walk fuel (b.next x)

def Linked (b : Buckets κ ι) (l : List ι) : Prop :=
  ∀ l1 x l2, l = l1 ++ x :: l2 → b.prev x = l1.getLast? ∧ b.next x = l2.head?

structure Holds (b : Buckets κ ι) (chain : κ → List ι) : Prop where
  head : ∀ k, b.head k = (chain k).head?
  linked : ∀ k, b.Linked (chain k)
  nodup : ∀ k, (chain k).Nodup
  apart : ∀ k k' x, x ∈ chain k → x ∈ chain k' → k = k'
  loose : ∀ x, (∀ k, x ∉ chain k) → b.prev x = none ∧ b.next x = none

variable {fuel : ℕ} {f : ι → Option ι} {p v : Option ι}

lemma walk_eq_of_next (h : ∀ l1 x l2, l = l1 ++ x :: l2 → b.next x = l2.head?)
    (hfuel : l.length ≤ fuel) : b.walk fuel l.head? = l := by
  induction l generalizing fuel with
  | nil => cases fuel <;> rfl
  | cons x l ih =>
    cases fuel with
    | zero => cases hfuel
    | succ fuel =>
      show x :: b.walk fuel (b.next x) = x :: l
      rw [h [] x l rfl, ih (fun l1 y l2 hl => h (x :: l1) y l2 (by rw [hl]; rfl))
        (Nat.le_of_succ_le_succ hfuel)]

lemma Holds.walk_eq (h : b.Holds chain) (hfuel : (chain k).length ≤ fuel) :
    b.walk fuel (b.head k) = chain k := by
  rw [h.head k]
  exact walk_eq_of_next (fun l1 x l2 hl => (h.linked k l1 x l2 hl).2) hfuel

lemma Holds.length_le (h : b.Holds chain) (hsub : chain k ⊆ l) : (chain k).length ≤ l.length :=
  ((h.nodup k).subperm hsub).length_le

lemma holds_empty : (⟨fun _ => none, fun _ => none, fun _ => none⟩ : Buckets κ ι).Holds
    fun _ => [] where
  head _ := rfl
  linked _ l1 x l2 hl := by cases l1 <;> cases hl
  nodup _ := nodup_nil
  apart _ _ _ hx := nomatch hx
  loose _ _ := ⟨rfl, rfl⟩

variable [DecidableEq ι]

lemma store_of_ne (h : p ≠ some y) : store f p v y = f y := by
  cases p with
  | none => rfl
  | some z =>
    apply update_of_ne
    rintro rfl
    exact h rfl

lemma store_some (h : p = some y) : store f p v y = v := by
  rw [h]
  exact update_self _ _ _

theorem Holds.setChain [DecidableEq κ] (h : b.Holds chain) (hhead : b'.head k = l.head?)
    (hheads : ∀ k' ≠ k, b'.head k' = b.head k') (hlinked : b'.Linked l) (hnodup : l.Nodup)
    (hnew : ∀ y ∈ l, ∀ k' ≠ k, y ∉ chain k')
    (hkept : ∀ y ∉ chain k, y ∉ l → b'.prev y = b.prev y ∧ b'.next y = b.next y)
    (hgone : ∀ y ∈ chain k, y ∉ l → b'.prev y = none ∧ b'.next y = none) :
    b'.Holds (update chain k l) := by
  have hself : update chain k l k = l := update_self k l chain
  have hother : ∀ k' ≠ k, update chain k l k' = chain k' := fun k' hk =>
    update_of_ne hk l chain
  refine ⟨fun k' => ?_, fun k' => ?_, fun k' => ?_, fun k1 k2 y h1 h2 => ?_, fun y hy => ?_⟩
  · by_cases hk : k' = k
    · rw [hk, hself, hhead]
    · rw [hother k' hk, hheads k' hk, h.head k']
  · by_cases hk : k' = k
    · rwa [hk, hself]
    rw [hother k' hk]
    intro l1 y l2 hl
    have hy : y ∈ chain k' := hl ▸ mem_append_right l1 mem_cons_self
    obtain ⟨hprev, hnext⟩ :=
      hkept y (fun hy' => hk (h.apart k' k y hy hy')) fun hy' => hnew y hy' k' hk hy
    rw [hprev, hnext]
    exact h.linked k' l1 y l2 hl
  · by_cases hk : k' = k
    · rwa [hk, hself]
    · rw [hother k' hk]
      exact h.nodup k'
  · by_cases hk1 : k1 = k
    · by_cases hk2 : k2 = k
      · rw [hk1, hk2]
      rw [hk1, hself] at h1
      rw [hother k2 hk2] at h2
      exact absurd h2 (hnew y h1 k2 hk2)
    rw [hother k1 hk1] at h1
    by_cases hk2 : k2 = k
    · rw [hk2, hself] at h2
      exact absurd h1 (hnew y h2 k1 hk1)
    · rw [hother k2 hk2] at h2
      exact h.apart k1 k2 y h1 h2
  have hl : y ∉ l := hself ▸ hy k
  by_cases hyk : y ∈ chain k
  · exact hgone y hyk hl
  obtain ⟨hp, hn⟩ := hkept y hyk hl
  rw [hp, hn]
  apply h.loose y
  intro k' hy'
  by_cases hk : k' = k
  · exact hyk (hk ▸ hy')
  · exact hy k' (hother k' hk ▸ hy')

section
variable [DecidableEq κ]

lemma push_next_ne (hy : y ≠ x) : (b.push k x).next y = b.next y := update_of_ne hy _ _

lemma push_prev_ne (hy : y ≠ x) (hhead : b.head k ≠ some y) : (b.push k x).prev y = b.prev y :=
  (update_of_ne hy _ _).trans (store_of_ne hhead)

lemma Holds.push (h : b.Holds chain) (k : κ) (hx : ∀ k, x ∉ chain k) :
    (b.push k x).Holds (update chain k (x :: chain k)) := by
  have hne : ∀ y ∈ chain k, y ≠ x := by
    rintro y hy rfl
    exact hx k hy
  apply h.setChain (update_self _ _ _) fun k' hk => update_of_ne hk _ _
  · intro l1 y l2 hl
    cases l1 with
    | nil =>
      obtain ⟨rfl, rfl⟩ : x = y ∧ chain k = l2 := cons.inj hl
      exact ⟨update_self _ _ _, (update_self _ _ _).trans (h.head k)⟩
    | cons z l1 =>
      obtain ⟨hz, hl'⟩ : x = z ∧ chain k = l1 ++ y :: l2 := cons.inj hl
      have hyx : y ≠ x := hne y (hl' ▸ mem_append_right l1 mem_cons_self)
      obtain ⟨hprev, hnext⟩ := h.linked k l1 y l2 hl'
      have hhead := h.head k
      rw [hl'] at hhead
      refine ⟨?_, (push_next_ne hyx).trans hnext⟩
      cases l1 with
      | nil =>
        rw [← hz]
        exact (update_of_ne hyx _ _).trans (store_some hhead)
      | cons w l1 =>
        rw [push_prev_ne hyx, hprev, getLast?_cons_cons]
        -- The cell is not the first one, as it stands behind another.
        intro hy
        have hnodup := h.nodup k
        obtain rfl : w = y := Option.some.inj (hhead.symm.trans hy)
        rw [hl'] at hnodup
        exact (nodup_cons.1 hnodup).1 (mem_append_right l1 mem_cons_self)
  · exact nodup_cons.2 ⟨hx k, h.nodup k⟩
  · intro y hy k' hk hy'
    rcases mem_cons.1 hy with rfl | hy
    · exact hx k' hy'
    · exact hk (h.apart k' k y hy' hy)
  · intro y hy hy'
    have hyx : y ≠ x := fun hyx => hy' (hyx ▸ mem_cons_self)
    refine ⟨push_prev_ne hyx fun hhead => hy ?_, push_next_ne hyx⟩
    exact mem_of_head? ((h.head k).symm.trans hhead)
  · exact fun y hy hy' => absurd (mem_cons_of_mem x hy) hy'

end

section

lemma Holds.clear_loose (h : b.Holds chain) (hx : ∀ k, x ∉ chain k) : b.clear x = b := by
  obtain ⟨hprev, hnext⟩ := h.loose x hx
  unfold clear
  have hn : update b.next x none = b.next := by
    rw [← hnext, update_eq_self]
  have hp : update b.prev x none = b.prev := by
    rw [← hprev, update_eq_self]
  rw [hn, hp]

lemma Holds.cutLinks_loose (h : b.Holds chain) (hx : ∀ k, x ∉ chain k) : b.cutLinks x = b := by
  obtain ⟨hprev, hnext⟩ := h.loose x hx
  have hclear : b.cutLinks x = b.clear x := by
    unfold cutLinks clear
    rw [hprev, hnext]
    rfl
  exact hclear.trans (h.clear_loose hx)

lemma cutLinks_next_ne (hy : y ≠ x) (hprev : b.prev x ≠ some y) :
    (b.cutLinks x).next y = b.next y :=
  (update_of_ne hy _ _).trans (store_of_ne hprev)

lemma cutLinks_prev_ne (hy : y ≠ x) (hnext : b.next x ≠ some y) :
    (b.cutLinks x).prev y = b.prev y :=
  (update_of_ne hy _ _).trans (store_of_ne hnext)

lemma cutLinks_next_prev (hy : y ≠ x) (hprev : b.prev x = some y) :
    (b.cutLinks x).next y = b.next x :=
  (update_of_ne hy _ _).trans (store_some hprev)

lemma cutLinks_prev_next (hy : y ≠ x) (hnext : b.next x = some y) :
    (b.cutLinks x).prev y = b.prev x :=
  (update_of_ne hy _ _).trans (store_some hnext)

lemma Linked.cutLinks (h : b.Linked (l1 ++ x :: l2)) (hnodup : (l1 ++ x :: l2).Nodup) :
    (b.cutLinks x).Linked (l1 ++ l2) := by
  obtain ⟨hprev, hnext⟩ := h l1 x l2 rfl
  obtain ⟨hnodup1, hxnodup2, hdisj⟩ := nodup_append.1 hnodup
  obtain ⟨hx2, hnodup2⟩ := nodup_cons.1 hxnodup2
  have hx1 : x ∉ l1 := fun hx => hdisj x hx x mem_cons_self rfl
  have hbehind : ∀ t y m, l2 = t ++ y :: m →
      (b.cutLinks x).prev y = (l1 ++ t).getLast? ∧ (b.cutLinks x).next y = m.head? := by
    intro t y m ht
    have hy : y ∈ l2 := ht ▸ mem_append_right t mem_cons_self
    have hyx : y ≠ x := fun hyx => hx2 (hyx ▸ hy)
    have hold := h (l1 ++ x :: t) y m (by rw [ht, append_assoc, cons_append])
    refine ⟨?_, ?_⟩
    · cases t with
      | nil =>
        rw [ht] at hnext
        rw [cutLinks_prev_next hyx hnext, hprev, append_nil]
      | cons z t =>
        have hne : b.next x ≠ some y := by
          rw [hnext, ht]
          intro hz
          rw [ht, Option.some.inj hz] at hnodup2
          exact (nodup_cons.1 hnodup2).1 (mem_append_right t mem_cons_self)
        rw [cutLinks_prev_ne hyx hne, hold.1, getLast?_append, getLast?_append, getLast?_cons_cons]
    have hne : b.prev x ≠ some y := by
      rw [hprev]
      intro hlast
      exact hdisj y (mem_of_getLast? hlast) y (mem_cons_of_mem x hy) rfl
    rw [cutLinks_next_ne hyx hne, hold.2]
  intro m1 y m2 hm
  rcases append_eq_append_iff.1 hm with ⟨t, rfl, ht⟩ | ⟨t, rfl, ht⟩
  · exact hbehind t y m2 ht
  cases t with
  | nil =>
    have hy := hbehind [] y m2 ht.symm
    rwa [append_nil, append_nil] at hy
  | cons z t =>
    -- The cell lies before the one that is cut.
    obtain ⟨rfl, rfl⟩ : y = z ∧ m2 = t ++ l2 := cons.inj ht
    have hy : y ∈ m1 ++ y :: t := mem_append_right m1 mem_cons_self
    have hyx : y ≠ x := fun hyx => hx1 (hyx ▸ hy)
    have hold := h m1 y (t ++ x :: l2) (by rw [append_assoc, cons_append])
    refine ⟨?_, ?_⟩
    · have hne : b.next x ≠ some y := by
        rw [hnext]
        intro hhead
        exact hdisj y hy y (mem_cons_of_mem x (mem_of_head? hhead)) rfl
      rw [cutLinks_prev_ne hyx hne, hold.1]
    rw [getLast?_append] at hprev
    cases t with
    | nil => rw [cutLinks_next_prev hyx hprev, hnext, nil_append]
    | cons w t =>
      have hne : b.prev x ≠ some y := by
        rw [hprev, getLast?_cons_cons]
        intro hlast
        rw [getLast?_cons, Option.some_or] at hlast
        have hmem : y ∈ w :: t := mem_of_getLast? (getLast?_cons.trans hlast)
        exact (nodup_cons.1 (nodup_append.1 hnodup1).2.1).1 hmem
      rw [cutLinks_next_ne hyx hne, hold.2]
      rfl

variable [DecidableEq κ]

lemma cutHead_next : (b.cutHead k x).next = b.next := by
  unfold cutHead
  split_ifs <;> rfl

lemma cutHead_prev : (b.cutHead k x).prev = b.prev := by
  unfold cutHead
  split_ifs <;> rfl

lemma cutHead_head_ne (hk : k' ≠ k) : (b.cutHead k x).head k' = b.head k' := by
  unfold cutHead
  split_ifs
  · exact update_of_ne hk _ _
  · rfl

lemma Holds.cut (h : b.Holds chain) (hx : x ∈ chain k) :
    ((b.cutHead k x).cutLinks x).Holds (update chain k ((chain k).erase x)) := by
  obtain ⟨l1, l2, hl⟩ := append_of_mem hx
  have hnodup := h.nodup k
  have hlinked := h.linked k
  obtain ⟨hprev, hnext⟩ := hlinked l1 x l2 hl
  rw [hl] at hnodup hlinked
  have hx1 : x ∉ l1 := fun hx1 =>
    (nodup_append.1 hnodup).2.2 x hx1 x mem_cons_self rfl
  have herase : (chain k).erase x = l1 ++ l2 := by
    rw [hl, erase_append_right _ hx1, erase_cons_head]
  have hother : ∀ y, y ∉ chain k → y ≠ x ∧ b.prev x ≠ some y ∧ b.next x ≠ some y := by
    intro y hout
    rw [hl, mem_append, mem_cons, not_or, not_or] at hout
    refine ⟨hout.2.1, ?_, ?_⟩
    · rw [hprev]
      exact fun hlast => hout.1 (mem_of_getLast? hlast)
    · rw [hnext]
      exact fun hhead => hout.2.2 (mem_of_head? hhead)
  have hc : (b.cutHead k x).cutLinks x = { b.cutLinks x with head := (b.cutHead k x).head } := by
    unfold Buckets.cutLinks
    rw [cutHead_next, cutHead_prev]
  rw [hc]
  refine h.setChain ?_ (fun k' hk => cutHead_head_ne hk) (herase ▸ hlinked.cutLinks hnodup)
    ((h.nodup k).erase x) ?_ ?_ ?_
  · rw [herase]
    show (b.cutHead k x).head k = _
    unfold cutHead
    have hhead := h.head k
    rw [hl] at hhead
    cases l1 with
    | nil =>
      have hx : b.head k = some x := hhead
      rw [if_pos hx]
      exact (update_self _ _ _).trans hnext
    | cons z l1 =>
      have hz : b.head k ≠ some x := by
        rw [hhead]
        intro hz
        exact hx1 (Option.some.inj hz ▸ mem_cons_self)
      rw [if_neg hz, hhead]
      rfl
  · intro y hy k' hk hy'
    exact hk (h.apart k' k y hy' (mem_of_mem_erase hy))
  · intro y hy _
    obtain ⟨hyx, hne, hne'⟩ := hother y hy
    exact ⟨cutLinks_prev_ne hyx hne', cutLinks_next_ne hyx hne⟩
  · intro y hy hy'
    obtain rfl : y = x := by
      by_contra hyx
      exact hy' ((mem_erase_of_ne hyx).2 hy)
    exact ⟨update_self _ _ _, update_self _ _ _⟩

end

end Buckets

end Rhapsody
