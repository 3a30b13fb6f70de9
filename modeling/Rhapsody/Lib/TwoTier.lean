import Mathlib

/-! A map kept in two tiers: an array of slots, where a key is found by its index and recognised
by its tag, and an overflow map for the other keys. Each slot has a flag that tells whether a key
of its index has overflowed. Every operation changes the tiers at one index only. -/

namespace Rhapsody.Lib

open Function

structure Slot (γ ρ : Type*) where
  tag : γ
  held : Option ρ
  overflowed : Bool

namespace TwoTier

variable {κ γ ρ : Type*} {index : κ → ℕ} {tag : κ → γ}
  {slots slots' : ℕ → Option (Slot γ ρ)} {overflow overflow' : κ → Option ρ}

variable {k : κ} {s : Slot γ ρ}

section

variable [DecidableEq γ]

def route (index : κ → ℕ) (tag : κ → γ) (slots : ℕ → Option (Slot γ ρ)) (overflow : κ → Option ρ)
    (k : κ) : Option ρ :=
  match slots (index k) with
  | none => overflow k
  | some s => if s.tag = tag k then s.held else if s.overflowed then overflow k else none

def inSlot (tag : κ → γ) (k : κ) (s : Slot γ ρ) : Option ρ := if s.tag = tag k then s.held else none

def content (index : κ → ℕ) (tag : κ → γ) (slots : ℕ → Option (Slot γ ρ)) (overflow : κ → Option ρ)
    (k : κ) : Option ρ :=
  ((slots (index k)).bind (inSlot tag k)).or (overflow k)

lemma inSlot_eq_none (htag : s.held ≠ none → s.tag ≠ tag k) : inSlot tag k s = none := by
  by_contra hne
  obtain ⟨heq, hheld⟩ := ite_ne_right_iff.1 hne
  exact htag hheld heq

lemma content_of_slot (hs : slots (index k) = some s) :
    content index tag slots overflow k = (inSlot tag k s).or (overflow k) := by
  simp [content, hs]

lemma content_of_beyond (hs : slots (index k) = none) :
    content index tag slots overflow k = overflow k := by
  simp [content, hs]

end

structure Routed (index : κ → ℕ) (tag : κ → γ) (slots : ℕ → Option (Slot γ ρ))
    (overflow : κ → Option ρ) : Prop where
  overflowed : ∀ {i s}, slots i = some s →
    (s.overflowed = true ↔ ∃ k, index k = i ∧ overflow k ≠ none)
  apart : ∀ {k s}, overflow k ≠ none → slots (index k) = some s → s.held ≠ none → s.tag ≠ tag k

variable {i : ℕ} {s' : Slot γ ρ} {j : κ}

namespace Routed

variable (h : Routed index tag slots overflow)
include h

lemma over_eq_none (hs : slots (index k) = some s) (hflag : s.overflowed = false) :
    overflow k = none := by
  by_contra hk
  have hflag' := (h.overflowed hs).2 ⟨k, rfl, hk⟩
  simp [hflag] at hflag'

lemma over_eq_none_of_tag (hs : slots (index k) = some s) (hheld : s.held ≠ none)
    (htag : s.tag = tag k) : overflow k = none := by
  by_contra hk
  exact h.apart hk hs hheld htag

/-- A key that has overflowed past an empty slot of its own tag is not found. -/
theorem route_eq_content [DecidableEq γ] (k : κ)
    (hk : ∀ s, slots (index k) = some s → s.tag = tag k → s.held = none → overflow k = none) :
    route index tag slots overflow k = content index tag slots overflow k := by
  cases hs : slots (index k) with
  | none => simp [route, content, hs]
  | some s =>
    by_cases htag : s.tag = tag k
    · have hor : s.held.or (overflow k) = s.held := by
        cases hheld : s.held with
        | none => rw [hk s hs htag hheld, Option.or_none]
        | some r => rfl
      simp [route, content, inSlot, hs, htag, hor]
    cases hflag : s.overflowed
    · simp [route, content, inSlot, hs, htag, hflag, h.over_eq_none hs hflag]
    · simp [route, content, inSlot, hs, htag, hflag]

lemma at_index (hoff : ∀ k, index k ≠ i → overflow' k = overflow k)
    (hflag : s'.overflowed = true ↔ ∃ k, index k = i ∧ overflow' k ≠ none)
    (htag : ∀ k, index k = i → overflow' k ≠ none → s'.held ≠ none → s'.tag ≠ tag k) :
    Routed index tag (update slots i (some s')) overflow' where
  overflowed := by
    intro j s hs
    by_cases hj : j = i
    · subst hj
      rw [update_self, Option.some.injEq] at hs
      exact hs ▸ hflag
    rw [update_of_ne hj] at hs
    rw [h.overflowed hs]
    refine exists_congr fun k => and_congr_right fun hk => ?_
    rw [hoff k (hk ▸ hj)]
  apart := by
    intro k s hk hs
    by_cases hi : index k = i
    · rw [hi, update_self, Option.some.injEq] at hs
      exact hs ▸ htag k hi hk
    · rw [update_of_ne hi] at hs
      exact h.apart (hoff k hi ▸ hk) hs

lemma beyond (hi : slots i = none) (hoff : ∀ k, index k ≠ i → overflow' k = overflow k) :
    Routed index tag slots overflow' where
  overflowed := by
    intro j s hs
    have hj : j ≠ i := by
      rintro rfl
      simp [hi] at hs
    rw [h.overflowed hs]
    refine exists_congr fun k => and_congr_right fun hk => ?_
    rw [hoff k (hk ▸ hj)]
  apart := by
    intro k s hk hs
    have hne : index k ≠ i := by
      rintro rfl
      simp [hi] at hs
    exact h.apart (hoff k hne ▸ hk) hs

end Routed

variable [DecidableEq κ]

lemma update_off (v : Option ρ) (hj : index j ≠ index k) : update overflow k v j = overflow j :=
  update_of_ne (fun hjk => hj (congrArg index hjk)) _ _

variable [DecidableEq γ]

lemma content_at_index {v : Option ρ} (hk : index k = i)
    (hoff : ∀ j, index j ≠ i → overflow' j = overflow j)
    (hself : (inSlot tag k s').or (overflow' k) = v)
    (hothers : ∀ j, index j = i → j ≠ k →
      (inSlot tag j s').or (overflow' j) = content index tag slots overflow j) :
    content index tag (update slots i (some s')) overflow' =
      update (content index tag slots overflow) k v := by
  funext j
  by_cases hjk : j = k
  · subst hjk
    rw [update_self, content_of_slot (by rw [hk, update_self])]
    exact hself
  rw [update_of_ne hjk]
  by_cases hj : index j = i
  · rw [content_of_slot (by rw [hj, update_self])]
    exact hothers j hj hjk
  · simp [content, update_of_ne hj, hoff j hj]

/-! ## The operations -/

/-- The tiers keep their flags and hold the map. -/
abbrev Stores (index : κ → ℕ) (tag : κ → γ) (slots : ℕ → Option (Slot γ ρ))
    (overflow m : κ → Option ρ) : Prop :=
  Routed index tag slots overflow ∧ content index tag slots overflow = m

section

variable (hinj : ∀ j k, index j = index k → tag j = tag k → j = k)
  (h : Routed index tag slots overflow) {r : ρ}
include hinj h

omit [DecidableEq κ] h in
lemma inSlot_of_ne (hj : index j = index k) (hne : j ≠ k) (htag : s.tag = tag k) :
    inSlot tag j s = none := by
  have hjs : s.tag ≠ tag j := fun hs => hne (hinj j k hj (hs.symm.trans htag))
  simp [inSlot, hjs]

lemma place (hs : slots (index k) = some s) (hheld : s.held = none) (hflag : s.overflowed = false) :
    Stores index tag (update slots (index k) (some ⟨tag k, some r, false⟩)) overflow
      (update (content index tag slots overflow) k (some r)) := by
  have hnone : ∀ j, index j = index k → overflow j = none := fun j hj =>
    h.over_eq_none (hj ▸ hs) hflag
  constructor
  · refine h.at_index (fun _ _ => rfl) ?_ (fun j hj hover => absurd (hnone j hj) hover)
    simpa using hnone
  refine content_at_index rfl (fun _ _ => rfl) (by simp [inSlot]) fun j hj hne => ?_
  rw [inSlot_of_ne hinj hj hne rfl, content_of_slot (hj ▸ hs)]
  simp [inSlot, hheld]

omit hinj [DecidableEq κ] in
lemma retag (hs : slots i = some s) (hheld : s.held = none) (hflag : s.overflowed = false) (t : γ) :
    Stores index tag (update slots i (some ⟨t, none, false⟩)) overflow
      (content index tag slots overflow) := by
  have hnone : ∀ j, index j = i → overflow j = none := fun j hj =>
    h.over_eq_none (hj ▸ hs) hflag
  constructor
  · refine h.at_index (fun _ _ => rfl) ?_ (fun j hj hover => absurd (hnone j hj) hover)
    simpa using hnone
  funext j
  by_cases hj : index j = i
  · rw [content_of_slot (by rw [hj, update_self]), content_of_slot (hj ▸ hs)]
    simp [inSlot, hheld]
  · simp [content, update_of_ne hj]

omit hinj in
lemma spill (hs : slots (index k) = some s) (htag : s.held ≠ none → s.tag ≠ tag k) :
    Stores index tag (update slots (index k) (some { s with overflowed := true }))
      (update overflow k (some r)) (update (content index tag slots overflow) k (some r)) := by
  constructor
  · refine h.at_index (fun j hj => update_off _ hj) ?_ fun j hj hover => ?_
    · simpa using ⟨k, rfl, by simp⟩
    by_cases hjk : j = k
    · exact hjk ▸ htag
    · rw [update_of_ne hjk] at hover
      exact h.apart (s := s) hover (hj ▸ hs)
  refine content_at_index rfl (fun j hj => update_off _ hj) ?_ fun j hj hne => ?_
  · rw [inSlot_eq_none, update_self, Option.none_or]
    exact htag
  · rw [update_of_ne hne, content_of_slot (hj ▸ hs)]
    rfl

omit hinj in
lemma update_beyond (hs : slots (index k) = none) (v : Option ρ) :
    Stores index tag slots (update overflow k v)
      (update (content index tag slots overflow) k v) := by
  refine ⟨h.beyond hs fun j hj => update_off _ hj, ?_⟩
  funext j
  by_cases hjk : j = k
  · subst hjk
    rw [content_of_beyond hs, update_self, update_self]
  · simp [content, update_of_ne hjk]

lemma rewrite_slot (v : Option ρ) (hs : slots (index k) = some s) (hheld : s.held ≠ none)
    (htag : s.tag = tag k) :
    Stores index tag (update slots (index k) (some { s with held := v })) overflow
      (update (content index tag slots overflow) k v) := by
  have hnone : overflow k = none := h.over_eq_none_of_tag hs hheld htag
  constructor
  · refine h.at_index (fun _ _ => rfl) (h.overflowed (s := s) hs) fun j hj hover _ => ?_
    exact h.apart (s := s) hover (hj ▸ hs) hheld
  refine content_at_index rfl (fun _ _ => rfl) (by simp [inSlot, htag, hnone]) fun j hj hne => ?_
  rw [content_of_slot (hj ▸ hs), inSlot_of_ne hinj hj hne htag]
  rw [inSlot_of_ne hinj (s := { s with held := v }) hj hne htag]

omit hinj in
lemma rewrite_over (hk : overflow k ≠ none) : Stores index tag slots (update overflow k (some r))
    (update (content index tag slots overflow) k (some r)) := by
  have hsupport : ∀ j, update overflow k (some r) j ≠ none ↔ overflow j ≠ none := by
    intro j
    by_cases hjk : j = k
    · subst hjk
      simpa using hk
    · rw [update_of_ne hjk]
  refine ⟨⟨fun hs => ?_, fun hover => h.apart ((hsupport _).1 hover)⟩, ?_⟩
  · simp only [hsupport]
    exact h.overflowed hs
  funext j
  by_cases hjk : j = k
  · subst hjk
    cases hs : slots (index j) with
    | none => rw [content_of_beyond hs, update_self, update_self]
    | some s =>
      rw [content_of_slot hs, update_self, update_self]
      simp [inSlot_eq_none (h.apart hk hs)]
  · simp [content, update_of_ne hjk]

omit hinj in
lemma evict (flag : Bool) (hk : overflow k ≠ none) (hs : slots (index k) = some s)
    (hflag : flag = true ↔ ∃ j, index j = index k ∧ update overflow k none j ≠ none) :
    Stores index tag (update slots (index k) (some { s with overflowed := flag }))
      (update overflow k none) (update (content index tag slots overflow) k none) := by
  constructor
  · refine h.at_index (fun j hj => update_off _ hj) hflag fun j hj hover => ?_
    have hjk : j ≠ k := by
      rintro rfl
      simp at hover
    rw [update_of_ne hjk] at hover
    exact h.apart (s := s) hover (hj ▸ hs)
  refine content_at_index rfl (fun j hj => update_off _ hj) ?_ fun j hj hne => ?_
  · rw [inSlot_eq_none, update_self, Option.none_or]
    exact h.apart (s := s) hk hs
  · rw [update_of_ne hne, content_of_slot (hj ▸ hs)]
    rfl

lemma promote {k' : κ} (flag : Bool) (hs : slots (index k) = some s) (hheld : s.held ≠ none)
    (htag : s.tag = tag k) (hk' : index k' = index k) (hover : overflow k' = some r)
    (hflag : flag = true ↔ ∃ j, index j = index k ∧ update overflow k' none j ≠ none) :
    Stores index tag (update slots (index k) (some ⟨tag k', some r, flag⟩))
      (update overflow k' none) (update (content index tag slots overflow) k none) := by
  have hne : k' ≠ k := by
    rintro rfl
    exact h.apart (by simp [hover]) hs hheld htag
  have hoff : ∀ j, index j ≠ index k → update overflow k' none j = overflow j :=
    fun j hj => update_off _ (hk' ▸ hj)
  constructor
  · refine h.at_index hoff hflag fun j hj hj' => ?_
    have hjk : j ≠ k' := by
      rintro rfl
      simp at hj'
    exact fun _ htag' => hjk (hinj j k' (hj.trans hk'.symm) htag'.symm)
  refine content_at_index rfl hoff ?_ fun j hj hjk => ?_
  · rw [inSlot_of_ne hinj hk'.symm hne.symm rfl, update_of_ne hne.symm,
      h.over_eq_none_of_tag hs hheld htag]
    rfl
  rw [content_of_slot (hj ▸ hs), inSlot_of_ne hinj hj hjk htag]
  by_cases hjk' : j = k'
  · subst hjk'
    simp [inSlot, hover]
  · rw [inSlot_of_ne hinj (hj.trans hk'.symm) hjk' rfl, update_of_ne hjk']

end

omit [DecidableEq κ] [DecidableEq γ] in
lemma Routed.extend (h : Routed index tag slots overflow)
    (hold : ∀ {i s}, slots i = some s → slots' i = some s)
    (hnew : ∀ {i s}, slots i = none → slots' i = some s →
      s.overflowed = false ∧ ∀ k, index k = i → overflow' k = none)
    (hover : ∀ k, overflow' k = overflow k ∨ overflow' k = none ∧ slots (index k) = none) :
    Routed index tag slots' overflow' where
  overflowed := by
    intro i s hs
    cases hi : slots i with
    | none =>
      obtain ⟨hflag, hnone⟩ := hnew hi hs
      simpa [hflag] using hnone
    | some s0 =>
      obtain rfl : s0 = s := Option.some.inj ((hold hi).symm.trans hs)
      rw [h.overflowed hi]
      refine exists_congr fun k => and_congr_right fun hk => ?_
      obtain hsame | ⟨-, hnone⟩ := hover k
      · rw [hsame]
      · simp [hk, hi] at hnone
  apart := by
    intro k s hk hs
    cases hi : slots (index k) with
    | none => exact absurd ((hnew hi hs).2 k rfl) hk
    | some s0 =>
      obtain rfl : s0 = s := Option.some.inj ((hold hi).symm.trans hs)
      obtain hsame | ⟨-, hnone⟩ := hover k
      · exact h.apart (hsame ▸ hk) hi
      · simp [hi] at hnone

end TwoTier

end Rhapsody.Lib
