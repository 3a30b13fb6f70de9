import Mathlib

/-! Chains of a partial successor function: following `next` from any cell. -/

namespace Rhapsody.Lib

open Function List

variable {α : Type*}

inductive Chain (next : α → Option α) : α → List α → Prop
  | stop {a} (h : next a = none) : Chain next a [a]
  | step {a b xs} (h : next a = some b) (rest : Chain next b xs) : Chain next a (a :: xs)

variable {next : α → Option α} {a b d : α} {xs ys : List α}

def Terminating (next : α → Option α) : Prop := ∀ a, ∃ xs, Chain next a xs

def Cyclic (next : α → Option α) : Prop :=
  ∃ a, Relation.TransGen (fun x y => next x = some y) a a

namespace Chain

lemma head_mem (h : Chain next a xs) : a ∈ xs := by
  cases h <;> simp

lemma unique (h : Chain next a xs) (h' : Chain next a ys) : xs = ys := by
  induction h generalizing ys with
  | stop h =>
    cases h' with
    | stop => rfl
    | step h' => simp [h] at h'
  | step h _ ih =>
    cases h' with
    | stop h' => simp [h] at h'
    | step h' rest =>
      obtain rfl : _ = _ := Option.some.inj (h.symm.trans h')
      rw [ih rest]

lemma of_mem (h : Chain next a xs) (hb : b ∈ xs) : ∃ ys, Chain next b ys ∧ ys <:+ xs := by
  induction h with
  | stop h =>
    obtain rfl := mem_singleton.1 hb
    exact ⟨_, .stop h, suffix_refl _⟩
  | @step a c xs h rest ih =>
    rcases mem_cons.1 hb with rfl | hb
    · exact ⟨_, .step h rest, suffix_refl _⟩
    · obtain ⟨ys, hys, hsuffix⟩ := ih hb
      exact ⟨ys, hys, hsuffix.trans (suffix_cons a xs)⟩

lemma notMem_of_step (h : Chain next b xs) (ha : next a = some b) : a ∉ xs := by
  intro hmem
  obtain ⟨ys, hys, hsuffix⟩ := h.of_mem hmem
  have hlength := hsuffix.length_le
  rw [hys.unique (.step ha h), length_cons] at hlength
  omega

section
variable (h : Chain next a xs)
include h

lemma nodup : xs.Nodup := by
  induction h with
  | stop => simp
  | step h rest ih => exact nodup_cons.2 ⟨rest.notMem_of_step h, ih⟩

lemma getLast?_eq (hb : b ∈ xs) (hnone : next b = none) : xs.getLast? = some b := by
  induction h with
  | stop => rw [mem_singleton.1 hb, getLast?_singleton]
  | @step a c xs h rest ih =>
    rcases mem_cons.1 hb with rfl | hb
    · simp [hnone] at h
    · rw [getLast?_cons, ih hb]
      rfl

lemma exists_getLast? : ∃ b ∈ xs, xs.getLast? = some b ∧ next b = none := by
  induction h with
  | stop h => exact ⟨_, by simp, rfl, h⟩
  | step _ _ ih =>
    obtain ⟨b, hb, hlast, hnone⟩ := ih
    exact ⟨b, mem_cons_of_mem _ hb, by rw [getLast?_cons, hlast]; rfl, hnone⟩

lemma congr {next' : α → Option α} (hnext : ∀ x ∈ xs, next' x = next x) : Chain next' a xs := by
  induction h with
  | stop h => exact .stop ((hnext _ (by simp)).trans h)
  | step h _ ih =>
    exact .step ((hnext _ (by simp)).trans h) (ih fun x hx => hnext x (by simp [hx]))

lemma update [DecidableEq α] (hb : b ∉ xs) (v : Option α) : Chain (update next b v) a xs := by
  refine h.congr fun x hx => ?_
  have hne : x ≠ b := by
    rintro rfl
    exact hb hx
  rw [update_of_ne hne]

lemma mem_of_reaches (hab : Relation.ReflTransGen (fun x y => next x = some y) a b) : b ∈ xs := by
  induction hab using Relation.ReflTransGen.head_induction_on generalizing xs with
  | refl => exact h.head_mem
  | head hstep _ ih =>
    cases h with
    | stop h => simp [h] at hstep
    | step h rest =>
      obtain rfl : _ = _ := Option.some.inj (h.symm.trans hstep)
      exact mem_cons_of_mem _ (ih rest)

end

end Chain

lemma Terminating.not_cyclic (h : Terminating next) : ¬Cyclic next := by
  rintro ⟨a, hcycle⟩
  obtain ⟨b, hab, hba⟩ := Relation.TransGen.head'_iff.1 hcycle
  obtain ⟨xs, hxs⟩ := h b
  exact hxs.notMem_of_step hab (hxs.mem_of_reaches hba)

section
variable [DecidableEq α]

lemma Terminating.cut (h : Terminating next) (a : α) : Terminating (update next a none) := by
  intro b
  obtain ⟨xs, hxs⟩ := h b
  induction hxs with
  | stop hb =>
    refine ⟨_, .stop ?_⟩
    rw [update_apply]
    split_ifs
    · rfl
    · exact hb
  | @step b c xs hb _ ih =>
    obtain ⟨ys, hys⟩ := ih
    by_cases hba : b = a
    · exact ⟨_, .stop (by rw [hba, update_self])⟩
    · exact ⟨_, .step (by rw [update_of_ne hba, hb]) hys⟩

lemma Terminating.link (h : Terminating next) (hd : Chain next d xs) (ha : a ∉ xs) :
    Terminating (update next a (some d)) := by
  have hlinked : ∃ ys, Chain (update next a (some d)) a ys :=
    ⟨_, .step (update_self ..) (hd.update ha _)⟩
  intro b
  obtain ⟨ys, hys⟩ := h b
  induction hys with
  | @stop b hb =>
    by_cases hba : b = a
    · rwa [hba]
    · exact ⟨_, .stop (by rw [update_of_ne hba, hb])⟩
  | @step b c ys hb _ ih =>
    by_cases hba : b = a
    · rwa [hba]
    · obtain ⟨zs, hzs⟩ := ih
      exact ⟨_, .step (by rw [update_of_ne hba, hb]) hzs⟩

lemma Terminating.cyclic_link_iff (h : Terminating next) (hd : Chain next d xs) :
    Cyclic (update next a (some d)) ↔ a ∈ xs := by
  constructor
  · intro hcyclic
    by_contra ha
    exact (h.link hd ha).not_cyclic hcyclic
  intro ha
  -- the part of a chain in front of `a` is as it was
  have hback : ∀ e ys, Chain next e ys → a ∈ ys → Relation.ReflTransGen
      (fun x y => update next a (some d) x = some y) e a := by
    intro e ys hys
    induction hys with
    | stop =>
      intro hmem
      rw [mem_singleton.1 hmem]
    | @step b c ys hb _ ih =>
      intro hmem
      by_cases hba : b = a
      · rw [hba]
      · have hrest : a ∈ ys := (mem_cons.1 hmem).resolve_left (Ne.symm hba)
        exact .head (by rw [update_of_ne hba, hb]) (ih hrest)
  exact ⟨a, Relation.TransGen.head' (update_self ..) (hback d xs hd ha)⟩

end

/-! ## Walking a chain -/

def walk (next : α → Option α) : ℕ → α → Option (List α)
  | 0, _ => none
  | fuel + 1, a =>
    match next a with
    | none => some [a]
    | some b => (walk next fuel b).map (a :: ·)

lemma Chain.walk (h : Chain next a xs) {fuel : ℕ} (hfuel : xs.length ≤ fuel) :
    walk next fuel a = some xs := by
  induction h generalizing fuel with
  | stop h =>
    obtain _ | fuel := fuel
    · simp at hfuel
    simp [Lib.walk, h]
  | step h _ ih =>
    obtain _ | fuel := fuel
    · simp at hfuel
    rw [Lib.walk, h]
    simp [ih (by simpa using hfuel)]

end Rhapsody.Lib
