import Mathlib

/-! Pieces laid along a line, in order and without overlap, between two ends. Where a piece
may lie is a relation of the piece and a place, so that one piece can be read at more than
one place (a number that wraps round). -/

namespace Rhapsody

variable {σ : Type*}

def Layout (At : σ → ℕ → Prop) (len : σ → ℕ) : ℕ → List σ → ℕ → Prop
  | lo, [], hi => lo ≤ hi
  | lo, q :: rest, hi => ∃ pos, lo ≤ pos ∧ At q pos ∧ Layout At len (pos + len q) rest hi

namespace Layout

variable {At At' : σ → ℕ → Prop} {len : σ → ℕ} {lo lo' hi hi' : ℕ} {l l1 l2 : List σ} {q : σ}

lemma le (h : Layout At len lo l hi) : lo ≤ hi := by
  induction l generalizing lo with
  | nil => exact h
  | cons q rest ih =>
    obtain ⟨pos, hlo, -, hrest⟩ := h
    have hle := ih hrest
    omega

lemma mono (h : Layout At len lo l hi) (hlo : lo' ≤ lo) (hhi : hi ≤ hi') :
    Layout At len lo' l hi' := by
  induction l generalizing lo lo' with
  | nil => exact hlo.trans ((show lo ≤ hi from h).trans hhi)
  | cons q rest ih =>
    obtain ⟨pos, hpos, hq, hrest⟩ := h
    exact ⟨pos, hlo.trans hpos, hq, ih hrest le_rfl⟩

lemma append : Layout At len lo (l1 ++ l2) hi ↔
    ∃ mid, Layout At len lo l1 mid ∧ Layout At len mid l2 hi := by
  induction l1 generalizing lo with
  | nil =>
    constructor
    · intro h
      exact ⟨lo, le_rfl, h⟩
    · rintro ⟨mid, hlo, h⟩
      exact h.mono hlo le_rfl
  | cons q rest ih =>
    constructor
    · rintro ⟨pos, hpos, hq, hrest⟩
      obtain ⟨mid, hleft, hright⟩ := ih.1 hrest
      exact ⟨mid, ⟨pos, hpos, hq, hleft⟩, hright⟩
    · rintro ⟨mid, ⟨pos, hpos, hq, hleft⟩, hright⟩
      exact ⟨pos, hpos, hq, ih.2 ⟨mid, hleft, hright⟩⟩

lemma mem (h : Layout At len lo l hi) (hq : q ∈ l) :
    ∃ pos, lo ≤ pos ∧ pos + len q ≤ hi ∧ At q pos := by
  obtain ⟨l1, l2, rfl⟩ := List.append_of_mem hq
  obtain ⟨mid, hleft, pos, hpos, hat, hright⟩ := append.1 h
  exact ⟨pos, hleft.le.trans hpos, hright.le, hat⟩

lemma imp (h : Layout At len lo l hi)
    (himp : ∀ q ∈ l, ∀ pos, lo ≤ pos → pos + len q ≤ hi → At q pos → At' q pos) :
    Layout At' len lo l hi := by
  induction l generalizing lo with
  | nil => exact h
  | cons q rest ih =>
    obtain ⟨pos, hpos, hq, hrest⟩ := h
    refine ⟨pos, hpos, himp q List.mem_cons_self pos hpos hrest.le hq, ih hrest ?_⟩
    intro r hr n hn
    exact himp r (List.mem_cons_of_mem q hr) n (by omega)

lemma pairwise (h : Layout At len lo l hi) :
    l.Pairwise fun a b => ∃ m n, lo ≤ m ∧ At a m ∧ m + len a ≤ n ∧ At b n ∧ n + len b ≤ hi := by
  induction l generalizing lo with
  | nil => exact List.Pairwise.nil
  | cons q rest ih =>
    obtain ⟨pos, hpos, hq, hrest⟩ := h
    refine List.pairwise_cons.2 ⟨?_, (ih hrest).imp ?_⟩
    · intro r hr
      obtain ⟨n, hn, hhi, hat⟩ := hrest.mem hr
      exact ⟨pos, n, hpos, hq, hn, hat, hhi⟩
    · rintro a b ⟨m, n, hm, hrest'⟩
      exact ⟨m, n, by omega, hrest'⟩

end Layout

end Rhapsody
