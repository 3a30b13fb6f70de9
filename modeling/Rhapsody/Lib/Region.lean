import Mathlib

/-! Regions of a byte-addressed memory, and how often a list of them covers a byte. Splitting and
gluing regions leaves the cover alone, so conservation of memory is one equation between covers.
The arithmetic of 32-bit words is `add32` and `sub32`. -/

namespace Rhapsody.Lib

/-! ## Words -/

def add32 (a b : ℕ) : ℕ := (a + b) % 2 ^ 32

def sub32 (a b : ℕ) : ℕ := (a + (2 ^ 32 - b)) % 2 ^ 32

variable {a b : ℕ}

lemma add32_of_lt (h : a + b < 2 ^ 32) : add32 a b = a + b := Nat.mod_eq_of_lt h

lemma sub32_of_le (h : b ≤ a) (ha : a < 2 ^ 32) : sub32 a b = a - b := by
  unfold sub32
  omega

lemma add32_modEq (a b : ℕ) : (add32 a b : ℤ) ≡ a + b [ZMOD 2 ^ 32] := by
  unfold add32 Int.ModEq
  omega

lemma sub32_modEq (a : ℕ) (hb : b ≤ 2 ^ 32) : (sub32 a b : ℤ) ≡ a - b [ZMOD 2 ^ 32] := by
  unfold sub32 Int.ModEq
  omega

/-! ## Regions -/

structure Region where
  start : ℕ
  length : ℕ
  deriving DecidableEq

variable {r : Region}

namespace Region

def Contains (r : Region) (b : ℕ) : Prop := r.start ≤ b ∧ b < r.start + r.length

instance (r : Region) (b : ℕ) : Decidable (r.Contains b) := inferInstanceAs (Decidable (_ ∧ _))

def bytes (r : Region) : Set ℕ := {b | r.Contains b}

lemma mem_bytes : b ∈ r.bytes ↔ r.Contains b := Iff.rfl

end Region

def cover (rs : List Region) (b : ℕ) : ℕ := rs.countP (fun r => r.Contains b)

@[simp] lemma cover_nil (b : ℕ) : cover [] b = 0 := rfl

lemma cover_cons (r : Region) (rs : List Region) (b : ℕ) :
    cover (r :: rs) b = cover rs b + if r.Contains b then 1 else 0 := by
  simp [cover, List.countP_cons]

@[simp] lemma cover_append (rs ss : List Region) (b : ℕ) :
    cover (rs ++ ss) b = cover rs b + cover ss b := List.countP_append

variable {rs ss : List Region}

lemma cover_perm (h : rs.Perm ss) (b : ℕ) : cover rs b = cover ss b := h.countP_eq _

lemma cover_singleton (r : Region) (b : ℕ) : cover [r] b = if r.Contains b then 1 else 0 := by
  simp [cover_cons]

lemma cover_split (a m n b : ℕ) :
    cover [⟨a, m + n⟩] b = cover [⟨a, m⟩] b + cover [⟨a + m, n⟩] b := by
  simp only [cover_cons, cover_nil]
  split_ifs <;> simp only [Region.Contains] at * <;> omega

lemma cover_mid (rs ss : List Region) (r : Region) (b : ℕ) :
    cover (rs ++ r :: ss) b = cover (rs ++ ss) b + cover [r] b := by
  rw [List.append_cons, cover_append, cover_append, cover_append]
  omega

lemma cover_pos_iff : 0 < cover rs b ↔ ∃ r ∈ rs, r.Contains b := by
  simp [cover, List.countP_pos_iff]

lemma cover_pos_of_mem (hr : r ∈ rs) (hb : r.Contains b) :
    0 < cover rs b := cover_pos_iff.2 ⟨r, hr, hb⟩

variable {α : Type*} {xs : List α} {x : α}

lemma cover_le_of_mem_flatMap (f : α → List Region) (hx : x ∈ xs) (b : ℕ) :
    cover (f x) b ≤ cover (xs.flatMap f) b := by
  obtain ⟨ys, zs, rfl⟩ := List.append_of_mem hx
  simp only [List.flatMap_append, List.flatMap_cons, cover_append]
  omega

lemma cover_flatMap_set (f : α → List Region) {i : ℕ} (hx : xs[i]? = some x) (y : α) (b : ℕ) :
    cover ((xs.set i y).flatMap f) b + cover (f x) b = cover (xs.flatMap f) b + cover (f y) b := by
  induction xs generalizing i with
  | nil => simp at hx
  | cons a xs ih =>
    cases i with
    | zero =>
      obtain rfl : a = x := by simpa using hx
      simp only [List.set_cons_zero, List.flatMap_cons, cover_append]
      omega
    | succ i =>
      have hrest := ih (i := i) (by simpa using hx)
      simp only [List.set_cons_succ, List.flatMap_cons, cover_append]
      omega

def Separate (rs : List Region) : Prop := rs.Pairwise fun r s => Disjoint r.bytes s.bytes

lemma separate_iff : Separate rs ↔ ∀ b, cover rs b ≤ 1 := by
  induction rs with
  | nil => simp [Separate]
  | cons r rs ih =>
    rw [Separate, List.pairwise_cons, ← Separate, ih]
    constructor
    · rintro ⟨hr, hrs⟩ b
      rw [cover_cons]
      split_ifs with hb
      · have hzero : ¬0 < cover rs b := by
          rw [cover_pos_iff]
          rintro ⟨s, hs, hsb⟩
          exact Set.disjoint_left.1 (hr s hs) hb hsb
        omega
      · simpa using hrs b
    intro h
    constructor
    · intro s hs
      refine Set.disjoint_left.2 fun b hb hsb => ?_
      have hpos := cover_pos_of_mem hs hsb
      have hone := h b
      rw [cover_cons, if_pos (show r.Contains b from hb)] at hone
      omega
    intro b
    have hone := h b
    rw [cover_cons] at hone
    omega

def Tiles (rs system : List Region) : Prop :=
  Separate rs ∧ (⋃ r ∈ rs, r.bytes) = ⋃ r ∈ system, r.bytes

lemma mem_iUnion_bytes : b ∈ (⋃ r ∈ rs, r.bytes) ↔ 0 < cover rs b := by
  simp [cover_pos_iff, Region.mem_bytes]

lemma tiles_iff {system : List Region} (hs : Separate system) :
    Tiles rs system ↔ ∀ b, cover rs b = cover system b := by
  have hone := separate_iff.1 hs
  constructor
  · rintro ⟨hrs, hunion⟩ b
    have hb := Set.ext_iff.1 hunion b
    rw [mem_iUnion_bytes, mem_iUnion_bytes] at hb
    have := separate_iff.1 hrs b
    have := hone b
    omega
  intro h
  refine ⟨separate_iff.2 fun b => (h b).trans_le (hone b), Set.ext fun b => ?_⟩
  rw [mem_iUnion_bytes, mem_iUnion_bytes, h b]

def Ascending (rs : List Region) : Prop := rs.Pairwise fun r s => r.start + r.length ≤ s.start

lemma ascending_append : Ascending (rs ++ ss) ↔ Ascending rs ∧ Ascending ss ∧
      ∀ r ∈ rs, ∀ s ∈ ss, r.start + r.length ≤ s.start := List.pairwise_append

lemma ascending_cons :
    Ascending (r :: rs) ↔ (∀ s ∈ rs, r.start + r.length ≤ s.start) ∧ Ascending rs :=
  List.pairwise_cons

lemma Ascending.sides (h : Ascending (rs ++ r :: ss)) :
    (∀ a ∈ rs, a.start + a.length ≤ r.start) ∧ ∀ a ∈ ss, r.start + r.length ≤ a.start := by
  obtain ⟨-, hright, hcross⟩ := ascending_append.1 h
  exact ⟨fun a ha => hcross a ha r (List.mem_cons_self ..), (ascending_cons.1 hright).1⟩

lemma Ascending.erase (h : Ascending (rs ++ r :: ss)) :
    Ascending (rs ++ ss) := List.Pairwise.sublist (by simp) h

lemma Ascending.insert (h : Ascending (rs ++ ss)) (hrs : ∀ a ∈ rs, a.start + a.length ≤ r.start)
    (hss : ∀ a ∈ ss, r.start + r.length ≤ a.start) : Ascending (rs ++ r :: ss) := by
  obtain ⟨hleft, hright, hcross⟩ := ascending_append.1 h
  refine ascending_append.2 ⟨hleft, ascending_cons.2 ⟨hss, hright⟩, fun a ha b hb => ?_⟩
  obtain rfl | hb := List.mem_cons.1 hb
  · exact hrs a ha
  · exact hcross a ha b hb

lemma apart_of_cover (h : ∀ b, cover rs b + cover ss b ≤ 1) {s : Region} (hr : r ∈ rs)
    (hs : s ∈ ss) (hrpos : 0 < r.length) (hspos : 0 < s.length) :
    r.start + r.length ≤ s.start ∨ s.start + s.length ≤ r.start := by
  by_contra hcon
  rw [not_or, not_le, not_le] at hcon
  have hrb : 0 < cover rs (max r.start s.start) :=
    cover_pos_of_mem hr (by simp only [Region.Contains]; omega)
  have hsb : 0 < cover ss (max r.start s.start) :=
    cover_pos_of_mem hs (by simp only [Region.Contains]; omega)
  have hone := h (max r.start s.start)
  omega

lemma inside_of_cover {lo hi : ℕ} (h : ∀ b, 0 < cover rs b → lo ≤ b ∧ b < hi) (hr : r ∈ rs)
    (hpos : 0 < r.length) : lo ≤ r.start ∧ r.start + r.length ≤ hi := by
  have hfirst := h r.start (cover_pos_of_mem hr ⟨le_rfl, by omega⟩)
  have hlast := h (r.start + r.length - 1) (cover_pos_of_mem hr ⟨by omega, by omega⟩)
  omega

end Rhapsody.Lib
