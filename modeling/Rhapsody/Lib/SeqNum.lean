import Mathlib

/-! Numbers of a counter that wraps round, as places at a natural distance from a base.
A difference of two of them, read as a signed word, is the true difference as long as the
two places lie within half the space of each other. -/

namespace Rhapsody.SeqNum

variable {w : ℕ}

def place (b : BitVec w) (n : ℕ) : BitVec w := b + BitVec.ofNat w n

section
variable (b : BitVec w)
include b

@[simp] lemma place_zero : place b 0 = b := by
  simp [place]

@[simp] lemma place_add (m n : ℕ) : place b m + BitVec.ofNat w n = place b (m + n) := by
  rw [place, place, BitVec.ofNat_add, add_assoc]

lemma place_add_sub (m n : ℕ) : place b (m + n) - place b m = BitVec.ofNat w n := by
  rw [← place_add, add_sub_cancel_left]

lemma toNat_sub_place {m n : ℕ} (hnm : n ≤ m) (hm : m < n + 2 ^ w) :
    (place b m - place b n).toNat = m - n := by
  obtain ⟨k, rfl⟩ := Nat.exists_eq_add_of_le hnm
  rw [place_add_sub, BitVec.toNat_ofNat, Nat.mod_eq_of_lt (by omega)]
  omega

lemma sub_place (m n : ℕ) : place b m - place b n = BitVec.ofInt w ((m : ℤ) - n) := by
  rw [Int.sub_eq_add_neg, BitVec.ofInt_add, BitVec.ofInt_neg, BitVec.ofInt_natCast,
    BitVec.ofInt_natCast, place, place, add_sub_add_left_eq_sub, sub_eq_add_neg]

lemma toInt_sub_place {m n : ℕ} (hnm : 2 * n < 2 * m + 2 ^ w) (hmn : 2 * m < 2 * n + 2 ^ w) :
    (place b m - place b n).toInt = (m : ℤ) - n := by
  rw [sub_place, BitVec.toInt_ofInt]
  apply Int.bmod_eq_of_le
  all_goals omega

end

lemma toInt_sub_small (a b : BitVec w) (ha : 2 * a.toNat < 2 ^ w) (hb : 2 * b.toNat < 2 ^ w) :
    (a - b).toInt = (a.toNat : ℤ) - b.toNat := by
  have hsub := toInt_sub_place (0 : BitVec w) (m := a.toNat) (n := b.toNat) (by omega) (by omega)
  have hplace : ∀ c : BitVec w, place 0 c.toNat = c := by
    intro c
    rw [place, BitVec.ofNat_toNat, BitVec.setWidth_eq, zero_add]
  rw [hplace, hplace] at hsub
  exact hsub

lemma exists_place (b a : BitVec w) (n : ℕ) : a = place b (n + (a - place b n).toNat) := by
  rw [← place_add, BitVec.ofNat_toNat, BitVec.setWidth_eq, add_sub_cancel]

lemma place_inj (b : BitVec w) {m n : ℕ} (hnm : n < m + 2 ^ w) (hmn : m < n + 2 ^ w)
    (h : place b m = place b n) : m = n := by
  rcases le_total n m with hle | hle
  · have hsub := toNat_sub_place b hle hmn
    rw [h, BitVec.sub_self, BitVec.toNat_zero] at hsub
    omega
  have hsub := toNat_sub_place b hle hnm
  rw [h, BitVec.sub_self, BitVec.toNat_zero] at hsub
  omega

end Rhapsody.SeqNum
