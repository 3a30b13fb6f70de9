import Mathlib

/-! A bitmap kept in 32-bit words. Bit `b` is numbered from the high end of its word:
it is bit `31 - b % 32` of word `b / 32`. -/

namespace Rhapsody.Lib

open Function

abbrev Bitmap := ℕ → BitVec 32

namespace Bitmap

variable {bm bm' : Bitmap} {w m : BitVec 32} {i j b n : ℕ}

def bit (bm : Bitmap) (b : ℕ) : Bool := (bm (b / 32)).getMsbD (b % 32)

lemma bit_update (bm : Bitmap) (k : ℕ) (w : BitVec 32) (b : ℕ) :
    bit (update bm k w) b = if b / 32 = k then w.getMsbD (b % 32) else bit bm b := by
  rw [bit, update_apply]
  split <;> rfl

/-! ### Masks -/

def mask (i : ℕ) : BitVec 32 := 0x80000000#32 >>> i

lemma getMsbD_mask (hi : i < 32) (hj : j < 32) : (mask i).getMsbD j = decide (i = j) := by
  have hhigh : ∀ k < 32, (0x80000000#32).getMsbD k = decide (k = 0) := by decide
  rw [mask, BitVec.getMsbD_ushiftRight]
  by_cases hji : j < i
  · have hne : i ≠ j := by omega
    simp [hji, hne]
  rw [hhigh (j - i) (by omega)]
  have hiff : j - i = 0 ↔ i = j := by omega
  simp [hj, hji, hiff]

lemma eq_zero_iff : w = 0 ↔ ∀ j < 32, w.getMsbD j = false := by
  constructor
  · rintro rfl j -
    simp
  intro h
  refine BitVec.eq_of_getMsbD_eq fun j hj => ?_
  rw [h j hj]
  simp

lemma exists_set_of_ne_zero (hw : w ≠ 0) : ∃ j < 32, w.getMsbD j = true := by
  by_contra hnone
  refine hw (eq_zero_iff.2 fun j hj => ?_)
  cases hbit : w.getMsbD j with
  | false => rfl
  | true => exact absurd ⟨j, hj, hbit⟩ hnone

lemma and_mask_eq_zero (hi : i < 32) : w &&& mask i = 0 ↔ w.getMsbD i = false := by
  rw [eq_zero_iff]
  constructor
  · intro h
    have := h i hi
    rw [BitVec.getMsbD_and, getMsbD_mask hi hi] at this
    simpa using this
  intro h j hj
  rw [BitVec.getMsbD_and, getMsbD_mask hi hj]
  by_cases hij : i = j
  · simp [← hij, h]
  · simp [hij]

lemma getMsbD_or_mask (hi : i < 32) (hj : j < 32) :
    (w ||| mask i).getMsbD j = (w.getMsbD j || decide (i = j)) := by
  rw [BitVec.getMsbD_or, getMsbD_mask hi hj]

lemma mask_shiftRight (i : ℕ) : mask i >>> 1 = mask (i + 1) := by
  rw [mask, mask, BitVec.shiftRight_add]

lemma mask_eq_zero (hi : i ≤ 32) : mask i = 0 ↔ i = 32 := by
  have : ∀ i ≤ 32, mask i = 0 ↔ i = 32 := by decide
  exact this i hi

lemma mask_shiftLeft (hi : i < 32) (h0 : 0 < i) : mask i <<< 1 = mask (i - 1) := by
  have : ∀ i < 32, 0 < i → mask i <<< 1 = mask (i - 1) := by decide
  exact this i hi h0

lemma getMsbD_allOnes_ushiftRight (hj : j < 32) :
    (BitVec.allOnes 32 >>> i).getMsbD j = decide (i ≤ j) := by
  rw [BitVec.getMsbD_ushiftRight, BitVec.getMsbD_allOnes]
  by_cases hij : i ≤ j
  · have : j - i < 32 := by omega
    simp [hj, hij, this]
  · simp [hij]

/-! ### Counting -/

def popCount (k x : ℕ) : ℕ := Nat.count (fun i => x.testBit i) k

lemma popCount_succ (k x : ℕ) : popCount (k + 1) x = popCount k (x / 2) + x % 2 := by
  have hlow : (if x.testBit 0 = true then 1 else 0) = x % 2 := by
    rw [Nat.testBit_zero]
    split <;> simp_all
  rw [popCount, Nat.count_succ', hlow, popCount]
  simp only [Nat.testBit_succ]

lemma popCount_zero (k : ℕ) : popCount k 0 = 0 := by
  simp [popCount]

lemma popCount_lt (w : BitVec 32) : popCount 32 w.toNat < 33 := Nat.lt_succ_of_le (Nat.count_le ..)

variable {k start len : ℕ} {v : Bool}

lemma popCount_and_pred {x : ℕ} (hpos : 0 < x) (hlt : x < 2 ^ k) :
    popCount k (x &&& (x - 1)) + 1 = popCount k x := by
  induction k generalizing x with
  | zero => omega
  | succ k ih =>
    have hdiv : (x &&& (x - 1)) / 2 = x / 2 &&& (x - 1) / 2 := by
      simpa using Nat.and_div_two_pow (a := x) (b := x - 1) (n := 1)
    have hmod : (x &&& (x - 1)) % 2 = 0 := by
      have hand : (x &&& (x - 1)) % 2 = x % 2 &&& (x - 1) % 2 := by
        simpa using Nat.and_mod_two_pow (a := x) (b := x - 1) (n := 1)
      rcases Nat.mod_two_eq_zero_or_one x with heven | hodd
      · rw [hand, heven, Nat.zero_and]
      · rw [hand, show (x - 1) % 2 = 0 by omega, Nat.and_zero]
    rw [popCount_succ, popCount_succ, hdiv, hmod]
    rcases Nat.mod_two_eq_zero_or_one x with heven | hodd
    · have hpred : (x - 1) / 2 = x / 2 - 1 := by omega
      rw [hpred, heven]
      exact ih (by omega) (by omega)
    · have hpred : (x - 1) / 2 = x / 2 := by omega
      rw [hpred, Nat.and_self, hodd]

lemma popCount_and_sub_one (hw : w ≠ 0) :
    popCount 32 (w &&& (w - 1)).toNat + 1 = popCount 32 w.toNat := by
  have hpos : 0 < w.toNat := pos_of_ne_zero fun h => hw (BitVec.eq_of_toNat_eq h)
  have hsub : (w - 1).toNat = w.toNat - 1 := by
    refine BitVec.toNat_sub_of_le ?_
    rw [BitVec.le_def]
    exact hpos
  rw [BitVec.toNat_and, hsub]
  exact popCount_and_pred hpos w.isLt

lemma count_congr {p q : ℕ → Prop} [DecidablePred p] [DecidablePred q]
    (h : ∀ i < n, p i ↔ q i) : Nat.count p n = Nat.count q n := by
  rw [Nat.count_eq_card_filter_range, Nat.count_eq_card_filter_range]
  congr 1
  exact Finset.filter_congr fun i hi => h i (Finset.mem_range.1 hi)

lemma count_getMsbD (w : BitVec 32) :
    Nat.count (fun i => w.getMsbD i = true) 32 = popCount 32 w.toNat := by
  rw [popCount, Nat.count_eq_card_filter_range, Nat.count_eq_card_filter_range,
    Finset.card_filter, Finset.card_filter, ← Finset.sum_range_reflect]
  refine Finset.sum_congr rfl fun i hi => ?_
  have hi' : i < 32 := Finset.mem_range.1 hi
  have hbit : w.getMsbD (32 - 1 - i) = w.toNat.testBit i := by
    rw [BitVec.getMsbD_eq_getLsbD, BitVec.getLsbD]
    have h1 : 32 - 1 - i < 32 := by omega
    have h2 : 32 - 1 - (32 - 1 - i) = i := by omega
    simp [h1, h2]
  rw [hbit]

def clearCount (bm : Bitmap) (n : ℕ) : ℕ := Nat.count (fun b => bit bm b = false) n

lemma clearCount_add (bm : Bitmap) (n k : ℕ) :
    clearCount bm (n + k) = clearCount bm n + Nat.count (fun i => bit bm (n + i) = false) k :=
  Nat.count_add ..

lemma clearCount_bits (bm : Bitmap) (k : ℕ) (hn : n ≤ 32) : clearCount bm (32 * k + n) =
      clearCount bm (32 * k) + Nat.count (fun i => (~~~(bm k)).getMsbD i = true) n := by
  rw [clearCount_add]
  congr 1
  refine count_congr fun i hi => ?_
  have hi' : i < 32 := by omega
  have hdiv : (32 * k + i) / 32 = k := by omega
  have hmod : (32 * k + i) % 32 = i := by omega
  rw [bit, hdiv, hmod, BitVec.getMsbD_not]
  simp [hi']

lemma clearCount_word (bm : Bitmap) (k : ℕ) :
    clearCount bm (32 * k + 32) = clearCount bm (32 * k) + popCount 32 (~~~(bm k)).toNat := by
  rw [clearCount_bits bm k le_rfl, count_getMsbD]

def Filled (bm bm' : Bitmap) (start len : ℕ) (v : Bool) : Prop :=
  ∀ b, bit bm' b = if start ≤ b ∧ b < start + len then v else bit bm b

lemma Filled.refl (bm : Bitmap) (start : ℕ) (v : Bool) : Filled bm bm start 0 v := by
  intro b
  rw [if_neg (by omega)]

lemma Filled.of_zero (h : Filled bm bm' start 0 v) (start' : ℕ) : Filled bm bm' start' 0 v := by
  intro b
  rw [h b, if_neg (by omega), if_neg (by omega)]

lemma Filled.trans {bm'' : Bitmap} {len' : ℕ} (h : Filled bm bm' start len v)
    (h' : Filled bm' bm'' (start + len) len' v) : Filled bm bm'' start (len + len') v := by
  intro b
  rw [h' b, h b]
  by_cases h1 : start + len ≤ b ∧ b < start + len + len'
  · rw [if_pos h1, if_pos (by omega)]
  by_cases h2 : start ≤ b ∧ b < start + len
  · rw [if_neg h1, if_pos h2, if_pos (by omega)]
  · rw [if_neg h1, if_neg h2, if_neg (by omega)]

lemma filled_update (hlow : 32 * k ≤ start) (hhigh : start + len ≤ 32 * k + 32)
    (hw : ∀ j < 32, w.getMsbD j = if start ≤ 32 * k + j ∧
      32 * k + j < start + len then v else (bm k).getMsbD j) :
    Filled bm (update bm k w) start len v := by
  intro b
  rw [bit_update]
  by_cases hb : b / 32 = k
  · have hsplit : 32 * k + b % 32 = b := by omega
    rw [if_pos hb, hw (b % 32) (Nat.mod_lt _ (by decide)), hsplit, bit, hb]
  · rw [if_neg hb, if_neg (by omega)]

def setBit (bm : Bitmap) (b : ℕ) : Bitmap :=
  update bm (b / 32) (bm (b / 32) ||| mask (b % 32))

lemma filled_setBit (bm : Bitmap) (b : ℕ) : Filled bm (setBit bm b) b 1 true := by
  refine filled_update (Nat.mul_div_le b 32) (by omega) fun j hj => ?_
  rw [getMsbD_or_mask (Nat.mod_lt _ (by decide)) hj]
  by_cases hbj : b % 32 = j
  · rw [if_pos (by omega)]
    simp [hbj]
  · rw [if_neg (by omega)]
    simp [hbj]

lemma Filled.clearCount_set (h : Filled bm bm' start len true)
    (hfree : ∀ b, start ≤ b → b < start + len → bit bm b = false) (hn : start + len ≤ n) :
    clearCount bm' n + len = clearCount bm n := by
  rw [clearCount, clearCount, Nat.count_eq_card_filter_range, Nat.count_eq_card_filter_range]
  have hunion : (Finset.range n).filter (fun b => bit bm b = false) =
      (Finset.range n).filter (fun b => bit bm' b = false) ∪ Finset.Ico start (start + len) := by
    ext b
    simp only [Finset.mem_filter, Finset.mem_range, Finset.mem_union, Finset.mem_Ico]
    by_cases hb : start ≤ b ∧ b < start + len
    · have := hfree b hb.1 hb.2
      simp only [this, hb, and_self, or_true, and_true, iff_true]
      omega
    · rw [h b, if_neg hb]
      simp [hb]
  have hdisj : Disjoint ((Finset.range n).filter (fun b => bit bm' b = false))
      (Finset.Ico start (start + len)) := by
    rw [Finset.disjoint_left]
    intro b hb hrun
    have hset := (Finset.mem_filter.1 hb).2
    rw [h b, if_pos (Finset.mem_Ico.1 hrun)] at hset
    cases hset
  rw [hunion, Finset.card_union_of_disjoint hdisj, Nat.card_Ico]
  omega

lemma Filled.clearCount_clear (h : Filled bm bm' start len false)
    (hset : ∀ b, start ≤ b → b < start + len → bit bm b = true) (hn : start + len ≤ n) :
    clearCount bm' n = clearCount bm n + len := by
  have hback : Filled bm' bm start len true := by
    intro b
    rw [h b]
    split
    next hb => exact hset b hb.1 hb.2
    · rfl
  refine (hback.clearCount_set (fun b h1 h2 => ?_) hn).symm
  rw [h b, if_pos ⟨h1, h2⟩]

end Bitmap

end Rhapsody.Lib
