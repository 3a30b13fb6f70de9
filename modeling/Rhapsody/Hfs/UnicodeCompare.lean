import Mathlib

/-! `FastUnicodeCompare` of `hfscommon/Unicode/UnicodeWrappers.c`, the order of the keys of the
HFS Plus catalog. -/

namespace Rhapsody.Hfs

variable (lowerCaseTable : ℕ → UInt16)

/-- The entry of the upper byte is zero or the index of the sub-table of that byte. -/
def foldChar (c : UInt16) : UInt16 :=
  let temp := lowerCaseTable (c >>> 8).toNat
  if temp ≠ 0 then lowerCaseTable (temp.toNat + (c &&& 0x00FF).toNat) else c

/-- The next non-ignorable character, or zero if there are no more, and the rest of the string. -/
def nextValidChar (c : UInt16) : List UInt16 → UInt16 × List UInt16
  | [] => (c, [])
  | u :: str => if c = 0 then nextValidChar (foldChar lowerCaseTable u) str else (c, u :: str)

/-- The outer loop; `none` is only returned when the fuel runs out. -/
def compareLoop : ℕ → List UInt16 → List UInt16 → Option ℤ
  | 0, _, _ => none
  | fuel + 1, str1, str2 =>
    let (c1, str1) := nextValidChar lowerCaseTable 0 str1
    let (c2, str2) := nextValidChar lowerCaseTable 0 str2
    if c1 ≠ c2 then some (if c1 < c2 then -1 else 1)
    -- the ends of both strings are reached at once
    else if c1 = 0 then some 0
    else compareLoop fuel str1 str2

def fastUnicodeCompare (str1 str2 : List UInt16) : Option ℤ :=
  compareLoop lowerCaseTable (str1.length + 1) str1 str2

/-! ## The order of names -/

/-- The name that is compared: every unit folded, without the ignorable ones. -/
def foldedName (str : List UInt16) : List UInt16 :=
  (str.map (foldChar lowerCaseTable)).filter (· ≠ 0)

def relativeOrder : Ordering → ℤ
  | .lt => -1
  | .eq => 0
  | .gt => 1

def compareNames (str1 str2 : List UInt16) : Ordering :=
  List.compareLex compare (foldedName lowerCaseTable str1) (foldedName lowerCaseTable str2)

instance : Std.TransCmp (compareNames lowerCaseTable) where
  eq_swap {_ _} := @Std.OrientedCmp.eq_swap _ (List.compareLex compare) _ _ _
  isLE_trans {_ _ _} := @Std.TransCmp.isLE_trans _ (List.compareLex compare) _ _ _ _

variable {lowerCaseTable}

lemma nextValidChar_of_ne {c : UInt16} (hc : c ≠ 0) (str : List UInt16) :
    nextValidChar lowerCaseTable c str = (c, str) := by
  cases str with
  | nil => rfl
  | cons u str => exact if_neg hc

lemma foldedName_nextValidChar (str : List UInt16) : foldedName lowerCaseTable str =
      if (nextValidChar lowerCaseTable 0 str).1 = 0 then []
      else (nextValidChar lowerCaseTable 0 str).1 ::
        foldedName lowerCaseTable (nextValidChar lowerCaseTable 0 str).2 := by
  induction str with
  | nil => rfl
  | cons u str ih =>
    rw [nextValidChar, if_pos rfl]
    by_cases hu : foldChar lowerCaseTable u = 0
    · rw [hu, ← ih]
      simp [foldedName, hu]
    · rw [nextValidChar_of_ne hu, if_neg hu]
      exact List.filter_cons_of_pos (by simpa using hu)

-- the end of a name, a zero, is smaller than every character that is not ignored
lemma compareLex_sentinel (c1 c2 : UInt16) (name1 name2 : List UInt16) :
    List.compareLex compare (if c1 = 0 then [] else c1 :: name1)
        (if c2 = 0 then [] else c2 :: name2) =
      (compare c1 c2).then (if c1 = 0 then .eq else List.compareLex compare name1 name2) := by
  by_cases h1 : c1 = 0
  · rw [if_pos h1, if_pos h1, h1, Ordering.then_eq]
    by_cases h2 : c2 = 0
    · rw [if_pos h2, h2, List.compareLex_nil_nil]
      rfl
    · rw [if_neg h2, List.compareLex_nil_cons]
      exact (Std.compare_eq_lt.2 (UInt16.pos_iff_ne_zero.2 h2)).symm
  rw [if_neg h1, if_neg h1]
  by_cases h2 : c2 = 0
  · rw [if_pos h2, h2, List.compareLex_cons_nil, Std.compare_eq_gt.2 (UInt16.pos_iff_ne_zero.2 h1)]
    rfl
  · rw [if_neg h2, List.compareLex_cons_cons]

lemma compareLoop_spec {fuel : ℕ} {str1 : List UInt16} (str2 : List UInt16)
    (hfuel : (foldedName lowerCaseTable str1).length < fuel) :
    compareLoop lowerCaseTable fuel str1 str2 =
      some (relativeOrder (compareNames lowerCaseTable str1 str2)) := by
  induction fuel generalizing str1 str2 with
  | zero => exact absurd hfuel (Nat.not_lt_zero _)
  | succ fuel ih =>
    rw [foldedName_nextValidChar] at hfuel
    rw [compareLoop, compareNames, foldedName_nextValidChar str1, foldedName_nextValidChar str2,
      compareLex_sentinel]
    generalize nextValidChar lowerCaseTable 0 str1 = r1 at *
    generalize nextValidChar lowerCaseTable 0 str2 = r2
    obtain ⟨c1, str1⟩ := r1
    obtain ⟨c2, str2⟩ := r2
    dsimp only at hfuel ⊢
    split
    · next hne =>
      split
      · next hlt =>
        rw [Std.compare_eq_lt.2 hlt]
        rfl
      · next hge =>
        have hgt : c2 < c1 := UInt16.lt_of_le_of_ne (UInt16.not_lt.1 hge) (Ne.symm hne)
        rw [Std.compare_eq_gt.2 hgt]
        rfl
    · next heq =>
      rw [not_not.1 heq] at hfuel ⊢
      rw [show compare c2 c2 = .eq from Std.ReflCmp.compare_self]
      split
      · rfl
      · next hzero =>
        rw [if_neg hzero] at hfuel
        exact ih str2 (Nat.lt_of_succ_lt_succ hfuel)

lemma fastUnicodeCompare_eq (str1 str2 : List UInt16) :
    fastUnicodeCompare lowerCaseTable str1 str2 =
      some (relativeOrder (compareNames lowerCaseTable str1 str2)) := by
  apply compareLoop_spec
  calc (foldedName lowerCaseTable str1).length
      ≤ (str1.map (foldChar lowerCaseTable)).length := List.length_filter_le ..
    _ < str1.length + 1 := by simp

lemma relativeOrder_swap (o : Ordering) : relativeOrder o.swap = -relativeOrder o := by
  cases o <;> rfl

lemma relativeOrder_le_zero {o : Ordering} : relativeOrder o ≤ 0 ↔ o.isLE := by
  cases o <;> decide

variable (lowerCaseTable)

theorem fastUnicodeCompare_lex (s t u : List UInt16) : fastUnicodeCompare lowerCaseTable s t =
        some (relativeOrder (compareNames lowerCaseTable s t)) ∧
      fastUnicodeCompare lowerCaseTable s s = some 0 ∧
      fastUnicodeCompare lowerCaseTable t s = (fastUnicodeCompare lowerCaseTable s t).map (- ·) ∧
      ((∃ a ≤ 0, fastUnicodeCompare lowerCaseTable s t = some a) ∧
        (∃ b ≤ 0, fastUnicodeCompare lowerCaseTable t u = some b) →
          ∃ c ≤ 0, fastUnicodeCompare lowerCaseTable s u = some c) := by
  simp only [fastUnicodeCompare_eq]
  refine ⟨trivial, ?_, ?_, ?_⟩
  · have hself : compareNames lowerCaseTable s s = .eq := Std.ReflCmp.compare_self
    rw [hself]
    rfl
  · have hswap : compareNames lowerCaseTable t s = (compareNames lowerCaseTable s t).swap :=
      Std.OrientedCmp.eq_swap
    rw [hswap, relativeOrder_swap]
    rfl
  · rintro ⟨⟨_, hst, ⟨⟩⟩, _, htu, ⟨⟩⟩
    rw [relativeOrder_le_zero] at hst htu
    exact ⟨_, relativeOrder_le_zero.2 (Std.TransCmp.isLE_trans hst htu), rfl⟩

-- a table that folds `A` and ignores U+0002
example : fastUnicodeCompare (fun i => if i = 0 then 1 else if i = 66 then 97 else
    if i = 3 then 0 else (i - 1).toUInt16) [2, 65] [97, 2] = some 0 := by decide

end Rhapsody.Hfs
