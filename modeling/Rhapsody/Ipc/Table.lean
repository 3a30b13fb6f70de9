import Mathlib

/-! The sizes a table of `ipc/ipc_table.c` may have. -/

namespace Rhapsody.Ipc

def pageSize : ℕ := 8192

/-- The loop variables of `ipc_table_fill`, with the elements stored so far, latest first. -/
structure TableFill where
  index : ℕ
  size : ℕ
  its : List ℕ

def TableFill.store (minsize elemsize : ℕ) (f : TableFill) : TableFill :=
  if minsize ≤ f.size then { f with index := f.index + 1, its := f.size / elemsize :: f.its } else f

def fillPowers (num minsize elemsize : ℕ) : ℕ → TableFill → TableFill
  | 0, f => f
  | fuel + 1, f =>
    if f.index < num ∧ f.size < pageSize then
      fillPowers num minsize elemsize fuel
        { f.store minsize elemsize with size := f.size <<< 1 }
    else f

def fillPeriod (num minsize elemsize incrsize : ℕ) : ℕ → TableFill → TableFill
  | 0, f => f
  | period + 1, f =>
    if f.index < num then
      fillPeriod num minsize elemsize incrsize period
        { f.store minsize elemsize with size := f.size + incrsize }
    else f

def fillPages (num minsize elemsize : ℕ) : ℕ → ℕ → TableFill → TableFill
  | 0, _, f => f
  | fuel + 1, incrsize, f =>
    if f.index < num then
      fillPages num minsize elemsize fuel
        (if incrsize < pageSize <<< 3 then incrsize <<< 1 else incrsize)
        (fillPeriod num minsize elemsize incrsize 15 f)
    else f

def ipcTableFill (num min elemsize : ℕ) : List ℕ :=
  let minsize := min * elemsize
  (fillPages num minsize elemsize num pageSize
    (fillPowers num minsize elemsize 32 ⟨0, 1, []⟩)).its.reverse

def ipcTableEntriesSize : ℕ := 512

def sizeofIpcEntry : ℕ := 16

def sizeofIpcTreeEntry : ℕ := 32

/-- All but the last element of `ipc_table_entries`, which repeats the one before it. -/
def ipcTableEntriesFilled : List ℕ := ipcTableFill (ipcTableEntriesSize - 1) 4 sizeofIpcEntry

/-- Table sizes: strictly increasing up to element `last`, the one after it repeating the size, and
none so large that it has a slot for `MACH_PORT_DEAD`. -/
structure IpcTableSizes where
  itsSize : ℕ → ℕ
  last : ℕ
  first_ge : 4 ≤ itsSize 0
  increasing : ∀ i < last, itsSize i < itsSize (i + 1)
  repeats : itsSize (last + 1) = itsSize last
  largest_le : itsSize last ≤ 2 ^ 24 - 1

lemma ipcTableEntriesFilled_isChain : List.IsChain (· < ·) ipcTableEntriesFilled := by
  decide +kernel

lemma ipcTableEntriesFilled_length : ipcTableEntriesFilled.length = 511 := by decide +kernel

def ipcTableEntries : IpcTableSizes where
  itsSize i := ipcTableEntriesFilled.getD (min i 510) 0
  last := 510
  first_ge := by decide +kernel
  increasing i hi := by
    have hlength := ipcTableEntriesFilled_length
    have hstep := List.isChain_iff_getElem.1 ipcTableEntriesFilled_isChain i (by omega)
    rw [min_eq_left (by omega), min_eq_left (by omega), List.getD_eq_getElem _ _ (by omega),
      List.getD_eq_getElem _ _ (by omega)]
    exact hstep
  repeats := rfl
  largest_le := by decide +kernel

namespace IpcTableSizes

variable (its : IpcTableSizes)

lemma itsSize_mono {i j : ℕ} (hij : i ≤ j) (hj : j ≤ its.last) : its.itsSize i ≤ its.itsSize j := by
  induction j, hij using Nat.le_induction with
  | base => exact le_rfl
  | succ j _ ih => exact (ih (by omega)).trans (its.increasing j (by omega)).le

lemma four_le {i : ℕ} (hi : i ≤ its.last + 1) : 4 ≤ its.itsSize i := by
  obtain hi | rfl : i ≤ its.last ∨ i = its.last + 1 := by omega
  · exact its.first_ge.trans (its.itsSize_mono (Nat.zero_le _) hi)
  · rw [its.repeats]
    exact its.first_ge.trans (its.itsSize_mono (Nat.zero_le _) le_rfl)

lemma itsSize_le {i : ℕ} (hi : i ≤ its.last + 1) : its.itsSize i ≤ 2 ^ 24 - 1 := by
  obtain hi | rfl : i ≤ its.last ∨ i = its.last + 1 := by omega
  · exact (its.itsSize_mono hi le_rfl).trans its.largest_le
  · exact its.repeats ▸ its.largest_le

end IpcTableSizes

end Rhapsody.Ipc
