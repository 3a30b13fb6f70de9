import Rhapsody.Ipc.Entry
import Rhapsody.Lib.TwoTier

/-! The table and the tree of a space, seen as the two tiers of one map from names to
rights, with what keeps them fit for each operation. -/

namespace Rhapsody.Ipc

open Function List
open Rhapsody.Lib TwoTier

/-! ## Names -/

lemma machPortIndex_eq (name : MachPort) : machPortIndex name = name.val / 256 :=
  Nat.shiftRight_eq_div_pow name.val 8

lemma machPortGen_toNat (name : MachPort) : (machPortGen name).toNat = name.val % 256 := rfl

lemma machPort_ext (j k : MachPort) (hindex : machPortIndex j = machPortIndex k)
    (hgen : machPortGen j = machPortGen k) : j = k := by
  have hmod : j.val % 256 = k.val % 256 := congrArg BitVec.toNat hgen
  rw [machPortIndex_eq, machPortIndex_eq] at hindex
  exact Fin.ext (by omega)

variable {index : ℕ} {name : MachPort}

section
variable (h : index < 2 ^ 24)
include h

lemma machPortMake_val (gen : BitVec 8) :
    (machPortMake index gen).val = index * 256 + gen.toNat := by
  have hgen : gen.toNat < 2 ^ 8 := gen.isLt
  have hor : index <<< 8 ||| gen.toNat = index * 256 + gen.toNat := by
    rw [← Nat.shiftLeft_add_eq_or_of_lt hgen, Nat.shiftLeft_eq]
  rw [machPortMake, Fin.val_ofNat, hor]
  omega

lemma machPortIndex_make (gen : BitVec 8) : machPortIndex (machPortMake index gen) = index := by
  rw [machPortIndex_eq, machPortMake_val h]
  omega

lemma machPortGen_make (gen : BitVec 8) : machPortGen (machPortMake index gen) = gen := by
  apply BitVec.eq_of_toNat_eq
  rw [machPortGen_toNat, machPortMake_val h]
  omega

lemma machPortMake_le_iff : machPortMake index 0 ≤ name ↔ index ≤ machPortIndex name := by
  rw [Fin.le_def, machPortMake_val h, machPortIndex_eq]
  simp only [BitVec.ofNat_eq_ofNat, BitVec.toNat_ofNat]
  omega

lemma lt_machPortMake_iff : name < machPortMake index 0 ↔ machPortIndex name < index := by
  rw [← not_le, machPortMake_le_iff h, not_le]

end

/-! ## Rights -/

variable {ο : Type*}

/-- What a name stands for: the bits under `IE_BITS_RIGHT_MASK`, the object and the request. -/
structure IpcRight (ο : Type*) where
  urefs : ℕ
  type : BitVec 5
  marequest : Bool
  compat : Bool
  object : Option ο
  request : ℕ
  typed : type ≠ machPortTypeNone

namespace IpcEntry

def right? (e : IpcEntry ο) : Option (IpcRight ο) :=
  if h : e.ieBits.type ≠ machPortTypeNone then
    some ⟨e.ieBits.urefs, e.ieBits.type, e.ieBits.marequest, e.ieBits.compat, e.ieObject, e.index,
      h⟩
  else none

def setRight (e : IpcEntry ο) (r : IpcRight ο) : IpcEntry ο where
  ieBits := { e.ieBits with
    urefs := r.urefs, type := r.type, marequest := r.marequest, compat := r.compat }
  ieObject := r.object
  index := r.request

def slot (e : IpcEntry ο) : Slot (BitVec 8) (IpcRight ο) :=
  ⟨e.ieBits.gen, e.right?, e.ieBits.collision⟩

structure Loose (e : IpcEntry ο) : Prop where
  typed : e.ieBits.type ≠ machPortTypeNone
  gen : e.ieBits.gen = 0
  collision : e.ieBits.collision = false

structure IsFree (e : IpcEntry ο) : Prop where
  bits : e.ieBits = { gen := e.ieBits.gen }
  object : e.ieObject = none

@[simp] lemma right?_setRight (e : IpcEntry ο) (r : IpcRight ο) :
    (e.setRight r).right? = some r := by
  unfold right?
  exact dif_pos r.typed

@[simp] lemma slot_setRight (e : IpcEntry ο) (r : IpcRight ο) :
    (e.setRight r).slot = { e.slot with held := some r } := by
  rw [slot, right?_setRight]
  rfl

lemma right?_eq_none {e : IpcEntry ο} : e.right? = none ↔ e.ieBits.type = machPortTypeNone := by
  simp [right?]

lemma Loose.slot_atName {e : IpcEntry ο} (h : e.Loose) (name : MachPort) :
    (e.atName name).slot = ⟨machPortGen name, e.right?, false⟩ := by
  simp [slot, atName, right?, h.gen, h.collision]

end IpcEntry

/-! ## The table and its free list -/

def slotsOf (table : List (IpcEntry ο)) (i : ℕ) : Option (Slot (BitVec 8) (IpcRight ο)) :=
  (table[i]?).map IpcEntry.slot

variable {table : List (IpcEntry ο)} {i p n : ℕ} {e e' : IpcEntry ο}

section
variable (he : table[i]? = some e)
include he

lemma slotsOf_set (e' : IpcEntry ο) :
    slotsOf (table.set i e') = Function.update (slotsOf table) i (some e'.slot) := by
  obtain ⟨hi, -⟩ := List.getElem?_eq_some_iff.1 he
  funext j
  by_cases hj : j = i
  · subst hj
    simp [slotsOf, getElem?_set_self hi]
  · rw [update_of_ne hj, slotsOf, getElem?_set_ne (Ne.symm hj), slotsOf]

lemma ieNext_set (e' : IpcEntry ο) :
    ieNext (table.set i e') = Function.update (ieNext table) i e'.index := by
  obtain ⟨hi, -⟩ := List.getElem?_eq_some_iff.1 he
  funext j
  by_cases hj : j = i
  · subst hj
    simp [ieNext, getElem?_set_self hi]
  · rw [update_of_ne hj, ieNext, getElem?_set_ne (Ne.symm hj), ieNext]

lemma modify_eq_set (f : IpcEntry ο → IpcEntry ο) : table.modify i f = table.set i (f e) := by
  obtain ⟨hi, rfl⟩ := List.getElem?_eq_some_iff.1 he
  exact modify_eq_set_get f hi

lemma setIeNext_eq_set (n : ℕ) :
    setIeNext table i n = table.set i { e with index := n } := modify_eq_set he _

lemma slotsOf_setIeNext (htype : e.ieBits.type = machPortTypeNone) (n : ℕ) :
    slotsOf (setIeNext table i n) = slotsOf table := by
  have hslot : slotsOf table i = some ({ e with index := n } : IpcEntry ο).slot := by
    simp [slotsOf, he, IpcEntry.slot, IpcEntry.right?, htype]
  rw [setIeNext_eq_set he, slotsOf_set he, ← hslot, update_eq_self]

end

structure TableOk (table : List (IpcEntry ο)) : Prop where
  base : ∃ e, table[0]? = some e ∧ e.ieBits.type = machPortTypeNone ∧ e.ieBits.gen = 0xff
  free : ∀ {i e}, i ≠ 0 → table[i]? = some e → e.ieBits.type = machPortTypeNone → e.IsFree
  threads : ∃ xs, Threads (ieNext table) xs ∧
    ∀ i, i ∈ xs ↔ i ≠ 0 ∧ ∃ e, table[i]? = some e ∧ e.ieBits.type = machPortTypeNone

namespace TableOk

variable (h : TableOk table)
include h

lemma set (he : table[i]? = some e)
    (hbase : i = 0 → e'.index = e.index ∧ e'.ieBits.type = machPortTypeNone ∧
      e'.ieBits.gen = e.ieBits.gen)
    (hused : i ≠ 0 → e.ieBits.type ≠ machPortTypeNone ∧ e'.ieBits.type ≠ machPortTypeNone) :
    TableOk (table.set i e') := by
  obtain ⟨hi, -⟩ := List.getElem?_eq_some_iff.1 he
  obtain ⟨xs, hthreads, hmem⟩ := h.threads
  have hother : ∀ {j}, j ≠ i → (table.set i e')[j]? = table[j]? := fun hj =>
    getElem?_set_ne (Ne.symm hj)
  have hself : (table.set i e')[i]? = some e' := getElem?_set_self hi
  have htypeless : ∀ j, j ≠ 0 →
      ((∃ d, (table.set i e')[j]? = some d ∧ d.ieBits.type = machPortTypeNone) ↔
      ∃ d, table[j]? = some d ∧ d.ieBits.type = machPortTypeNone) := by
    intro j hj
    by_cases hji : j = i
    · subst hji
      simp [hself, he, hused hj]
    · rw [hother hji]
  refine ⟨?_, ?_, xs, ?_, fun j => ?_⟩
  · by_cases hi0 : i = 0
    · subst hi0
      obtain ⟨e0, he0, -, hgen⟩ := h.base
      obtain rfl : e0 = e := Option.some.inj (he0.symm.trans he)
      exact ⟨e', hself, (hbase rfl).2.1, (hbase rfl).2.2.trans hgen⟩
    · rw [hother (Ne.symm hi0)]
      exact h.base
  · intro j d hj hd htype
    by_cases hji : j = i
    · subst hji
      rw [hself, Option.some.injEq] at hd
      exact absurd (hd ▸ htype) (hused hj).2
    · exact h.free hj (hother hji ▸ hd) htype
  · rw [ieNext_set he]
    by_cases hi0 : i = 0
    · have hindex : e'.index = ieNext table i := by simp [ieNext, he, (hbase hi0).1]
      rwa [hindex, update_eq_self]
    refine hthreads.congr (update_of_ne (Ne.symm hi0) _ _) fun x hx => ?_
    refine update_of_ne ?_ _ _
    rintro rfl
    obtain ⟨-, d, hd, htype⟩ := (hmem x).1 hx
    obtain rfl : d = e := Option.some.inj (hd.symm.trans he)
    exact (hused hi0).1 htype
  · rw [hmem]
    exact and_congr_right fun hj => (htypeless j hj).symm

lemma release (hi : i ≠ 0) (he : table[i]? = some e) (htyped : e.ieBits.type ≠ machPortTypeNone)
    (hobject : e.ieObject = none) :
    TableOk (setIeNext (table.set i
      { e with ieBits := { gen := e.ieBits.gen }, index := ieNext table 0 }) 0 i) := by
  obtain ⟨hlt, -⟩ := List.getElem?_eq_some_iff.1 he
  obtain ⟨e0, he0, htype0, hgen0⟩ := h.base
  obtain ⟨xs, hthreads, hmem⟩ := h.threads
  set e' : IpcEntry ο := { e with ieBits := { gen := e.ieBits.gen }, index := ieNext table 0 }
  have hzero : (table.set i e')[0]? = some e0 := by rw [getElem?_set_ne hi, he0]
  have hself : (table.set i e')[i]? = some e' := getElem?_set_self hlt
  have hnotMem : i ∉ xs := by
    intro hix
    obtain ⟨-, d, hd, htype⟩ := (hmem i).1 hix
    obtain rfl : d = e := Option.some.inj (hd.symm.trans he)
    exact htyped htype
  rw [setIeNext_eq_set hzero]
  have hget : ∀ {j}, j ≠ 0 → ((table.set i e').set 0 { e0 with index := i })[j]? =
      if j = i then some e' else table[j]? := by
    intro j hj
    rw [getElem?_set_ne (Ne.symm hj)]
    split_ifs with hji
    · rw [hji, hself]
    · rw [getElem?_set_ne (Ne.symm hji)]
  refine ⟨⟨{ e0 with index := i }, ?_, htype0, hgen0⟩, ?_, i :: xs, ?_, fun j => ?_⟩
  · rw [getElem?_set_self (by simp; omega)]
  · intro j d hj hd htype
    rw [hget hj] at hd
    split_ifs at hd with hji
    · rw [← Option.some.inj hd]
      exact ⟨rfl, hobject⟩
    · exact h.free hj hd htype
  · rw [ieNext_set hzero, ieNext_set he]
    refine hthreads.push hi hnotMem (update_self ..) ?_ fun x hx => ?_
    · rw [update_of_ne hi, update_self]
    have hx0 : x ≠ 0 := ((hmem x).1 hx).1
    have hxi : x ≠ i := fun hxi => hnotMem (hxi ▸ hx)
    rw [update_of_ne hx0, update_of_ne hxi]
  rw [mem_cons, hmem]
  by_cases hj : j = 0
  · simp [hj, Ne.symm hi]
  rw [hget hj]
  by_cases hji : j = i
  · simp [hji, hi, e']
  · simp [hji, hj]

lemma take (e' : IpcEntry ο) (hi : i ≠ 0) (he : table[i]? = some e)
    (hfree : e.ieBits.type = machPortTypeNone)
    (htyped : e'.ieBits.type ≠ machPortTypeNone) :
    ∃ p d, predecessor (ieNext table) i table.length 0 = p ∧ table[p]? = some d ∧
      d.ieBits.type = machPortTypeNone ∧ p ≠ i ∧
        TableOk ((setIeNext table p e.index).set i e') := by
  obtain ⟨hlt, -⟩ := List.getElem?_eq_some_iff.1 he
  obtain ⟨fl, hthreads, hmem⟩ := h.threads
  obtain ⟨xs, ys, rfl⟩ := append_of_mem ((hmem i).2 ⟨hi, e, he, hfree⟩)
  have hfuel : xs.length < table.length := by
    have hle := hthreads.length_le fun j hj => by
      obtain ⟨-, d, hd, -⟩ := (hmem j).1 hj
      exact (List.getElem?_eq_some_iff.1 hd).1
    simp only [length_append, length_cons] at hle
    omega
  have hpred := hthreads.pred_eq hfuel
  have hthreads' := hthreads.unlink
  set p := (0 :: xs).getLast (by simp)
  have hpmem : p = 0 ∨ p ∈ xs := mem_cons.1 (getLast_mem _)
  have hixs : i ∉ xs ++ ys := (nodup_middle.1 hthreads.nodup).notMem
  have hpi : p ≠ i := by
    rintro rfl
    exact hpmem.elim hi fun hp => hixs (by simp [hp])
  obtain ⟨d, hd, htype⟩ : ∃ d, table[p]? = some d ∧ d.ieBits.type = machPortTypeNone := by
    obtain hp | hp := hpmem
    · obtain ⟨e0, he0, htype0, -⟩ := h.base
      exact ⟨e0, hp ▸ he0, htype0⟩
    · exact ((hmem p).1 (by simp [hp])).2
  refine ⟨p, d, hpred, hd, htype, hpi, ?_⟩
  have hpi' : (table.set p { d with index := e.index })[i]? = some e := by
    rw [getElem?_set_ne hpi, he]
  have hget : ∀ {j}, j ≠ i → ((table.set p { d with index := e.index }).set i e')[j]? =
      if j = p then some { d with index := e.index } else table[j]? := by
    intro j hj
    rw [getElem?_set_ne (Ne.symm hj)]
    split_ifs with hjp
    · rw [hjp, List.getElem?_set_self (List.getElem?_eq_some_iff.1 hd).1]
    · rw [getElem?_set_ne (Ne.symm hjp)]
  have hself : ((table.set p { d with index := e.index }).set i e')[i]? = some e' :=
    getElem?_set_self (by simpa using hlt)
  rw [setIeNext_eq_set hd]
  refine ⟨?_, ?_, xs ++ ys, ?_, fun j => ?_⟩
  · obtain ⟨e0, he0, htype0, hgen0⟩ := h.base
    rw [hget (Ne.symm hi)]
    split_ifs with hp
    · obtain rfl : e0 = d := Option.some.inj (he0.symm.trans (hp ▸ hd))
      exact ⟨_, rfl, htype0, hgen0⟩
    · exact ⟨e0, he0, htype0, hgen0⟩
  · intro j c hj hc hctype
    by_cases hji : j = i
    · subst hji
      rw [hself, Option.some.injEq] at hc
      exact absurd (hc ▸ hctype) htyped
    rw [hget hji] at hc
    split_ifs at hc with hjp
    · rw [← Option.some.inj hc]
      have hdfree : d.IsFree := h.free (hjp ▸ hj) hd htype
      exact ⟨hdfree.bits, hdfree.object⟩
    · exact h.free hj hc hctype
  · have hindex : e.index = ieNext table i := by simp [ieNext, he]
    rw [ieNext_set hpi', ieNext_set hd, hindex]
    refine hthreads'.congr (update_of_ne (Ne.symm hi) _ _) fun x hx => ?_
    refine update_of_ne ?_ _ _
    rintro rfl
    exact hixs hx
  by_cases hji : j = i
  · subst hji
    simp [hself, hixs, htyped]
  have hmem' : j ∈ xs ++ ys ↔ j ∈ xs ++ i :: ys := by simp [hji]
  rw [hmem', hmem, hget hji]
  by_cases hjp : j = p
  · subst hjp
    simp [hd, htype]
  · simp [hjp]

end TableOk

end Rhapsody.Ipc
