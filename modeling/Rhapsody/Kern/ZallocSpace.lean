import Rhapsody.Kern.ZallocHints

/-! What the operations on one free space and on one zone do to the memory they cover: trimming
an entry, adding a region, collecting elements, and the free list of a zone. -/

namespace Rhapsody.Kern
open Rhapsody.Lib List

variable {new : Region}

namespace ZoneFreeSpace

variable {fs fs' : ZoneFreeSpace} {size : ℕ}

structure SameKind (fs fs' : ZoneFreeSpace) : Prop where
  allocUnit : fs'.allocUnit = fs.allocUnit
  allocMax : fs'.allocMax = fs.allocMax
  hashShift : fs'.hashShift = fs.hashShift
  numHints : fs'.numHints = fs.numHints

variable {l : ℕ} {r e : Region} {ys : List Region} {p : Place}

lemma SameKind.isSize (h : SameKind fs fs') (hl : fs.IsSize l) : fs'.IsSize l :=
  ⟨hl.pos, by rw [granule, h.allocUnit]; exact hl.dvd, hl.lt⟩

lemma SameKind.geometry (h : SameKind fs fs') (hg : fs.Geometry) : fs'.Geometry := by
  obtain ⟨h1, h2, h3, h4⟩ := h
  obtain ⟨hkind, hpos⟩ := hg
  exact ⟨by rwa [h1, h2, h3, h4], by rwa [h4]⟩

lemma SameKind.trans {fs'' : ZoneFreeSpace} (h : SameKind fs fs') (h' : SameKind fs' fs'') :
    SameKind fs fs'' :=
  ⟨h'.allocUnit.trans h.allocUnit, h'.allocMax.trans h.allocMax, h'.hashShift.trans h.hashShift,
    h'.numHints.trans h.numHints⟩

lemma Tidy.of_kind (h : fs.Tidy) (hkind : SameKind fs fs') (hasc : Ascending fs'.entries)
    (hsizes : ∀ e ∈ fs'.entries, fs.IsSize e.length) (hhints : fs'.HintsFor fs'.entries)
    (hnum : fs'.numEntries = fs'.entries.length) : fs'.Tidy :=
  ⟨hkind.geometry h.geometry, hasc, fun e he => hkind.isSize (hsizes e he), hhints, hnum⟩

def InKernel (r : Region) : Prop := 0 < r.start ∧ r.start + r.length ≤ 0x40000000

lemma Geometry.min_dvd_granule (hg : fs.Geometry) : zoneMinAlloc ∣ fs.granule := by
  obtain ⟨hunit, -⟩ | ⟨-, -, hdvd, -⟩ := hg.kind
  · simp [granule, hunit]
  rw [granule]
  obtain h | h := le_total zoneMinAlloc fs.allocUnit
  · rwa [max_eq_right h]
  · rw [max_eq_left h]

lemma Geometry.granule_dvd_page (hg : fs.Geometry) : fs.granule ∣ pageSize := by
  obtain ⟨hunit, -⟩ | ⟨-, -, hdvd, hpage⟩ := hg.kind
  · rw [granule, hunit]
    decide
  rw [granule]
  obtain h | h := le_total zoneMinAlloc fs.allocUnit
  · rwa [max_eq_right h]
  · rw [max_eq_left h]
    exact hdvd.trans hpage

lemma IsSize.sub (hl : fs.IsSize l) (hs : fs.IsSize size) (h : size < l) : fs.IsSize (l - size) :=
  ⟨Nat.sub_pos_of_lt h, Nat.dvd_sub hl.dvd hs.dvd, (Nat.sub_le _ _).trans_lt hl.lt⟩

lemma IsSize.add (hl : fs.IsSize l) (hs : fs.IsSize size) (h : l + size < 2 ^ 31) :
    fs.IsSize (l + size) := ⟨Nat.add_pos_left hl.pos _, Nat.dvd_add hl.dvd hs.dvd, h⟩

lemma Geometry.sub_small_iff (hg : fs.Geometry) (hl : fs.IsSize l) (hs : fs.IsSize size)
    (h : size ≤ l) : sub32 l size < zoneMinAlloc ↔ l = size := by
  have hlt : l < 2 ^ 31 := hl.lt
  rw [sub32_of_le h (by omega)]
  constructor
  · intro hsmall
    have hdvd : zoneMinAlloc ∣ l - size := hg.min_dvd_granule.trans (Nat.dvd_sub hl.dvd hs.dvd)
    have hzero := Nat.eq_zero_of_dvd_of_lt hdvd hsmall
    omega
  · rintro rfl
    simp [zoneMinAlloc]

lemma Tidy.insert (h : fs.Tidy) (hkind : SameKind fs fs') {xs : List Region} {n : ℕ}
    (hasc : Ascending (xs ++ ys)) (hsizes : ∀ e ∈ xs ++ ys, fs.IsSize e.length)
    (hhints : fs'.HintsFor (xs ++ ys)) (hr : fs.IsSize r.length)
    (hx : ∀ a ∈ xs, a.start + a.length ≤ r.start) (hy : ∀ a ∈ ys, r.start + r.length ≤ a.start)
    (hn : n = (xs ++ r :: ys).length) :
    (zoneFreeSpaceHintInsert { fs' with entries := xs ++ r :: ys, numEntries := n } r).Tidy := by
  have hkind' : SameKind fs
      (zoneFreeSpaceHintInsert { fs' with entries := xs ++ r :: ys, numEntries := n } r) :=
    ⟨hkind.allocUnit, hkind.allocMax, hkind.hashShift, hkind.numHints⟩
  refine h.of_kind hkind' (hasc.insert hx hy) (fun e he => ?_) ?_ hn
  · have hmem : e ∈ xs ++ r :: ys := he
    obtain he | rfl | he : e ∈ xs ∨ e = r ∨ e ∈ ys := by simpa using hmem
    · exact hsizes e (mem_append_left _ he)
    · exact hr
    · exact hsizes e (mem_append_right _ he)
  refine HintsFor.insert hhints (fun a ha => ?_) fun a ha => ?_
  · have hpos := (hsizes a (mem_append_left _ ha)).pos
    have hle := hx a ha
    omega
  have hpos := hr.pos
  have hle := hy a ha
  omega

lemma Tidy.takeFront (h : fs.Tidy) (hs : fs.IsSize size) (hfound : fs.Found size p fs')
    (hrange : ∀ e ∈ fs.entries, InKernel e) :
    (fs'.takeFront p size).Tidy ∧ SameKind fs (fs'.takeFront p size) ∧
      ∀ b, cover [⟨p.cur.start, size⟩] b + cover (fs'.takeFront p size).entries b =
        cover fs.entries b := by
  obtain ⟨hp, hle, hhints, hrest⟩ := hfound
  obtain ⟨table, rfl⟩ : ∃ table, fs' = { fs with hints := table } := ⟨_, hrest⟩
  obtain ⟨hasc, -, hcur, hkept, hbelow, habove⟩ := h.at_mid hp.symm
  rw [← hp, Place.entries] at hrange
  have hkernel := hrange p.cur (by simp)
  have hlength : fs.numEntries = (p.before ++ p.cur :: p.after).length := by
    rw [h.numEntries, ← hp, Place.entries]
  have hcover : ∀ b, cover fs.entries b =
      cover (p.before ++ p.after) b + cover [⟨p.cur.start, p.cur.length⟩] b := fun b => by
    rw [← hp, Place.entries, cover_mid]
  unfold ZoneFreeSpace.takeFront
  split_ifs with hsmall
  · -- the whole entry goes
    have heq : p.cur.length = size := (h.geometry.sub_small_iff hcur hs hle).1 hsmall
    refine ⟨h.of_kind ⟨rfl, rfl, rfl, rfl⟩ hasc.erase hkept hhints ?_, ⟨rfl, rfl, rfl, rfl⟩,
      fun b => ?_⟩
    · simp only [hlength, length_append, length_cons]
      omega
    · rw [hcover, heq, add_comm]
  have hlt : size < p.cur.length := lt_of_le_of_ne hle fun heq =>
    hsmall ((h.geometry.sub_small_iff hcur hs hle).2 heq.symm)
  obtain ⟨hstart, hend⟩ := hkernel
  have hnew : (⟨add32 p.cur.start size, sub32 p.cur.length size⟩ : Region) =
      ⟨p.cur.start + size, p.cur.length - size⟩ := by
    rw [add32_of_lt (by omega), sub32_of_le hle (by omega)]
  rw [hnew]
  have hbefore : ∀ a ∈ p.before, a.start + a.length ≤ p.cur.start + size := fun a ha =>
    (hasc.sides.1 a ha).trans (Nat.le_add_right _ _)
  have hafter : ∀ a ∈ p.after, p.cur.start + size + (p.cur.length - size) ≤ a.start := by
    intro a ha
    have := hasc.sides.2 a ha
    omega
  have hkind : SameKind fs { fs with hints := table } := ⟨rfl, rfl, rfl, rfl⟩
  refine ⟨h.insert hkind hasc.erase hkept hhints (hcur.sub hs hlt) hbefore hafter
    (by simp [hlength]), ⟨rfl, rfl, rfl, rfl⟩, fun b => ?_⟩
  have hsplit := cover_split p.cur.start size (p.cur.length - size) b
  rw [Nat.add_sub_cancel' hle] at hsplit
  rw [hcover, hsplit]
  change _ + cover (p.before ++ _ :: p.after) b = _
  rw [cover_mid]
  omega

/-! ## Growth -/

/-- The new region abuts an entry below it, lies above all entries, or is used up. -/
def GrowthFits (fs : ZoneFreeSpace) (size newSpace spaceToAdd : ℕ) : Prop :=
  (∃ e ∈ fs.entries, e.start + e.length = newSpace) ∨ (∀ e ∈ fs.entries, e.start < newSpace) ∨
    size = spaceToAdd

structure Addable (fs : ZoneFreeSpace) (size newSpace spaceToAdd : ℕ) : Prop where
  isSize : fs.IsSize size
  isSize_space : fs.IsSize spaceToAdd
  le : size ≤ spaceToAdd
  inKernel : InKernel ⟨newSpace, spaceToAdd⟩
  apart : ∀ e ∈ fs.entries, newSpace + spaceToAdd ≤ e.start ∨ e.start + e.length ≤ newSpace

/-- The element comes off the front, and the remainder is in the list or, if the region does not
fit, nowhere. -/
structure Grown (fs : ZoneFreeSpace) (size newSpace spaceToAdd : ℕ) (r : ℕ × ZoneFreeSpace) :
    Prop where
  tidy : r.2.Tidy
  kind : SameKind fs r.2
  fits : fs.GrowthFits size newSpace spaceToAdd → ∀ b, cover [⟨r.1, size⟩] b + cover r.2.entries b =
      cover fs.entries b + cover [⟨newSpace, spaceToAdd⟩] b
  lost : ¬fs.GrowthFits size newSpace spaceToAdd → r = (newSpace, fs)

lemma regionEnd_eq (h : InKernel r) : regionEnd r = r.start + r.length :=
  add32_of_lt (by have := h.2; omega)

section
variable {newSpace spaceToAdd : ℕ} (h : fs.Tidy) (hrange : ∀ e ∈ fs.entries, InKernel e)
  (hadd : fs.Addable size newSpace spaceToAdd)
include h hrange hadd

omit hrange in
lemma Tidy.add_at_end
    (hplace : placeOf (fun cur => ¬(cur.start < newSpace ∧ regionEnd cur ≠ newSpace))
      fs.entries = none) :
    fs.Grown size newSpace spaceToAdd (fs.zoneFreeSpaceAdd size newSpace spaceToAdd) := by
  have hbelow : ∀ e ∈ fs.entries, e.start < newSpace := fun e he => by
    have := placeOf_eq_none hplace e he
    simp_all
  have hfits : fs.GrowthFits size newSpace spaceToAdd := .inr (.inl hbelow)
  have hends : ∀ e ∈ fs.entries, e.start + e.length ≤ newSpace := fun e he => by
    have := hbelow e he
    have := hadd.apart e he
    omega
  obtain ⟨hstart, hend⟩ := hadd.inKernel
  have hle := hadd.le
  dsimp only at hstart hend
  have hrest : (⟨add32 newSpace size, sub32 spaceToAdd size⟩ : Region) =
      ⟨newSpace + size, spaceToAdd - size⟩ := by
    rw [add32_of_lt (by omega), sub32_of_le hle (by omega)]
  have hsplit := cover_split newSpace size (spaceToAdd - size)
  rw [Nat.add_sub_cancel' hle] at hsplit
  unfold zoneFreeSpaceAdd
  simp only [hplace]
  split_ifs with hroom
  · have hlt : size < spaceToAdd := lt_of_le_of_ne hle fun heq => hroom.not_gt
      ((h.geometry.sub_small_iff hadd.isSize_space hadd.isSize hle).2 heq.symm)
    have hkind : SameKind fs fs := ⟨rfl, rfl, rfl, rfl⟩
    rw [hrest]
    refine ⟨h.insert hkind (by simpa using h.ascending) (by simpa using h.sizes)
      (by simpa using h.hints) (hadd.isSize_space.sub hadd.isSize hlt)
      (fun a ha => (hends a ha).trans (Nat.le_add_right _ _)) (by simp) (by simp [h.numEntries]),
      ⟨rfl, rfl, rfl, rfl⟩, fun _ b => ?_, fun hnot => absurd hfits hnot⟩
    change cover [⟨newSpace, size⟩] b + cover (fs.entries ++ _) b = _
    rw [cover_append, hsplit]
    omega
  · have heq : spaceToAdd = size :=
      (h.geometry.sub_small_iff hadd.isSize_space hadd.isSize hle).1 (not_le.1 hroom)
    exact ⟨h, ⟨rfl, rfl, rfl, rfl⟩, fun _ b => by rw [heq, add_comm], fun hnot => absurd hfits hnot⟩

lemma Tidy.add_abutting (hp : p.entries = fs.entries) (habut : regionEnd p.cur = newSpace)
    (hplace : placeOf (fun cur => ¬(cur.start < newSpace ∧
      regionEnd cur ≠ newSpace)) fs.entries = some p) :
    fs.Grown size newSpace spaceToAdd (fs.zoneFreeSpaceAdd size newSpace spaceToAdd) := by
  obtain ⟨hasc, hhints, hcur, hkept, hlt⟩ := h.at_mid hp.symm
  have hcurmem : p.cur ∈ fs.entries := by simp [← hp, Place.entries]
  rw [regionEnd_eq (hrange _ hcurmem)] at habut
  subst habut
  have hfits : fs.GrowthFits size (p.cur.start + p.cur.length) spaceToAdd :=
    .inl ⟨p.cur, hcurmem, rfl⟩
  obtain ⟨hstart, hend⟩ := hadd.inKernel
  have hle := hadd.le
  have hsize := hadd.isSize
  dsimp only at hstart hend
  have hlpos := hcur.pos
  have hend_cur : regionEnd p.cur = p.cur.start + p.cur.length := regionEnd_eq (hrange _ hcurmem)
  have hnew : (⟨add32 p.cur.start size, sub32 (add32 p.cur.length spaceToAdd) size⟩ : Region) =
      ⟨p.cur.start + size, p.cur.length + spaceToAdd - size⟩ := by
    rw [add32_of_lt (by omega), add32_of_lt (by omega), sub32_of_le (by omega) (by omega)]
  have hglued : fs.IsSize (p.cur.length + spaceToAdd - size) :=
    ⟨by omega, Nat.dvd_sub (Nat.dvd_add hcur.dvd hadd.isSize_space.dvd) hsize.dvd, by omega⟩
  have hafter : ∀ a ∈ p.after,
      p.cur.start + size + (p.cur.length + spaceToAdd - size) ≤ a.start := by
    intro a ha
    have hsides := hasc.sides.2 a ha
    have hpos := (hkept a (mem_append_right _ ha)).pos
    have hapart := hadd.apart a (by simp [← hp, Place.entries, ha])
    omega
  have hdelete : (fs.zoneFreeSpaceHintDelete p.cur p.after).HintsFor (p.before ++ p.after) :=
    hhints.delete h.geometry hcur (fun a ha => hkept a (mem_append_right _ ha)) hlt.1
  have hkind : SameKind fs (fs.zoneFreeSpaceHintDelete p.cur p.after) := ⟨rfl, rfl, rfl, rfl⟩
  have hresult : fs.zoneFreeSpaceAdd size (p.cur.start + p.cur.length) spaceToAdd =
      (p.cur.start, zoneFreeSpaceHintInsert
        { fs.zoneFreeSpaceHintDelete p.cur p.after with
          entries := p.before ++ ⟨p.cur.start + size, p.cur.length + spaceToAdd - size⟩ :: p.after }
        ⟨p.cur.start + size, p.cur.length + spaceToAdd - size⟩) := by
    simp only [zoneFreeSpaceAdd, hplace, hend_cur, lt_irrefl, if_false, if_true, hnew]
  rw [hresult]
  refine ⟨h.insert hkind hasc.erase hkept hdelete hglued
    (fun a ha => (hasc.sides.1 a ha).trans (Nat.le_add_right _ _)) hafter ?_,
    ⟨rfl, rfl, rfl, rfl⟩, fun _ b => ?_, fun hnot => absurd hfits hnot⟩
  · change fs.numEntries = _
    rw [h.numEntries, ← hp, Place.entries]
    simp
  change cover [⟨p.cur.start, size⟩] b + cover (p.before ++ _ :: p.after) b = _
  -- the glued region cut behind the old entry, and cut behind the element
  have hcut : cover [⟨p.cur.start, p.cur.length + spaceToAdd⟩] b = cover [p.cur] b +
      cover [⟨p.cur.start + p.cur.length, spaceToAdd⟩] b := cover_split ..
  have hcut' := cover_split p.cur.start size (p.cur.length + spaceToAdd - size) b
  rw [Nat.add_sub_cancel' (by omega)] at hcut'
  rw [← hp, Place.entries, cover_mid, cover_mid]
  omega

lemma Tidy.add_below (hp : p.entries = fs.entries)
    (hbefore : ∀ e ∈ p.before, e.start < newSpace ∧ regionEnd e ≠ newSpace)
    (hcur : newSpace ≤ p.cur.start)
    (hplace : placeOf (fun cur => ¬(cur.start < newSpace ∧
      regionEnd cur ≠ newSpace)) fs.entries = some p) :
    fs.Grown size newSpace spaceToAdd (fs.zoneFreeSpaceAdd size newSpace spaceToAdd) := by
  have hasc := h.ascending
  have hsizes := h.sizes
  rw [← hp, Place.entries] at hasc hsizes
  have hmem : ∀ e, e ∈ p.before ∨ e = p.cur ∨ e ∈ p.after → e ∈ fs.entries := by
    simp [← hp, Place.entries]
  have hkernel := hrange p.cur (hmem _ (by simp))
  have hpos := (hsizes p.cur (by simp)).pos
  have hresult : fs.zoneFreeSpaceAdd size newSpace spaceToAdd = (newSpace, fs) := by
    have hnot : ¬regionEnd p.cur < newSpace ∧ regionEnd p.cur ≠ newSpace := by
      rw [regionEnd_eq hkernel]
      omega
    simp only [zoneFreeSpaceAdd, hplace, hnot.1, hnot.2, if_false]
  rw [hresult]
  refine ⟨h, ⟨rfl, rfl, rfl, rfl⟩, ?_, fun _ => rfl⟩
  rintro (⟨e, he, habut⟩ | hall | rfl) b
  · have habut' : regionEnd e = newSpace := (regionEnd_eq (hrange e he)).trans habut
    rw [← hp, Place.entries] at he
    obtain he | rfl | he : e ∈ p.before ∨ e = p.cur ∨ e ∈ p.after := by simpa using he
    · exact absurd habut' (hbefore e he).2
    · omega
    · have hsides := hasc.sides.2 e he
      omega
  · exact absurd (hall p.cur (hmem _ (by simp))) hcur.not_gt
  · exact add_comm ..

lemma Tidy.add : fs.Grown size newSpace spaceToAdd
    (fs.zoneFreeSpaceAdd size newSpace spaceToAdd) := by
  cases hplace : placeOf (fun cur => ¬(cur.start < newSpace ∧ regionEnd cur ≠ newSpace))
      fs.entries with
  | none => exact h.add_at_end hadd hplace
  | some p =>
    obtain ⟨hp, hcond, hbefore⟩ := placeOf_spec hplace
    by_cases habut : regionEnd p.cur = newSpace
    · exact h.add_abutting hrange hadd hp habut hplace
    refine h.add_below hrange hadd hp (fun e he => by simpa using hbefore e he) ?_ hplace
    by_contra hlt
    simp [habut, not_le.1 hlt] at hcond

end

/-! ## Collection -/

lemma Tidy.replace (h : fs.Tidy) {xs : List Region} (hes : fs.entries = xs ++ e :: ys)
    (hnew : fs.IsSize new.length) (hstart : new.start ≤ e.start)
    (hx : ∀ a ∈ xs, a.start + a.length ≤ new.start)
    (hy : ∀ a ∈ ys, new.start + new.length ≤ a.start) :
    (zoneFreeSpaceHintPrepend { fs with entries := xs ++ new :: ys } new e.length e.start
      ys).Tidy := by
  obtain ⟨hasc, hhints, he, hkept, hlt⟩ := h.at_mid hes
  have hall : ∀ a ∈ xs ++ new :: ys, fs.IsSize a.length := forall_mem_mid.2 ⟨hnew, hkept⟩
  refine h.of_kind ⟨rfl, rfl, rfl, rfl⟩ (hasc.erase.insert hx hy) hall ?_ ?_
  · refine hhints.replace h.geometry he (fun a ha => hkept a (mem_append_right _ ha))
      (fun a ha => ?_) hstart hlt.2
    have hpos := (hkept a (mem_append_left _ ha)).pos
    have hle := hx a ha
    omega
  rw [h.numEntries, hes]
  simp [zoneFreeSpaceHintPrepend]

lemma Tidy.delete (h : fs.Tidy) {xs : List Region} (hes : fs.entries = xs ++ e :: ys) :
    ({ fs.zoneFreeSpaceHintDelete e ys with
      entries := xs ++ ys, numEntries := fs.numEntries - 1 } : ZoneFreeSpace).Tidy := by
  obtain ⟨hasc, hhints, he, hkept, hlt⟩ := h.at_mid hes
  refine h.of_kind ⟨rfl, rfl, rfl, rfl⟩ hasc.erase hkept ?_ ?_
  · exact hhints.delete h.geometry he (fun a ha => hkept a (mem_append_right _ ha)) hlt.1
  · simp [h.numEntries, hes]

end ZoneFreeSpace

open ZoneFreeSpace

structure Cursor.Ok (c : Cursor) : Prop where
  tidy : c.fs.Tidy
  entries : c.fs.entries = c.before ++ c.rest

structure Collected (c c' : Cursor) (elem : Region) : Prop where
  ok : c'.Ok
  kind : SameKind c.fs c'.fs
  before : ∀ a ∈ c'.before, a.start + a.length < elem.start
  cover_eq : ∀ b, cover c'.fs.entries b = cover c.fs.entries b + cover [elem] b

section
variable {c : Cursor} {elem elemSize : ℕ} {xs : List Region}

lemma collected_insert {rest : List Region} (h : c.fs.Tidy)
    (hes : c.fs.entries = xs ++ rest) (hsize : c.fs.IsSize elemSize)
    (hbefore : ∀ a ∈ xs, a.start + a.length < elem)
    (hrest : ∀ a ∈ rest, elem + elemSize ≤ a.start) :
    Collected c ⟨zoneFreeSpaceHintInsert { c.fs with
          entries := xs ++ ⟨elem, elemSize⟩ :: rest, numEntries := c.fs.numEntries + 1 }
          ⟨elem, elemSize⟩, xs, ⟨elem, elemSize⟩ :: rest⟩ ⟨elem, elemSize⟩ := by
  have hsizes := h.sizes
  have hasc := h.ascending
  have hhints := h.hints
  rw [hes] at hsizes hasc hhints
  have hkind : SameKind c.fs c.fs := ⟨rfl, rfl, rfl, rfl⟩
  refine ⟨⟨h.insert hkind hasc hsizes hhints hsize (fun a ha => (hbefore a ha).le) hrest ?_, rfl⟩,
    ⟨rfl, rfl, rfl, rfl⟩, hbefore, fun b => ?_⟩
  · simp [h.numEntries, hes]
    omega
  · change cover (xs ++ _ :: rest) b = _
    rw [cover_mid, hes]

variable {after : List Region} {cur : Region}

lemma collected_prepend (h : c.fs.Tidy) (hes : c.fs.entries = xs ++ cur :: after)
    (hsize : c.fs.IsSize elemSize) (hrange : InKernel cur)
    (hbefore : ∀ a ∈ xs, a.start + a.length < elem) (habut : elem + elemSize = cur.start) :
    Collected c ⟨zoneFreeSpaceHintPrepend { c.fs with
          entries := xs ++ ⟨elem, add32 cur.length elemSize⟩ :: after }
          ⟨elem, add32 cur.length elemSize⟩ cur.length cur.start after,
        xs, ⟨elem, add32 cur.length elemSize⟩ :: after⟩ ⟨elem, elemSize⟩ := by
  have hcur : c.fs.IsSize cur.length := h.sizes _ (by simp [hes])
  have hasc := h.ascending
  rw [hes] at hasc
  obtain ⟨-, hend⟩ := hrange
  have hlen : add32 cur.length elemSize = cur.length + elemSize := add32_of_lt (by omega)
  rw [hlen]
  refine ⟨⟨h.replace hes (hcur.add hsize (by omega)) ?_ (fun a ha => (hbefore a ha).le) ?_, rfl⟩,
    ⟨rfl, rfl, rfl, rfl⟩, hbefore, fun b => ?_⟩
  · dsimp only
    omega
  · intro a ha
    have := hasc.sides.2 a ha
    dsimp only
    omega
  change cover (xs ++ _ :: after) b = _
  have hsplit : cover [⟨elem, elemSize + cur.length⟩] b =
      cover [⟨elem, elemSize⟩] b + cover [cur] b := by rw [cover_split, habut]
  rw [hes, cover_mid, cover_mid, add_comm cur.length, hsplit]
  omega

lemma collected_append {fs0 : ZoneFreeSpace} (h : fs0.Tidy) (hkind : SameKind c.fs fs0)
    (hes : fs0.entries = xs ++ cur :: after) (hnew : fs0.IsSize new.length)
    (hstart : new.start = cur.start) (hbefore : ∀ a ∈ xs, a.start + a.length < elem)
    (hafter : ∀ a ∈ after, new.start + new.length ≤ a.start)
    (hcover : ∀ b, cover (xs ++ new :: after) b =
      cover c.fs.entries b + cover [⟨elem, elemSize⟩] b) :
    Collected c
      ⟨zoneFreeSpaceHintAppend { fs0 with entries := xs ++ new :: after } new cur.length after,
        xs, new :: after⟩ ⟨elem, elemSize⟩ := by
  have hasc := h.ascending
  rw [hes] at hasc
  rw [zoneFreeSpaceHintAppend_eq, hstart]
  refine ⟨⟨h.replace hes hnew hstart.le (fun a ha => ?_) hafter, rfl⟩,
    ⟨hkind.allocUnit, hkind.allocMax, hkind.hashShift, hkind.numHints⟩, hbefore, hcover⟩
  rw [hstart]
  exact hasc.sides.1 a ha

lemma collectElement_collected (hc : c.Ok) (hrange : ∀ e ∈ c.fs.entries, InKernel e)
    (hsize : c.fs.IsSize elemSize) (hel : InKernel ⟨elem, elemSize⟩)
    (hbefore : ∀ a ∈ c.before, a.start + a.length < elem)
    (hapart : ∀ e ∈ c.fs.entries, elem + elemSize ≤ e.start ∨ e.start + e.length ≤ elem) :
    Collected c (collectElement elemSize c elem) ⟨elem, elemSize⟩ := by
  obtain ⟨h, hentries⟩ := hc
  have hes : c.fs.entries = (c.before ++ c.rest.takeWhile fun cur => regionEnd cur < elem) ++
      c.rest.dropWhile fun cur => regionEnd cur < elem := by
    rw [append_assoc, takeWhile_append_dropWhile, hentries]
  have hskipped : ∀ a ∈ c.before ++ c.rest.takeWhile fun cur => regionEnd cur < elem,
      a.start + a.length < elem := by
    intro a ha
    obtain ha | ha := mem_append.1 ha
    · exact hbefore a ha
    have hend : regionEnd a < elem := by simpa using mem_takeWhile_imp ha
    rwa [regionEnd_eq (hrange a (by
      rw [hentries]
      exact mem_append_right _ (takeWhile_subset _ ha)))] at hend
  have hfirst := head?_dropWhile_not (fun cur => decide (regionEnd cur < elem)) c.rest
  obtain ⟨hstart, hend⟩ := hel
  dsimp only at hstart hend
  have hsum : add32 elem elemSize = elem + elemSize := add32_of_lt (by omega)
  unfold collectElement
  cases hdrop : c.rest.dropWhile fun cur => regionEnd cur < elem with
  | nil =>
    rw [hdrop] at hes
    exact collected_insert h hes hsize hskipped (by simp)
  | cons cur after =>
    rw [hdrop] at hes hfirst
    have hmem : ∀ a ∈ cur :: after, a ∈ c.fs.entries := fun a ha => by
      rw [hes]
      exact mem_append_right _ ha
    have hasc := h.ascending
    rw [hes] at hasc
    have hcur : c.fs.IsSize cur.length := h.sizes _ (hmem cur (by simp))
    have hkernel := hrange cur (hmem cur (by simp))
    have hcurEnd : ¬cur.start + cur.length < elem := by
      rw [← regionEnd_eq hkernel]
      simpa using hfirst
    have hpos := hcur.pos
    dsimp only
    rw [hsum, regionEnd_eq hkernel]
    split_ifs with hlt heq habut
    · refine collected_insert h hes hsize hskipped fun a ha => ?_
      obtain rfl | ha := mem_cons.1 ha
      · exact hlt.le
      · have := hasc.sides.2 a ha
        omega
    · exact collected_prepend h hes hsize hkernel hskipped heq
    · have hafter : ∀ a ∈ after, elem + elemSize ≤ a.start := fun a ha => by
        have := hasc.sides.2 a ha
        have := hapart a (hmem a (by simp [ha]))
        have := (h.sizes a (hmem a (by simp [ha]))).pos
        omega
      have hlen : add32 cur.length elemSize = cur.length + elemSize := add32_of_lt (by omega)
      have hgrown := hcur.add hsize (by omega)
      have hsplit : ∀ b, cover [⟨cur.start, cur.length + elemSize⟩] b =
          cover [cur] b + cover [⟨elem, elemSize⟩] b := fun b => by rw [cover_split, habut]
      have hkind : SameKind c.fs c.fs := ⟨rfl, rfl, rfl, rfl⟩
      rw [hlen]
      cases after with
      | nil =>
        refine collected_append h hkind hes hgrown rfl hskipped (by simp) fun b => ?_
        rw [hes, cover_mid, cover_mid, hsplit]
        omega
      | cons next after =>
        have hnext := hrange next (hmem next (by simp))
        have hnextSize : c.fs.IsSize next.length := h.sizes _ (hmem next (by simp))
        have hgrownKernel : InKernel ⟨cur.start, cur.length + elemSize⟩ :=
          ⟨hkernel.1, by dsimp only; omega⟩
        have hgrownEnd : regionEnd ⟨cur.start, cur.length + elemSize⟩ = elem + elemSize := by
          rw [regionEnd_eq hgrownKernel]
          dsimp only
          omega
        dsimp only
        rw [hgrownEnd]
        split_ifs with hfill
        · obtain ⟨-, hnextEnd⟩ := hnext
          have hes' := hes
          rw [append_cons] at hes'
          have hlen' : add32 (cur.length + elemSize) next.length =
              cur.length + elemSize + next.length := add32_of_lt (by omega)
          rw [hlen']
          have hglued := hgrown.add hnextSize (by omega)
          refine collected_append (h.delete hes') ⟨rfl, rfl, rfl, rfl⟩ ?_
            ⟨hglued.pos, hglued.dvd, hglued.lt⟩ rfl hskipped (fun a ha => ?_) fun b => ?_
          · exact (append_cons ..).symm
          · have := (ascending_append.1 hasc).2.1
            have := (ascending_cons.1 (ascending_cons.1 this).2).1 a ha
            dsimp only
            omega
          have hglue : cover [⟨cur.start, cur.length + elemSize + next.length⟩] b =
              cover [⟨cur.start, cur.length + elemSize⟩] b + cover [next] b := by
            rw [cover_split, ← add_assoc, habut, hfill]
          rw [hes, cover_mid, cover_mid, cover_mid, hglue, hsplit]
          omega
        · refine collected_append h hkind hes hgrown rfl hskipped (fun a ha => ?_) fun b => ?_
          · have := hafter a ha
            dsimp only
            omega
          · simp only [hes, cover_mid, hsplit]
            omega
    · -- the element would overlap the entry
      have := hapart cur (hmem cur (by simp))
      omega

end

def elementRegions (elemSize : ℕ) (elems : List ℕ) : List Region :=
  elems.map fun a => ⟨a, elemSize⟩

lemma collect_loop {elemSize : ℕ} (elems : List ℕ) {c : Cursor} (hc : c.Ok)
    (hsize : c.fs.IsSize elemSize) (hsorted : elems.Pairwise (· < ·))
    (hbefore : ∀ a ∈ c.before, ∀ x ∈ elems, a.start + a.length < x)
    (hone : ∀ b, cover c.fs.entries b + cover (elementRegions elemSize elems) b ≤ 1)
    (hkernel : ∀ b, 0 < cover c.fs.entries b + cover (elementRegions elemSize elems) b →
      1 ≤ b ∧ b < 0x40000000) :
    (elems.foldl (collectElement elemSize) c).fs.Tidy ∧
      SameKind c.fs (elems.foldl (collectElement elemSize) c).fs ∧
      ∀ b, cover (elems.foldl (collectElement elemSize) c).fs.entries b =
        cover c.fs.entries b + cover (elementRegions elemSize elems) b := by
  induction elems generalizing c with
  | nil => exact ⟨hc.tidy, ⟨rfl, rfl, rfl, rfl⟩, fun b => by simp [elementRegions]⟩
  | cons x elems ih =>
    obtain ⟨hx, helems⟩ := pairwise_cons.1 hsorted
    have hcons : ∀ b, cover (elementRegions elemSize (x :: elems)) b =
        cover [⟨x, elemSize⟩] b + cover (elementRegions elemSize elems) b := fun b =>
      cover_append [_] _ b
    have hmem : (⟨x, elemSize⟩ : Region) ∈ elementRegions elemSize (x :: elems) := by
      simp [elementRegions]
    have hcollected : Collected c (collectElement elemSize c x) ⟨x, elemSize⟩ := by
      refine collectElement_collected hc (fun e he => ?_) hsize ?_
        (fun a ha => hbefore a ha x (by simp)) fun e he => ?_
      · exact inside_of_cover (fun b hb => hkernel b (by omega)) he (hc.tidy.sizes e he).pos
      · exact inside_of_cover (fun b hb => hkernel b (by omega)) hmem hsize.pos
      · exact (apart_of_cover hone he hmem (hc.tidy.sizes e he).pos hsize.pos).symm
    obtain ⟨hok, hkind, hbefore', hcover⟩ := hcollected
    have hsum : ∀ b, cover (collectElement elemSize c x).fs.entries b +
        cover (elementRegions elemSize elems) b =
          cover c.fs.entries b + cover (elementRegions elemSize (x :: elems)) b := fun b => by
      rw [hcover, hcons]
      omega
    obtain ⟨htidy, hkind', hcover'⟩ := ih hok (hkind.isSize hsize) helems
      (fun a ha y hy => (hbefore' a ha).trans (hx y hy)) (fun b => by rw [hsum]; exact hone b)
      (fun b hb => hkernel b (by rwa [hsum] at hb))
    exact ⟨htidy, hkind.trans hkind', fun b => by rw [foldl_cons, hcover', hsum]⟩

/-! ## The free list of a zone -/

namespace Zone

lemma insertSorted_perm (element : ℕ) (xs : List ℕ) :
    (insertSorted element xs).Perm (element :: xs) := by
  induction xs with
  | nil => exact List.Perm.refl _
  | cons a xs ih =>
    unfold insertSorted
    split_ifs with h
    · exact (ih.cons a).trans (List.Perm.swap element a xs)
    · exact List.Perm.refl _

variable {element : ℕ} {zone : Zone}

lemma insertSorted_sorted {xs : List ℕ} (hsorted : xs.Pairwise (· < ·)) (habsent : element ∉ xs) :
    (insertSorted element xs).Pairwise (· < ·) := by
  induction xs with
  | nil => simp [insertSorted]
  | cons a xs ih =>
    obtain ⟨ha, hxs⟩ := pairwise_cons.1 hsorted
    obtain ⟨hne, hnot⟩ := not_or.1 (fun h => habsent (mem_cons.2 h))
    unfold insertSorted
    split_ifs with h
    · refine pairwise_cons.2 ⟨fun b hb => ?_, ih hxs hnot⟩
      obtain rfl | hb := mem_cons.1 ((insertSorted_perm element xs).mem_iff.1 hb)
      · exact h
      · exact ha b hb
    have hlt : element < a := lt_of_le_of_ne (not_lt.1 h) hne
    exact pairwise_cons.2 ⟨forall_mem_cons.2 ⟨hlt, fun b hb => hlt.trans (ha b hb)⟩, hsorted⟩

lemma insertAfter_eq {last : ℕ} {xs : List ℕ} (hsorted : xs.Pairwise (· < ·)) (hmem : last ∈ xs)
    (hlt : last < element) : insertAfter last element xs = insertSorted element xs := by
  induction xs with
  | nil => simp at hmem
  | cons a xs ih =>
    obtain ⟨ha, hxs⟩ := pairwise_cons.1 hsorted
    by_cases heq : a = last
    · subst heq
      simp [insertAfter, insertSorted, hlt]
    have hmem' : last ∈ xs := (mem_cons.1 hmem).resolve_left (Ne.symm heq)
    have halt : a < element := (ha last hmem').trans hlt
    simp [insertAfter, insertSorted, heq, halt, ih hxs hmem']

structure Tidy (zone : Zone) : Prop where
  sorted : zone.freeElements.Pairwise (· < ·)
  last : zone.lastInsert = 0 ∨ zone.lastInsert ∈ zone.freeElements

lemma Tidy.addToZone (h : zone.Tidy) (habsent : element ∉ zone.freeElements) :
    (zone.addToZone element).Tidy ∧
      (zone.addToZone element).freeElements.Perm (element :: zone.freeElements) := by
  have heq : (zone.addToZone element).freeElements = insertSorted element zone.freeElements := by
    unfold Zone.addToZone
    split_ifs with hlast
    · exact insertAfter_eq h.sorted (h.last.resolve_left hlast.1) hlast.2
    · rfl
  have hperm := insertSorted_perm element zone.freeElements
  refine ⟨⟨?_, .inr ?_⟩, by rwa [heq]⟩
  · rw [heq]
    exact insertSorted_sorted h.sorted habsent
  · rw [heq]
    exact hperm.mem_iff.2 (mem_cons_self ..)

lemma Tidy.removeFromZone {zone' : Zone} (h : zone.Tidy) {ret : ℕ}
    (hrem : zone.removeFromZone = some (ret, zone')) :
    zone'.Tidy ∧ zone.freeElements = ret :: zone'.freeElements ∧ zone'.elemSize = zone.elemSize ∧
      zone'.freeSpace = zone.freeSpace := by
  obtain ⟨hsorted, hlast⟩ := h
  unfold Zone.removeFromZone at hrem
  split at hrem
  · simp at hrem
  · next a rest heq =>
    obtain ⟨rfl, rfl⟩ := Prod.mk.inj (Option.some.inj hrem)
    rw [heq] at hsorted hlast
    refine ⟨⟨(pairwise_cons.1 hsorted).2, ?_⟩, heq, rfl, rfl⟩
    split_ifs with hret
    · exact .inl rfl
    · exact hlast.imp_right fun hmem => (mem_cons.1 hmem).resolve_left hret

end Zone

end Rhapsody.Kern
