import Rhapsody.Ipc.EntryOps

/-! Growing the table: entries move out of the tree, and nothing is bound differently. -/

namespace Rhapsody.Ipc

open Function List Option
open Rhapsody.Lib TwoTier IpcSplayTree IpcSpace

variable {ο : Type*} {its : IpcTableSizes} {s : IpcSpace ο} {table : List (IpcEntry ο)}
  {overflow m : MachPort → Option (IpcRight ο)} {osize : ℕ}

/-- The part of the table from `osize` on is new: an entry there is blank or in use. -/
def Fresh (osize : ℕ) (table : List (IpcEntry ο)) : Prop :=
  ∀ {i e}, osize ≤ i → table[i]? = some e → e = .zero ∨ e.ieBits.type ≠ machPortTypeNone

variable {i nsize new : ℕ} {α : Type*} {s₁ : IpcSpace ο}

lemma Fresh.set {e : IpcEntry ο} (h : Fresh osize table) (he : e.ieBits.type ≠ machPortTypeNone) :
    Fresh osize (table.set i e) := by
  intro j d hj hd
  by_cases hji : j = i
  · subst hji
    rw [getElem?_set_self'] at hd
    obtain ⟨-, -, rfl⟩ := map_eq_some_iff.1 hd
    exact .inr he
  · rw [getElem?_set_ne (Ne.symm hji)] at hd
    exact h hj hd

/-! ## Moving entries out of the tree -/

lemma overOf_cons (a : MachPort × IpcEntry ο) (xs : List (MachPort × IpcEntry ο)) (k : MachPort) :
    overOf (a :: xs) k = if k = a.1 then a.2.right? else overOf xs k := by
  rw [overOf, find_cons]
  split_ifs with hk <;> rfl

structure Moved (osize : ℕ) (table : List (IpcEntry ο)) (total : ℕ)
    (overflow : MachPort → Option (IpcRight ο)) (xs : List (MachPort × IpcEntry ο))
    (table' : List (IpcEntry ο)) (total' : ℕ) (kept : List (MachPort × IpcEntry ο)) : Prop where
  length : table'.length = table.length
  old : ∀ i < osize, table'[i]? = table[i]?
  fresh : Fresh osize table'
  total_eq : total' + xs.length = total + kept.length
  routed : Routed machPortIndex machPortGen (slotsOf table')
    fun k => (overOf kept k).or (overflow k)
  content_eq : (content machPortIndex machPortGen (slotsOf table')
      fun k => (overOf kept k).or (overflow k)) =
    fun k => (content machPortIndex machPortGen (slotsOf table) overflow k).or (overOf xs k)

lemma moveEntry_sift (xs : List (MachPort × IpcEntry ο)) (total : ℕ) (hord : Ordered xs)
    (hfresh : Fresh osize table)
    (hrouted : Routed machPortIndex machPortGen (slotsOf table) overflow)
    (hxs : ∀ a ∈ xs, osize ≤ machPortIndex a.1 ∧ machPortIndex a.1 < table.length ∧ a.2.Loose)
    (hnew : ∀ a ∈ xs, content machPortIndex machPortGen (slotsOf table) overflow a.1 = none)
    (htotal : xs.length ≤ total) :
    Moved osize table total overflow xs (sift moveEntry (table, total) xs).1.1
      (sift moveEntry (table, total) xs).1.2 (sift moveEntry (table, total) xs).2 := by
  induction xs generalizing table total overflow with
  | nil =>
    refine ⟨rfl, fun _ _ => rfl, hfresh, rfl, ?_, ?_⟩
    · simpa [sift, overOf] using hrouted
    · simp [sift, overOf]
  | cons a xs ih =>
    obtain ⟨hlt, hord'⟩ := ordered_cons.1 hord
    obtain ⟨hge, hsize, hloose⟩ := hxs a (by simp)
    obtain ⟨r, hr⟩ := ne_none_iff_exists'.1 (mt IpcEntry.right?_eq_none.1 hloose.typed)
    obtain ⟨e, he⟩ : ∃ e, table[machPortIndex a.1]? = some e := ⟨_, getElem?_eq_getElem hsize⟩
    have hslot := slotsOf_of_getElem? he
    have hne : ∀ b ∈ xs, b.1 ≠ a.1 := fun b hb => (hlt b hb).ne'
    have hold : ∀ d, ∀ i < osize, (table.set (machPortIndex a.1) d)[i]? = table[i]? :=
      fun d i hi => getElem?_set_ne (by omega)
    have hlater : ∀ {m}, m = update
        (content machPortIndex machPortGen (slotsOf table) overflow) a.1 (some r) →
        (∀ b ∈ xs, m b.1 = none) ∧ (fun k => (m k).or (overOf xs k)) =
          fun k => (content machPortIndex machPortGen (slotsOf table) overflow k).or
            (overOf (a :: xs) k) := by
      rintro m rfl
      refine ⟨fun b hb => ?_, funext fun k => ?_⟩
      · rw [update_of_ne (hne b hb), hnew b (by simp [hb])]
      by_cases hk : k = a.1
      · subst hk
        rw [update_self, hnew a (by simp), overOf_cons, if_pos rfl, hr]
        rfl
      · rw [update_of_ne hk, overOf_cons, if_neg hk]
    by_cases hbits : e.ieBits = {}
    · -- nothing has been moved to this slot yet
      obtain rfl : e = .zero := (hfresh hge he).resolve_right (by simp [hbits])
      obtain ⟨hrouted', hcontent⟩ := place (r := r) machPort_ext hrouted hslot rfl rfl
      have hslots : slotsOf (table.set (machPortIndex a.1) (a.2.atName a.1)) =
          update (slotsOf table) (machPortIndex a.1) (some ⟨machPortGen a.1, some r, false⟩) := by
        rw [slotsOf_set he, hloose.slot_atName, hr]
      rw [← hslots] at hrouted' hcontent
      obtain ⟨hnew', hcontent'⟩ := hlater hcontent
      have hmove : moveEntry (table, total) a.1 a.2 =
          ((table.set (machPortIndex a.1) (a.2.atName a.1), total - 1), true) := by
        simp only [moveEntry, he, ne_eq, hbits, not_true_eq_false, if_false]
      have hres := ih (total - 1) hord' (hfresh.set (e := a.2.atName a.1) hloose.typed) hrouted'
        (fun b hb => by simpa using hxs b (by simp [hb])) hnew' (by simp at htotal; omega)
      simp only [sift, hmove, if_true, nil_append]
      refine ⟨by simpa using hres.length, fun i hi => (hres.old i hi).trans (hold _ i hi),
        hres.fresh, ?_, hres.routed, hres.content_eq.trans hcontent'⟩
      have htotal' := hres.total_eq
      simp only [length_cons] at htotal ⊢
      omega
    -- collision with a previously moved entry
    have htype := (hfresh hge he).resolve_left fun h => hbits (h ▸ rfl)
    have hgen : e.slot.held ≠ none → e.slot.tag ≠ machPortGen a.1 := by
      intro hheld hgen
      have hnone := hnew a (by simp)
      rw [content_of_slot hslot, or_eq_none_iff, inSlot, if_pos hgen] at hnone
      exact hheld hnone.1
    obtain ⟨hrouted', hcontent⟩ := spill (r := r) hrouted hslot hgen
    have hslots : slotsOf (table.set (machPortIndex a.1) (e.setCollision true)) =
        update (slotsOf table) (machPortIndex a.1) (some { e.slot with overflowed := true }) := by
      rw [slotsOf_set he, slot_setCollision]
    rw [← hslots] at hrouted' hcontent
    obtain ⟨hnew', hcontent'⟩ := hlater hcontent
    have hmove : moveEntry (table, total) a.1 a.2 =
        ((table.set (machPortIndex a.1) (e.setCollision true), total), false) := by
      simp only [moveEntry, he, ne_eq, hbits, not_false_eq_true, if_true]
    have hres := ih total hord' (hfresh.set (e := e.setCollision true) htype) hrouted'
      (fun b hb => by simpa using hxs b (by simp [hb])) hnew' (by simp at htotal; omega)
    simp only [sift, hmove, Bool.false_eq_true, if_false, singleton_append]
    generalize hrest : sift moveEntry (table.set (machPortIndex a.1) (e.setCollision true), total)
      xs = res at hres
    have hoverlay : (fun k => (overOf (a :: res.2) k).or (overflow k)) =
        fun k => (overOf res.2 k).or (update overflow a.1 (some r) k) := by
      funext k
      rw [overOf_cons]
      by_cases hk : k = a.1
      · subst hk
        have hnone : find res.2 a.1 = none :=
          find_eq_none_iff.2 fun b hb => hne b ((hrest ▸ sift_sublist _ _ _).subset hb)
        rw [if_pos rfl, hr, overOf, hnone, update_self]
        rfl
      · rw [if_neg hk, update_of_ne hk]
    refine ⟨by simpa using hres.length, fun i hi => (hres.old i hi).trans (hold _ i hi),
      hres.fresh, ?_, ?_, ?_⟩
    · have htotal' := hres.total_eq
      simp only [length_cons] at htotal ⊢
      omega
    · rw [hoverlay]
      exact hres.routed
    · rw [hoverlay]
      exact hres.content_eq.trans hcontent'

/-! ## The free list of the new part -/

/-- The table while its free list is extended down to `osize + n`: the list starts at `freeIndex`,
and the entries between are still to be looked at. -/
structure Threading (osize n : ℕ) (table : List (IpcEntry ο)) (freeIndex : ℕ)
    (overflow m : MachPort → Option (IpcRight ο)) : Prop where
  base : ∃ e, table[0]? = some e ∧ e.ieBits.type = machPortTypeNone ∧ e.ieBits.gen = 0xff
  free : ∀ {i e}, i ≠ 0 → (i < osize ∨ osize + n ≤ i) → table[i]? = some e →
    e.ieBits.type = machPortTypeNone → e.IsFree
  fresh : ∀ {i e}, osize ≤ i → i < osize + n → table[i]? = some e →
    e = .zero ∨ e.ieBits.type ≠ machPortTypeNone
  linked : ∃ xs, Linked (ieNext table) freeIndex xs ∧ xs.Nodup ∧
    ∀ i, i ∈ xs ↔ i ≠ 0 ∧ (i < osize ∨ osize + n ≤ i) ∧
      ∃ e, table[i]? = some e ∧ e.ieBits.type = machPortTypeNone
  routed : Routed machPortIndex machPortGen (slotsOf table) overflow
  content_eq : content machPortIndex machPortGen (slotsOf table) overflow = m

variable {n freeIndex : ℕ} {e : IpcEntry ο}

lemma Threading.skip (h : Threading osize (n + 1) table freeIndex overflow m)
    (hused : ∀ e, table[osize + n]? = some e → e.ieBits.type ≠ machPortTypeNone) :
    Threading osize n table freeIndex overflow m := by
  obtain ⟨xs, hlinked, hnodup, hmem⟩ := h.linked
  refine ⟨h.base, fun {i e} hi hrange he htype => ?_, fun hge hlt he => h.fresh hge (by omega) he,
    ⟨xs, hlinked, hnodup, fun i => ?_⟩, h.routed, h.content_eq⟩
  · by_cases hin : i = osize + n
    · exact absurd htype (hused e (hin ▸ he))
    · exact h.free hi (by omega) he htype
  rw [hmem]
  refine and_congr_right fun _ => ⟨fun ⟨hrange, he⟩ => ⟨by omega, he⟩, ?_⟩
  rintro ⟨hrange, e, he, htype⟩
  refine ⟨?_, e, he, htype⟩
  by_cases hin : i = osize + n
  · exact absurd htype (hused e (hin ▸ he))
  · omega

lemma Threading.link (h : Threading osize (n + 1) table freeIndex overflow m) (hpos : 0 < osize)
    (he : table[osize + n]? = some .zero) :
    Threading osize n
      (table.set (osize + n) { IpcEntry.zero with ieBits := ieBitsGenMask, index := freeIndex })
      (osize + n) overflow m := by
  obtain ⟨xs, hlinked, hnodup, hmem⟩ := h.linked
  set e' : IpcEntry ο := { IpcEntry.zero with ieBits := ieBitsGenMask, index := freeIndex }
  have hlt := (List.getElem?_eq_some_iff.1 he).1
  have hself : (table.set (osize + n) e')[osize + n]? = some e' := List.getElem?_set_self hlt
  have hother : ∀ {i}, i ≠ osize + n → (table.set (osize + n) e')[i]? = table[i]? := fun hi =>
    getElem?_set_ne (Ne.symm hi)
  have hnotMem : osize + n ∉ xs := fun hx => by
    obtain ⟨-, hrange, -⟩ := (hmem _).1 hx
    omega
  obtain ⟨hrouted, hcontent⟩ := retag h.routed (slotsOf_of_getElem? he) rfl rfl 0xff
  have hslots : slotsOf (table.set (osize + n) e') =
      update (slotsOf table) (osize + n) (some ⟨0xff, none, false⟩) := slotsOf_set he e'
  refine ⟨?_, fun {i d} hi hrange hd htype => ?_, fun {i d} hge hi hd => ?_,
    ⟨(osize + n) :: xs, ⟨rfl, by omega, ?_⟩, nodup_cons.2 ⟨hnotMem, hnodup⟩, fun i => ?_⟩,
    hslots ▸ hrouted, hslots ▸ hcontent.trans h.content_eq⟩
  · rw [hother (by omega)]
    exact h.base
  · by_cases hin : i = osize + n
    · rw [hin, hself, some.injEq] at hd
      exact hd ▸ ⟨rfl, rfl⟩
    · exact h.free hi (by omega) (hother hin ▸ hd) htype
  · have hin : i ≠ osize + n := by omega
    exact h.fresh hge (by omega) (hother hin ▸ hd)
  · rw [ieNext_set he, update_self]
    refine hlinked.congr fun x hx => update_of_ne ?_ _ _
    rintro rfl
    exact hnotMem hx
  rw [mem_cons, hmem]
  by_cases hin : i = osize + n
  · subst hin
    exact iff_of_true (Or.inl rfl) ⟨by omega, Or.inr le_rfl, e', hself, rfl⟩
  rw [hother hin]
  simp only [hin, false_or]
  exact and_congr_right fun _ => and_congr_left fun _ => by omega

lemma threadFree_spec (h : Threading osize n table freeIndex overflow m) (hpos : 0 < osize) :
    Threading osize 0 (threadFree osize n table freeIndex).1
        (threadFree osize n table freeIndex).2 overflow m ∧
      (threadFree osize n table freeIndex).1.length = table.length := by
  induction n generalizing table freeIndex with
  | zero => exact ⟨h, rfl⟩
  | succ n ih =>
    rw [threadFree]
    cases he : table[osize + n]? with
    | none => exact ih (h.skip (by simp [he]))
    | some e =>
      obtain rfl | htype := h.fresh (by omega) (by omega) he
      · obtain ⟨hres, hlength⟩ := ih (h.link hpos he)
        exact ⟨hres, hlength.trans (length_set ..)⟩
      have hbits : e.ieBits ≠ {} := fun hb => htype (by rw [hb])
      simp only [if_neg hbits]
      exact ih (h.skip (by simpa [he] using htype))

lemma Threading.finish (h : Threading osize 0 table freeIndex overflow m) :
    TableOk (setIeNext table 0 freeIndex) ∧
      slotsOf (setIeNext table 0 freeIndex) = slotsOf table := by
  obtain ⟨e0, he0, htype0, hgen0⟩ := h.base
  obtain ⟨xs, hlinked, hnodup, hmem⟩ := h.linked
  have hother : ∀ {i}, i ≠ 0 → (setIeNext table 0 freeIndex)[i]? = table[i]? := fun hi => by
    rw [setIeNext_eq_set he0, getElem?_set_ne (Ne.symm hi)]
  refine ⟨⟨⟨{ e0 with index := freeIndex }, ?_, htype0, hgen0⟩, fun {i e} hi he htype => ?_, xs,
    ⟨?_, hnodup⟩, fun i => ?_⟩, slotsOf_setIeNext he0 htype0 _⟩
  · rw [setIeNext_eq_set he0, List.getElem?_set_self (List.getElem?_eq_some_iff.1 he0).1]
  · exact h.free hi (by omega) (hother hi ▸ he) htype
  · rw [setIeNext_eq_set he0, ieNext_set he0, update_self]
    refine hlinked.congr fun x hx => update_of_ne ?_ _ _
    exact ((hmem x).1 hx).1
  rw [hmem]
  refine and_congr_right fun hi => ?_
  rw [hother hi]
  exact ⟨fun hx => hx.2, fun hx => ⟨by omega, hx⟩⟩

/-! ## The whole step -/

lemma sift_keep {σ : Type*} {visit : σ → MachPort → α → σ × Bool}
    (hkeep : ∀ s n e, (visit s n e).2 = false) (s : σ) (xs : List (MachPort × α)) :
    (sift visit s xs).2 = xs := by
  induction xs generalizing s with
  | nil => rfl
  | cons a xs ih => simp [sift, hkeep, ih]

/-- The regions of the tree, by index: below `osize`, up to `size`, up to `nsize`, beyond. -/
structure GrowParts (t : IpcSplayTree (IpcEntry ο)) (osize size nsize : ℕ)
    (ignore move small rest : IpcSplayTree (IpcEntry ο)) : Prop where
  wfIgnore : ignore.WellFormed
  wfMove : move.WellFormed
  wfSmall : small.WellFormed
  wfRest : rest.WellFormed
  entries : t.entries = ignore.entries ++ (move.entries ++ (small.entries ++ rest.entries))
  ignore_lt : ∀ a ∈ ignore.entries, machPortIndex a.1 < osize
  move_ge : ∀ a ∈ move.entries, osize ≤ machPortIndex a.1 ∧ machPortIndex a.1 < size
  rest_ge : ∀ a ∈ small.entries ++ rest.entries, size ≤ machPortIndex a.1
  small_iff : ∀ a ∈ small.entries ++ rest.entries, machPortIndex a.1 < nsize ↔ a ∈ small.entries

variable {size : ℕ}

lemma growParts {t : IpcSplayTree (IpcEntry ο)} (h : t.WellFormed) (hosize : osize < 2 ^ 24)
    (hsize : size < 2 ^ 24) (hnsize : nsize < 2 ^ 24) (hle : size ≤ nsize) :
    GrowParts t osize size nsize
      (ipcSplayTreeSplit (ipcSplayTreeSplit (ipcSplayTreeSplit t (machPortMake nsize 0)).2
        (machPortMake size 0)).2 (machPortMake osize 0)).2
      (ipcSplayTreeSplit (ipcSplayTreeSplit (ipcSplayTreeSplit t (machPortMake nsize 0)).2
        (machPortMake size 0)).2 (machPortMake osize 0)).1
      (ipcSplayTreeSplit (ipcSplayTreeSplit t (machPortMake nsize 0)).2 (machPortMake size 0)).1
      (ipcSplayTreeSplit t (machPortMake nsize 0)).1 := by
  obtain ⟨hrest, hlow, hcat, hbelow, habove⟩ := split_shape h (machPortMake nsize 0)
  obtain ⟨hsmall, hlow', hcat', hbelow', habove'⟩ := split_shape hlow (machPortMake size 0)
  obtain ⟨hmove, hignore, hcat'', hbelow'', habove''⟩ := split_shape hlow' (machPortMake osize 0)
  refine ⟨hignore, hmove, hsmall, hrest, ?_, fun a ha => ?_, fun a ha => ⟨?_, ?_⟩, fun a ha => ?_,
    fun a ha => ⟨fun hlt => (mem_append.1 ha).resolve_right fun ha => ?_, fun ha => ?_⟩⟩
  · rw [hcat, hcat', hcat'']
    simp only [append_assoc]
  · exact (lt_machPortMake_iff hosize).1 (hbelow'' a ha)
  · exact (machPortMake_le_iff hosize).1 (habove'' a ha)
  · refine (lt_machPortMake_iff hsize).1 (hbelow' a ?_)
    rw [hcat'']
    exact mem_append_right _ ha
  · obtain ha | ha := mem_append.1 ha
    · exact (machPortMake_le_iff hsize).1 (habove' a ha)
    · exact hle.trans ((machPortMake_le_iff hnsize).1 (habove a ha))
  · exact hlt.not_ge ((machPortMake_le_iff hnsize).1 (habove a ha))
  · refine (lt_machPortMake_iff hnsize).1 (hbelow a ?_)
    rw [hcat']
    exact mem_append_right _ ha

section

variable {below mid above : List (MachPort × IpcEntry ο)}
  (hbelow : ∀ a ∈ below, machPortIndex a.1 < osize)
  (habove : ∀ a ∈ above, size ≤ machPortIndex a.1)
include hbelow habove

variable {k : MachPort}

lemma find_outside (hge : osize ≤ machPortIndex k) (hlt : machPortIndex k < size) :
    find below k = none ∧ find above k = none := by
  constructor
  · refine find_eq_none_iff.2 ?_
    rintro b hb rfl
    have hb' := hbelow b hb
    omega
  refine find_eq_none_iff.2 ?_
  rintro b hb rfl
  have hb' := habove b hb
  omega

lemma overOf_outside (hge : osize ≤ machPortIndex k) (hlt : machPortIndex k < size) :
    overOf (below ++ above) k = none := by
  obtain ⟨hb, ha⟩ := find_outside hbelow habove hge hlt
  simp [overOf, find_append, hb, ha]

lemma overOf_middle
    (hmid : ∀ a ∈ mid, osize ≤ machPortIndex a.1 ∧ machPortIndex a.1 < size) (k : MachPort) :
    overOf mid k = none ∧ overOf (below ++ (mid ++ above)) k = overOf (below ++ above) k ∨
      osize ≤ machPortIndex k ∧ overOf (below ++ above) k = none ∧
        overOf (below ++ (mid ++ above)) k = overOf mid k := by
  by_cases hk : find mid k = none
  · left
    simp [overOf, find_append, hk]
  right
  obtain ⟨a, ha, rfl⟩ := find_ne_none_iff.1 hk
  obtain ⟨hge, hlt⟩ := hmid a ha
  obtain ⟨hb, ha⟩ := find_outside hbelow habove hge hlt
  simp [overOf, find_append, hb, ha, hge]

end

lemma slot_zero : (IpcEntry.zero : IpcEntry ο).slot = ⟨0, none, false⟩ := rfl

lemma IpcSpace.Wf.extend (h : Wf its s) (hsize : s.isTable.length ≤ size)
    {below mid above : List (MachPort × IpcEntry ο)}
    (hentries : s.isTree.entries = below ++ (mid ++ above))
    (hbelow : ∀ a ∈ below, machPortIndex a.1 < s.isTable.length)
    (hmid : ∀ a ∈ mid, s.isTable.length ≤ machPortIndex a.1 ∧ machPortIndex a.1 < size)
    (habove : ∀ a ∈ above, size ≤ machPortIndex a.1)
    (htable : table = s.isTable ++ List.replicate (size - s.isTable.length) .zero) :
    Routed machPortIndex machPortGen (slotsOf table) (overOf (below ++ above)) ∧
      (s.bindings = fun k => (content machPortIndex machPortGen (slotsOf table)
        (overOf (below ++ above)) k).or (overOf mid k)) ∧
      ∀ a ∈ mid, content machPortIndex machPortGen (slotsOf table)
        (overOf (below ++ above)) a.1 = none := by
  have hold : ∀ i < s.isTable.length, slotsOf table i = slotsOf s.isTable i := fun i hi => by
    rw [slotsOf, htable, getElem?_append_left hi, slotsOf]
  have hnone : ∀ i, s.isTable.length ≤ i → slotsOf s.isTable i = none := fun i hi => by
    simpa [slotsOf] using hi
  have hnew : ∀ i, s.isTable.length ≤ i → slotsOf table i = none ∧ size ≤ i ∨
      slotsOf table i = some ⟨0, none, false⟩ ∧ i < size := fun i hi => by
    rw [slotsOf, htable, getElem?_append_right hi, getElem?_replicate]
    by_cases hlt : i < size
    · right
      simp [show i - s.isTable.length < size - s.isTable.length by omega, hlt, slot_zero]
    · left
      simp [show ¬i - s.isTable.length < size - s.isTable.length by omega, not_lt.1 hlt]
  have hover := overOf_middle hbelow habove hmid
  rw [← hentries] at hover
  refine ⟨h.routed.extend (fun {i d} hd => ?_) (fun {i d} hd hd' => ?_) fun k => ?_, ?_, ?_⟩
  · rw [hold i ?_, hd]
    by_contra hi
    simp [hnone i (not_lt.1 hi)] at hd
  · have hi : s.isTable.length ≤ i := by simpa [slotsOf] using hd
    obtain ⟨hnone', -⟩ | ⟨hsome, hlt⟩ := hnew i hi
    · simp [hnone'] at hd'
    rw [hsome, some.injEq] at hd'
    subst hd'
    refine ⟨rfl, ?_⟩
    rintro k rfl
    exact overOf_outside hbelow habove hi hlt
  · obtain ⟨-, heq⟩ | ⟨hge, heq, -⟩ := hover k
    · exact .inl heq.symm
    · exact .inr ⟨heq, hnone _ hge⟩
  · funext k
    have hslot : (slotsOf table (machPortIndex k)).bind (inSlot machPortGen k) =
        (slotsOf s.isTable (machPortIndex k)).bind (inSlot machPortGen k) := by
      by_cases hi : machPortIndex k < s.isTable.length
      · rw [hold _ hi]
      rw [hnone _ (not_lt.1 hi)]
      obtain ⟨hres, -⟩ | ⟨hres, -⟩ := hnew _ (not_lt.1 hi)
      · rw [hres]
      · simp [hres, inSlot]
    rw [bindings, content, content, hslot, Option.or_assoc]
    obtain ⟨hmid', heq⟩ | ⟨-, heq, heq'⟩ := hover k
    · rw [hmid', heq, or_none]
    · rw [heq, heq', none_or]
  · intro a ha
    obtain ⟨hge, hlt⟩ := hmid a ha
    obtain ⟨-, hle⟩ | ⟨hsome, -⟩ := hnew _ hge
    · omega
    · rw [content_of_slot hsome, overOf_outside hbelow habove hge hlt]
      simp [inSlot]

lemma IpcSpace.Wf.length_ge (h : Wf its s) : 4 ≤ s.isTable.length := by
  have hnext := h.next_le
  rw [h.size]
  exact its.four_le (by omega)

lemma countSmall_sift (xs : List (MachPort × IpcEntry ο)) (n last : ℕ) (hord : Ordered xs)
    (hlast : ∀ a ∈ xs, last ≤ machPortIndex a.1) :
    (sift countSmall (n, last) xs).1.1 =
      n + ((xs.map (machPortIndex ·.1)).toFinset.erase last).card := by
  induction xs generalizing n last with
  | nil => simp [sift]
  | cons a xs ih =>
    obtain ⟨hlt, hord'⟩ := ordered_cons.1 hord
    have hle : ∀ b ∈ xs, machPortIndex a.1 ≤ machPortIndex b.1 := fun b hb =>
      machPortIndex_mono (hlt b hb).le
    rw [map_cons, toFinset_cons]
    by_cases heq : machPortIndex a.1 = last
    · subst heq
      simp [sift, countSmall, ih n _ hord' hle, Finset.erase_insert_eq_erase]
    have hnew : last ∉ insert (machPortIndex a.1) (xs.map (machPortIndex ·.1)).toFinset := by
      have hge := hlast a (by simp)
      simp only [Finset.mem_insert, List.mem_toFinset, List.mem_map, not_or]
      refine ⟨Ne.symm heq, ?_⟩
      rintro ⟨b, hb, hb'⟩
      have hb'' := hle b hb
      omega
    have hcard := Finset.card_erase_add_one (Finset.mem_insert_self (machPortIndex a.1)
      (xs.map (machPortIndex ·.1)).toFinset)
    rw [Finset.erase_insert_eq_erase] at hcard
    rw [Finset.erase_eq_of_notMem hnew, ← hcard]
    simp only [sift, countSmall, ne_eq, heq, not_false_eq_true, if_true, ih _ _ hord' hle]
    omega

structure Grown (s s' : IpcSpace ο) (size nsize : ℕ) : Prop where
  length : s'.isTable.length = size
  old : ∀ i < s.isTable.length, s'.isTable[i]? = s.isTable[i]?
  fresh : Fresh s.isTable.length s'.isTable
  tree : TreeOk s'.isTree s'.isTreeTotal
  small : s'.isTreeSmall = (smallIndices s'.isTree.entries size nsize).card
  routed : Routed machPortIndex machPortGen (slotsOf s'.isTable) (overOf s'.isTree.entries)
  bindings_eq : s'.bindings = s.bindings

lemma fresh_replicate (xs : List (IpcEntry ο)) (n : ℕ) :
    Fresh xs.length (xs ++ List.replicate n .zero) := by
  intro i e hi he
  rw [getElem?_append_right hi, getElem?_replicate] at he
  split_ifs at he
  exact .inl (some.inj he).symm

lemma rejoin_spec {rest small move ignore : IpcSplayTree α} (hrest : rest.WellFormed)
    (hsmall : small.WellFormed) (hmove : move.WellFormed) (hignore : ignore.WellFormed)
    (hord : Ordered (ignore.entries ++ (move.entries ++ (small.entries ++ rest.entries)))) :
    (ipcSplayTreeJoin (ipcSplayTreeJoin (ipcSplayTreeJoin rest small).1 move).1
        ignore).1.WellFormed ∧
      (ipcSplayTreeJoin (ipcSplayTreeJoin (ipcSplayTreeJoin rest small).1 move).1
        ignore).1.entries =
      ignore.entries ++ (move.entries ++ (small.entries ++ rest.entries)) := by
  obtain ⟨-, hord1, hlt⟩ := ordered_append.1 hord
  obtain ⟨-, hord2, hlt1⟩ := ordered_append.1 hord1
  obtain ⟨hwf, hentries, -⟩ := join_shape hrest hsmall (ordered_append.1 hord2).2.2
  rw [← hentries] at hlt hlt1 ⊢
  obtain ⟨hwf1, hentries1, -⟩ := join_shape hwf hmove hlt1
  rw [← hentries1] at hlt ⊢
  obtain ⟨hwf2, hentries2, -⟩ := join_shape hwf1 hignore hlt
  exact ⟨hwf2, hentries2⟩

lemma growTree_spec (h : Wf its s) (hsize : s.isTable.length ≤ size) (hle : size ≤ nsize)
    (hnsize : nsize < 2 ^ 24) (htree : s₁.isTree = s.isTree)
    (htotal : s₁.isTreeTotal = s.isTreeTotal)
    (htable : table = s.isTable ++ List.replicate (size - s.isTable.length) .zero) :
    Grown s (growTree s₁ table s.isTable.length size nsize) size nsize := by
  have hparts := growParts h.tree.wellFormed (show s.isTable.length < 2 ^ 24 by omega)
    (hle.trans_lt hnsize) hnsize hle
  simp only [growTree, htree, htotal]
  revert hparts
  generalize ipcSplayTreeSplit s.isTree (machPortMake nsize 0) = rest
  generalize ipcSplayTreeSplit rest.2 (machPortMake size 0) = small
  generalize ipcSplayTreeSplit small.2 (machPortMake s.isTable.length 0) = move
  intro hparts
  have hord : Ordered (move.2.entries ++ (move.1.entries ++ (small.1.entries ++ rest.1.entries))) :=
    hparts.entries ▸ h.tree.wellFormed.ordered
  have hlength : table.length = size := by
    rw [htable, length_append, length_replicate]
    omega
  have hmem : ∀ {a}, a ∈ s.isTree.entries → find s.isTree.entries a.1 = some a.2 := fun ha =>
    (find_eq_some_iff h.tree.wellFormed.ordered).2 ha
  obtain ⟨hrouted, hbind, hnew⟩ := h.extend hsize hparts.entries hparts.ignore_lt hparts.move_ge
    hparts.rest_ge htable
  -- the entries of the middle region are moved, the others are put back around what is left
  obtain ⟨hstate, hkept, hwfKept⟩ := traverse_spec hparts.wfMove moveEntry (table, s.isTreeTotal)
  obtain ⟨hcount, hsame, hwfSame⟩ := traverse_spec hparts.wfSmall countSmall (0, 0)
  rw [sift_keep fun _ _ _ => rfl] at hsame
  have hmoved := moveEntry_sift move.1.entries s.isTreeTotal (ordered_append.1
      (ordered_append.1 hord).2.1).1 (htable ▸ fresh_replicate s.isTable _) hrouted
    (fun a ha => by
      obtain ⟨hge, hlt⟩ := hparts.move_ge a ha
      refine ⟨hge, hlength ▸ hlt, h.tree.loose (hmem ?_)⟩
      rw [hparts.entries]
      simp [ha])
    hnew
    (by
      rw [h.tree.total_eq, hparts.entries]
      simp only [length_append]
      omega)
  have hsub := sift_sublist moveEntry (table, s.isTreeTotal) move.1.entries
  rw [hstate]
  generalize sift moveEntry (table, s.isTreeTotal) move.1.entries = res at hmoved hkept hsub ⊢
  obtain ⟨hwf, hentries⟩ := rejoin_spec hparts.wfRest hwfSame hwfKept hparts.wfIgnore (by
    rw [hsame, hkept]
    exact hord.sublist (List.Sublist.append_left (hsub.append_right _) _))
  rw [hsame, hkept] at hentries
  have hover : (fun k => (overOf res.2 k).or
      (overOf (move.2.entries ++ (small.1.entries ++ rest.1.entries)) k)) =
      overOf (move.2.entries ++ (res.2 ++ (small.1.entries ++ rest.1.entries))) := by
    funext k
    obtain ⟨hmid, heq⟩ | ⟨-, heq, heq'⟩ := overOf_middle hparts.ignore_lt hparts.rest_ge
      (fun a ha => hparts.move_ge a (hsub.subset ha)) k
    · rw [hmid, heq, none_or]
    · rw [heq, heq', or_none]
  refine ⟨hmoved.length.trans hlength, fun i hi => ?_, hmoved.fresh, h.tree.sublist hwf ?_ ?_,
    ?_, ?_, ?_⟩
  · rw [hmoved.old i hi, htable, getElem?_append_left hi]
  · rw [hentries, hparts.entries]
    exact List.Sublist.append_left (hsub.append_right _) _
  · have htotal' := hmoved.total_eq
    rw [h.tree.total_eq, hparts.entries] at htotal'
    rw [hentries]
    simp only [length_append] at htotal' ⊢
    omega
  · have hpos := h.length_ge
    have hge := fun a ha => hparts.rest_ge a (mem_append_left _ ha)
    rw [hentries]
    refine hcount ▸ (countSmall_sift _ 0 0 hparts.wfSmall.ordered fun _ _ => Nat.zero_le _).trans ?_
    rw [Nat.zero_add, Finset.erase_eq_of_notMem]
    · refine congrArg Finset.card (Finset.ext fun i => ?_)
      simp only [List.mem_toFinset, List.mem_map, smallIndices, Finset.mem_filter, Finset.mem_Ico]
      constructor
      · rintro ⟨a, ha, rfl⟩
        have ha' := mem_append_left rest.1.entries ha
        exact ⟨⟨hge a ha, (hparts.small_iff a ha').2 ha⟩, a, by simp [ha], rfl⟩
      rintro ⟨⟨hi, hi'⟩, a, ha, rfl⟩
      obtain ha | ha | ha := by simpa only [mem_append (t := res.2 ++ _), mem_append] using ha
      · have hlt := hparts.ignore_lt a ha
        omega
      · have hlt := (hparts.move_ge a (hsub.subset ha)).2
        omega
      · exact ⟨a, (hparts.small_iff a (mem_append.2 ha)).1 hi', rfl⟩
    · simp only [List.mem_toFinset, List.mem_map, not_exists, not_and]
      intro a ha
      have hi := hge a ha
      omega
  · rw [hentries, ← hover]
    exact hmoved.routed
  · rw [bindings, hentries, ← hover, hmoved.content_eq, hbind]

lemma grown_of_empty (h : Wf its s) (hsize : s.isTable.length ≤ size) (htotal : s.isTreeTotal = 0)
    (htree : s₁.isTree = s.isTree) (htotal1 : s₁.isTreeTotal = s.isTreeTotal)
    (hsmall : s₁.isTreeSmall = s.isTreeSmall)
    (htable : s₁.isTable = s.isTable ++ List.replicate (size - s.isTable.length) .zero) :
    Grown s s₁ size nsize := by
  have hempty : s.isTree.entries = [] := length_eq_zero_iff.1 (h.tree.total_eq.symm.trans htotal)
  have hentries : s.isTree.entries = [] ++ ([] ++ []) := hempty
  obtain ⟨hrouted, hbind, -⟩ := h.extend hsize hentries (by simp) (by simp) (by simp) htable
  refine ⟨?_, fun i hi => ?_, htable ▸ fresh_replicate s.isTable _, ?_, ?_, ?_, ?_⟩
  · rw [htable, length_append, length_replicate]
    omega
  · rw [htable, getElem?_append_left hi]
  · rw [htree, htotal1]
    exact h.tree
  · rw [hsmall, h.small, htree, hempty]
    simp [smallIndices]
  · rw [htree, hempty]
    exact hrouted
  · rw [hbind, bindings, htree, hempty]
    funext k
    exact or_none.symm

lemma Grown.threading (h : Wf its s) {s' : IpcSpace ο} (hg : Grown s s' size nsize)
    (hsize : s.isTable.length ≤ size) :
    Threading s.isTable.length (size - s.isTable.length) s'.isTable (ieNext s'.isTable 0)
      (overOf s'.isTree.entries) s.bindings := by
  have hlength := h.length_ge
  have hend : ∀ {i e}, s.isTable.length + (size - s.isTable.length) ≤ i →
      s'.isTable[i]? = some e → False := fun hi he => by
    have hlt := (List.getElem?_eq_some_iff.1 he).1
    rw [hg.length] at hlt
    omega
  obtain ⟨xs, hthreads, hmem⟩ := h.table.threads
  have hxs : ∀ x ∈ xs, x < s.isTable.length := fun x hx => by
    obtain ⟨-, e, he, -⟩ := (hmem x).1 hx
    exact (List.getElem?_eq_some_iff.1 he).1
  have hnext : ∀ i < s.isTable.length, ieNext s'.isTable i = ieNext s.isTable i := fun i hi => by
    rw [ieNext, hg.old i hi, ieNext]
  refine ⟨?_, fun hi hrange he htype => ?_, fun hge _ he => hg.fresh hge he,
    ⟨xs, ?_, hthreads.nodup, fun i => ?_⟩, hg.routed, hg.bindings_eq⟩
  · rw [hg.old 0 (by omega)]
    exact h.table.base
  · obtain hlt | hge := hrange
    · exact h.table.free hi (hg.old _ hlt ▸ he) htype
    · exact (hend hge he).elim
  · rw [hnext 0 (by omega)]
    exact hthreads.linked.congr fun x hx => hnext x (hxs x hx)
  rw [hmem]
  refine and_congr_right fun _ => ⟨?_, ?_⟩
  · rintro ⟨e, he, htype⟩
    have hlt := (List.getElem?_eq_some_iff.1 he).1
    exact ⟨Or.inl hlt, e, (hg.old i hlt).trans he, htype⟩
  rintro ⟨hlt | hge, e, he, htype⟩
  · exact ⟨e, (hg.old i hlt).symm.trans he, htype⟩
  · exact (hend hge he).elim

lemma IpcSpace.Wf.growTo (h : Wf its s) (hnew : s.isTableNext ≤ new) (hlast : new ≤ its.last) :
    Wf its (growTo its s new) ∧ (growTo its s new).bindings = s.bindings := by
  have hsize : s.isTable.length ≤ its.itsSize new := by
    rw [h.size]
    exact its.itsSize_mono (by omega) hlast
  have hle : its.itsSize new ≤ its.itsSize (new + 1) := by
    obtain hlt | rfl := lt_or_eq_of_le hlast
    · exact (its.increasing new hlt).le
    · exact its.repeats.ge
  have hnsize : its.itsSize (new + 1) < 2 ^ 24 := by
    have hbound := its.itsSize_le (i := new + 1) (by omega)
    omega
  simp only [Ipc.growTo, ← h.size]
  set s1 : IpcSpace ο :=
    { s with
      isTable := s.isTable ++ replicate (its.itsSize new - s.isTable.length) .zero
      isTableNext := new + 1 }
  obtain ⟨s2, hs2, hg, hrest⟩ : ∃ s2, (if 0 < s.isTreeTotal then
      growTree s1 (s.isTable ++ replicate (its.itsSize new - s.isTable.length) .zero)
        s.isTable.length (its.itsSize new) (its.itsSize (new + 1)) else s1) = s2 ∧
      Grown s s2 (its.itsSize new) (its.itsSize (new + 1)) ∧ s2.isTableNext = new + 1 ∧
        s2.isActive = s.isActive ∧ s2.isGrowing = s.isGrowing := by
    split_ifs with htotal
    · exact ⟨_, rfl, growTree_spec h hsize hle hnsize rfl rfl rfl, rfl, rfl, rfl⟩
    · exact ⟨_, rfl, grown_of_empty h hsize (by omega) rfl rfl rfl rfl, rfl, rfl, rfl⟩
  obtain ⟨hnext, hactive, hgrowing⟩ := hrest
  have hlength := h.length_ge
  obtain ⟨hthread, hlen⟩ := threadFree_spec (hg.threading h hsize) (by omega)
  obtain ⟨htable, hslots⟩ := hthread.finish
  rw [hs2]
  refine ⟨⟨htable, hg.tree, ?_, hslots ▸ hthread.routed, ?_, ?_, ?_, hactive.trans h.active,
    hgrowing.trans h.idle⟩, ?_⟩
  · rw [isTableSize, setIeNext, length_modify, hlen, hg.length, hnext]
    exact hg.small
  · rw [setIeNext, length_modify, hlen, hg.length, hnext]
    rfl
  · rw [hnext]
    omega
  · rw [hnext]
    omega
  · rw [bindings, hslots, hthread.content_eq]

/-! ## The loop -/

lemma seekTarget_spec (target fuel : ℕ) {psize : ℕ} (hpos : 0 < i) (hi : i ≤ its.last + 1)
    (hpsize : psize = its.itsSize (i - 1)) :
    i ≤ (seekTarget its target fuel psize i).2 ∧
      (seekTarget its target fuel psize i).2 ≤ its.last + 1 ∧
      (seekTarget its target fuel psize i).1 =
        its.itsSize ((seekTarget its target fuel psize i).2 - 1) := by
  induction fuel generalizing psize i with
  | zero => exact ⟨le_rfl, hi, hpsize⟩
  | succ fuel ih =>
    rw [seekTarget]
    split_ifs with hstep
    · have hlt : i ≠ its.last + 1 := by
        rintro rfl
        exact hstep.1 (hpsize.trans its.repeats.symm)
      obtain ⟨hle, hlast, hsize⟩ := ih (i := i + 1) (by omega) (by omega)
        (show its.itsSize i = its.itsSize (i + 1 - 1) from rfl)
      exact ⟨by omega, hlast, hsize⟩
    · exact ⟨le_rfl, hi, hpsize⟩

lemma growChoice_spec (h : Wf its s) {target : Option ℕ}
    (hchoice : growChoice its s target = .ok new) : s.isTableNext ≤ new ∧ new ≤ its.last := by
  have hnext := h.next_le
  have hpos := h.next_pos
  cases target with
  | none =>
    simp only [growChoice] at hchoice
    split_ifs at hchoice with hsize
    obtain rfl := Except.ok.inj hchoice
    refine ⟨le_rfl, Nat.le_of_lt_succ (lt_of_le_of_ne hnext fun heq => hsize ?_)⟩
    rw [heq]
    exact its.repeats.symm
  | some target =>
    simp only [growChoice] at hchoice
    split_ifs at hchoice with htarget hsize hosize
    obtain rfl := Except.ok.inj hchoice
    obtain ⟨hle, hlast, hpsize⟩ := seekTarget_spec target (its.last + 2) hpos hnext rfl
    refine ⟨hle, Nat.le_of_lt_succ (lt_of_le_of_ne hlast fun heq => hsize ?_)⟩
    rw [hpsize, heq]
    exact its.repeats.symm

lemma growLoop_spec (h : Wf its s) (memory : ℕ → Bool) (target : Option ℕ) (fuel : ℕ) :
    Wf its (growLoop its memory target fuel s).2 ∧
      (growLoop its memory target fuel s).2.bindings = s.bindings := by
  induction fuel generalizing s with
  | zero => exact ⟨h, rfl⟩
  | succ fuel ih =>
    simp only [growLoop, h.idle]
    cases hchoice : growChoice its s target with
    | error kr => exact ⟨h, rfl⟩
    | ok new =>
      obtain ⟨hnew, hlast⟩ := growChoice_spec h hchoice
      obtain ⟨hwf, hbind⟩ := h.growTo hnew hlast
      simp only [Bool.false_eq_true, if_false]
      split_ifs
      · obtain ⟨hwf', hbind'⟩ := ih hwf
        exact ⟨hwf', hbind'.trans hbind⟩
      · exact ⟨hwf, hbind⟩
      · exact ⟨h, rfl⟩

lemma growTo_isTableNext (its : IpcTableSizes) (s : IpcSpace ο) (new : ℕ) :
    (growTo its s new).isTableNext = new + 1 := by
  simp only [growTo]
  split_ifs <;> rfl

end Rhapsody.Ipc
