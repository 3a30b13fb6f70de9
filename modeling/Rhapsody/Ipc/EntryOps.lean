import Rhapsody.Ipc.EntrySpec

/-! Looking up, allocating, rewriting and deallocating entries: each operation keeps a
space well formed and does to its bindings what it does to a map. -/

namespace Rhapsody.Ipc

open Function List Option
open Rhapsody.Lib TwoTier IpcSplayTree

/-! ## The tree -/

section

variable {α : Type*} {t : IpcSplayTree α} {f : MachPort → α → α}

lemma mapEntries_root_eq_null : (t.mapEntries f).istRoot = .null ↔ t.istRoot = .null := by
  rw [mapEntries]
  cases t.istRoot <;> simp [NameTree.mapEntries]

lemma mapEntries_pieces_entries :
    (t.mapEntries f).pieces.entries = t.pieces.entries.map fun a => (a.1, f a.1 a.2) := by
  simp [Pieces.entries, pieces, mapEntries, lspineList_mapEntries, rspineList_mapEntries]

lemma mapEntries_entries : (t.mapEntries f).entries = t.entries.map fun a => (a.1, f a.1 a.2) := by
  by_cases hroot : t.istRoot = .null
  · rw [entries_of_null hroot, entries_of_null (mapEntries_root_eq_null.2 hroot)]
    rfl
  · rw [entries_of_ne_null hroot, entries_of_ne_null (mt mapEntries_root_eq_null.1 hroot),
      mapEntries_pieces_entries]

lemma mapEntries_wellFormed (h : t.WellFormed) : (t.mapEntries f).WellFormed := by
  intro hroot
  obtain ⟨hord, hleft, hright, l, n, d, r, htree, hl, hr⟩ := h (mt mapEntries_root_eq_null.2 hroot)
  refine ⟨?_, ?_, ?_, l.mapEntries f, n, f n d, r.mapEntries f, ?_, ?_, ?_⟩
  · rw [mapEntries_pieces_entries, Ordered, pairwise_map]
    exact hord
  · simp only [pieces, mapEntries, lspineList_mapEntries, List.forall_mem_map]
    exact hleft
  · simp only [pieces, mapEntries, rspineList_mapEntries, List.forall_mem_map]
    exact hright
  · have hroot' : t.istRoot = .node l n d r := htree
    simp [pieces, mapEntries, hroot', NameTree.mapEntries]
  · intro hn
    rw [hl hn, NameTree.mapEntries]
  · intro hn
    rw [hr hn, NameTree.mapEntries]

lemma find_map_store (xs : List (MachPort × α)) (name k : MachPort) (e : α) :
    find (xs.map fun a => (a.1, if a.1 = name then e else a.2)) k =
      if k = name then (find xs name).map (fun _ => e) else find xs k := by
  induction xs with
  | nil => simp
  | cons a xs ih =>
    rw [map_cons, find_cons, find_cons, find_cons, ih]
    by_cases hka : k = a.1
    · subst hka
      by_cases hname : a.1 = name
      all_goals simp [hname]
    by_cases hname : k = name
    · subst hname
      simp [hka]
    · simp [hka, hname]

lemma setEntry_find {name : MachPort} (hname : find t.entries name ≠ none) (e : α) :
    find (t.setEntry name e).entries = update (find t.entries) name (some e) := by
  rw [setEntry, mapEntries_entries]
  funext k
  rw [find_map_store]
  by_cases hk : k = name
  · obtain ⟨d, hd⟩ := ne_none_iff_exists'.1 hname
    simp [hk, hd]
  · simp [hk]

lemma insert_length {name : MachPort} (h : t.WellFormed) (habsent : find t.entries name = none)
    (e : α) : (ipcSplayTreeInsert t name e).entries.length = t.entries.length + 1 := by
  obtain ⟨l, r, xs, ys, hinsert, htree, hcat, -, -⟩ := insert_shape h habsent e
  rw [hinsert, ofRoot_entries, htree, hcat]
  simp
  omega

lemma delete_length {name : MachPort} (h : t.WellFormed) (hpresent : find t.entries name ≠ none) :
    (ipcSplayTreeDelete t name).entries.length = t.entries.length - 1 := by
  obtain ⟨xs, e, ys, hcat, -, -, root, hdelete, hroot⟩ := delete_shape h hpresent
  rw [hdelete, ofAssembled_entries, hroot, hcat]
  simp

end

/-! ## Well-formed spaces -/

variable {ο : Type*}

def overOf (xs : List (MachPort × IpcEntry ο)) (k : MachPort) : Option (IpcRight ο) :=
  (find xs k).bind IpcEntry.right?

variable {k : MachPort} {t' t : IpcSplayTree (IpcEntry ο)}

lemma overOf_update {xs ys : List (MachPort × IpcEntry ο)} {v : Option (IpcEntry ο)}
    (h : find ys = update (find xs) k v) :
    overOf ys = update (overOf xs) k (v.bind IpcEntry.right?) := by
  funext j
  by_cases hj : j = k
  · subst hj
    simp [overOf, h]
  · simp [overOf, h, hj]

structure TreeOk (t : IpcSplayTree (IpcEntry ο)) (total : ℕ) : Prop where
  wellFormed : t.WellFormed
  total_eq : total = t.entries.length
  loose : ∀ {k e}, find t.entries k = some e → e.Loose
  valid : ∀ {k}, find t.entries k ≠ none → MachPortValid k

namespace TreeOk

variable {total : ℕ} {name : MachPort} {e : IpcEntry ο}
  (h : TreeOk t total)
include h

lemma overOf_ne_none : overOf t.entries k ≠ none ↔ find t.entries k ≠ none := by
  cases hk : find t.entries k with
  | none => simp [overOf, hk]
  | some e => simp [overOf, hk, IpcEntry.right?_eq_none, (h.loose hk).typed]

lemma splayed (hentries : t'.entries = t.entries) (hwf : t'.WellFormed) : TreeOk t' total :=
  ⟨hwf, hentries ▸ h.total_eq, fun hk => h.loose (hentries ▸ hk), fun hk => h.valid (hentries ▸ hk)⟩

lemma store (hname : find t.entries name ≠ none) (he : e.Loose) :
    TreeOk (t.setEntry name e) total := by
  have hfind := setEntry_find hname e
  refine ⟨mapEntries_wellFormed h.wellFormed, ?_, fun {k d} hk => ?_, fun {k} hk => ?_⟩
  · rw [setEntry, mapEntries_entries, length_map, h.total_eq]
  · rw [hfind] at hk
    by_cases hkn : k = name
    · subst hkn
      rw [update_self, some.injEq] at hk
      exact hk ▸ he
    · rw [update_of_ne hkn] at hk
      exact h.loose hk
  rw [hfind] at hk
  by_cases hkn : k = name
  · exact hkn ▸ h.valid hname
  · rw [update_of_ne hkn] at hk
    exact h.valid hk

lemma install (hname : find t.entries name = none) (hvalid : MachPortValid name)
    (e₀ : IpcEntry ο) (he : e.Loose) :
    TreeOk ((ipcSplayTreeInsert t name e₀).setEntry name e) (total + 1) ∧
      find ((ipcSplayTreeInsert t name e₀).setEntry name e).entries =
        update (find t.entries) name (some e) := by
  obtain ⟨hwf, hinsert⟩ := insert_spec h.wellFormed hname e₀
  have hpresent : find (ipcSplayTreeInsert t name e₀).entries name ≠ none := by simp [hinsert]
  have hfind : find ((ipcSplayTreeInsert t name e₀).setEntry name e).entries =
      update (find t.entries) name (some e) := by
    rw [setEntry_find hpresent, hinsert, update_idem]
  refine ⟨⟨mapEntries_wellFormed hwf, ?_, fun {k d} hk => ?_, fun {k} hk => ?_⟩, hfind⟩
  · rw [setEntry, mapEntries_entries, length_map, insert_length h.wellFormed hname, h.total_eq]
  · rw [hfind] at hk
    by_cases hkn : k = name
    · subst hkn
      rw [update_self, some.injEq] at hk
      exact hk ▸ he
    · rw [update_of_ne hkn] at hk
      exact h.loose hk
  rw [hfind] at hk
  by_cases hkn : k = name
  · exact hkn ▸ hvalid
  · rw [update_of_ne hkn] at hk
    exact h.valid hk

lemma sublist {total' : ℕ} (hwf : t'.WellFormed) (hsub : t'.entries.Sublist t.entries)
    (htotal : total' = t'.entries.length) : TreeOk t' total' := by
  have hfind : ∀ {k d}, find t'.entries k = some d → find t.entries k = some d := fun hk =>
    (find_eq_some_iff h.wellFormed.ordered).2 (hsub.subset ((find_eq_some_iff hwf.ordered).1 hk))
  refine ⟨hwf, htotal, fun hk => h.loose (hfind hk), fun hk => ?_⟩
  obtain ⟨d, hd⟩ := ne_none_iff_exists'.1 hk
  exact h.valid (by simp [hfind hd])

lemma without (hwf : t'.WellFormed) (hfind : find t'.entries = update (find t.entries) name none)
    (hlength : t'.entries.length = t.entries.length - 1) : TreeOk t' (total - 1) := by
  refine ⟨hwf, by rw [hlength, h.total_eq], fun {k d} hk => ?_, fun {k} hk => ?_⟩
  · rw [hfind] at hk
    by_cases hkn : k = name
    · simp [hkn] at hk
    · rw [update_of_ne hkn] at hk
      exact h.loose hk
  rw [hfind] at hk
  by_cases hkn : k = name
  · simp [hkn] at hk
  · rw [update_of_ne hkn] at hk
    exact h.valid hk

end TreeOk

/-! ## What a larger table would take -/

section

variable {α : Type*} {xs ys : List (MachPort × α)} {size nsize : ℕ} {name : MachPort}

/-- The indices of names that a table grown from `size` to `nsize` would hold. -/
def smallIndices (xs : List (MachPort × α)) (size nsize : ℕ) : Finset ℕ :=
  (Finset.Ico size nsize).filter fun i => ∃ a ∈ xs, machPortIndex a.1 = i

lemma mem_smallIndices {i : ℕ} : i ∈ smallIndices xs size nsize ↔
    (size ≤ i ∧ i < nsize) ∧ ∃ k, machPortIndex k = i ∧ find xs k ≠ none := by
  simp only [smallIndices, Finset.mem_filter, Finset.mem_Ico, find_ne_none_iff]
  refine and_congr_right fun _ => ⟨?_, ?_⟩
  · rintro ⟨a, ha, hi⟩
    exact ⟨a.1, hi, a, ha, rfl⟩
  · rintro ⟨-, hi, a, ha, rfl⟩
    exact ⟨a, ha, hi⟩

lemma smallIndices_off (h : ∀ k ≠ name, find ys k = find xs k)
    (hoff : ¬(size ≤ machPortIndex name ∧ machPortIndex name < nsize)) :
    smallIndices ys size nsize = smallIndices xs size nsize := by
  ext i
  rw [mem_smallIndices, mem_smallIndices]
  refine and_congr_right fun hi => exists_congr fun k => and_congr_right fun hk => ?_
  rw [h k]
  rintro rfl
  exact hoff (hk ▸ hi)

lemma smallIndices_insert (h : ∀ k ≠ name, find ys k = find xs k) (hname : find ys name ≠ none)
    (hin : size ≤ machPortIndex name ∧ machPortIndex name < nsize) :
    smallIndices ys size nsize = insert (machPortIndex name) (smallIndices xs size nsize) := by
  ext i
  rw [Finset.mem_insert, mem_smallIndices, mem_smallIndices]
  by_cases hi : i = machPortIndex name
  · subst hi
    simpa [hin] using ⟨name, rfl, hname⟩
  simp only [hi, false_or]
  refine and_congr_right fun _ => exists_congr fun k => and_congr_right fun hk => ?_
  rw [h k]
  rintro rfl
  exact hi hk.symm

end

namespace IpcSpace

def bindings (s : IpcSpace ο) : MachPort → Option (IpcRight ο) :=
  content machPortIndex machPortGen (slotsOf s.isTable) (overOf s.isTree.entries)

structure Wf (its : IpcTableSizes) (s : IpcSpace ο) : Prop where
  table : TableOk s.isTable
  tree : TreeOk s.isTree s.isTreeTotal
  small : s.isTreeSmall =
    (smallIndices s.isTree.entries s.isTableSize (its.itsSize s.isTableNext)).card
  routed : Routed machPortIndex machPortGen (slotsOf s.isTable) (overOf s.isTree.entries)
  size : s.isTable.length = its.itsSize (s.isTableNext - 1)
  next_pos : 0 < s.isTableNext
  next_le : s.isTableNext ≤ its.last + 1
  active : s.isActive = true
  idle : s.isGrowing = false

def Found (s : IpcSpace ο) (name : MachPort) (e : IpcEntry ο) : IpcEntryPtr → Prop
  | .table i => i = machPortIndex name ∧ s.isTable[i]? = some e ∧
      e.ieBits.gen = machPortGen name ∧ e.ieBits.type ≠ machPortTypeNone
  | .tree k => k = name ∧ find s.isTree.entries name = some e

/-- What callers do with an entry before they unlock the space: give it a right. -/
def install (s : IpcSpace ο) (ptr : IpcEntryPtr) (r : IpcRight ο) : IpcSpace ο :=
  match s.entry ptr with
  | none => s
  | some e => s.setEntry (e.setRight r) ptr

end IpcSpace

open IpcSpace

variable {its : IpcTableSizes} {s : IpcSpace ο} {name : MachPort} {e : IpcEntry ο}
  {ptr : IpcEntryPtr} {i : ℕ}

variable {table : List (IpcEntry ο)} {p : CollisionParts ο}

def reservedName : MachPort := machPortMake 0 0xff

lemma reservedName_of_index (hindex : machPortIndex name = 0)
    (hgen : machPortGen name = 0xff) : name = reservedName :=
  machPort_ext _ _ (by rw [hindex]; rfl) (by rw [hgen]; rfl)

lemma slotsOf_of_getElem? (he : table[i]? = some e) : slotsOf table i = some e.slot := by
  simp [slotsOf, he]

section
variable (h : Wf its s)
include h

lemma IpcSpace.Wf.index_lt (he : s.isTable[i]? = some e) : i < 2 ^ 24 - 1 := by
  have hi := (List.getElem?_eq_some_iff.1 he).1
  have hnext := h.next_le
  have hle := its.itsSize_le (i := s.isTableNext - 1) (by omega)
  rw [← h.size] at hle
  omega

lemma IpcSpace.Wf.type_zero (he : s.isTable[0]? = some e) :
    e.ieBits.type = machPortTypeNone ∧ e.ieBits.gen = 0xff := by
  obtain ⟨e0, he0, htype, hgen⟩ := h.table.base
  obtain rfl : e0 = e := some.inj (he0.symm.trans he)
  exact ⟨htype, hgen⟩

lemma IpcSpace.Wf.ne_zero (he : s.isTable[i]? = some e)
    (htype : e.ieBits.type ≠ machPortTypeNone) : i ≠ 0 := by
  rintro rfl
  exact htype (h.type_zero he).1

lemma IpcSpace.Wf.change {s' : IpcSpace ο} {slots : ℕ → Option (Slot (BitVec 8) (IpcRight ο))}
    {overflow m : MachPort → Option (IpcRight ο)}
    (htiers : Stores machPortIndex machPortGen slots overflow m)
    (hslots : slotsOf s'.isTable = slots) (hover : overOf s'.isTree.entries = overflow)
    (htable : TableOk s'.isTable) (htree : TreeOk s'.isTree s'.isTreeTotal)
    (hsmall : s'.isTreeSmall = (smallIndices s'.isTree.entries s.isTableSize
      (its.itsSize s.isTableNext)).card) (hlength : s'.isTable.length = s.isTable.length)
    (hrest : s'.isTableNext = s.isTableNext ∧ s'.isActive = s.isActive ∧
      s'.isGrowing = s.isGrowing) : Wf its s' ∧ s'.bindings = m := by
  obtain ⟨hnext, hactive, hgrowing⟩ := hrest
  subst hslots hover
  exact ⟨⟨htable, htree, by rw [isTableSize, hlength, hnext, hsmall]; rfl, htiers.1,
    by rw [hlength, hnext, h.size], hnext ▸ h.next_pos, hnext ▸ h.next_le,
    hactive ▸ h.active, hgrowing ▸ h.idle⟩, htiers.2⟩

lemma IpcSpace.Wf.splayed (hentries : t'.entries = s.isTree.entries) (hwf : t'.WellFormed) :
    Wf its { s with isTree := t' } ∧
      ({ s with isTree := t' } : IpcSpace ο).bindings = s.bindings := by
  refine ⟨{ h with tree := h.tree.splayed hentries hwf, small := ?_, routed := ?_ }, ?_⟩
  · rw [hentries]
    exact h.small
  · rw [hentries]
    exact h.routed
  · rw [bindings, hentries, bindings]

/-! ## Looking up -/

lemma IpcSpace.Found.bindings_eq (hf : s.Found name e ptr) : s.bindings name = e.right? := by
  cases ptr with
  | table i =>
    obtain ⟨rfl, he, hgen, htype⟩ := hf
    obtain ⟨r, hr⟩ := ne_none_iff_exists'.1 (mt IpcEntry.right?_eq_none.1 htype)
    rw [bindings, content_of_slot (slotsOf_of_getElem? he), inSlot]
    simp [IpcEntry.slot, hgen, hr]
  | tree k =>
    obtain ⟨rfl, hfind⟩ := hf
    have hover : overOf s.isTree.entries k ≠ none := h.tree.overOf_ne_none.2 (by simp [hfind])
    rw [bindings, content]
    cases hslot : slotsOf s.isTable (machPortIndex k) with
    | none => simp [overOf, hfind]
    | some d => simp [inSlot_eq_none (h.routed.apart hover hslot), overOf, hfind]

lemma IpcSpace.Wf.route_eq_bindings
    (hname : name = reservedName → overOf s.isTree.entries name = none) :
    route machPortIndex machPortGen (slotsOf s.isTable) (overOf s.isTree.entries) name =
      s.bindings name := by
  refine h.routed.route_eq_content name fun d hd hgen hheld => ?_
  obtain ⟨e, he, rfl⟩ := map_eq_some_iff.1 hd
  by_cases hindex : machPortIndex name = 0
  · refine hname (reservedName_of_index hindex (hgen.symm.trans ?_))
    exact (h.type_zero (hindex ▸ he)).2
  have hfree := h.table.free hindex he (IpcEntry.right?_eq_none.1 hheld)
  refine h.routed.over_eq_none hd ?_
  rw [IpcEntry.slot, hfree.bits]

lemma treeLookup_spec (name : MachPort) :
    Wf its (treeLookup s name).2 ∧ (treeLookup s name).2.bindings = s.bindings ∧
      (∀ ptr, (treeLookup s name).1 = some ptr → ∃ e, (treeLookup s name).2.Found name e ptr) ∧
      ((treeLookup s name).1 = none → find s.isTree.entries name = none) := by
  obtain ⟨hfind, hentries, hwf⟩ := lookup_spec h.tree.wellFormed name
  obtain ⟨hs, hbind⟩ := h.splayed hentries hwf
  refine ⟨hs, hbind, fun ptr hptr => ?_, fun hnone => ?_⟩
  · obtain ⟨e, he, rfl⟩ := map_eq_some_iff.1 hptr
    exact ⟨e, rfl, by simp [treeLookup, hentries, ← hfind, he]⟩
  · rw [← hfind]
    exact map_eq_none_iff.1 hnone

lemma entryLookup_spec (name : MachPort) :
    Wf its (ipcEntryLookup s name).2 ∧ (ipcEntryLookup s name).2.bindings = s.bindings ∧
      (∀ ptr, (ipcEntryLookup s name).1 = some ptr →
        ∃ e, (ipcEntryLookup s name).2.Found name e ptr) ∧
      ((ipcEntryLookup s name).1 = none → route machPortIndex machPortGen (slotsOf s.isTable)
        (overOf s.isTree.entries) name = none) := by
  obtain ⟨hs, hbind, hsome, hnone⟩ := treeLookup_spec h name
  rw [ipcEntryLookup]
  cases htable : s.isTable[machPortIndex name]? with
  | some entry =>
    simp only [route, slotsOf_of_getElem? htable]
    by_cases hgen : entry.ieBits.gen = machPortGen name
    · by_cases htype : entry.ieBits.type = machPortTypeNone
      · simp [hgen, htype, h, IpcEntry.slot, IpcEntry.right?_eq_none]
      · simpa [hgen, htype, h] using ⟨entry, rfl, htable, hgen, htype⟩
    cases hflag : entry.ieBits.collision with
    | false => simp [hgen, hflag, h, IpcEntry.slot]
    | true =>
      simp only [ne_eq, hgen, not_false_eq_true, if_true, hflag, IpcEntry.slot, if_false]
      exact ⟨hs, hbind, hsome, fun hn => by simp [overOf, hnone hn]⟩
  | none =>
    have hslot : slotsOf s.isTable (machPortIndex name) = none := by simp [slotsOf, htable]
    simp only [route, hslot]
    by_cases htotal : s.isTreeTotal = 0
    · have hempty : s.isTree.entries = [] :=
        length_eq_zero_iff.1 (h.tree.total_eq.symm.trans htotal)
      simp [htotal, h, overOf, hempty]
    · simp only [htotal, if_false]
      exact ⟨hs, hbind, hsome, fun hn => by simp [overOf, hnone hn]⟩

end

/-! ## Giving an entry a right -/

lemma install_eq (hf : s.Found name e ptr) (r : IpcRight ο) :
    s.install ptr r = s.setEntry (e.setRight r) ptr := by
  cases ptr with
  | table i => simp [install, entry, hf.2.1]
  | tree k =>
    obtain ⟨rfl, hfind⟩ := hf
    simp [install, entry, hfind]

lemma IpcSpace.Wf.install (h : Wf its s) (hf : s.Found name e ptr) (r : IpcRight ο) :
    Wf its (s.install ptr r) ∧ (s.install ptr r).bindings = update s.bindings name (some r) ∧
      (s.install ptr r).Found name (e.setRight r) ptr := by
  rw [install_eq hf]
  cases ptr with
  | table i =>
    obtain ⟨rfl, he, hgen, htype⟩ := hf
    have hslots := slotsOf_set he (e.setRight r)
    rw [IpcEntry.slot_setRight] at hslots
    obtain ⟨hrouted, hcontent⟩ := rewrite_slot machPort_ext h.routed (some r)
      (slotsOf_of_getElem? he) (mt IpcEntry.right?_eq_none.1 htype) hgen
    refine ⟨{ h with table := ?_, small := ?_, routed := ?_, size := ?_ }, ?_, rfl, ?_, hgen,
      r.typed⟩
    · exact h.table.set he (fun hi => absurd hi (h.ne_zero he htype)) fun _ => ⟨htype, r.typed⟩
    · simpa [isTableSize, setEntry] using h.small
    · simpa only [setEntry, hslots] using hrouted
    · simpa [setEntry] using h.size
    · simpa only [bindings, setEntry, hslots] using hcontent
    · exact List.getElem?_set_self (List.getElem?_eq_some_iff.1 he).1
  | tree k =>
    obtain ⟨rfl, hfind⟩ := hf
    have hpresent : find s.isTree.entries k ≠ none := by simp [hfind]
    have hloose := h.tree.loose hfind
    have hstore := setEntry_find hpresent (e.setRight r)
    have hover := overOf_update hstore
    rw [bind_some, IpcEntry.right?_setRight] at hover
    obtain ⟨hrouted, hcontent⟩ := rewrite_over (r := r) h.routed (h.tree.overOf_ne_none.2 hpresent)
    refine ⟨{ h with tree := ?_, small := ?_, routed := ?_ }, ?_, rfl, ?_⟩
    · exact h.tree.store hpresent ⟨r.typed, hloose.gen, hloose.collision⟩
    · refine h.small.trans (congrArg _ (Finset.filter_congr fun i _ => ?_))
      simp [setEntry, IpcSplayTree.setEntry, mapEntries_entries]
    · simpa only [setEntry, hover] using hrouted
    · simpa only [bindings, setEntry, hover] using hcontent
    · simp [setEntry, hstore]

/-! ## Deallocating -/

lemma machPortIndex_mono {j : MachPort} (h : j ≤ k) : machPortIndex j ≤ machPortIndex k := by
  rw [machPortIndex_eq, machPortIndex_eq]
  exact Nat.div_le_div_right h

lemma treeCollision_spec (hwf : s.isTree.WellFormed) (hvalid : MachPortValid name) :
    ((ipcEntryTreeCollision s name).1 = true ↔
        ∃ k, machPortIndex k = machPortIndex name ∧ find s.isTree.entries k ≠ none) ∧
      ∃ t', (ipcEntryTreeCollision s name).2 = { s with isTree := t' } ∧
        t'.entries = s.isTree.entries ∧ t'.WellFormed := by
  obtain ⟨⟨hlower, hupper⟩, hentries, hwf'⟩ := bounds_spec hwf name
  refine ⟨?_, _, rfl, hentries, hwf'⟩
  rw [ipcEntryTreeCollision, decide_eq_true_iff]
  constructor
  · rintro (⟨hne, hindex⟩ | ⟨hne, hindex⟩)
    · obtain hgreatest | ⟨-, heq⟩ := hlower
      · exact ⟨_, hindex, hgreatest.1.1⟩
      · exact absurd heq hne
    obtain hleast | ⟨-, heq⟩ := hupper
    · exact ⟨_, hindex, hleast.1.1⟩
    · exact absurd heq hne
  rintro ⟨k, hindex, hk⟩
  rcases le_total k name with hle | hle
  · obtain hgreatest | ⟨hnone, -⟩ := hlower
    · refine .inl ⟨?_, le_antisymm (machPortIndex_mono hgreatest.1.2) ?_⟩
      · exact ne_of_lt (hgreatest.1.2.trans_lt (lt_of_le_of_ne (le_machPortLargest _) hvalid.2))
      · exact hindex ▸ machPortIndex_mono (hgreatest.2 ⟨hk, hle⟩)
    · exact absurd hle (hnone k hk)
  obtain hleast | ⟨hnone, -⟩ := hupper
  · refine .inr ⟨?_, le_antisymm ?_ (machPortIndex_mono hleast.1.2)⟩
    · exact ne_of_gt ((lt_of_le_of_ne (machPortSmallest_le _) hvalid.1.symm).trans_le hleast.1.2)
    · exact hindex ▸ machPortIndex_mono (hleast.2 ⟨hk, hle⟩)
  · exact absurd hle (hnone k hk)

lemma slot_setCollision (e : IpcEntry ο) (collision : Bool) :
    (e.setCollision collision).slot = { e.slot with overflowed := collision } := rfl

lemma slotsOf_modify_setCollision (he : table[i]? = some e) (collision : Bool) :
    slotsOf (table.modify i (·.setCollision collision)) =
      update (slotsOf table) i (some { e.slot with overflowed := collision }) := by
  rw [modify_eq_set he, slotsOf_set he, slot_setCollision]

lemma TableOk.setCollision (h : TableOk table) (he : table[i]? = some e)
    (hused : i ≠ 0 → e.ieBits.type ≠ machPortTypeNone) (collision : Bool) :
    TableOk (table.modify i (·.setCollision collision)) := by
  rw [modify_eq_set he]
  refine h.set he (fun hi => ⟨rfl, ?_, rfl⟩) fun hi => ⟨hused hi, hused hi⟩
  subst hi
  obtain ⟨e0, he0, htype, -⟩ := h.base
  exact some.inj (he0.symm.trans he) ▸ htype

lemma IpcSpace.Wf.used_of_over (h : Wf its s) (he : s.isTable[machPortIndex name]? = some e)
    (hname : find s.isTree.entries name ≠ none) (hi : machPortIndex name ≠ 0) :
    e.ieBits.type ≠ machPortTypeNone := by
  intro htype
  have hflag : e.ieBits.collision = true := (h.routed.overflowed (slotsOf_of_getElem? he)).2
    ⟨name, rfl, h.tree.overOf_ne_none.2 hname⟩
  rw [(h.table.free hi he htype).bits] at hflag
  simp at hflag

lemma IpcSpace.Wf.deallocTree (h : Wf its s) (hname : find s.isTree.entries name ≠ none) :
    Wf its (deallocTree its s name) ∧
      (deallocTree its s name).bindings = update s.bindings name none := by
  obtain ⟨hwf, hfind⟩ := delete_spec h.tree.wellFormed hname
  have htree : TreeOk (ipcSplayTreeDelete s.isTree name) (s.isTreeTotal - 1) :=
    h.tree.without hwf hfind (delete_length h.tree.wellFormed hname)
  have hover : overOf (ipcSplayTreeDelete s.isTree name).entries =
      update (overOf s.isTree.entries) name none := overOf_update hfind
  have hname' : overOf s.isTree.entries name ≠ none := h.tree.overOf_ne_none.2 hname
  have hothers : ∀ k ≠ name,
      find s.isTree.entries k = find (ipcSplayTreeDelete s.isTree name).entries k :=
    fun k hk => by rw [hfind, update_of_ne hk]
  obtain ⟨hcollision, t', hres, hentries, hwf'⟩ := treeCollision_spec
    (s := { s with isTree := ipcSplayTreeDelete s.isTree name, isTreeTotal := s.isTreeTotal - 1 })
    hwf (h.tree.valid hname)
  have htree' : TreeOk t' (s.isTreeTotal - 1) := htree.splayed hentries hwf'
  have hover' : overOf t'.entries = update (overOf s.isTree.entries) name none := by
    rw [hentries]
    exact hover
  simp only [Ipc.deallocTree, hres]
  by_cases hsize : machPortIndex name < s.isTableSize
  · obtain ⟨e, he⟩ : ∃ e, s.isTable[machPortIndex name]? = some e := ⟨_, getElem?_eq_getElem hsize⟩
    have hslot := slotsOf_of_getElem? he
    have htiers := fun flag hflag => evict h.routed flag hname' hslot hflag
    have hsmall : s.isTreeSmall = (smallIndices t'.entries s.isTableSize
        (its.itsSize s.isTableNext)).card := by
      rw [hentries, h.small, smallIndices_off hothers fun hin => hin.1.not_gt hsize]
    simp only [← hover, htree.overOf_ne_none, if_pos hsize] at htiers ⊢
    cases hflag : (ipcEntryTreeCollision { s with
        isTree := ipcSplayTreeDelete s.isTree name, isTreeTotal := s.isTreeTotal - 1 } name).1 with
    | false =>
      rw [hflag] at hcollision
      exact h.change (htiers false hcollision) (slotsOf_modify_setCollision he false)
        (hover'.trans hover.symm) (h.table.setCollision he (h.used_of_over he hname) false) htree'
        hsmall (by simp) ⟨rfl, rfl, rfl⟩
    | true =>
      rw [hflag] at hcollision
      have hset : (e.slot).overflowed = true := (h.routed.overflowed hslot).2 ⟨name, rfl, hname'⟩
      have hsame : slotsOf s.isTable = update (slotsOf s.isTable) (machPortIndex name)
          (some { e.slot with overflowed := true }) := by
        rw [← hset, ← hslot, update_eq_self]
      exact h.change (htiers true hcollision) hsame (hover'.trans hover.symm) h.table htree' hsmall
        rfl ⟨rfl, rfl, rfl⟩
  have hbeyond : slotsOf s.isTable (machPortIndex name) = none := by
    simpa [slotsOf, isTableSize] using hsize
  have htiers := update_beyond h.routed hbeyond none
  have hsmall := h.small
  simp only [if_neg hsize]
  by_cases hin : machPortIndex name < its.itsSize s.isTableNext
  · rw [smallIndices_insert hothers hname ⟨not_lt.1 hsize, hin⟩] at hsmall
    have hmem := mem_smallIndices.trans
      ((and_iff_right ⟨not_lt.1 hsize, hin⟩).trans hcollision.symm)
    rw [if_pos hin]
    split_ifs with hflag
    · rw [Finset.insert_eq_of_mem (hmem.2 hflag), ← hentries] at hsmall
      exact h.change htiers rfl hover' h.table htree' hsmall rfl ⟨rfl, rfl, rfl⟩
    refine h.change htiers rfl hover' h.table htree' ?_ rfl ⟨rfl, rfl, rfl⟩
    rw [Finset.card_insert_of_notMem (mt hmem.1 hflag)] at hsmall
    rw [hsmall, hentries, Nat.add_sub_cancel]
  · rw [if_neg hin]
    rw [smallIndices_off hothers fun hin' => hin hin'.2] at hsmall
    exact h.change htiers rfl hover h.table htree hsmall rfl ⟨rfl, rfl, rfl⟩

lemma IpcSpace.Wf.deallocSlot (h : Wf its s) (he : s.isTable[machPortIndex name]? = some e)
    (hgen : e.ieBits.gen = machPortGen name) (htype : e.ieBits.type ≠ machPortTypeNone)
    (hobject : e.ieObject = none) (hcollision : e.ieBits.collision = false) :
    Wf its (deallocSlot s (machPortIndex name) e) ∧
      (deallocSlot s (machPortIndex name) e).bindings = update s.bindings name none := by
  have hi : machPortIndex name ≠ 0 := h.ne_zero he htype
  set e' : IpcEntry ο :=
    { e with ieBits := { gen := e.ieBits.gen }, index := ieNext s.isTable 0 } with he'
  have hslot : e'.slot = { e.slot with held := none } := by
    simp [he', IpcEntry.slot, IpcEntry.right?, hcollision]
  obtain ⟨e0, he0, htype0, -⟩ := h.table.base
  have hzero : (s.isTable.set (machPortIndex name) e')[0]? = some e0 := by
    rw [getElem?_set_ne hi, he0]
  refine h.change (rewrite_slot machPort_ext h.routed none (slotsOf_of_getElem? he)
    (mt IpcEntry.right?_eq_none.1 htype) hgen) ?_ rfl (h.table.release hi he htype hobject) h.tree
    h.small ?_ ⟨rfl, rfl, rfl⟩
  · rw [← hslot, ← slotsOf_set he]
    exact slotsOf_setIeNext hzero htype0 _
  · simp [Ipc.deallocSlot, setIeNext]

section

variable {α : Type*} {t : IpcSplayTree α}

lemma pick_eq_none : ipcSplayTreePick t = none ↔ t.entries = [] := by
  by_cases hroot : t.istRoot = .null
  · simp [ipcSplayTreePick, hroot, entries_of_null]
  obtain ⟨l, n, d, r, htree⟩ : ∃ l n d r, t.istRoot = .node l n d r := by
    cases hcase : t.istRoot with
    | null => exact absurd hcase hroot
    | node l n d r => exact ⟨l, n, d, r, rfl⟩
  simp [ipcSplayTreePick, htree, entries_of_ne_null hroot, Pieces.entries, pieces]

lemma pick_mem {a : MachPort × α} (h : ipcSplayTreePick t = some a) : a ∈ t.entries := by
  cases htree : t.istRoot with
  | null => simp [ipcSplayTreePick, htree] at h
  | node l n d r =>
    simp only [ipcSplayTreePick, htree, some.injEq] at h
    rw [entries_of_ne_null (by simp [htree]), Pieces.entries, pieces, htree]
    simp [← h]

lemma find_erase {xs ys : List (MachPort × α)} {d : α} (h : Ordered (xs ++ (k, d) :: ys)) :
    find (xs ++ ys) = update (find (xs ++ (k, d) :: ys)) k none := by
  obtain ⟨-, hys, hx⟩ := ordered_append.1 h
  have hxs : ∀ a ∈ xs, a.1 < k := fun a ha => hx a ha (k, d) (by simp)
  funext j
  by_cases hj : j = k
  · subst hj
    rw [update_self, find_append, find_eq_none_of_lt hxs, none_or]
    exact find_eq_none_of_gt (ordered_cons.1 hys).1
  · rw [update_of_ne hj, find_mid hxs, if_neg hj]

end

lemma collisionParts_join (htree : p.tree.WellFormed) (hcoll : p.collisions.WellFormed)
    (hsmall : p.small.WellFormed)
    (hord : Ordered (p.small.entries ++ (p.collisions.entries ++ p.tree.entries))) :
    p.join.WellFormed ∧
      p.join.entries = p.small.entries ++ (p.collisions.entries ++ p.tree.entries) := by
  obtain ⟨-, hct, hs⟩ := ordered_append.1 hord
  obtain ⟨-, -, hlt⟩ := ordered_append.1 hct
  rw [CollisionParts.join]
  cases hpick : ipcSplayTreePick p.collisions with
  | none =>
    rw [pick_eq_none.1 hpick, nil_append] at hs ⊢
    obtain ⟨hwf, hentries, -⟩ := join_shape htree hsmall hs
    exact ⟨hwf, hentries⟩
  | some a =>
    obtain ⟨hwf, hentries, -⟩ := join_shape htree hcoll hlt
    rw [← hentries] at hs ⊢
    obtain ⟨hwf', hentries', -⟩ := join_shape hwf hsmall hs
    exact ⟨hwf', hentries'⟩

structure CollisionParts.Cuts (p : CollisionParts ο) (t : IpcSplayTree (IpcEntry ο)) (index : ℕ) :
    Prop where
  tree : p.tree.WellFormed
  collisions : p.collisions.WellFormed
  small : p.small.WellFormed
  entries : t.entries = p.small.entries ++ (p.collisions.entries ++ p.tree.entries)
  above : ∀ a ∈ p.tree.entries, machPortIndex a.1 ≠ index
  equal : ∀ a ∈ p.collisions.entries, machPortIndex a.1 = index
  below : ∀ a ∈ p.small.entries, machPortIndex a.1 ≠ index

lemma splitCollisions_cuts (h : t.WellFormed) (index : ℕ) (hindex : index + 1 < 2 ^ 24) :
    (splitCollisions t index).Cuts t index := by
  obtain ⟨htree, hlow, hcat, hbelow, habove⟩ := split_shape h (machPortMake (index + 1) 0)
  obtain ⟨hcoll, hsmall, hcat', hbelow', habove'⟩ := split_shape hlow (machPortMake index 0)
  have hindex' : index < 2 ^ 24 := by omega
  refine ⟨htree, hcoll, hsmall, ?_, fun a ha => ?_, fun a ha => ?_, fun a ha => ?_⟩
  · rw [hcat, hcat', append_assoc]
    rfl
  · have hle := (machPortMake_le_iff hindex).1 (habove a ha)
    omega
  · have hge := (machPortMake_le_iff hindex').1 (habove' a ha)
    have hlt := (lt_machPortMake_iff hindex).1 (hbelow a (by
      rw [hcat']
      exact mem_append_right _ ha))
    omega
  · have hlt := (lt_machPortMake_iff hindex').1 (hbelow' a ha)
    omega

lemma CollisionParts.Cuts.drop {index : ℕ} (hp : p.Cuts t index) (h : t.WellFormed)
    {a : MachPort × IpcEntry ο} (ha : a ∈ p.collisions.entries)
    (ht' : { p with collisions := ipcSplayTreeDelete p.collisions a.1 }.join = t') :
    t'.WellFormed ∧ find t'.entries = update (find t.entries) a.1 none ∧
      t'.entries.length = t.entries.length - 1 ∧
      ((ipcSplayTreePick (ipcSplayTreeDelete p.collisions a.1)).isSome = true ↔
        ∃ j, machPortIndex j = index ∧ find t'.entries j ≠ none) := by
  have hpresent : find p.collisions.entries a.1 ≠ none := find_ne_none_iff.2 ⟨a, ha, rfl⟩
  obtain ⟨xs, d, ys, hcat, -, -, root, hdelete, hroot⟩ := delete_shape hp.collisions hpresent
  have hdel : (ipcSplayTreeDelete p.collisions a.1).entries = xs ++ ys := by
    rw [hdelete, ofAssembled_entries, hroot]
  have hentries : t.entries = (p.small.entries ++ xs) ++ (a.1, d) :: (ys ++ p.tree.entries) := by
    rw [hp.entries, hcat]
    simp
  have hord : Ordered ((p.small.entries ++ xs) ++ (a.1, d) :: (ys ++ p.tree.entries)) :=
    hentries ▸ h.ordered
  obtain ⟨hwf, hjoin⟩ := collisionParts_join
    (p := { p with collisions := ipcSplayTreeDelete p.collisions a.1 }) hp.tree
    (delete_spec hp.collisions hpresent).1 hp.small (by simpa [hdel] using hord.erase)
  rw [ht'] at hwf hjoin
  have hjoin' : t'.entries = (p.small.entries ++ xs) ++ (ys ++ p.tree.entries) := by
    rw [hjoin, hdel]
    simp
  refine ⟨hwf, ?_, ?_, ?_⟩
  · rw [hjoin', hentries]
    exact find_erase hord
  · rw [hjoin', hentries]
    simp only [length_append, length_cons]
    omega
  rw [← ne_none_iff_isSome, ne_eq, pick_eq_none, hdel]
  constructor
  · intro hne
    obtain ⟨b, hb⟩ := exists_mem_of_ne_nil _ hne
    refine ⟨b.1, hp.equal b ?_, find_ne_none_iff.2 ⟨b, ?_, rfl⟩⟩
    · rw [hcat]
      exact (mem_append.1 hb).elim (by simp +contextual) (by simp +contextual)
    · rw [hjoin']
      exact (mem_append.1 hb).elim (by simp +contextual) (by simp +contextual)
  rintro ⟨j, hj, hfind⟩ hnil
  obtain ⟨b, hb, rfl⟩ := find_ne_none_iff.1 hfind
  rw [hjoin, hdel, hnil, nil_append] at hb
  exact (mem_append.1 hb).elim (fun hb => hp.below b hb hj) fun hb => hp.above b hb hj

lemma IpcSpace.Wf.deallocCollision (h : Wf its s) (he : s.isTable[machPortIndex name]? = some e)
    (hgen : e.ieBits.gen = machPortGen name) (htype : e.ieBits.type ≠ machPortTypeNone)
    (hcollision : e.ieBits.collision = true) :
    Wf its (deallocCollision s (machPortIndex name)) ∧
      (deallocCollision s (machPortIndex name)).bindings = update s.bindings name none := by
  have hlt := h.index_lt he
  have hslot := slotsOf_of_getElem? he
  have hcuts := splitCollisions_cuts h.tree.wellFormed (machPortIndex name) (by omega)
  obtain ⟨k, hk, hover⟩ := (h.routed.overflowed hslot).1 hcollision
  rw [h.tree.overOf_ne_none] at hover
  set p := splitCollisions s.isTree (machPortIndex name) with hp
  cases hpick : ipcSplayTreePick p.collisions with
  | none =>
    obtain ⟨b, hb, rfl⟩ := find_ne_none_iff.1 hover
    rw [hcuts.entries, pick_eq_none.1 hpick, nil_append] at hb
    exact (mem_append.1 hb).elim (fun hb => absurd hk (hcuts.below b hb))
      fun hb => absurd hk (hcuts.above b hb)
  | some a =>
    obtain ⟨tname, tentry⟩ := a
    have hmem := pick_mem hpick
    obtain ⟨hwf, hfind, hlength, hflag⟩ := hcuts.drop h.tree.wellFormed hmem rfl
    have hfound : find s.isTree.entries tname = some tentry :=
      (find_eq_some_iff h.tree.wellFormed.ordered).2 (by
        rw [hcuts.entries]
        simp [hmem])
    have hloose := h.tree.loose hfound
    obtain ⟨r, hr⟩ := ne_none_iff_exists'.1 (mt IpcEntry.right?_eq_none.1 hloose.typed)
    have htree := h.tree.without hwf hfind hlength
    have hover' := overOf_update hfind
    have hflag' := hflag
    simp only [← htree.overOf_ne_none, hover'] at hflag'
    have hright : overOf s.isTree.entries tname = some r := by
      rw [overOf, hfound, bind_some, hr]
    have htiers := promote machPort_ext h.routed _ hslot (mt IpcEntry.right?_eq_none.1 htype) hgen
      (hcuts.equal _ hmem) hright hflag'
    simp only [Ipc.deallocCollision, ← hp, hpick]
    refine h.change htiers ?_ hover' ?_ htree ?_ (by simp) ⟨rfl, rfl, rfl⟩
    · rw [slotsOf_set he]
      congr 2
      cases (ipcSplayTreePick (ipcSplayTreeDelete p.collisions tname)).isSome
      · simp [hloose.slot_atName, hr]
      · simp [slot_setCollision, hloose.slot_atName, hr]
    · refine h.table.set he (fun hi => absurd hi (h.ne_zero he htype)) fun _ => ⟨htype, ?_⟩
      cases (ipcSplayTreePick (ipcSplayTreeDelete p.collisions tname)).isSome
      all_goals exact hloose.typed
    rw [h.small, smallIndices_off fun k hk => by rw [hfind, update_of_ne hk]]
    rw [hcuts.equal _ hmem]
    have hsize : machPortIndex name < s.isTableSize := (List.getElem?_eq_some_iff.1 he).1
    omega

lemma IpcSpace.Wf.dealloc (h : Wf its s) (hf : s.Found name e ptr) (hobject : e.ieObject = none) :
    Wf its (ipcEntryDealloc its s name ptr) ∧
      (ipcEntryDealloc its s name ptr).bindings = update s.bindings name none := by
  cases ptr with
  | table i =>
    obtain ⟨rfl, he, hgen, htype⟩ := hf
    cases hcollision : e.ieBits.collision with
    | false =>
      simpa [ipcEntryDealloc, he, hcollision] using h.deallocSlot he hgen htype hobject hcollision
    | true =>
      simpa [ipcEntryDealloc, he, hcollision] using h.deallocCollision he hgen htype hcollision
  | tree k =>
    obtain ⟨rfl, hfind⟩ := hf
    exact h.deallocTree (by simp [hfind])

end Rhapsody.Ipc
