import Rhapsody.Ipc.EntryOps

/-! Allocating an entry out of the free list or in the tree. An allocated entry has no type
until its caller gives it a right, so the facts are about the two steps together. -/

namespace Rhapsody.Ipc
open Rhapsody.Lib TwoTier IpcSplayTree IpcSpace List Function

variable {ο : Type*} {its : IpcTableSizes} {s s' : IpcSpace ο} {name : MachPort} {e : IpcEntry ο}

lemma IpcSpace.Wf.ripOut (h : Wf its s) (hi : machPortIndex name ≠ 0)
    (he : s.isTable[machPortIndex name]? = some e) (htype : e.ieBits.type = machPortTypeNone)
    (r : IpcRight ο) (hs' : s' =
      { s with isTable := ripOut s.isTable (machPortIndex name) e (machPortGen name) }) :
    Wf its (s'.install (.table (machPortIndex name)) r) ∧
      (s'.install (.table (machPortIndex name)) r).bindings = update s.bindings name (some r) := by
  have hlt := (List.getElem?_eq_some_iff.1 he).1
  set e1 : IpcEntry ο := { e with ieBits := { gen := machPortGen name }, index := 0 } with he1
  obtain ⟨p, d, hpred, hd, hdtype, hpi, htable⟩ := h.table.take (e1.setRight r) hi he htype r.typed
  have hinstall : s'.install (.table (machPortIndex name)) r =
      { s with
        isTable := (setIeNext s.isTable p e.index).set (machPortIndex name) (e1.setRight r) } := by
    have hget : s'.isTable[machPortIndex name]? = some e1 := by
      rw [hs', Ipc.ripOut, getElem?_set_self (by simpa [setIeNext] using hlt)]
    simp only [IpcSpace.install, entry, hget, setEntry]
    simp only [hs', Ipc.ripOut, hpred, ← he1, set_set]
  have hfree := h.table.free hi he htype
  have hslots : slotsOf ((setIeNext s.isTable p e.index).set (machPortIndex name) (e1.setRight r)) =
      update (slotsOf s.isTable) (machPortIndex name) (some ⟨machPortGen name, some r, false⟩) := by
    have he' : (setIeNext s.isTable p e.index)[machPortIndex name]? = some e := by
      rw [setIeNext_eq_set hd, getElem?_set_ne hpi, he]
    rw [slotsOf_set he', slotsOf_setIeNext hd hdtype, IpcEntry.slot_setRight]
    rfl
  rw [hinstall]
  refine h.change (place machPort_ext h.routed (slotsOf_of_getElem? he) ?_ ?_) hslots rfl htable
    h.tree h.small (by simp [setIeNext]) ⟨rfl, rfl, rfl⟩
  · exact IpcEntry.right?_eq_none.2 htype
  · show e.ieBits.collision = false
    rw [hfree.bits]

lemma entryGet_cases (h : Wf its s) (hget : ipcEntryGet s = some (name, s')) :
    ∃ e, machPortIndex name ≠ 0 ∧ s.isTable[machPortIndex name]? = some e ∧
      e.ieBits.type = machPortTypeNone ∧
      s' = { s with isTable := ripOut s.isTable (machPortIndex name) e (machPortGen name) } := by
  rw [ipcEntryGet] at hget
  split_ifs at hget with hzero
  obtain ⟨e, he, hpair⟩ := Option.map_eq_some_iff.1 hget
  obtain ⟨rfl, rfl⟩ := Prod.mk.inj hpair
  obtain ⟨xs, hthreads, hmem⟩ := h.table.threads
  obtain ⟨ys, rfl⟩ := hthreads.eq_cons hzero
  obtain ⟨-, d, hd, htype⟩ := (hmem (ieNext s.isTable 0)).1 (by simp)
  obtain rfl : d = e := Option.some.inj (hd.symm.trans he)
  have hlt := h.index_lt he
  have hfree := h.table.free hzero he htype
  have hlt' : ieNext s.isTable 0 < 2 ^ 24 := by omega
  rw [machPortIndex_make hlt', machPortGen_make hlt']
  refine ⟨d, hzero, he, htype, ?_⟩
  have hpred : predecessor (ieNext s.isTable) (ieNext s.isTable 0) s.isTable.length 0 = 0 := by
    obtain ⟨n, hn⟩ : ∃ n, s.isTable.length = n + 1 :=
      ⟨s.isTable.length - 1, by have := (List.getElem?_eq_some_iff.1 he).1; omega⟩
    rw [hn, predecessor, if_pos rfl]
  have hbits : { d.ieBits with gen := d.ieBits.gen + 1 } =
      ({ gen := d.ieBits.gen + 1 } : IpcEntryBits) := by
    rw [hfree.bits]
  rw [ripOut, hpred, hbits]

lemma allocInTable_cases (halloc : allocInTable s name = some s') :
    (s' = s ∧ ∃ e, s.Found name e (.table (machPortIndex name))) ∨
      ∃ e, machPortIndex name ≠ 0 ∧ s.isTable[machPortIndex name]? = some e ∧
        e.ieBits.type = machPortTypeNone ∧
        s' = { s with isTable := ripOut s.isTable (machPortIndex name) e (machPortGen name) } := by
  rw [allocInTable] at halloc
  split_ifs at halloc with hindex
  cases he : s.isTable[machPortIndex name]? with
  | none => simp [he] at halloc
  | some e =>
    simp only [he] at halloc
    split_ifs at halloc with htype hgen
    · exact .inl ⟨(Option.some.inj halloc).symm, e, rfl, he, hgen, htype⟩
    · exact .inr ⟨e, by omega, rfl, not_not.1 htype, (Option.some.inj halloc).symm⟩

lemma gen_ne_of_allocInTable (h : Wf its s) (halloc : allocInTable s name = none)
    (he : s.isTable[machPortIndex name]? = some e) :
    (e.slot.held ≠ none → e.slot.tag ≠ machPortGen name) ∧
      (machPortIndex name ≠ 0 → e.ieBits.type ≠ machPortTypeNone) := by
  by_cases hindex : machPortIndex name = 0
  · have hfree := IpcEntry.right?_eq_none.2 (h.type_zero (hindex ▸ he)).1
    exact ⟨fun hheld => absurd hfree hheld, fun hne => absurd hindex hne⟩
  simp only [allocInTable, pos_of_ne_zero hindex, if_true, he] at halloc
  split_ifs at halloc with htype hgen
  exact ⟨fun _ => hgen, fun _ => htype⟩

lemma IpcSpace.Wf.insertTreeEntry (h : Wf its s) (hvalid : MachPortValid name)
    (halloc : allocInTable s name = none)
    (hfind : find s.isTree.entries name = none) (r : IpcRight ο) :
    Wf its ((insertTreeEntry its s name).install (.tree name) r) ∧
      ((insertTreeEntry its s name).install (.tree name) r).bindings =
        update s.bindings name (some r) := by
  -- whatever splaying has gone on before, the new entry is inserted and then given its right
  have hnew : ∀ t : IpcSplayTree (IpcEntry ο), t.entries = s.isTree.entries → t.WellFormed →
      find (ipcSplayTreeInsert t name .zero).entries name = some .zero ∧
      TreeOk ((ipcSplayTreeInsert t name .zero).setEntry name (IpcEntry.zero.setRight r))
        (s.isTreeTotal + 1) ∧
      find ((ipcSplayTreeInsert t name .zero).setEntry name (IpcEntry.zero.setRight r)).entries =
        update (find s.isTree.entries) name (some (IpcEntry.zero.setRight r)) := by
    intro t hentries hwf
    have habsent : find t.entries name = none := hentries ▸ hfind
    obtain ⟨htree, hupdate⟩ := (h.tree.splayed hentries hwf).install habsent hvalid .zero
      (e := IpcEntry.zero.setRight r) ⟨r.typed, rfl, rfl⟩
    refine ⟨?_, htree, hentries ▸ hupdate⟩
    rw [(insert_spec hwf habsent .zero).2, update_self]
  obtain ⟨hcollision, t', hres, hentries, hwf⟩ :=
    treeCollision_spec (s := { s with isTreeTotal := s.isTreeTotal + 1 }) h.tree.wellFormed hvalid
  obtain ⟨hget, htree, hupdate⟩ := hnew s.isTree rfl h.tree.wellFormed
  obtain ⟨hget', htree', hupdate'⟩ := hnew t' hentries hwf
  have hothers : ∀ {ys}, find ys = update (find s.isTree.entries) name
      (some (IpcEntry.zero.setRight r)) → ∀ k ≠ name, find ys k = find s.isTree.entries k :=
    fun hys k hk => by rw [hys, update_of_ne hk]
  have hright : (IpcEntry.zero.setRight r).right? = some r := IpcEntry.right?_setRight _ _
  have hover := (overOf_update hupdate).trans (by rw [Option.bind_some, hright])
  have hover' := (overOf_update hupdate').trans (by rw [Option.bind_some, hright])
  have hsmall := h.small
  simp only [Ipc.insertTreeEntry, hres]
  by_cases hsize : machPortIndex name < s.isTableSize
  · obtain ⟨e, he⟩ : ∃ e, s.isTable[machPortIndex name]? = some e := ⟨_, getElem?_eq_getElem hsize⟩
    obtain ⟨hgen, hused⟩ := gen_ne_of_allocInTable h halloc he
    simp only [if_pos hsize, IpcSpace.install, entry, hget, setEntry]
    exact h.change (spill h.routed (slotsOf_of_getElem? he) hgen)
      (slotsOf_modify_setCollision he true) hover (h.table.setCollision he hused true) htree
      (by rwa [smallIndices_off (hothers hupdate) fun hin => hin.1.not_gt hsize]) (by simp)
      ⟨rfl, rfl, rfl⟩
  have hbeyond : slotsOf s.isTable (machPortIndex name) = none := by
    simpa [slotsOf, isTableSize] using hsize
  have htiers := update_beyond h.routed hbeyond (some r)
  simp only [if_neg hsize]
  by_cases hin : machPortIndex name < its.itsSize s.isTableNext
  · have hinsert := smallIndices_insert (hothers hupdate') (by simp [hupdate'])
      ⟨not_lt.1 hsize, hin⟩
    have hmem := mem_smallIndices.trans
      ((and_iff_right ⟨not_lt.1 hsize, hin⟩).trans hcollision.symm)
    rw [if_pos hin]
    split_ifs with hflag
    · simp only [IpcSpace.install, entry, hget', setEntry]
      rw [Finset.insert_eq_of_mem (hmem.2 hflag)] at hinsert
      exact h.change htiers rfl hover' h.table htree' (by rw [hinsert, hsmall]) rfl ⟨rfl, rfl, rfl⟩
    simp only [IpcSpace.install, entry, hget', setEntry]
    refine h.change htiers rfl hover' h.table htree' ?_ rfl ⟨rfl, rfl, rfl⟩
    rw [hinsert, Finset.card_insert_of_notMem (mt hmem.1 hflag), hsmall]
  · rw [if_neg hin]
    simp only [IpcSpace.install, entry, hget, setEntry]
    exact h.change htiers rfl hover h.table htree
      (by rwa [smallIndices_off (hothers hupdate) fun hin' => hin hin'.2]) rfl ⟨rfl, rfl, rfl⟩

end Rhapsody.Ipc
