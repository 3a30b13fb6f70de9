import Rhapsody.Ipc.EntryAlloc
import Rhapsody.Ipc.EntryGrow

/-! A space over whole runs. -/

namespace Rhapsody.Ipc
open Rhapsody.Lib TwoTier IpcSplayTree IpcSpace Option

variable {ο : Type*} {its : IpcTableSizes} {s s' : IpcSpace ο} {name : MachPort}

/-! ## A new space -/

lemma linked_range {next : ℕ → ℕ} {n : ℕ}
    (hnext : ∀ j < n, next j = if j + 1 = n then 0 else j + 1) (k i : ℕ) (hi : 0 < i)
    (hn : i + k = n) : Linked next (if i = n then 0 else i) (List.range' i k) := by
  induction k generalizing i with
  | zero => simp [Linked, ← hn]
  | succ k ih =>
    have hne : i ≠ n := by omega
    rw [List.range'_succ, if_neg hne]
    refine ⟨rfl, hi.ne', ?_⟩
    rw [hnext i (by omega)]
    exact ih (i + 1) (by omega) (by omega)

lemma create_spec {initial : ℕ} (hinitial : initial ≤ its.last)
    (hs : s = ipcSpaceCreate its initial) : Wf its s ∧ s.bindings = fun _ => none := by
  have hsize := its.four_le (i := initial) (by omega)
  have htable : s.isTable = (List.range (its.itsSize initial)).map fun i =>
      { ieBits := ieBitsGenMask, index := if i + 1 = its.itsSize initial then 0 else i + 1 } := by
    rw [hs, ipcSpaceCreate]
  have hempty : s.isTree.entries = [] := by rw [hs, ipcSpaceCreate, init_entries]
  have hget : ∀ i < its.itsSize initial, s.isTable[i]? =
      some { ieBits := ieBitsGenMask, index := if i + 1 = its.itsSize initial then 0 else i + 1 } :=
    fun i hi => by simp [htable, hi]
  have hmem : ∀ {i e}, s.isTable[i]? = some e →
      i < its.itsSize initial ∧ e.ieBits = ieBitsGenMask ∧ e.ieObject = none := fun {i e} he => by
    have hi : i < its.itsSize initial := by
      simpa [htable] using (List.getElem?_eq_some_iff.1 he).1
    rw [hget i hi, some.injEq] at he
    exact ⟨hi, he ▸ rfl, he ▸ rfl⟩
  have hslots : ∀ i t, slotsOf s.isTable i = some t → t = ⟨0xff, none, false⟩ := fun i t ht => by
    obtain ⟨e, he, rfl⟩ := map_eq_some_iff.1 ht
    obtain ⟨-, hbits, -⟩ := hmem he
    simp [IpcEntry.slot, IpcEntry.right?, hbits, ieBitsGenMask]
  have hnext : ∀ j < its.itsSize initial,
      ieNext s.isTable j = if j + 1 = its.itsSize initial then 0 else j + 1 := fun j hj => by
    simp [ieNext, hget j hj]
  refine ⟨⟨⟨⟨_, hget 0 (by omega), rfl, rfl⟩, fun hi he htype => ?_,
    List.range' 1 (its.itsSize initial - 1), ⟨?_, List.nodup_range'⟩, fun i => ?_⟩,
    ⟨hs ▸ init_wellFormed, ?_, fun hk => ?_, fun hk => ?_⟩, ?_, ⟨fun ht => ?_, fun hk => ?_⟩,
    ?_, ?_, ?_, hs ▸ rfl, hs ▸ rfl⟩, ?_⟩
  · obtain ⟨-, hbits, hobject⟩ := hmem he
    exact ⟨by rw [hbits]; rfl, hobject⟩
  · have hlinked := linked_range hnext (its.itsSize initial - 1) 1 (by omega) (by omega)
    rw [hnext 0 (by omega)]
    rwa [if_neg (by omega)] at hlinked ⊢
  · rw [List.mem_range'_1]
    constructor
    · intro hi
      exact ⟨by omega, _, hget i (by omega), rfl⟩
    rintro ⟨hi, e, he, -⟩
    have hlt := (hmem he).1
    omega
  · rw [hempty, hs]
    rfl
  · simp [hempty] at hk
  · simp [hempty] at hk
  · simp [hs, ipcSpaceCreate, init_entries, smallIndices]
  · rw [hslots _ _ ht]
    simp [overOf, hempty]
  · simp [overOf, hempty] at hk
  · simp [hs, ipcSpaceCreate]
  · simp [hs, ipcSpaceCreate]
  · simpa [hs, ipcSpaceCreate] using hinitial
  · funext k
    rw [bindings, content]
    cases ht : slotsOf s.isTable (machPortIndex k) with
    | none => simp [overOf, hempty]
    | some t => simp [hslots _ _ ht, inSlot, overOf, hempty]

/-! ## Allocating a given name -/

def AllocOk (its : IpcTableSizes) (s : IpcSpace ο) (name : MachPort) :
    Except KernReturn IpcEntryPtr × IpcSpace ο → Prop
  | (.error _, s') => Wf its s' ∧ s'.bindings = s.bindings
  | (.ok ptr, s') =>
    (Wf its s' ∧ s'.bindings = s.bindings ∧ ∃ e, s'.Found name e ptr) ∨
      (∃ e, s'.entry ptr = some e ∧ e.ieBits.type = machPortTypeNone) ∧
        ∀ r, Wf its (s'.install ptr r) ∧
          (s'.install ptr r).bindings = Function.update s.bindings name (some r)

variable {res : Except KernReturn IpcEntryPtr × IpcSpace ο} {e : IpcEntry ο} {ptr : IpcEntryPtr}
  {ok : MachPort → Prop}

lemma AllocOk.of_eq (h : AllocOk its s' name res) (hbind : s'.bindings = s.bindings) :
    AllocOk its s name res := by
  obtain ⟨_ | _, _⟩ := res
  · exact ⟨h.1, h.2.trans hbind⟩
  · rw [AllocOk, ← hbind]
    exact h

lemma treeCheck_spec (h : Wf its s) (name : MachPort)
    {found : Option IpcEntryPtr × IpcSpace ο}
    (hfound : (if 0 < s.isTreeTotal then treeLookup s name else (none, s)) = found) :
    Wf its found.2 ∧ found.2.bindings = s.bindings ∧
      found.2.isTable = s.isTable ∧ found.2.isTableNext = s.isTableNext ∧
      found.2.isTreeSmall = s.isTreeSmall ∧
      (∀ ptr, found.1 = some ptr → ∃ e, found.2.Found name e ptr) ∧
      (found.1 = none → find found.2.isTree.entries name = none) := by
  subst hfound
  split_ifs with htotal
  · obtain ⟨hwf, hbind, hsome, hnone⟩ := treeLookup_spec h name
    refine ⟨hwf, hbind, rfl, rfl, rfl, hsome, fun hn => ?_⟩
    rw [treeLookup, (lookup_spec h.tree.wellFormed name).2.1]
    exact hnone hn
  have hempty : s.isTree.entries = [] :=
    List.length_eq_zero_iff.1 (h.tree.total_eq.symm.trans (by omega))
  exact ⟨h, rfl, rfl, rfl, rfl, by simp, fun _ => by simp [hempty]⟩

lemma allocInTable_congr (htable : s'.isTable = s.isTable) (halloc : allocInTable s name = none) :
    allocInTable s' name = none := by
  simp only [allocInTable, htable] at halloc ⊢
  split_ifs at halloc ⊢
  · cases he : s.isTable[machPortIndex name]? with
    | none => rfl
    | some e =>
      simp only [he] at halloc ⊢
      split_ifs at halloc ⊢
      rfl
  · rfl

lemma insertTreeEntry_entry (h : Wf its s) (hvalid : MachPortValid name)
    (hfind : find s.isTree.entries name = none) :
    ∃ e, (insertTreeEntry its s name).entry (.tree name) = some e ∧
      e.ieBits.type = machPortTypeNone := by
  refine ⟨.zero, ?_, rfl⟩
  obtain ⟨-, t', hres, hentries, hwf⟩ :=
    treeCollision_spec (s := { s with isTreeTotal := s.isTreeTotal + 1 }) h.tree.wellFormed hvalid
  have hself := (insert_spec h.tree.wellFormed hfind .zero).2
  have hself' := (insert_spec hwf (hentries ▸ hfind) .zero).2
  simp only [entry, insertTreeEntry, hres]
  split_ifs
  · simp [hself]
  · simp [hself']
  · simp [hself']
  · simp [hself]

lemma allocNameLoop_ok (h : Wf its s) (hvalid : MachPortValid name) (memory : IpcMemory) (fuel : ℕ)
    (treeEntry : Bool) (hres : allocNameLoop its memory name fuel treeEntry s = some res) :
    AllocOk its s name res := by
  induction fuel generalizing s treeEntry with
  | zero => simp [allocNameLoop] at hres
  | succ fuel ih =>
    simp only [allocNameLoop, h.active] at hres
    cases halloc : allocInTable s name with
    | some s' =>
      simp only [halloc] at hres
      obtain rfl : (.ok (.table (machPortIndex name)), s') = res := by simpa using hres
      obtain ⟨rfl, e, hf⟩ | ⟨e, hi, he, htype, hs'⟩ := allocInTable_cases halloc
      · exact .inl ⟨h, rfl, e, hf⟩
      · refine .inr ⟨?_, fun r => h.ripOut hi he htype r hs'⟩
        simp [hs', entry, ripOut, setIeNext, (List.getElem?_eq_some_iff.1 he).1, machPortTypeNone]
    | none =>
      simp only [halloc, Bool.true_eq_false, if_false] at hres
      generalize hfound : (if 0 < s.isTreeTotal then treeLookup s name else (none, s)) = found
        at hres
      obtain ⟨hwf, hbind, htable, -, -, hsome, hnone⟩ := treeCheck_spec h name hfound
      obtain ⟨_ | ptr, s1⟩ := found
      · simp only at hres
        split_ifs at hres with hgrow htree hmemory
        · obtain ⟨hwf', hbind'⟩ := growLoop_spec hwf memory.table none (its.last + 2)
          rw [ipcEntryGrowTable] at hres
          generalize growLoop its memory.table none (its.last + 2) s1 = grown at hres hwf' hbind'
          obtain ⟨kr, s2⟩ := grown
          cases kr with
          | success => exact (ih hwf' _ hres).of_eq (hbind'.trans hbind)
          | noSpace | invalidTask | resourceShortage =>
            obtain rfl := some.inj hres
            exact ⟨hwf', hbind'.trans hbind⟩
        · obtain rfl := some.inj hres
          refine .inr ⟨insertTreeEntry_entry hwf hvalid (hnone rfl), fun r => ?_⟩
          rw [← hbind]
          exact hwf.insertTreeEntry hvalid (allocInTable_congr htable halloc) (hnone rfl) r
        · exact (ih hwf _ hres).of_eq hbind
        · obtain rfl := some.inj hres
          exact ⟨hwf, hbind⟩
      · obtain rfl : (.ok ptr, s1) = res := by simpa using hres
        exact .inl ⟨hwf, hbind, hsome ptr rfl⟩

/-! ## The loop of `ipc_entry_alloc_name` ends -/

lemma growLoop_length (h : Wf its s) (memory : ℕ → Bool) (target : Option ℕ) (fuel : ℕ) :
    s.isTable.length ≤ (growLoop its memory target fuel s).2.isTable.length := by
  induction fuel generalizing s with
  | zero => exact le_rfl
  | succ fuel ih =>
    simp only [growLoop, h.idle, Bool.false_eq_true, if_false]
    cases hchoice : growChoice its s target with
    | error kr => exact le_rfl
    | ok new =>
      obtain ⟨hnew, hlast⟩ := growChoice_spec h hchoice
      have hwf := (h.growTo hnew hlast).1
      have hgrow : s.isTable.length ≤ (growTo its s new).isTable.length := by
        rw [hwf.size, growTo_isTableNext, h.size]
        exact its.itsSize_mono (by omega) hlast
      simp only
      split_ifs
      · exact hgrow.trans (ih hwf)
      · exact hgrow
      · exact le_rfl

lemma growTable_length (h : Wf its s) {memory : ℕ → Bool}
    (hlt : s.isTable.length < its.itsSize s.isTableNext)
    (hkr : (ipcEntryGrowTable its memory s none).1 = .success) :
    its.itsSize s.isTableNext ≤ (ipcEntryGrowTable its memory s none).2.isTable.length := by
  have hchoice : growChoice its s none = .ok s.isTableNext := by
    rw [growChoice, ← h.size]
    exact if_neg hlt.ne
  obtain ⟨hnew, hlast⟩ := growChoice_spec h hchoice
  have hwf := (h.growTo hnew hlast).1
  have hsize : (growTo its s s.isTableNext).isTable.length = its.itsSize s.isTableNext := by
    rw [hwf.size, growTo_isTableNext]
    rfl
  rw [ipcEntryGrowTable, growLoop] at hkr ⊢
  simp only [h.idle, hchoice, Bool.false_eq_true, if_false] at hkr ⊢
  split_ifs at hkr ⊢
  · rw [← hsize]
    exact growLoop_length hwf ..
  · exact hsize.ge

lemma growInstead_congr {index : ℕ} (htable : s'.isTable = s.isTable)
    (hnext : s'.isTableNext = s.isTableNext) (hsmall : s'.isTreeSmall = s.isTreeSmall) :
    growInstead its s' index ↔ growInstead its s index := by
  simp only [growInstead, isTableSize, htable, hnext, hsmall]

lemma allocNameLoop_returns (memory : IpcMemory) {fuel : ℕ} {treeEntry : Bool} (h : Wf its s)
    (hfuel : (if growInstead its s (machPortIndex name) then 1 else 0) +
      (if treeEntry then 0 else 1) < fuel) :
    (allocNameLoop its memory name fuel treeEntry s).isSome := by
  induction fuel generalizing s treeEntry with
  | zero => cases hfuel
  | succ fuel ih =>
    rw [allocNameLoop]
    simp only [h.active, Bool.true_eq_false, if_false]
    cases allocInTable s name with
    | some s' => rfl
    | none =>
      generalize hfound : (if 0 < s.isTreeTotal then treeLookup s name else (none, s)) = found
      obtain ⟨hwf, -, htable, hnext, hsmall, -⟩ := treeCheck_spec h name hfound
      obtain ⟨_ | ptr, s1⟩ := found
      · simp only [← growInstead_congr htable hnext hsmall] at hfuel
        by_cases hgrow : growInstead its s1 (machPortIndex name)
        · simp only [hgrow, if_true] at hfuel ⊢
          cases hkr : (ipcEntryGrowTable its memory.table s1 none).1 with
          | success =>
            have hlength := growTable_length hwf (hgrow.1.trans_lt hgrow.2.1) hkr
            refine ih (growLoop_spec hwf ..).1 ?_
            rw [if_neg fun hagain => lt_irrefl _ (hgrow.2.1.trans_le (hlength.trans hagain.1))]
            omega
          | noSpace | invalidTask | resourceShortage => rfl
        · cases treeEntry with
          | true => simp [hgrow]
          | false =>
            simp only [hgrow, Bool.false_eq_true, if_false] at hfuel ⊢
            split_ifs
            · exact @ih s1 true hwf (by simpa [hgrow] using hfuel)
            · rfl
      · rfl

lemma allocName_returns (h : Wf its s) (memory : IpcMemory) (name : MachPort) :
    (ipcEntryAllocName its memory s name).isSome :=
  allocNameLoop_returns memory h (by split_ifs <;> decide)

/-! ## Runs -/

namespace IpcSpace

def lookupRight (s : IpcSpace ο) (name : MachPort) : Option (IpcRight ο) :=
  let res := ipcEntryLookup s name
  (res.1.bind res.2.entry).bind IpcEntry.right?

/-- Callers clear `ie_object` and `ie_request` before they deallocate an entry. -/
def clear (s : IpcSpace ο) (ptr : IpcEntryPtr) : IpcSpace ο :=
  match s.entry ptr with
  | none => s
  | some e => s.setEntry { e with ieObject := none, index := 0 } ptr

end IpcSpace

/-- Runs of the operations of a space. `ok` says which names are given to `ipc_entry_alloc_name`;
the map has the right each name was given last, up to its deallocation. -/
inductive SpaceRun (its : IpcTableSizes) (ok : MachPort → Prop) :
    IpcSpace ο → (MachPort → Option (IpcRight ο)) → Prop
  | create {initial : ℕ} : initial ≤ its.last →
      SpaceRun its ok (ipcSpaceCreate its initial) fun _ => none
  | lookup {s m} (name : MachPort) : SpaceRun its ok s m →
      SpaceRun its ok (ipcEntryLookup s name).2 m
  | get {s m name s'} (r : IpcRight ο) : SpaceRun its ok s m → ipcEntryGet s = some (name, s') →
      SpaceRun its ok (s'.install (.table (machPortIndex name)) r) (Function.update m name (some r))
  | allocNew {s m memory name ptr s' e} (r : IpcRight ο) : SpaceRun its ok s m → ok name →
      ipcEntryAllocName its memory s name = some (.ok ptr, s') → s'.entry ptr = some e →
      e.ieBits.type = machPortTypeNone →
      SpaceRun its ok (s'.install ptr r) (Function.update m name (some r))
  | allocFound {s m memory name ptr s' e} : SpaceRun its ok s m → ok name →
      ipcEntryAllocName its memory s name = some (.ok ptr, s') → s'.entry ptr = some e →
      e.ieBits.type ≠ machPortTypeNone → SpaceRun its ok s' m
  | allocFails {s m memory name kr s'} : SpaceRun its ok s m → ok name →
      ipcEntryAllocName its memory s name = some (.error kr, s') → SpaceRun its ok s' m
  | update {s m name ptr s'} (r : IpcRight ο) : SpaceRun its ok s m →
      ipcEntryLookup s name = (some ptr, s') →
      SpaceRun its ok (s'.install ptr r) (Function.update m name (some r))
  | dealloc {s m name ptr s'} : SpaceRun its ok s m → ipcEntryLookup s name = (some ptr, s') →
      SpaceRun its ok (ipcEntryDealloc its (s'.clear ptr) name ptr) (Function.update m name none)
  | grow {s m} (memory : ℕ → Bool) (target : Option ℕ) : SpaceRun its ok s m →
      SpaceRun its ok (ipcEntryGrowTable its memory s target).2 m

lemma IpcSpace.Found.entry_eq (hf : s.Found name e ptr) : s.entry ptr = some e := by
  cases ptr with
  | table i => exact hf.2.1
  | tree k =>
    obtain ⟨rfl, hfind⟩ := hf
    exact hfind

lemma IpcSpace.Found.typed (h : Wf its s) (hf : s.Found name e ptr) :
    e.ieBits.type ≠ machPortTypeNone := by
  cases ptr with
  | table i => exact hf.2.2.2
  | tree k =>
    obtain ⟨rfl, hfind⟩ := hf
    exact (h.tree.loose hfind).typed

lemma clear_eq_install (h : Wf its s) (hf : s.Found name e ptr) :
    ∃ r : IpcRight ο, s.clear ptr = s.install ptr r ∧ r.object = none := by
  refine ⟨⟨e.ieBits.urefs, e.ieBits.type, e.ieBits.marequest, e.ieBits.compat, none, 0,
    hf.typed h⟩, ?_, rfl⟩
  rw [clear, IpcSpace.install, hf.entry_eq]
  rfl

lemma IpcSpace.Wf.lookupRight_eq (h : Wf its s)
    (hname : name = reservedName → s.bindings name = none) :
    s.lookupRight name = s.bindings name := by
  obtain ⟨hwf, hbind, hsome, hnone⟩ := entryLookup_spec h name
  simp only [lookupRight]
  cases hptr : (ipcEntryLookup s name).1 with
  | none =>
    rw [← h.route_eq_bindings fun hres => (or_eq_none_iff.1 (hname hres)).2]
    exact (hnone hptr).symm
  | some ptr =>
    obtain ⟨e, hf⟩ := hsome ptr hptr
    rw [← hbind, hf.bindings_eq hwf, bind_some, hf.entry_eq, bind_some]

lemma SpaceRun.sound (hvalid : ∀ name, ok name → MachPortValid name)
    {m : MachPort → Option (IpcRight ο)} (h : SpaceRun its ok s m) :
    Wf its s ∧ s.bindings = m := by
  have halloc : ∀ {s : IpcSpace ο} {memory name res}, Wf its s → ok name →
      ipcEntryAllocName its memory s name = some res → AllocOk its s name res :=
    fun hwf hok hres => allocNameLoop_ok hwf (hvalid _ hok) _ _ _ hres
  induction h with
  | create hinitial => exact create_spec hinitial rfl
  | lookup name _ ih =>
    obtain ⟨hwf, hbind⟩ := ih
    obtain ⟨hwf', hbind', -⟩ := entryLookup_spec hwf name
    exact ⟨hwf', hbind'.trans hbind⟩
  | get r _ hget ih =>
    obtain ⟨hwf, rfl⟩ := ih
    obtain ⟨e, hi, he, htype, hs'⟩ := entryGet_cases hwf hget
    exact hwf.ripOut hi he htype r hs'
  | allocNew r _ hok hres hentry htype ih =>
    obtain ⟨hwf, rfl⟩ := ih
    obtain ⟨hwf', -, e, hf⟩ | ⟨-, hnew⟩ := halloc hwf hok hres
    · obtain rfl := some.inj (hf.entry_eq.symm.trans hentry)
      exact absurd htype (hf.typed hwf')
    · exact hnew r
  | allocFound _ hok hres hentry htype ih =>
    obtain ⟨hwf, rfl⟩ := ih
    obtain ⟨hwf', hbind, -⟩ | ⟨⟨e, he, htype'⟩, -⟩ := halloc hwf hok hres
    · exact ⟨hwf', hbind⟩
    · obtain rfl := some.inj (he.symm.trans hentry)
      exact absurd htype' htype
  | allocFails _ hok hres ih =>
    obtain ⟨hwf, rfl⟩ := ih
    exact halloc hwf hok hres
  | update r _ hlookup ih =>
    obtain ⟨hwf, rfl⟩ := ih
    obtain ⟨hwf', hbind, hsome, -⟩ := entryLookup_spec hwf _
    rw [hlookup] at hwf' hbind hsome
    obtain ⟨e, hf⟩ := hsome _ rfl
    obtain ⟨hres, hupdate, -⟩ := hwf'.install hf r
    exact ⟨hres, hbind ▸ hupdate⟩
  | dealloc _ hlookup ih =>
    obtain ⟨hwf, rfl⟩ := ih
    obtain ⟨hwf', hbind, hsome, -⟩ := entryLookup_spec hwf _
    rw [hlookup] at hwf' hbind hsome
    obtain ⟨e, hf⟩ := hsome _ rfl
    obtain ⟨r, hclear, hobject⟩ := clear_eq_install hwf' hf
    obtain ⟨hcleared, hupdate, hf'⟩ := hwf'.install hf r
    obtain ⟨hres, hdealloc⟩ := hcleared.dealloc hf' hobject
    rw [hclear]
    refine ⟨hres, ?_⟩
    rw [hdealloc, hupdate, Function.update_idem]
    exact congrArg (Function.update · _ _) hbind
  | grow memory target _ ih =>
    obtain ⟨hwf, rfl⟩ := ih
    exact growLoop_spec hwf memory target _

/-! ## The reserved name -/

lemma reservedName_valid : MachPortValid reservedName := ⟨by decide, by decide⟩

lemma IpcSpace.Wf.lookup_reserved (h : Wf its s) : ipcEntryLookup s reservedName = (none, s) := by
  obtain ⟨e, he, htype, hgen⟩ := h.table.base
  have hindex : machPortIndex reservedName = 0 := rfl
  have hgen' : machPortGen reservedName = 0xff := rfl
  simp [ipcEntryLookup, hindex, he, hgen', hgen, htype]

lemma SpaceRun.reserved_eq_none (hvalid : ∀ name, ok name → MachPortValid name)
    (hreserved : ¬ok reservedName) {m : MachPort → Option (IpcRight ο)} (h : SpaceRun its ok s m) :
    m reservedName = none := by
  have hother : ∀ {s s' : IpcSpace ο} {m name ptr}, SpaceRun its ok s m →
      ipcEntryLookup s name = (some ptr, s') → reservedName ≠ name := by
    rintro s s' m name ptr hrun hlookup rfl
    rw [(hrun.sound hvalid).1.lookup_reserved] at hlookup
    simp at hlookup
  induction h with
  | create => rfl
  | lookup _ _ ih => exact ih
  | get r hrun hget ih =>
    obtain ⟨-, hi, -⟩ := entryGet_cases (hrun.sound hvalid).1 hget
    rwa [Function.update_of_ne]
    rintro rfl
    exact hi rfl
  | allocNew r _ hok _ _ _ ih =>
    rwa [Function.update_of_ne]
    rintro rfl
    exact hreserved hok
  | allocFound _ _ _ _ _ ih => exact ih
  | allocFails _ _ _ ih => exact ih
  | update r hrun hlookup ih => rwa [Function.update_of_ne (hother hrun hlookup)]
  | dealloc hrun hlookup ih => rwa [Function.update_of_ne (hother hrun hlookup)]
  | grow _ _ _ ih => exact ih

lemma reserved_run (its : IpcTableSizes) (hvalid : ∀ name, ok name → MachPortValid name)
    (hok : ok reservedName) (r : IpcRight ο) :
    ∃ s : IpcSpace ο, SpaceRun its ok s (Function.update (fun _ => none) reservedName (some r)) ∧
      s.lookupRight reservedName = none := by
  obtain ⟨s, hs⟩ : ∃ s : IpcSpace ο, s = ipcSpaceCreate its 0 := ⟨_, rfl⟩
  have hwf := (create_spec (Nat.zero_le _) hs).1
  have hsize : 4 ≤ s.isTableSize := hwf.length_ge
  have hindex : machPortIndex reservedName = 0 := rfl
  have halloc : ipcEntryAllocName its ⟨fun _ => true, true⟩ s reservedName =
      some (.ok (.tree reservedName), insertTreeEntry its s reservedName) := by
    have hgrow : ¬growInstead its s 0 := fun hg => by
      have hle := hg.1
      omega
    have htotal : s.isTreeTotal = 0 := by rw [hs, ipcSpaceCreate]
    simp [ipcEntryAllocName, allocNameLoop, allocInTable, hindex, hwf.active, htotal, hgrow]
  obtain ⟨e, he, htype⟩ := insertTreeEntry_entry hwf reservedName_valid (by
    rw [hs]
    rfl)
  have hrun := SpaceRun.allocNew r (hs ▸ SpaceRun.create (Nat.zero_le _)) hok halloc he htype
  refine ⟨_, hrun, ?_⟩
  simp [lookupRight, (hrun.sound hvalid).1.lookup_reserved]

/-- In every run `ipc_entry_lookup` finds under each name the right last given to it and
`ipc_entry_alloc_name` returns, exactly if that is never asked for the name of index 0 with the
generation number of slot 0. -/
theorem spaceRun_finds_iff (its : IpcTableSizes) (ok : MachPort → Prop)
    (hvalid : ∀ name, ok name → MachPortValid name) :
    (∀ (s : IpcSpace ο) (m : MachPort → Option (IpcRight ο)), SpaceRun its ok s m →
      (∀ name, s.lookupRight name = m name) ∧
        ∀ memory name, (ipcEntryAllocName its memory s name).isSome) ↔ ¬ok reservedName := by
  constructor
  · intro h hok
    have r : IpcRight ο := ⟨1, 1, false, false, none, 0, by decide⟩
    obtain ⟨s, hrun, hnone⟩ := reserved_run its hvalid hok r
    have hfound := (h s _ hrun).1 reservedName
    rw [hnone, Function.update_self] at hfound
    simp at hfound
  intro hreserved s m hrun
  obtain ⟨hwf, hbind⟩ := hrun.sound hvalid
  refine ⟨fun name => ?_, allocName_returns hwf⟩
  rw [hwf.lookupRight_eq, hbind]
  rintro rfl
  rw [hbind, hrun.reserved_eq_none hvalid hreserved]

theorem spaceRun_finds_iff_one :
    (∀ name : MachPort, name = 1 → MachPortValid name) ∧ reservedName ≠ 1 ∧
      ∀ (s : IpcSpace Unit) (m : MachPort → Option (IpcRight Unit)),
        SpaceRun ipcTableEntries (· = 1) s m →
        (∀ name, s.lookupRight name = m name) ∧
          ∀ memory name, (ipcEntryAllocName ipcTableEntries memory s name).isSome := by
  have hvalid : ∀ name : MachPort, name = 1 → MachPortValid name := by
    rintro name rfl
    exact ⟨by decide, by decide⟩
  have hne : reservedName ≠ 1 := by decide
  exact ⟨hvalid, hne, (spaceRun_finds_iff ipcTableEntries (· = 1) hvalid).2 hne⟩

/-- The name 0x000000ff is valid, yet a lookup misses it right after it was installed. -/
theorem reservedName_is_lost : reservedName = 0xff ∧ MachPortValid reservedName ∧
      ∃ (s : IpcSpace Unit) (m : MachPort → Option (IpcRight Unit)),
        SpaceRun ipcTableEntries MachPortValid s m ∧ m reservedName ≠ none ∧
          s.lookupRight reservedName = none := by
  refine ⟨by decide, reservedName_valid, ?_⟩
  obtain ⟨s, hrun, hnone⟩ := reserved_run ipcTableEntries (fun _ => id) reservedName_valid
    (⟨1, 1, false, false, some (), 0, by decide⟩ : IpcRight Unit)
  exact ⟨s, _, hrun, by simp, hnone⟩

/-! ## The summaries of the table and the tree -/

/-- What a caller of `ipc_entry_alloc_name` does: give a new entry a right. -/
def IpcSpace.afterAlloc (s : IpcSpace ο) (r : IpcRight ο) :
    Except KernReturn IpcEntryPtr → IpcSpace ο
  | .error _ => s
  | .ok ptr =>
    match s.entry ptr with
    | none => s
    | some e => if e.ieBits.type = machPortTypeNone then s.install ptr r else s

/-- Runs in which any entry may be rewritten or deallocated, looked up or not. -/
inductive EntryRun (its : IpcTableSizes) : IpcSpace ο → Prop
  | create {initial : ℕ} : initial ≤ its.last → EntryRun its (ipcSpaceCreate its initial)
  | lookup {s : IpcSpace ο} (name : MachPort) : EntryRun its s →
      EntryRun its (ipcEntryLookup s name).2
  | get {s s' : IpcSpace ο} {name : MachPort} (r : IpcRight ο) : EntryRun its s →
      ipcEntryGet s = some (name, s') → EntryRun its (s'.install (.table (machPortIndex name)) r)
  | allocName {s s' : IpcSpace ο} {name : MachPort} {memory kr} (r : IpcRight ο) : EntryRun its s →
      MachPortValid name → ipcEntryAllocName its memory s name = some (kr, s') →
      EntryRun its (s'.afterAlloc r kr)
  | update {s : IpcSpace ο} {n d p} (r : IpcRight ο) : EntryRun its s → s.Found n d p →
      EntryRun its (s.install p r)
  | dealloc {s : IpcSpace ο} {n d p} : EntryRun its s → s.Found n d p →
      EntryRun its (ipcEntryDealloc its (s.clear p) n p)
  | grow {s : IpcSpace ο} (memory : ℕ → Bool) (target : Option ℕ) : EntryRun its s →
      EntryRun its (ipcEntryGrowTable its memory s target).2

lemma AllocOk.afterAlloc {r : IpcRight ο} {res : Except KernReturn IpcEntryPtr}
    (h : AllocOk its s name (res, s')) : Wf its (s'.afterAlloc r res) := by
  cases res with
  | error kr => exact h.1
  | ok ptr =>
    obtain ⟨hwf, -, e, hf⟩ | ⟨⟨e, he, htype⟩, hnew⟩ := h
    · simpa only [IpcSpace.afterAlloc, hf.entry_eq, if_neg (hf.typed hwf)] using hwf
    · simpa only [IpcSpace.afterAlloc, he, if_pos htype] using (hnew r).1

lemma EntryRun.wf (h : EntryRun its s) : Wf its s := by
  induction h with
  | create hinitial => exact (create_spec hinitial rfl).1
  | lookup name _ ih => exact (entryLookup_spec ih name).1
  | get r _ hget ih =>
    obtain ⟨e, hi, he, htype, hs'⟩ := entryGet_cases ih hget
    exact (ih.ripOut hi he htype r hs').1
  | allocName r _ hvalid hres ih => exact (allocNameLoop_ok ih hvalid _ _ _ hres).afterAlloc
  | update r _ hf ih => exact (ih.install hf r).1
  | dealloc _ hf ih =>
    obtain ⟨r, hclear, hobject⟩ := clear_eq_install ih hf
    obtain ⟨hcleared, -, hf'⟩ := ih.install hf r
    rw [hclear]
    exact (hcleared.dealloc hf' hobject).1
  | grow memory target _ ih => exact (growLoop_spec ih memory target _).1

/-- In every run the collision bits and the two counts are those of the tree, and the free list runs
through each unused slot once. -/
theorem entryRun_summaries (h : EntryRun its s) : (∀ i e, s.isTable[i]? = some e →
      (e.ieBits.collision = true ↔ ∃ a ∈ s.isTree.entries, machPortIndex a.1 = i)) ∧
    s.isTreeTotal = s.isTree.entries.length ∧
    s.isTreeSmall = (smallIndices s.isTree.entries s.isTableSize (its.itsSize s.isTableNext)).card ∧
    ∃ xs, Threads (ieNext s.isTable) xs ∧
      ∀ i, i ∈ xs ↔ i ≠ 0 ∧ ∃ e, s.isTable[i]? = some e ∧ e.ieBits.type = machPortTypeNone := by
  have hwf := h.wf
  refine ⟨fun i e he => ?_, hwf.tree.total_eq, hwf.small, hwf.table.threads⟩
  rw [show e.ieBits.collision = e.slot.overflowed from rfl,
    hwf.routed.overflowed (slotsOf_of_getElem? he)]
  constructor
  · rintro ⟨k, hk, hover⟩
    obtain ⟨a, ha, rfl⟩ := find_ne_none_iff.1 (hwf.tree.overOf_ne_none.1 hover)
    exact ⟨a, ha, hk⟩
  · rintro ⟨a, ha, hi⟩
    exact ⟨a.1, hi, hwf.tree.overOf_ne_none.2 (find_ne_none_iff.2 ⟨a, ha, rfl⟩)⟩

def allocAt (s : IpcSpace Unit) (name : MachPort) : Option (IpcSpace Unit) :=
  (ipcEntryAllocName ipcTableEntries ⟨fun _ => true, true⟩ s name).map fun r =>
    r.2.afterAlloc ⟨1, 1, false, false, some (), 0, by decide⟩ r.1

lemma EntryRun.allocAt {s s' : IpcSpace Unit} {name : MachPort} (h : EntryRun ipcTableEntries s)
    (hvalid : MachPortValid name) (hs' : allocAt s name = some s') :
    EntryRun ipcTableEntries s' := by
  obtain ⟨⟨kr, s1⟩, hres, rfl⟩ := Option.map_eq_some_iff.1 hs'
  exact h.allocName _ hvalid hres

/-- Three names share slot 1, and three lie beyond the table of four slots. The entry in slot 1 is
deallocated, and the table grows over the first of the three. -/
def crowdedSpace : Option (IpcSpace Unit) := do
  let s ← allocAt (ipcSpaceCreate ipcTableEntries 0) 0x100
  let s ← allocAt s 0x105
  let s ← allocAt s 0x107
  let s ← allocAt s 0x400
  let s ← allocAt s 0x900
  let s ← allocAt s 0x6400
  let ptr ← (ipcEntryLookup s 0x100).1
  let s := ipcEntryDealloc ipcTableEntries ((ipcEntryLookup s 0x100).2.clear ptr) 0x100 ptr
  some (ipcEntryGrowTable ipcTableEntries (fun _ => true) s none).2

lemma crowdedSpace_run {s : IpcSpace Unit} (hs : crowdedSpace = some s) :
    EntryRun ipcTableEntries s := by
  simp only [crowdedSpace, Option.bind_eq_bind, Option.bind_eq_some_iff] at hs
  obtain ⟨s1, h1, s2, h2, s3, h3, s4, h4, s5, h5, s6, h6, ptr, hptr, hs⟩ := hs
  have hrun := (EntryRun.create (Nat.zero_le _)).allocAt ⟨by decide, by decide⟩ h1
  have hrun := (hrun.allocAt ⟨by decide, by decide⟩ h2).allocAt ⟨by decide, by decide⟩ h3
  have hrun := (hrun.allocAt ⟨by decide, by decide⟩ h4).allocAt ⟨by decide, by decide⟩ h5
  have hrun := hrun.allocAt ⟨by decide, by decide⟩ h6
  obtain ⟨e, hfound⟩ := (entryLookup_spec hrun.wf 0x100).2.2.1 ptr hptr
  cases hs
  exact ((hrun.lookup 0x100).dealloc hfound).grow _ _

theorem entryRun_summaries_crowded : ∃ s e xs, crowdedSpace = some s ∧ s.isTable.length = 8 ∧
    s.isTable[1]? = some e ∧ e.ieBits.collision = true ∧
    (∃ a ∈ s.isTree.entries, machPortIndex a.1 = 1) ∧
    s.isTreeTotal = 3 ∧ s.isTree.entries.length = 3 ∧ s.isTreeSmall = 1 ∧
    (smallIndices s.isTree.entries s.isTableSize (ipcTableEntries.itsSize s.isTableNext)).card = 1 ∧
    Threads (ieNext s.isTable) xs ∧ 2 ∈ xs ∧ 1 ∉ xs := by
  have hrun : crowdedSpace.any (fun s => s.isTable.length = 8 ∧
      s.isTable[1]?.any (fun e => e.ieBits.collision ∧ e.ieBits.type ≠ machPortTypeNone) ∧
      s.isTable[2]?.any (fun e => e.ieBits.type = machPortTypeNone) ∧
      s.isTreeTotal = 3 ∧ s.isTreeSmall = 1) = true := by
    decide +kernel
  obtain ⟨s, hs, hall⟩ := (Option.any_eq_true _ _).1 hrun
  obtain ⟨hlength, hone, htwo, htotal, hsmall⟩ := of_decide_eq_true hall
  obtain ⟨e, he, hbits⟩ := (Option.any_eq_true _ _).1 hone
  obtain ⟨hcollision, htype⟩ := of_decide_eq_true hbits
  obtain ⟨e2, he2, htype2⟩ := (Option.any_eq_true _ _).1 htwo
  obtain ⟨hbit, hcount, hcard, xs, hxs, hmem⟩ := entryRun_summaries (crowdedSpace_run hs)
  refine ⟨s, e, xs, hs, hlength, he, hcollision, (hbit 1 e he).1 hcollision, htotal,
    hcount.symm.trans htotal, hsmall, hcard.symm.trans hsmall, hxs, ?_, fun h => ?_⟩
  · exact (hmem 2).2 ⟨by decide, e2, he2, of_decide_eq_true htype2⟩
  · obtain ⟨-, e', he', hnone⟩ := (hmem 1).1 h
    cases he.symm.trans he'
    exact htype hnone

end Rhapsody.Ipc
