import Rhapsody.Bsd.Descrip

/-! Sequences of calls on descriptor tables. The two indices kept with a table bound its free
slots from below and its used slots from above; only the lowest free slot is given out. -/

namespace Rhapsody.Bsd

open Function

variable {fdp fdp' : Filedesc} {fs fs' : Files} {slots : ℕ → Slot} {l : Limits}
  {i j n fd want : ℕ} {r : Except Errno ℕ}

/-- No slot below `fd_freefile` is free, and none above `fd_lastfile` is open or
reserved. -/
structure Filedesc.Ok (fdp : Filedesc) : Prop where
  below : ∀ i < fdp.freefile, ¬(fdp.slots i).Free
  above : ∀ i, fdp.lastfile < i → (fdp.slots i).Free
  outside : ∀ i, fdp.nfiles ≤ i → fdp.slots i = Slot.empty
  small : fdp.nfiles ≤ 65536

lemma empty_free : Slot.empty.Free := ⟨rfl, rfl⟩

namespace Filedesc.Ok

lemma lt_nfiles (h : fdp.Ok) (hi : ¬(fdp.slots i).Free) : i < fdp.nfiles := by
  by_contra hle
  rw [h.outside i (by omega)] at hi
  exact hi empty_free

lemma le_lastfile (h : fdp.Ok) (hi : ¬(fdp.slots i).Free) : i ≤ fdp.lastfile := by
  by_contra hlt
  exact hi (h.above i (by omega))

lemma freefile_le (h : fdp.Ok) : fdp.freefile ≤ fdp.nfiles := by
  by_contra hlt
  exact lt_irrefl _ (h.lt_nfiles (h.below fdp.nfiles (by omega)))

lemma uShort_eq (h : fdp.Ok) (hi : i < fdp.nfiles) : uShort i = i :=
  Nat.mod_eq_of_lt (lt_of_lt_of_le hi h.small)

end Filedesc.Ok

variable {s : Slot} {lim fp new old indx : ℕ} {s' : DescSystem}

lemma Filedesc.Ok.use (h : fdp.Ok) (hfd : fd < fdp.nfiles) (hs : ¬s.Free) : Filedesc.Ok { fdp with
      slots := update fdp.slots fd s
      lastfile := if fd > fdp.lastfile then uShort fd else fdp.lastfile } := by
  refine ⟨fun i hi => ?_, fun i hi => ?_, fun i hi => ?_, h.small⟩ <;> dsimp only at hi ⊢
  · rw [update_apply]
    split
    · exact hs
    · exact h.below i hi
  · rw [h.uShort_eq hfd] at hi
    have hne : i ≠ fd := by
      rintro rfl
      split at hi <;> omega
    rw [update_of_ne hne]
    refine h.above i ?_
    split at hi <;> omega
  · rw [update_of_ne (by omega)]
    exact h.outside i hi

lemma Filedesc.Ok.replace (h : fdp.Ok) (hused : ¬(fdp.slots fd).Free) (hs : ¬s.Free) :
    Filedesc.Ok { fdp with slots := update fdp.slots fd s } := by
  have huse := h.use (h.lt_nfiles hused) hs
  rwa [if_neg (by have := h.le_lastfile hused; omega)] at huse

/-! ### Allocating and releasing a slot -/

lemma trimLast_spec (slots : ℕ → Slot) (n : ℕ) :
    trimLast slots n ≤ n ∧ ∀ i, trimLast slots n < i → i ≤ n → (slots i).Free := by
  induction n with
  | zero => exact ⟨le_rfl, fun i h1 h2 => by omega⟩
  | succ n ih =>
    rw [trimLast]
    split
    next hfree =>
      refine ⟨by omega, fun i h1 h2 => ?_⟩
      by_cases hi : i = n + 1
      · rw [hi]
        exact hfree
      · exact ih.2 i h1 (by omega)
    · exact ⟨le_rfl, fun i h1 h2 => by omega⟩

lemma fdrelse_ok (h : fdp.Ok) (fd : ℕ) : (fdrelse fdp fd).Ok := by
  obtain ⟨-, htrim⟩ := trimLast_spec (update fdp.slots fd Slot.empty) fdp.lastfile
  have hfreefile := h.freefile_le
  refine ⟨fun i hi => ?_, fun i hi => ?_, fun i hi => ?_, h.small⟩
  · have hlt : i < fdp.freefile ∧ i ≠ fd := by
      change i < (if fd < fdp.freefile then uShort fd else fdp.freefile) at hi
      split at hi
      · rw [h.uShort_eq (by omega)] at hi
        omega
      · omega
    change ¬(update fdp.slots fd Slot.empty i).Free
    rw [update_of_ne hlt.2]
    exact h.below i hlt.1
  · change trimLast (update fdp.slots fd Slot.empty) fdp.lastfile < i at hi
    by_cases hlast : i ≤ fdp.lastfile
    · exact htrim i hi hlast
    change (update fdp.slots fd Slot.empty i).Free
    rw [update_apply]
    split
    · exact empty_free
    · exact h.above i (by omega)
  · change update fdp.slots fd Slot.empty i = Slot.empty
    rw [update_apply]
    split
    · rfl
    · exact h.outside i hi

lemma searchFree_eq (slots : ℕ → Slot) (n j : ℕ) :
    searchFree slots n j = (List.range' j n).find? fun i => (slots i).Free := by
  induction n generalizing j with
  | zero => rfl
  | succ n ih =>
    rw [searchFree, List.range'_succ, List.find?_cons, ih]
    split <;> simp_all

lemma searchFree_some (h : searchFree slots n j = some i) :
    j ≤ i ∧ i < j + n ∧ (slots i).Free ∧ ∀ k, j ≤ k → k < i → ¬(slots k).Free := by
  rw [searchFree_eq, List.find?_range'_eq_some] at h
  have hi := List.mem_range'_1.1 h.2.1
  exact ⟨hi.1, hi.2, of_decide_eq_true h.1, by simpa using h.2.2⟩

lemma searchFree_none (h : searchFree slots n j = none) (hi : j ≤ i) (hlt : i < j + n) :
    ¬(slots i).Free := by
  rw [searchFree_eq, List.find?_eq_none] at h
  simpa using h i (List.mem_range'_1.2 ⟨hi, hlt⟩)

structure Lowest (fdp : Filedesc) (want fd : ℕ) : Prop where
  ge : want ≤ fd
  free : (fdp.slots fd).Free
  lowest : ∀ i, want ≤ i → i < fd → ¬(fdp.slots i).Free

def reservedSlot : Slot := { Slot.empty with reserved := true }

structure Allocates (fdp : Filedesc) (want : ℕ) (r : Except Errno ℕ) (fdp' : Filedesc) :
    Prop where
  lowest : ∀ i, r = .ok i → Lowest fdp want i ∧ i < fdp'.nfiles ∧
    fdp'.slots = update fdp.slots i reservedSlot
  failed : ∀ e, r = .error e → fdp'.slots = fdp.slots

lemma expand_slots (h : ∀ i, fdp.nfiles ≤ i → fdp.slots i = Slot.empty) (lim : ℕ) :
    (fdp.expand lim).slots = fdp.slots := by
  funext i
  change (if i < fdp.nfiles then fdp.slots i else Slot.empty) = fdp.slots i
  split
  · rfl
  · exact (h i (by omega)).symm

lemma nfiles_lt_expand (h : fdp.nfiles < lim) : fdp.nfiles < (fdp.expand lim).nfiles := by
  change fdp.nfiles < min (if fdp.nfiles < 50 then 50 else 2 * fdp.nfiles) lim
  split <;> omega

lemma expand_ok (h : fdp.Ok) (hlim : lim ≤ 65536) (hlt : fdp.nfiles < lim) :
    (fdp.expand lim).Ok := by
  have hslots := expand_slots h.outside lim
  have hnfiles := nfiles_lt_expand hlt
  refine ⟨?_, ?_, fun i hi => ?_, ?_⟩
  · rw [hslots]
    exact h.below
  · rw [hslots]
    exact h.above
  · rw [hslots]
    exact h.outside i (by omega)
  · exact le_trans (min_le_right _ _) hlim

lemma reserve_ok (h : fdp.Ok) (hi : i < fdp.nfiles)
    (hused : ∀ k, (if want < fdp.freefile then fdp.freefile else want) ≤ k → k < i →
      ¬(fdp.slots k).Free) : (fdp.reserve want i).Ok := by
  have hnot : ¬reservedSlot.Free := by decide
  have huse := h.use hi hnot
  refine ⟨fun k hk => ?_, huse.above, huse.outside, h.small⟩
  change k < (if want ≤ fdp.freefile then uShort i else fdp.freefile) at hk
  change ¬(update fdp.slots i reservedSlot k).Free
  by_cases hki : k = i
  · rw [hki, update_self]
    exact hnot
  rw [update_of_ne hki]
  by_cases hbelow : k < fdp.freefile
  · exact h.below k hbelow
  by_cases hwant : want ≤ fdp.freefile
  · rw [if_pos hwant, h.uShort_eq hi] at hk
    refine hused k ?_ hk
    split <;> omega
  · rw [if_neg hwant] at hk
    omega

lemma fdallocLoop_spec {fuel : ℕ} (want : ℕ) (hbelow : ∀ i < fdp.freefile, ¬(fdp.slots i).Free)
    (houtside : ∀ i, fdp.nfiles ≤ i → fdp.slots i = Slot.empty) (hfuel : lim - fdp.nfiles < fuel) :
    ∃ r fdp', fdallocLoop lim want fuel fdp = some (r, fdp') ∧ Allocates fdp want r fdp' ∧
      (lim ≤ 65536 → fdp.Ok → fdp'.Ok) := by
  induction fuel generalizing fdp with
  | zero => omega
  | succ fuel ih =>
    rw [fdallocLoop]
    cases hsearch : searchFree fdp.slots (min fdp.nfiles lim -
        (if want < fdp.freefile then fdp.freefile else want))
        (if want < fdp.freefile then fdp.freefile else want) with
    | some i =>
      obtain ⟨hge, hlt, hfree, hused⟩ := searchFree_some hsearch
      refine ⟨_, _, rfl, ⟨fun k hk => ?_, nofun⟩, fun _ hok => reserve_ok hok (by omega) hused⟩
      cases hk
      refine ⟨⟨?_, hfree, fun k h1 h2 => ?_⟩, show i < fdp.nfiles by omega, rfl⟩
      · split at hge <;> omega
      by_cases hk : k < fdp.freefile
      · exact hbelow k hk
      · refine hused k ?_ h2
        split <;> omega
    | none =>
      dsimp only
      by_cases hfull : fdp.nfiles ≥ lim
      · rw [if_pos hfull]
        exact ⟨_, _, rfl, ⟨nofun, fun _ _ => rfl⟩, fun _ hok => hok⟩
      have hnfiles := nfiles_lt_expand (show fdp.nfiles < lim by omega)
      have hslots := expand_slots houtside lim
      have hbelow' : ∀ i < (fdp.expand lim).freefile, ¬((fdp.expand lim).slots i).Free := by
        rw [hslots]
        exact hbelow
      have houtside' : ∀ i, (fdp.expand lim).nfiles ≤ i →
          (fdp.expand lim).slots i = Slot.empty := by
        rw [hslots]
        exact fun i hi => houtside i (by omega)
      obtain ⟨r, fdp', hloop, halloc, hok'⟩ := ih hbelow' houtside' (by omega)
      rw [if_neg hfull]
      refine ⟨r, fdp', hloop, ⟨fun i hi => ?_, fun e he => ?_⟩,
        fun hlim hok => hok' hlim (expand_ok hok hlim (by omega))⟩
      · obtain ⟨hlow, hin, hupd⟩ := halloc.lowest i hi
        rw [hslots] at hupd
        refine ⟨⟨hlow.ge, ?_, ?_⟩, hin, hupd⟩
        · rw [← hslots]
          exact hlow.free
        · rw [← hslots]
          exact hlow.lowest
      · rw [halloc.failed e he, hslots]

lemma fdalloc_spec (h : fdp.Ok) (l : Limits) (want : ℕ) :
    ∃ r fdp', fdalloc l fdp want = some (r, fdp') ∧ Allocates fdp want r fdp' ∧
      (l.lim ≤ 65536 → fdp'.Ok) := by
  obtain ⟨r, fdp', hloop, halloc, hok⟩ := fdallocLoop_spec want
    h.below h.outside (show l.lim - fdp.nfiles < l.lim + 1 by omega)
  exact ⟨r, fdp', hloop, halloc, fun hlim => hok hlim h⟩

/-! ### Calls -/

lemma fdgetf_some (h : fdgetf fdp fd = some fp) :
    fd < fdp.nfiles ∧ (fdp.slots fd).reserved = false ∧ (fdp.slots fd).file = some fp := by
  rw [fdgetf] at h
  by_cases hbad : fd ≥ fdp.nfiles ∨ (fdp.slots fd).reserved = true
  · rw [if_pos hbad] at h
    cases h
  · rw [if_neg hbad] at h
    exact ⟨by omega, by simpa using fun hres => hbad (.inr hres), h⟩

lemma not_free_of_file (h : s.file = some fp) : ¬s.Free := by
  intro hfree
  rw [hfree.1] at h
  cases h

lemma not_free_of_reserved (h : s.reserved = true) : ¬s.Free := by
  intro hfree
  rw [hfree.2] at h
  cases h

lemma finishdup_eq (hfile : (fdp.slots old).file = some fp)
    (hres : (fdp.slots old).reserved = false) :
    finishdup fdp fs old new = (.ok new,
      { fdp with
        slots := update fdp.slots new { fdp.slots old with exclose := false }
        lastfile := if new > fdp.lastfile then uShort new else fdp.lastfile },
      fileReference fs fp) := by
  rw [finishdup, hfile, hres]
  rfl

lemma Allocates.kept (h : Allocates fdp want (.ok i) fdp') (hj : ¬(fdp.slots j).Free) :
    fdp'.slots j = fdp.slots j := by
  obtain ⟨hlow, -, hslots⟩ := h.lowest i rfl
  rw [hslots, update_of_ne]
  rintro rfl
  exact hj hlow.free

lemma closeit_eq (fs : Files) (hne : old ≠ new) (hfile : (fdp.slots old).file = some fp)
    (hres : (fdp.slots old).reserved = false) (hnew : ¬(fdp.slots new).reserved = true) :
    ∃ fs', closeit fdp fs old new = (.ok new,
      { fdp with
        slots := update fdp.slots new { fdp.slots old with exclose := false }
        lastfile := if new > fdp.lastfile then uShort new else fdp.lastfile }, fs') := by
  rw [closeit, if_neg hnew, finishdup_eq]
  · dsimp only
    rw [update_idem, update_of_ne hne]
    exact ⟨_, rfl⟩
  · dsimp only
    rw [update_of_ne hne]
    exact hfile
  dsimp only
  rw [update_of_ne hne]
  exact hres

lemma closeit_ok (h : fdp.Ok) (hnew : new < fdp.nfiles) (hne : old ≠ new)
    (hfile : (fdp.slots old).file = some fp) (hres : (fdp.slots old).reserved = false) :
    (closeit fdp fs old new).2.1.Ok := by
  by_cases hbusy : (fdp.slots new).reserved = true
  · rw [closeit, if_pos hbusy]
    exact h
  obtain ⟨fs', heq⟩ := closeit_eq fs hne hfile hres hbusy
  rw [heq]
  exact h.use hnew (not_free_of_file hfile)

lemma clearReserved_ok (h : fdp.Ok) (hfile : (fdp.slots fd).file = some fp) :
    (clearReserved fdp fd).Ok := by
  refine h.replace (not_free_of_file hfile) fun hfree => ?_
  exact Option.some_ne_none fp (hfile.symm.trans hfree.1)

lemma dupfdopen_ok (h : fdp.Ok) {dfd : ℕ} (hindx : ¬(fdp.slots indx).Free) (mode : FileMode)
    (error : Errno) : (dupfdopen fdp fs indx dfd mode error).2.1.Ok := by
  rw [dupfdopen]
  cases hget : fdgetf fdp dfd with
  | none => exact h
  | some wfp =>
    obtain ⟨-, -, hfile⟩ := fdgetf_some hget
    have hstuffed := h.use (h.lt_nfiles hindx) (not_free_of_file hfile)
    dsimp only
    split
    · exact h
    split
    · split
      · exact h
      · exact hstuffed
    · exact fdrelse_ok hstuffed dfd
    · exact h

lemma openFailed_ok (h : fdp.Ok) (hindx : ¬(fdp.slots indx).Free) (pDupfd : Option ℕ)
    (mode : FileMode) (error : Errno) : (openFailed fdp fs indx pDupfd mode error).2.1.Ok := by
  cases pDupfd with
  | none => exact fdrelse_ok h indx
  | some dfd =>
    rw [openFailed]
    by_cases herr : error = .enodev ∨ error = .enxio
    · rw [if_pos herr]
      have hdup : (dupfdopen fdp (ffree fs) indx dfd mode error).2.1.Ok :=
        dupfdopen_ok h hindx mode error
      generalize dupfdopen fdp (ffree fs) indx dfd mode error = out at hdup
      obtain ⟨r, fdp', fs'⟩ := out
      cases r with
      | ok fd => exact hdup
      | error e => exact fdrelse_ok hdup indx
    · rw [if_neg herr]
      exact fdrelse_ok h indx

lemma Filedesc.Ok.clearMapped (h : fdp.Ok) (fd : ℕ) : Filedesc.Ok { fdp with
      slots := update fdp.slots fd { fdp.slots fd with mapped := false } } := by
  have hfree : ∀ i, (update fdp.slots fd { fdp.slots fd with mapped := false } i).Free ↔
      (fdp.slots i).Free := by
    intro i
    rw [update_apply]
    split
    next hi =>
      rw [hi]
      rfl
    · rfl
  refine ⟨fun i hi => ?_, fun i hi => ?_, fun i hi => ?_, h.small⟩ <;> dsimp only at hi ⊢
  · rw [hfree]
    exact h.below i hi
  · rw [hfree]
    exact h.above i hi
  rw [update_apply]
  split
  next hfd =>
    rw [← hfd, h.outside i hi]
    rfl
  · exact h.outside i hi

def ExecMeets (fdp : Filedesc) : Prop :=
  ∀ i < fdp.freefile, (fdp.slots i).exclose = true → (fdp.slots i).reserved = true

lemma fdexecLoop_ok (h : fdp.Ok) (hmeets : ExecMeets fdp) (n : ℕ) : (fdexecLoop n fdp fs).1.Ok := by
  induction n generalizing fdp fs with
  | zero => exact h
  | succ n ih =>
    rw [fdexecLoop]
    by_cases hclose : (fdp.slots n).exclose = true ∧ ¬(fdp.slots n).reserved = true
    · rw [if_pos hclose]
      have hge : fdp.freefile ≤ n := by
        by_contra hlt
        exact hclose.2 (hmeets n (by omega) hclose.1)
      refine ih ⟨fun i hi => ?_, fun i hi => ?_, fun i hi => ?_, h.small⟩ fun i hi => ?_ <;>
        dsimp only at hi ⊢
      · rw [update_of_ne (by omega)]
        exact h.below i hi
      · rw [update_apply]
        split
        · exact empty_free
        · refine h.above i ?_
          split at hi <;> omega
      · rw [update_apply]
        split
        · rfl
        · exact h.outside i hi
      · rw [update_of_ne (by omega)]
        exact hmeets i hi
    rw [if_neg hclose]
    refine ih (h.clearMapped n) fun i hi => ?_
    dsimp only
    rw [update_apply]
    split
    next hin =>
      rw [← hin]
      exact hmeets i hi
    · exact hmeets i hi

/-- The copy has room for all open descriptors, and drops no reserved one below
`fd_freefile`. -/
structure CopyMeets (fdp : Filedesc) : Prop where
  unreserved : ∀ i < fdp.freefile, (fdp.slots i).reserved = false
  room : fdp.lastfile < copySize fdp
  inside : 0 < fdp.nfiles → copySize fdp ≤ fdp.nfiles

lemma shrink_le (lastfile fuel i : ℕ) : shrink lastfile fuel i ≤ i := by
  induction fuel generalizing i with
  | zero => exact le_rfl
  | succ fuel ih =>
    rw [shrink]
    split
    · exact le_trans (ih (i / 2)) (Nat.div_le_self i 2)
    · exact le_rfl

section
variable (h : fdp.Ok)
include h

lemma copySize_le : copySize fdp ≤ 65536 := by
  rw [copySize]
  split
  · decide
  · exact le_trans (shrink_le ..) h.small

lemma fdcopy_ok (hmeets : CopyMeets fdp) (beyond : ℕ → Slot) : (fdcopy fdp fs beyond).1.Ok := by
  have hroom := hmeets.room
  rw [fdcopy]
  by_cases hpos : fdp.nfiles > 0
  · have hinside := hmeets.inside hpos
    rw [if_pos hpos]
    refine ⟨fun i hi => ?_, fun i hi => ?_, fun i hi => ?_, copySize_le h⟩ <;> dsimp only at hi ⊢
    · have hused := h.below i hi
      have hlast := h.le_lastfile hused
      have hlt := h.lt_nfiles hused
      rw [if_pos (by omega), if_pos hlast, if_pos hlt, copySlot, if_pos]
      · exact hused
      refine ⟨fun hnone => hused ⟨hnone, hmeets.unreserved i hi⟩, ?_⟩
      rw [hmeets.unreserved i hi]
      decide
    · split
      · rw [if_neg (by omega), if_pos (by omega)]
        exact h.above i hi
      · exact empty_free
    · exact if_neg (by omega)
  have hzero : fdp.freefile = 0 := by
    have := h.freefile_le
    omega
  rw [if_neg hpos]
  refine ⟨fun i hi => ?_, fun i _ => empty_free, fun i _ => rfl, copySize_le h⟩
  change i < fdp.freefile at hi
  omega

/-! ### Runs -/

inductive DescCall where
  | falloc
  | clearReserved (fd : ℕ)
  | openFailed (indx : ℕ) (pDupfd : Option ℕ) (mode : FileMode) (error : Errno)
  | dup (old : ℕ)
  | dup2 (old new : ℕ)
  | fDupfd (fd newmin : ℕ)
  | fSetfd (fd : ℕ) (arg : Bool)
  | close (fd : ℕ)
  | fdexec

def DescCall.run (l : Limits) (fdp : Filedesc) (fs : Files) : DescCall → Option Outcome
  | .falloc => Bsd.falloc l fdp fs
  | .clearReserved fd => some (.ok fd, Bsd.clearReserved fdp fd, fs)
  | .openFailed indx pDupfd mode error => some (Bsd.openFailed fdp fs indx pDupfd mode error)
  | .dup old => Bsd.dup l fdp fs old
  | .dup2 old new => Bsd.dup2 l fdp fs old new
  | .fDupfd fd newmin => Bsd.fDupfd l fdp fs fd newmin
  | .fSetfd fd arg => some (Bsd.fSetfd fdp fs fd arg)
  | .close fd => some (Bsd.close fdp fs fd)
  | .fdexec => some (.ok 0, Bsd.fdexec fdp fs)

def DescCall.Proper (fdp : Filedesc) : DescCall → Prop
  | .clearReserved fd => (fdp.slots fd).reserved = true ∧ (fdp.slots fd).file ≠ none
  | .openFailed indx _ _ _ => (fdp.slots indx).reserved = true
  | _ => True

/-- The table of files has room for `falloc`, and no descriptor below `fd_freefile` is closed by an
exec. -/
def DescCall.Meets (l : Limits) (fdp : Filedesc) (fs : Files) : DescCall → Prop
  | .falloc => fs.nfiles < l.maxfiles
  | .fdexec => ExecMeets fdp
  | _ => True

structure DescSystem where
  procs : ℕ → Filedesc
  files : Files

inductive DescStep : DescSystem → DescSystem → Prop
  | call {s : DescSystem} {p : ℕ} {l : Limits} {c : DescCall} {r : Except Errno ℕ}
      {fdp' : Filedesc} {fs' : Files} (hproper : c.Proper (s.procs p)) (hlim : l.lim ≤ 65536)
      (hmeets : c.Meets l (s.procs p) s.files)
      (hrun : c.run l (s.procs p) s.files = some (r, fdp', fs')) :
      DescStep s ⟨update s.procs p fdp', fs'⟩
  | fork {s : DescSystem} {p q : ℕ} {beyond : ℕ → Slot} (hmeets : CopyMeets (s.procs p)) :
      DescStep s ⟨update s.procs q (fdcopy (s.procs p) s.files beyond).1,
        (fdcopy (s.procs p) s.files beyond).2⟩

def DescRun : DescSystem → DescSystem → Prop := Relation.ReflTransGen DescStep

def DescSystem.Ok (s : DescSystem) : Prop := ∀ p, (s.procs p).Ok

/-- The descriptor given out is the lowest that is free; a call that fails leaves the slots as they
were. -/
structure GivesLowest (fdp : Filedesc) (want : ℕ) (r : Except Errno ℕ) (fdp' : Filedesc) :
    Prop where
  lowest : ∀ fd, r = .ok fd → Lowest fdp want fd
  failed : ∀ e, r = .error e → fdp'.slots = fdp.slots

lemma falloc_spec (l : Limits) (fs : Files) :
    ∃ r fdp' fs', falloc l fdp fs = some (r, fdp', fs') ∧ (l.lim ≤ 65536 → fdp'.Ok) ∧
      (fs.nfiles < l.maxfiles → GivesLowest fdp 0 r fdp') := by
  obtain ⟨r, fdp', halloc, hallocates, hok⟩ := fdalloc_spec h l 0
  rw [falloc, halloc]
  cases r with
  | error e => exact ⟨_, _, _, rfl, hok, fun _ => ⟨nofun, hallocates.failed⟩⟩
  | ok i =>
    obtain ⟨hlow, -, hslots⟩ := hallocates.lowest i rfl
    have hused : ¬(fdp'.slots i).Free := by
      rw [hslots, update_self]
      decide
    by_cases hfull : fs.nfiles ≥ l.maxfiles
    · exact ⟨_, _, _, congrArg some (if_pos hfull), hok, fun hmeets => by omega⟩
    refine ⟨_, _, _, congrArg some (if_neg hfull), fun hlim => (hok hlim).replace hused nofun,
      fun _ => ⟨fun fd hfd => ?_, nofun⟩⟩
    cases hfd
    exact hlow

lemma dupTo_spec (hget : fdgetf fdp old = some fp) (l : Limits) (fs : Files) (want : ℕ) :
    ∃ r fdp' fs', (fdalloc l fdp want).map (dupTo fs old) = some (r, fdp', fs') ∧
      (l.lim ≤ 65536 → fdp'.Ok) ∧ GivesLowest fdp want r fdp' := by
  obtain ⟨-, hres, hfile⟩ := fdgetf_some hget
  obtain ⟨r, fdp', halloc, hallocates, hok⟩ := fdalloc_spec h l want
  rw [halloc]
  cases r with
  | error e => exact ⟨_, _, _, rfl, hok, nofun, hallocates.failed⟩
  | ok new =>
    obtain ⟨hlow, hnew, -⟩ := hallocates.lowest new rfl
    have hkept := hallocates.kept (not_free_of_file hfile)
    have hfile' : (fdp'.slots old).file = some fp := hkept ▸ hfile
    have hres' : (fdp'.slots old).reserved = false := hkept ▸ hres
    refine ⟨_, _, _, congrArg some (finishdup_eq hfile' hres'), fun hlim => ?_, fun fd hfd => ?_,
      nofun⟩
    · exact (hok hlim).use hnew (not_free_of_file hfile')
    · cases hfd
      exact hlow

lemma dup_spec (l : Limits) (fs : Files) (old : ℕ) :
    ∃ r fdp' fs', dup l fdp fs old = some (r, fdp', fs') ∧ (l.lim ≤ 65536 → fdp'.Ok) ∧
      GivesLowest fdp 0 r fdp' := by
  rw [dup]
  cases hget : fdgetf fdp old with
  | none => exact ⟨_, _, _, rfl, fun _ => h, nofun, fun _ _ => rfl⟩
  | some fp => exact dupTo_spec h hget l fs 0

lemma fDupfd_spec (l : Limits) (fs : Files) (fd newmin : ℕ) :
    ∃ r fdp' fs', fDupfd l fdp fs fd newmin = some (r, fdp', fs') ∧ (l.lim ≤ 65536 → fdp'.Ok) ∧
      GivesLowest fdp newmin r fdp' := by
  rw [fDupfd]
  cases hget : fdgetf fdp fd with
  | none => exact ⟨_, _, _, rfl, fun _ => h, nofun, fun _ _ => rfl⟩
  | some fp =>
    dsimp only
    split
    · exact ⟨_, _, _, rfl, fun _ => h, nofun, fun _ _ => rfl⟩
    · exact dupTo_spec h hget l fs newmin

/-- The slot that `fdalloc` finds for a descriptor behind the table is the one asked for. -/
lemma dup2_beyond (l : Limits) (fs : Files) (old : ℕ) (hnew : new ≥ fdp.nfiles) :
    ((fdalloc l fdp new).map fun
      | (.error e, fdp) => (.error e, fdp, fs)
      | (.ok i, fdp) =>
        if new ≠ i then closeit (fdrelse fdp i) fs old new else finishdup fdp fs old new) =
      (fdalloc l fdp new).map (dupTo fs old) := by
  obtain ⟨r, fdp', halloc, hallocates, -⟩ := fdalloc_spec h l new
  rw [halloc]
  cases r with
  | error e => rfl
  | ok i =>
    obtain ⟨hlow, -, -⟩ := hallocates.lowest i rfl
    have heq : new = i := by
      by_contra hlt
      have hfree : (fdp.slots new).Free := by
        rw [h.outside new hnew]
        exact empty_free
      exact hlow.lowest new le_rfl (by have := hlow.ge; omega) hfree
    rw [← heq]
    exact congrArg some (if_neg (not_not.2 rfl))

lemma dup2_spec (l : Limits) (fs : Files) (old new : ℕ) :
    ∃ r fdp' fs', dup2 l fdp fs old new = some (r, fdp', fs') ∧ (l.lim ≤ 65536 → fdp'.Ok) := by
  rw [dup2]
  cases hget : fdgetf fdp old with
  | none => exact ⟨_, _, _, rfl, fun _ => h⟩
  | some fp =>
    dsimp only
    split
    · exact ⟨_, _, _, rfl, fun _ => h⟩
    split
    · exact ⟨_, _, _, rfl, fun _ => h⟩
    rename_i hne
    split
    next hnew =>
      obtain ⟨r, fdp', fs', hdup, hok, -⟩ := dupTo_spec h hget l fs new
      exact ⟨r, fdp', fs', (dup2_beyond h l fs old hnew).trans hdup, hok⟩
    · obtain ⟨-, hres, hfile⟩ := fdgetf_some hget
      have hclose : (closeit fdp fs old new).2.1.Ok := closeit_ok h (by omega) hne hfile hres
      exact ⟨_, _, _, rfl, fun _ => hclose⟩

lemma descCall_ok {c : DescCall} (hproper : c.Proper fdp) (hlim : l.lim ≤ 65536)
    (hexec : c = .fdexec → ExecMeets fdp) (hrun : c.run l fdp fs = some (r, fdp', fs')) :
    fdp'.Ok := by
  cases c with
  | falloc =>
    obtain ⟨r1, fdp1, fs1, hcall, hok, -⟩ := falloc_spec h l fs
    cases hcall.symm.trans hrun
    exact hok hlim
  | clearReserved fd =>
    obtain ⟨fp, hfile⟩ := Option.ne_none_iff_exists'.1 hproper.2
    cases hrun
    exact clearReserved_ok h hfile
  | openFailed indx pDupfd mode error =>
    have hok : (openFailed fdp fs indx pDupfd mode error).2.1.Ok :=
      openFailed_ok h (not_free_of_reserved hproper) pDupfd mode error
    rw [Option.some.inj hrun] at hok
    exact hok
  | dup old =>
    obtain ⟨r1, fdp1, fs1, hcall, hok, -⟩ := dup_spec h l fs old
    cases hcall.symm.trans hrun
    exact hok hlim
  | dup2 old new =>
    obtain ⟨r1, fdp1, fs1, hcall, hok⟩ := dup2_spec h l fs old new
    cases hcall.symm.trans hrun
    exact hok hlim
  | fDupfd fd newmin =>
    obtain ⟨r1, fdp1, fs1, hcall, hok, -⟩ := fDupfd_spec h l fs fd newmin
    cases hcall.symm.trans hrun
    exact hok hlim
  | fSetfd fd arg =>
    have hok : (fSetfd fdp fs fd arg).2.1.Ok := by
      rw [fSetfd]
      cases hget : fdgetf fdp fd with
      | none => exact h
      | some fp => exact h.replace (not_free_of_file (fdgetf_some hget).2.2) nofun
    rw [Option.some.inj hrun] at hok
    exact hok
  | close fd =>
    have hok : (close fdp fs fd).2.1.Ok := by
      rw [close]
      cases hget : fdgetf fdp fd with
      | none => exact h
      | some fp => exact fdrelse_ok h fd
    rw [Option.some.inj hrun] at hok
    exact hok
  | fdexec =>
    have hok : (fdexec fdp fs).1.Ok := fdexecLoop_ok h (hexec rfl) _
    rw [(Prod.mk.inj (Option.some.inj hrun)).2] at hok
    exact hok

end

lemma DescStep.ok {s : DescSystem} (hstep : DescStep s s') (h : s.Ok) : s'.Ok := by
  intro q
  cases hstep with
  | @call p _ _ _ _ _ hproper hlim hmeets hrun =>
    dsimp only
    rw [update_apply]
    split
    · refine descCall_ok (h p) hproper hlim ?_ hrun
      rintro rfl
      exact hmeets
    · exact h q
  | @fork p _ _ hmeets =>
    dsimp only
    rw [update_apply]
    split
    · exact fdcopy_ok (h p) hmeets _
    · exact h q

lemma DescRun.ok {s : DescSystem} (hrun : DescRun s s') (h : s.Ok) : s'.Ok := by
  induction hrun with
  | refl => exact h
  | tail _ hstep ih => exact hstep.ok ih

/-- In every table reached the two indices bound the free and the used slots, a call gives out the
lowest free descriptor from the requested minimum on, and one that fails leaves the slots as they
were. -/
theorem descRun_lowest {s s' : DescSystem} (hs : s.Ok) (hrun : DescRun s s') (p : ℕ) :
    let fdp := (s'.procs p)
    (∀ i < fdp.freefile, ¬(fdp.slots i).Free) ∧
    (∀ i, fdp.lastfile < i → (fdp.slots i).file = none ∧ (fdp.slots i).reserved = false) ∧
    (∀ l fs, fs.nfiles < l.maxfiles → ∃ r fdp' fs',
      falloc l fdp fs = some (r, fdp', fs') ∧ GivesLowest fdp 0 r fdp') ∧
    (∀ l fs old, ∃ r fdp' fs', dup l fdp fs old = some (r, fdp', fs') ∧ GivesLowest fdp 0 r fdp') ∧
    ∀ l fs fd newmin, ∃ r fdp' fs',
      fDupfd l fdp fs fd newmin = some (r, fdp', fs') ∧ GivesLowest fdp newmin r fdp' := by
  have h := hrun.ok hs p
  refine ⟨h.below, h.above, fun l fs hfull => ?_, fun l fs old => ?_, fun l fs fd newmin => ?_⟩
  · obtain ⟨r, fdp', fs', hcall, -, hlow⟩ := falloc_spec h l fs
    exact ⟨r, fdp', fs', hcall, hlow hfull⟩
  · obtain ⟨r, fdp', fs', hcall, -, hlow⟩ := dup_spec h l fs old
    exact ⟨r, fdp', fs', hcall, hlow⟩
  · obtain ⟨r, fdp', fs', hcall, -, hlow⟩ := fDupfd_spec h l fs fd newmin
    exact ⟨r, fdp', fs', hcall, hlow⟩

def twoOpen : Filedesc where
  slots i := if i < 2 then ⟨some i, i = 0, false, false⟩ else Slot.empty
  nfiles := ndfile
  lastfile := 1
  freefile := 2

def twoFiles : Files where
  fCount _ := 1
  fFlag _ := ⟨true, true⟩
  nfiles := 2
  next := 2

lemma twoOpen_ok : twoOpen.Ok := by
  refine ⟨by decide, fun i hi => ?_, fun i hi => ?_, by decide⟩
  · change (if i < 2 then _ else Slot.empty : Slot).Free
    rw [if_neg (show ¬i < 2 from not_lt.2 hi)]
    exact empty_free
  · exact if_neg (show ¬i < 2 from not_lt.2 (le_trans (by decide) hi))

theorem descRun_lowest_dup : ∃ s s' : DescSystem, s.procs 0 = twoOpen ∧ DescStep s s' ∧
      (∀ i < (s'.procs 0).freefile, ¬((s'.procs 0).slots i).Free) ∧
      ∃ r fdp' fs', dup ⟨64, 64, by decide⟩ (s'.procs 0) s'.files 0 = some (r, fdp', fs') ∧
        GivesLowest (s'.procs 0) 0 r fdp' := by
  have hok : DescSystem.Ok ⟨fun _ => twoOpen, twoFiles⟩ := fun _ => twoOpen_ok
  obtain ⟨r, fdp', fs', hcall, -⟩ := dup_spec twoOpen_ok ⟨64, 64, by decide⟩ twoFiles 0
  have hstep : DescStep ⟨fun _ => twoOpen, twoFiles⟩ ⟨update (fun _ => twoOpen) 0 fdp', fs'⟩ :=
    DescStep.call (p := 0) (l := ⟨64, 64, by decide⟩) (c := .dup 0) trivial (by decide +kernel)
      trivial hcall
  obtain ⟨hbelow, -, -, hdup, -⟩ := descRun_lowest hok (Relation.ReflTransGen.single hstep) 0
  exact ⟨_, _, rfl, hstep, hbelow, hdup _ _ _⟩

/-- An exec that closes descriptor 0 leaves it free below `fd_freefile`, and the next `falloc` gives
out 2; one that finds the table of files full keeps slot 2 reserved. -/
theorem freefile_after_exec : twoOpen.Ok ∧ ((fdexec twoOpen twoFiles).1.slots 0).Free ∧
    (fdexec twoOpen twoFiles).1.freefile = 2 ∧
    (falloc ⟨64, 64, by decide⟩ (fdexec twoOpen twoFiles).1 twoFiles).map Prod.fst =
      some (.ok 2) ∧
    ∃ fdp' fs', falloc ⟨64, 64, by decide⟩ twoOpen { twoFiles with nfiles := 64 } =
      some (.error .enfile, fdp', fs') ∧ (twoOpen.slots 2).Free ∧ ¬(fdp'.slots 2).Free := by
  refine ⟨twoOpen_ok, by decide +kernel, by decide +kernel, by with_unfolding_all rfl, ?_⟩
  exact ⟨_, _, by with_unfolding_all rfl, by decide, by decide +kernel⟩

/-! ### Copying a table -/

/-- The parent's table is not smaller than `NDFILE`, and halving its size never gives `2 *
fd_lastfile + 1`. -/
structure CopyFits (fdp : Filedesc) : Prop where
  inside : 0 < fdp.nfiles → ndfile ≤ fdp.nfiles
  halves : ∀ k, fdp.nfiles / 2 ^ k = 2 * fdp.lastfile + 1 → fdp.lastfile < ndextent

abbrev Filedesc.IsOpen (fdp : Filedesc) (i : ℕ) : Prop :=
  i < fdp.nfiles ∧ (fdp.slots i).file ≠ none ∧ ¬(fdp.slots i).reserved

lemma lt_shrink {lastfile fuel i : ℕ} (hi : lastfile < i)
    (hhalves : ∀ k, i / 2 ^ k = 2 * lastfile + 1 → lastfile < ndextent) :
    lastfile < shrink lastfile fuel i := by
  induction fuel generalizing i with
  | zero => exact hi
  | succ fuel ih =>
    rw [shrink]
    split
    next hlarge =>
      have hodd := hhalves 0
      rw [pow_zero, Nat.div_one] at hodd
      refine ih (by omega) fun k hk => hhalves (k + 1) ?_
      rwa [pow_succ', ← Nat.div_div_eq_div_mul]
    · exact hi

lemma CopyFits.room (h : CopyFits fdp) (hlast : fdp.lastfile ≤ fdp.nfiles - 1) :
    fdp.lastfile < copySize fdp := by
  rw [copySize]
  split
  next hsmall => exact hsmall
  next hlarge =>
    have hlarge : 25 ≤ fdp.lastfile := not_lt.1 hlarge
    exact lt_shrink (by omega) h.halves

lemma CopyFits.le (h : CopyFits fdp) (hpos : 0 < fdp.nfiles) : copySize fdp ≤ fdp.nfiles := by
  rw [copySize]
  split
  · exact h.inside hpos
  · exact shrink_le ..

lemma references_fCount (file : ℕ → Option ℕ) (is : List ℕ) (fs : Files) (fp : ℕ) :
    (is.foldl (fun fs i => match file i with
      | none => fs
      | some fp => fileReference fs fp) fs).fCount fp =
      fs.fCount fp + is.countP fun i => file i = some fp := by
  induction is generalizing fs with
  | nil => exact (add_zero _).symm
  | cons i is ih =>
    rw [List.foldl_cons, ih, List.countP_cons]
    cases file i with
    | none => simp
    | some gp =>
      by_cases hgp : gp = fp
      · simp [hgp, fileReference]
        ring
      · simp [hgp, fileReference, Ne.symm hgp]

/-- The copy has the parent's open descriptors and no others, each counted in its file, and is made
within the two tables. -/
structure Copies (fdp : Filedesc) (fs : Files) (copy : Filedesc × Files) : Prop where
  room : fdp.lastfile < copy.1.nfiles
  inside : 0 < fdp.nfiles → copy.1.nfiles ≤ fdp.nfiles
  opened : ∀ i, fdp.IsOpen i → copy.1.slots i = fdp.slots i
  others : ∀ i, ¬fdp.IsOpen i → copy.1.slots i = Slot.empty
  counts : ∀ fp, copy.2.fCount fp = fs.fCount fp + (List.range (fdp.lastfile + 1)).countP fun i =>
    fdp.IsOpen i ∧ (fdp.slots i).file = some fp

lemma CopyFits.copies (hfits : CopyFits fdp) (fs : Files) (beyond : ℕ → Slot)
    (hlast : fdp.lastfile ≤ fdp.nfiles - 1)
    (habove : ∀ i, fdp.lastfile < i → fdp.slots i = Slot.empty) :
    Copies fdp fs (fdcopy fdp fs beyond) := by
  have hroom := hfits.room hlast
  rw [fdcopy]
  by_cases hpos : fdp.nfiles > 0
  · rw [if_pos hpos]
    have hinside := hfits.le hpos
    have hopen : ∀ i ≤ fdp.lastfile,
        copySlot (fdp.slots i) = if fdp.IsOpen i then fdp.slots i else Slot.empty := fun i hi => by
      have hiff : fdp.IsOpen i ↔ _ := and_iff_right (show i < fdp.nfiles by omega)
      exact if_congr hiff.symm rfl rfl
    refine ⟨hroom, fun _ => hinside, fun i hi => ?_, fun i hi => ?_, fun fp => ?_⟩ <;> dsimp only
    · have hle : i ≤ fdp.lastfile := by
        by_contra hlt
        exact hi.2.1 (congrArg Slot.file (habove i (by omega)))
      rw [if_pos (by omega), if_pos hle, if_pos hi.1, hopen i hle, if_pos hi]
    · split
      · rw [if_pos (show i < fdp.nfiles by omega)]
        split
        next hle => rw [hopen i hle, if_neg hi]
        · exact habove i (by omega)
      · rfl
    · refine (references_fCount _ _ fs fp).trans ?_
      refine congrArg (fs.fCount fp + Nat.cast ·) (List.countP_congr fun i hi => ?_)
      have hle : i ≤ fdp.lastfile := Nat.le_of_lt_succ (List.mem_range.1 hi)
      rw [if_pos (by omega), if_pos hle, if_pos (by omega), hopen i hle]
      split
      next hi => simp [hi]
      next hi => simp [hi, Slot.empty]
  · rw [if_neg hpos]
    have hclosed : ∀ i, ¬fdp.IsOpen i := fun i hi => hpos (Nat.zero_lt_of_lt hi.1)
    refine ⟨hroom, fun h => (hpos h).elim, fun i hi => (hclosed i hi).elim,
      fun i _ => rfl, fun fp => ?_⟩
    simp [hclosed]

/-- What `fdalloc` can give out from slot `start` on. -/
def available (lim : ℕ) (fdp : Filedesc) (start : ℕ) : Finset ℕ :=
  (Finset.Ico start lim).filter fun i => i < fdp.nfiles → (fdp.slots i).Free

lemma mem_available : i ∈ available lim fdp j ↔
    (j ≤ i ∧ i < lim) ∧ (i < fdp.nfiles → (fdp.slots i).Free) := by
  rw [available, Finset.mem_filter, Finset.mem_Ico]

/-- What `fdavail` counts: the slots the table lacks up to the limit, and every free one from
`fd_freefile` on. -/
def counted (lim : ℕ) (fdp : Filedesc) : Finset ℕ :=
  Finset.Ico fdp.nfiles lim ∪
    (Finset.Ico fdp.freefile fdp.nfiles).filter fun i => (fdp.slots i).Free

lemma mem_counted : i ∈ counted lim fdp ↔ (fdp.nfiles ≤ i ∧ i < lim) ∨
    (fdp.freefile ≤ i ∧ i < fdp.nfiles) ∧ (fdp.slots i).Free := by
  rw [counted, Finset.mem_union, Finset.mem_filter, Finset.mem_Ico, Finset.mem_Ico]

lemma card_counted : (counted lim fdp).card = (lim - fdp.nfiles) +
    ((Finset.Ico fdp.freefile fdp.nfiles).filter fun i => (fdp.slots i).Free).card := by
  rw [counted, Finset.card_union_of_disjoint, Nat.card_Ico]
  refine Finset.disjoint_left.2 fun i hi hfree => ?_
  have hle := (Finset.mem_Ico.1 hi).1
  have hlt := (Finset.mem_Ico.1 (Finset.mem_filter.1 hfree).1).2
  omega

lemma available_subset_counted : available lim fdp fdp.freefile ⊆ counted lim fdp := by
  intro i hi
  obtain ⟨⟨hge, hlim⟩, hfree⟩ := mem_available.1 hi
  refine mem_counted.2 ((lt_or_ge i fdp.nfiles).symm.imp (fun hi => ⟨hi, hlim⟩) fun hi => ?_)
  exact ⟨⟨hge, hi⟩, hfree hi⟩

lemma countFree_iff {slots : ℕ → Slot} {k : ℕ} {m : ℤ} : countFree slots k i m = true ↔
    0 < ((Finset.Ico i (i + k)).filter fun j => (slots j).Free).card ∧
      m ≤ ((Finset.Ico i (i + k)).filter fun j => (slots j).Free).card := by
  induction k generalizing i m with
  | zero => simp [countFree]
  | succ k ih =>
    have hnot : i ∉ (Finset.Ico (i + 1) (i + 1 + k)).filter fun j => (slots j).Free := by
      simp
    rw [countFree, show i + (k + 1) = i + 1 + k by omega,
      ← Finset.insert_Ico_add_one_left_eq_Ico (show i < i + 1 + k by omega), Finset.filter_insert]
    split
    · rw [Finset.card_insert_of_notMem hnot, Bool.or_eq_true, decide_eq_true_iff, ih]
      omega
    · exact ih

lemma fdavail_iff : fdavail l fdp n = true ↔
    0 < (counted l.lim fdp).card ∧ n ≤ (counted l.lim fdp).card := by
  have hslots : (Finset.Ico fdp.freefile (fdp.freefile + (fdp.nfiles - fdp.freefile))) =
      Finset.Ico fdp.freefile fdp.nfiles := by
    ext i
    rw [Finset.mem_Ico, Finset.mem_Ico]
    omega
  unfold fdavail
  rw [Bool.or_eq_true, Bool.and_eq_true, decide_eq_true_iff, decide_eq_true_iff, countFree_iff,
    hslots, card_counted]
  split <;> omega

/-- No free slot that the limit has cut off is counted, and a table that can grow has
`fd_freefile` inside. -/
structure Limits.Covers (l : Limits) (fdp : Filedesc) : Prop where
  behind : ∀ i, l.lim ≤ i → fdp.freefile ≤ i → i < fdp.nfiles → ¬(fdp.slots i).Free
  inside : fdp.nfiles < l.lim → fdp.freefile ≤ fdp.nfiles

lemma covers_iff : l.Covers fdp ↔
    (counted l.lim fdp).card ≤ (available l.lim fdp fdp.freefile).card := by
  constructor
  · refine fun h => Finset.card_le_card fun i hi => mem_available.2 ?_
    rcases mem_counted.1 hi with ⟨hge, hlim⟩ | ⟨⟨hge, hlt⟩, hfree⟩
    · exact ⟨⟨(h.inside (by omega)).trans hge, hlim⟩, fun hi => by omega⟩
    · exact ⟨⟨hge, not_le.1 fun hlim => h.behind i hlim hge hlt hfree⟩, fun _ => hfree⟩
  intro hle
  have heq := Finset.eq_of_subset_of_card_le available_subset_counted hle
  refine ⟨fun i hlim hge hlt hfree => ?_, fun hlim => ?_⟩
  · have hi := heq ▸ mem_counted.2 (.inr ⟨⟨hge, hlt⟩, hfree⟩)
    exact absurd (mem_available.1 hi).1.2 (by omega)
  · exact (mem_available.1 (heq ▸ mem_counted.2 (.inl ⟨le_rfl, hlim⟩))).1.1

lemma available_expand (h : fdp.nfiles < lim) :
    available lim (fdp.expand lim) = available lim fdp := by
  have hnfiles := nfiles_lt_expand h
  funext j
  ext i
  rw [mem_available, mem_available]
  refine and_congr_right fun _ => ?_
  change (i < (fdp.expand lim).nfiles →
    (if i < fdp.nfiles then fdp.slots i else Slot.empty).Free) ↔ _
  split
  next hi => exact ⟨fun hfree _ => hfree (by omega), fun hfree _ => hfree hi⟩
  · exact ⟨fun _ _ => by omega, fun _ _ => empty_free⟩

lemma fdallocLoop_takes {fuel : ℕ} (hfuel : lim - fdp.nfiles < fuel)
    (hsome : 0 < (available lim fdp fdp.freefile).card) :
    ∃ f fdp', fdallocLoop lim 0 fuel fdp = some (.ok f, fdp') ∧ ∀ slot,
      (available lim fdp fdp.freefile).card ≤
        (available lim { fdp' with slots := update fdp'.slots f slot } fdp'.freefile).card + 1 := by
  induction fuel generalizing fdp with
  | zero => omega
  | succ fuel ih =>
    have hstart : (if 0 < fdp.freefile then fdp.freefile else 0) = fdp.freefile := by
      split <;> omega
    rw [fdallocLoop, hstart]
    cases hsearch : searchFree fdp.slots (min fdp.nfiles lim - fdp.freefile) fdp.freefile with
    | some i =>
      obtain ⟨-, -, -, hused⟩ := searchFree_some hsearch
      refine ⟨i, _, rfl, fun slot => (Finset.card_le_card fun j hj => ?_).trans
        (Finset.card_insert_le i _)⟩
      refine Finset.mem_insert.2 (or_iff_not_imp_left.2 fun hne => ?_)
      obtain ⟨⟨hge, hlim⟩, hfree⟩ := mem_available.1 hj
      have hij : i ≤ j := by
        by_contra hlt
        have := searchFree_some hsearch
        exact hused j hge (by omega) (hfree (by omega))
      refine mem_available.2 ⟨⟨(Nat.mod_le ..).trans hij, hlim⟩, fun hin => ?_⟩
      change (update (update fdp.slots i _) i slot j).Free
      rw [update_idem, update_of_ne hne]
      exact hfree hin
    | none =>
      obtain ⟨j, hj⟩ := Finset.card_pos.1 hsome
      obtain ⟨⟨hge, hlim⟩, hfree⟩ := mem_available.1 hj
      have hmore : fdp.nfiles < lim := by
        by_contra hfull
        exact searchFree_none hsearch hge (by omega) (hfree (by omega))
      have hnfiles := nfiles_lt_expand hmore
      rw [← available_expand hmore] at hsome ⊢
      obtain ⟨f, fdp', hloop, hcard⟩ :=
        ih (show lim - (fdp.expand lim).nfiles < fuel by omega) hsome
      exact ⟨f, fdp', (if_neg (by omega)).trans hloop, hcard⟩

lemma fdallocEach_ok (rights : List (Option ℕ))
    (h : rights.length ≤ (available l.lim fdp fdp.freefile).card) :
    ∃ r, fdallocEach l fdp rights = some r := by
  induction rights generalizing fdp with
  | nil => exact ⟨_, rfl⟩
  | cons fp rights ih =>
    rw [List.length_cons] at h
    obtain ⟨f, fdp', halloc, hcard⟩ := fdallocLoop_takes
      (show l.lim - fdp.nfiles < l.lim + 1 by omega) (by omega)
    obtain ⟨r, hr⟩ := ih (Nat.le_of_succ_le_succ (h.trans (hcard _)))
    refine ⟨(f :: r.1, r.2), ?_⟩
    rw [fdallocEach, fdalloc, halloc]
    exact congrArg (Option.map _) hr

lemma fdallocLoop_less {fuel f : ℕ} {fdp' : Filedesc} {slot : Slot} (hlim : lim ≤ 65536)
    (h : fdallocLoop lim 0 fuel fdp = some (.ok f, fdp')) (hslot : ¬slot.Free) :
    ¬(fdp'.slots f).Free ∧
      (available lim { fdp' with slots := update fdp'.slots f slot } fdp'.freefile).card <
        (available lim fdp fdp.freefile).card := by
  induction fuel generalizing fdp with
  | zero => cases h
  | succ fuel ih =>
    have hstart : (if 0 < fdp.freefile then fdp.freefile else 0) = fdp.freefile := by
      split <;> omega
    rw [fdallocLoop, hstart] at h
    cases hsearch : searchFree fdp.slots (min fdp.nfiles lim - fdp.freefile) fdp.freefile with
    | some i =>
      rw [hsearch] at h
      obtain ⟨hge, hlt, hfree, -⟩ := searchFree_some hsearch
      cases h
      have hfreefile : (fdp.reserve 0 f).freefile = f := by
        change (if 0 ≤ fdp.freefile then uShort f else fdp.freefile) = f
        rw [if_pos (Nat.zero_le _)]
        exact Nat.mod_eq_of_lt (by omega)
      refine ⟨?_, Finset.card_lt_card ((Finset.ssubset_iff_of_subset fun j hj => ?_).2
        ⟨f, mem_available.2 ⟨⟨hge, by omega⟩, fun _ => hfree⟩, fun hi => ?_⟩)⟩
      · change ¬(update fdp.slots f _ f).Free
        rw [update_self]
        decide
      · obtain ⟨⟨hle, hlim⟩, hj⟩ := mem_available.1 hj
        rw [hfreefile] at hle
        refine mem_available.2 ⟨⟨hge.trans hle, hlim⟩, fun hin => ?_⟩
        have hj : (update (update fdp.slots f _) f slot j).Free := hj hin
        by_cases heq : j = f
        · rwa [heq]
        · rwa [update_idem, update_of_ne heq] at hj
      · have hi := (mem_available.1 hi).2 (by change f < fdp.nfiles; omega)
        replace hi : (update (fdp.reserve 0 f).slots f slot f).Free := hi
        rw [update_self] at hi
        exact hslot hi
    | none =>
      rw [hsearch] at h
      dsimp only at h
      split at h
      · cases h
      · have hless := ih h
        rwa [available_expand (by omega)] at hless

lemma fdallocEach_length (hlim : l.lim ≤ 65536) {rights : List (Option ℕ)} {r : List ℕ × Filedesc}
    (h : fdallocEach l fdp rights = some r) :
    rights.length ≤ (available l.lim fdp fdp.freefile).card := by
  induction rights generalizing fdp r with
  | nil => exact Nat.zero_le _
  | cons fp rights ih =>
    rw [fdallocEach] at h
    split at h
    next f fdp' halloc =>
      obtain ⟨r', hr', -⟩ := Option.map_eq_some_iff.1 h
      have hslot : ¬(if fp = none then fdp'.slots f
          else { fdp'.slots f with file := fp, reserved := false } : Slot).Free := by
        split
        · have hreserved : ¬(Slot.mk none false false true).Free := by decide
          exact (fdallocLoop_less hlim halloc hreserved).1
        next hsome => exact fun hfree => hsome hfree.1
      exact (ih hr').trans_lt (fdallocLoop_less hlim halloc hslot).2
    · cases h

/-- While the limit covers the table, what `fdavail` has promised can be allocated, and
`unp_externalize` does not panic. With a limit that `fd_freefile` can hold neither is so for any
other table. -/
theorem fdavail_fdalloc (l : Limits) (fdp : Filedesc) :
    (l.Covers fdp →
      (∀ n : ℕ, fdavail l fdp n = true →
        ∃ r, fdallocEach l fdp (List.replicate n none) = some r) ∧
      ∀ rights, unpExternalize l fdp rights ≠ none) ∧
    (l.lim ≤ 65536 →
      (∀ n : ℕ, fdavail l fdp n = true →
        ∃ r, fdallocEach l fdp (List.replicate n none) = some r) ∨
      (∀ rights, unpExternalize l fdp rights ≠ none) →
      l.Covers fdp) := by
  constructor
  · intro hcovers
    have hle {n : ℕ} (h : fdavail l fdp n = true) :=
      (fdavail_iff.1 h).2.trans (covers_iff.1 hcovers)
    refine ⟨fun n h => fdallocEach_ok _ (by rw [List.length_replicate]; exact hle h),
      fun rights => ?_⟩
    rw [unpExternalize]
    split
    next h =>
      obtain ⟨r, hr⟩ := fdallocEach_ok (rights.map some) (by rw [List.length_map]; exact hle h)
      rw [hr]
      nofun
    · nofun
  · intro hlim h
    refine covers_iff.2 ?_
    -- as many descriptors as `fdavail` can promise
    generalize hn : (counted l.lim fdp).card = n
    rcases Nat.eq_zero_or_pos n with rfl | hpos
    · exact Nat.zero_le _
    have havail : fdavail l fdp n = true := fdavail_iff.2 ⟨hn ▸ hpos, by rw [hn]⟩
    rcases h with h | h
    · obtain ⟨r, hr⟩ := h n havail
      simpa using fdallocEach_length hlim hr
    · have hne := h (List.replicate n 0)
      rw [unpExternalize, List.length_replicate, if_pos havail] at hne
      rw [Ne, Option.map_eq_none_iff] at hne
      obtain ⟨r, hr⟩ := Option.ne_none_iff_exists'.1 hne
      simpa using fdallocEach_length hlim hr

/-- A table of 25 slots whose last five are open. -/
def lastOpen : Filedesc where
  slots i := if i < 2 ∨ 20 ≤ i ∧ i < 25 then ⟨some i, false, false, false⟩ else Slot.empty
  nfiles := ndfile
  lastfile := 24
  freefile := 2

theorem fdavail_fdalloc_lowered : fdavail ⟨20, 64, by decide⟩ lastOpen 18 = true ∧
    ∃ r, fdallocEach ⟨20, 64, by decide⟩ lastOpen (List.replicate 18 none) = some r := by
  have hcovers : Limits.Covers ⟨20, 64, by decide⟩ lastOpen := by
    refine ⟨fun i hlim _ hi hfree => ?_, by decide +kernel⟩
    have hlim : 20 ≤ i := hlim
    have hi : i < 25 := hi
    have hopen : lastOpen.slots i = ⟨some i, false, false, false⟩ := if_pos (by omega)
    rw [hopen] at hfree
    cases hfree.1
  exact ⟨by decide +kernel, ((fdavail_fdalloc _ lastOpen).1 hcovers).1 18 (by decide +kernel)⟩

/-- With two descriptors open and a limit of two, a free slot behind the limit counts. -/
theorem unpExternalize_panics : fdavail ⟨2, 64, by decide⟩ twoOpen 1 = true ∧
    (fdalloc ⟨2, 64, by decide⟩ twoOpen 0).map Prod.fst = some (.error .emfile) ∧
    unpExternalize ⟨2, 64, by decide⟩ twoOpen [0] = none :=
  ⟨by decide +kernel, by with_unfolding_all rfl, by with_unfolding_all rfl⟩

end Rhapsody.Bsd
