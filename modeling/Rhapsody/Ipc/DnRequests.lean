import Rhapsody.Ipc.Circularity
import Rhapsody.Ipc.Entry

/-! The table of dead-name requests of a port (`ipc/ipc_port.c`). Slot 0 is the head of
the list of unused slots. -/

namespace Rhapsody.Ipc
open Rhapsody.Lib List Function

variable {π : Type*}

/-- An array of table sizes that ends with a zero. -/
structure DnTableSizes where
  itsSize : ℕ → ℕ
  last : ℕ
  terminator : itsSize last = 0
  two_le : ∀ i < last, 2 ≤ itsSize i
  increasing : ∀ i, i + 1 < last → itsSize i < itsSize (i + 1)

def ipcTableDnrequestsFilled : List ℕ := ipcTableFill (64 - 1) 2 8

def ipcTableDnrequests : DnTableSizes where
  itsSize i := ipcTableDnrequestsFilled.getD i 0
  last := 63
  terminator := by decide +kernel
  two_le := by decide +kernel
  increasing i hi := by
    have hall : ∀ i < 62, ipcTableDnrequestsFilled.getD i 0 <
        ipcTableDnrequestsFilled.getD (i + 1) 0 := by decide +kernel
    exact hall i (by omega)

/-- The union `notify` holds a send-once right, or `ipr_next` in slot 0 and unused slots. -/
structure IpcPortRequest (π : Type*) where
  notify : π ⊕ ℕ
  iprName : MachPort

/-- A table; `ipr_size` is an element of the array of sizes. -/
structure DnTable (π : Type*) where
  iprSize : ℕ
  slots : List (IpcPortRequest π)

def iprNext (slots : List (IpcPortRequest π)) (i : ℕ) : ℕ :=
  match slots[i]? with
  | some ⟨.inr next, _⟩ => next
  | _ => 0

def setHead (slots : List (IpcPortRequest π)) (next : ℕ) : List (IpcPortRequest π) :=
  slots.set 0 ⟨.inr next, machPortNull⟩

def ipcPortDnrequest (name : MachPort) (soright : π) (table : DnTable π) :
    Option (ℕ × DnTable π) :=
  let index := iprNext table.slots 0
  if index = 0 then none
  else some (index, { table with
    slots := (setHead table.slots (iprNext table.slots index)).set index ⟨.inl soright, name⟩ })

def ipcPortDncancel (table : DnTable π) (index : ℕ) : DnTable π :=
  { table with
    slots := setHead (table.slots.set index ⟨.inr (iprNext table.slots 0), machPortNull⟩) index }

def itsSizeNone : BitVec 32 := BitVec.ofInt 32 (-1)

/-- `while ((its->its_size) && (its->its_size < target_size)) its++`. -/
def seekSize (its : DnTableSizes) (target : ℕ) : ℕ → ℕ → ℕ
  | 0, i => i
  | fuel + 1, i =>
    if its.itsSize i ≠ 0 ∧ its.itsSize i < target then seekSize its target fuel (i + 1) else i

/-- Adds `n` elements to the free list, whose head the source keeps in `free` meanwhile. -/
def addFree : ℕ → List (IpcPortRequest π) → List (IpcPortRequest π)
  | 0, slots => slots
  | n + 1, slots =>
    addFree n (setHead (slots ++ [⟨.inr (iprNext slots 0), machPortNull⟩]) slots.length)

def dnGrown (its : DnTableSizes) (otable : Option (DnTable π)) (new : ℕ) : DnTable π :=
  let slots := otable.elim [⟨.inr 0, machPortNull⟩] (·.slots)
  ⟨new, addFree (its.itsSize new - slots.length) slots⟩

/-- `ipc_port_dngrow` while no other thread touches the port. `memory` tells for which elements of
the array a table can be had. The sizes are unsigned. -/
def ipcPortDngrow (its : DnTableSizes) (memory : ℕ → Bool) (otable : Option (DnTable π))
    (target : BitVec 32) : KernReturn × Option (DnTable π) :=
  let first := otable.elim 0 (·.iprSize + 1)
  let large := otable.any fun table => target.toNat ≤ its.itsSize table.iprSize
  let new := if target = itsSizeNone then first else seekSize its target.toNat its.last first
  if target ≠ itsSizeNone ∧ large then (.success, otable)
  else if target ≠ itsSizeNone ∧ its.itsSize new = 0 then (.noSpace, otable)
  else if its.itsSize new = 0 ∨ memory new = false then (.resourceShortage, otable)
  -- nobody else has grown the table: `otable->ipr_size+1 == its`
  else if otable.all fun table => table.iprSize + 1 = new then
    (.success, some (dnGrown its otable new))
  else (.success, otable)

/-! ## The free list -/

/-- The unused slots, each once, are those on the free list. -/
def FreeSlots (slots : List (IpcPortRequest π)) : Prop :=
  ∃ xs, Threads (iprNext slots) xs ∧
    ∀ i, i ∈ xs ↔ i ≠ 0 ∧ ∃ ipr, slots[i]? = some ipr ∧ ipr.iprName = machPortNull

variable {slots : List (IpcPortRequest π)} {its : DnTableSizes} {i n : ℕ}

lemma iprNext_setHead (hpos : 0 < slots.length) (next : ℕ) :
    iprNext (setHead slots next) = update (iprNext slots) 0 next := by
  funext j
  by_cases hj : j = 0
  · subst hj
    simp [iprNext, setHead, hpos]
  · simp [iprNext, setHead, hj, Ne.symm hj]

lemma setHead_getElem? (hi : i ≠ 0) (next : ℕ) : (setHead slots next)[i]? = slots[i]? :=
  getElem?_set_ne (Ne.symm hi)

theorem FreeSlots.push {slots' : List (IpcPortRequest π)} (h : FreeSlots slots)
    (hpos : 0 < slots'.length) (hi : i ≠ 0)
    (hused : ∀ ipr, slots[i]? = some ipr → ipr.iprName ≠ machPortNull)
    (hself : slots'[i]? = some ⟨.inr (iprNext slots 0), machPortNull⟩)
    (hother : ∀ j ≠ i, slots'[j]? = slots[j]?) : FreeSlots (setHead slots' i) := by
  obtain ⟨xs, hthreads, hmem⟩ := h
  have hnot : i ∉ xs := fun hix => by
    obtain ⟨-, ipr, hipr, hname⟩ := (hmem i).1 hix
    exact hused ipr hipr hname
  refine ⟨i :: xs, hthreads.push hi hnot ?_ ?_ fun x hx => ?_, fun j => ?_⟩
  · rw [iprNext_setHead hpos, update_self]
  · rw [iprNext_setHead hpos, update_of_ne hi, iprNext, hself]
  · have hx0 : x ≠ 0 := ((hmem x).1 hx).1
    have hxi : x ≠ i := by
      rintro rfl
      exact hnot hx
    rw [iprNext_setHead hpos, update_of_ne hx0, iprNext, hother x hxi, iprNext]
  rw [mem_cons, hmem]
  by_cases hji : j = i
  · subst hji
    simpa [hi, setHead_getElem? hi] using ⟨_, hself, rfl⟩
  simp only [hji, false_or]
  refine and_congr_right fun hj => ?_
  rw [setHead_getElem? hj, hother j hji]

lemma FreeSlots.pop (h : FreeSlots slots) (hpos : 0 < slots.length) (hfree : iprNext slots 0 ≠ 0)
    {ipr : IpcPortRequest π} (hname : ipr.iprName ≠ machPortNull) :
    FreeSlots ((setHead slots (iprNext slots (iprNext slots 0))).set (iprNext slots 0) ipr) := by
  obtain ⟨xs, hthreads, hmem⟩ := h
  obtain ⟨ys, rfl⟩ := hthreads.eq_cons hfree
  generalize hidx : iprNext slots 0 = index at *
  obtain ⟨hnot, -⟩ := nodup_cons.1 hthreads.nodup
  have hrest : Threads _ ([] ++ ys) := hthreads.unlink
  have hset : ∀ j ≠ index, iprNext ((setHead slots (iprNext slots index)).set index ipr) j =
      update (iprNext slots) 0 (iprNext slots index) j := fun j hj => by
    rw [← iprNext_setHead hpos]
    simp only [iprNext, getElem?_set_ne (Ne.symm hj)]
  refine ⟨ys, hrest.congr (hset 0 (Ne.symm hfree)) fun x hx => hset x ?_, fun j => ?_⟩
  · rintro rfl
    exact hnot hx
  by_cases hj : j = index
  · subst hj
    have hlt : j < (setHead slots (iprNext slots j)).length := by
      obtain ⟨-, d, hd, -⟩ := (hmem j).1 mem_cons_self
      simpa [setHead] using (List.getElem?_eq_some_iff.1 hd).1
    simp [hnot, hlt, hname]
  have hj' := hmem j
  rw [mem_cons, or_iff_right hj] at hj'
  rw [hj', getElem?_set_ne (Ne.symm hj)]
  refine and_congr_right fun hj0 => ?_
  rw [setHead_getElem? hj0]

theorem addFree_spec (n : ℕ) (h : FreeSlots slots) (hpos : 0 < slots.length) :
    FreeSlots (addFree n slots) ∧ (addFree n slots).length = slots.length + n ∧
      ∀ i ≠ 0, i < slots.length → (addFree n slots)[i]? = slots[i]? := by
  induction n generalizing slots with
  | zero => exact ⟨h, rfl, fun _ _ _ => rfl⟩
  | succ n ih =>
    have hpush := @FreeSlots.push _ _ slots.length
      (slots ++ [⟨.inr (iprNext slots 0), machPortNull⟩]) h (by simp) (by omega) (by simp) (by simp)
      fun j hj => by
        obtain hlt | hgt := lt_or_gt_of_ne hj
        · exact getElem?_append_left hlt
        · rw [getElem?_eq_none (by simp; omega), getElem?_eq_none (by omega)]
    obtain ⟨hfree, hlength, hkept⟩ := ih hpush (by simp [setHead])
    refine ⟨hfree, ?_, fun i hi hlt => ?_⟩
    · rw [addFree, hlength]
      simp [setHead]
      omega
    · rw [addFree, hkept i hi (by simp [setHead]; omega), setHead_getElem? hi,
        getElem?_append_left hlt]

/-! ## Runs -/

structure DnTable.Ok (its : DnTableSizes) (table : DnTable π) : Prop where
  size_lt : table.iprSize < its.last
  length : table.slots.length = its.itsSize table.iprSize
  free : FreeSlots table.slots

lemma DnTable.Ok.pos {table : DnTable π} (h : table.Ok its) : 0 < table.slots.length := by
  have htwo := its.two_le _ h.size_lt
  rw [h.length]
  omega

lemma dnGrown_spec {otable : Option (DnTable π)} (h : ∀ table ∈ otable, table.Ok its) {new : ℕ}
    (hnew : its.itsSize new ≠ 0) (hlt : new < its.last)
    (hnext : ∀ table ∈ otable, table.iprSize + 1 = new) :
    (dnGrown its otable new).Ok its ∧ ∀ table ∈ otable,
      table.slots.length < (dnGrown its otable new).slots.length ∧
      ∀ i ≠ 0, i < table.slots.length → (dnGrown its otable new).slots[i]? = table.slots[i]? := by
  cases otable with
  | none =>
    have hfree : FreeSlots [(⟨.inr 0, machPortNull⟩ : IpcPortRequest π)] := by
      refine ⟨[], ⟨rfl, nodup_nil⟩, fun i => ⟨by simp, ?_⟩⟩
      rintro ⟨hi, ipr, hipr, -⟩
      exact absurd (List.getElem?_eq_some_iff.1 hipr).1 (by simpa using hi)
    obtain ⟨hres, hlength, -⟩ := addFree_spec (its.itsSize new - 1) hfree Nat.one_pos
    refine ⟨⟨hlt, hlength.trans ?_, hres⟩, by simp⟩
    rw [length_singleton]
    exact Nat.add_sub_cancel' (Nat.pos_of_ne_zero hnew)
  | some table =>
    have hok := h table rfl
    have hsize : table.slots.length < its.itsSize new := by
      rw [hok.length, ← hnext table rfl]
      exact its.increasing _ (hnext table rfl ▸ hlt)
    obtain ⟨hres, hlength, hkept⟩ :=
      addFree_spec (its.itsSize new - table.slots.length) hok.free hok.pos
    replace hlength := hlength.trans (Nat.add_sub_cancel' hsize.le)
    refine ⟨⟨hlt, hlength, hres⟩, ?_⟩
    rintro _ ⟨⟩
    exact ⟨hsize.trans_eq hlength.symm, hkept⟩

lemma DnTableSizes.mono {j : ℕ} (hji : j ≤ i) (hi : i < its.last) :
    its.itsSize j ≤ its.itsSize i := by
  induction i, hji using Nat.le_induction with
  | base => exact le_rfl
  | succ i _ ih => exact (ih (by omega)).trans (its.increasing i hi).le

lemma seekSize_eq {target fuel new : ℕ} (hi : i ≤ new) (hfuel : new ≤ i + fuel)
    (hnew : new < its.last) (hbelow : ∀ j < new, its.itsSize j < target)
    (hle : target ≤ its.itsSize new) : seekSize its target fuel i = new := by
  induction fuel generalizing i with
  | zero => exact le_antisymm hi hfuel
  | succ fuel ih =>
    rw [seekSize]
    have htwo := its.two_le i (by omega)
    rcases hi.eq_or_lt with rfl | hlt
    · exact if_neg fun hlt => absurd hlt.2 (by omega)
    · rw [if_pos ⟨by omega, hbelow i hlt⟩]
      exact ih hlt (by omega)

lemma seekSize_spec {target fuel : ℕ} (hi : i ≤ its.last) (hfuel : its.last ≤ i + fuel) :
    seekSize its target fuel i ≤ its.last ∧ (its.itsSize (seekSize its target fuel i) ≠ 0 →
      target ≤ its.itsSize (seekSize its target fuel i)) ∧
      ∀ j, i ≤ j → j < seekSize its target fuel i → its.itsSize j < target := by
  induction fuel generalizing i with
  | zero =>
    obtain rfl : i = its.last := by omega
    exact ⟨le_rfl, fun hne => absurd its.terminator hne, fun j hij hlt => by
      rw [seekSize] at hlt
      omega⟩
  | succ fuel ih =>
    rw [seekSize]
    split
    · next hlt =>
      have hne : i ≠ its.last := by
        rintro rfl
        exact hlt.1 its.terminator
      obtain ⟨hle, hfound, hbelow⟩ := ih (show i + 1 ≤ its.last by omega) (by omega)
      refine ⟨hle, hfound, fun j hij hj => ?_⟩
      rcases hij.eq_or_lt with rfl | hij
      · exact hlt.2
      · exact hbelow j hij hj
    · next hge => exact ⟨hi, fun hne => not_lt.1 fun hlt => hge ⟨hne, hlt⟩, fun j _ _ => by omega⟩

/-- Element `new` is the first that holds `target` slots, and there is memory for such a table. -/
structure DnHolds (its : DnTableSizes) (memory : ℕ → Bool) (target : BitVec 32) (new : ℕ) :
    Prop where
  isNumber : target ≠ itsSizeNone
  lt : new < its.last
  below : ∀ j < new, its.itsSize j < target.toNat
  le : target.toNat ≤ its.itsSize new
  memory : memory new = true

/-- A call fails, finds the table large enough, grows it by one step, or frees the table it made
because that was more than one step. -/
inductive DnGrowth (its : DnTableSizes) (memory : ℕ → Bool) (otable : Option (DnTable π))
    (target : BitVec 32) : KernReturn × Option (DnTable π) → Prop
  | failed {code} (hcode : code ≠ .success) : DnGrowth its memory otable target (code, otable)
  | large {table} (hmem : table ∈ otable) (htarget : target ≠ itsSizeNone)
      (hle : target.toNat ≤ its.itsSize table.iprSize) :
      DnGrowth its memory otable target (.success, otable)
  | grown {new} (hnew : its.itsSize new ≠ 0) (hlt : new < its.last)
      (hnext : ∀ table ∈ otable, table.iprSize + 1 = new)
      (hle : target ≠ itsSizeNone → target.toNat ≤ its.itsSize new) :
      DnGrowth its memory otable target (.success, some (dnGrown its otable new))
  | skipped {table new} (hmem : table ∈ otable) (hholds : DnHolds its memory target new)
      (hnext : table.iprSize + 1 < new) :
      DnGrowth its memory otable target (.success, otable)

lemma ipcPortDngrow_growth (memory : ℕ → Bool) (otable : Option (DnTable π))
    (target : BitVec 32) (h : ∀ table ∈ otable, table.iprSize < its.last) :
    DnGrowth its memory otable target (ipcPortDngrow its memory otable target) := by
  have hfirst : otable.elim 0 (·.iprSize + 1) ≤ its.last := by
    cases otable with
    | none => exact Nat.zero_le _
    | some table => exact h table rfl
  obtain ⟨hle, hfound, hbelow⟩ := @seekSize_spec _ _ target.toNat _ hfirst (Nat.le_add_left _ _)
  simp only [ipcPortDngrow]
  generalize hnew : (if target = itsSizeNone then otable.elim 0 (·.iprSize + 1) else
    seekSize its target.toNat its.last (otable.elim 0 (·.iprSize + 1))) = new
  have hnewle : new ≤ its.last := by
    rw [← hnew]
    split <;> assumption
  have htarget : target ≠ itsSizeNone → its.itsSize new ≠ 0 → target.toNat ≤ its.itsSize new := by
    intro hne
    rw [if_neg hne] at hnew
    exact hnew ▸ hfound
  split_ifs with hlarge hspace hshort hall
  · obtain ⟨table, hmem, hany⟩ := Option.any_eq_true _ _ |>.1 hlarge.2
    exact .large hmem hlarge.1 (of_decide_eq_true hany)
  · exact .failed (by simp)
  · exact .failed (by simp)
  · obtain ⟨hsize, -⟩ := not_or.1 hshort
    refine .grown hsize (hnewle.lt_of_ne ?_) ?_ fun hne => htarget hne hsize
    · rintro rfl
      exact hsize its.terminator
    · rintro table rfl
      simpa using hall
  cases otable with
  | none => exact absurd rfl hall
  | some table =>
    have hother : table.iprSize + 1 ≠ new := by simpa using hall
    have hne : target ≠ itsSizeNone := fun heq => hother (by rw [← hnew, if_pos heq]; rfl)
    have hsize : its.itsSize table.iprSize < target.toNat := by simpa [hne] using hlarge
    have hlast := h table rfl
    obtain ⟨hsome, hmemory⟩ := not_or.1 hshort
    have hnext : table.iprSize + 1 < new := by
      refine lt_of_le_of_ne (not_lt.1 fun hlt => ?_) hother
      have hmono := its.mono (Nat.le_of_lt_succ hlt) hlast
      have := htarget hne hsome
      omega
    have hlt : new < its.last := hnewle.lt_of_ne fun heq => hsome (heq ▸ its.terminator)
    rw [if_neg hne] at hnew
    refine .skipped rfl ⟨hne, hlt, fun j hj => ?_, htarget hne hsome, by simpa using hmemory⟩ hnext
    rcases lt_or_ge table.iprSize j with hge | hle
    · exact hbelow j hge (hnew.symm ▸ hj)
    · exact (its.mono hle hlast).trans_lt hsize

/-- The tables of a port: dead-name requests are made and cancelled, and the table grows. -/
inductive DnRun (its : DnTableSizes) : Option (DnTable π) → Prop
  | init : DnRun its none
  | request {table table' : DnTable π} {name : MachPort} {soright : π} {index : ℕ}
      (hrun : DnRun its (some table)) (hname : name ≠ machPortNull)
      (hstep : ipcPortDnrequest name soright table = some (index, table')) :
      DnRun its (some table')
  | cancel {table : DnTable π} {index : ℕ} {ipr : IpcPortRequest π}
      (hrun : DnRun its (some table)) (hindex : index ≠ 0) (hipr : table.slots[index]? = some ipr)
      (hname : ipr.iprName ≠ machPortNull) : DnRun its (some (ipcPortDncancel table index))
  | grow {otable : Option (DnTable π)} (hrun : DnRun its otable) (memory : ℕ → Bool)
      (target : BitVec 32) : DnRun its (ipcPortDngrow its memory otable target).2

lemma DnTable.Ok.dnrequest {table table' : DnTable π} (h : table.Ok its) {name : MachPort}
    {soright : π} {index : ℕ} (hname : name ≠ machPortNull)
    (hstep : ipcPortDnrequest name soright table = some (index, table')) : table'.Ok its := by
  simp only [ipcPortDnrequest] at hstep
  split at hstep
  · cases hstep
  · next hindex =>
    cases hstep
    exact ⟨h.size_lt, by simpa [setHead] using h.length, h.free.pop h.pos hindex hname⟩

lemma DnTable.Ok.dncancel {table : DnTable π} (h : table.Ok its) {index : ℕ}
    {ipr : IpcPortRequest π} (hindex : index ≠ 0) (hipr : table.slots[index]? = some ipr)
    (hname : ipr.iprName ≠ machPortNull) : (ipcPortDncancel table index).Ok its := by
  have hlt := (List.getElem?_eq_some_iff.1 hipr).1
  refine ⟨h.size_lt, by simpa [ipcPortDncancel, setHead] using h.length, ?_⟩
  refine h.free.push (by simpa using h.pos) hindex ?_ (getElem?_set_self hlt) ?_
  · rintro _ hother
    exact Option.some.inj (hipr.symm.trans hother) ▸ hname
  · exact fun j hj => getElem?_set_ne (Ne.symm hj)

lemma DnRun.ok {otable : Option (DnTable π)} (h : DnRun its otable) :
    ∀ table ∈ otable, table.Ok its := by
  induction h with
  | init => simp
  | request hrun hname hstep ih =>
    rintro _ ⟨⟩
    exact (ih _ rfl).dnrequest hname hstep
  | cancel hrun hindex hipr hname ih =>
    rintro _ ⟨⟩
    exact (ih _ rfl).dncancel hindex hipr hname
  | @grow otable hrun memory target ih =>
    have hgrowth := ipcPortDngrow_growth memory otable target fun table hmem =>
      (ih table hmem).size_lt
    generalize ipcPortDngrow its memory otable target = res at hgrowth ⊢
    cases hgrowth with
    | grown hnew hlt hnext _ =>
      rintro _ ⟨⟩
      exact (dnGrown_spec ih hnew hlt hnext).1
    | _ => exact ih

def Registered (table : DnTable π) (i : ℕ) (ipr : IpcPortRequest π) : Prop :=
  i ≠ 0 ∧ table.slots[i]? = some ipr ∧ ipr.iprName ≠ machPortNull

/-- The new table has the slots that were asked for and keeps what is registered. -/
structure DnGrows (otable : Option (DnTable π)) (target : BitVec 32) (table : DnTable π) :
    Prop where
  free : FreeSlots table.slots
  reached : target ≠ itsSizeNone → target.toNat ≤ table.slots.length
  more : target = itsSizeNone → otable.elim 0 (·.slots.length) < table.slots.length
  kept : ∀ old ∈ otable, ∀ i ipr, Registered old i ipr → Registered table i ipr

/-- A call that succeeds gives what was asked for exactly if the table that holds it, once there is
memory for that, is at most one step larger. -/
theorem ipcPortDngrow_grows {otable : Option (DnTable π)} (memory : ℕ → Bool) (target : BitVec 32)
    (hrun : DnRun its otable) :
    (∀ ntable, ipcPortDngrow its memory otable target = (.success, ntable) →
      ∃ table, ntable = some table ∧ DnGrows otable target table) ↔
    ∀ table ∈ otable, ∀ new, DnHolds its memory target new → new ≤ table.iprSize + 1 := by
  have hok := hrun.ok
  constructor
  · intro hgrows table hmem new hholds
    by_contra hnext
    obtain ⟨hne, hlt, hbelow, hle, hmemory⟩ := hholds
    have hsize := hbelow table.iprSize (by omega)
    have htwo := its.two_le new hlt
    have hseek : seekSize its target.toNat its.last (table.iprSize + 1) = new :=
      seekSize_eq (by omega) (by omega) hlt hbelow hle
    obtain rfl := Option.mem_def.1 hmem
    have hcall : ipcPortDngrow its memory (some table) target = (.success, some table) := by
      simp [ipcPortDngrow, hne, hseek, hmemory, show ¬target.toNat ≤ its.itsSize table.iprSize by
        omega, show its.itsSize new ≠ 0 by omega, show table.iprSize + 1 ≠ new by omega]
    obtain ⟨_, ⟨⟩, hgrown⟩ := hgrows _ hcall
    have := hgrown.reached hne
    rw [(hok table rfl).length] at this
    omega
  intro hstep ntable hgrow
  have hgrowth := ipcPortDngrow_growth memory otable target fun table hmem =>
    (hok table hmem).size_lt
  rw [hgrow] at hgrowth
  cases hgrowth with
  | failed hcode => exact absurd rfl hcode
  | @large table hmem htarget hle =>
    refine ⟨table, hmem, (hok table hmem).free, fun _ => ?_, fun heq => absurd heq htarget, ?_⟩
    · rwa [(hok table hmem).length]
    · intro old hold i ipr hreg
      rwa [← Option.mem_unique hold hmem]
  | @grown new hnew hlt hnext hle =>
    obtain ⟨hres, hold⟩ := dnGrown_spec hok hnew hlt hnext
    refine ⟨_, rfl, hres.free, fun hne => hres.length ▸ hle hne, fun _ => ?_, ?_⟩
    · cases otable with
      | none => exact hres.pos
      | some table => exact (hold table rfl).1
    rintro old hmem i ipr ⟨hi, hipr, hname⟩
    refine ⟨hi, ?_, hname⟩
    rw [(hold old hmem).2 i hi (List.getElem?_eq_some_iff.1 hipr).1, hipr]
  | skipped hmem hholds hnext => exact absurd (hstep _ hmem _ hholds) (not_le.2 hnext)

/-- The first table, with name 8 registered in its only slot. -/
def oneRequest : DnTable ℕ := ⟨0, [⟨.inr 0, machPortNull⟩, ⟨.inl 5, 8⟩]⟩

lemma oneRequest_run : DnRun ipcTableDnrequests (some oneRequest) := by
  have hname : (8 : MachPort) ≠ machPortNull := by decide
  have hrequest : ipcPortDnrequest 8 5 (dnGrown ipcTableDnrequests none 0) =
      some (1, oneRequest) := rfl
  exact (DnRun.init.grow (fun _ => true) itsSizeNone).request hname hrequest

theorem ipcPortDngrow_grows_next : ∃ table : DnTable ℕ,
    (ipcPortDngrow ipcTableDnrequests (fun _ => true) (some oneRequest) 4).2 = some table ∧
      FreeSlots table.slots ∧ 4 ≤ table.slots.length ∧ Registered table 1 ⟨.inl 5, 8⟩ := by
  have hholds : ∀ table ∈ some oneRequest, ∀ new,
      DnHolds ipcTableDnrequests (fun _ => true) 4 new → new ≤ table.iprSize + 1 := by
    rintro _ ⟨⟩ new hholds
    exact not_lt.1 fun hlt => absurd (hholds.below 1 hlt) (by decide +kernel)
  obtain ⟨table, hres, hgrows⟩ :=
    (ipcPortDngrow_grows (fun _ => true) 4 oneRequest_run).2 hholds _ rfl
  exact ⟨table, hres, hgrows.free, hgrows.reached (by decide),
    hgrows.kept _ rfl 1 _ ⟨by decide, rfl, by decide⟩⟩

/-- The table of two slots is kept although eight are asked for. -/
theorem ipcPortDngrow_keeps :
    let table := dnGrown (π := ℕ) ipcTableDnrequests none 0
    DnRun ipcTableDnrequests (some table) ∧ table.slots.length = 2 ∧
      ipcPortDngrow ipcTableDnrequests (fun _ => true) (some table) 8 = (.success, some table) := by
  refine ⟨DnRun.init.grow (fun _ => true) itsSizeNone, by decide +kernel, ?_⟩
  rfl

end Rhapsody.Ipc
