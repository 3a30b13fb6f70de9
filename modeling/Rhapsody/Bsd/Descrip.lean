import Mathlib

/-! Descriptor tables of processes (`bsd/kern/kern_descrip.c`). The arrays `fd_ofiles` and
`fd_ofileflags` are one array of slots; `fd_lastfile` and `fd_freefile` are `u_short`. -/

namespace Rhapsody.Bsd

open Function

def ndfile : ℕ := 25

def ndextent : ℕ := 50

inductive Errno where
  | ebadf
  | emfile
  | enfile
  | einval
  | eacces
  | enodev
  | enxio
  | other (code : ℕ)
  deriving DecidableEq

structure FileMode where
  fread : Bool
  fwrite : Bool
  deriving DecidableEq

structure Files where
  fCount : ℕ → ℤ
  fFlag : ℕ → FileMode
  nfiles : ℤ
  next : ℕ

/-- A file and the flags `UF_EXCLOSE`, `UF_MAPPED` and `UF_RESERVED`. -/
structure Slot where
  file : Option ℕ
  exclose : Bool
  mapped : Bool
  reserved : Bool
  deriving DecidableEq

def Slot.empty : Slot := ⟨none, false, false, false⟩

def Slot.Free (s : Slot) : Prop := s.file = none ∧ s.reserved = false

instance (s : Slot) : Decidable s.Free := inferInstanceAs (Decidable (_ ∧ _))

/-- The array has `nfiles` slots; behind its end the model has empty ones. -/
structure Filedesc where
  slots : ℕ → Slot
  nfiles : ℕ
  lastfile : ℕ
  freefile : ℕ

def uShort (n : ℕ) : ℕ := n % 65536

/-- The limits a call runs under: `RLIMIT_NOFILE`, which is a quad, and `maxfiles`, an `int`. -/
structure Limits where
  rlimCur : ℤ
  maxfiles : ℕ
  isInt : maxfiles < 2 ^ 31

variable (l : Limits)

/-- `min((int)rlim_cur, maxfiles)`. The arguments of `min` are unsigned, so a negative limit allows
as many as `maxfiles`. -/
def Limits.lim : ℕ := min (l.rlimCur % 2 ^ 32).toNat l.maxfiles

/-! ### Files -/

def ffree (fs : Files) : Files := { fs with nfiles := fs.nfiles - 1 }

def closef (fs : Files) (fp : ℕ) : Files :=
  let fs := { fs with fCount := update fs.fCount fp (fs.fCount fp - 1) }
  if fs.fCount fp > 0 then fs else ffree fs

def fileReference (fs : Files) (fp : ℕ) : Files :=
  { fs with fCount := update fs.fCount fp (fs.fCount fp + 1) }

/-! ### Allocating and releasing a slot -/

def trimLast (slots : ℕ → Slot) : ℕ → ℕ
  | 0 => 0
  | n + 1 => if (slots (n + 1)).Free then trimLast slots n else n + 1

variable (fdp : Filedesc)

def fdrelse (fd : ℕ) : Filedesc :=
  let slots := update fdp.slots fd Slot.empty
  { fdp with
    slots := slots
    freefile := if fd < fdp.freefile then uShort fd else fdp.freefile
    lastfile := trimLast slots fdp.lastfile }

def searchFree (slots : ℕ → Slot) : ℕ → ℕ → Option ℕ
  | 0, _ => none
  | n + 1, i => if (slots i).Free then some i else searchFree slots n (i + 1)

def Filedesc.reserve (want i : ℕ) : Filedesc :=
  { fdp with
    slots := update fdp.slots i { Slot.empty with reserved := true }
    lastfile := if i > fdp.lastfile then uShort i else fdp.lastfile
    freefile := if want ≤ fdp.freefile then uShort i else fdp.freefile }

/-- Copy the slots to a larger array; the new part is zeroed. -/
def Filedesc.expand (lim : ℕ) : Filedesc :=
  { fdp with
    slots := fun i => if i < fdp.nfiles then fdp.slots i else Slot.empty
    nfiles := min (if fdp.nfiles < ndextent then ndextent else 2 * fdp.nfiles) lim }

def fdallocLoop (lim want : ℕ) : ℕ → Filedesc → Option (Except Errno ℕ × Filedesc)
  | 0, _ => none
  | fuel + 1, fdp =>
    let start := if want < fdp.freefile then fdp.freefile else want
    match searchFree fdp.slots (min fdp.nfiles lim - start) start with
    | some i => some (.ok i, fdp.reserve want i)
    | none =>
      if fdp.nfiles ≥ lim then some (.error .emfile, fdp)
      else fdallocLoop lim want fuel (fdp.expand lim)

def fdalloc (fdp : Filedesc) (want : ℕ) : Option (Except Errno ℕ × Filedesc) :=
  fdallocLoop l.lim want (l.lim + 1) fdp

/-! ### System calls -/

abbrev Outcome := Except Errno ℕ × Filedesc × Files

def fdgetf (fd : ℕ) : Option ℕ :=
  if fd ≥ fdp.nfiles ∨ (fdp.slots fd).reserved then none else (fdp.slots fd).file

def finishdup (fs : Files) (old new : ℕ) : Outcome :=
  match (fdp.slots old).file with
  | none => (.error .ebadf, fdrelse fdp new, fs)
  | some fp =>
    if (fdp.slots old).reserved then (.error .ebadf, fdrelse fdp new, fs)
    else
      (.ok new,
        { fdp with
          slots := update fdp.slots new { fdp.slots old with exclose := false }
          lastfile := if new > fdp.lastfile then uShort new else fdp.lastfile },
        fileReference fs fp)

/-- What `dup` and `fcntl` with `F_DUPFD` do with the slot that `fdalloc` found. -/
def dupTo (fs : Files) (old : ℕ) : Except Errno ℕ × Filedesc → Outcome
  | (.error e, fdp) => (.error e, fdp, fs)
  | (.ok new, fdp) => finishdup fdp fs old new

def dup (fdp : Filedesc) (fs : Files) (old : ℕ) : Option Outcome :=
  match fdgetf fdp old with
  | none => some (.error .ebadf, fdp, fs)
  | some _ => (fdalloc l fdp 0).map (dupTo fs old)

def fDupfd (fdp : Filedesc) (fs : Files) (fd newmin : ℕ) : Option Outcome :=
  match fdgetf fdp fd with
  | none => some (.error .ebadf, fdp, fs)
  | some _ =>
    if (newmin : ℤ) ≥ l.rlimCur ∨ newmin ≥ l.maxfiles then some (.error .einval, fdp, fs)
    else (fdalloc l fdp newmin).map (dupTo fs fd)

def closeit (fs : Files) (old new : ℕ) : Outcome :=
  let slot := fdp.slots new
  if slot.reserved then (.error .ebadf, fdp, fs)
  else
    let fdp := { fdp with
                 slots := update fdp.slots new
                   { slot with file := none, mapped := false, reserved := true } }
    let fs :=
      match slot.file with
      | none => fs
      | some fp => closef fs fp
    finishdup fdp fs old new

def dup2 (fdp : Filedesc) (fs : Files) (old new : ℕ) : Option Outcome :=
  match fdgetf fdp old with
  | none => some (.error .ebadf, fdp, fs)
  | some _ =>
    if (new : ℤ) ≥ l.rlimCur ∨ new ≥ l.maxfiles then some (.error .ebadf, fdp, fs)
    else if old = new then some (.ok new, fdp, fs)
    else if new ≥ fdp.nfiles then
      (fdalloc l fdp new).map fun
        | (.error e, fdp) => (.error e, fdp, fs)
        | (.ok i, fdp) =>
          if new ≠ i then closeit (fdrelse fdp i) fs old new else finishdup fdp fs old new
    else some (closeit fdp fs old new)

/-- `F_SETFD`. The conditional binds less tightly than `|`, so a flag set before counts as the
argument does. -/
def fSetfd (fs : Files) (fd : ℕ) (arg : Bool) : Outcome :=
  match fdgetf fdp fd with
  | none => (.error .ebadf, fdp, fs)
  | some fp =>
    (.ok 0,
      { fdp with
        slots := update fdp.slots fd ⟨some fp, (fdp.slots fd).mapped || arg, false, false⟩ },
      fs)

def close (fs : Files) (fd : ℕ) : Outcome :=
  match fdgetf fdp fd with
  | none => (.error .ebadf, fdp, fs)
  | some fp => (.ok 0, fdrelse fdp fd, closef fs fp)

/-- `falloc`. If the table of files is full the slot that was found stays reserved. -/
def falloc (fdp : Filedesc) (fs : Files) : Option Outcome :=
  (fdalloc l fdp 0).map fun
    | (.error e, fdp) => (.error e, fdp, fs)
    | (.ok i, fdp) =>
      if fs.nfiles ≥ l.maxfiles then (.error .enfile, fdp, fs)
      else
        (.ok i,
          { fdp with
            slots := update fdp.slots i { fdp.slots i with file := some fs.next } },
          { fs with
            nfiles := fs.nfiles + 1
            fCount := update fs.fCount fs.next 1
            next := fs.next + 1 })

/-- `*fdflags(p, fd) &= ~UF_RESERVED`, when the open that reserved the slot is done. -/
def clearReserved (fd : ℕ) : Filedesc :=
  { fdp with slots := update fdp.slots fd { fdp.slots fd with reserved := false } }

def dupfdopen (fs : Files) (indx dfd : ℕ) (mode : FileMode) (error : Errno) : Outcome :=
  match fdgetf fdp dfd with
  | none => (.error .ebadf, fdp, fs)
  | some wfp =>
    if (fdp.slots indx).file = some wfp then (.error .ebadf, fdp, fs)
    else
      let stuffed := { fdp with
                       lastfile := if indx > fdp.lastfile then uShort indx else fdp.lastfile
                       slots := update fdp.slots indx (fdp.slots dfd) }
      match error with
      | .enodev =>
        if (mode.fread ∧ ¬(fs.fFlag wfp).fread) ∨ (mode.fwrite ∧ ¬(fs.fFlag wfp).fwrite) then
          (.error .eacces, fdp, fs)
        else (.ok indx, stuffed, fileReference fs wfp)
      | .enxio => (.ok indx, fdrelse stuffed dfd, fs)
      | e => (.error e, fdp, fs)

/-- The end of an `open` that failed in `vn_open`; an open of `/dev/fd` asks for `pDupfd` to be
duplicated. -/
def openFailed (fs : Files) (indx : ℕ) (pDupfd : Option ℕ) (mode : FileMode) (error : Errno) :
    Outcome :=
  let fs := ffree fs
  match pDupfd with
  | none => (.error error, fdrelse fdp indx, fs)
  | some dfd =>
    if error = .enodev ∨ error = .enxio then
      match dupfdopen fdp fs indx dfd mode error with
      | (.ok fd, fdp, fs) => (.ok fd, fdp, fs)
      | (.error e, fdp, fs) => (.error e, fdrelse fdp indx, fs)
    else (.error error, fdrelse fdp indx, fs)

def fdexecLoop : ℕ → Filedesc → Files → Filedesc × Files
  | 0, fdp, fs => (fdp, fs)
  | i + 1, fdp, fs =>
    let slot := fdp.slots i
    if slot.exclose ∧ ¬slot.reserved then
      let fdp := { fdp with
                   slots := update fdp.slots i Slot.empty
                   lastfile := if i = fdp.lastfile ∧ i > 0 then fdp.lastfile - 1
                     else fdp.lastfile }
      let fs :=
        match slot.file with
        | none => fs
        | some fp => closef fs fp
      fdexecLoop i fdp fs
    else
      fdexecLoop i
        { fdp with slots := update fdp.slots i { slot with mapped := false } } fs

def fdexec (fs : Files) : Filedesc × Files :=
  fdexecLoop (fdp.lastfile + 1) fdp fs

def shrink (lastfile : ℕ) : ℕ → ℕ → ℕ
  | 0, i => i
  | fuel + 1, i =>
    if i > 2 * ndextent ∧ i > lastfile * 2 then shrink lastfile fuel (i / 2) else i

def copySize : ℕ :=
  if fdp.lastfile < ndfile then ndfile else shrink fdp.lastfile fdp.nfiles fdp.nfiles

/-- Keep a slot that is open; one that is reserved is not copied. -/
def copySlot (s : Slot) : Slot :=
  if s.file ≠ none ∧ ¬s.reserved then s else Slot.empty

def fdcopy (fs : Files) (beyond : ℕ → Slot) : Filedesc × Files :=
  let size := copySize fdp
  if fdp.nfiles > 0 then
    let old := fun i => if i < fdp.nfiles then fdp.slots i else beyond i
    let slots := fun i =>
      if i < size then (if i ≤ fdp.lastfile then copySlot (old i) else old i) else Slot.empty
    ({ fdp with slots := slots, nfiles := size }, (List.range (fdp.lastfile + 1)).foldl
        (fun fs i => match (slots i).file with
          | none => fs
          | some fp => fileReference fs fp) fs)
  else ({ fdp with slots := fun _ => Slot.empty, nfiles := size }, fs)

/-! ### Descriptors in messages -/

def countFree (slots : ℕ → Slot) : ℕ → ℕ → ℤ → Bool
  | 0, _, _ => false
  | k + 1, i, n =>
    if (slots i).Free then n - 1 ≤ 0 || countFree slots k (i + 1) (n - 1)
    else countFree slots k (i + 1) n

def fdavail (n : ℤ) : Bool :=
  let i : ℤ := l.lim - fdp.nfiles
  let n := if i > 0 then n - i else n
  (i > 0 && n ≤ 0) || countFree fdp.slots (fdp.nfiles - fdp.freefile) fdp.freefile n

/-- Calls of `fdalloc` one after the other, `none` if one fails. The slots stay reserved or get
files. -/
def fdallocEach (fdp : Filedesc) : List (Option ℕ) → Option (List ℕ × Filedesc)
  | [] => some ([], fdp)
  | fp :: rights =>
    match fdalloc l fdp 0 with
    | some (.ok f, fdp) =>
      let slot := if fp = none then fdp.slots f
        else { fdp.slots f with file := fp, reserved := false }
      (fdallocEach { fdp with slots := update fdp.slots f slot } rights).map fun r =>
        (f :: r.1, r.2)
    | _ => none

/-- The descriptors for the files of a message; `none` stands for the panic. -/
def unpExternalize (rights : List ℕ) : Option (Except Errno (List ℕ) × Filedesc) :=
  if fdavail l fdp rights.length then
    (fdallocEach l fdp (rights.map some)).map fun r => (.ok r.1, r.2)
  else some (.error (.other 40), fdp)

end Rhapsody.Bsd
