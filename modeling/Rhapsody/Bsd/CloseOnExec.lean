import Rhapsody.Bsd.DescripRuns

/-! The flag `UF_EXCLOSE` over sequences of calls, and what `fdexec` closes. -/

namespace Rhapsody.Bsd

open Function

variable {fdp fdp' : Filedesc} {fs fs' : Files} {slots : ℕ → Slot} {flag flag' : ℕ → Bool}
  {l : Limits} {i old new want : ℕ} {r : Except Errno ℕ} {c : DescCall} {slot : Slot}

/-- The flags as the calls ask for them: `F_SETFD` sets one, and a descriptor that is made or
closed has none. -/
def DescCall.asks (flag : ℕ → Bool) : DescCall → Except Errno ℕ → ℕ → Bool
  | .fSetfd fd arg, .ok _ => update flag fd arg
  | .dup2 old new, .ok fd => if old = new then flag else update flag fd false
  | .falloc, .ok fd | .dup _, .ok fd | .fDupfd .., .ok fd | .openFailed fd .., .ok _
  | .close fd, .ok _ => update flag fd false
  | _, _ => flag

/-- The open of `/dev/fd` goes on with the file of descriptor `dfd`: `vn_open` returned one of the
two errors, and the file is open in the mode that is asked for. -/
def Duplicates (fdp : Filedesc) (fs : Files) (dfd : ℕ) (mode : FileMode) (error : Errno) : Prop :=
  error = .enxio ∨ error = .enodev ∧ ∀ fp ∈ (fdp.slots dfd).file,
    (mode.fread = true → (fs.fFlag fp).fread = true) ∧
      (mode.fwrite = true → (fs.fFlag fp).fwrite = true)

/-- `F_SETFD` is asked for descriptors that are not mapped, and an open of `/dev/fd` that
duplicates a descriptor finds it without the flag. -/
def DescCall.SetsFlag (fdp : Filedesc) (fs : Files) : DescCall → Prop
  | .fSetfd fd _ => (fdp.slots fd).mapped = false
  | .openFailed _ (some dfd) mode error => Duplicates fdp fs dfd mode error →
    (fdp.slots dfd).exclose = false
  | .fdexec => False
  | _ => True

/-- The slots have the flags, and only open descriptors have one. -/
def Agrees (slots : ℕ → Slot) (flag : ℕ → Bool) : Prop :=
  ∀ i, (slots i).exclose = flag i ∧
    (flag i = true → (slots i).file ≠ none ∧ (slots i).reserved = false)

namespace Agrees

variable (h : Agrees slots flag)
include h

lemma set (hopen : slot.exclose = true → slot.file ≠ none ∧ slot.reserved = false) :
    Agrees (update slots i slot) (update flag i slot.exclose) := by
  intro j
  by_cases hj : j = i
  · subst hj
    rw [update_self, update_self]
    exact ⟨rfl, hopen⟩
  · rw [update_of_ne hj, update_of_ne hj]
    exact h j

lemma clear (slot : Slot) (hslot : slot.exclose = false) :
    Agrees (update slots i slot) (update flag i false) := by
  have hset := h.set (i := i) fun hon => Bool.noConfusion (hon.symm.trans hslot)
  rwa [hslot] at hset

lemma keep (hslot : slot.exclose = flag i)
    (hopen : slot.exclose = true → slot.file ≠ none ∧ slot.reserved = false) :
    Agrees (update slots i slot) flag := by
  have hset := h.set (i := i) hopen
  rwa [hslot, update_eq_self] at hset

lemma off (hi : (slots i).file = none ∨ (slots i).reserved = true) : flag i = false := by
  by_contra hon
  obtain ⟨hfile, hres⟩ := (h i).2 (eq_true_of_ne_false hon)
  exact hi.elim hfile fun hi => Bool.noConfusion (hi.symm.trans hres)

end Agrees

section
variable (hok : fdp.Ok) (h : Agrees fdp.slots flag)
include hok h

lemma Agrees.dupTo {fp : ℕ} (hget : fdgetf fdp old = some fp)
    (hrun : (fdalloc l fdp want).map (dupTo fs old) = some (r, fdp', fs')) :
    Agrees fdp'.slots ((DescCall.dup old).asks flag r) := by
  obtain ⟨-, hres, hfile⟩ := fdgetf_some hget
  obtain ⟨r1, fdp1, halloc, hallocates, -⟩ := fdalloc_spec hok l want
  rw [halloc] at hrun
  cases r1 with
  | error e =>
    cases hrun
    exact (hallocates.failed e rfl).symm ▸ h
  | ok new =>
    obtain ⟨-, -, hslots⟩ := hallocates.lowest new rfl
    have hkept := hallocates.kept (not_free_of_file hfile)
    have hdup : finishdup fdp1 fs old new = _ := finishdup_eq (hkept ▸ hfile) (hkept ▸ hres)
    cases (congrArg some hdup).symm.trans hrun
    rw [hslots, update_idem]
    exact h.clear _ rfl

lemma Agrees.falloc (hrun : falloc l fdp fs = some (r, fdp', fs')) :
    Agrees fdp'.slots (DescCall.falloc.asks flag r) := by
  obtain ⟨r1, fdp1, halloc, hallocates, -⟩ := fdalloc_spec hok l 0
  rw [Bsd.falloc, halloc] at hrun
  cases r1 with
  | error e =>
    cases hrun
    exact (hallocates.failed e rfl).symm ▸ h
  | ok i =>
    obtain ⟨hlow, -, hslots⟩ := hallocates.lowest i rfl
    rw [Option.map_some] at hrun
    dsimp only at hrun
    split at hrun <;> cases hrun
    · rw [hslots]
      exact h.keep (h.off (.inl hlow.free.1)).symm fun hon => absurd hon Bool.false_ne_true
    · dsimp only
      rw [hslots, update_idem, update_self]
      exact h.clear _ rfl

lemma Agrees.dup2 (hrun : dup2 l fdp fs old new = some (r, fdp', fs')) :
    Agrees fdp'.slots ((DescCall.dup2 old new).asks flag r) := by
  unfold Bsd.dup2 at hrun
  split at hrun
  · cases hrun
    exact h
  next fp hget =>
    split_ifs at hrun with hlim heq hnew
    · cases hrun
      exact h
    · cases hrun
      show Agrees _ (if old = new then flag else _)
      rwa [if_pos heq]
    · have hdup := h.dupTo hok hget ((dup2_beyond hok l fs old hnew).symm.trans hrun)
      cases r with
      | error e => exact hdup
      | ok fd =>
        show Agrees _ (if old = new then flag else _)
        rwa [if_neg heq]
    · obtain ⟨-, hres, hfile⟩ := fdgetf_some hget
      by_cases hbusy : (fdp.slots new).reserved = true
      · rw [closeit, if_pos hbusy] at hrun
        cases hrun
        exact h
      obtain ⟨fs1, hclose⟩ := closeit_eq fs heq hfile hres hbusy
      rw [hclose] at hrun
      cases hrun
      show Agrees _ (if old = new then flag else _)
      rw [if_neg heq]
      exact h.clear _ rfl

omit hok

lemma Agrees.dupfdopen (fs : Files) {indx dfd : ℕ} {mode : FileMode} {error : Errno}
    (hindx : flag indx = false) (hdfd : Duplicates fdp fs dfd mode error → flag dfd = false) :
    Agrees (dupfdopen fdp fs indx dfd mode error).2.1.slots flag := by
  have hstuffed (hoff : flag dfd = false) : Agrees (update fdp.slots indx (fdp.slots dfd)) flag :=
    h.keep ((h dfd).1.trans (hoff.trans hindx.symm)) ((h dfd).1.symm ▸ (h dfd).2)
  unfold Bsd.dupfdopen
  split
  · exact h
  next wfp hget =>
    split
    · exact h
    dsimp only
    split
    · split
      · exact h
      next hmode =>
        obtain ⟨hread, hwrite⟩ := not_or.1 hmode
        refine hstuffed (hdfd (.inr ⟨rfl, fun fp hfp => ?_⟩))
        cases (fdgetf_some hget).2.2.symm.trans hfp
        exact ⟨fun hask => by_contra fun hnot => hread ⟨hask, hnot⟩,
          fun hask => by_contra fun hnot => hwrite ⟨hask, hnot⟩⟩
    · have hoff := hdfd (.inl rfl)
      exact (hstuffed hoff).keep hoff.symm nofun
    · exact h

lemma Agrees.openFailed {indx : ℕ} {pDupfd : Option ℕ} {mode : FileMode} {error : Errno}
    (hindx : flag indx = false)
    (hsets : (DescCall.openFailed indx pDupfd mode error).SetsFlag fdp fs) :
    Agrees (openFailed fdp fs indx pDupfd mode error).2.1.slots flag := by
  have hfailed : ∀ {slots}, Agrees slots flag → Agrees (update slots indx Slot.empty) flag :=
    fun h => h.keep hindx.symm nofun
  cases pDupfd with
  | none => exact hfailed h
  | some dfd =>
    have hdup := h.dupfdopen (ffree fs) hindx fun hdup => (h dfd).1.symm.trans (hsets hdup)
    unfold Bsd.openFailed
    dsimp only
    split
    · split
      next heq =>
        rw [heq] at hdup
        exact hdup
      next heq =>
        rw [heq] at hdup
        exact hfailed hdup
    · exact hfailed h

include hok

lemma Agrees.call (hproper : c.Proper fdp) (hsets : c.SetsFlag fdp fs)
    (hrun : c.run l fdp fs = some (r, fdp', fs')) : Agrees fdp'.slots (c.asks flag r) := by
  cases c with
  | falloc => exact h.falloc hok hrun
  | clearReserved fd =>
    cases hrun
    have hoff := h.off (.inr hproper.1)
    exact h.keep (h fd).1 fun hon => Bool.noConfusion (hon.symm.trans ((h fd).1.trans hoff))
  | openFailed indx pDupfd mode error =>
    have hoff := h.off (.inr hproper)
    have hopen := h.openFailed hoff hsets
    rw [Option.some.inj hrun] at hopen
    cases r with
    | error e => exact hopen
    | ok fd =>
      show Agrees _ (update flag indx false)
      rwa [← hoff, update_eq_self]
  | dup old =>
    unfold DescCall.run dup at hrun
    dsimp only at hrun
    split at hrun
    · cases hrun
      exact h
    next hget => exact h.dupTo hok hget hrun
  | dup2 old new => exact h.dup2 hok hrun
  | fDupfd fd newmin =>
    unfold DescCall.run fDupfd at hrun
    dsimp only at hrun
    split at hrun
    · cases hrun
      exact h
    next hget =>
      split at hrun
      · cases hrun
        exact h
      have hdup := h.dupTo hok hget hrun
      cases r with
      | error e => exact hdup
      | ok new => exact hdup
  | fSetfd fd arg =>
    unfold DescCall.run fSetfd at hrun
    dsimp only at hrun
    split at hrun
    · cases hrun
      exact h
    · rw [show (fdp.slots fd).mapped = false from hsets] at hrun
      cases hrun
      exact h.set fun _ => ⟨nofun, rfl⟩
  | close fd =>
    unfold DescCall.run close at hrun
    dsimp only at hrun
    split at hrun
    · cases hrun
      exact h
    · cases hrun
      exact h.clear _ rfl
  | fdexec => exact hsets.elim

end

end Rhapsody.Bsd
