import Rhapsody.Bsd.Lockmgr

/-! The lock manager over whole runs. Every count and flag of the lock has threads
behind it, and when the lock becomes free whoever stands in the way of the sleepers is
awake. -/

namespace Rhapsody.Bsd

open List Option

variable {ext : LkExt} {st : LkState} {w : LkWait} {k pid : ℕ} {l : LockBsd} {quiet : Prop}
  {r : LkResult}

namespace LkState

def isShared (st : LkState) : Bool := st = .shared

def isExclusive (st : LkState) : Bool := st = .exclusive

def isWaiting : LkState → Bool
  | .waiting .. => true
  | _ => false

def waitsFor (w : LkWait) : LkState → Bool
  | .waiting w' .. => w' = w
  | _ => false

lemma isShared_wake (st : LkState) : st.wake.isShared = st.isShared := by
  rcases st with _ | _ | _ | ⟨w, ext, _ | e⟩ <;> rfl

lemma isExclusive_wake (st : LkState) : st.wake.isExclusive = st.isExclusive := by
  rcases st with _ | _ | _ | ⟨w, ext, _ | e⟩ <;> rfl

lemma isWaiting_wake (st : LkState) : st.wake.isWaiting = st.isWaiting := by
  rcases st with _ | _ | _ | ⟨w, ext, _ | e⟩ <;> rfl

lemma waitsFor_wake (w : LkWait) (st : LkState) : st.wake.waitsFor w = st.waitsFor w := by
  rcases st with _ | _ | _ | ⟨w, ext, _ | e⟩ <;> rfl

lemma eq_waiting_of_wake {sleep : LkSleep} (h : st.wake = .waiting w ext sleep) :
    ∃ sleep', st = .waiting w ext sleep' := by
  rcases st with _ | _ | _ | ⟨w, ext, _ | e⟩ <;> cases h
  all_goals exact ⟨_, rfl⟩

lemma asleep_wake (st : LkState) : st.wake.Asleep = false := by
  rcases st with _ | _ | _ | ⟨w, ext, _ | e⟩ <;> rfl

end LkState

/-! ## The invariant -/

def lkCount (p : LkState → Bool) (ts : List LkThread) : ℤ := (ts.countP fun t => p t.state : ℕ)

namespace LockBsd

def Blocked (l : LockBsd) : LkWait → Prop
  | .upgrade => False
  | .exclusive => l.wantUpgrade = true
  | .shared | .wantExcl => l.wantUpgrade = true ∨ l.wantExcl = true

def Free (l : LockBsd) : Prop := l.lkSharecount = 0 ∧ l.haveExcl = false

def Apart (l : LockBsd) : Prop := l.haveExcl = true → l.lkSharecount = 0 ∧ l.wantUpgrade = false

structure Counts (l : LockBsd) (ts : List LkThread) : Prop where
  shares : l.lkSharecount = lkCount LkState.isShared ts
  exclusives : l.lkExclusivecount = lkCount LkState.isExclusive ts
  waits : l.lkWaitcount = lkCount LkState.isWaiting ts
  haveExcl : l.haveExcl.toInt = lkCount LkState.isExclusive ts
  wantUpgrade : l.wantUpgrade.toInt = lkCount (LkState.waitsFor .upgrade) ts
  wantExcl : l.wantExcl.toInt = lkCount (LkState.waitsFor .exclusive) ts
  apart : l.Apart
  noWait : ∀ t ∈ ts, ∀ w ext sleep, t.state = .waiting w ext sleep → ext.noWait = false
  settled : l.Free → ∀ t ∈ ts, ∀ w ext, t.state = .waiting w ext .asleep → l.Blocked w

/-- The account of a change of the lock together with the state of one thread. -/
structure Shift (l : LockBsd) (st : LkState) (l' : LockBsd) (st' : LkState) : Prop where
  shares : l'.lkSharecount + st.isShared.toInt = l.lkSharecount + st'.isShared.toInt
  exclusives : l'.lkExclusivecount + st.isExclusive.toInt =
    l.lkExclusivecount + st'.isExclusive.toInt
  haveExcl : l'.haveExcl.toInt + st.isExclusive.toInt = l.haveExcl.toInt + st'.isExclusive.toInt
  wantUpgrade : l'.wantUpgrade.toInt + (st.waitsFor .upgrade).toInt =
    l.wantUpgrade.toInt + (st'.waitsFor .upgrade).toInt
  wantExcl : l'.wantExcl.toInt + (st.waitsFor .exclusive).toInt =
    l.wantExcl.toInt + (st'.waitsFor .exclusive).toInt

structure Named (l : LockBsd) (st : LkState) (l' : LockBsd) (st' : LkState) (pid k : ℕ) :
    Prop where
  taken : st' = .exclusive → l'.Holder pid k
  left : st' ≠ .exclusive → st = .exclusive → l'.lkLockthread = none
  kept : st' ≠ .exclusive → st ≠ .exclusive →
    l'.lkLockthread = l.lkLockthread ∧ l'.lkLockholder = l.lkLockholder

/-- No sleeper is left behind when the lock becomes free: all are woken, there are none,
or the lock was free before and what is in their way has stayed. -/
def Spares (l : LockBsd) (st : LkState) (quiet : Prop) (l' : LockBsd) (wakeup : Bool) : Prop :=
  l'.Free → wakeup = true ∨ quiet ∨ l.lkWaitcount = st.isWaiting.toInt ∨
    l.Free ∧ ∀ w, l.Blocked w → l'.Blocked w

/-- A change of the lock and of the state of one thread, with or without `wakeup`. With `quiet` no
other thread is asleep. -/
structure Move (l : LockBsd) (st : LkState) (pid k : ℕ) (quiet : Prop) (r : LkResult) :
    Prop where
  shift : l.Shift st r.lock r.state
  waits : r.lock.lkWaitcount + st.isWaiting.toInt = l.lkWaitcount + r.state.isWaiting.toInt
  apart : r.lock.Apart
  named : l.Named st r.lock r.state pid k
  noWait : ∀ w ext sleep, r.state = .waiting w ext sleep → ext.noWait = false
  blocked : r.lock.Free → ∀ w ext, r.state = .waiting w ext .asleep → r.lock.Blocked w
  spares : l.Spares st quiet r.lock r.wakeup

lemma spares_wakeup {p : Prop} :
    decide (l.lkWaitcount ≠ 0) = true ∨ quiet ∨ l.lkWaitcount = 0 ∨ p := by
  rcases Decidable.em (l.lkWaitcount = 0) with hnone | hsome
  · exact .inr (.inr (.inl hnone))
  · exact .inl (decide_eq_true hsome)

lemma Move.have_kept (h : l.Move st pid k quiet r) (hst' : r.state ≠ .exclusive)
    (hst : st ≠ .exclusive) : r.lock.haveExcl = l.haveExcl := by
  have hshift := h.shift.haveExcl
  rw [LkState.isExclusive, LkState.isExclusive, decide_eq_false hst, decide_eq_false hst'] at hshift
  cases hr : r.lock.haveExcl <;> cases hl : l.haveExcl <;> rw [hr, hl] at hshift <;>
    first | rfl | cases hshift

lemma Move.not_second (h : l.Move st pid k quiet r) (hhave : l.haveExcl = true)
    (hst : st ≠ .exclusive) : r.state ≠ .exclusive := by
  intro hst'
  have hshift := h.shift.haveExcl
  rw [LkState.isExclusive, LkState.isExclusive, decide_eq_false hst, decide_eq_true hst',
    hhave] at hshift
  cases hr : r.lock.haveExcl <;> rw [hr] at hshift <;> cases hshift

end LockBsd

def woken (wakeup : Bool) (ts : List LkThread) : List LkThread :=
  if wakeup then ts.map LkThread.wake else ts

variable {ts' : List LkThread}

section
variable {wakeup : Bool} {ts rest : List LkThread} {t u : LkThread} {p : LkState → Bool}

lemma lkCount_perm (h : ts.Perm ts') : lkCount p ts = lkCount p ts' := by
  unfold lkCount
  rw [h.countP_eq]

lemma lkCount_cons : lkCount p (t :: ts) = lkCount p ts + (p t.state).toInt := by
  unfold lkCount
  rw [countP_cons]
  cases p t.state <;> simp

lemma lkCount_woken (hp : ∀ st, p st.wake = p st) : lkCount p (woken wakeup ts) = lkCount p ts := by
  unfold woken lkCount
  split_ifs
  · rw [countP_map]
    exact congrArg _ (countP_congr fun t _ => by simp [LkThread.wake, hp])
  · rfl

lemma lkCount_pos (hu : u ∈ ts) (hp : p u.state = true) : 0 < lkCount p ts := by
  unfold lkCount
  exact_mod_cast countP_pos_iff.2 ⟨u, hu, hp⟩

lemma lkCount_nonneg : 0 ≤ lkCount p ts := Int.natCast_nonneg _

lemma mem_woken (h : u ∈ woken wakeup ts) : ∃ v ∈ ts, u = if wakeup then v.wake else v := by
  unfold woken at h
  split_ifs at h ⊢
  · obtain ⟨v, hv, rfl⟩ := mem_map.1 h
    exact ⟨v, hv, rfl⟩
  · exact ⟨u, h, rfl⟩

lemma asleep_woken (hu : u ∈ woken wakeup ts) (hst : u.state = .waiting w ext .asleep) :
    wakeup = false ∧ u ∈ ts := by
  obtain ⟨v, hv, rfl⟩ := mem_woken hu
  cases wakeup with
  | false => exact ⟨rfl, hv⟩
  | true =>
    have hawake := v.state.asleep_wake
    have hstate : v.state.wake = .waiting w ext .asleep := hst
    rw [hstate] at hawake
    cases hawake

lemma lkCount_move (hp : ∀ st, p st.wake = p st) {n n' : ℤ} {st' : LkState}
    (h : n = lkCount p (t :: rest)) (hm : n' + (p t.state).toInt = n + (p st').toInt) :
    n' = lkCount p ({ t with state := st' } :: woken wakeup rest) := by
  rw [lkCount_cons] at h ⊢
  rw [lkCount_woken hp]
  dsimp only
  omega

end

namespace LockBsd

namespace Counts

variable {t : LkThread} {rest ts : List LkThread}

lemma perm (h : l.Counts ts) (hp : ts.Perm ts') : l.Counts ts' where
  shares := h.shares.trans (lkCount_perm hp)
  exclusives := h.exclusives.trans (lkCount_perm hp)
  waits := h.waits.trans (lkCount_perm hp)
  haveExcl := h.haveExcl.trans (lkCount_perm hp)
  wantUpgrade := h.wantUpgrade.trans (lkCount_perm hp)
  wantExcl := h.wantExcl.trans (lkCount_perm hp)
  apart := h.apart
  noWait t ht := h.noWait t (hp.mem_iff.2 ht)
  settled hfree t ht := h.settled hfree t (hp.mem_iff.2 ht)

lemma move (h : l.Counts (t :: rest)) (hm : l.Move t.state pid k quiet r)
    (hquiet : quiet → ∀ u ∈ rest, u.state.Asleep = false) :
    r.lock.Counts ({ t with state := r.state } :: woken r.wakeup rest) := by
  refine ⟨lkCount_move LkState.isShared_wake h.shares hm.shift.shares,
    lkCount_move LkState.isExclusive_wake h.exclusives hm.shift.exclusives,
    lkCount_move LkState.isWaiting_wake h.waits hm.waits,
    lkCount_move LkState.isExclusive_wake h.haveExcl hm.shift.haveExcl,
    lkCount_move (LkState.waitsFor_wake _) h.wantUpgrade hm.shift.wantUpgrade,
    lkCount_move (LkState.waitsFor_wake _) h.wantExcl hm.shift.wantExcl, hm.apart, ?_, ?_⟩
  · intro u hu w ext sleep hst
    rcases mem_cons.1 hu with rfl | hu
    · exact hm.noWait w ext sleep hst
    obtain ⟨v, hv, rfl⟩ := mem_woken hu
    obtain ⟨sleep', hst'⟩ : ∃ sleep', v.state = .waiting w ext sleep' := by
      cases hw : r.wakeup with
      | false => exact ⟨sleep, by simpa [hw] using hst⟩
      | true => exact LkState.eq_waiting_of_wake (by simpa [hw, LkThread.wake] using hst)
    exact h.noWait v (mem_cons_of_mem _ hv) w ext sleep' hst'
  intro hfree u hu w ext hst
  rcases mem_cons.1 hu with rfl | hu
  · exact hm.blocked hfree w ext hst
  obtain ⟨hwakeup, hu⟩ := asleep_woken hu hst
  rcases hm.spares hfree with hw | hq | hwaits | ⟨hfree', hblocked⟩
  · cases hwakeup.symm.trans hw
  · have hasleep := hquiet hq u hu
    rw [hst] at hasleep
    cases hasleep
  · have hcount := h.waits
    rw [lkCount_cons, hwaits] at hcount
    have hpos : 0 < lkCount LkState.isWaiting rest := lkCount_pos hu (by rw [hst]; rfl)
    omega
  · exact hblocked w (h.settled hfree' u (mem_cons_of_mem _ hu) w ext hst)

end Counts

/-! ## What the parts of `lockmgr` do -/

structure Sound (l : LockBsd) : Prop where
  shares : 0 ≤ l.lkSharecount
  exclusives : l.lkExclusivecount = l.haveExcl.toInt
  apart : l.Apart

/-- An attempt to take the lock: the thread holds it, or it sleeps or gives up and leaves the lock
as it was. -/
structure Taken (l : LockBsd) (st : LkState) (pid k : ℕ) (ext : LkExt) (wanted : Prop)
    (r : LkResult) : Prop where
  shift : l.Shift st r.lock r.state
  waits : r.lock.lkWaitcount = l.lkWaitcount + r.state.isWaiting.toInt
  apart : r.lock.Apart
  named : l.Named .idle r.lock r.state pid k
  sleeps : ∀ w e sleep, r.state = .waiting w e sleep → e = ext ∧ wanted
  blocked : r.lock.Free → ∀ w ext, r.state = .waiting w ext .asleep → r.lock.Blocked w
  free : r.lock.Free → l.Free ∧ ∀ w, l.Blocked w → r.lock.Blocked w

variable {l1 : LockBsd} {st1 : LkState} {wanted : Prop}

section
variable (pid k : ℕ) (ext : LkExt) (wakeup : Bool)

lemma sleep_taken (h : l.Sound) (hshift : l.Shift st l (.waiting w ext .asleep))
    (hwanted : wanted) (hblocked : l.Free → l.Blocked w) :
    l.Taken st pid k ext wanted (l.sleep ext wakeup w) := by
  refine ⟨⟨hshift.1, hshift.2, hshift.3, hshift.4, hshift.5⟩, rfl, h.apart,
    ⟨nofun, nofun, fun _ _ => ⟨rfl, rfl⟩⟩, ?_, ?_, fun hfree => ⟨hfree, fun w hw => hw⟩⟩
  · rintro w e sleep ⟨⟩
    exact ⟨rfl, hwanted⟩
  · rintro hfree w ext ⟨⟩
    exact hblocked hfree

lemma takeShared_taken (h : l.Sound) :
    l.Taken .idle pid k ext (l.Claimed = true) (l.takeShared ext wakeup) := by
  unfold takeShared
  split_ifs with hclaimed
  · refine sleep_taken pid k ext wakeup h ⟨rfl, rfl, rfl, rfl, rfl⟩ hclaimed ?_
    rintro ⟨-, hexcl⟩
    rw [Claimed, hexcl, Bool.false_or, Bool.or_eq_true] at hclaimed
    exact hclaimed.symm
  have hexcl : l.haveExcl = false := by
    simp only [Claimed, Bool.or_eq_true, not_or, Bool.not_eq_true] at hclaimed
    exact hclaimed.1.1
  refine ⟨⟨Int.add_zero _, rfl, rfl, rfl, rfl⟩, (Int.add_zero _).symm, ?_,
    ⟨nofun, nofun, fun _ _ => ⟨rfl, rfl⟩⟩, nofun, nofun, ?_⟩
  · intro hhave
    cases hexcl.symm.trans hhave
  rintro ⟨hshares, -⟩
  have := h.shares
  dsimp only at hshares
  omega

lemma Shift.trans {l2 : LockBsd} {st2 : LkState} (h : l.Shift st l1 st1)
    (h' : l1.Shift st1 l2 st2) : l.Shift st l2 st2 := by
  obtain ⟨h1, h2, h3, h4, h5⟩ := h
  obtain ⟨h1', h2', h3', h4', h5'⟩ := h'
  exact ⟨by omega, by omega, by omega, by omega, by omega⟩

lemma Sound.exclusives_zero (h : l.Sound) (hexcl : l.haveExcl = false) :
    l.lkExclusivecount = 0 := by
  rw [h.exclusives, hexcl]
  rfl

lemma Sound.not_have (h : l.Sound) (hupgrade : l.wantUpgrade = true) : l.haveExcl = false := by
  by_contra hhave
  have := (h.apart (eq_true_of_ne_false hhave)).2
  cases hupgrade.symm.trans this

lemma haveExclusive_taken (hshift : l.Shift st l1 .idle) (hwaits : l1.lkWaitcount = l.lkWaitcount)
    (hcount : l1.lkExclusivecount = 0) (hexcl : l1.haveExcl = false) (hshares : l1.lkSharecount = 0)
    (hupgrade : l1.wantUpgrade = false) :
    ∃ r, l1.haveExclusive pid k wakeup = .ok r ∧ r.wakeup = wakeup ∧ ¬r.lock.Free ∧
      l.Taken st pid k ext wanted r := by
  unfold haveExclusive
  rw [if_neg (not_not.2 hcount)]
  refine ⟨_, rfl, rfl, nofun, hshift.trans ⟨rfl, ?_, ?_, rfl, rfl⟩,
    hwaits.trans (Int.add_zero _).symm, fun _ => ⟨hshares, hupgrade⟩,
    ⟨fun _ => ⟨rfl, rfl⟩, fun h => absurd rfl h, fun h => absurd rfl h⟩, nofun, nofun, nofun⟩
  · rw [hcount]
    rfl
  · rw [hexcl]
    rfl

lemma takeUpgrade_taken (h : l.Sound) (hupgrade : l.wantUpgrade = true) :
    ∃ r, l.takeUpgrade pid k ext wakeup = .ok r ∧ r.wakeup = wakeup ∧ ¬r.lock.Free ∧
      l.Taken (.waiting .upgrade ext .asleep) pid k ext (l.lkSharecount ≠ 0) r := by
  unfold takeUpgrade
  split_ifs with hshares
  · have hfree : ¬l.Free := fun hfree => hshares hfree.1
    exact ⟨_, rfl, rfl, hfree, sleep_taken pid k ext wakeup h ⟨rfl, rfl, rfl, rfl, rfl⟩ hshares
      fun h => absurd h hfree⟩
  have hexcl := h.not_have hupgrade
  have hshift : l.Shift (.waiting .upgrade ext .asleep) { l with wantUpgrade := false } .idle :=
    ⟨rfl, rfl, rfl, by rw [hupgrade]; rfl, rfl⟩
  exact haveExclusive_taken pid k ext wakeup hshift rfl (h.exclusives_zero hexcl) hexcl
    (not_not.1 hshares) rfl

lemma takeExclusive_taken (h : l.Sound) (hwant : l.wantExcl = true)
    (hexcl : l.lkSharecount = 0 → l.wantUpgrade = false → l.haveExcl = false) :
    ∃ r, l.takeExclusive pid k ext wakeup = .ok r ∧ r.wakeup = wakeup ∧
      l.Taken (.waiting .exclusive ext .asleep) pid k ext
        (l.lkSharecount ≠ 0 ∨ l.wantUpgrade = true) r := by
  unfold takeExclusive
  split_ifs with hwanted
  · exact ⟨_, rfl, rfl, sleep_taken pid k ext wakeup h ⟨rfl, rfl, rfl, rfl, rfl⟩ hwanted
      fun hfree => hwanted.resolve_left (not_not.2 hfree.1)⟩
  obtain ⟨hshares, hupgrade⟩ := not_or.1 hwanted
  have hshares := not_not.1 hshares
  have hupgrade := eq_false_of_ne_true hupgrade
  have hexcl := hexcl hshares hupgrade
  have hshift : l.Shift (.waiting .exclusive ext .asleep) { l with wantExcl := false } .idle :=
    ⟨rfl, rfl, rfl, rfl, by rw [hwant]; rfl⟩
  obtain ⟨r, hr, hwakeup, -, htaken⟩ := haveExclusive_taken pid k ext wakeup hshift rfl
    (h.exclusives_zero hexcl) hexcl hshares hupgrade
  exact ⟨r, hr, hwakeup, htaken⟩

lemma takeWantExcl_taken (h : l.Sound) :
    ∃ r, l.takeWantExcl pid k ext wakeup = .ok r ∧ r.wakeup = wakeup ∧
      l.Taken .idle pid k ext (l.Claimed = true ∨ l.lkSharecount ≠ 0) r := by
  unfold takeWantExcl
  split_ifs with hclaimed
  · refine ⟨_, rfl, rfl, sleep_taken pid k ext wakeup h ⟨rfl, rfl, rfl, rfl, rfl⟩
      (.inl (by rw [Claimed, hclaimed, Bool.true_or])) ?_⟩
    rintro ⟨-, hexcl⟩
    rw [hexcl, Bool.false_or] at hclaimed
    exact .inr hclaimed
  obtain ⟨hexcl, hwant⟩ := Bool.or_eq_false_iff.1 (eq_false_of_ne_true hclaimed)
  have h1 : Sound { l with wantExcl := true } := ⟨h.shares, h.exclusives, h.apart⟩
  obtain ⟨r, hr, hwakeup, htaken⟩ := takeExclusive_taken pid k ext wakeup h1 rfl fun _ _ => hexcl
  have hshift : l.Shift .idle { l with wantExcl := true } (.waiting .exclusive ext .asleep) :=
    ⟨rfl, rfl, rfl, rfl, by rw [hwant]; rfl⟩
  refine ⟨r, hr, hwakeup, hshift.trans htaken.shift, htaken.waits, htaken.apart,
    ⟨htaken.named.taken, htaken.named.left, htaken.named.kept⟩, ?_, htaken.blocked, ?_⟩
  · intro w e sleep hstate
    obtain ⟨he, hwanted⟩ := htaken.sleeps w e sleep hstate
    refine ⟨he, hwanted.symm.imp_left fun hupgrade => ?_⟩
    have hupgrade : l.wantUpgrade = true := hupgrade
    rw [Claimed, hupgrade, Bool.or_true]
  intro hfree
  obtain ⟨hfree1, hblocked⟩ := htaken.free hfree
  refine ⟨hfree1, fun w hw => hblocked w ?_⟩
  cases w with
  | upgrade => exact hw
  | exclusive => exact hw
  | shared => exact .inr rfl
  | wantExcl => exact .inr rfl

lemma fail_taken (h : l.Sound) (error : LkError) (wanted : Prop) :
    l.Taken .idle pid k ext wanted (l.fail wakeup error) :=
  ⟨⟨rfl, rfl, rfl, rfl, rfl⟩, (Int.add_zero _).symm, h.apart,
    ⟨nofun, nofun, fun _ _ => ⟨rfl, rfl⟩⟩, nofun, nofun, fun hfree => ⟨hfree, fun _ hw => hw⟩⟩

variable {pid k ext} in
lemma Taken.weaken {wanted' : Prop} (h : l.Taken st pid k ext wanted r) (hw : wanted → wanted') :
    l.Taken st pid k ext wanted' r :=
  { h with sleeps := fun _ _ _ hst => (h.sleeps _ _ _ hst).imp_right hw }

lemma lkExclusive_taken (h : l.Sound) (hholder : ¬l.Holder pid k) :
    ∃ r, l.lkExclusive pid k ext wakeup = .ok r ∧ r.wakeup = wakeup ∧
      l.Taken .idle pid k ext (ext.noWait = false) r := by
  unfold lkExclusive
  rw [if_neg hholder]
  split_ifs with hnowait
  · exact ⟨_, rfl, rfl, fail_taken pid k ext wakeup h .busy _⟩
  obtain ⟨r, hr, hwakeup, htaken⟩ := takeWantExcl_taken pid k ext wakeup h
  refine ⟨r, hr, hwakeup, htaken.weaken fun hwanted => ?_⟩
  by_contra hwait
  apply hnowait
  simpa [eq_true_of_ne_false hwait] using hwanted

lemma lkShared_taken (h : l.Sound) (hholder : ¬l.Holder pid k) :
    ∃ r, l.lkShared pid k ext = .ok r ∧ l.Taken .idle pid k ext (ext.noWait = false) r := by
  unfold lkShared
  rw [if_pos hholder]
  split_ifs with hnowait
  · exact ⟨_, rfl, fail_taken pid k ext false h .busy _⟩
  refine ⟨_, rfl, (takeShared_taken pid k ext false h).weaken fun hwanted => ?_⟩
  by_contra hwait
  apply hnowait
  simpa [eq_true_of_ne_false hwait] using hwanted

end

lemma Taken.move (h : l1.Taken st1 pid k ext wanted r) (hshift : l.Shift st l1 st1)
    (hwaits : l1.lkWaitcount + st.isWaiting.toInt = l.lkWaitcount)
    (hthread : l1.lkLockthread = l.lkLockthread) (hholder : l1.lkLockholder = l.lkLockholder)
    (hst : st ≠ .exclusive) (hwanted : wanted → ext.noWait = false)
    (hspares : r.lock.Free → l1.Free →
      r.wakeup = true ∨ quiet ∨ l.lkWaitcount = st.isWaiting.toInt ∨ l.Free ∧ ∀ w, l.Blocked w →
      l1.Blocked w) :
    l.Move st pid k quiet r where
  shift := hshift.trans h.shift
  waits := by
    have := h.waits
    omega
  apart := h.apart
  named := by
    refine ⟨h.named.taken, fun _ hst' => absurd hst' hst, fun hst' _ => ?_⟩
    have hkept := h.named.kept hst' nofun
    exact ⟨hkept.1.trans hthread, hkept.2.trans hholder⟩
  noWait w e sleep hstate := by
    obtain ⟨rfl, hw⟩ := h.sleeps w e sleep hstate
    exact hwanted hw
  blocked := h.blocked
  spares := by
    intro hfree
    obtain ⟨hfree1, hblocked⟩ := h.free hfree
    apply (hspares hfree hfree1).imp_right fun hrest => ?_
    apply hrest.imp_right fun hrest => ?_
    exact hrest.imp_right fun ⟨hl, hkeep⟩ => ⟨hl, fun w hw => hblocked w (hkeep w hw)⟩

structure Known (l : LockBsd) (st : LkState) (pid k : ℕ) : Prop extends l.Sound where
  holder : l.Holder pid k ↔ st = .exclusive
  shared : st = .shared → 0 < l.lkSharecount
  exclusive : st = .exclusive → l.haveExcl = true
  upgrade : st.waitsFor .upgrade = true → l.wantUpgrade = true
  wantExcl : st.waitsFor .exclusive = true → l.wantExcl = true
  noWait : ∀ w ext sleep, st = .waiting w ext sleep → ext.noWait = false

/-- The condition on a step. An upgrade that may not wait does not find one other share, a request
does not give up the last claim on a lock that others sleep for, and one that has set `LK_WANT_EXCL`
does not come back to a lock that has been upgraded. -/
def Proper (l : LockBsd) (st : LkState) (quiet : Prop) : LkOp → Prop
  | .request .upgrade flags => (flags.or l.ext).noWait = true →
    if l.wantUpgrade then l.lkSharecount = 1 → quiet else l.lkSharecount ≠ 2
  | .request .exclupgrade flags =>
    if l.wantUpgrade then l.lkSharecount = 1 → quiet
    else (flags.or l.ext).noWait = true → l.lkSharecount ≠ 2
  | .resume => match st with
    | .waiting .upgrade ext (.awake error) =>
      (error || ext.sleepFail) = true → l.lkSharecount = 0 → quiet
    | .waiting .exclusive ext (.awake error) => l.lkSharecount = 0 → l.wantUpgrade = false →
      if error || ext.sleepFail then l.haveExcl = false → quiet else l.haveExcl = false
    | _ => True
  | _ => True

instance Proper.decidable (l : LockBsd) (st : LkState) (quiet : Prop) [Decidable quiet]
    (op : LkOp) : Decidable (l.Proper st quiet op) := by
  unfold Proper
  repeat' split
  all_goals infer_instance

/-! ## Requests -/

lemma Known.exclusives_one (h : l.Known .exclusive pid k) : l.lkExclusivecount = 1 := by
  rw [h.exclusives, h.exclusive rfl]
  rfl

lemma Known.shared_have (h : l.Known .shared pid k) : l.haveExcl = false := by
  by_contra hhave
  have hshares := (h.apart (eq_true_of_ne_false hhave)).1
  have := h.shared rfl
  omega

lemma Taken.idle_move (h : l.Taken .idle pid k ext (ext.noWait = false) r) :
    l.Move .idle pid k quiet r :=
  h.move ⟨rfl, rfl, rfl, rfl, rfl⟩ (Int.add_zero _) rfl rfl nofun id
    fun _ hfree => .inr (.inr (.inr ⟨hfree, fun _ hw => hw⟩))

lemma lkDowngrade_move (h : l.Known .exclusive pid k) :
    ∃ r, l.lkDowngrade pid k = .ok r ∧ l.Move .exclusive pid k quiet r := by
  have hone := h.exclusives_one
  have hshares := (h.apart (h.exclusive rfl)).1
  have hgo : ¬(¬l.Holder pid k ∨ l.lkExclusivecount = 0) := by
    rw [not_or, not_not, hone]
    exact ⟨h.holder.2 rfl, nofun⟩
  unfold lkDowngrade
  rw [if_neg hgo]
  refine ⟨_, rfl, ⟨?_, ?_, ?_, rfl, rfl⟩, rfl, nofun,
    ⟨nofun, fun _ _ => rfl, fun _ h => absurd rfl h⟩, nofun, nofun, ?_⟩
  · rw [hone]
    exact Int.add_zero _
  · rw [hone]
    rfl
  · rw [h.exclusive rfl]
    rfl
  rintro ⟨hfree, -⟩
  dsimp only at hfree
  omega

section
variable (h : l.Known .shared pid k)
include h

lemma dropped_move (error : LkError) (hquiet : l.lkSharecount = 1 → quiet) :
    l.Move .shared pid k quiet
      (fail { l with lkSharecount := l.lkSharecount - 1 } false error) := by
  refine ⟨⟨?_, rfl, rfl, rfl, rfl⟩, rfl, ?_, ⟨nofun, nofun, fun _ _ => ⟨rfl, rfl⟩⟩, nofun, nofun,
    ?_⟩
  · show l.lkSharecount - 1 + 1 = l.lkSharecount + 0
    omega
  · intro hhave
    cases h.shared_have.symm.trans hhave
  rintro ⟨hshares, -⟩
  have hshares : l.lkSharecount - 1 = 0 := hshares
  exact .inr (.inl (hquiet (by omega)))

lemma lkUpgrade_move (hproper : ext.noWait = true → if l.wantUpgrade then l.lkSharecount = 1 →
      quiet else l.lkSharecount ≠ 2) :
    ∃ r, l.lkUpgrade pid k ext = .ok r ∧ l.Move .shared pid k quiet r := by
  have hshares := h.shared rfl
  have hholder : ¬l.Holder pid k := fun hh => nomatch h.holder.1 hh
  have hgo : ¬(l.Holder pid k ∨ l.lkSharecount ≤ 0) := not_or.2 ⟨hholder, by omega⟩
  have hapart : l.haveExcl = false := h.shared_have
  unfold lkUpgrade
  rw [if_neg hgo]
  dsimp only
  have h1 : Sound { l with lkSharecount := l.lkSharecount - 1 } := by
    refine ⟨by dsimp only; omega, h.exclusives, fun hhave => ?_⟩
    cases hapart.symm.trans hhave
  have hshift : l.Shift .shared { l with lkSharecount := l.lkSharecount - 1 } .idle := by
    refine ⟨?_, rfl, rfl, rfl, rfl⟩
    show l.lkSharecount - 1 + 1 = l.lkSharecount + 0
    omega
  split_ifs with hnowait hupgrade
  · refine ⟨_, rfl, dropped_move h .busy fun hone => ?_⟩
    simp only [Bool.and_eq_true, Bool.or_eq_true, decide_eq_true_eq] at hnowait
    have hupgrade := hnowait.2.resolve_right (by omega)
    have hquiet := hproper hnowait.1
    rw [if_pos hupgrade] at hquiet
    exact hquiet hone
  · -- The upgrade is this thread's.
    have hupgrade : l.wantUpgrade = false := by simpa using hupgrade
    have h2 : Sound { l with lkSharecount := l.lkSharecount - 1, wantUpgrade := true } :=
      ⟨h1.shares, h1.exclusives, fun hhave => by cases hapart.symm.trans hhave⟩
    obtain ⟨r, hr, -, hfree, htaken⟩ := takeUpgrade_taken pid k ext false h2 rfl
    have hshift2 : l.Shift .shared
        { l with lkSharecount := l.lkSharecount - 1, wantUpgrade := true }
        (.waiting .upgrade ext .asleep) :=
      hshift.trans ⟨rfl, rfl, rfl, by dsimp only; rw [hupgrade]; rfl, rfl⟩
    refine ⟨r, hr, htaken.move hshift2 (Int.add_zero _) rfl rfl nofun ?_ fun h => absurd h hfree⟩
    intro hmore
    have hmore : l.lkSharecount - 1 ≠ 0 := hmore
    by_contra hwait
    have hwait := eq_true_of_ne_false hwait
    have htwo := hproper hwait
    rw [hupgrade, if_neg nofun] at htwo
    simp only [hwait, hupgrade, Bool.true_and, Bool.false_or, decide_eq_true_eq] at hnowait
    omega
  -- Another thread upgrades, and this one queues as an exclusive request.
  obtain ⟨r, hr, hwakeup, htaken⟩ := lkExclusive_taken pid k ext
    (decide (l.lkSharecount - 1 = 0 ∧ l.lkWaitcount ≠ 0)) h1 hholder
  refine ⟨r, hr, htaken.move hshift (Int.add_zero _) rfl rfl nofun id fun _ hfree => ?_⟩
  rcases Decidable.em (l.lkWaitcount = 0) with hnone | hsome
  · exact .inr (.inr (.inl hnone))
  · rw [hwakeup]
    exact .inl (decide_eq_true ⟨hfree.1, hsome⟩)

lemma lkExclupgrade_move
    (hproper : if l.wantUpgrade then l.lkSharecount = 1 → quiet else ext.noWait = true →
      l.lkSharecount ≠ 2) :
    ∃ r, l.lkExclupgrade pid k ext = .ok r ∧ l.Move .shared pid k quiet r := by
  unfold lkExclupgrade
  split_ifs at hproper ⊢ with hupgrade
  · exact ⟨_, rfl, dropped_move h .busy hproper⟩
  apply lkUpgrade_move h
  rw [if_neg hupgrade]
  exact hproper

lemma lkRelease_shared : ∃ r, l.lkRelease pid k = .ok r ∧ l.Move .shared pid k quiet r := by
  have hshares := h.shared rfl
  have hzero : l.lkExclusivecount = 0 := h.exclusives_zero h.shared_have
  unfold lkRelease
  rw [if_neg (not_not.2 hzero), if_pos (by omega)]
  have hmove : l.Move .shared pid k True _ := dropped_move h .busy fun _ => trivial
  exact ⟨_, rfl, hmove.shift, hmove.waits, hmove.apart, hmove.named, nofun, nofun,
    fun _ => spares_wakeup⟩

end

lemma lkRelease_exclusive (h : l.Known .exclusive pid k) :
    ∃ r, l.lkRelease pid k = .ok r ∧ l.Move .exclusive pid k quiet r := by
  have hone := h.exclusives_one
  unfold lkRelease
  rw [if_pos (by rw [hone]; exact nofun), if_neg (not_not.2 (h.holder.2 rfl)),
    if_pos (by rw [hone]; rfl)]
  refine ⟨_, rfl, ⟨rfl, ?_, ?_, rfl, rfl⟩, rfl, nofun,
    ⟨nofun, fun _ _ => rfl, fun _ h => absurd rfl h⟩, nofun, nofun, fun _ => spares_wakeup⟩
  · show l.lkExclusivecount - 1 + 1 = l.lkExclusivecount + 0
    omega
  · rw [h.exclusive rfl]
    rfl

lemma lockmgr_move (r : LkRequest) (flags : LkExt) (h : l.Known st pid k)
    (hallows : st.Allows r = true) (hproper : l.Proper st quiet (.request r flags)) :
    ∃ x, l.lockmgr r flags pid k = .ok x ∧ l.Move st pid k quiet x := by
  unfold lockmgr
  cases r with
  | shared =>
    obtain rfl : st = .idle := of_decide_eq_true hallows
    obtain ⟨x, hx, htaken⟩ :=
      lkShared_taken pid k (flags.or l.ext) h.toSound fun hh => nomatch h.holder.1 hh
    exact ⟨x, hx, htaken.idle_move⟩
  | exclusive =>
    obtain rfl : st = .idle := of_decide_eq_true hallows
    obtain ⟨x, hx, -, htaken⟩ :=
      lkExclusive_taken pid k (flags.or l.ext) false h.toSound fun hh => nomatch h.holder.1 hh
    exact ⟨x, hx, htaken.idle_move⟩
  | upgrade =>
    obtain rfl : st = .shared := of_decide_eq_true hallows
    exact lkUpgrade_move h hproper
  | exclupgrade =>
    obtain rfl : st = .shared := of_decide_eq_true hallows
    exact lkExclupgrade_move h hproper
  | downgrade =>
    obtain rfl : st = .exclusive := of_decide_eq_true hallows
    exact lkDowngrade_move h
  | release =>
    rcases of_decide_eq_true hallows with rfl | rfl
    · exact lkRelease_shared h
    · exact lkRelease_exclusive h

/-! ## Behind a sleep -/

variable {error : Bool}

lemma ended_move (h : l.Known (.waiting w ext (.awake error)) pid k) (why : LkError)
    {upgrade excl : Bool}
    (hupgrade : upgrade.toInt + (decide (w = .upgrade)).toInt = l.wantUpgrade.toInt)
    (hexcl : excl.toInt + (decide (w = .exclusive)).toInt = l.wantExcl.toInt)
    (hquiet : l.Free → quiet ∨
      ∀ w, l.Blocked w → Blocked { l with wantUpgrade := upgrade, wantExcl := excl } w) :
    l.Move (.waiting w ext (.awake error)) pid k quiet
      (fail { l with lkWaitcount := l.lkWaitcount - 1, wantUpgrade := upgrade, wantExcl := excl }
        false why) := by
  refine ⟨⟨rfl, rfl, rfl, ?_, ?_⟩, ?_, ?_, ⟨nofun, nofun, fun _ _ => ⟨rfl, rfl⟩⟩, nofun, nofun, ?_⟩
  · exact hupgrade.trans (Int.add_zero _).symm
  · exact hexcl.trans (Int.add_zero _).symm
  · show l.lkWaitcount - 1 + 1 = l.lkWaitcount + 0
    omega
  · intro hhave
    obtain ⟨hshares, hnone⟩ := h.apart hhave
    rw [hnone] at hupgrade
    refine ⟨hshares, ?_⟩
    cases upgrade with
    | false => rfl
    | true => cases w <;> cases hupgrade
  intro hfree
  rcases hquiet hfree with hq | hkeep
  · exact .inr (.inl hq)
  refine .inr (.inr (.inr ⟨hfree, fun w hw => ?_⟩))
  have hkept := hkeep w hw
  cases w <;> exact hkept

lemma Taken.resumed (hwait : ext.noWait = false)
    (h : Taken { l with lkWaitcount := l.lkWaitcount - 1 } st pid k ext wanted r)
    (hshift : l.Shift (.waiting w ext
      (.awake error)) { l with lkWaitcount := l.lkWaitcount - 1 } st) :
    l.Move (.waiting w ext (.awake error)) pid k quiet r :=
  h.move hshift (Int.sub_add_cancel _ _) rfl rfl nofun (fun _ => hwait)
    fun _ hfree => .inr (.inr (.inr ⟨hfree, fun _ hw => hw⟩))

lemma resume_move (h : l.Known (.waiting w ext (.awake error)) pid k)
    (hproper : l.Proper (.waiting w ext (.awake error)) quiet .resume) :
    ∃ r, l.resume pid k ext w error = .ok r ∧
      l.Move (.waiting w ext (.awake error)) pid k quiet r := by
  have h1 : Sound { l with lkWaitcount := l.lkWaitcount - 1 } := ⟨h.shares, h.exclusives, h.apart⟩
  have hwait : ext.noWait = false := h.noWait w ext _ rfl
  have hkeep : l.Free → (quiet ∨ ∀ w, l.Blocked w → l.Blocked w) := fun _ => .inr fun _ hw => hw
  unfold resume
  cases hfails : error || ext.sleepFail with
  | true =>
    rw [if_pos rfl]
    cases w with
    | shared | wantExcl => exact ⟨_, rfl, ended_move h _ (Int.add_zero _) (Int.add_zero _) hkeep⟩
    | upgrade =>
      have hupgrade := h.upgrade rfl
      refine ⟨_, rfl, ended_move h _ ?_ (Int.add_zero _) fun hfree => .inl (hproper hfails hfree.1)⟩
      rw [hupgrade]
      rfl
    | exclusive =>
      have hexcl := h.wantExcl rfl
      refine ⟨_, rfl, ended_move h _ (Int.add_zero _) ?_ fun hfree => ?_⟩
      · rw [hexcl]
        rfl
      cases hupgrade : l.wantUpgrade with
      | false =>
        have hquiet := hproper hfree.1 hupgrade
        rw [if_pos hfails] at hquiet
        exact .inl (hquiet hfree.2)
      | true =>
        refine .inr fun w hw => ?_
        cases w with
        | upgrade => exact hw
        | exclusive => rfl
        | shared => exact .inl rfl
        | wantExcl => exact .inl rfl
  | false =>
    rw [if_neg nofun]
    cases w with
    | shared =>
      exact ⟨_, rfl, (takeShared_taken pid k ext false h1).resumed hwait ⟨rfl, rfl, rfl, rfl, rfl⟩⟩
    | wantExcl =>
      obtain ⟨r, hr, -, htaken⟩ := takeWantExcl_taken pid k ext false h1
      exact ⟨r, hr, htaken.resumed hwait ⟨rfl, rfl, rfl, rfl, rfl⟩⟩
    | upgrade =>
      obtain ⟨r, hr, -, -, htaken⟩ := takeUpgrade_taken pid k ext false h1 (h.upgrade rfl)
      exact ⟨r, hr, htaken.resumed hwait ⟨rfl, rfl, rfl, rfl, rfl⟩⟩
    | exclusive =>
      have hexcl : l.lkSharecount = 0 → l.wantUpgrade = false → l.haveExcl = false := by
        intro hshares hupgrade
        have hhave := hproper hshares hupgrade
        rw [if_neg (by rw [hfails]; exact nofun)] at hhave
        exact hhave
      obtain ⟨r, hr, -, htaken⟩ := takeExclusive_taken pid k ext false h1 (h.wantExcl rfl) hexcl
      exact ⟨r, hr, htaken.resumed hwait ⟨rfl, rfl, rfl, rfl, rfl⟩⟩

end LockBsd

/-! ## Runs -/

namespace LkSystem

open LockBsd

variable {s s' : LkSystem} {op : LkOp} {t : LkThread}

structure Ok (s : LkSystem) : Prop where
  counts : s.lock.Counts s.threads
  holder : ∀ k t, s.threads[k]? = some t → t.state = .exclusive → s.lock.Holder t.pid k
  free : s.lock.haveExcl = false → s.lock.lkLockthread = none

def Quiet (s : LkSystem) (k : ℕ) : Prop :=
  ∀ t ∈ s.threads.eraseIdx k, t.state.Asleep = false

def Proper (s : LkSystem) (k : ℕ) (op : LkOp) : Prop :=
  ∀ t ∈ s.threads[k]?, s.lock.Proper t.state (s.Quiet k) op

instance Quiet.decidable (s : LkSystem) (k : ℕ) : Decidable (s.Quiet k) :=
  inferInstanceAs (Decidable (∀ t ∈ _, _))

instance Proper.decidable (s : LkSystem) (k : ℕ) (op : LkOp) : Decidable (s.Proper k op) :=
  inferInstanceAs (Decidable (∀ t ∈ _, _))

lemma Ok.init (flags : LkExt) (pids : List ℕ) : (init flags pids).Ok := by
  have hidle : ∀ t ∈ (LkSystem.init flags pids).threads, t.state = .idle := by
    intro t ht
    obtain ⟨pid, -, rfl⟩ := mem_map.1 ht
    rfl
  have hzero : ∀ p : LkState → Bool, p .idle = false →
      0 = lkCount p (LkSystem.init flags pids).threads := by
    intro p hp
    unfold lkCount
    rw [countP_eq_zero.2 fun t ht => by rw [hidle t ht, hp]; exact nofun]
    rfl
  refine ⟨⟨hzero _ rfl, hzero _ rfl, hzero _ rfl, hzero _ rfl, hzero _ rfl, hzero _ rfl, nofun, ?_,
    ?_⟩, ?_, fun _ => rfl⟩
  · intro t ht w ext sleep hst
    cases (hidle t ht).symm.trans hst
  · intro _ t ht w ext hst
    cases (hidle t ht).symm.trans hst
  · intro k t ht hst
    cases (hidle t (mem_of_getElem? ht)).symm.trans hst

lemma Ok.sound (h : s.Ok) : s.lock.Sound where
  shares := by
    rw [h.counts.shares]
    exact lkCount_nonneg
  exclusives := h.counts.exclusives.trans h.counts.haveExcl.symm
  apart := h.counts.apart

variable {b : Bool}

lemma toInt_eq_true (h : 0 < b.toInt) : b = true := by
  cases b with
  | false => cases h
  | true => rfl

lemma Ok.exclusive_have (h : s.Ok) (ht : t ∈ s.threads) (hst : t.state = .exclusive) :
    s.lock.haveExcl = true := by
  apply toInt_eq_true
  rw [h.counts.haveExcl]
  exact lkCount_pos ht (decide_eq_true hst)

lemma Ok.holder_iff (h : s.Ok) (ht : s.threads[k]? = some t) :
    s.lock.Holder t.pid k ↔ t.state = .exclusive := by
  refine ⟨fun hholder => ?_, h.holder k t ht⟩
  have hhave : s.lock.haveExcl = true := by
    by_contra hhave
    cases (h.free (eq_false_of_ne_true hhave)).symm.trans hholder.2
  have hcount := h.counts.haveExcl
  rw [hhave] at hcount
  have hpos : 0 < s.threads.countP fun t => t.state.isExclusive := by
    have hcount : (1 : ℤ) = (s.threads.countP fun t => t.state.isExclusive : ℕ) := hcount
    omega
  obtain ⟨u, hu, hst⟩ := countP_pos_iff.1 hpos
  obtain ⟨j, hj⟩ := mem_iff_getElem?.1 hu
  have hst := of_decide_eq_true hst
  have hjk : some j = some k := (h.holder j u hj hst).2.symm.trans hholder.2
  cases hjk
  cases hj.symm.trans ht
  exact hst

lemma Ok.known (h : s.Ok) (ht : s.threads[k]? = some t) : s.lock.Known t.state t.pid k where
  toSound := h.sound
  holder := h.holder_iff ht
  shared hst := by
    rw [h.counts.shares]
    exact lkCount_pos (mem_of_getElem? ht) (decide_eq_true hst)
  exclusive := h.exclusive_have (mem_of_getElem? ht)
  upgrade hst := by
    apply toInt_eq_true
    rw [h.counts.wantUpgrade]
    exact lkCount_pos (mem_of_getElem? ht) hst
  wantExcl hst := by
    apply toInt_eq_true
    rw [h.counts.wantExcl]
    exact lkCount_pos (mem_of_getElem? ht) hst
  noWait := h.counts.noWait t (mem_of_getElem? ht)

lemma result_move {x : Except LkPanic LkResult} (h : s.lock.Known t.state t.pid k)
    (hproper : s.lock.Proper t.state (s.Quiet k) op) (hx : s.result k t op = some x) :
    ∃ r, x = .ok r ∧ s.lock.Move t.state t.pid k (s.Quiet k) r := by
  obtain ⟨pid, st⟩ := t
  unfold result at hx
  cases op with
  | request r flags =>
    dsimp only at hx
    split_ifs at hx with hallows
    obtain rfl := some.inj hx
    exact lockmgr_move r flags h hallows hproper
  | interrupt =>
    rcases st with _ | _ | _ | ⟨w, ext, _ | error⟩ <;> cases hx
    refine ⟨_, rfl, ?_⟩
    refine ⟨⟨rfl, rfl, rfl, rfl, rfl⟩, rfl, h.apart, ⟨nofun, nofun, fun _ _ => ⟨rfl, rfl⟩⟩, ?_, ?_,
      fun hfree => .inr (.inr (.inr ⟨hfree, fun _ hw => hw⟩))⟩
    · rintro w' e sleep ⟨⟩
      exact h.noWait w ext .asleep rfl
    · rintro - w' e ⟨⟩
  | resume =>
    rcases st with _ | _ | _ | ⟨w, ext, _ | error⟩ <;> cases hx
    exact resume_move h hproper

lemma woken_getElem? (wakeup : Bool) (ts : List LkThread) (j : ℕ) :
    (woken wakeup ts)[j]? = ts[j]?.map fun t => if wakeup then t.wake else t := by
  unfold woken
  split_ifs
  · exact getElem?_map
  · exact map_id'.symm

lemma woken_eraseIdx (wakeup : Bool) (ts : List LkThread) (k : ℕ) :
    (woken wakeup ts).eraseIdx k = woken wakeup (ts.eraseIdx k) := by
  unfold woken
  split_ifs
  · exact eraseIdx_map _ _ _
  · rfl

lemma Ok.put (h : s.Ok) (ht : s.threads[k]? = some t)
    (hm : s.lock.Move t.state t.pid k (s.Quiet k) r) : (s.put k t r).Ok := by
  have hwoken := woken_getElem? r.wakeup s.threads k
  rw [ht, map_some] at hwoken
  have hcounts := (h.counts.perm (Census.perm ht)).move hm id
  have hperm := Census.perm_set hwoken { t with state := r.state }
  rw [woken_eraseIdx] at hperm
  refine ⟨hcounts.perm hperm.symm, ?_, ?_⟩
  · intro j u hu hst
    change ((woken r.wakeup s.threads).set k _)[j]? = some u at hu
    by_cases hjk : j = k
    · subst hjk
      rw [List.getElem?_set_self (List.getElem?_eq_some_iff.1 hwoken).1] at hu
      cases hu
      exact hm.named.taken hst
    rw [getElem?_set_ne (Ne.symm hjk), woken_getElem?] at hu
    obtain ⟨v, hv, rfl⟩ := map_eq_some_iff.1 hu
    have hpid : (if r.wakeup then v.wake else v).pid = v.pid := by
      split_ifs <;> rfl
    have hexcl : v.state = .exclusive := by
      split_ifs at hst
      · exact of_decide_eq_true ((v.state.isExclusive_wake).symm.trans (decide_eq_true hst))
      · exact hst
    have hholder := h.holder j v hv hexcl
    have hne : t.state ≠ .exclusive := by
      intro hexcl'
      exact hjk (some.inj (hholder.2.symm.trans (h.holder k t ht hexcl').2))
    have hne' := hm.not_second (h.exclusive_have (mem_of_getElem? hv) hexcl) hne
    obtain ⟨hthread, howner⟩ := hm.named.kept hne' hne
    rw [hpid]
    exact ⟨howner.trans hholder.1, hthread.trans hholder.2⟩
  intro hfree
  have hne : r.state ≠ .exclusive := by
    intro hst
    have hpos : 0 < lkCount LkState.isExclusive
        ({ t with state := r.state } :: woken r.wakeup (s.threads.eraseIdx k)) :=
      lkCount_pos mem_cons_self (decide_eq_true hst)
    rw [← hcounts.haveExcl] at hpos
    cases (toInt_eq_true hpos).symm.trans hfree
  by_cases hst : t.state = .exclusive
  · exact hm.named.left hne hst
  · have hkept := (hm.named.kept hne hst).1
    exact hkept.trans (h.free ((hm.have_kept hne hst).symm.trans hfree))

lemma Ok.step (h : s.Ok) (hproper : s.Proper k op) {x : Except LkPanic LkSystem}
    (hs : s.step k op = some x) : ∃ s', x = .ok s' ∧ s'.Ok := by
  obtain ⟨t, ht, hs⟩ := bind_eq_some_iff.1 hs
  obtain ⟨y, hy, hs⟩ := bind_eq_some_iff.1 hs
  obtain rfl : y.map (s.put k t) = x := some.inj hs
  obtain ⟨r, rfl, hm⟩ := result_move (h.known ht) (hproper t ht) hy
  exact ⟨_, rfl, h.put ht hm⟩

lemma Ok.exclusive (h : s.Ok) (j k : ℕ) (tj tk : LkThread) (hne : j ≠ k)
    (hj : s.threads[j]? = some tj) (hk : s.threads[k]? = some tk) (hst : tk.state = .exclusive) :
    tj.state.Holds = false := by
  have hhave := h.exclusive_have (mem_of_getElem? hk) hst
  cases hstate : tj.state with
  | idle => rfl
  | waiting w ext sleep => rfl
  | shared =>
    have hpos := (h.known hj).shared hstate
    have hzero := (h.counts.apart hhave).1
    omega
  | exclusive =>
    have hjk := (h.holder j tj hj hstate).2.symm.trans (h.holder k tk hk hst).2
    exact absurd (some.inj hjk) hne

lemma exists_of_toInt {p : LkState → Bool} {ts : List LkThread} (h : b.toInt = lkCount p ts)
    (hb : b = true) : ∃ t ∈ ts, p t.state = true := by
  rw [hb] at h
  have hone : (1 : ℤ) = (ts.countP fun t => p t.state : ℕ) := h
  exact countP_pos_iff.1 (by omega)

lemma Ok.free_of_holds (h : s.Ok) (hholds : ∀ t ∈ s.threads, t.state.Holds = false) :
    s.lock.Free := by
  constructor
  · rw [h.counts.shares]
    have hzero : (s.threads.countP fun t => t.state.isShared) = 0 := by
      apply countP_eq_zero.2
      intro t ht hshared
      have hnot := hholds t ht
      rw [of_decide_eq_true hshared] at hnot
      cases hnot
    exact congrArg Int.ofNat hzero
  by_contra hhave
  obtain ⟨t, ht, hexcl⟩ := exists_of_toInt h.counts.haveExcl (eq_true_of_ne_false hhave)
  have hnot := hholds t ht
  rw [of_decide_eq_true hexcl] at hnot
  cases hnot

lemma blocked_of_flag (h : s.lock.Counts s.threads) (hfree : s.lock.Free)
    (hawake : ∀ t ∈ s.threads, t.state.Awakened = false)
    (hw : ∃ t ∈ s.threads, t.state.waitsFor w = true) : s.lock.Blocked w := by
  obtain ⟨⟨pid, st⟩, ht, hwaits⟩ := hw
  rcases st with _ | _ | _ | ⟨w', ext, _ | error⟩
  · cases hwaits
  · cases hwaits
  · cases hwaits
  · obtain rfl : w' = w := of_decide_eq_true hwaits
    exact h.settled hfree _ ht w' ext rfl
  · cases hawake _ ht

lemma Ok.notLost (h : s.Ok) : ¬s.Lost := by
  rintro ⟨hholds, hawake, ⟨pid, st⟩, ht, hasleep⟩
  have hfree := h.free_of_holds hholds
  have hupgrade : s.lock.wantUpgrade ≠ true := fun hflag =>
    blocked_of_flag h.counts hfree hawake (exists_of_toInt h.counts.wantUpgrade hflag)
  have hexcl : s.lock.wantExcl ≠ true := fun hflag =>
    hupgrade (blocked_of_flag h.counts hfree hawake (exists_of_toInt h.counts.wantExcl hflag))
  rcases st with _ | _ | _ | ⟨w, ext, _ | error⟩
  · cases hasleep
  · cases hasleep
  · cases hasleep
  · have hblocked := h.counts.settled hfree _ ht w ext rfl
    cases w with
    | upgrade => exact hblocked
    | exclusive => exact hupgrade hblocked
    | shared | wantExcl => exact hblocked.elim hupgrade hexcl
  · cases hasleep

lemma Ok.safe (h : s.Ok) : s.Safe where
  exclusive := h.exclusive
  shares := h.counts.shares
  exclusives := h.counts.exclusives
  noWait := h.counts.noWait
  notLost := h.notLost

end LkSystem

inductive LkRun : LkSystem → Prop where
  | init (flags : LkExt) (pids : List ℕ) : LkRun (.init flags pids)
  | step {s s' : LkSystem} (run : LkRun s) (k : ℕ) (op : LkOp) (hproper : s.Proper k op)
      (hs : s.step k op = some (.ok s')) : LkRun s'

lemma LkRun.ok {s : LkSystem} (run : LkRun s) : s.Ok := by
  induction run with
  | init flags pids => exact .init flags pids
  | step run k op hproper hs ih =>
    obtain ⟨s', hs', hok⟩ := ih.step hproper hs
    cases hs'
    exact hok

theorem lkRun_safe {s : LkSystem} (run : LkRun s) :
    s.Safe ∧ ∀ k op panic, s.Proper k op → s.step k op ≠ some (.error panic) := by
  refine ⟨run.ok.safe, fun k op panic hproper hs => ?_⟩
  obtain ⟨s', hs', -⟩ := run.ok.step hproper hs
  cases hs'

/-- An exclusive request waits for a share to be released and holds the lock then. -/
theorem lkRun_safe_afterShare : ∃ s : LkSystem, LkRun s ∧
    (s.Safe ∧ ∀ k op panic, s.Proper k op → s.step k op ≠ some (.error panic)) ∧
    s.threads.map LkThread.state = [.idle, .exclusive] := by
  let plain : LkExt := ⟨false, false, false⟩
  have run1 := (LkRun.init plain [1, 2]).step 0 (.request .shared plain) (by decide) rfl
  have run2 := run1.step 1 (.request .exclusive plain) (by decide) rfl
  have run3 := run2.step 0 (.request .release plain) (by decide) rfl
  have run4 := run3.step 1 .resume (by decide) rfl
  exact ⟨_, run4, lkRun_safe run4, rfl⟩

def LkSystem.runOps (s : LkSystem) : List (ℕ × LkOp) → Option (Except LkPanic LkSystem)
  | [] => some (.ok s)
  | (k, op) :: ops => match s.step k op with
    | some (.ok s') => s'.runOps ops
    | x => x

/-- Of two threads that share the lock the first upgrades. The second gives up its share in an
`LK_EXCLUPGRADE` that fails, wakes nobody, and the first sleeps on. In a second run an exclusive
request that has set `LK_WANT_EXCL` runs after an upgrade and finds the exclusive count set. -/
theorem lockmgr_lost_and_panics : (∃ s, (LkSystem.init ⟨false, false, false⟩ [1, 2]).runOps
        [(0, .request .shared ⟨false, false, false⟩), (1, .request .shared ⟨false, false, false⟩),
          (0, .request .upgrade ⟨false, false, false⟩),
          (1, .request .exclupgrade ⟨false, false, false⟩)] = some (.ok s) ∧ s.Lost) ∧
      (LkSystem.init ⟨false, false, false⟩ [1, 2, 3]).runOps
        [(0, .request .shared ⟨false, false, false⟩), (1, .request .shared ⟨false, false, false⟩),
          (2, .request .exclusive ⟨false, false, false⟩),
          (1, .request .upgrade ⟨false, false, false⟩),
          (0, .request .release ⟨false, false, false⟩), (1, .resume), (2, .resume)] =
        some (.error .nonZeroExclusive) := by
  refine ⟨⟨_, rfl, ?_⟩, rfl⟩
  unfold LkSystem.Lost
  decide

end Rhapsody.Bsd
