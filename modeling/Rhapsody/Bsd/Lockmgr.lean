import Rhapsody.Lib.Census

/-! The lock manager of `kern/kern_lock.c`, without `LK_DRAIN`. A thread is known by its place in
the list of threads, and what it holds is kept beside the lock. A step is one hold of the
interlock, up to the return of `lockmgr` or to a sleep in `ACQUIRE`. -/

namespace Rhapsody.Bsd

structure LkExt where
  noWait : Bool
  sleepFail : Bool
  canRecurse : Bool
  deriving DecidableEq

def LkExt.or (a b : LkExt) : LkExt :=
  ⟨a.noWait || b.noWait, a.sleepFail || b.sleepFail, a.canRecurse || b.canRecurse⟩

structure LockBsd where
  ext : LkExt
  wantUpgrade : Bool
  wantExcl : Bool
  haveExcl : Bool
  lkSharecount : ℤ
  lkWaitcount : ℤ
  lkExclusivecount : ℤ
  /-- `none` is `LK_NOPROC`. -/
  lkLockholder : Option ℕ
  lkLockthread : Option ℕ
  deriving DecidableEq

def lockinit (flags : LkExt) : LockBsd := ⟨flags, false, false, false, 0, 0, 0, none, none⟩

/-- The places where `ACQUIRE` is used: for a shared lock, an upgrade, the `LK_WANT_EXCL` flag, and
an exclusive lock once it is set. -/
inductive LkWait where
  | shared | upgrade | wantExcl | exclusive
  deriving DecidableEq

inductive LkSleep where
  | asleep
  | awake (error : Bool)
  deriving DecidableEq

inductive LkState where
  | idle | shared | exclusive
  | waiting (w : LkWait) (ext : LkExt) (sleep : LkSleep)
  deriving DecidableEq

def LkState.wake : LkState → LkState
  | .waiting w ext .asleep => .waiting w ext (.awake false)
  | st => st

structure LkThread where
  pid : ℕ
  state : LkState
  deriving DecidableEq

def LkThread.wake (t : LkThread) : LkThread := { t with state := t.state.wake }

inductive LkPanic where
  | notHoldingExclusive | upgradeExclusive | nonZeroExclusive | lockingAgainstMyself
  | notExclusiveHolder
  deriving DecidableEq

inductive LkError where
  | busy | noLock | interrupted
  deriving DecidableEq

/-- What a hold of the interlock leaves: the lock, the thread, whether `wakeup` was called, and the
error returned. -/
structure LkResult where
  lock : LockBsd
  state : LkState
  wakeup : Bool
  error : Option LkError
  deriving DecidableEq

namespace LockBsd

variable (l : LockBsd) (pid self : ℕ) (ext : LkExt) (wakeup : Bool)

def sleep (w : LkWait) : LkResult :=
  ⟨{ l with lkWaitcount := l.lkWaitcount + 1 }, .waiting w ext .asleep, wakeup, none⟩

def fail (error : LkError) : LkResult := ⟨l, .idle, wakeup, some error⟩

def Holder : Prop := l.lkLockholder = some pid ∧ l.lkLockthread = some self

instance : Decidable (l.Holder pid self) := inferInstanceAs (Decidable (_ ∧ _))

def Claimed : Bool := l.haveExcl || l.wantExcl || l.wantUpgrade

def takeShared : LkResult :=
  if l.Claimed then l.sleep ext wakeup .shared
  else ⟨{ l with lkSharecount := l.lkSharecount + 1 }, .shared, wakeup, none⟩

def haveExclusive : Except LkPanic LkResult :=
  let l := { l with haveExcl := true, lkLockholder := some pid, lkLockthread := some self }
  if l.lkExclusivecount ≠ 0 then .error .nonZeroExclusive
  else .ok ⟨{ l with lkExclusivecount := 1 }, .exclusive, wakeup, none⟩

def takeUpgrade : Except LkPanic LkResult :=
  if l.lkSharecount ≠ 0 then .ok (l.sleep ext wakeup .upgrade)
  else haveExclusive { l with wantUpgrade := false } pid self wakeup

def takeExclusive : Except LkPanic LkResult :=
  if l.lkSharecount ≠ 0 ∨ l.wantUpgrade then .ok (l.sleep ext wakeup .exclusive)
  else haveExclusive { l with wantExcl := false } pid self wakeup

def takeWantExcl : Except LkPanic LkResult :=
  if l.haveExcl || l.wantExcl then .ok (l.sleep ext wakeup .wantExcl)
  else takeExclusive { l with wantExcl := true } pid self ext wakeup

def lkDowngrade : Except LkPanic LkResult :=
  if ¬l.Holder pid self ∨ l.lkExclusivecount = 0 then .error .notHoldingExclusive
  else .ok ⟨{ l with
      lkSharecount := l.lkSharecount + l.lkExclusivecount, lkExclusivecount := 0
      haveExcl := false, lkLockholder := none, lkLockthread := none },
    .shared, l.lkWaitcount ≠ 0, none⟩

def lkShared : Except LkPanic LkResult :=
  if ¬l.Holder pid self then
    if ext.noWait && l.Claimed then .ok (l.fail false .busy)
    else .ok (l.takeShared ext false)
  else lkDowngrade { l with lkSharecount := l.lkSharecount + 1 } pid self

def lkExclusive : Except LkPanic LkResult :=
  if l.Holder pid self then
    if !ext.canRecurse then .error .lockingAgainstMyself
    else .ok ⟨{ l with lkExclusivecount := l.lkExclusivecount + 1 }, .exclusive, wakeup, none⟩
  else if ext.noWait && (l.Claimed || l.lkSharecount ≠ 0) then .ok (l.fail wakeup .busy)
  else l.takeWantExcl pid self ext wakeup

def lkUpgrade : Except LkPanic LkResult :=
  if l.Holder pid self ∨ l.lkSharecount ≤ 0 then .error .upgradeExclusive
  else
    let l := { l with lkSharecount := l.lkSharecount - 1 }
    if ext.noWait && (l.wantUpgrade || l.lkSharecount > 1) then .ok (l.fail false .busy)
    else if !l.wantUpgrade then takeUpgrade { l with wantUpgrade := true } pid self ext false
    else l.lkExclusive pid self ext (l.lkSharecount = 0 ∧ l.lkWaitcount ≠ 0)

def lkExclupgrade : Except LkPanic LkResult :=
  if l.wantUpgrade then .ok (fail { l with lkSharecount := l.lkSharecount - 1 } false .busy)
  else l.lkUpgrade pid self ext

def lkRelease : Except LkPanic LkResult :=
  if l.lkExclusivecount ≠ 0 then
    if ¬l.Holder pid self then .error .notExclusiveHolder
    else
      let l := { l with lkExclusivecount := l.lkExclusivecount - 1 }
      if l.lkExclusivecount = 0 then
        .ok ⟨{ l with haveExcl := false, lkLockholder := none, lkLockthread := none }, .idle,
          l.lkWaitcount ≠ 0, none⟩
      else .ok ⟨l, .exclusive, l.lkWaitcount ≠ 0, none⟩
  else .ok ⟨if l.lkSharecount ≠ 0 then { l with lkSharecount := l.lkSharecount - 1 } else l, .idle,
    l.lkWaitcount ≠ 0, none⟩

def resume (w : LkWait) (error : Bool) : Except LkPanic LkResult :=
  let l := { l with lkWaitcount := l.lkWaitcount - 1 }
  if error || ext.sleepFail then
    let why : LkError := if error then .interrupted else .noLock
    match w with
    | .shared | .wantExcl => .ok (l.fail false why)
    | .upgrade => .ok (fail { l with wantUpgrade := false } false why)
    | .exclusive => .ok (fail { l with wantExcl := false } false why)
  else match w with
    | .shared => .ok (l.takeShared ext false)
    | .upgrade => l.takeUpgrade pid self ext false
    | .wantExcl => l.takeWantExcl pid self ext false
    | .exclusive => l.takeExclusive pid self ext false

end LockBsd

inductive LkRequest where
  | shared | exclusive | upgrade | exclupgrade | downgrade | release
  deriving DecidableEq

/-- A request, a sleep that ends in an error, and the rest of a request behind a
sleep. -/
inductive LkOp where
  | request (r : LkRequest) (flags : LkExt)
  | interrupt
  | resume
  deriving DecidableEq

def LockBsd.lockmgr (l : LockBsd) (r : LkRequest) (flags : LkExt) (pid self : ℕ) :
    Except LkPanic LkResult :=
  let ext := flags.or l.ext
  match r with
  | .shared => l.lkShared pid self ext
  | .exclusive => l.lkExclusive pid self ext false
  | .upgrade => l.lkUpgrade pid self ext
  | .exclupgrade => l.lkExclupgrade pid self ext
  | .downgrade => l.lkDowngrade pid self
  | .release => l.lkRelease pid self

/-- A thread releases, upgrades or downgrades only what it holds and requests only what it does not
hold. -/
def LkState.Allows (st : LkState) : LkRequest → Bool
  | .shared | .exclusive => st = .idle
  | .upgrade | .exclupgrade => st = .shared
  | .downgrade => st = .exclusive
  | .release => st = .shared ∨ st = .exclusive

structure LkSystem where
  lock : LockBsd
  threads : List LkThread
  deriving DecidableEq

namespace LkSystem

variable (s : LkSystem)

def init (flags : LkExt) (pids : List ℕ) : LkSystem :=
  ⟨lockinit flags, pids.map fun pid => ⟨pid, .idle⟩⟩

def put (k : ℕ) (t : LkThread) (r : LkResult) : LkSystem where
  lock := r.lock
  threads :=
    (if r.wakeup then s.threads.map LkThread.wake else s.threads).set k { t with state := r.state }

/-- What thread `k` does with the interlock; `none` if it is in no position to. -/
def result (k : ℕ) (t : LkThread) : LkOp → Option (Except LkPanic LkResult)
  | .request r flags =>
    if t.state.Allows r then some (s.lock.lockmgr r flags t.pid k) else none
  | .interrupt => match t.state with
    | .waiting w ext .asleep => some (.ok ⟨s.lock, .waiting w ext (.awake true), false, none⟩)
    | _ => none
  | .resume => match t.state with
    | .waiting w ext (.awake error) => some (s.lock.resume t.pid k ext w error)
    | _ => none

def step (k : ℕ) (op : LkOp) : Option (Except LkPanic LkSystem) := do
  let t ← s.threads[k]?
  let r ← s.result k t op
  return r.map (s.put k t)

end LkSystem

namespace LkState

def Holds : LkState → Bool
  | .shared | .exclusive => true
  | _ => false

def Asleep : LkState → Bool
  | .waiting _ _ .asleep => true
  | _ => false

def Awakened : LkState → Bool
  | .waiting _ _ (.awake _) => true
  | _ => false

end LkState

namespace LkSystem

variable (s : LkSystem)

/-- Nobody holds the lock or is still to run behind a sleep, and somebody sleeps. -/
def Lost : Prop :=
  (∀ t ∈ s.threads, t.state.Holds = false) ∧ (∀ t ∈ s.threads, t.state.Awakened = false) ∧
    ∃ t ∈ s.threads, t.state.Asleep = true

structure Safe : Prop where
  exclusive : ∀ (j k : ℕ) (tj tk : LkThread), j ≠ k → s.threads[j]? = some tj →
    s.threads[k]? = some tk → tk.state = .exclusive → tj.state.Holds = false
  shares : s.lock.lkSharecount = (s.threads.countP fun t => t.state = .shared : ℕ)
  exclusives : s.lock.lkExclusivecount = (s.threads.countP fun t => t.state = .exclusive : ℕ)
  noWait : ∀ t ∈ s.threads, ∀ w ext sleep, t.state = .waiting w ext sleep → ext.noWait = false
  notLost : ¬s.Lost

end LkSystem

end Rhapsody.Bsd
