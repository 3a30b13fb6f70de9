import Rhapsody.Lib.Census

/-! The read/write locks of `kern/lock.c` with `can_sleep` set. A thread is known by its place in
the list of threads, and what it holds is kept beside the lock, by the field that a call took. A
step is one hold of the interlock. -/

namespace Rhapsody.Kern

def readCountMax : ℕ := 65535

def recursionDepthMax : ℕ := 4095

def fieldIncr (max n : ℕ) : ℕ := if n = max then 0 else n + 1

def fieldDecr (max n : ℕ) : ℕ := if n = 0 then max else n - 1

structure Lock where
  thread : Option ℕ
  readCount : ℕ
  wantUpgrade : Bool
  wantWrite : Bool
  waiting : Bool
  recursionDepth : ℕ
  deriving DecidableEq

def lockInit : Lock := ⟨none, 0, false, false, false, 0⟩

/-- Where a thread is: outside, or in a loop of `lock_write` (for the `want_write` bit, for the
readers), `lock_read` and `lock_read_to_write` or `lock_try_read_to_write`. -/
inductive LockPlace where
  | outside | wantWrite | drain | read | upgrade
  deriving DecidableEq

/-- The holds of a thread: for reading, by recursion, by an upgrade, and by `lock_write`. -/
structure LockThread where
  reads : ℕ
  recursions : ℕ
  upgrade : Bool
  write : Bool
  place : LockPlace
  asleep : Bool
  deriving DecidableEq

namespace LockThread

def init : LockThread := ⟨0, 0, false, false, .outside, false⟩

def HoldsWrite (t : LockThread) : Bool := t.recursions != 0 || t.upgrade || t.write

def Holds (t : LockThread) : Bool := t.reads != 0 || t.HoldsWrite

def wake (t : LockThread) : LockThread := { t with asleep := false }

end LockThread

/-- What a hold of the interlock leaves, and whether it has called `thread_wakeup`. -/
structure LockResult where
  lock : Lock
  thread : LockThread
  wakeup : Bool

namespace Lock

variable (l : Lock) (self : ℕ) (t : LockThread) (spin : Bool)

/-- A waiting loop. With `lock_wait_time > 0` the interlock is let go for a while first (`spin`). -/
def wait (place : LockPlace) : LockResult :=
  if spin then ⟨l, { t with place := place, asleep := false }, false⟩
  else ⟨{ l with waiting := true }, { t with place := place, asleep := true }, false⟩

def drainLoop : LockResult :=
  if l.readCount ≠ 0 ∨ l.wantUpgrade then l.wait t spin .drain
  else ⟨l, { t with place := .outside, write := true }, false⟩

def wantWriteLoop : LockResult :=
  if l.wantWrite then l.wait t spin .wantWrite
  else drainLoop { l with wantWrite := true } t spin

def readLoop : LockResult :=
  if l.wantWrite ∨ l.wantUpgrade then l.wait t spin .read
  else ⟨{ l with readCount := fieldIncr readCountMax l.readCount },
    { t with place := .outside, reads := t.reads + 1 }, false⟩

def upgradeLoop : LockResult :=
  if l.readCount ≠ 0 then l.wait t spin .upgrade
  else ⟨l, { t with place := .outside, upgrade := true }, false⟩

def recurse : LockResult :=
  ⟨{ l with recursionDepth := fieldIncr recursionDepthMax l.recursionDepth },
    { t with recursions := t.recursions + 1 }, false⟩

def recurseRead : LockResult :=
  ⟨{ l with readCount := fieldIncr readCountMax l.readCount },
    { t with reads := t.reads + 1 }, false⟩

def wakeWaiting (wanted : Bool) : LockResult :=
  if l.waiting && wanted then ⟨{ l with waiting := false }, t, true⟩ else ⟨l, t, false⟩

def lockWrite : LockResult :=
  if l.thread = some self then l.recurse t else l.wantWriteLoop t spin

def lockRead : LockResult :=
  if l.thread = some self then l.recurseRead t else l.readLoop t spin

inductive Kind where
  | read | recursion | upgrade | write
  deriving DecidableEq

def writeKind : Kind :=
  if l.recursionDepth ≠ 0 then .recursion else if l.wantUpgrade then .upgrade else .write

def doneKind : Kind := if l.readCount ≠ 0 then .read else l.writeKind

def drop : Kind → Lock
  | .read => { l with readCount := fieldDecr readCountMax l.readCount }
  | .recursion => { l with recursionDepth := fieldDecr recursionDepthMax l.recursionDepth }
  | .upgrade => { l with wantUpgrade := false }
  | .write => { l with wantWrite := false }

end Lock

namespace LockThread

variable (t : LockThread)

def Has : Lock.Kind → Bool
  | .read => t.reads != 0
  | .recursion => t.recursions != 0
  | .upgrade => t.upgrade
  | .write => t.write

def drop : Lock.Kind → LockThread
  | .read => { t with reads := t.reads - 1 }
  | .recursion => { t with recursions := t.recursions - 1 }
  | .upgrade => { t with upgrade := false }
  | .write => { t with write := false }

end LockThread

namespace Lock

variable (l : Lock) (self : ℕ) (t : LockThread) (spin : Bool)

def lockDone : LockResult :=
  let l' := l.drop l.doneKind
  l'.wakeWaiting (t.drop l.doneKind) (l'.readCount = 0)

def lockReadToWrite : LockResult :=
  let l := l.drop .read
  let t := t.drop .read
  if l.thread = some self then l.recurse t
  else if l.wantUpgrade then l.wakeWaiting t (l.readCount = 0)
  else upgradeLoop { l with wantUpgrade := true } t spin

def lockWriteToRead : LockResult :=
  let l' := { l with readCount := fieldIncr readCountMax l.readCount }
  let t' := t.drop l.writeKind
  (l'.drop l.writeKind).wakeWaiting { t' with reads := t'.reads + 1 } true

def lockTryWrite : LockResult :=
  if l.thread = some self then l.recurse t
  else if l.wantWrite ∨ l.wantUpgrade ∨ l.readCount ≠ 0 then ⟨l, t, false⟩
  else ⟨{ l with wantWrite := true }, { t with write := true }, false⟩

def lockTryRead : LockResult :=
  if l.thread = some self then l.recurseRead t
  else if l.wantWrite ∨ l.wantUpgrade then ⟨l, t, false⟩
  else l.recurseRead t

def lockTryReadToWrite : LockResult :=
  if l.thread = some self then (l.drop .read).recurse (t.drop .read)
  else if l.wantUpgrade then ⟨l, t, false⟩
  else upgradeLoop { l.drop .read with wantUpgrade := true } (t.drop .read) false

def lockSetRecursive : Option LockResult :=
  if l.wantWrite then some ⟨{ l with thread := some self }, t, false⟩ else none

def lockClearRecursive : Option LockResult :=
  if l.thread = some self then
    some ⟨if l.recursionDepth = 0 then { l with thread := none } else l, t, false⟩
  else none

/-- A thread has the interlock again behind `thread_sleep` or after it has spun. -/
def resume : LockResult :=
  match t.place with
  | .outside => ⟨l, t, false⟩
  | .wantWrite => l.wantWriteLoop t spin
  | .drain => l.drainLoop t spin
  | .read => l.readLoop t spin
  | .upgrade => l.upgradeLoop t spin

end Lock

inductive LockOp where
  | lockWrite | lockRead | lockReadToWrite | lockWriteToRead | lockDone
  | lockTryWrite | lockTryRead | lockTryReadToWrite
  | lockSetRecursive | lockClearRecursive | resume
  deriving DecidableEq

namespace LockOp

def run (l : Lock) (self : ℕ) (t : LockThread) (spin : Bool) : LockOp → Option LockResult
  | .lockWrite => some (l.lockWrite self t spin)
  | .lockRead => some (l.lockRead self t spin)
  | .lockReadToWrite => some (l.lockReadToWrite self t spin)
  | .lockWriteToRead => some (l.lockWriteToRead t)
  | .lockDone => some (l.lockDone t)
  | .lockTryWrite => some (l.lockTryWrite self t)
  | .lockTryRead => some (l.lockTryRead self t)
  | .lockTryReadToWrite => some (l.lockTryReadToWrite self t)
  | .lockSetRecursive => l.lockSetRecursive self t
  | .lockClearRecursive => l.lockClearRecursive self t
  | .resume => some (l.resume t spin)

def Allowed (t : LockThread) : LockOp → Bool
  | .lockWrite | .lockRead | .lockTryWrite | .lockTryRead => t.place = .outside
  | .lockReadToWrite | .lockTryReadToWrite => t.place = .outside ∧ t.reads ≠ 0
  | .lockDone => t.place = .outside ∧ t.Holds
  | .lockWriteToRead | .lockSetRecursive | .lockClearRecursive => t.place = .outside ∧ t.HoldsWrite
  | .resume => t.place ≠ .outside ∧ !t.asleep

end LockOp

structure LockSystem where
  lock : Lock
  threads : List LockThread
  deriving DecidableEq

namespace LockSystem

variable (s : LockSystem)

def init (n : ℕ) : LockSystem := ⟨lockInit, List.replicate n .init⟩

def put (k : ℕ) (r : LockResult) : LockSystem where
  lock := r.lock
  threads :=
    let threads := s.threads.set k r.thread
    if r.wakeup then threads.map LockThread.wake else threads

def step (k : ℕ) (spin : Bool) (op : LockOp) : Option LockSystem := do
  let t ← s.threads[k]?
  if op.Allowed t then
    let r ← op.run s.lock k t spin
    return s.put k r
  else none

/-- Somebody sleeps, nobody holds the lock, and nobody is awake in an operation on it. -/
def Lost : Prop :=
  (∃ t ∈ s.threads, t.asleep = true) ∧ (∀ t ∈ s.threads, t.Holds = false) ∧
    ∀ t ∈ s.threads, t.place ≠ .outside → t.asleep = true

structure Safe : Prop where
  exclusive : ∀ (j k : ℕ) (tj tk : LockThread), j ≠ k → s.threads[j]? = some tj →
    s.threads[k]? = some tk → tk.HoldsWrite = true → tj.Holds = false
  readCount : s.lock.readCount = (s.threads.map LockThread.reads).sum
  /-- What `lock_done` drops is a hold of its caller. -/
  done : ∀ t ∈ s.threads, t.place = .outside → t.Holds = true → t.Has s.lock.doneKind = true
  downgrade : ∀ t ∈ s.threads, t.place = .outside → t.HoldsWrite = true →
    t.Has s.lock.writeKind = true
  notLost : ¬s.Lost

end LockSystem

end Rhapsody.Kern
