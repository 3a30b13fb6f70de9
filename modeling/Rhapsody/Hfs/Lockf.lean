import Mathlib

/-! Advisory byte-range locks on the files of an HFS volume (`bsd/hfs/hfs_lockf.c`). The locks
granted on a file stand in one list; a request that has to wait is queued on the lock that blocks
it. A call runs without interruption up to its `tsleep`, so a step is a call, or the return of a
sleeper that was woken or that a signal interrupted. -/

namespace Rhapsody.Hfs

def maxDepth : ℕ := 50

def offT (n : ℤ) : ℤ := (n + 2 ^ 63) % 2 ^ 64 - 2 ^ 63

inductive LockType where
  | rdlck
  | wrlck
  deriving DecidableEq

/-- A lock or a request. `node` is its address; `lf_end` is -1 for one that reaches to the end of
the file. -/
structure Hfslockf where
  node : ℕ
  posix : Bool
  flock : Bool
  wait : Bool
  lfType : LockType
  lfStart : ℤ
  lfEnd : ℤ
  lfId : ℕ
  hfsnode : ℕ
  blkhd : List ℕ
  deriving DecidableEq

inductive OvCase where
  | noOverlap
  | same
  | overlapContains
  | lockContains
  | startsBefore
  | endsAfter
  deriving DecidableEq

inductive Who where
  | self
  | others
  deriving DecidableEq

def overlapCase (lf lock : Hfslockf) : Option OvCase :=
  let start := lock.lfStart
  let lockEnd := lock.lfEnd
  if (lf.lfEnd ≠ -1 ∧ start > lf.lfEnd) ∨ (lockEnd ≠ -1 ∧ lf.lfStart > lockEnd) then
    some .noOverlap
  else if lf.lfStart = start ∧ lf.lfEnd = lockEnd then some .same
  else if lf.lfStart ≤ start ∧ lockEnd ≠ -1 ∧ (lf.lfEnd ≥ lockEnd ∨ lf.lfEnd = -1) then
    some .overlapContains
  else if start ≤ lf.lfStart ∧ (lockEnd = -1 ∨ (lf.lfEnd ≠ -1 ∧ lockEnd ≥ lf.lfEnd)) then
    some .lockContains
  else if lf.lfStart < start ∧ (lf.lfEnd ≥ start ∨ lf.lfEnd = -1) then some .startsBefore
  else if lf.lfStart > start ∧ lockEnd ≠ -1 ∧ (lf.lfEnd > lockEnd ∨ lf.lfEnd = -1) then
    some .endsAfter
  else none

def Who.skips (who : Who) (lf lock : Hfslockf) : Bool :=
  match who with
  | .self => lf.lfId ≠ lock.lfId
  | .others => lf.lfId = lock.lfId

/-- The locks passed over, the case found, and the list from `*overlap` on. -/
def hfsFindoverlap (lock : Hfslockf) (who : Who) :
    List Hfslockf → Option (List Hfslockf × OvCase × List Hfslockf)
  | [] => some ([], .noOverlap, [])
  | lf :: rest =>
    let pass := (hfsFindoverlap lock who rest).map fun (skipped, found) => (lf :: skipped, found)
    if who.skips lf lock then pass
    else
      match overlapCase lf lock with
      | none => none
      | some .noOverlap =>
        if who = .self ∧ lock.lfEnd ≠ -1 ∧ lf.lfStart > lock.lfEnd then
          some ([], .noOverlap, lf :: rest)
        else pass
      | some case => some ([], case, lf :: rest)

def getblockFrom (lock : Hfslockf) : ℕ → List Hfslockf → Option (Option Hfslockf)
  | 0, _ => none
  | fuel + 1, lf =>
    match hfsFindoverlap lock .others lf with
    | none => none
    | some (_, .noOverlap, _) => some none
    | some (_, _, []) => none
    | some (_, _, overlap :: next) =>
      if lock.lfType = .wrlck ∨ overlap.lfType = .wrlck then some (some overlap)
      else getblockFrom lock fuel next

def hfsGetblock (lock : Hfslockf) (locks : List Hfslockf) : Option (Option Hfslockf) :=
  getblockFrom lock (locks.length + 1) locks

/-- What stands in the list before and after `lock2`, up to what followed `lock1`; `node` is the
address of the third piece. -/
def hfsSplit (lock1 lock2 : Hfslockf) (node : ℕ) : List Hfslockf × List Hfslockf :=
  if lock1.lfStart = lock2.lfStart then
    ([], [{ lock1 with lfStart := offT (lock2.lfEnd + 1) }])
  else if lock1.lfEnd = lock2.lfEnd then
    ([{ lock1 with lfEnd := offT (lock2.lfStart - 1) }], [])
  else
    ([{ lock1 with lfEnd := offT (lock2.lfStart - 1) }],
     [{ lock1 with node := node, lfStart := offT (lock2.lfEnd + 1), blkhd := [] }])

def Hfslockf.woken (overlap : Hfslockf) : Hfslockf := { overlap with blkhd := [] }

/-- The lock is a downgrade of the overlap: its waiters may be able to acquire it. -/
def Downgrades (lock overlap : Hfslockf) : Prop :=
  lock.lfType = .rdlck ∧ overlap.lfType = .wrlck

instance (lock overlap : Hfslockf) : Decidable (Downgrades lock overlap) :=
  inferInstanceAs (Decidable (_ ∧ _))

/-- The lock after it swallowed an overlap, whose waiters it takes over if they were
not woken. -/
def Hfslockf.swallow (lock overlap : Hfslockf) : Hfslockf :=
  if Downgrades lock overlap then lock
  else { lock with blkhd := lock.blkhd ++ overlap.blkhd }

/-- What a walk leaves behind: the lock with the waiters it took over, the list from `*prev` on, and
the waiters that were woken. -/
structure Walked where
  lock : Hfslockf
  locks : List Hfslockf
  woken : List ℕ

def Walked.push (skipped : List Hfslockf) (w : Walked) : Walked :=
  { w with locks := skipped ++ w.locks }

/-- The loop at the end of `hfs_setlock` from `*prev` on. With `needtolink` the lock is not in the
list yet and is linked on the way. -/
def setlockFrom (node : ℕ) : ℕ → Hfslockf → Bool → List Hfslockf → Option Walked
  | 0, _, _, _ => none
  | fuel + 1, lock, needtolink, block =>
    match hfsFindoverlap lock .self block with
    | none => none
    | some (skipped, .noOverlap, next) =>
      some ⟨lock, skipped ++ if needtolink then lock :: next else next, []⟩
    | some (_, _, []) => none
    | some (skipped, .same, overlap :: next) =>
      let kept := if Downgrades lock overlap then overlap.woken else overlap
      let kept := { kept with lfType := lock.lfType }
      let woken := if Downgrades lock overlap then overlap.blkhd else []
      some ⟨kept, skipped ++ kept :: next, woken⟩
    | some (skipped, .overlapContains, overlap :: next) =>
      if overlap.lfType = lock.lfType then some ⟨overlap, skipped ++ overlap :: next, []⟩
      else if overlap.lfStart = lock.lfStart then
        let right := { overlap.woken with lfStart := offT (lock.lfEnd + 1) }
        some ⟨lock, skipped ++ lock :: right :: next, overlap.blkhd⟩
      else
        let (left, right) := hfsSplit overlap.woken lock node
        some ⟨lock, skipped ++ (left ++ lock :: (right ++ next)), overlap.blkhd⟩
    | some (skipped, .lockContains, overlap :: next) =>
      (setlockFrom node fuel (lock.swallow overlap) false next).map fun w =>
        { lock := w.lock
          locks := skipped ++ if needtolink then w.lock :: w.locks else w.locks
          woken := (if Downgrades lock overlap then overlap.blkhd else []) ++ w.woken }
    | some (skipped, .startsBefore, overlap :: next) =>
      let left := { overlap.woken with lfEnd := offT (lock.lfStart - 1) }
      (setlockFrom node fuel lock false next).map fun w =>
        { lock := w.lock
          locks := skipped ++ left :: w.lock :: w.locks
          woken := overlap.blkhd ++ w.woken }
    | some (skipped, .endsAfter, overlap :: next) =>
      let right := { overlap.woken with lfStart := offT (lock.lfEnd + 1) }
      some ⟨lock, skipped ++ (if needtolink then [lock] else []) ++ right :: next, overlap.blkhd⟩

/-- The loop of `hfs_clearlock` from `*prev` on, bounded by the length of the list. -/
def clearlockFrom (unlock : Hfslockf) (node : ℕ) :
    ℕ → List Hfslockf → Option (List Hfslockf × List ℕ)
  | 0, _ => none
  | fuel + 1, lf =>
    match hfsFindoverlap unlock .self lf with
    | none => none
    | some (skipped, .noOverlap, next) => some (skipped ++ next, [])
    | some (_, _, []) => none
    | some (skipped, .same, overlap :: next) => some (skipped ++ next, overlap.blkhd)
    | some (skipped, .overlapContains, overlap :: next) =>
      if overlap.lfStart = unlock.lfStart then
        let right := { overlap.woken with lfStart := offT (unlock.lfEnd + 1) }
        some (skipped ++ right :: next, overlap.blkhd)
      else
        let (left, right) := hfsSplit overlap.woken unlock node
        some (skipped ++ left ++ right ++ next, overlap.blkhd)
    | some (skipped, .lockContains, overlap :: next) =>
      (clearlockFrom unlock node fuel next).map fun (locks, woken) =>
        (skipped ++ locks, overlap.blkhd ++ woken)
    | some (skipped, .startsBefore, overlap :: next) =>
      let left := { overlap.woken with lfEnd := offT (unlock.lfStart - 1) }
      (clearlockFrom unlock node fuel next).map fun (locks, woken) =>
        (skipped ++ left :: locks, overlap.blkhd ++ woken)
    | some (skipped, .endsAfter, overlap :: next) =>
      let right := { overlap.woken with lfStart := offT (unlock.lfEnd + 1) }
      some (skipped ++ right :: next, overlap.blkhd)

/-! ### The system -/

/-- A process asleep in `hfs_setlock`; `lf_next`, the lock that blocks it, is cleared when it is
woken. -/
structure Sleeper where
  proc : ℕ
  request : Hfslockf
  lfNext : Option ℕ
  deriving DecidableEq

structure LockState where
  lockf : ℕ → List Hfslockf
  sleepers : List Sleeper
  nextNode : ℕ

variable (s : LockState)

namespace LockState

def setLockf (hfsnode : ℕ) (locks : List Hfslockf) : LockState :=
  { s with lockf := Function.update s.lockf hfsnode locks }

def wake (woken : List ℕ) : LockState :=
  { s with
    sleepers := s.sleepers.map fun w =>
      if w.request.node ∈ woken then { w with lfNext := none } else w }

def sleep (proc : ℕ) (lock block : Hfslockf) : LockState :=
  let locks := (s.lockf lock.hfsnode).map fun l =>
    if l.node = block.node then { l with blkhd := l.blkhd ++ [lock.node] } else l
  { s.setLockf lock.hfsnode locks with
    sleepers := s.sleepers ++ [{ proc := proc, request := lock, lfNext := some block.node }] }

def lockAt (hfsnode node : ℕ) : Option Hfslockf :=
  (s.lockf hfsnode).find? fun l => l.node = node

end LockState

/-- The `p_wchan` of a process, as the address of the request it sleeps on. `tsleep` of this kernel
does not set it, and nothing else does. -/
def pWchan (_proc : ℕ) : Option ℕ := none

/-- The walk along the wait channels back to the owner of the request. -/
def deadlock (s : LockState) (lock : Hfslockf) : ℕ → ℕ → Bool
  | 0, _ => false
  | depth + 1, wproc =>
    match (pWchan wproc).bind fun node => s.sleepers.find? fun w => w.request.node = node with
    | none => false
    | some w =>
      match w.lfNext.bind (s.lockAt w.request.hfsnode) with
      | none => false
      | some waitblock =>
        if ¬waitblock.posix then false
        else if waitblock.lfId = lock.lfId then true
        else deadlock s lock depth waitblock.lfId

inductive Outcome where
  | granted
  | eagain
  | edeadlk
  | asleep
  | interrupted
  | cleared
  | nothing
  deriving DecidableEq

def hfsClearlock (unlock : Hfslockf) : Option LockState := do
  let locks := s.lockf unlock.hfsnode
  let (locks, woken) ← clearlockFrom unlock s.nextNode (locks.length + 1) locks
  some { (s.setLockf unlock.hfsnode locks).wake woken with nextNode := s.nextNode + 1 }

def linkLock (lock : Hfslockf) : Option LockState := do
  let locks := s.lockf lock.hfsnode
  let w ← setlockFrom s.nextNode (locks.length + 1) lock true locks
  some { (s.setLockf lock.hfsnode w.locks).wake w.woken with nextNode := s.nextNode + 1 }

def hfsSetlock (proc : ℕ) (lock : Hfslockf) : Option (LockState × Outcome) := do
  match ← hfsGetblock lock (s.lockf lock.hfsnode) with
  | none => some (← linkLock s lock, .granted)
  | some block =>
    if ¬lock.wait then some (s, .eagain)
    else if lock.posix ∧ block.posix ∧ deadlock s lock maxDepth block.lfId then
      some (s, .edeadlk)
    else
      -- A flock request gives up the shared locks it would upgrade before it sleeps.
      let s ← if lock.flock ∧ lock.lfType = .wrlck then hfsClearlock s lock else some s
      some (s.sleep proc lock block, .asleep)

inductive LockOp where
  | setlock (proc : ℕ) (lock : Hfslockf)
  | resume (node : ℕ)
  | interrupt (node : ℕ)
  | clearlock (unlock : Hfslockf)
  deriving DecidableEq

def LockState.alloc (lock : Hfslockf) : Hfslockf :=
  { lock with node := s.nextNode, blkhd := [] }

def LockState.wokenSleeper (node : ℕ) : Option Sleeper :=
  s.sleepers.find? fun w => w.request.node = node ∧ w.lfNext = none

/-- A request that was not woken is taken off the queue of the lock `lf_next` leads to; `none` is
where that lock has been freed. -/
def interruptSleeper (w : Sleeper) : Option LockState :=
  let s' := { s with sleepers := s.sleepers.erase w }
  match w.lfNext with
  | none => some s'
  | some next =>
    match s.lockAt w.request.hfsnode next with
    | none => none
    | some _ => some (s'.setLockf w.request.hfsnode ((s.lockf w.request.hfsnode).map fun l =>
        if l.node = next then { l with blkhd := l.blkhd.erase w.request.node } else l))

def step : LockOp → Option (LockState × Outcome)
  | .setlock proc lock =>
    hfsSetlock { s with nextNode := s.nextNode + 1 } proc (s.alloc lock)
  | .clearlock unlock => do
    some (← hfsClearlock { s with nextNode := s.nextNode + 1 } (s.alloc unlock), .cleared)
  | .resume node =>
    match s.wokenSleeper node with
    | none => some (s, .nothing)
    | some w => hfsSetlock { s with sleepers := s.sleepers.erase w } w.proc w.request
  | .interrupt node =>
    match s.sleepers.find? fun w => w.request.node = node with
    | none => some (s, .nothing)
    | some w => (interruptSleeper s w).map fun s => (s, .interrupted)

end Rhapsody.Hfs
