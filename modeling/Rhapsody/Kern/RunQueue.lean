import Rhapsody.Lib.Levels

/-! The run queues of the scheduler (`kern/sched_prim.c`), one for the default processor set and
one for each processor, the priority a thread is queued under, and the routines that link a
thread, unlink it or choose one. The kernel is built with `MACH_FIXPRI` and `STAT_TIME` and
without `MACH_HOST` and `HW_FOOTPRINT`; processors may be any number. -/

namespace Rhapsody.Kern

open Rhapsody.Lib Function

def nrqs : ℕ := 32

def maxStuckThreads : ℕ := 128

inductive Policy where
  | timeshare
  | fixedpri
  | interactive
  deriving DecidableEq

structure ThreadState where
  wait : Bool := false
  susp : Bool := false
  run : Bool := false
  unint : Bool := false
  halted : Bool := false
  idle : Bool := false
  swapped : Bool := false
  swComingIn : Bool := false
  deriving DecidableEq

namespace ThreadState

def thRun : ThreadState := { run := true }

def schedState (st : ThreadState) : ThreadState :=
  { wait := st.wait, susp := st.susp, run := st.run, unint := st.unint }

end ThreadState

inductive RunqName where
  | pset
  | processor (p : ℕ)
  deriving DecidableEq

structure RunQueue where
  runq : ℕ → List ℕ
  high : ℕ
  count : ℤ

/-- As `pset_init` and `processor_init` leave it. -/
def RunQueue.empty : RunQueue := { runq := fun _ => [], high := nrqs - 1, count := 0 }

/-- What the scheduler reads of a thread. `timerDelta` is what `thread_timer_delta` has not read of
its timers. -/
structure SchedThread where
  state : ThreadState
  runq : Option RunqName
  boundProcessor : Option ℕ
  policy : Policy
  schedData : ℤ
  priority : ℤ
  schedPri : ℤ
  depressPriority : ℤ
  schedStamp : UInt32
  sleepTime : UInt32
  cpuUsage : UInt32
  schedUsage : UInt32
  cpuDelta : UInt32
  schedDelta : UInt32
  timerDelta : UInt32

inductive ProcessorState where
  | offLine
  | running
  | idle
  | dispatching
  | assign
  | shutdown
  deriving DecidableEq

structure Processor where
  runq : RunQueue
  state : ProcessorState
  nextThread : Option ℕ
  idleThread : ℕ
  currentThread : ℕ
  quantum : ℤ
  firstQuantum : Bool
  needAst : Bool

/-- The processors, the threads and the default processor set. `idle_count` is the length of the
idle queue. -/
structure Sched where
  thread : ℕ → SchedThread
  processor : ℕ → Processor
  masterProcessor : ℕ
  psetRunq : RunQueue
  policies : List Policy
  setQuantum : ℤ
  minQuantum : ℤ
  schedLoad : UInt32
  idleQueue : List ℕ
  schedTick : UInt32
  stuckThreads : List ℕ

/-! ### Priorities -/

/-- A pair of shifts; the sign of `shift2` says whether its term is added. -/
structure Shift where
  shift1 : UInt32
  shift2 : UInt32
  add : Bool

def waitShift : List Shift :=
  [⟨1, 1, true⟩, ⟨1, 3, true⟩, ⟨1, 3, false⟩, ⟨2, 7, false⟩,
   ⟨3, 5, true⟩, ⟨3, 5, false⟩, ⟨4, 8, false⟩, ⟨5, 7, true⟩,
   ⟨5, 7, false⟩, ⟨6, 10, false⟩, ⟨7, 10, true⟩, ⟨7, 9, false⟩,
   ⟨8, 11, false⟩, ⟨9, 12, true⟩, ⟨9, 11, false⟩, ⟨10, 13, false⟩,
   ⟨11, 14, true⟩, ⟨11, 13, false⟩, ⟨12, 15, false⟩, ⟨13, 17, true⟩,
   ⟨13, 15, false⟩, ⟨14, 17, false⟩, ⟨15, 19, true⟩, ⟨16, 18, true⟩,
   ⟨16, 19, false⟩, ⟨17, 22, true⟩, ⟨18, 20, true⟩, ⟨18, 20, false⟩,
   ⟨19, 26, true⟩, ⟨20, 22, true⟩, ⟨20, 22, false⟩, ⟨21, 27, false⟩]

def Shift.age (shift : Shift) (usage : UInt32) : UInt32 :=
  if shift.add then (usage >>> shift.shift1) + (usage >>> shift.shift2)
  else (usage >>> shift.shift1) - (usage >>> shift.shift2)

/-- The macro `do_priority_computation`; the shift is `PRI_SHIFT + SCHED_SHIFT`. -/
def doPriorityComputation (th : SchedThread) : ℤ :=
  max 0 (th.priority - (th.schedUsage >>> (18 + 7)).toNat)

def threadTimerDelta (schedLoad : UInt32) (th : SchedThread) : SchedThread :=
  { th with
    timerDelta := 0
    cpuDelta := th.cpuDelta + th.timerDelta
    schedDelta := th.schedDelta + th.timerDelta * schedLoad }

def ageUsage (ticks : UInt32) (th : SchedThread) : SchedThread :=
  match if ticks > 30 then none else waitShift[ticks.toNat]? with
  | none => { th with cpuUsage := 0, schedUsage := 0 }
  | some shift =>
    { th with
      cpuUsage := shift.age (th.cpuUsage + th.cpuDelta)
      schedUsage := shift.age (th.schedUsage + th.schedDelta) }

def recomputePriority (th : SchedThread) : SchedThread :=
  if th.policy ≠ .fixedpri ∧ th.depressPriority < 0 then
    { th with schedPri := doPriorityComputation th }
  else th

def updatePriority (schedTick schedLoad : UInt32) (th : SchedThread) : SchedThread :=
  let ticks := schedTick - th.schedStamp
  let slept := if th.state.run then 0 else th.sleepTime + ticks
  let stamped := { th with sleepTime := slept, schedStamp := th.schedStamp + ticks }
  let aged := ageUsage ticks (threadTimerDelta schedLoad stamped)
  recomputePriority { aged with cpuDelta := 0, schedDelta := 0 }

/-! ### The queues -/

namespace Sched

variable (s : Sched)

def setThread (t : ℕ) (th : SchedThread) : Sched :=
  { s with thread := update s.thread t th }

def setProcessor (p : ℕ) (pr : Processor) : Sched :=
  { s with processor := update s.processor p pr }

def runQueue : RunqName → RunQueue
  | .pset => s.psetRunq
  | .processor p => (s.processor p).runq

def setRunQueue (rq : RunQueue) : RunqName → Sched
  | .pset => { s with psetRunq := rq }
  | .processor p => s.setProcessor p { s.processor p with runq := rq }

def setRunq (t : ℕ) (r : Option RunqName) : Sched :=
  s.setThread t { s.thread t with runq := r }

def catchUp (t : ℕ) : Sched :=
  if (s.thread t).schedStamp ≠ s.schedTick then
    s.setThread t (updatePriority s.schedTick s.schedLoad (s.thread t))
  else s

end Sched

/-- The level of a priority, read as an `unsigned int`, and the last level for one that is too high.
-/
def whichq (pri : ℤ) : ℕ :=
  if 0 ≤ pri ∧ pri < nrqs then pri.toNat else nrqs - 1

namespace RunQueue

def enqueueTail (rq : RunQueue) (level t : ℕ) : RunQueue :=
  { runq := update rq.runq level (rq.runq level ++ [t])
    high := if level > rq.high ∨ rq.count = 0 then level else rq.high
    count := rq.count + 1 }

def remqueue (rq : RunQueue) (t : ℕ) : RunQueue :=
  { rq with runq := fun level => (rq.runq level).erase t, count := rq.count - 1 }

def dequeueHead (rq : RunQueue) (level : ℕ) : Option (ℕ × RunQueue) :=
  match rq.runq level with
  | [] => none
  | t :: rest =>
    some (t, { rq with runq := update rq.runq level rest, count := rq.count - 1 })

end RunQueue

def runQueueEnqueue (s : Sched) (r : RunqName) (t : ℕ) : Sched :=
  let rq := (s.runQueue r).enqueueTail (whichq (s.thread t).schedPri) t
  (s.setRunQueue rq r).setRunq t (some r)

def dispatchIdle (s : Sched) (p t : ℕ) : Sched :=
  { s.setProcessor p { s.processor p with nextThread := some t, state := .dispatching } with
    idleQueue := s.idleQueue.erase p }

def preemptCheck (s : Sched) (me t : ℕ) (mayPreempt : Bool) : Sched :=
  if mayPreempt ∧ (s.thread (s.processor me).currentThread).schedPri < (s.thread t).schedPri then
    s.setProcessor me { s.processor me with firstQuantum := false, needAst := true }
  else s

def boundAst (s : Sched) (me p : ℕ) : Sched :=
  if p = me ∨ (p ≠ s.masterProcessor ∧ (s.processor p).state ≠ .offLine) then
    s.setProcessor p { s.processor p with needAst := true }
  else s

def threadSetrun (s : Sched) (me t : ℕ) (mayPreempt : Bool) : Sched :=
  let s := s.catchUp t
  match (s.thread t).boundProcessor with
  | none =>
    match s.idleQueue with
    | p :: _ => dispatchIdle s p t
    | [] => preemptCheck (runQueueEnqueue s .pset t) me t mayPreempt
  | some p =>
    if (s.processor p).state = .idle then dispatchIdle s p t
    else boundAst (runQueueEnqueue s (.processor p) t) me p

def remRunq (s : Sched) (t : ℕ) : Option RunqName × Sched :=
  match (s.thread t).runq with
  | none => (none, s)
  | some r => (some r, (s.setRunQueue ((s.runQueue r).remqueue t) r).setRunq t none)

def setPri (s : Sched) (me t : ℕ) (pri : ℤ) (resched : Bool) : Sched :=
  let rem := remRunq s t
  let s := rem.2.setThread t { rem.2.thread t with schedPri := pri }
  match rem.1 with
  | none => s
  | some r => if resched then threadSetrun s me t true else runQueueEnqueue s r t

/-! ### Choosing a thread -/

def setIdle (s : Sched) (p : ℕ) : Sched :=
  if (s.processor p).state = .running then
    { s.setProcessor p { s.processor p with state := .idle } with
      idleQueue := if p = s.masterProcessor then s.idleQueue ++ [p] else p :: s.idleQueue }
  else s

/-- The hint after a removal from level `i`: with fixed priorities it goes down to the next level in
use. -/
def lowerHigh (s : Sched) (rq : RunQueue) (i : ℕ) : Option ℕ :=
  if 0 < rq.count ∧ .fixedpri ∈ s.policies then Levels.highest rq.runq i else some i

/-- `none` is the panic on a queue that counts threads and links none at or below
its hint. -/
def choosePsetThread (s : Sched) (p : ℕ) : Option (ℕ × Sched) :=
  if 0 < s.psetRunq.count then do
    let i ← Levels.highest s.psetRunq.runq s.psetRunq.high
    let (t, rq) ← s.psetRunq.dequeueHead i
    let high ← lowerHigh s rq i
    some (t, (s.setRunQueue { rq with high := high } .pset).setRunq t none)
  else some ((s.processor p).idleThread, setIdle s p)

def chooseThread (s : Sched) (p : ℕ) : Option (ℕ × Sched) :=
  let runq := (s.processor p).runq
  if 0 < runq.count then do
    let i ← Levels.highest runq.runq runq.high
    let (t, rq) ← runq.dequeueHead i
    some (t, (s.setRunQueue { rq with high := i } (.processor p)).setRunq t none)
  else choosePsetThread s p

def StillRunnable (th : SchedThread) (p : ℕ) : Prop :=
  th.state = .thRun ∧ (th.boundProcessor = none ∨ th.boundProcessor = some p)

instance (th : SchedThread) (p : ℕ) : Decidable (StillRunnable th p) :=
  inferInstanceAs (Decidable (_ ∧ (_ ∨ _)))

/-- The entry at the hint of the processor set's queue is taken, if there is one. -/
def selectAtHint (s : Sched) (p : ℕ) : Option (ℕ × Sched) :=
  let runq := s.psetRunq
  match runq.dequeueHead runq.high with
  | none =>
    match runq.high with
    | 0 => none
    | high + 1 => choosePsetThread { s with psetRunq := { runq with high := high } } p
  | some (t, rq) => do
    let high ← lowerHigh s rq runq.high
    some (t, (s.setRunQueue { rq with high := high } .pset).setRunq t none)

def selectPset (s : Sched) (p : ℕ) : Option (ℕ × Sched) :=
  let t := (s.processor p).currentThread
  if s.psetRunq.count = 0 ∨ (s.psetRunq.high : ℤ) < (s.thread t).schedPri then
    if StillRunnable (s.thread t) p then some (t, s.catchUp t)
    else choosePsetThread s p
  else selectAtHint s p

def startQuantum (s : Sched) (p : ℕ) (quantum : ℤ) : Sched :=
  s.setProcessor p { s.processor p with quantum := quantum, firstQuantum := true }

def threadQuantum (s : Sched) (t : ℕ) : ℤ :=
  if (s.thread t).policy ≠ .fixedpri then s.setQuantum else (s.thread t).schedData

def threadSelect (s : Sched) (p : ℕ) : Option (ℕ × Sched) :=
  if 0 < (s.processor p).runq.count then do
    let (t, s) ← chooseThread s p
    some (t, startQuantum s p s.minQuantum)
  else do
    let (t, s) ← selectPset s p
    some (t, startQuantum s p (threadQuantum s t))

/-! ### The scan for stuck threads -/

def Stuck (s : Sched) (t : ℕ) : Prop :=
  (s.thread t).state.schedState = .thRun ∧ (s.thread t).schedStamp ≠ s.schedTick

instance (s : Sched) (t : ℕ) : Decidable (Stuck s t) :=
  inferInstanceAs (Decidable (_ ∧ _))

def saveStuck (s : Sched) (r : RunqName) (t : ℕ) : Sched :=
  { (s.setRunQueue ((s.runQueue r).remqueue t) r).setRunq t none with
    stuckThreads := s.stuckThreads ++ [t] }

/-- The walk along one level of `do_runq_scan`: whether it ran out of space, and the
count still to be seen. -/
def scanQueue (r : RunqName) : List ℕ → Sched → ℤ → Bool × Sched × ℤ
  | [], s, count => (false, s, count)
  | t :: next, s, count =>
    if Stuck s t then
      if s.stuckThreads.length = maxStuckThreads then (true, s, count)
      else scanQueue r next (saveStuck s r t) (count - 1)
    else scanQueue r next s (count - 1)

/-- The levels of `do_runq_scan` from one down; `none` when it walks below the
first level. -/
def scanLevels (r : RunqName) : ℕ → Sched → ℤ → Option (Bool × Sched)
  | level, s, count =>
    if count ≤ 0 then some (false, s)
    else
      match scanQueue r ((s.runQueue r).runq level) s count with
      | (true, s', _) => some (true, s')
      | (false, s', count') =>
        match level with
        | 0 => if count' ≤ 0 then some (false, s') else none
        | below + 1 => scanLevels r below s' count'

def doRunqScan (s : Sched) (r : RunqName) : Option (Bool × Sched) :=
  scanLevels r (s.runQueue r).high s (s.runQueue r).count

def fixStuck (s : Sched) (me t : ℕ) : Sched :=
  let s := { s with stuckThreads := s.stuckThreads.dropLast }
  if (s.thread t).state.schedState = .thRun then
    let th := updatePriority s.schedTick s.schedLoad (s.thread t)
    threadSetrun (s.setThread t th) me t true
  else s

end Rhapsody.Kern
