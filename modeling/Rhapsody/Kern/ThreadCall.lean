import Mathlib

/-! Thread callouts (`kern/thread_call.c`). Entries are numbers: those below `internalCallNum`
are the internal storage. A step is what happens under one hold of `thread_call_lock`; the wakeups
that follow it are kept as events. A result `none` stands for a panic or for the use of a null
pointer. -/

namespace Rhapsody.Kern

inductive CallStatus where
  | idle | pending | delayed
  deriving DecidableEq

structure Tvalspec where
  tvSec : ℕ
  tvNsec : ℤ
  deriving DecidableEq

def tvalspecZero : Tvalspec := ⟨0, 0⟩

def nsecPerSec : ℤ := 1000000000

def badTvalspec (t : Tvalspec) : Bool := t.tvNsec < 0 || t.tvNsec ≥ nsecPerSec

def cmpTvalspec (t1 t2 : Tvalspec) : ℤ :=
  if t1.tvSec > t2.tvSec then 1
  else if t1.tvSec < t2.tvSec then -1
  else t1.tvNsec - t2.tvNsec

def internalCallNum : ℕ := 768

def callThreadMin : ℤ := 4

structure ThreadCall (φ σ : Type) where
  func : φ
  spec : σ
  specProto : σ
  deadline : Tvalspec
  status : CallStatus

/-- A callout thread is at the top of its loop, perhaps asleep there, or runs a
function. -/
inductive CallThread where
  | top | running
  deriving DecidableEq

structure CallSystem (φ σ : Type) where
  call : ℕ → ThreadCall φ σ
  internalCallFreeQueue : List ℕ
  pendingCallQueue : List ℕ
  delayedCallQueue : List ℕ
  pendingCallNum : ℤ
  activeCallNum : ℤ
  callThreadNum : ℤ
  /-- What the system timer was last set to. -/
  deadline : Option Tvalspec
  threads : List CallThread
  /-- The local queue of each timer interrupt that has let go of the lock. -/
  intransitCallQueues : List (List ℕ)

inductive CallEvent (φ σ : Type) where
  | scheduled (c : ℕ) (func : φ) (spec : σ)
  | started (c : ℕ) (func : φ) (spec : σ)
  | cancelled (c : ℕ)
  /-- A cancel by function and argument that leaves none of its instances. -/
  | cancelledFunc (func : φ) (spec : σ)
  /-- `thread_wakeup_one(&pending_call_num)`, and of `&call_thread_num` if set. -/
  | wakeup (activate : Bool)
  deriving DecidableEq

variable {φ σ : Type}

def threadCallInit (call : ℕ → ThreadCall φ σ) : CallSystem φ σ where
  call := call
  internalCallFreeQueue := List.range internalCallNum
  pendingCallQueue := []
  delayedCallQueue := []
  pendingCallNum := 0
  activeCallNum := 0
  callThreadNum := 0
  deadline := none
  threads := []
  intransitCallQueues := []

namespace CallSystem

variable (s : CallSystem φ σ)

def setCall (c : ℕ) (entry : ThreadCall φ σ) : CallSystem φ σ :=
  { s with call := Function.update s.call c entry }

def setStatus (c : ℕ) (status : CallStatus) : CallSystem φ σ :=
  s.setCall c { s.call c with status := status }

def internalCallAllocate : Option (ℕ × CallSystem φ σ) :=
  match s.internalCallFreeQueue with
  | [] => none
  | c :: rest => some (c, { s with internalCallFreeQueue := rest })

def threadCallRelease (c : ℕ) : CallSystem φ σ :=
  if c < internalCallNum then
    { s with internalCallFreeQueue := s.internalCallFreeQueue ++ [c] }
  else s

def pendingCallEnqueue (c : ℕ) : CallSystem φ σ :=
  setStatus { s with
    pendingCallQueue := s.pendingCallQueue ++ [c]
    pendingCallNum := s.pendingCallNum + 1 } c .pending

def pendingCallDequeue (c : ℕ) : CallSystem φ σ :=
  setStatus { s with
    pendingCallQueue := s.pendingCallQueue.erase c
    pendingCallNum := s.pendingCallNum - 1 } c .idle

/-- Behind the first entry with the same deadline, or in front of the first one with a later one. -/
def delayedInsert (c : ℕ) : List ℕ → List ℕ
  | [] => [c]
  | current :: rest =>
    let deadlineCmp := cmpTvalspec (s.call c).deadline (s.call current).deadline
    if deadlineCmp < 0 then c :: current :: rest
    else if deadlineCmp = 0 then current :: c :: rest
    else current :: delayedInsert c rest

def delayedCallEnqueue (c : ℕ) : CallSystem φ σ :=
  setStatus { s with delayedCallQueue := s.delayedInsert c s.delayedCallQueue } c .delayed

def delayedCallDequeue (c : ℕ) : CallSystem φ σ :=
  setStatus { s with delayedCallQueue := s.delayedCallQueue.erase c } c .idle

def setDelayedCallTimer (c : ℕ) : CallSystem φ σ :=
  { s with deadline := some (s.call c).deadline }

def setTimerIfFirst (c : ℕ) : CallSystem φ σ :=
  if s.delayedCallQueue.head? = some c then s.setDelayedCallTimer c else s

def callThreadWake : CallEvent φ σ :=
  .wakeup (s.callThreadNum < s.activeCallNum + s.pendingCallNum)

variable [DecidableEq φ] [DecidableEq σ] (func : φ) (spec : σ)

def matchesCall (c : ℕ) : Bool := (s.call c).func = func ∧ (s.call c).spec = spec

/-! ## Functions -/

def threadCallFunc [Zero σ] (uniqueCall : Bool) :
    Option (List (CallEvent φ σ) × CallSystem φ σ) :=
  if uniqueCall && s.pendingCallQueue.any (s.matchesCall func spec) then some ([], s)
  else do
    let (c, s) ← s.internalCallAllocate
    let s := s.setCall c { s.call c with func := func, spec := spec, specProto := 0 }
    let s := s.pendingCallEnqueue c
    return ([.scheduled c func spec, s.callThreadWake], s)

omit [DecidableEq φ] [DecidableEq σ] in
def threadCallFuncDelayed [Zero σ] (deadline : Tvalspec) :
    Option (List (CallEvent φ σ) × CallSystem φ σ) := do
  let deadline := if badTvalspec deadline then tvalspecZero else deadline
  let (c, s) ← s.internalCallAllocate
  let s := s.setCall c { s.call c with
    func := func, spec := spec, specProto := 0, deadline := deadline }
  let s := s.delayedCallEnqueue c
  return ([.scheduled c func spec], s.setTimerIfFirst c)

/-- The loop of `_remove_from_pending_queue` and `_remove_from_delayed_queue`;
returns the entries that were removed. -/
def removeFrom (dequeue : CallSystem φ σ → ℕ → CallSystem φ σ) (removeAll : Bool) :
    List ℕ → CallSystem φ σ → List ℕ × CallSystem φ σ
  | [], s => ([], s)
  | c :: rest, s =>
    if s.matchesCall func spec c then
      let s := (dequeue s c).threadCallRelease c
      if removeAll then
        let r := removeFrom dequeue removeAll rest s
        (c :: r.1, r.2)
      else ([c], s)
    else removeFrom dequeue removeAll rest s

def removeFromPendingQueue (removeAll : Bool) : List ℕ × CallSystem φ σ :=
  removeFrom func spec pendingCallDequeue removeAll s.pendingCallQueue s

def removeFromDelayedQueue (removeAll : Bool) : List ℕ × CallSystem φ σ :=
  removeFrom func spec delayedCallDequeue removeAll s.delayedCallQueue s

def threadCallFuncCancel (cancelAll : Bool) : List (CallEvent φ σ) × CallSystem φ σ :=
  let r := s.removeFromPendingQueue func spec cancelAll
  match cancelAll, r.1 with
  | false, c :: _ => ([.cancelled c], r.2)
  | _, _ =>
    let r := r.2.removeFromDelayedQueue func spec cancelAll
    match cancelAll, r.1 with
    | false, c :: _ => ([.cancelled c], r.2)
    | _, _ => ([.cancelledFunc func spec], r.2)

/-! ## External entries -/

omit [DecidableEq φ] [DecidableEq σ]

/-- `thread_call_enter_spec`, and `thread_call_enter` with the argument that the
entry was made for. -/
def threadCallEnterSpec (c : ℕ) (spec : σ) : List (CallEvent φ σ) × CallSystem φ σ :=
  if (s.call c).status = .idle then
    let entry := { s.call c with spec := spec }
    let s := (s.setCall c entry).pendingCallEnqueue c
    ([.scheduled c entry.func entry.spec, s.callThreadWake], s)
  else ([], s)

def threadCallEnter (c : ℕ) : List (CallEvent φ σ) × CallSystem φ σ :=
  s.threadCallEnterSpec c (s.call c).specProto

def threadCallEnterSpecDelayed (c : ℕ) (spec : σ) (deadline : Tvalspec) :
    List (CallEvent φ σ) × CallSystem φ σ :=
  if (s.call c).status = .idle then
    let deadline := if badTvalspec deadline then tvalspecZero else deadline
    let entry := { s.call c with spec := spec, deadline := deadline }
    let s := (s.setCall c entry).delayedCallEnqueue c
    ([.scheduled c entry.func entry.spec], s.setTimerIfFirst c)
  else ([], s)

def threadCallEnterDelayed (c : ℕ) (deadline : Tvalspec) :
    List (CallEvent φ σ) × CallSystem φ σ :=
  s.threadCallEnterSpecDelayed c (s.call c).specProto deadline

def threadCallCancel (c : ℕ) : List (CallEvent φ σ) × CallSystem φ σ :=
  match (s.call c).status with
  | .pending => ([.cancelled c], (s.pendingCallDequeue c).threadCallRelease c)
  | .delayed => ([.cancelled c], (s.delayedCallDequeue c).threadCallRelease c)
  | .idle => ([.cancelled c], s)

/-! ## Callout threads -/

def callThreadLoop (k : ℕ) : Option (List (CallEvent φ σ) × CallSystem φ σ) :=
  if s.pendingCallNum > 0 then
    match s.pendingCallQueue with
    | [] => none
    | c :: rest =>
      let entry := s.call c
      let s := setStatus { s with
        pendingCallQueue := rest, pendingCallNum := s.pendingCallNum - 1 } c .idle
      let s := s.threadCallRelease c
      some ([.started c entry.func entry.spec], { s with
        activeCallNum := s.activeCallNum + 1, threads := s.threads.set k .running })
  else if s.callThreadNum - s.activeCallNum ≤ callThreadMin then
    some ([], { s with threads := s.threads.set k .top })
  else
    some ([], { s with
      callThreadNum := s.callThreadNum - 1, threads := s.threads.eraseIdx k })

def callThreadContinue (k : ℕ) : Option (List (CallEvent φ σ) × CallSystem φ σ) :=
  match s.threads[k]? with
  | none => none
  | some .top => s.callThreadLoop k
  | some .running => callThreadLoop { s with activeCallNum := s.activeCallNum - 1 } k

def callActivateThreadContinue : CallSystem φ σ :=
  if s.callThreadNum < s.activeCallNum + s.pendingCallNum then
    { s with callThreadNum := s.callThreadNum + 1, threads := s.threads ++ [.top] }
  else s

/-! ## The timer interrupt -/

def collectDue (timestamp : Tvalspec) : List ℕ → CallSystem φ σ → List ℕ × CallSystem φ σ
  | [], s => ([], s)
  | c :: rest, s =>
    if cmpTvalspec (s.call c).deadline timestamp ≤ 0 then
      let r := collectDue timestamp rest (s.delayedCallDequeue c)
      (c :: r.1, r.2)
    else ([], s)

def setTimerToNext : CallSystem φ σ :=
  match s.delayedCallQueue with
  | [] => s
  | c :: _ => s.setDelayedCallTimer c

/-- One turn of the second loop; the lock is let go behind it. -/
def takeFromTransit (c : ℕ) : CallEvent φ σ × CallSystem φ σ :=
  let s := s.pendingCallEnqueue c
  (s.callThreadWake, s)

def delayedCallInterrupt (timestamp : Tvalspec) : List (CallEvent φ σ) × CallSystem φ σ :=
  let r := collectDue timestamp s.delayedCallQueue s
  let s := r.2.setTimerToNext
  match r.1 with
  | [] => ([], s)
  | c :: rest =>
    let (event, s) := s.takeFromTransit c
    ([event], { s with intransitCallQueues := s.intransitCallQueues ++ [rest] })

def delayedCallInterruptContinue (k : ℕ) : Option (List (CallEvent φ σ) × CallSystem φ σ) :=
  match s.intransitCallQueues[k]? with
  | none => none
  | some [] => some ([], { s with intransitCallQueues := s.intransitCallQueues.eraseIdx k })
  | some (c :: rest) =>
    let (event, s) := s.takeFromTransit c
    some ([event], { s with intransitCallQueues := s.intransitCallQueues.set k rest })

end CallSystem

inductive CallOp (φ σ : Type) where
  | func (func : φ) (spec : σ) (uniqueCall : Bool)
  | funcDelayed (func : φ) (spec : σ) (deadline : Tvalspec)
  | funcCancel (func : φ) (spec : σ) (cancelAll : Bool)
  | enter (x : ℕ)
  | enterSpec (x : ℕ) (spec : σ)
  | enterDelayed (x : ℕ) (deadline : Tvalspec)
  | enterSpecDelayed (x : ℕ) (spec : σ) (deadline : Tvalspec)
  | cancel (x : ℕ)
  | thread (k : ℕ)
  | activate
  | interrupt (timestamp : Tvalspec)
  | interruptContinue (k : ℕ)

def externalCall (x : ℕ) : ℕ := internalCallNum + x

def CallSystem.step [DecidableEq φ] [DecidableEq σ] [Zero σ] (s : CallSystem φ σ) :
    CallOp φ σ → Option (List (CallEvent φ σ) × CallSystem φ σ)
  | .func func spec uniqueCall => s.threadCallFunc func spec uniqueCall
  | .funcDelayed func spec deadline => s.threadCallFuncDelayed func spec deadline
  | .funcCancel func spec cancelAll => some (s.threadCallFuncCancel func spec cancelAll)
  | .enter x => some (s.threadCallEnter (externalCall x))
  | .enterSpec x spec => some (s.threadCallEnterSpec (externalCall x) spec)
  | .enterDelayed x deadline => some (s.threadCallEnterDelayed (externalCall x) deadline)
  | .enterSpecDelayed x spec deadline =>
    some (s.threadCallEnterSpecDelayed (externalCall x) spec deadline)
  | .cancel x => some (s.threadCallCancel (externalCall x))
  | .thread k => s.callThreadContinue k
  | .activate => some ([], s.callActivateThreadContinue)
  | .interrupt timestamp => some (s.delayedCallInterrupt timestamp)
  | .interruptContinue k => s.delayedCallInterruptContinue k

end Rhapsody.Kern
