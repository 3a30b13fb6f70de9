import Rhapsody.Kern.ThreadCall
import Rhapsody.Lib.Census

/-! The threads behind the callouts (`kern/thread_call.c`): who sleeps, who has been
woken, and which wakeups are still to come after the lock has been let go. -/

namespace Rhapsody.Kern

open List

variable {φ σ : Type}

/-- A callout thread. It is `starting` while `kernel_thread` makes it and `ready` until it has the
lock. -/
inductive CalloutThread where
  | starting | ready | waiting | running
  deriving DecidableEq

namespace CalloutThread

def place : CalloutThread → CallThread
  | .running => .running
  | _ => .top

def start : CalloutThread → CalloutThread
  | .starting => .ready
  | thread => thread

end CalloutThread

/-- `creating` is between `call_thread_num++` and the return of `kernel_thread`. -/
inductive ActivateThread where
  | ready | creating | waiting
  deriving DecidableEq

/-- A caller of `_call_thread_wake` without the lock: it has both wakeups before it, the second one
if `activate` is set, or only that. -/
inductive Waker where
  | pending (activate : Bool)
  | activate
  deriving DecidableEq

namespace Waker

def IsPending : Waker → Bool
  | .pending _ => true
  | .activate => false

def WakesActivate : Waker → Bool
  | .pending second => second
  | .activate => true

def rest : Bool → List Waker
  | true => [.activate]
  | false => []

end Waker

def wakersOf (events : List (CallEvent φ σ)) : List Waker :=
  events.filterMap fun
    | .wakeup activate => some (.pending activate)
    | _ => none

structure CalloutSystem (φ σ : Type) where
  calls : CallSystem φ σ
  threads : List CalloutThread
  activate : ActivateThread
  wakers : List Waker

/-- The operations of the lock other than those of the two kinds of threads. -/
def CallOp.IsCaller : CallOp φ σ → Bool
  | .thread _ => false
  | .activate => false
  | _ => true

inductive CalloutOp (φ σ : Type) where
  | caller (op : CallOp φ σ)
  | thread (k : ℕ)
  | activate
  | kernelThread
  /-- The `w`-th waker wakes thread `k`, if any thread waits. -/
  | wakePending (w k : ℕ)
  | wakeActivate (w : ℕ)

namespace CalloutSystem

variable (s : CalloutSystem φ σ)

def init (call : ℕ → ThreadCall φ σ) : CalloutSystem φ σ where
  calls := threadCallInit call
  threads := []
  activate := .ready
  wakers := []

/-- A callout thread gives up the lock in a function, in `assert_wait`, or at its end. -/
def callThread (k : ℕ) : Option (CalloutSystem φ σ) := do
  let (_, calls) ← s.calls.callThreadContinue k
  return { s with
    calls := calls
    threads :=
      if calls.callThreadNum < s.calls.callThreadNum then s.threads.eraseIdx k
      else match calls.threads[k]? with
        | some .running => s.threads.set k .running
        | _ => s.threads.set k .waiting }

def callActivateThread : CalloutSystem φ σ :=
  let calls := s.calls.callActivateThreadContinue
  if s.calls.callThreadNum < s.calls.activeCallNum + s.calls.pendingCallNum then
    { s with calls := calls, threads := s.threads ++ [.starting], activate := .creating }
  else { s with calls := calls, activate := .waiting }

/-- `kernel_thread` has made the thread; the activate thread blocks without a wait
and runs again. -/
def kernelThread : CalloutSystem φ σ :=
  { s with
    threads := s.threads.map CalloutThread.start
    activate := .ready }

def wakePending (k : ℕ) : Option (List CalloutThread) :=
  if .waiting ∈ s.threads then
    if s.threads[k]? = some .waiting then some (s.threads.set k .ready) else none
  else some s.threads

def wakeActivate : ActivateThread :=
  match s.activate with
  | .waiting => .ready
  | activate => activate

def step [DecidableEq φ] [DecidableEq σ] [Zero σ] : CalloutOp φ σ → Option (CalloutSystem φ σ)
  | .caller op =>
    if op.IsCaller then do
      let (events, calls) ← s.calls.step op
      return { s with calls := calls, wakers := s.wakers ++ wakersOf events }
    else none
  | .thread k =>
    match s.threads[k]? with
    | some .ready | some .running => s.callThread k
    | _ => none
  | .activate =>
    match s.activate with
    | .ready => some s.callActivateThread
    | _ => none
  | .kernelThread =>
    match s.activate with
    | .creating => some s.kernelThread
    | _ => none
  | .wakePending w k =>
    match s.wakers[w]? with
    | some (.pending activate) => do
      let threads ← s.wakePending k
      return { s with threads := threads, wakers := s.wakers.eraseIdx w ++ Waker.rest activate }
    | _ => none
  | .wakeActivate w =>
    match s.wakers[w]? with
    | some .activate =>
      some { s with activate := s.wakeActivate, wakers := s.wakers.eraseIdx w }
    | _ => none

/-- Entries are pending, every callout thread is in a function or waits, the activate thread waits,
and no wakeup and no creation is under way. -/
def Stuck : Prop :=
  0 < s.calls.pendingCallNum ∧ (∀ t ∈ s.threads, t = .running ∨ t = .waiting) ∧
    s.activate = .waiting ∧ s.wakers = []

end CalloutSystem

/-! ## What a caller does to the counters -/

namespace CallSystem

/-- The step is no business of the threads. Each entry that it makes pending has a
wakeup behind it. -/
structure Calls (s : CallSystem φ σ) (events : List (CallEvent φ σ)) (s' : CallSystem φ σ) :
    Prop where
  threads : s'.threads = s.threads
  active : s'.activeCallNum = s.activeCallNum
  num : s'.callThreadNum = s.callThreadNum
  pending : (s'.pendingCallNum ≤ s.pendingCallNum ∧ wakersOf events = []) ∨
    (s'.pendingCallNum = s.pendingCallNum + 1 ∧ wakersOf events =
      [.pending (s.callThreadNum < s.activeCallNum + s'.pendingCallNum)])

variable {s s' s'' : CallSystem φ σ} {c : ℕ} {events : List (CallEvent φ σ)}

lemma Calls.refl (s : CallSystem φ σ) : s.Calls [] s := ⟨rfl, rfl, rfl, .inl ⟨le_rfl, rfl⟩⟩

lemma Calls.trans_quiet (h : s.Calls [] s') (h' : s'.Calls events s'')
    (heq : s'.pendingCallNum = s.pendingCallNum) : s.Calls events s'' := by
  refine ⟨h'.threads.trans h.threads, h'.active.trans h.active, h'.num.trans h.num, ?_⟩
  have h'' := h'.pending
  rwa [heq, h.active, h.num] at h''

lemma Calls.trans_down (h : s.Calls [] s') (h' : s'.Calls [] s'') : s.Calls [] s'' := by
  refine ⟨h'.threads.trans h.threads, h'.active.trans h.active, h'.num.trans h.num, .inl ⟨?_, rfl⟩⟩
  rcases h.pending with ⟨hp, -⟩ | ⟨-, hp⟩
  · rcases h'.pending with ⟨hp', -⟩ | ⟨-, hp'⟩
    · exact hp'.trans hp
    · cases hp'
  · cases hp

lemma Calls.of_wakers {events' : List (CallEvent φ σ)} (h : s.Calls events s')
    (he : wakersOf events' = wakersOf events) : s.Calls events' s' :=
  ⟨h.threads, h.active, h.num, by rw [he]; exact h.pending⟩

lemma Calls.setCall (entry : ThreadCall φ σ) : s.Calls [] (s.setCall c entry) :=
  ⟨rfl, rfl, rfl, .inl ⟨le_rfl, rfl⟩⟩

lemma release_counters : (s.threadCallRelease c).threads = s.threads ∧
    (s.threadCallRelease c).callThreadNum = s.callThreadNum ∧
    (s.threadCallRelease c).activeCallNum = s.activeCallNum ∧
    (s.threadCallRelease c).pendingCallNum = s.pendingCallNum := by
  rw [threadCallRelease]
  split <;> exact ⟨rfl, rfl, rfl, rfl⟩

lemma Calls.release : s.Calls [] (s.threadCallRelease c) := by
  obtain ⟨ht, hn, ha, hp⟩ := release_counters (s := s) (c := c)
  exact ⟨ht, ha, hn, .inl ⟨hp.le, rfl⟩⟩

lemma Calls.setTimer : s.Calls [] (s.setTimerIfFirst c) := by
  rw [setTimerIfFirst]
  split
  · exact ⟨rfl, rfl, rfl, .inl ⟨le_rfl, rfl⟩⟩
  · exact .refl s

lemma Calls.delayedEnqueue : s.Calls [] (s.delayedCallEnqueue c) :=
  ⟨rfl, rfl, rfl, .inl ⟨le_rfl, rfl⟩⟩

lemma Calls.delayedDequeue : s.Calls [] (s.delayedCallDequeue c) :=
  ⟨rfl, rfl, rfl, .inl ⟨le_rfl, rfl⟩⟩

lemma Calls.pendingDequeue : s.Calls [] (s.pendingCallDequeue c) := by
  refine ⟨rfl, rfl, rfl, .inl ⟨?_, rfl⟩⟩
  change s.pendingCallNum - 1 ≤ s.pendingCallNum
  omega

lemma Calls.pendingEnqueue :
    s.Calls [(s.pendingCallEnqueue c).callThreadWake] (s.pendingCallEnqueue c) :=
  ⟨rfl, rfl, rfl, .inr ⟨rfl, rfl⟩⟩

lemma Calls.allocate (h : s.internalCallAllocate = some (c, s')) :
    s.Calls [] s' ∧ s'.pendingCallNum = s.pendingCallNum := by
  rw [internalCallAllocate] at h
  split at h
  · cases h
  · cases h
    exact ⟨⟨rfl, rfl, rfl, .inl ⟨le_rfl, rfl⟩⟩, rfl⟩

section
variable [DecidableEq φ] [DecidableEq σ]

lemma Calls.removeFrom {dequeue : CallSystem φ σ → ℕ → CallSystem φ σ}
    (hd : ∀ s c, Calls s [] (dequeue s c)) (func : φ) (spec : σ) (removeAll : Bool) (cs : List ℕ) :
    s.Calls [] (removeFrom func spec dequeue removeAll cs s).2 := by
  induction cs generalizing s with
  | nil => exact .refl s
  | cons c rest ih =>
    have hone : s.Calls [] ((dequeue s c).threadCallRelease c) := (hd s c).trans_down .release
    rw [CallSystem.removeFrom]
    split
    · cases removeAll with
      | false => exact hone
      | true => exact hone.trans_down ih
    · exact ih

variable {spec : σ}

lemma Calls.func [Zero σ] {func : φ} {uniqueCall : Bool}
    (h : s.threadCallFunc func spec uniqueCall = some (events, s')) : s.Calls events s' := by
  rw [threadCallFunc] at h
  split at h
  · cases h
    exact .refl s
  obtain ⟨⟨c, s1⟩, ha, h⟩ := Option.bind_eq_some_iff.1 h
  cases h
  obtain ⟨h1, hp⟩ := Calls.allocate ha
  exact (h1.trans_quiet (Calls.trans_quiet (.setCall _) .pendingEnqueue rfl) hp).of_wakers rfl

omit [DecidableEq φ] [DecidableEq σ] in
lemma Calls.funcDelayed [Zero σ] {func : φ} {deadline : Tvalspec}
    (h : s.threadCallFuncDelayed func spec deadline = some (events, s')) : s.Calls events s' := by
  obtain ⟨⟨c, s1⟩, ha, h⟩ := Option.bind_eq_some_iff.1 h
  cases h
  have h1 (entry : ThreadCall φ σ) := (Calls.allocate ha).1.trans_down (.setCall (c := c) entry)
  have h2 (entry : ThreadCall φ σ) := (h1 entry).trans_down (.delayedEnqueue (c := c))
  exact ((h2 _).trans_down .setTimer).of_wakers rfl

lemma Calls.funcCancel (func : φ) (spec : σ) (cancelAll : Bool) :
    s.Calls (s.threadCallFuncCancel func spec cancelAll).1
      (s.threadCallFuncCancel func spec cancelAll).2 := by
  have h1 : s.Calls [] (s.removeFromPendingQueue func spec cancelAll).2 :=
    .removeFrom (fun _ _ => .pendingDequeue) func spec cancelAll _
  have h2 : s.Calls [] ((s.removeFromPendingQueue func spec cancelAll).2.removeFromDelayedQueue
      func spec cancelAll).2 :=
    h1.trans_down (.removeFrom (fun _ _ => .delayedDequeue) func spec cancelAll _)
  unfold threadCallFuncCancel
  dsimp only
  split
  · exact h1.of_wakers rfl
  split <;> exact h2.of_wakers rfl

end

lemma Calls.enterSpec (spec : σ) :
    s.Calls (s.threadCallEnterSpec c spec).1 (s.threadCallEnterSpec c spec).2 := by
  rw [threadCallEnterSpec]
  split
  · exact (Calls.trans_quiet (.setCall _) .pendingEnqueue rfl).of_wakers rfl
  · exact .refl s

lemma Calls.enterSpecDelayed (spec : σ) (deadline : Tvalspec) :
    s.Calls (s.threadCallEnterSpecDelayed c spec deadline).1
      (s.threadCallEnterSpecDelayed c spec deadline).2 := by
  rw [threadCallEnterSpecDelayed]
  split
  · exact (Calls.trans_down ((Calls.setCall _).trans_down .delayedEnqueue) .setTimer).of_wakers rfl
  · exact .refl s

lemma Calls.cancel : s.Calls (s.threadCallCancel c).1 (s.threadCallCancel c).2 := by
  rw [threadCallCancel]
  split
  · exact (Calls.pendingDequeue.trans_down .release).of_wakers rfl
  · exact (Calls.delayedDequeue.trans_down .release).of_wakers rfl
  · exact (Calls.refl s).of_wakers rfl

lemma Calls.collectDue (timestamp : Tvalspec) (cs : List ℕ) :
    s.Calls [] (collectDue timestamp cs s).2 ∧
      (collectDue timestamp cs s).2.pendingCallNum = s.pendingCallNum := by
  induction cs generalizing s with
  | nil => exact ⟨.refl s, rfl⟩
  | cons c rest ih =>
    rw [CallSystem.collectDue]
    split
    · exact ⟨Calls.delayedDequeue.trans_down ih.1, ih.2⟩
    · exact ⟨.refl s, rfl⟩

lemma Calls.setTimerToNext :
    s.Calls [] s.setTimerToNext ∧ s.setTimerToNext.pendingCallNum = s.pendingCallNum := by
  rw [CallSystem.setTimerToNext]
  split
  · exact ⟨.refl s, rfl⟩
  · exact ⟨⟨rfl, rfl, rfl, .inl ⟨le_rfl, rfl⟩⟩, rfl⟩

lemma Calls.intransit (h : s.Calls events s') (queues : List (List ℕ)) :
    s.Calls events { s' with intransitCallQueues := queues } :=
  ⟨h.threads, h.active, h.num, h.pending⟩

lemma Calls.interrupt (timestamp : Tvalspec) :
    s.Calls (s.delayedCallInterrupt timestamp).1 (s.delayedCallInterrupt timestamp).2 := by
  have h1 := Calls.collectDue (s := s) timestamp s.delayedCallQueue
  have h2 := Calls.setTimerToNext (s := (CallSystem.collectDue timestamp s.delayedCallQueue s).2)
  rw [delayedCallInterrupt]
  split
  · exact h1.1.trans_down h2.1
  · exact ((h1.1.trans_down h2.1).trans_quiet .pendingEnqueue (h2.2.trans h1.2)).intransit _

lemma Calls.interruptContinue {k : ℕ}
    (h : s.delayedCallInterruptContinue k = some (events, s')) : s.Calls events s' := by
  rw [delayedCallInterruptContinue] at h
  split at h
  · cases h
  · cases h
    exact (Calls.refl s).intransit _
  · cases h
    exact Calls.pendingEnqueue.intransit _

lemma Calls.of_some {r : List (CallEvent φ σ) × CallSystem φ σ} (hr : s.Calls r.1 r.2)
    (h : some r = some (events, s')) : s.Calls events s' := by
  cases h
  exact hr

lemma Calls.step [DecidableEq φ] [DecidableEq σ] [Zero σ] {op : CallOp φ σ}
    (hop : op.IsCaller = true) (h : s.step op = some (events, s')) : s.Calls events s' := by
  cases op with
  | func func spec uniqueCall => exact .func h
  | funcDelayed func spec deadline => exact .funcDelayed h
  | funcCancel func spec cancelAll => exact .of_some (.funcCancel func spec cancelAll) h
  | enter x => exact .of_some (.enterSpec _) h
  | enterSpec x spec => exact .of_some (.enterSpec spec) h
  | enterDelayed x deadline => exact .of_some (.enterSpecDelayed _ deadline) h
  | enterSpecDelayed x spec deadline => exact .of_some (.enterSpecDelayed spec deadline) h
  | cancel x => exact .of_some .cancel h
  | thread k => cases hop
  | activate => cases hop
  | interrupt timestamp => exact .of_some (.interrupt timestamp) h
  | interruptContinue k => exact .interruptContinue h

end CallSystem

/-! ## What a callout thread does -/

namespace CallSystem

variable {s s' : CallSystem φ σ} {k : ℕ} {events : List (CallEvent φ σ)}

inductive Holds (s : CallSystem φ σ) (k : ℕ) (s' : CallSystem φ σ) : Prop where
  | runs (threads : s'.threads = s.threads.set k .running)
      (num : s'.callThreadNum = s.callThreadNum)
      (active : s'.activeCallNum = s.activeCallNum + 1)
      (pending : s'.pendingCallNum = s.pendingCallNum - 1)
  | waits (threads : s'.threads = s.threads.set k .top) (num : s'.callThreadNum = s.callThreadNum)
      (active : s'.activeCallNum = s.activeCallNum)
      (pending : s'.pendingCallNum = s.pendingCallNum)
      (none : s.pendingCallNum ≤ 0)
  | ends (threads : s'.threads = s.threads.eraseIdx k)
      (num : s'.callThreadNum = s.callThreadNum - 1)
      (active : s'.activeCallNum = s.activeCallNum)
      (pending : s'.pendingCallNum = s.pendingCallNum)
      (none : s.pendingCallNum ≤ 0)
      (spare : callThreadMin < s.callThreadNum - s.activeCallNum)

lemma holds_loop (h : s.callThreadLoop k = some (events, s')) : s.Holds k s' := by
  rw [callThreadLoop] at h
  split at h
  · split at h
    · cases h
    next c rest hq =>
      cases h
      obtain ⟨ht, hn, ha, hp⟩ := release_counters (c := c) (s := setStatus { s with
        pendingCallQueue := rest, pendingCallNum := s.pendingCallNum - 1 } c .idle)
      exact .runs (congrArg (·.set k .running) ht) hn (congrArg (· + 1) ha) hp
  next hp =>
    split at h
    · cases h
      exact .waits rfl rfl rfl rfl (by omega)
    · cases h
      exact .ends rfl rfl rfl rfl (by omega) (by omega)

end CallSystem

/-! ## The invariant -/

namespace CalloutThread

def IsRunning : CalloutThread → Bool
  | .running => true
  | _ => false

def IsAwake : CalloutThread → Bool
  | .starting | .ready => true
  | _ => false

end CalloutThread

namespace CalloutSystem

/-- While a thread waits, each pending entry has an awake thread or a wakeup; with fewer threads
than entries the activate thread is awake or about to be woken. -/
structure Ok (s : CalloutSystem φ σ) : Prop where
  place : s.calls.threads = s.threads.map CalloutThread.place
  num : s.calls.callThreadNum = s.threads.length
  active : s.calls.activeCallNum = s.threads.countP CalloutThread.IsRunning
  cover : .waiting ∈ s.threads → s.calls.pendingCallNum ≤
    s.threads.countP CalloutThread.IsAwake + s.wakers.countP Waker.IsPending
  enough : s.activate = .waiting →
    s.calls.callThreadNum < s.calls.activeCallNum + s.calls.pendingCallNum →
    0 < s.wakers.countP Waker.WakesActivate

variable {s s' : CalloutSystem φ σ} {k : ℕ}

lemma Ok.init (call : ℕ → ThreadCall φ σ) : (init call).Ok where
  place := rfl
  num := rfl
  active := rfl
  cover h := by cases h
  enough h := by cases h

lemma Ok.not_stuck (h : s.Ok) : ¬s.Stuck := by
  rintro ⟨hpending, hthreads, hactivate, hwakers⟩
  have hawake : s.threads.countP CalloutThread.IsAwake = 0 := by
    rw [countP_eq_zero]
    intro t ht
    rcases hthreads t ht with rfl | rfl <;> decide
  -- nobody waits, since a waiting thread would have no pending entry beside it
  have hnone : .waiting ∉ s.threads := by
    intro hw
    have hle := h.cover hw
    rw [hawake, hwakers] at hle
    simp only [countP_nil] at hle
    omega
  -- so all threads are in functions, and the activate thread has one too few
  have hall : s.threads.countP CalloutThread.IsRunning = s.threads.length := by
    rw [countP_eq_length]
    intro t ht
    rcases hthreads t ht with rfl | rfl
    · rfl
    · exact absurd ht hnone
  have hsome := h.enough hactivate (by rw [h.num, h.active, hall]; omega)
  rw [hwakers] at hsome
  cases hsome

variable {calls : CallSystem φ σ} {events : List (CallEvent φ σ)} {w : ℕ}

lemma Ok.caller (h : s.Ok) (hc : s.calls.Calls events calls) :
    Ok { s with calls := calls, wakers := s.wakers ++ wakersOf events } where
  place := hc.threads.trans h.place
  num := hc.num.trans h.num
  active := hc.active.trans h.active
  cover hw := by
    have hcover := h.cover hw
    simp only [countP_append]
    rcases hc.pending with ⟨hle, he⟩ | ⟨heq, he⟩
    · rw [he]
      simp only [countP_nil]
      omega
    rw [heq, he]
    simp only [countP_cons, Waker.IsPending, countP_nil, if_true]
    omega
  enough hactivate hlt := by
    simp only [hc.num, hc.active] at hlt
    rcases hc.pending with ⟨hle, -⟩ | ⟨-, he⟩
    · have hsome := h.enough hactivate (by omega)
      rw [countP_append]
      omega
    · rw [countP_append, he, decide_eq_true hlt]
      exact Nat.succ_pos _

lemma Ok.holds {t : CalloutThread} (h : s.Ok) (ht : s.threads[k]? = some t)
    (hc : s.calls.callThreadContinue k = some (events, calls)) :
    CallSystem.Holds { s.calls with
      activeCallNum := (s.threads.eraseIdx k).countP CalloutThread.IsRunning } k calls := by
  have hplace : s.calls.threads[k]? = some t.place := by
    rw [h.place, getElem?_map, ht]
    rfl
  have hactive := h.active
  rw [Census.countP_eq _ ht] at hactive
  rw [CallSystem.callThreadContinue, hplace] at hc
  split at hc
  · cases hc
  next htop =>
    have hno : t.IsRunning = false := by cases t <;> first | rfl | cases htop
    rw [if_neg (by rw [hno]; decide)] at hactive
    exact (show s.calls.activeCallNum = _ from hactive) ▸ CallSystem.holds_loop hc
  next hrun =>
    have hyes : t.IsRunning = true := by cases t <;> first | rfl | cases hrun
    rw [if_pos hyes] at hactive
    have heq : s.calls.activeCallNum - 1 =
        ((s.threads.eraseIdx k).countP CalloutThread.IsRunning : ℤ) := by omega
    exact heq ▸ CallSystem.holds_loop hc

section
variable {t : CalloutThread}

section
variable (h : s.Ok) (ht : s.threads[k]? = some t)
include h ht

lemma Ok.runs (hthreads : calls.threads = s.calls.threads.set k .running)
    (hnum : calls.callThreadNum = s.calls.callThreadNum)
    (hactive : calls.activeCallNum = (s.threads.eraseIdx k).countP CalloutThread.IsRunning + 1)
    (hpending : calls.pendingCallNum = s.calls.pendingCallNum - 1) :
    Ok { s with calls := calls, threads := s.threads.set k .running } where
  place := by
    rw [hthreads, h.place, map_set]
    rfl
  num := by rw [hnum, h.num, length_set]
  active := by
    rw [hactive, Census.countP_set _ ht]
    rfl
  cover hw := by
    have hcover := h.cover ((mem_or_eq_of_mem_set hw).resolve_right nofun)
    rw [Census.countP_eq _ ht] at hcover
    have hone : (if t.IsAwake = true then 1 else 0) ≤ 1 := by split <;> decide
    simp only [Census.countP_set _ ht, hpending, CalloutThread.IsAwake]
    omega
  enough hwait hlt := by
    have hold := h.active
    rw [Census.countP_eq _ ht] at hold
    apply h.enough hwait
    simp only [hnum, hactive, hpending] at hlt
    omega

lemma Ok.waits (hthreads : calls.threads = s.calls.threads.set k .top)
    (hnum : calls.callThreadNum = s.calls.callThreadNum)
    (hactive : calls.activeCallNum = (s.threads.eraseIdx k).countP CalloutThread.IsRunning)
    (hpending : calls.pendingCallNum = s.calls.pendingCallNum)
    (hnone : s.calls.pendingCallNum ≤ 0) :
    Ok { s with calls := calls, threads := s.threads.set k .waiting } where
  place := by
    rw [hthreads, h.place, map_set]
    rfl
  num := by rw [hnum, h.num, length_set]
  active := by
    rw [hactive, Census.countP_set _ ht]
    rfl
  cover _ := by
    simp only [hpending]
    omega
  enough hwait hlt := by
    have hold := h.active
    rw [Census.countP_eq _ ht] at hold
    apply h.enough hwait
    simp only [hnum, hactive, hpending] at hlt
    omega

lemma Ok.ends (hthreads : calls.threads = s.calls.threads.eraseIdx k)
    (hnum : calls.callThreadNum = s.calls.callThreadNum - 1)
    (hactive : calls.activeCallNum = (s.threads.eraseIdx k).countP CalloutThread.IsRunning)
    (hpending : calls.pendingCallNum = s.calls.pendingCallNum) (hnone : s.calls.pendingCallNum ≤ 0)
    (hspare : callThreadMin < s.calls.callThreadNum - (s.threads.eraseIdx k).countP
      CalloutThread.IsRunning) : Ok { s with calls := calls, threads := s.threads.eraseIdx k } where
  place := by rw [hthreads, h.place, eraseIdx_map]
  num := by
    have hlen := Census.length_eq ht
    change calls.callThreadNum = ((s.threads.eraseIdx k).length : ℤ)
    rw [hnum, h.num]
    omega
  active := hactive
  cover _ := by
    simp only [hpending]
    omega
  enough _ hlt := by
    simp only [hnum, hactive, hpending] at hlt
    rw [callThreadMin] at hspare
    omega

lemma Ok.callThread (hs : s.callThread k = some s') : s'.Ok := by
  cases hc : s.calls.callThreadContinue k with
  | none => rw [CalloutSystem.callThread, hc] at hs; cases hs
  | some r =>
    obtain ⟨events, calls⟩ := r
    have hk : k < s.calls.threads.length := by
      rw [h.place, length_map]
      exact (List.getElem?_eq_some_iff.1 ht).1
    rw [CalloutSystem.callThread, hc] at hs
    cases hs
    cases h.holds ht hc with
    | runs hthreads hnum hactive hpending =>
      have hplace : calls.threads[k]? = some .running := by
        rw [hthreads]
        exact getElem?_set_self hk
      rw [if_neg (by rw [hnum]; exact lt_irrefl _), hplace]
      exact h.runs ht hthreads hnum hactive hpending
    | waits hthreads hnum hactive hpending hnone =>
      have hplace : calls.threads[k]? = some .top := by
        rw [hthreads]
        exact getElem?_set_self hk
      rw [if_neg (by rw [hnum]; exact lt_irrefl _), hplace]
      exact h.waits ht hthreads hnum hactive hpending hnone
    | ends hthreads hnum hactive hpending hnone hspare =>
      rw [if_pos (by rw [hnum]; exact Int.sub_one_lt_iff.2 le_rfl)]
      exact h.ends ht hthreads hnum hactive hpending hnone hspare

end

end

/-! ## The activate thread and the wakeups -/

lemma Ok.callActivateThread (h : s.Ok) : s.callActivateThread.Ok := by
  rw [CalloutSystem.callActivateThread, CallSystem.callActivateThreadContinue]
  split
  · refine ⟨?_, ?_, ?_, ?_, nofun⟩
    · simp only [map_append, h.place]
      rfl
    · simp only [length_append, length_singleton, h.num]
      omega
    · simp only [countP_append, h.active, CalloutThread.IsRunning, countP_singleton]
      rfl
    intro hw
    have hcover := h.cover ((mem_append.1 hw).resolve_right (by decide))
    simp only [countP_append]
    omega
  next henough => exact ⟨h.place, h.num, h.active, h.cover, fun _ hlt => absurd hlt henough⟩

lemma Ok.kernelThread (h : s.Ok) : s.kernelThread.Ok where
  place := by
    change s.calls.threads = (s.threads.map CalloutThread.start).map CalloutThread.place
    rw [map_map, h.place]
    congr 1
    funext t
    cases t <;> rfl
  num := by
    change s.calls.callThreadNum = ((s.threads.map CalloutThread.start).length : ℤ)
    rw [length_map, h.num]
  active := by
    change s.calls.activeCallNum = _
    rw [h.active]
    congr 1
    refine (countP_map.trans ?_).symm
    congr 1
    funext t
    cases t <;> rfl
  cover hw := by
    obtain ⟨t, ht, heq⟩ := mem_map.1 hw
    have hwait : t = .waiting := by cases t <;> first | rfl | cases heq
    have hcover := h.cover (hwait ▸ ht)
    have hsame : (s.threads.map CalloutThread.start).countP CalloutThread.IsAwake =
        s.threads.countP CalloutThread.IsAwake := by
      refine countP_map.trans ?_
      congr 1
      funext t
      cases t <;> rfl
    rw [← hsame] at hcover
    exact hcover
  enough := nofun

lemma Ok.wakePending {activate : Bool} {threads : List CalloutThread} (h : s.Ok)
    (hw : s.wakers[w]? = some (.pending activate)) (hs : s.wakePending k = some threads) :
    Ok { s with threads := threads, wakers := s.wakers.eraseIdx w ++ Waker.rest activate } := by
  have hpend := Census.countP_eq Waker.IsPending hw
  have hwake := Census.countP_eq Waker.WakesActivate hw
  have hwakers : s.wakers.countP Waker.WakesActivate =
      (s.wakers.eraseIdx w ++ Waker.rest activate).countP Waker.WakesActivate := by
    rw [hwake, countP_append]
    cases activate <;> rfl
  rw [CalloutSystem.wakePending] at hs
  split at hs
  next hmem =>
    split at hs
    next ht =>
      cases hs
      refine ⟨?_, ?_, ?_, ?_, fun hwait hlt => hwakers ▸ h.enough hwait hlt⟩
      · exact h.place.trans (Census.map_set_eq (b := .ready) ht rfl).symm
      · simp only [length_set, h.num]
      · simp only [h.active, Census.countP_set _ ht, Census.countP_eq _ ht]
        rfl
      intro _
      have hcover := h.cover hmem
      rw [Census.countP_eq _ ht, hpend] at hcover
      simp only [Census.countP_set _ ht, countP_append]
      simp only [CalloutThread.IsAwake, Waker.IsPending, if_true, Bool.false_eq_true, if_false]
        at hcover ⊢
      omega
    · cases hs
  next hmem =>
    cases hs
    exact ⟨h.place, h.num, h.active, fun hin => absurd hin hmem,
      fun hwait hlt => hwakers ▸ h.enough hwait hlt⟩

lemma Ok.wakeActivate (h : s.Ok) (hw : s.wakers[w]? = some .activate) :
    Ok { s with activate := s.wakeActivate, wakers := s.wakers.eraseIdx w } where
  place := h.place
  num := h.num
  active := h.active
  cover hin := by
    have hcover := h.cover hin
    rw [Census.countP_eq Waker.IsPending hw] at hcover
    exact hcover
  enough hwait _ := by
    rw [CalloutSystem.wakeActivate] at hwait
    split at hwait
    · cases hwait
    next hne => exact absurd hwait hne

lemma Ok.step [DecidableEq φ] [DecidableEq σ] [Zero σ] {op : CalloutOp φ σ} (h : s.Ok)
    (hs : s.step op = some s') : s'.Ok := by
  cases op with
  | caller op =>
    rw [CalloutSystem.step] at hs
    split at hs
    next hop =>
      obtain ⟨r, hc, hs⟩ := Option.bind_eq_some_iff.1 hs
      cases hs
      exact h.caller (.step hop hc)
    · cases hs
  | thread k =>
    rw [CalloutSystem.step] at hs
    split at hs
    next ht => exact h.callThread ht hs
    next ht => exact h.callThread ht hs
    · cases hs
  | activate =>
    rw [CalloutSystem.step] at hs
    split at hs
    · cases hs
      exact h.callActivateThread
    · cases hs
  | kernelThread =>
    rw [CalloutSystem.step] at hs
    split at hs
    · cases hs
      exact h.kernelThread
    · cases hs
  | wakePending w k =>
    rw [CalloutSystem.step] at hs
    split at hs
    next hw =>
      obtain ⟨threads, hc, hs⟩ := Option.bind_eq_some_iff.1 hs
      cases hs
      exact h.wakePending hw hc
    · cases hs
  | wakeActivate w =>
    rw [CalloutSystem.step] at hs
    split at hs
    next hw =>
      cases hs
      exact h.wakeActivate hw
    · cases hs

end CalloutSystem

/-! ## Runs -/

inductive CalloutRun [DecidableEq φ] [DecidableEq σ] [Zero σ] : CalloutSystem φ σ → Prop where
  | init (call : ℕ → ThreadCall φ σ) : CalloutRun (.init call)
  | step {s s' : CalloutSystem φ σ} (op : CalloutOp φ σ) (run : CalloutRun s)
      (hs : s.step op = some s') : CalloutRun s'

lemma CalloutRun.ok [DecidableEq φ] [DecidableEq σ] [Zero σ] {s : CalloutSystem φ σ}
    (run : CalloutRun s) : s.Ok := by
  induction run with
  | init call => exact .init call
  | step op _ hs ih => exact ih.step hs

/-- No callout is lost. -/
theorem calloutRun_not_stuck [DecidableEq φ] [DecidableEq σ] [Zero σ] {s : CalloutSystem φ σ}
    (run : CalloutRun s) : ¬s.Stuck := run.ok.not_stuck

/-- An entry comes in and finds no thread, and the activate thread is woken. -/
theorem calloutRun_not_stuck_woken : ∃ s : CalloutSystem ℕ ℕ, CalloutRun s ∧
    s.calls.pendingCallNum = 1 ∧ s.threads = [] ∧ s.activate = .ready ∧ ¬s.Stuck := by
  have run := CalloutRun.init fun c => (⟨c, 0, 0, tvalspecZero, .idle⟩ : ThreadCall ℕ ℕ)
  have run := run.step .activate rfl
  have run := run.step (.caller (.enter 0)) rfl
  have run := run.step (.wakePending 0 0) rfl
  have run := run.step (.wakeActivate 0) rfl
  exact ⟨_, run, rfl, rfl, rfl, calloutRun_not_stuck run⟩

end Rhapsody.Kern
