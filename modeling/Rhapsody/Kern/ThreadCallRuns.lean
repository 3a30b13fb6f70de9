import Rhapsody.Kern.ThreadCall

/-! Callouts over whole runs. An entry that a step works on is taken off its queue and put on
another; as long as no timer interrupt lets go of the lock with entries in its hands, the status
of an entry says where it is. -/

namespace Rhapsody.Kern

open Function List

variable {φ σ : Type}

/-! ## Traces -/

namespace CallEvent

def Ends (c : ℕ) (func : φ) (spec : σ) : CallEvent φ σ → Prop
  | .started d _ _ => d = c
  | .cancelled d => d = c
  | .cancelledFunc f a => f = func ∧ a = spec
  | _ => False

end CallEvent

def armedStep [DecidableEq φ] [DecidableEq σ] (armed : ℕ → Option (φ × σ)) :
    CallEvent φ σ → ℕ → Option (φ × σ)
  | .scheduled c func spec => update armed c (some (func, spec))
  | .started c _ _ => update armed c none
  | .cancelled c => update armed c none
  | .cancelledFunc func spec => fun c => if armed c = some (func, spec) then none else armed c
  | .wakeup _ => armed

def armedOf [DecidableEq φ] [DecidableEq σ] (trace : List (CallEvent φ σ)) :
    ℕ → Option (φ × σ) := trace.foldl armedStep fun _ => none

/-- Every start of a function has a schedule of its own, not started before and not
cancelled since. -/
def StartsScheduled (trace : List (CallEvent φ σ)) : Prop :=
  ∀ xs c func spec ys, trace = xs ++ .started c func spec :: ys →
    ∃ us vs, xs = us ++ .scheduled c func spec :: vs ∧ ∀ e ∈ vs, ¬e.Ends c func spec

section
variable [DecidableEq φ] [DecidableEq σ] {trace events : List (CallEvent φ σ)} {c : ℕ} {func : φ}
  {spec : σ}

lemma armedStep_eq_some {armed : ℕ → Option (φ × σ)} {e : CallEvent φ σ}
    (h : armedStep armed e c = some (func, spec)) :
    e = .scheduled c func spec ∨ armed c = some (func, spec) ∧ ¬e.Ends c func spec := by
  cases e with
  | scheduled d f a =>
    by_cases hd : c = d
    · subst hd
      rw [armedStep, update_self, Option.some.injEq, Prod.mk.injEq] at h
      exact .inl (by rw [h.1, h.2])
    · rw [armedStep, update_of_ne hd] at h
      exact .inr ⟨h, id⟩
  | started d f a | cancelled d =>
    by_cases hd : c = d
    · rw [hd, armedStep, update_self] at h
      cases h
    · rw [armedStep, update_of_ne hd] at h
      exact .inr ⟨h, fun heq => hd heq.symm⟩
  | cancelledFunc f a =>
    simp only [armedStep] at h
    split at h
    · cases h
    · next hne =>
      refine .inr ⟨h, fun hend => hne ?_⟩
      rw [h, hend.1, hend.2]
  | wakeup activate => exact .inr ⟨h, id⟩

lemma armedOf_append : armedOf (trace ++ events) = events.foldl armedStep (armedOf trace) :=
  foldl_append ..

lemma armedOf_eq_some (h : armedOf trace c = some (func, spec)) :
    ∃ us vs, trace = us ++ .scheduled c func spec :: vs ∧ ∀ e ∈ vs, ¬e.Ends c func spec := by
  induction trace using reverseRecOn with
  | nil => cases h
  | append_singleton trace e ih =>
    rw [armedOf_append] at h
    rcases armedStep_eq_some h with rfl | ⟨harmed, hend⟩
    · exact ⟨trace, [], rfl, by simp⟩
    obtain ⟨us, vs, rfl, hvs⟩ := ih harmed
    refine ⟨us, vs ++ [e], by simp, fun e' he' => ?_⟩
    rcases mem_append.1 he' with he' | he'
    · exact hvs e' he'
    · rw [mem_singleton.1 he']
      exact hend

lemma StartsScheduled.append (h : StartsScheduled trace)
    (hevents : ∀ c func spec, .started c func spec ∈ events →
      events = [.started c func spec] ∧ armedOf trace c = some (func, spec)) :
    StartsScheduled (trace ++ events) := by
  intro xs c func spec ys heq
  rcases append_eq_append_iff.1 heq with ⟨zs, rfl, hzs⟩ | ⟨zs, rfl, hzs⟩
  · obtain ⟨hsingle, harmed⟩ := hevents c func spec (by simp [hzs])
    obtain rfl : zs = [] := by
      rw [hsingle] at hzs
      have hlength := congrArg length hzs
      simp only [length_append, length_cons, length_nil] at hlength
      exact length_eq_zero_iff.1 (by omega)
    rw [append_nil]
    exact armedOf_eq_some harmed
  cases zs with
  | nil =>
    rw [nil_append] at hzs
    obtain ⟨-, harmed⟩ := hevents c func spec (hzs ▸ mem_cons_self ..)
    rw [append_nil] at harmed
    exact armedOf_eq_some harmed
  | cons e zs =>
    obtain ⟨rfl, rfl⟩ := cons.inj hzs
    exact h xs c func spec zs rfl

end

/-! ## States -/

variable {events : List (CallEvent φ σ)} {s : CallSystem φ σ}

namespace CallSystem

def linked (s : CallSystem φ σ) : List ℕ :=
  s.internalCallFreeQueue ++ (s.pendingCallQueue ++ s.delayedCallQueue)

structure Wf (s : CallSystem φ σ) : Prop where
  once : s.linked.Nodup
  pending : ∀ c, (s.call c).status = .pending ↔ c ∈ s.pendingCallQueue
  delayed : ∀ c, (s.call c).status = .delayed ↔ c ∈ s.delayedCallQueue
  num : s.pendingCallNum = s.pendingCallQueue.length
  internal : ∀ c ∈ s.internalCallFreeQueue, c < internalCallNum
  quiet : ∀ queue ∈ s.intransitCallQueues, queue = []

def scheduled (s : CallSystem φ σ) (c : ℕ) : Option (φ × σ) :=
  if c ∈ s.pendingCallQueue ∨ c ∈ s.delayedCallQueue then some ((s.call c).func, (s.call c).spec)
  else none

variable {s' : CallSystem φ σ} {c d : ℕ}

lemma mem_linked : c ∈ s.linked ↔
    c ∈ s.internalCallFreeQueue ∨ c ∈ s.pendingCallQueue ∨ c ∈ s.delayedCallQueue := by
  simp [linked]

variable {entry : ThreadCall φ σ} {cs : List ℕ} {timestamp : Tvalspec}

lemma setCall_self : (s.setCall c entry).call c = entry := update_self ..

lemma setCall_of_ne (hd : d ≠ c) : (s.setCall c entry).call d = s.call d := update_of_ne hd ..

lemma Wf.move (h : s.Wf) (status : CallStatus)
    (hcall : s'.call = (s.setStatus c status).call) (honce : s'.linked.Nodup)
    (hpending : ∀ d, d ≠ c → (d ∈ s'.pendingCallQueue ↔ d ∈ s.pendingCallQueue))
    (hdelayed : ∀ d, d ≠ c → (d ∈ s'.delayedCallQueue ↔ d ∈ s.delayedCallQueue))
    (hcpending : c ∈ s'.pendingCallQueue ↔ status = .pending)
    (hcdelayed : c ∈ s'.delayedCallQueue ↔ status = .delayed)
    (hnum : s'.pendingCallNum = s'.pendingCallQueue.length)
    (hinternal : ∀ d ∈ s'.internalCallFreeQueue, d < internalCallNum)
    (hquiet : s'.intransitCallQueues = s.intransitCallQueues) :
    s'.Wf ∧ s'.scheduled = update s.scheduled c
      (if status = .idle then none else some ((s.call c).func, (s.call c).spec)) := by
  have hself : s'.call c = { s.call c with status := status } := by
    rw [hcall]
    exact setCall_self
  have hother : ∀ d, d ≠ c → s'.call d = s.call d := by
    intro d hd
    rw [hcall]
    exact setCall_of_ne hd
  refine ⟨⟨honce, fun d => ?_, fun d => ?_, hnum, hinternal, hquiet ▸ h.quiet⟩, ?_⟩
  · by_cases hd : d = c
    · rw [hd, hself, hcpending]
    · rw [hother d hd, hpending d hd]
      exact h.pending d
  · by_cases hd : d = c
    · rw [hd, hself, hcdelayed]
    · rw [hother d hd, hdelayed d hd]
      exact h.delayed d
  funext d
  by_cases hd : d = c
  · rw [hd, update_self]
    simp only [scheduled, hself, hcpending, hcdelayed]
    cases status <;> simp
  · rw [update_of_ne hd]
    simp only [scheduled, hother d hd, hpending d hd, hdelayed d hd]

lemma Wf.allocate (h : s.Wf) (hget : s.internalCallAllocate = some (c, s')) :
    s'.Wf ∧ c ∉ s'.linked ∧ s'.scheduled = s.scheduled := by
  unfold internalCallAllocate at hget
  split at hget
  · cases hget
  · next c' rest hfree =>
    cases hget
    have hnodup := h.once
    rw [linked, hfree, cons_append, nodup_cons] at hnodup
    refine ⟨⟨hnodup.2, h.pending, h.delayed, h.num, fun d hd => h.internal d ?_, h.quiet⟩,
      hnodup.1, rfl⟩
    rw [hfree]
    exact mem_cons_of_mem _ hd

lemma Wf.setCall (h : s.Wf) (hc : c ∉ s.linked) (entry : ThreadCall φ σ)
    (hstatus : entry.status = (s.call c).status) :
    (s.setCall c entry).Wf ∧ (s.setCall c entry).scheduled = s.scheduled := by
  have hcall : ∀ d, ((s.setCall c entry).call d).status = (s.call d).status := by
    intro d
    by_cases hd : d = c
    · rw [hd, setCall_self, hstatus]
    · rw [setCall_of_ne hd]
  refine ⟨⟨h.once, fun d => ?_, fun d => ?_, h.num, h.internal, h.quiet⟩, ?_⟩
  · rw [hcall]
    exact h.pending d
  · rw [hcall]
    exact h.delayed d
  funext d
  by_cases hd : d = c
  · subst hd
    rw [mem_linked, not_or, not_or] at hc
    have hnone : ¬(d ∈ s.pendingCallQueue ∨ d ∈ s.delayedCallQueue) := not_or.2 hc.2
    exact (if_neg hnone).trans (if_neg hnone).symm
  · simp only [scheduled, setCall_of_ne hd]
    rfl

lemma Wf.once_of_perm (h : s.Wf) (hc : c ∉ s.linked) {l : List ℕ} (hperm : l.Perm (c :: s.linked)) :
    l.Nodup := hperm.nodup_iff.2 (nodup_cons.2 ⟨hc, h.once⟩)

lemma Wf.pendingEnqueue (h : s.Wf) (hc : c ∉ s.linked) :
    (s.pendingCallEnqueue c).Wf ∧ (s.pendingCallEnqueue c).scheduled =
      update s.scheduled c (some ((s.call c).func, (s.call c).spec)) := by
  have hqueue : (s.pendingCallEnqueue c).pendingCallQueue.Perm (c :: s.pendingCallQueue) :=
    perm_append_singleton ..
  have hperm : (s.pendingCallEnqueue c).linked.Perm (c :: s.linked) :=
    ((hqueue.append_right _).append_left _).trans perm_middle
  have honce := h.once_of_perm hc hperm
  rw [mem_linked, not_or, not_or] at hc
  refine h.move .pending rfl honce (fun d hd => ?_) (fun d hd => Iff.rfl) ?_ ?_ ?_ h.internal rfl
  · simp [hqueue.mem_iff, hd]
  · simp [hqueue.mem_iff]
  · simp [pendingCallEnqueue, setStatus, CallSystem.setCall, hc.2.2]
  · simp [pendingCallEnqueue, setStatus, CallSystem.setCall, h.num]

lemma delayedInsert_perm (queue : List ℕ) : (s.delayedInsert c queue).Perm (c :: queue) := by
  induction queue with
  | nil => exact .refl _
  | cons current rest ih =>
    unfold delayedInsert
    dsimp only
    split_ifs
    · exact .refl _
    · exact .swap ..
    · exact (ih.cons current).trans (.swap ..)

lemma Wf.delayedEnqueue (h : s.Wf) (hc : c ∉ s.linked) :
    (s.delayedCallEnqueue c).Wf ∧ (s.delayedCallEnqueue c).scheduled =
      update s.scheduled c (some ((s.call c).func, (s.call c).spec)) := by
  have hqueue : (s.delayedCallEnqueue c).delayedCallQueue.Perm (c :: s.delayedCallQueue) :=
    delayedInsert_perm s.delayedCallQueue
  have hperm : (s.delayedCallEnqueue c).linked.Perm (c :: s.linked) :=
    ((hqueue.append_left _).append_left _).trans ((perm_middle.append_left _).trans perm_middle)
  have honce := h.once_of_perm hc hperm
  rw [mem_linked, not_or, not_or] at hc
  refine h.move .delayed rfl honce (fun d hd => Iff.rfl) (fun d hd => ?_) ?_ ?_ h.num h.internal rfl
  · simp [hqueue.mem_iff, hd]
  · simp [delayedCallEnqueue, setStatus, CallSystem.setCall, hc.2.1]
  · simp [hqueue.mem_iff]

lemma Wf.pendingDequeue (h : s.Wf) (hc : c ∈ s.pendingCallQueue) : ((s.pendingCallDequeue c).Wf ∧
      (s.pendingCallDequeue c).scheduled = update s.scheduled c none) ∧
      c ∉ (s.pendingCallDequeue c).linked := by
  have hqueue := perm_cons_erase hc
  have hperm : s.linked.Perm (c :: (s.pendingCallDequeue c).linked) :=
    ((hqueue.append_right _).append_left _).trans perm_middle
  obtain ⟨hnotMem, honce⟩ := nodup_cons.1 (hperm.nodup_iff.1 h.once)
  have hnot := hnotMem
  rw [mem_linked, not_or, not_or] at hnot
  refine ⟨h.move .idle rfl honce (fun d hd => ?_) (fun d _ => Iff.rfl) ?_ ?_ ?_ h.internal rfl,
    hnotMem⟩
  · exact mem_erase_of_ne hd
  · simp [hnot.2.1]
  · simp [hnot.2.2]
  have hlength := hqueue.length_eq
  simp only [pendingCallDequeue, setStatus, CallSystem.setCall, h.num, hlength, length_cons]
  simp

lemma Wf.delayedDequeue (h : s.Wf) (hc : c ∈ s.delayedCallQueue) : ((s.delayedCallDequeue c).Wf ∧
      (s.delayedCallDequeue c).scheduled = update s.scheduled c none) ∧
      c ∉ (s.delayedCallDequeue c).linked := by
  have hqueue := perm_cons_erase hc
  have hperm : s.linked.Perm (c :: (s.delayedCallDequeue c).linked) :=
    ((hqueue.append_left _).append_left _).trans ((perm_middle.append_left _).trans perm_middle)
  obtain ⟨hnotMem, honce⟩ := nodup_cons.1 (hperm.nodup_iff.1 h.once)
  have hnot := hnotMem
  rw [mem_linked, not_or, not_or] at hnot
  refine ⟨h.move .idle rfl honce (fun d _ => Iff.rfl) (fun d hd => ?_) ?_ ?_ h.num h.internal rfl,
    hnotMem⟩
  · exact mem_erase_of_ne hd
  · simp [hnot.2.1]
  · simp [hnot.2.2]

lemma Wf.release (h : s.Wf) (hc : c ∉ s.linked) :
    (s.threadCallRelease c).Wf ∧ (s.threadCallRelease c).scheduled = s.scheduled := by
  unfold threadCallRelease
  split_ifs with hinternal
  · refine ⟨⟨?_, h.pending, h.delayed, h.num, fun d hd => ?_, h.quiet⟩, rfl⟩
    · rw [linked, append_assoc]
      exact perm_middle.nodup_iff.2 (nodup_cons.2 ⟨hc, h.once⟩)
    rcases mem_append.1 hd with hd | hd
    · exact h.internal d hd
    · rwa [mem_singleton.1 hd]
  · exact ⟨h, rfl⟩

lemma Wf.notMem_of_idle (h : s.Wf) (hidle : (s.call c).status = .idle)
    (hexternal : internalCallNum ≤ c) : c ∉ s.linked := by
  rw [mem_linked, ← h.pending, ← h.delayed, hidle]
  rintro (hfree | hpending | hdelayed)
  · exact (h.internal c hfree).not_ge hexternal
  · cases hpending
  · cases hdelayed

lemma Wf.setTimer (h : s.Wf) : (s.setTimerIfFirst c).Wf ∧
    (s.setTimerIfFirst c).scheduled = s.scheduled := by
  unfold setTimerIfFirst
  split_ifs
  · exact ⟨⟨h.once, h.pending, h.delayed, h.num, h.internal, h.quiet⟩, rfl⟩
  · exact ⟨h, rfl⟩

lemma Wf.scheduled_of_idle (h : s.Wf) (hidle : (s.call c).status = .idle) :
    s.scheduled c = none := by
  refine if_neg ?_
  rw [← h.pending, ← h.delayed, hidle]
  simp

/-! ## Entries that are due -/

def isDue (s : CallSystem φ σ) (timestamp : Tvalspec) (c : ℕ) : Bool :=
  cmpTvalspec (s.call c).deadline timestamp ≤ 0

def due (s : CallSystem φ σ) (timestamp : Tvalspec) : List ℕ :=
  s.delayedCallQueue.takeWhile (s.isDue timestamp)

lemma delayedDequeue_call (d : ℕ) : (s.delayedCallDequeue c).call d =
    { s.call d with status := if d = c then .idle else (s.call d).status } := by
  by_cases hd : d = c
  · rw [hd, if_pos rfl]
    exact setCall_self
  · rw [if_neg hd]
    exact setCall_of_ne hd

structure Collected (s : CallSystem φ σ) (taken : List ℕ) (s' : CallSystem φ σ) : Prop where
  wf : s'.Wf
  call : ∀ d, s'.call d =
    { s.call d with status := if d ∈ taken then .idle else (s.call d).status }
  linked : ∀ d ∈ s'.linked, d ∈ s.linked ∧ d ∉ taken
  others : ∀ d, d ∉ taken → s'.scheduled d = s.scheduled d

lemma Collected.cons {taken : List ℕ} (h : s.Wf) (hc : c ∈ s.delayedCallQueue)
    (hrest : (s.delayedCallDequeue c).Collected taken s') : s.Collected (c :: taken) s' := by
  obtain ⟨⟨-, hsched⟩, hlinked⟩ := h.delayedDequeue hc
  refine ⟨hrest.wf, fun d => ?_, fun d hd => ?_, fun d hd => ?_⟩
  · rw [hrest.call, delayedDequeue_call]
    by_cases hd : d = c
    all_goals simp [hd]
  · obtain ⟨hmem, htaken⟩ := hrest.linked d hd
    have hne : d ≠ c := fun heq => hlinked (heq ▸ hmem)
    refine ⟨?_, by simp [hne, htaken]⟩
    rw [mem_linked] at hmem ⊢
    exact hmem.imp_right (Or.imp_right mem_of_mem_erase)
  · rw [mem_cons, not_or] at hd
    rw [hrest.others d hd.2, hsched, update_of_ne hd.1]

lemma Wf.collectDue (h : s.Wf) (timestamp : Tvalspec) (hcs : cs.Nodup)
    (hsub : ∀ c ∈ cs, c ∈ s.delayedCallQueue) :
    ∃ s', CallSystem.collectDue timestamp cs s = (cs.takeWhile (s.isDue timestamp), s') ∧
      s.Collected (cs.takeWhile (s.isDue timestamp)) s' := by
  have hnone : s.Collected [] s := ⟨h, by simp, by simp, by simp⟩
  induction cs generalizing s with
  | nil => exact ⟨s, rfl, hnone⟩
  | cons c cs ih =>
    obtain ⟨hc, hrest⟩ := forall_mem_cons.1 hsub
    obtain ⟨hnotMem, hnodup⟩ := nodup_cons.1 hcs
    unfold CallSystem.collectDue
    by_cases hdue : cmpTvalspec (s.call c).deadline timestamp ≤ 0
    · obtain ⟨⟨h1, -⟩, -⟩ := h.delayedDequeue hc
      have hisDue : (s.delayedCallDequeue c).isDue timestamp = s.isDue timestamp := by
        funext d
        rw [isDue, delayedDequeue_call]
        rfl
      obtain ⟨s', heq, hcollected⟩ := ih h1 hnodup (fun d hd =>
        (mem_erase_of_ne (ne_of_mem_of_not_mem hd hnotMem)).2 (hrest d hd))
        ⟨h1, by simp, by simp, by simp⟩
      rw [hisDue] at heq hcollected
      have htake : (c :: cs).takeWhile (s.isDue timestamp) =
          c :: cs.takeWhile (s.isDue timestamp) :=
        takeWhile_cons_of_pos (decide_eq_true hdue)
      rw [htake]
      exact ⟨s', by simp only [if_pos hdue, heq], .cons h hc hcollected⟩
    · have htake : (c :: cs).takeWhile (s.isDue timestamp) = [] :=
        takeWhile_cons_of_neg (by simpa [isDue] using hdue)
      rw [htake]
      exact ⟨s, by simp only [if_neg hdue], hnone⟩

lemma Wf.setTimerToNext (h : s.Wf) : s.setTimerToNext.Wf := by
  unfold CallSystem.setTimerToNext
  split
  · exact h
  · exact ⟨h.once, h.pending, h.delayed, h.num, h.internal, h.quiet⟩

lemma setTimerToNext_same : s.setTimerToNext.call = s.call ∧
    s.setTimerToNext.linked = s.linked ∧ s.setTimerToNext.scheduled = s.scheduled ∧
    s.setTimerToNext.intransitCallQueues = s.intransitCallQueues := by
  unfold setTimerToNext
  split <;> exact ⟨rfl, rfl, rfl, rfl⟩

/-! ## Cancels by function -/

structure Dequeues (queue : CallSystem φ σ → List ℕ)
    (dequeue : CallSystem φ σ → ℕ → CallSystem φ σ) : Prop where
  takes : ∀ {s c}, s.Wf → c ∈ queue s → ((dequeue s c).Wf ∧
    (dequeue s c).scheduled = update s.scheduled c none) ∧ c ∉ (dequeue s c).linked
  erases : ∀ s c, queue ((dequeue s c).threadCallRelease c) = (queue s).erase c
  keeps : ∀ s c d, (((dequeue s c).threadCallRelease c).call d).func = (s.call d).func ∧
    (((dequeue s c).threadCallRelease c).call d).spec = (s.call d).spec

lemma release_call : (s.threadCallRelease c).call = s.call := by
  unfold threadCallRelease
  split_ifs <;> rfl

lemma release_pending : (s.threadCallRelease c).pendingCallQueue = s.pendingCallQueue := by
  unfold threadCallRelease
  split_ifs <;> rfl

lemma release_delayed : (s.threadCallRelease c).delayedCallQueue = s.delayedCallQueue := by
  unfold threadCallRelease
  split_ifs <;> rfl

lemma setStatus_keeps (status : CallStatus) (d : ℕ) :
    ((s.setStatus c status).call d).func = (s.call d).func ∧
      ((s.setStatus c status).call d).spec = (s.call d).spec := by
  by_cases hd : d = c
  · rw [hd, setStatus, setCall_self]
    exact ⟨rfl, rfl⟩
  · rw [setStatus, setCall_of_ne hd]
    exact ⟨rfl, rfl⟩

lemma pendingDequeues :
    Dequeues (pendingCallQueue : CallSystem φ σ → List ℕ) pendingCallDequeue where
  takes := Wf.pendingDequeue
  erases s c := release_pending
  keeps s c d := by
    rw [release_call]
    exact setStatus_keeps .idle d

lemma delayedDequeues :
    Dequeues (delayedCallQueue : CallSystem φ σ → List ℕ) delayedCallDequeue where
  takes := Wf.delayedDequeue
  erases s c := release_delayed
  keeps s c d := by
    rw [release_call]
    exact setStatus_keeps .idle d

section
variable {queue : CallSystem φ σ → List ℕ} {dequeue : CallSystem φ σ → ℕ → CallSystem φ σ}
  {func : φ} {spec : σ}

lemma Dequeues.release (hq : Dequeues queue dequeue) (h : s.Wf) (hc : c ∈ queue s) :
    ((dequeue s c).threadCallRelease c).Wf ∧
      ((dequeue s c).threadCallRelease c).scheduled = update s.scheduled c none := by
  obtain ⟨⟨h1, hsched1⟩, hnotMem⟩ := hq.takes h hc
  obtain ⟨h2, hsched2⟩ := h1.release hnotMem
  exact ⟨h2, hsched2.trans hsched1⟩

variable [DecidableEq φ] [DecidableEq σ]

lemma Dequeues.matches (hq : Dequeues queue dequeue) (s : CallSystem φ σ) (c d : ℕ) :
    ((dequeue s c).threadCallRelease c).matchesCall func spec d = s.matchesCall func spec d := by
  simp only [matchesCall, hq.keeps s c d]

lemma Dequeues.removeAll (hq : Dequeues queue dequeue) (func : φ) (spec : σ) (h : s.Wf)
    (hcs : cs.Nodup) (hsub : ∀ c ∈ cs, c ∈ queue s) :
    (removeFrom func spec dequeue true cs s).2.Wf ∧
      (removeFrom func spec dequeue true cs s).2.scheduled = (fun c =>
        if c ∈ cs ∧ s.matchesCall func spec c then none else s.scheduled c) ∧
      ∀ d, (removeFrom func spec dequeue true cs s).2.matchesCall func spec d =
        s.matchesCall func spec d := by
  induction cs generalizing s with
  | nil => exact ⟨h, by simp [removeFrom], fun d => rfl⟩
  | cons c cs ih =>
    obtain ⟨hc, hrest⟩ := forall_mem_cons.1 hsub
    obtain ⟨hnotMem, hnodup⟩ := nodup_cons.1 hcs
    unfold removeFrom
    by_cases hmatch : s.matchesCall func spec c = true
    · simp only [if_pos hmatch, if_true]
      obtain ⟨h1, hsched1⟩ := hq.release h hc
      obtain ⟨h2, hsched2, hmatches⟩ := ih h1 hnodup fun d hd => by
        rw [hq.erases]
        exact (mem_erase_of_ne (ne_of_mem_of_not_mem hd hnotMem)).2 (hrest d hd)
      refine ⟨h2, ?_, fun d => (hmatches d).trans (hq.matches s c d)⟩
      rw [hsched2, hsched1]
      funext d
      rw [hq.matches]
      by_cases hd : d = c
      · rw [hd]
        simp [hmatch]
      · rw [update_of_ne hd]
        simp [hd]
    simp only [if_neg hmatch]
    obtain ⟨h2, hsched2, hmatches⟩ := ih h hnodup hrest
    refine ⟨h2, ?_, hmatches⟩
    rw [hsched2]
    funext d
    by_cases hd : d = c
    · rw [hd]
      simp [hmatch]
    · simp [hd]

lemma Dequeues.removeFirst (hq : Dequeues queue dequeue) (func : φ) (spec : σ) (h : s.Wf)
    (hsub : ∀ c ∈ cs, c ∈ queue s) :
    (removeFrom func spec dequeue false cs s = ([], s) ∧
      ∀ c ∈ cs, s.matchesCall func spec c = false) ∨
    ∃ c s', removeFrom func spec dequeue false cs s = ([c], s') ∧ s'.Wf ∧
      s'.scheduled = update s.scheduled c none := by
  induction cs with
  | nil => exact .inl ⟨rfl, by simp⟩
  | cons c cs ih =>
    obtain ⟨hc, hrest⟩ := forall_mem_cons.1 hsub
    unfold removeFrom
    by_cases hmatch : s.matchesCall func spec c = true
    · simp only [if_pos hmatch]
      exact .inr ⟨c, _, rfl, hq.release h hc⟩
    simp only [if_neg hmatch]
    rcases ih hrest with ⟨heq, hnone⟩ | hsome
    · exact .inl ⟨heq, forall_mem_cons.2 ⟨by simpa using hmatch, hnone⟩⟩
    · exact .inr hsome

lemma removePending_delayed (func : φ) (spec : σ) (removeAll : Bool) (cs : List ℕ)
    (s : CallSystem φ σ) :
    (removeFrom func spec pendingCallDequeue removeAll cs s).2.delayedCallQueue =
      s.delayedCallQueue := by
  induction cs generalizing s with
  | nil => rfl
  | cons c cs ih =>
    unfold removeFrom
    by_cases hmatch : s.matchesCall func spec c = true
    · simp only [if_pos hmatch]
      cases removeAll with
      | true => exact (ih _).trans release_delayed
      | false => exact release_delayed
    · simp only [if_neg hmatch]
      exact ih s

lemma scheduled_eq_some_iff : s.scheduled c = some (func, spec) ↔
    (c ∈ s.pendingCallQueue ∨ c ∈ s.delayedCallQueue) ∧ s.matchesCall func spec c = true := by
  unfold scheduled matchesCall
  split_ifs with hc <;> simp [hc]

end

/-! ## Steps -/

section
variable [DecidableEq φ] [DecidableEq σ]

structure Goes (s : CallSystem φ σ) (events : List (CallEvent φ σ)) (s' : CallSystem φ σ) :
    Prop where
  wf : s'.Wf
  armed : s'.scheduled = events.foldl armedStep s.scheduled
  starts : ∀ c func spec, .started c func spec ∈ events →
    events = [.started c func spec] ∧ s.scheduled c = some (func, spec)

lemma Goes.of_some {r : List (CallEvent φ σ) × CallSystem φ σ} (h : s.Goes r.1 r.2)
    (hstep : some r = some (events, s')) : s.Goes events s' := by
  obtain rfl := Option.some.inj hstep
  exact h

variable {spec : σ}

lemma Wf.func [Zero σ] (h : s.Wf) {func : φ} {uniqueCall : Bool}
    (hstep : s.threadCallFunc func spec uniqueCall = some (events, s')) : s.Goes events s' := by
  unfold threadCallFunc at hstep
  split at hstep
  · cases hstep
    exact ⟨h, rfl, by simp⟩
  obtain ⟨⟨c, s1⟩, hget, hstep⟩ := Option.bind_eq_some_iff.1 hstep
  cases hstep
  obtain ⟨h1, hc, hsched1⟩ := h.allocate hget
  obtain ⟨h2, hsched2⟩ := h1.setCall hc
    { s1.call c with func := func, spec := spec, specProto := 0 } rfl
  obtain ⟨h3, hsched3⟩ := h2.pendingEnqueue hc
  refine ⟨h3, ?_, by simp [callThreadWake]⟩
  rw [hsched3, hsched2, hsched1, setCall_self]
  rfl

lemma Wf.funcDelayed [Zero σ] (h : s.Wf) {func : φ} {deadline : Tvalspec}
    (hstep : s.threadCallFuncDelayed func spec deadline = some (events, s')) :
    s.Goes events s' := by
  obtain ⟨⟨c, s1⟩, hget, hstep⟩ := Option.bind_eq_some_iff.1 hstep
  cases hstep
  obtain ⟨h1, hc, hsched1⟩ := h.allocate hget
  obtain ⟨h2, hsched2⟩ := h1.setCall hc { s1.call c with
    func := func, spec := spec, specProto := 0
    deadline := if badTvalspec deadline then tvalspecZero else deadline } rfl
  obtain ⟨h3, hsched3⟩ := h2.delayedEnqueue hc
  obtain ⟨h4, hsched4⟩ := h3.setTimer (c := c)
  refine ⟨h4, ?_, by simp⟩
  rw [hsched4, hsched3, hsched2, hsched1, setCall_self]
  rfl

lemma Wf.enterSpec (h : s.Wf) (hexternal : internalCallNum ≤ c) (spec : σ) :
    s.Goes (s.threadCallEnterSpec c spec).1 (s.threadCallEnterSpec c spec).2 := by
  unfold threadCallEnterSpec
  split_ifs with hidle
  · have hc := h.notMem_of_idle hidle hexternal
    obtain ⟨h1, hsched1⟩ := h.setCall hc { s.call c with spec := spec } rfl
    obtain ⟨h2, hsched2⟩ := h1.pendingEnqueue hc
    refine ⟨h2, ?_, by simp [callThreadWake]⟩
    rw [hsched2, hsched1, setCall_self]
    rfl
  · exact ⟨h, rfl, by simp⟩

lemma Wf.enterSpecDelayed (h : s.Wf) (hexternal : internalCallNum ≤ c) (spec : σ)
    (deadline : Tvalspec) : s.Goes (s.threadCallEnterSpecDelayed c spec deadline).1
      (s.threadCallEnterSpecDelayed c spec deadline).2 := by
  unfold threadCallEnterSpecDelayed
  split
  · next hidle =>
    have hc := h.notMem_of_idle hidle hexternal
    obtain ⟨h1, hsched1⟩ := h.setCall hc { s.call c with
      spec := spec, deadline := if badTvalspec deadline then tvalspecZero else deadline } rfl
    obtain ⟨h2, hsched2⟩ := h1.delayedEnqueue hc
    obtain ⟨h3, hsched3⟩ := h2.setTimer (c := c)
    refine ⟨h3, ?_, by simp⟩
    rw [hsched3, hsched2, hsched1, setCall_self]
    rfl
  · exact ⟨h, rfl, by simp⟩

lemma Wf.cancel (h : s.Wf) : s.Goes (s.threadCallCancel c).1 (s.threadCallCancel c).2 := by
  unfold threadCallCancel
  split
  · next hstatus =>
    obtain ⟨⟨h1, hsched1⟩, hc⟩ := h.pendingDequeue ((h.pending c).1 hstatus)
    obtain ⟨h2, hsched2⟩ := h1.release hc
    exact ⟨h2, hsched2.trans hsched1, by simp⟩
  · next hstatus =>
    obtain ⟨⟨h1, hsched1⟩, hc⟩ := h.delayedDequeue ((h.delayed c).1 hstatus)
    obtain ⟨h2, hsched2⟩ := h1.release hc
    exact ⟨h2, hsched2.trans hsched1, by simp⟩
  · next hstatus =>
    refine ⟨h, ?_, by simp⟩
    rw [foldl_cons, foldl_nil, armedStep, ← h.scheduled_of_idle hstatus, update_eq_self]

lemma Wf.funcCancel (h : s.Wf) (func : φ) (spec : σ) (cancelAll : Bool) :
    s.Goes (s.threadCallFuncCancel func spec cancelAll).1
      (s.threadCallFuncCancel func spec cancelAll).2 := by
  cases cancelAll with
  | true =>
    have hpending := (nodup_append.1 (nodup_append.1 h.once).2.1).1
    obtain ⟨h1, hsched1, hmatches⟩ := pendingDequeues.removeAll func spec h hpending fun _ hc => hc
    have hdelayed := (nodup_append.1 (nodup_append.1 h1.once).2.1).2.1
    obtain ⟨h2, hsched2, -⟩ := delayedDequeues.removeAll func spec h1 hdelayed fun _ hc => hc
    refine ⟨h2, hsched2.trans ?_, by simp [threadCallFuncCancel]⟩
    funext c
    show _ = if s.scheduled c = some (func, spec) then none else s.scheduled c
    rw [hsched1, hmatches, removePending_delayed]
    simp only [scheduled_eq_some_iff]
    by_cases hmatch : s.matchesCall func spec c = true
    · by_cases hc : c ∈ s.delayedCallQueue
      · simp [hmatch, hc]
      by_cases hc' : c ∈ s.pendingCallQueue
      · simp [hmatch, hc']
      · simp [hc, hc']
    · simp [hmatch]
  | false =>
    rcases pendingDequeues.removeFirst func spec h (fun _ hc => hc) with
      ⟨heq, hnone⟩ | ⟨c, s1, heq, h1, hsched1⟩
    · rcases delayedDequeues.removeFirst func spec h (fun _ hc => hc) with
        ⟨heq', hnone'⟩ | ⟨c, s1, heq', h1, hsched1⟩
      · simp only [threadCallFuncCancel, removeFromPendingQueue, removeFromDelayedQueue, heq, heq']
        refine ⟨h, ?_, by simp⟩
        funext c
        have hne : s.scheduled c ≠ some (func, spec) := by
          rw [Ne, scheduled_eq_some_iff]
          rintro ⟨hc | hc, hmatch⟩
          · rw [hnone c hc] at hmatch
            cases hmatch
          · rw [hnone' c hc] at hmatch
            cases hmatch
        exact (if_neg hne).symm
      · simp only [threadCallFuncCancel, removeFromPendingQueue, removeFromDelayedQueue, heq, heq']
        exact ⟨h1, hsched1, by simp⟩
    · simp only [threadCallFuncCancel, removeFromPendingQueue, heq]
      exact ⟨h1, hsched1, by simp⟩

/-! ## Threads and interrupts -/

variable {k : ℕ}

lemma Wf.threadLoop (h : s.Wf) (hstep : s.callThreadLoop k = some (events, s')) :
    s.Goes events s' := by
  unfold callThreadLoop at hstep
  split at hstep
  · split at hstep
    · cases hstep
    · next c rest hqueue =>
      cases hstep
      have hc : c ∈ s.pendingCallQueue := by simp [hqueue]
      have heq : setStatus { s with
          pendingCallQueue := rest, pendingCallNum := s.pendingCallNum - 1 } c .idle =
            s.pendingCallDequeue c := by
        simp [pendingCallDequeue, hqueue]
      obtain ⟨⟨h1, hsched1⟩, hnotMem⟩ := h.pendingDequeue hc
      obtain ⟨h2, hsched2⟩ := h1.release hnotMem
      rw [heq]
      refine ⟨⟨h2.once, h2.pending, h2.delayed, h2.num, h2.internal, h2.quiet⟩,
        hsched2.trans hsched1, fun d func spec hmem => ?_⟩
      cases mem_singleton.1 hmem
      exact ⟨rfl, if_pos (.inl hc)⟩
  · split at hstep
    all_goals
      cases hstep
      exact ⟨⟨h.once, h.pending, h.delayed, h.num, h.internal, h.quiet⟩, rfl, by simp⟩

lemma Wf.thread (h : s.Wf) (hstep : s.callThreadContinue k = some (events, s')) :
    s.Goes events s' := by
  unfold callThreadContinue at hstep
  split at hstep
  · cases hstep
  · exact h.threadLoop hstep
  have h1 : { s with activeCallNum := s.activeCallNum - 1 }.Wf :=
    ⟨h.once, h.pending, h.delayed, h.num, h.internal, h.quiet⟩
  obtain ⟨hwf, harmed, hstarts⟩ := h1.threadLoop hstep
  exact ⟨hwf, harmed, hstarts⟩

lemma Wf.activate (h : s.Wf) : s.Goes [] s.callActivateThreadContinue := by
  unfold callActivateThreadContinue
  split
  · exact ⟨⟨h.once, h.pending, h.delayed, h.num, h.internal, h.quiet⟩, rfl, by simp⟩
  · exact ⟨h, rfl, by simp⟩

lemma Wf.interrupt (h : s.Wf) (hdue : (s.due timestamp).length ≤ 1) :
    s.Goes (s.delayedCallInterrupt timestamp).1 (s.delayedCallInterrupt timestamp).2 := by
  have hdelayed := (nodup_append.1 (nodup_append.1 h.once).2.1).2.1
  obtain ⟨s1, heq, hcollected⟩ := h.collectDue timestamp hdelayed fun _ hc => hc
  obtain ⟨hcall, hlinked, hsched, -⟩ := setTimerToNext_same (s := s1)
  have h1 := hcollected.wf.setTimerToNext
  unfold delayedCallInterrupt
  rw [heq]
  cases htaken : s.delayedCallQueue.takeWhile (s.isDue timestamp) with
  | nil =>
    rw [htaken] at hcollected
    refine ⟨h1, ?_, by simp⟩
    funext d
    rw [hsched]
    exact hcollected.others d (by simp)
  | cons c rest =>
    obtain rfl : rest = [] := by
      rw [due, htaken, length_cons] at hdue
      exact length_eq_zero_iff.1 (by omega)
    rw [htaken] at hcollected
    have hc : c ∉ s1.setTimerToNext.linked := by
      rw [hlinked]
      exact fun hmem => (hcollected.linked c hmem).2 (by simp)
    obtain ⟨h2, hsched2⟩ := h1.pendingEnqueue hc
    refine ⟨⟨h2.once, h2.pending, h2.delayed, h2.num, h2.internal, fun queue hqueue => ?_⟩, ?_,
      by simp [takeFromTransit, callThreadWake]⟩
    · rcases mem_append.1 hqueue with hqueue | hqueue
      · exact h2.quiet queue hqueue
      · exact mem_singleton.1 hqueue
    have hmem : c ∈ s.delayedCallQueue := ( takeWhile_prefix _).subset (htaken ▸ mem_cons_self ..)
    refine hsched2.trans ?_
    funext d
    by_cases hd : d = c
    · rw [hd, update_self, hcall, hcollected.call]
      exact (if_pos (.inr hmem)).symm
    · rw [update_of_ne hd, hsched]
      exact hcollected.others d (by simp [hd])

lemma Wf.interruptContinue (h : s.Wf)
    (hstep : s.delayedCallInterruptContinue k = some (events, s')) : s.Goes events s' := by
  unfold delayedCallInterruptContinue at hstep
  split at hstep
  · cases hstep
  · cases hstep
    refine ⟨⟨h.once, h.pending, h.delayed, h.num, h.internal, fun queue hqueue => ?_⟩, rfl, by simp⟩
    exact h.quiet queue (mem_of_mem_eraseIdx hqueue)
  · next c rest hget =>
    have := h.quiet _ (mem_of_getElem? hget)
    cases this

end

/-! ## Runs -/

/-- While the lock is free no entry is on two queues or twice on one, and its status says on which
it is. -/
structure Ok (s : CallSystem φ σ) : Prop where
  once : (s.internalCallFreeQueue ++ s.pendingCallQueue ++ s.delayedCallQueue ++
    s.intransitCallQueues.flatten).Nodup
  pending : ∀ c, (s.call c).status = .pending ↔ c ∈ s.pendingCallQueue
  delayed : ∀ c, (s.call c).status = .delayed ↔ c ∈ s.delayedCallQueue
  idle : ∀ c, (s.call c).status = .idle ↔ c ∉ s.pendingCallQueue ∧ c ∉ s.delayedCallQueue ∧
    c ∉ s.intransitCallQueues.flatten
  num : s.pendingCallNum = s.pendingCallQueue.length

lemma Wf.ok (h : s.Wf) : s.Ok := by
  have hflatten : s.intransitCallQueues.flatten = [] := flatten_eq_nil_iff.2 h.quiet
  refine ⟨?_, h.pending, h.delayed, fun c => ?_, h.num⟩
  · rw [hflatten, append_nil, append_assoc]
    exact h.once
  · rw [hflatten, ← h.pending, ← h.delayed]
    cases (s.call c).status <;> simp

lemma Wf.interrupt_ok_iff [DecidableEq φ] [DecidableEq σ] (h : s.Wf) :
    (s.delayedCallInterrupt timestamp).2.Ok ↔ (s.due timestamp).length ≤ 1 := by
  refine ⟨fun hok => ?_, fun hdue => (h.interrupt hdue).wf.ok⟩
  by_contra hdue
  have hdelayed := (nodup_append.1 (nodup_append.1 h.once).2.1).2.1
  obtain ⟨s1, heq, hcollected⟩ := h.collectDue timestamp hdelayed fun _ hc => hc
  obtain ⟨hcall, -, -, -⟩ := setTimerToNext_same (s := s1)
  have hnodup : (s.due timestamp).Nodup := hdelayed.sublist (takeWhile_sublist _)
  match htaken : s.due timestamp with
  | [] => simp [htaken] at hdue
  | [c] => simp [htaken] at hdue
  | c :: d :: rest =>
    -- the second entry is on the local queue and marked idle
    rw [htaken] at hnodup
    have hne : d ≠ c := fun heq => (nodup_cons.1 hnodup).1 (heq ▸ mem_cons_self ..)
    have hinterrupt : (s.delayedCallInterrupt timestamp).2 =
        { s1.setTimerToNext.pendingCallEnqueue c with intransitCallQueues :=
          (s1.setTimerToNext.pendingCallEnqueue c).intransitCallQueues ++ [d :: rest] } := by
      rw [due] at htaken
      simp only [delayedCallInterrupt, heq, htaken]
      rfl
    have hstatus : ((s.delayedCallInterrupt timestamp).2.call d).status = .idle := by
      rw [hinterrupt]
      rw [pendingCallEnqueue, setStatus, setCall_of_ne hne]
      rw [hcall, hcollected.call]
      refine if_pos ?_
      rw [← due, htaken]
      simp
    refine ((hok.idle d).1 hstatus).2.2 ?_
    rw [hinterrupt]
    simp

end CallSystem

/-- Runs from the start, in which no timer interrupt finds two entries that are due;
with their events. -/
inductive CallRun [DecidableEq φ] [DecidableEq σ] [Zero σ] :
    CallSystem φ σ → List (CallEvent φ σ) → Prop where
  | init (call : ℕ → ThreadCall φ σ) : (∀ c, (call c).status = .idle) →
    CallRun (threadCallInit call) []
  | step {s s' : CallSystem φ σ} {trace events : List (CallEvent φ σ)} (op : CallOp φ σ) :
    CallRun s trace → (∀ timestamp, op = .interrupt timestamp → (s.due timestamp).length ≤ 1) →
    s.step op = some (events, s') → CallRun s' (trace ++ events)

lemma CallSystem.Wf.step [DecidableEq φ] [DecidableEq σ] [Zero σ] {s' : CallSystem φ σ} (h : s.Wf)
    {op : CallOp φ σ} (hdue : ∀ timestamp, op = .interrupt timestamp → (s.due timestamp).length ≤ 1)
    (hstep : s.step op = some (events, s')) : s.Goes events s' := by
  have hexternal : ∀ x, internalCallNum ≤ externalCall x := fun x => Nat.le_add_right ..
  cases op with
  | func func spec uniqueCall => exact h.func hstep
  | funcDelayed func spec deadline => exact h.funcDelayed hstep
  | funcCancel func spec cancelAll => exact .of_some (h.funcCancel func spec cancelAll) hstep
  | enter x => exact .of_some (h.enterSpec (hexternal x) _) hstep
  | enterSpec x spec => exact .of_some (h.enterSpec (hexternal x) spec) hstep
  | enterDelayed x deadline =>
    exact .of_some (h.enterSpecDelayed (hexternal x) _ deadline) hstep
  | enterSpecDelayed x spec deadline =>
    exact .of_some (h.enterSpecDelayed (hexternal x) spec deadline) hstep
  | cancel x => exact .of_some h.cancel hstep
  | thread k => exact h.thread hstep
  | activate =>
    cases hstep
    exact h.activate
  | interrupt timestamp => exact .of_some (h.interrupt (hdue timestamp rfl)) hstep
  | interruptContinue k => exact h.interruptContinue hstep

lemma CallRun.sound [DecidableEq φ] [DecidableEq σ] [Zero σ] {trace : List (CallEvent φ σ)}
    (hrun : CallRun s trace) : s.Wf ∧ s.scheduled = armedOf trace ∧ StartsScheduled trace := by
  induction hrun with
  | init call hidle =>
    refine ⟨⟨?_, ?_, ?_, rfl, ?_, ?_⟩, ?_, ?_⟩
    · simpa [threadCallInit, CallSystem.linked] using nodup_range
    · simp [threadCallInit, hidle]
    · simp [threadCallInit, hidle]
    · simp [threadCallInit]
    · simp [threadCallInit]
    · funext c
      simp [CallSystem.scheduled, threadCallInit, armedOf]
    · intro xs c func spec ys heq
      simp at heq
  | step op _ hdue hstep ih =>
    obtain ⟨h, hsched, htrace⟩ := ih
    obtain ⟨hwf, harmed, hstarts⟩ := h.step hdue hstep
    refine ⟨hwf, ?_, htrace.append fun c func spec hmem => ?_⟩
    · rw [harmed, hsched, armedOf_append]
    · rw [← hsched]
      exact hstarts c func spec hmem

/-- In every run whose timer interrupts find at most one entry due, the queues are in order whenever
the lock is free and functions are started as scheduled; from there an interrupt keeps it so exactly
if it finds at most one such entry. -/
theorem callRun_ok [DecidableEq φ] [DecidableEq σ] [Zero σ] {s : CallSystem φ σ}
    {trace : List (CallEvent φ σ)} (hrun : CallRun s trace) :
    s.Ok ∧ StartsScheduled trace ∧ ∀ timestamp events s',
      s.step (.interrupt timestamp) = some (events, s') →
        (s'.Ok ↔ (s.due timestamp).length ≤ 1) := by
  obtain ⟨h, -, htrace⟩ := hrun.sound
  refine ⟨h.ok, htrace, fun timestamp events s' hstep => ?_⟩
  have heq : (s.delayedCallInterrupt timestamp).2 = s' := congrArg Prod.snd (Option.some.inj hstep)
  rw [← heq]
  exact h.interrupt_ok_iff

def CallSystem.runOps [DecidableEq φ] [DecidableEq σ] [Zero σ] (s : CallSystem φ σ) :
    List (CallOp φ σ) → Option (List (CallEvent φ σ) × CallSystem φ σ)
  | [] => some ([], s)
  | op :: ops => do
    let (events, s) ← s.step op
    let (trace, s) ← s.runOps ops
    return (events ++ trace, s)

def numberedCalls (c : ℕ) : ThreadCall ℕ ℕ := ⟨c, 0, 0, tvalspecZero, .idle⟩

/-- A delayed entry runs once it is due. -/
theorem callRun_ok_oneEntry :
    ∃ s, (threadCallInit numberedCalls).runOps [.enterDelayed 0 ⟨1, 0⟩, .interrupt ⟨2, 0⟩,
        .interruptContinue 0, .activate, .thread 0] =
          some ([.scheduled 768 768 0, .wakeup true, .started 768 768 0], s) ∧
      s.Ok ∧ StartsScheduled [CallEvent.scheduled 768 768 0, .wakeup true, .started 768 768 0] := by
  refine ⟨_, rfl, ?_⟩
  have hrun := CallRun.step (.thread 0) (.step .activate (.step (.interruptContinue 0)
    (.step (.interrupt ⟨2, 0⟩) (.step (.enterDelayed 0 ⟨1, 0⟩)
      (.init numberedCalls fun _ => rfl) ?_ rfl) ?_ rfl) ?_ rfl) ?_ rfl) ?_ rfl
  · exact ⟨(callRun_ok hrun).1, (callRun_ok hrun).2.1⟩
  all_goals
    intro timestamp heq
    cases heq
  decide +kernel

/-- With two entries due, the second can be cancelled while the interrupt has let go of the lock,
and runs nevertheless; or it is entered again and is then on two queues. -/
theorem interrupt_loses_cancel :
    (∃ s, (threadCallInit numberedCalls).runOps [.enterDelayed 0 ⟨1, 0⟩, .enterDelayed 1 ⟨2, 0⟩,
        .interrupt ⟨3, 0⟩, .cancel 1, .interruptContinue 0, .activate, .thread 0, .thread 0] =
          some ([.scheduled 768 768 0, .scheduled 769 769 0, .wakeup true, .cancelled 769,
            .wakeup true, .started 768 768 0, .started 769 769 0], s)) ∧
      ¬StartsScheduled [CallEvent.scheduled 768 768 0, .scheduled 769 769 0, .wakeup true,
        .cancelled 769, .wakeup true, .started 768 768 0, .started 769 769 0] ∧
      ∃ trace s, (threadCallInit numberedCalls).runOps [.enterDelayed 0 ⟨1, 0⟩,
          .enterDelayed 1 ⟨2, 0⟩, .interrupt ⟨3, 0⟩, .enter 1] = some (trace, s) ∧
        769 ∈ s.pendingCallQueue ∧ s.intransitCallQueues = [[769]] ∧ ¬s.Ok := by
  refine ⟨⟨_, rfl⟩, fun hstarts => ?_, _, _, rfl, by decide +kernel, rfl, fun hok => ?_⟩
  · obtain ⟨us, vs, heq, hends⟩ := hstarts [.scheduled 768 768 0, .scheduled 769 769 0,
      .wakeup true, .cancelled 769, .wakeup true, .started 768 768 0] 769 769 0 [] rfl
    -- the only schedule of the entry is the second event
    match us, heq with
    | [], heq => simp at heq
    | [_], heq =>
      refine hends (.cancelled 769) ?_ rfl
      rw [← (cons.inj (cons.inj heq).2).2]
      simp
    | _ :: _ :: us, heq =>
      have hrest := (cons.inj (cons.inj heq).2).2
      have hmem : CallEvent.scheduled 769 769 0 ∈ us ++ .scheduled 769 769 0 :: vs := by simp
      simp [← show _ = us ++ _ from hrest] at hmem
  · exact disjoint_of_nodup_append hok.once (a := 769) (by decide +kernel) (by decide +kernel)

end Rhapsody.Kern
