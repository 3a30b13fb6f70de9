import Rhapsody.Kern.RunQueue

/-! Runs of the scheduler's queue routines. The count and the hint of every run queue hold along
a run, so no routine that chooses a thread panics. The hint is only an upper bound, and
`thread_select` returns the best thread exactly when its comparison was not misled by it. -/

namespace Rhapsody.Kern

open Function List Option

open Rhapsody.Lib

variable {s s' s1 : Sched} {r : RunqName} {t u p me : ℕ}

lemma ageUsage_runq (ticks : UInt32) (th : SchedThread) : (ageUsage ticks th).runq = th.runq := by
  unfold ageUsage
  split <;> rfl

lemma recomputePriority_runq (th : SchedThread) : (recomputePriority th).runq = th.runq := by
  unfold recomputePriority
  split <;> rfl

lemma updatePriority_runq (tick load : UInt32) (th : SchedThread) :
    (updatePriority tick load th).runq = th.runq :=
  (recomputePriority_runq _).trans (ageUsage_runq ..)

/-! ### One run queue -/

namespace RunQueue

variable {rq : RunQueue} {level : ℕ → Option ℕ} {l : ℕ}

/-- The queue links each thread at its level, its count is their number and its hint bounds the
levels in use. -/
structure Ok (rq : RunQueue) (level : ℕ → Option ℕ) : Prop where
  linked : ∀ l t, t ∈ rq.runq l ↔ level t = some l
  nodup : ∀ l, (rq.runq l).Nodup
  count : rq.count = (Levels.members rq.runq nrqs).length
  high : ∀ l, rq.runq l ≠ [] → l ≤ rq.high
  inside : rq.high < nrqs

lemma Ok.level_lt (h : rq.Ok level) (ht : level t = some l) : l < nrqs :=
  (h.high l (ne_nil_of_mem ((h.linked l t).2 ht))).trans_lt h.inside

lemma Ok.count_pos (h : rq.Ok level) (ht : level t = some l) : 0 < rq.count := by
  have hmem : t ∈ Levels.members rq.runq nrqs :=
    Levels.mem_members.2 ⟨l, h.level_lt ht, (h.linked l t).2 ht⟩
  have hlen := length_pos_of_mem hmem
  rw [h.count]
  omega

lemma Ok.exists_of_count_pos (h : rq.Ok level) (hpos : 0 < rq.count) : ∃ t l, level t = some l := by
  have hlen : 0 < (Levels.members rq.runq nrqs).length := by
    have := h.count
    omega
  obtain ⟨t, ht⟩ := exists_mem_of_length_pos hlen
  obtain ⟨l, -, htl⟩ := Levels.mem_members.1 ht
  exact ⟨t, l, (h.linked l t).1 htl⟩

lemma Ok.enqueueTail (h : rq.Ok level) (hnone : level t = none) (hl : l < nrqs) :
    (rq.enqueueTail l t).Ok (update level t (some l)) := by
  have hoff : ∀ l, t ∉ rq.runq l := by
    intro l ht
    rw [h.linked, hnone] at ht
    cases ht
  have hrunq : ∀ k, (rq.enqueueTail l t).runq k =
      if k = l then rq.runq l ++ [t] else rq.runq k := update_apply _ _ _
  constructor
  case linked =>
    intro k u
    rw [hrunq, update_apply]
    by_cases hu : u = t
    · subst hu
      split
      · simp_all
      · simpa [hoff] using fun h : l = k => absurd h.symm ‹_›
    rw [if_neg hu, ← h.linked]
    split
    · simp_all
    · rfl
  case nodup =>
    intro k
    rw [hrunq]
    split
    · exact (h.nodup l).append (nodup_singleton t) (by simpa using hoff l)
    · exact h.nodup k
  case count =>
    have hlen := Levels.length_members_update rq.runq hl (rq.runq l ++ [t])
    have hcount := h.count
    rw [length_append, length_singleton] at hlen
    simp only [RunQueue.enqueueTail]
    omega
  case high =>
    intro k hk
    have hhigh : rq.runq k ≠ [] → k ≤ rq.high ∧ 0 < rq.count := by
      intro hne
      obtain ⟨u, hu⟩ := exists_mem_of_ne_nil _ hne
      exact ⟨h.high k hne, h.count_pos ((h.linked k u).1 hu)⟩
    rw [hrunq] at hk
    simp only [RunQueue.enqueueTail]
    by_cases hkl : k = l
    · split <;> omega
    rw [if_neg hkl] at hk
    have := hhigh hk
    split <;> omega
  case inside =>
    have := h.inside
    simp only [RunQueue.enqueueTail]
    split <;> omega

lemma Ok.remqueue (h : rq.Ok level) (ht : level t = some l) {high : ℕ} (hin : high ≤ rq.high)
    (hhigh : ∀ k, (rq.remqueue t).runq k ≠ [] → k ≤ high) :
    Ok { rq.remqueue t with high := high } (update level t none) := by
  have hmem : t ∈ rq.runq l := (h.linked l t).2 ht
  have honly : ∀ k, k ≠ l → t ∉ rq.runq k := by
    intro k hk htk
    rw [h.linked, ht] at htk
    exact hk (some.inj htk).symm
  have hrunq : (rq.remqueue t).runq = update rq.runq l ((rq.runq l).erase t) := by
    funext k
    rw [update_apply]
    split
    next hk =>
      rw [hk]
      rfl
    next hk => exact erase_of_not_mem (honly k hk)
  constructor
  case linked =>
    intro k u
    show u ∈ (rq.runq k).erase t ↔ _
    rw [(h.nodup k).mem_erase_iff, update_apply, h.linked]
    split <;> simp_all
  case nodup => exact fun k => (h.nodup k).erase t
  case count =>
    show rq.count - 1 = (Levels.members (rq.remqueue t).runq nrqs).length
    have hlen := Levels.length_members_update rq.runq (h.level_lt ht) ((rq.runq l).erase t)
    have hcount := h.count
    have hpos := length_pos_of_mem hmem
    rw [length_erase_of_mem hmem] at hlen
    rw [hrunq]
    omega
  case high => exact hhigh
  case inside => exact hin.trans_lt h.inside

lemma runq_remqueue_subset (rq : RunQueue) (t l : ℕ) :
    (rq.remqueue t).runq l ⊆ rq.runq l := erase_subset

lemma Ok.high_remqueue (h : rq.Ok level) (t l : ℕ) (hne : (rq.remqueue t).runq l ≠ []) :
    l ≤ rq.high := by
  refine h.high l fun hnil => hne ?_
  exact eq_nil_of_subset_nil (hnil ▸ rq.runq_remqueue_subset t l)

lemma Ok.dequeueHead (h : rq.Ok level) (hne : rq.runq l ≠ []) :
    ∃ t, rq.dequeueHead l = some (t, rq.remqueue t) ∧ level t = some l := by
  obtain ⟨t, rest, hcons⟩ := exists_cons_of_ne_nil hne
  have ht : level t = some l := (h.linked l t).1 (by rw [hcons]; exact mem_cons_self)
  refine ⟨t, ?_, ht⟩
  have hrunq : update rq.runq l rest = (rq.remqueue t).runq := by
    funext k
    rw [update_apply]
    split
    next hk =>
      show rest = (rq.runq k).erase t
      rw [hk, hcons, erase_cons_head]
    next hk =>
      refine (erase_of_not_mem fun htk => hk ?_).symm
      rw [h.linked, ht] at htk
      exact (some.inj htk).symm
  rw [RunQueue.dequeueHead, hcons]
  dsimp only
  rw [hrunq]
  rfl

lemma Ok.exists_highest (h : rq.Ok level) (hpos : 0 < rq.count) :
    ∃ i, Levels.highest rq.runq rq.high = some i ∧ rq.runq i ≠ [] ∧ i ≤ rq.high ∧
      ∀ l, rq.runq l ≠ [] → l ≤ i := by
  obtain ⟨t, l, ht⟩ := h.exists_of_count_pos hpos
  have hne : rq.runq l ≠ [] := ne_nil_of_mem ((h.linked l t).2 ht)
  obtain ⟨i, hi⟩ := Levels.exists_highest hne (h.high l hne)
  obtain ⟨hle, hine, habove⟩ := Levels.highest_spec hi
  refine ⟨i, hi, hine, hle, fun k hk => ?_⟩
  by_contra hik
  exact hk (habove k (not_le.1 hik) (h.high k hk))

end RunQueue

/-! ### All run queues -/

lemma whichq_lt (pri : ℤ) : whichq pri < nrqs := by
  unfold whichq nrqs
  split <;> omega

namespace Sched

def level (s : Sched) (r : RunqName) (t : ℕ) : Option ℕ :=
  if (s.thread t).runq = some r then some (whichq (s.thread t).schedPri) else none

/-- Every run queue links the threads that say they are on it, at their levels. -/
def Wf (s : Sched) : Prop := ∀ r, (s.runQueue r).Ok (s.level r)

section
variable (s)

@[simp] lemma runQueue_setThread (t : ℕ) (th : SchedThread) (r : RunqName) :
    (s.setThread t th).runQueue r = s.runQueue r := by
  cases r <;> rfl

@[simp] lemma runQueue_setRunq (t : ℕ) (o : Option RunqName) (r : RunqName) :
    (s.setRunq t o).runQueue r = s.runQueue r := runQueue_setThread ..

@[simp] lemma thread_setThread_self (t : ℕ) (th : SchedThread) :
    (s.setThread t th).thread t = th := update_self ..

@[simp] lemma thread_setRunQueue (rq : RunQueue) (r : RunqName) :
    (s.setRunQueue rq r).thread = s.thread := by
  cases r <;> rfl

lemma runQueue_setRunQueue (rq : RunQueue) (r r' : RunqName) :
    (s.setRunQueue rq r).runQueue r' = if r' = r then rq else s.runQueue r' := by
  cases r with
  | pset => cases r' <;> rfl
  | processor p =>
    cases r' with
    | pset => rfl
    | processor q =>
      show (update s.processor p _ q).runq = _
      rw [update_apply]
      by_cases hq : q = p
      · rw [if_pos hq, if_pos (by rw [hq])]
      · rw [if_neg hq, if_neg (by simpa using hq)]
        rfl

lemma thread_setRunq (t u : ℕ) (o : Option RunqName) :
    (s.setRunq t o).thread u = if u = t then { s.thread t with runq := o } else s.thread u :=
  update_apply ..

@[simp] lemma schedPri_setRunq (t u : ℕ) (o : Option RunqName) :
    ((s.setRunq t o).thread u).schedPri = (s.thread u).schedPri := by
  rw [thread_setRunq]
  split <;> simp_all

lemma level_setRunq (r : RunqName) (t : ℕ) (o : Option RunqName) :
    (s.setRunq t o).level r = update (s.level r) t
      (if o = some r then some (whichq (s.thread t).schedPri) else none) := by
  funext u
  rw [level, schedPri_setRunq, thread_setRunq, update_apply]
  split <;> simp_all [level]

lemma level_setRunQueue (rq : RunQueue) (r r' : RunqName) :
    (s.setRunQueue rq r).level r' = s.level r' := by
  funext t
  rw [level, level, thread_setRunQueue]

end

lemma runq_of_level {l : ℕ} (h : s.level r t = some l) :
    (s.thread t).runq = some r ∧ whichq (s.thread t).schedPri = l := by
  unfold level at h
  split at h
  · exact ⟨‹_›, some.inj h⟩
  · cases h

lemma level_eq_none (r : RunqName) (h : (s.thread t).runq ≠ some r) : s.level r t = none := if_neg h

lemma level_of_runq (h : (s.thread t).runq = some r) :
    s.level r t = some (whichq (s.thread t).schedPri) := if_pos h

lemma Wf.replace (hs : s.Wf) {rq : RunQueue} {o : Option RunqName}
    (hrq : rq.Ok (update (s.level r) t
      (if o = some r then some (whichq (s.thread t).schedPri) else none)))
    (hother : ∀ r', r' ≠ r → o ≠ some r' ∧ (s.thread t).runq ≠ some r') :
    ((s.setRunQueue rq r).setRunq t o).Wf := by
  intro r'
  rw [runQueue_setRunq, runQueue_setRunQueue, level_setRunq, level_setRunQueue, thread_setRunQueue]
  by_cases hr : r' = r
  · subst hr
    rwa [if_pos rfl]
  obtain ⟨ho, ht⟩ := hother r' hr
  rw [if_neg hr, if_neg ho, ← level_eq_none r' ht, update_eq_self]
  exact hs r'

lemma Wf.enqueue (hs : s.Wf) (r : RunqName) (hnone : (s.thread t).runq = none) :
    (runQueueEnqueue s r t).Wf := by
  refine hs.replace ?_ fun r' hr => ⟨?_, ?_⟩
  · rw [if_pos rfl]
    exact (hs r).enqueueTail (level_eq_none r (by rw [hnone]; simp)) (whichq_lt _)
  · simpa using hr.symm
  · rw [hnone]
    simp

lemma Wf.unlink (hs : s.Wf) (hr : (s.thread t).runq = some r) {high : ℕ}
    (hin : high ≤ (s.runQueue r).high)
    (hhigh : ∀ l, ((s.runQueue r).remqueue t).runq l ≠ [] → l ≤ high) :
    ((s.setRunQueue { (s.runQueue r).remqueue t with high := high } r).setRunq t none).Wf := by
  refine hs.replace ?_ fun r' hr' => ⟨by simp, ?_⟩
  · rw [if_neg (by simp)]
    exact (hs r).remqueue (level_of_runq hr) hin hhigh
  · rw [hr]
    simpa using hr'.symm

lemma Wf.remqueue (hs : s.Wf) (hr : (s.thread t).runq = some r) :
    ((s.setRunQueue ((s.runQueue r).remqueue t) r).setRunq t none).Wf :=
  hs.unlink hr le_rfl ((hs r).high_remqueue t)

end Sched

/-- The rest of the kernel may change the state of a thread, its binding, what runs where, the
clock, and the priority of a thread that is not queued. -/
structure SameQueues (s s' : Sched) : Prop where
  runQueue : ∀ r, s'.runQueue r = s.runQueue r
  level : ∀ r t, s'.level r t = s.level r t

namespace SameQueues

lemma refl (s : Sched) : SameQueues s s := ⟨fun _ => rfl, fun _ _ => rfl⟩

lemma wf (h : SameQueues s s') (hs : s.Wf) : s'.Wf := by
  intro r
  rw [h.runQueue, show s'.level r = s.level r from funext (h.level r)]
  exact hs r

lemma setProcessor (s : Sched) (p : ℕ) (pr : Processor)
    (hrunq : pr.runq = (s.processor p).runq) : SameQueues s (s.setProcessor p pr) where
  runQueue r := by
    cases r with
    | pset => rfl
    | processor q =>
      show (update s.processor p pr q).runq = (s.processor q).runq
      rw [update_apply]
      split <;> simp_all
  level _ _ := rfl

lemma withIdleQueue (h : SameQueues s s') (ps : List ℕ) :
    SameQueues s { s' with idleQueue := ps } where
  runQueue r := (by cases r <;> rfl : _ = s'.runQueue r).trans (h.runQueue r)
  level := h.level

lemma setThread {th : SchedThread} (hnone : (s.thread t).runq = none) (hrunq : th.runq = none) :
    SameQueues s (s.setThread t th) where
  runQueue := s.runQueue_setThread t th
  level r u := by
    have hth : (s.setThread t th).thread u = if u = t then th else s.thread u := update_apply ..
    rw [Sched.level, Sched.level, hth]
    split <;> simp_all

lemma catchUp (hnone : (s.thread t).runq = none) : SameQueues s (s.catchUp t) := by
  unfold Sched.catchUp
  split
  · exact setThread hnone ((updatePriority_runq ..).trans hnone)
  · exact refl s

lemma dispatchIdle (s : Sched) (p t : ℕ) : SameQueues s (dispatchIdle s p t) :=
  withIdleQueue (setProcessor s p
    { s.processor p with nextThread := some t, state := .dispatching } rfl) _

lemma preemptCheck (s : Sched) (me t : ℕ) (mayPreempt : Bool) :
    SameQueues s (preemptCheck s me t mayPreempt) := by
  unfold Kern.preemptCheck
  split
  · exact setProcessor _ _ _ rfl
  · exact refl s

lemma boundAst (s : Sched) (me p : ℕ) : SameQueues s (boundAst s me p) := by
  unfold Kern.boundAst
  split
  · exact setProcessor _ _ _ rfl
  · exact refl s

lemma setIdle (s : Sched) (p : ℕ) : SameQueues s (setIdle s p) := by
  unfold Kern.setIdle
  split
  · exact withIdleQueue (setProcessor s p { s.processor p with state := .idle } rfl) _
  · exact refl s

lemma startQuantum (s : Sched) (p : ℕ) (quantum : ℤ) :
    SameQueues s (startQuantum s p quantum) := setProcessor _ _ _ rfl

end SameQueues

/-! ### Making a thread runnable -/

section
variable (hs : s.Wf)
include hs

lemma threadSetrun_wf (hnone : (s.thread t).runq = none) (me : ℕ) (mayPreempt : Bool) :
    (threadSetrun s me t mayPreempt).Wf := by
  have hup := (SameQueues.catchUp hnone).wf hs
  have hnone' : ((s.catchUp t).thread t).runq = none := by
    unfold Sched.catchUp
    split
    · rw [Sched.thread_setThread_self, updatePriority_runq, hnone]
    · exact hnone
  unfold threadSetrun
  dsimp only
  split
  · split
    · exact (SameQueues.dispatchIdle ..).wf hup
    · exact (SameQueues.preemptCheck ..).wf (hup.enqueue .pset hnone')
  next p hbound =>
    split
    · exact (SameQueues.dispatchIdle ..).wf hup
    · exact (SameQueues.boundAst ..).wf (hup.enqueue (.processor p) hnone')

lemma remRunq_spec (t : ℕ) : (remRunq s t).2.Wf ∧ ((remRunq s t).2.thread t).runq = none := by
  unfold remRunq
  split
  next hnone => exact ⟨hs, hnone⟩
  next r hr =>
    refine ⟨hs.remqueue hr, ?_⟩
    rw [Sched.thread_setRunq, if_pos rfl]

lemma setPri_wf (me t : ℕ) (pri : ℤ) (resched : Bool) : (setPri s me t pri resched).Wf := by
  obtain ⟨hrem, hnone⟩ := remRunq_spec hs t
  have hset := (SameQueues.setThread hnone
    (show { (remRunq s t).2.thread t with schedPri := pri }.runq = none from hnone)).wf hrem
  have hnone' : (((remRunq s t).2.setThread t
      { (remRunq s t).2.thread t with schedPri := pri }).thread t).runq = none := by
    rw [Sched.thread_setThread_self]
    exact hnone
  unfold setPri
  dsimp only
  split
  · exact hset
  next r hr =>
    split
    · exact threadSetrun_wf hset hnone' me true
    · exact hset.enqueue r hnone'

lemma fixStuck_wf (hnone : (s.thread t).runq = none) (me : ℕ) : (fixStuck s me t).Wf := by
  have hdrop : { s with stuckThreads := s.stuckThreads.dropLast }.Wf := by
    intro r
    cases r with
    | pset => exact hs .pset
    | processor p => exact hs (.processor p)
  have hnone' := (updatePriority_runq s.schedTick s.schedLoad (s.thread t)).trans hnone
  unfold fixStuck
  dsimp only
  split
  · apply threadSetrun_wf
    · exact SameQueues.wf (.setThread hnone hnone') hdrop
    · rw [Sched.thread_setThread_self, hnone']
  · exact hdrop

/-! ### Choosing a thread -/

/-- A thread was taken off the queue, or it was empty; no priority changed and no queued thread is
at a higher level. -/
structure Takes (s s' : Sched) (t : ℕ) : Prop where
  wf : s'.Wf
  schedPri : ∀ u, (s'.thread u).schedPri = (s.thread u).schedPri
  top : ∀ u l, s.level .pset u = some l → ∃ i, s.level .pset t = some i ∧ l ≤ i

lemma Sched.Wf.take {i : ℕ} (hne : s.psetRunq.runq i ≠ []) (hle : i ≤ s.psetRunq.high)
    (htop : ∀ l, s.psetRunq.runq l ≠ [] → l ≤ i) :
    ∃ t rq high, s.psetRunq.dequeueHead i = some (t, rq) ∧ lowerHigh s rq i = some high ∧
      Takes s ((s.setRunQueue { rq with high := high } .pset).setRunq t none) t := by
  have hq : s.psetRunq.Ok (s.level .pset) := hs .pset
  obtain ⟨t, hdeq, ht⟩ := hq.dequeueHead hne
  have hrest : ∀ l, (s.psetRunq.remqueue t).runq l ≠ [] → l ≤ i := by
    intro l hl
    refine htop l fun hnil => hl ?_
    exact eq_nil_of_subset_nil (hnil ▸ s.psetRunq.runq_remqueue_subset t l)
  have hlower : ∃ high, lowerHigh s (s.psetRunq.remqueue t) i = some high ∧ high ≤ i ∧
      ∀ l, (s.psetRunq.remqueue t).runq l ≠ [] → l ≤ high := by
    unfold lowerHigh
    split
    next hpos =>
      obtain ⟨high, hhigh, -, hlow, hbound⟩ := (hq.remqueue ht hle hrest).exists_highest hpos.1
      exact ⟨high, hhigh, hlow, hbound⟩
    · exact ⟨i, rfl, le_rfl, hrest⟩
  obtain ⟨high, hhigh, hlow, hbound⟩ := hlower
  refine ⟨t, _, high, hdeq, hhigh, hs.unlink (runq_of_level ht).1 (hlow.trans hle) hbound, ?_, ?_⟩
  · intro u
    rw [schedPri_setRunq, thread_setRunQueue]
  · intro u l hu
    exact ⟨i, ht, htop l (ne_nil_of_mem ((hq.linked l u).2 hu))⟩

lemma choosePsetThread_spec (p : ℕ) :
    ∃ t s', choosePsetThread s p = some (t, s') ∧ Takes s s' t := by
  have hq : s.psetRunq.Ok (s.level .pset) := hs .pset
  by_cases hpos : 0 < s.psetRunq.count
  · obtain ⟨i, hi, hne, hle, htop⟩ := hq.exists_highest hpos
    obtain ⟨t, rq, high, hdeq, hlower, htakes⟩ := hs.take hne hle htop
    refine ⟨t, _, ?_, htakes⟩
    simp only [choosePsetThread, if_pos hpos, hi, hdeq, hlower, bind_eq_bind, bind_some]
  refine ⟨_, _, if_neg hpos, (SameQueues.setIdle s p).wf hs, ?_, ?_⟩
  · intro u
    unfold setIdle
    split <;> rfl
  · intro u l hu
    exact absurd (hq.count_pos hu) hpos

lemma selectAtHint_spec (hpos : 0 < s.psetRunq.count) (p : ℕ) :
    ∃ t s', selectAtHint s p = some (t, s') ∧ Takes s s' t := by
  have hq : s.psetRunq.Ok (s.level .pset) := hs .pset
  obtain ⟨i, -, hne, hle, htop⟩ := hq.exists_highest hpos
  by_cases hnil : s.psetRunq.runq s.psetRunq.high = []
  · -- The hint is stale: it goes down by one and the levels below are searched.
    have hlt : i < s.psetRunq.high := by
      refine lt_of_le_of_ne hle ?_
      rintro rfl
      exact hne hnil
    obtain ⟨high, hhigh⟩ := Nat.exists_eq_succ_of_ne_zero (Nat.ne_zero_of_lt hlt)
    have hdeq : s.psetRunq.dequeueHead s.psetRunq.high = none := by
      rw [RunQueue.dequeueHead, hnil]
    have hs' : { s with psetRunq := { s.psetRunq with high := high } }.Wf := by
      intro r
      cases r with
      | processor q => exact hs (.processor q)
      | pset =>
        refine ⟨hq.linked, hq.nodup, hq.count, fun l hl => ?_, ?_⟩
        · have := htop l hl
          show l ≤ high
          omega
        have := hq.inside
        show high < nrqs
        omega
    obtain ⟨t, s', hchoose, htakes⟩ := choosePsetThread_spec hs' p
    refine ⟨t, s', ?_, htakes.wf, htakes.schedPri, htakes.top⟩
    simp only [selectAtHint, hdeq]
    split
    · omega
    next high' hh =>
      obtain rfl : high' = high := by omega
      exact hchoose
  · have hi : i = s.psetRunq.high := le_antisymm hle (htop _ hnil)
    obtain ⟨t, rq, high, hdeq, hlower, htakes⟩ := hs.take hne hle htop
    refine ⟨t, _, ?_, htakes⟩
    rw [hi] at hdeq hlower
    simp only [selectAtHint, hdeq, hlower, bind_eq_bind, bind_some]

lemma chooseThread_spec (p : ℕ) : ∃ t s', chooseThread s p = some (t, s') ∧ s'.Wf := by
  have hq : (s.processor p).runq.Ok (s.level (.processor p)) := hs (.processor p)
  by_cases hpos : 0 < (s.processor p).runq.count
  · obtain ⟨i, hi, hne, hle, htop⟩ := hq.exists_highest hpos
    obtain ⟨t, hdeq, ht⟩ := hq.dequeueHead hne
    refine ⟨t, _, ?_, hs.unlink (Sched.runq_of_level ht).1 hle ?_⟩
    · simp only [chooseThread, if_pos hpos, hi, hdeq, bind_eq_bind, bind_some]
      rfl
    intro l hl
    refine htop l fun hnil => hl ?_
    exact eq_nil_of_subset_nil (hnil ▸ RunQueue.runq_remqueue_subset _ t l)
  · obtain ⟨t, s', hchoose, htakes⟩ := choosePsetThread_spec hs p
    exact ⟨t, s', (if_neg hpos).trans hchoose, htakes.wf⟩

end

/-! ### The thread that is selected -/

def ValidPri (pri : ℤ) : Prop := 0 ≤ pri ∧ pri < nrqs

lemma whichq_eq {pri : ℤ} (h : ValidPri pri) : (whichq pri : ℤ) = pri := by
  have hq : whichq pri = pri.toNat := if_pos h
  rw [hq, Int.toNat_of_nonneg h.1]

def Sched.Queued (s : Sched) (t : ℕ) : Prop := (s.thread t).runq = some .pset

def Sched.current (s : Sched) (p : ℕ) : ℕ := (s.processor p).currentThread

/-- A queued thread is selected, or the current one if runnable, or the idle thread if there is
none, and no queued thread, nor the current one if runnable, has a higher priority. -/
structure Best (s s' : Sched) (p t : ℕ) : Prop where
  chosen : s.Queued t ∨ t = s.current p ∧ StillRunnable (s.thread (s.current p)) p ∨
    (∀ u, ¬s.Queued u) ∧ ¬StillRunnable (s.thread (s.current p)) p ∧
      t = (s.processor p).idleThread
  queued : ∀ u, s.Queued u → (s'.thread u).schedPri ≤ (s'.thread t).schedPri
  current : StillRunnable (s.thread (s.current p)) p →
    (s'.thread (s.current p)).schedPri ≤ (s'.thread t).schedPri

/-- A runnable current thread is kept only if its updated priority is still the highest, and passed
over only for a thread of its priority or above. -/
def NotMisled (s : Sched) (p : ℕ) : Prop :=
  StillRunnable (s.thread (s.current p)) p → 0 < s.psetRunq.count →
    (s.psetRunq.high < (s.thread (s.current p)).schedPri → ∀ u, s.Queued u →
      ((s.catchUp (s.current p)).thread u).schedPri ≤
        ((s.catchUp (s.current p)).thread (s.current p)).schedPri) ∧
    ((s.thread (s.current p)).schedPri ≤ s.psetRunq.high → ∃ u, s.Queued u ∧
      (s.thread (s.current p)).schedPri ≤ (s.thread u).schedPri)

section

variable (hs : s.Wf) (hvalid : ∀ u, s.Queued u → ValidPri (s.thread u).schedPri)
include hs

lemma Sched.Queued.count_pos (hu : s.Queued u) : 0 < s.psetRunq.count :=
  RunQueue.Ok.count_pos (hs .pset) (level_of_runq hu)

lemma Sched.Wf.exists_queued (hpos : 0 < s.psetRunq.count) : ∃ u, s.Queued u := by
  obtain ⟨u, l, hu⟩ := RunQueue.Ok.exists_of_count_pos (hs .pset) hpos
  exact ⟨u, (runq_of_level hu).1⟩

include hvalid
omit hs

lemma Takes.queued (h : Takes s s' t) (hu : s.Queued u) :
    s.Queued t ∧ (s.thread u).schedPri ≤ (s.thread t).schedPri := by
  obtain ⟨i, ht, hle⟩ := h.top u _ (Sched.level_of_runq hu)
  obtain ⟨htq, rfl⟩ := Sched.runq_of_level ht
  refine ⟨htq, ?_⟩
  rw [← whichq_eq (hvalid u hu), ← whichq_eq (hvalid t htq)]
  exact_mod_cast hle

lemma Takes.best_iff (h : Takes s s' t) (p : ℕ) (hchosen : s.Queued t ∨ (∀ u, ¬s.Queued u) ∧
      ¬StillRunnable (s.thread (s.current p)) p ∧ t = (s.processor p).idleThread) :
    Best s s' p t ↔ (StillRunnable (s.thread (s.current p)) p →
      (s.thread (s.current p)).schedPri ≤ (s.thread t).schedPri) := by
  constructor
  · intro hbest hrun
    rw [← h.schedPri, ← h.schedPri]
    exact hbest.current hrun
  intro hcur
  refine ⟨hchosen.imp_right .inr, fun u hu => ?_, fun hrun => ?_⟩
  · rw [h.schedPri, h.schedPri]
    exact (h.queued hvalid hu).2
  · rw [h.schedPri, h.schedPri]
    exact hcur hrun

include hs

omit hvalid

lemma selectPset_cases (p : ℕ) : (StillRunnable (s.thread (s.current p)) p ∧
      (s.psetRunq.count = 0 ∨ (s.psetRunq.high : ℤ) < (s.thread (s.current p)).schedPri) ∧
      selectPset s p = some (s.current p, s.catchUp (s.current p))) ∨
    ∃ t s', selectPset s p = some (t, s') ∧ Takes s s' t ∧
      (s.psetRunq.count = 0 → t = (s.processor p).idleThread) ∧
      (StillRunnable (s.thread (s.current p)) p →
        0 < s.psetRunq.count ∧ (s.thread (s.current p)).schedPri ≤ s.psetRunq.high) := by
  by_cases hkeep : s.psetRunq.count = 0 ∨ (s.psetRunq.high : ℤ) < (s.thread (s.current p)).schedPri
  · by_cases hrun : StillRunnable (s.thread (s.current p)) p
    · exact .inl ⟨hrun, hkeep, (if_pos hkeep).trans (if_pos hrun)⟩
    obtain ⟨t, s', hchoose, htakes⟩ := choosePsetThread_spec hs p
    have hselect : selectPset s p = some (t, s') :=
      (if_pos hkeep).trans ((if_neg hrun).trans hchoose)
    refine .inr ⟨t, s', hselect, htakes, fun hzero => ?_, fun h => absurd h hrun⟩
    rw [choosePsetThread, if_neg (by omega)] at hchoose
    cases hchoose
    rfl
  have hcount : s.psetRunq.count = _ := (hs .pset).count
  have hpos : 0 < s.psetRunq.count := by omega
  obtain ⟨t, s', hselect, htakes⟩ := selectAtHint_spec hs hpos p
  refine .inr ⟨t, s', (if_neg hkeep).trans hselect, htakes, fun hzero => ?_, fun _ => ⟨hpos, ?_⟩⟩
  · exact absurd hzero hpos.ne'
  · omega

lemma selectPset_total (p : ℕ) : ∃ t s', selectPset s p = some (t, s') := by
  obtain ⟨-, -, h⟩ | ⟨t, s', h, -⟩ := selectPset_cases hs p
  · exact ⟨_, _, h⟩
  · exact ⟨t, s', h⟩

lemma selectPset_wf (hcur : (s.thread (s.current p)).runq = none)
    (h : selectPset s p = some (t, s')) : s'.Wf := by
  obtain ⟨-, -, h'⟩ | ⟨t', s1, h', htakes, -⟩ := selectPset_cases hs p
  · cases h'.symm.trans h
    exact (SameQueues.catchUp hcur).wf hs
  · cases h'.symm.trans h
    exact htakes.wf

include hvalid in
lemma selectPset_best (h : selectPset s p = some (t, s')) : Best s s' p t ↔ NotMisled s p := by
  obtain ⟨hrun, hkeep, h'⟩ | ⟨t', s1, h', htakes, hidle, hpass⟩ := selectPset_cases hs p
  · cases h'.symm.trans h
    constructor
    · intro hbest _ hpos
      refine ⟨fun _ => hbest.queued, fun hle => ?_⟩
      omega
    intro hnot
    refine ⟨.inr (.inl ⟨rfl, hrun⟩), fun u hu => ?_, fun _ => le_rfl⟩
    have hpos := hu.count_pos hs
    exact (hnot hrun hpos).1 (hkeep.resolve_left hpos.ne') u hu
  cases h'.symm.trans h
  have hchosen : s.Queued t ∨ (∀ u, ¬s.Queued u) ∧ ¬StillRunnable (s.thread (s.current p)) p ∧
      t = (s.processor p).idleThread := by
    have hcount : s.psetRunq.count = _ := (hs .pset).count
    by_cases hzero : s.psetRunq.count = 0
    · exact .inr ⟨fun u hu => (hu.count_pos hs).ne' hzero, fun hrun => (hpass hrun).1.ne' hzero,
        hidle hzero⟩
    · obtain ⟨u, hu⟩ := hs.exists_queued (by omega)
      exact .inl (htakes.queued hvalid hu).1
  rw [htakes.best_iff hvalid p hchosen]
  constructor
  · intro hbest hrun hpos
    obtain ⟨u, hu⟩ := hs.exists_queued hpos
    refine ⟨fun hlt => absurd (hpass hrun).2 (not_le.2 hlt), fun _ => ?_⟩
    exact ⟨t, (htakes.queued hvalid hu).1, hbest hrun⟩
  intro hnot hrun
  obtain ⟨hpos, hle⟩ := hpass hrun
  obtain ⟨u, hu, hpri⟩ := (hnot hrun hpos).2 hle
  exact hpri.trans (htakes.queued hvalid hu).2

lemma threadSelect_total (p : ℕ) : ∃ t s', threadSelect s p = some (t, s') := by
  unfold threadSelect
  split
  · obtain ⟨t, s', h, -⟩ := chooseThread_spec hs p
    rw [h]
    exact ⟨t, _, rfl⟩
  obtain ⟨t, s', h⟩ := selectPset_total hs p
  rw [h]
  exact ⟨t, _, rfl⟩

lemma threadSelect_wf (hcur : (s.thread (s.current p)).runq = none)
    (h : threadSelect s p = some (t, s')) : s'.Wf := by
  unfold threadSelect at h
  split at h
  · obtain ⟨t', s1, hchoose, hwf⟩ := chooseThread_spec hs p
    rw [hchoose] at h
    cases h
    exact (SameQueues.startQuantum ..).wf hwf
  obtain ⟨⟨t', s1⟩, hselect, h⟩ := bind_eq_some_iff.1 h
  cases h
  exact (SameQueues.startQuantum ..).wf (selectPset_wf hs hcur hselect)

include hvalid in
lemma threadSelect_best (hlocal : (s.processor p).runq.count = 0)
    (h : threadSelect s p = some (t, s')) : Best s s' p t ↔ NotMisled s p := by
  rw [threadSelect, if_neg (by rw [hlocal]; exact lt_irrefl 0)] at h
  obtain ⟨⟨t', s1⟩, hselect, h⟩ := bind_eq_some_iff.1 h
  cases h
  rw [← selectPset_best hs hvalid hselect]
  -- Starting the quantum changes no thread.
  exact ⟨fun h => ⟨h.chosen, h.queued, h.current⟩, fun h => ⟨h.chosen, h.queued, h.current⟩⟩

end

/-! ### The scan for stuck threads -/

lemma scanQueue_spec (r : RunqName) (ts : List ℕ) (count : ℤ) (hs : s.Wf)
    (hts : ∀ t ∈ ts, (s.thread t).runq = some r) (hnodup : ts.Nodup) :
    (scanQueue r ts s count).2.1.Wf ∧
    ((scanQueue r ts s count).1 = false → (scanQueue r ts s count).2.2 = count - ts.length) ∧
    ∀ k, (∀ t ∈ ts, t ∉ (s.runQueue r).runq k) →
      ((scanQueue r ts s count).2.1.runQueue r).runq k = (s.runQueue r).runq k := by
  induction ts generalizing s count with
  | nil => exact ⟨hs, fun _ => by simp [scanQueue], fun _ _ => rfl⟩
  | cons t next ih =>
    obtain ⟨htnext, hnext⟩ := nodup_cons.1 hnodup
    have hr := hts t mem_cons_self
    have hrest : ∀ u ∈ next, (s.thread u).runq = some r := fun u hu => hts u (mem_cons_of_mem t hu)
    rw [scanQueue]
    split
    · split
      · exact ⟨hs, fun h => (by cases h), fun _ _ => rfl⟩
      -- The thread leaves its level; the others of the level stay linked.
      have hwf : (saveStuck s r t).Wf := by
        intro r'
        have := hs.remqueue hr r'
        cases r' <;> exact this
      have hlinked : ∀ u ∈ next, ((saveStuck s r t).thread u).runq = some r := by
        intro u hu
        have hut : u ≠ t := fun h => htnext (h ▸ hu)
        show ((Sched.setRunq _ t none).thread u).runq = some r
        rw [Sched.thread_setRunq, if_neg hut, Sched.thread_setRunQueue]
        exact hrest u hu
      have hqueue : (saveStuck s r t).runQueue r = (s.runQueue r).remqueue t := by
        have := Sched.runQueue_setRunQueue s ((s.runQueue r).remqueue t) r r
        rw [if_pos rfl] at this
        rw [← this]
        cases r <;> rfl
      obtain ⟨hwf', hcount, hlevels⟩ := ih (count - 1) hwf hlinked hnext
      refine ⟨hwf', fun h => ?_, fun k hk => ?_⟩
      · rw [hcount h, length_cons]
        omega
      have hsame : ((saveStuck s r t).runQueue r).runq k = (s.runQueue r).runq k := by
        rw [hqueue]
        exact erase_of_not_mem (hk t mem_cons_self)
      rw [hlevels k, hsame]
      intro u hu
      rw [hsame]
      exact hk u (mem_cons_of_mem t hu)
    · obtain ⟨hwf', hcount, hlevels⟩ := ih (count - 1) hs hrest hnext
      refine ⟨hwf', fun h => ?_, fun k hk => ?_⟩
      · rw [hcount h, length_cons]
        omega
      · exact hlevels k fun u hu => hk u (mem_cons_of_mem t hu)

lemma scanQueue_level (r : RunqName) (l : ℕ) (count : ℤ) (hs : s.Wf)
    (hcount : count = (Levels.members (s.runQueue r).runq (l + 1)).length) :
    (scanQueue r ((s.runQueue r).runq l) s count).2.1.Wf ∧
    ((scanQueue r ((s.runQueue r).runq l) s count).1 = false →
      (scanQueue r ((s.runQueue r).runq l) s count).2.2 = (Levels.members
        ((scanQueue r ((s.runQueue r).runq l) s count).2.1.runQueue r).runq l).length) := by
  have hlevel : ∀ t ∈ (s.runQueue r).runq l, s.level r t = some l :=
    fun t ht => ((hs r).linked l t).1 ht
  obtain ⟨hwf, hleft, hlevels⟩ := scanQueue_spec r ((s.runQueue r).runq l) count hs
    (fun t ht => (Sched.runq_of_level (hlevel t ht)).1) ((hs r).nodup l)
  refine ⟨hwf, fun h => ?_⟩
  have hbelow : ∀ k < l, ∀ t ∈ (s.runQueue r).runq l, t ∉ (s.runQueue r).runq k := by
    intro k hk t ht htk
    have hkl := ((hs r).linked k t).1 htk
    rw [hlevel t ht] at hkl
    exact hk.ne (some.inj hkl).symm
  rw [Levels.length_members_congr fun k hk => hlevels k (hbelow k hk), hleft h]
  have := Levels.length_members_succ (s.runQueue r).runq l
  omega

lemma scanLevels_spec (r : RunqName) (level : ℕ) (count : ℤ) (hs : s.Wf)
    (hcount : count = (Levels.members (s.runQueue r).runq (level + 1)).length) :
    ∃ full s', scanLevels r level s count = some (full, s') ∧ s'.Wf := by
  induction level generalizing s count with
  | zero =>
    obtain ⟨hwf, hleft⟩ := scanQueue_level r 0 count hs hcount
    rw [scanLevels]
    split
    · exact ⟨_, _, rfl, hs⟩
    rcases hq : scanQueue r ((s.runQueue r).runq 0) s count with ⟨_ | _, s1, count'⟩
    · rw [hq] at hwf hleft
      have hzero : count' ≤ 0 := (hleft rfl).le
      exact ⟨_, _, if_pos hzero, hwf⟩
    · rw [hq] at hwf
      exact ⟨_, _, rfl, hwf⟩
  | succ level ih =>
    obtain ⟨hwf, hleft⟩ := scanQueue_level r (level + 1) count hs hcount
    rw [scanLevels]
    split
    · exact ⟨_, _, rfl, hs⟩
    rcases hq : scanQueue r ((s.runQueue r).runq (level + 1)) s count with ⟨_ | _, s1, count'⟩
    · rw [hq] at hwf hleft
      exact ih count' hwf (hleft rfl)
    · rw [hq] at hwf
      exact ⟨_, _, rfl, hwf⟩

lemma doRunqScan_spec (hs : s.Wf) (r : RunqName) :
    ∃ full s', doRunqScan s r = some (full, s') ∧ s'.Wf := by
  refine scanLevels_spec r _ _ hs ?_
  rw [(hs r).count, Levels.length_members_of_le (hs r).inside]
  intro l hl
  by_contra hne
  exact absurd ((hs r).high l hne) (by omega)

/-! ### Runs -/

/-- One of the queue routines, called as its callers do, or anything else the kernel does without
touching the run queues. -/
inductive SchedStep : Sched → Sched → Prop
  | threadSetrun (s : Sched) (me t : ℕ) (mayPreempt : Bool)
      (hoff : (s.thread t).runq = none) : SchedStep s (threadSetrun s me t mayPreempt)
  | remRunq (s : Sched) (t : ℕ) : SchedStep s (remRunq s t).2
  | setPri (s : Sched) (me t : ℕ) (pri : ℤ) (resched : Bool) :
      SchedStep s (setPri s me t pri resched)
  | threadSelect {s s' : Sched} (p t : ℕ) (hcur : (s.thread (s.current p)).runq = none)
      (h : threadSelect s p = some (t, s')) : SchedStep s s'
  | chooseThread {s s' : Sched} (p t : ℕ) (h : chooseThread s p = some (t, s')) : SchedStep s s'
  | choosePsetThread {s s' : Sched} (p t : ℕ) (h : choosePsetThread s p = some (t, s')) :
      SchedStep s s'
  | doRunqScan {s s' : Sched} (r : RunqName) (full : Bool)
      (h : doRunqScan s r = some (full, s')) : SchedStep s s'
  | fixStuck (s : Sched) (me t : ℕ) (hlast : s.stuckThreads.getLast? = some t)
      (hoff : (s.thread t).runq = none) : SchedStep s (fixStuck s me t)
  | other {s s' : Sched} (h : SameQueues s s') : SchedStep s s'

def Sched.Start (s : Sched) : Prop :=
  (∀ r, s.runQueue r = .empty) ∧ ∀ t, (s.thread t).runq = none

inductive SchedRun : Sched → Prop
  | start {s : Sched} (h : s.Start) : SchedRun s
  | step {s s' : Sched} (run : SchedRun s) (h : SchedStep s s') : SchedRun s'

lemma Sched.Start.wf (h : s.Start) : s.Wf := by
  intro r
  rw [h.1 r]
  refine ⟨fun l t => ?_, fun _ => nodup_nil, ?_, fun l hl => absurd rfl hl, by decide⟩
  · rw [level_eq_none r (by rw [h.2 t]; simp)]
    exact iff_of_false not_mem_nil (by simp)
  · simp [RunQueue.empty, Levels.members]

lemma SchedStep.wf (h : SchedStep s s') (hs : s.Wf) : s'.Wf := by
  cases h with
  | threadSetrun me t mayPreempt hoff => exact threadSetrun_wf hs hoff me mayPreempt
  | remRunq t => exact (remRunq_spec hs t).1
  | setPri me t pri resched => exact setPri_wf hs me t pri resched
  | threadSelect p t hcur h => exact threadSelect_wf hs hcur h
  | chooseThread p t h =>
    obtain ⟨t', s1, hchoose, hwf⟩ := chooseThread_spec hs p
    cases hchoose.symm.trans h
    exact hwf
  | choosePsetThread p t h =>
    obtain ⟨t', s1, hchoose, htakes⟩ := choosePsetThread_spec hs p
    cases hchoose.symm.trans h
    exact htakes.wf
  | doRunqScan r full h =>
    obtain ⟨full', s1, hscan, hwf⟩ := doRunqScan_spec hs r
    cases hscan.symm.trans h
    exact hwf
  | fixStuck me t hlast hoff => exact fixStuck_wf hs hoff me
  | other h => exact h.wf hs

lemma SchedRun.wf (h : SchedRun s) : s.Wf := by
  induction h with
  | start h => exact h.wf
  | step run h ih => exact h.wf ih

/-- In every state reached a run queue links exactly the threads on it, with their number and a hint
that bounds the levels in use, so neither choosing nor scanning runs past an empty queue. With an
empty local queue `thread_select` returns a thread of the highest priority exactly when the hint did
not mislead it. -/
theorem schedRun_runQueues (run : SchedRun s) : s.Wf ∧
    (∀ p, (∃ t s', chooseThread s p = some (t, s')) ∧
      (∃ t s', choosePsetThread s p = some (t, s')) ∧
      ∃ t s', threadSelect s p = some (t, s')) ∧
    (∀ r, ∃ full s', doRunqScan s r = some (full, s')) ∧
    ∀ p t s', (s.processor p).runq.count = 0 → (∀ u, s.Queued u → ValidPri (s.thread u).schedPri) →
      threadSelect s p = some (t, s') → (Best s s' p t ↔ NotMisled s p) := by
  have hs := run.wf
  refine ⟨hs, fun p => ⟨?_, ?_, threadSelect_total hs p⟩, ?_, ?_⟩
  · obtain ⟨t, s', h, -⟩ := chooseThread_spec hs p
    exact ⟨t, s', h⟩
  · obtain ⟨t, s', h, -⟩ := choosePsetThread_spec hs p
    exact ⟨t, s', h⟩
  · intro r
    obtain ⟨full, s', h, -⟩ := doRunqScan_spec hs r
    exact ⟨full, s', h⟩
  · intro p t s' hlocal hvalid h
    exact threadSelect_best hs hvalid hlocal h

def fixedThread (pri : ℤ) : SchedThread where
  state := .thRun
  runq := none
  boundProcessor := none
  policy := .fixedpri
  schedData := 10
  priority := pri
  schedPri := pri
  depressPriority := -1
  schedStamp := 0
  sleepTime := 0
  cpuUsage := 0
  schedUsage := 0
  cpuDelta := 0
  schedDelta := 0
  timerDelta := 0

/-- Thread 3 runs at priority 15; threads 1 and 2 have priorities 20 and 10. -/
def fixedSched : Sched where
  thread t := fixedThread (if t = 1 then 20 else if t = 2 then 10 else 15)
  processor _ :=
    { runq := .empty, state := .running, nextThread := none, idleThread := 0, currentThread := 3,
      quantum := 10, firstQuantum := true, needAst := false }
  masterProcessor := 0
  psetRunq := .empty
  policies := [.timeshare, .fixedpri]
  setQuantum := 10
  minQuantum := 10
  schedLoad := 0
  idleQueue := []
  schedTick := 0
  stuckThreads := []

def queuedSched : Sched := threadSetrun (threadSetrun fixedSched 0 1 false) 0 2 false

lemma queuedSched_run : SchedRun queuedSched := by
  have hstart : SchedRun fixedSched := .start ⟨fun r => by cases r <;> rfl, fun _ => rfl⟩
  exact .step (.step hstart (.threadSetrun _ 0 1 false rfl)) (.threadSetrun _ 0 2 false rfl)

lemma queuedSched_validPri (t : ℕ) : ValidPri (queuedSched.thread t).schedPri := by
  have hsched : queuedSched = runQueueEnqueue (runQueueEnqueue fixedSched .pset 1) .pset 2 := rfl
  rw [hsched, runQueueEnqueue, Sched.schedPri_setRunq, Sched.thread_setRunQueue, runQueueEnqueue,
    Sched.schedPri_setRunq, Sched.thread_setRunQueue]
  show ValidPri (if t = 1 then 20 else if t = 2 then 10 else 15)
  unfold ValidPri nrqs
  split_ifs <;> omega

/-- The hint of `queuedSched` is exact, and thread 1 is selected. -/
theorem schedRun_runQueues_queued : SchedRun queuedSched ∧ ∃ s',
    threadSelect queuedSched 0 = some (1, s') ∧ Best queuedSched s' 0 1 := by
  refine ⟨queuedSched_run, _, rfl, ?_⟩
  refine ((schedRun_runQueues queuedSched_run).2.2.2 0 1 _ rfl
    (fun u _ => queuedSched_validPri u) rfl).2 fun _ _ => ⟨fun hlt => ?_, fun _ => ?_⟩
  · exact absurd hlt (by decide)
  · exact ⟨1, rfl, by decide⟩

/-- Once thread 1 has left again the hint is stale: thread 2 is selected at priority 10 although the
current thread is runnable at 15. -/
theorem stale_hint_passes_over_current : ∃ s s', SchedRun s ∧ .fixedpri ∈ s.policies ∧
    (s.processor 0).runq.count = 0 ∧ (∀ u, ValidPri (s.thread u).schedPri) ∧
    threadSelect s 0 = some (2, s') ∧ ¬Best s s' 0 2 := by
  refine ⟨(remRunq queuedSched 1).2, _, .step queuedSched_run (.remRunq _ 1), ?_, rfl, ?_, rfl, ?_⟩
  · decide
  · intro u
    have hsched : (remRunq queuedSched 1).2 =
      (queuedSched.setRunQueue (queuedSched.psetRunq.remqueue 1) .pset).setRunq 1 none := rfl
    rw [hsched, Sched.schedPri_setRunq, Sched.thread_setRunQueue]
    exact queuedSched_validPri u
  · intro hbest
    exact absurd (hbest.current (by decide)) (by decide)

end Rhapsody.Kern
