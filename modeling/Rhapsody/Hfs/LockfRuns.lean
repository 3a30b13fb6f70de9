import Rhapsody.Hfs.LockfSpec

/-! Runs of the lock calls. The locks of one owner stand in order and apart and an exclusive lock
shares no byte with another owner's; each call changes the bytes of its own owner only. -/

namespace Rhapsody.Hfs

open Function List Option

open Hfslockf

variable {s s' s1 : LockState} {lock l block unlock : Hfslockf} {locks locks' : List Hfslockf}
  {owner : ℕ} {b : ℤ}

def lockType (locks : List Hfslockf) (owner : ℕ) (b : ℤ) : Option LockType :=
  (locks.find? fun l => l.lfId = owner ∧ l.Contains b).map Hfslockf.lfType

lemma eq_of_contains {l' : Hfslockf} (hsorted : locks.Pairwise InOrder) (hl : l ∈ locks)
    (hl' : l' ∈ locks) (hid : l.lfId = l'.lfId) (hb : l.Contains b) (hb' : l'.Contains b) :
    l = l' := by
  have hmeets := Meets.of_contains hb hb'
  induction hsorted with
  | nil => cases hl
  | cons horder _ ih =>
    rcases mem_cons.1 hl with rfl | hmem <;> rcases mem_cons.1 hl' with rfl | hmem'
    · rfl
    · exact absurd (horder l' hmem' hid) hmeets.1
    · exact absurd (horder l hmem hid.symm) hmeets.2
    · exact ih hmem hmem'

lemma lockType_eq_some (hsorted : locks.Pairwise InOrder) (owner : ℕ) (b : ℤ)
    (type : LockType) : lockType locks owner b = some type ↔ Holds locks owner b type := by
  constructor
  · intro h
    obtain ⟨l, hfind, rfl⟩ := map_eq_some_iff.1 h
    have hl := find?_some hfind
    simp only [decide_eq_true_eq] at hl
    exact ⟨l, mem_of_find?_eq_some hfind, hl.1, hl.2, rfl⟩
  rintro ⟨l, hl, hid, hb, rfl⟩
  have hsome : (locks.find? fun l => l.lfId = owner ∧ l.Contains b).isSome := by
    rw [find?_isSome]
    exact ⟨l, hl, by simp [hid, hb]⟩
  obtain ⟨l', hfind⟩ := isSome_iff_exists.1 hsome
  have hl' := find?_some hfind
  simp only [decide_eq_true_eq] at hl'
  rw [lockType, hfind, eq_of_contains hsorted hl (mem_of_find?_eq_some hfind)
    (hid.trans hl'.1.symm) hb hl'.2]
  rfl

lemma lockType_congr (hsorted : locks.Pairwise InOrder) (hsorted' : locks'.Pairwise InOrder)
    {owner' : ℕ} {b' : ℤ}
    (h : ∀ type, Holds locks' owner b type ↔ Holds locks owner' b' type) :
    lockType locks' owner b = lockType locks owner' b' := by
  refine Option.ext fun type => ?_
  rw [lockType_eq_some hsorted', h, lockType_eq_some hsorted]

/-! ### The locks of one file -/

structure LocksOk (locks : List Hfslockf) : Prop where
  sorted : locks.Pairwise InOrder
  valid : ∀ l ∈ locks, l.Valid
  apart : ∀ b owner owner' type type', owner ≠ owner' → Holds locks owner b type →
    Holds locks owner' b type' → type = .rdlck ∧ type' = .rdlck

lemma Carved.holds_other {rest : List Hfslockf} (h : ∀ l, l.lfId ≠ lock.lfId →
    (l ∈ locks ↔ l ∈ rest)) (hne : owner ≠ lock.lfId) (type : LockType) :
    Holds locks owner b type ↔ Holds rest owner b type := by
  refine exists_congr fun l => ?_
  by_cases hid : l.lfId = owner
  · rw [h l (hid ▸ hne)]
  · simp [hid]

lemma Carved.lockType_eq (h : Carved lock locks locks') (hsorted : locks.Pairwise InOrder)
    (owner : ℕ) (b : ℤ) : lockType locks' owner b =
      if owner = lock.lfId ∧ lock.Contains b then none else lockType locks owner b := by
  by_cases hown : owner = lock.lfId
  · subst hown
    split
    next hb =>
      refine eq_none_iff_forall_ne_some.2 fun type htype => ?_
      rw [lockType_eq_some h.sorted, h.holds] at htype
      exact htype.1 hb.2
    next hb =>
      refine lockType_congr hsorted h.sorted fun type => ?_
      rw [h.holds]
      exact and_iff_right fun hc => hb ⟨rfl, hc⟩
  · rw [if_neg fun hc => hown hc.1]
    exact lockType_congr hsorted h.sorted (holds_other h.others hown)

lemma Placed.lockType_eq (h : Placed lock locks locks') (hsorted : locks.Pairwise InOrder)
    (owner : ℕ) (b : ℤ) : lockType locks' owner b =
      if owner = lock.lfId ∧ lock.Contains b then some lock.lfType
      else lockType locks owner b := by
  by_cases hown : owner = lock.lfId
  · subst hown
    split
    next hb => rw [lockType_eq_some h.sorted, h.holds, if_pos hb.2]
    next hb =>
      refine lockType_congr hsorted h.sorted fun type => ?_
      rw [h.holds, if_neg fun hc => hb ⟨rfl, hc⟩]
  · rw [if_neg fun hc => hown hc.1]
    exact lockType_congr hsorted h.sorted (Carved.holds_other h.others hown)

lemma LocksOk.carve (hok : LocksOk locks) (h : Carved lock locks locks') : LocksOk locks' where
  sorted := h.sorted
  valid := h.valid
  apart b owner owner' type type' hne hheld hheld' := by
    have hsub : ∀ {o t}, Holds locks' o b t → Holds locks o b t := by
      intro o t ho
      by_cases hown : o = lock.lfId
      · subst hown
        exact ((h.holds b t).1 ho).2
      · exact (Carved.holds_other h.others hown t).1 ho
    exact hok.apart b owner owner' type type' hne (hsub hheld) (hsub hheld')

lemma LocksOk.place (hok : LocksOk locks) (hfree : ∀ l ∈ locks, ¬Blocks l lock)
    (h : Placed lock locks locks') : LocksOk locks' where
  sorted := h.sorted
  valid := h.valid
  apart := by
    -- A byte of the new lock is shared with another owner only if both hold it shared.
    have hnew : ∀ {b o t}, o ≠ lock.lfId → lock.Contains b → Holds locks' o b t →
        lock.lfType = .rdlck ∧ t = .rdlck := by
      intro b o t ho hb hheld
      obtain ⟨l, hl, rfl, hlb, rfl⟩ := (Carved.holds_other h.others ho t).1 hheld
      have hnot : ¬(lock.lfType = .wrlck ∨ l.lfType = .wrlck) :=
        fun hex => hfree l hl ⟨ho, .of_contains hlb hb, hex⟩
      obtain ⟨h1, h2⟩ := not_or.1 hnot
      constructor
      · cases htype : lock.lfType with
        | rdlck => rfl
        | wrlck => exact absurd htype h1
      cases htype : l.lfType with
      | rdlck => rfl
      | wrlck => exact absurd htype h2
    have hown : ∀ {b t}, Holds locks' lock.lfId b t →
        (lock.Contains b ∧ lock.lfType = t) ∨ (¬lock.Contains b ∧ Holds locks lock.lfId b t) := by
      intro b t hheld
      rw [h.holds] at hheld
      split at hheld
      · exact .inl ⟨‹_›, hheld⟩
      · exact .inr ⟨‹_›, hheld⟩
    intro b owner owner' type type' hne hheld hheld'
    by_cases ho : owner = lock.lfId
    · subst ho
      rcases hown hheld with ⟨hb, rfl⟩ | ⟨-, hheld⟩
      · exact hnew hne.symm hb hheld'
      · exact hok.apart b _ _ _ _ hne hheld ((Carved.holds_other h.others hne.symm _).1 hheld')
    by_cases ho' : owner' = lock.lfId
    · subst ho'
      rcases hown hheld' with ⟨hb, rfl⟩ | ⟨-, hheld'⟩
      · exact (hnew hne hb hheld).symm
      · exact hok.apart b _ _ _ _ hne ((Carved.holds_other h.others hne _).1 hheld) hheld'
    · exact hok.apart b _ _ _ _ hne ((Carved.holds_other h.others ho _).1 hheld)
        ((Carved.holds_other h.others ho' _).1 hheld')

section

variable {g : Hfslockf → Hfslockf} (hg : ∀ l, (g l).SameRange l)
include hg

lemma holds_map (owner : ℕ) (b : ℤ) (type : LockType) :
    Holds (locks.map g) owner b type ↔ Holds locks owner b type := by
  simp [Holds, (hg _).id_eq, (hg _).contains b, (hg _).type_eq]

lemma pairwise_map (h : locks.Pairwise InOrder) : (locks.map g).Pairwise InOrder := by
  refine List.pairwise_map.mpr (h.imp fun {l l'} horder hid => ?_)
  rw [(hg l).id_eq, (hg l').id_eq] at hid
  obtain ⟨hne, hlt⟩ := horder hid
  exact ⟨(hg l).end_eq ▸ hne, (hg l).end_eq ▸ (hg l').start_eq ▸ hlt⟩

lemma LocksOk.map (hok : LocksOk locks) : LocksOk (locks.map g) where
  sorted := pairwise_map hg hok.sorted
  valid l hl := by
    obtain ⟨l, hmem, rfl⟩ := mem_map.1 hl
    exact (hg l).symm.valid (hok.valid l hmem)
  apart b owner owner' type type' hne hheld hheld' :=
    hok.apart b owner owner' type type' hne ((holds_map hg ..).1 hheld) ((holds_map hg ..).1 hheld')

lemma lockType_map (hok : LocksOk locks) (owner : ℕ) (b : ℤ) :
    lockType (locks.map g) owner b = lockType locks owner b :=
  lockType_congr hok.sorted (pairwise_map hg hok.sorted) (holds_map hg owner b)

end

/-! ### What a call does to the bytes -/

/-- The owner of the lock holds its range as given, and nothing else changes. -/
def Changes (s s' : LockState) (lock : Hfslockf) (held : Option LockType) : Prop :=
  ∀ hfsnode owner b, lockType (s'.lockf hfsnode) owner b =
    if hfsnode = lock.hfsnode ∧ owner = lock.lfId ∧ lock.Contains b then held
    else lockType (s.lockf hfsnode) owner b

def Sets (s s' : LockState) (lock : Hfslockf) : Prop := Changes s s' lock (some lock.lfType)

def Clears (s s' : LockState) (lock : Hfslockf) : Prop := Changes s s' lock none

def Keeps (s s' : LockState) : Prop :=
  ∀ hfsnode owner b, lockType (s'.lockf hfsnode) owner b = lockType (s.lockf hfsnode) owner b

structure LockState.Wf (s : LockState) : Prop where
  locks : ∀ hfsnode, LocksOk (s.lockf hfsnode)
  requests : ∀ w ∈ s.sleepers, w.request.Valid

def LockState.replace (s : LockState) (hfsnode : ℕ) (locks : List Hfslockf) (woken : List ℕ) :
    LockState :=
  { (s.setLockf hfsnode locks).wake woken with nextNode := s.nextNode + 1 }

lemma LockState.Wf.replace (hs : s.Wf) {hfsnode : ℕ} (hok : LocksOk locks) (woken : List ℕ) :
    (s.replace hfsnode locks woken).Wf where
  locks f := by
    show LocksOk (update s.lockf hfsnode locks f)
    rw [update_apply]
    split
    · exact hok
    · exact hs.locks f
  requests w hw := by
    obtain ⟨w0, hw0, rfl⟩ := mem_map.1 hw
    split <;> exact hs.requests w0 hw0

lemma changes_replace {held : Option LockType} (woken : List ℕ)
    (h : ∀ owner b, lockType locks owner b = if owner = lock.lfId ∧ lock.Contains b then held
      else lockType (s.lockf lock.hfsnode) owner b) :
    Changes s (s.replace lock.hfsnode locks woken) lock held := by
  intro f owner b
  show lockType (update s.lockf lock.hfsnode locks f) owner b = _
  rw [update_apply]
  by_cases hf : f = lock.hfsnode
  · subst hf
    rw [if_pos rfl, h]
    simp only [true_and]
  · rw [if_neg hf, if_neg fun hc => hf hc.1]

lemma hfsClearlock_spec (hs : s.Wf) (hunlock : unlock.Valid) :
    ∃ s', hfsClearlock s unlock = some s' ∧ s'.Wf ∧ Clears s s' unlock := by
  have hok := hs.locks unlock.hfsnode
  obtain ⟨locks, woken, hwalk, hcarved⟩ := clearlockFrom_spec s.nextNode _ hunlock
    ⟨hok.sorted, hok.valid⟩ (Nat.lt_succ_self (s.lockf unlock.hfsnode).length)
  refine ⟨s.replace unlock.hfsnode locks woken, ?_, hs.replace (hok.carve hcarved) woken,
    changes_replace woken (hcarved.lockType_eq hok.sorted)⟩
  rw [hfsClearlock]
  rw [hwalk]
  rfl

lemma linkLock_spec (hs : s.Wf) (hlock : lock.Valid)
    (hfree : ∀ l ∈ s.lockf lock.hfsnode, ¬Blocks l lock) :
    ∃ s', linkLock s lock = some s' ∧ s'.Wf ∧ Sets s s' lock := by
  have hok := hs.locks lock.hfsnode
  obtain ⟨w, hwalk, hplaced⟩ := setlockFrom_spec s.nextNode _ hlock ⟨hok.sorted, hok.valid⟩
    (Nat.lt_succ_self (s.lockf lock.hfsnode).length)
  refine ⟨s.replace lock.hfsnode w.locks w.woken, ?_, hs.replace (hok.place hfree hplaced) w.woken,
    changes_replace w.woken (hplaced.lockType_eq hok.sorted)⟩
  rw [linkLock]
  rw [hwalk]
  rfl

lemma sleep_spec (hs : s.Wf) (hlock : lock.Valid) (proc : ℕ) (block : Hfslockf) :
    (s.sleep proc lock block).Wf ∧ Keeps s (s.sleep proc lock block) := by
  have hg : ∀ l : Hfslockf, (if l.node = block.node then
      { l with blkhd := l.blkhd ++ [lock.node] } else l).SameRange l := by
    intro l
    split
    · exact ⟨rfl, rfl, rfl, rfl⟩
    · exact .refl l
  refine ⟨⟨fun f => ?_, fun w hw => ?_⟩, fun f owner b => ?_⟩
  · show LocksOk (update s.lockf lock.hfsnode _ f)
    rw [update_apply]
    split
    · exact (hs.locks _).map hg
    · exact hs.locks f
  · rcases mem_append.1 hw with hw | hw
    · exact hs.requests w hw
    · rw [mem_singleton.1 hw]
      exact hlock
  show lockType (update s.lockf lock.hfsnode _ f) owner b = _
  rw [update_apply]
  split
  next hf => rw [lockType_map hg (hs.locks _), hf]
  · rfl

def Effect (s s' : LockState) (lock : Hfslockf) : Outcome → Prop
  | .granted => Sets s s' lock
  | .cleared => Clears s s' lock
  | .asleep => if lock.flock ∧ lock.lfType = .wrlck then Clears s s' lock else Keeps s s'
  | .eagain | .edeadlk | .interrupted | .nothing => Keeps s s'

lemma hfsSetlock_spec (hs : s.Wf) (hlock : lock.Valid) (proc : ℕ) :
    ∃ s' out, hfsSetlock s proc lock = some (s', out) ∧ s'.Wf ∧ Effect s s' lock out := by
  rcases hfsGetblock_spec hlock (hs.locks lock.hfsnode).valid with
    ⟨hnone, hfree⟩ | ⟨block, -, hsome, -⟩
  · obtain ⟨s', hlink, hwf, hsets⟩ := linkLock_spec hs hlock hfree
    refine ⟨s', .granted, ?_, hwf, hsets⟩
    rw [hfsSetlock, hnone]
    simp only [bind_eq_bind, bind_some, hlink]
  rw [hfsSetlock, hsome]
  simp only [bind_eq_bind, bind_some]
  split
  · exact ⟨s, .eagain, rfl, hs, fun _ _ _ => rfl⟩
  split
  · exact ⟨s, .edeadlk, rfl, hs, fun _ _ _ => rfl⟩
  split
  · rename_i hflock
    obtain ⟨s1, hclear, hwf, hclears⟩ := hfsClearlock_spec hs hlock
    obtain ⟨hsleep, hkeeps⟩ := sleep_spec hwf hlock proc block
    refine ⟨s1.sleep proc lock block, .asleep, ?_, hsleep, ?_⟩
    · rw [hclear]
      rfl
    · refine (if_pos hflock).mpr fun f owner b => ?_
      rw [hkeeps, hclears]
  · rename_i hflock
    obtain ⟨hsleep, hkeeps⟩ := sleep_spec hs hlock proc block
    exact ⟨_, .asleep, rfl, hsleep, (if_neg hflock).mpr hkeeps⟩

/-! ### Runs -/

/-- The range is one of bytes, and a sleeper that is interrupted waits on a lock that is still
there: one that another lock of its owner has swallowed keeps no waiters but is still their
`lf_next`. -/
def LockOp.Valid (s : LockState) : LockOp → Prop
  | .setlock _ lock => lock.Valid
  | .clearlock unlock => unlock.Valid
  | .resume _ => True
  | .interrupt node => ∀ w ∈ s.sleepers, w.request.node = node → ∀ next, w.lfNext = some next →
      s.lockAt w.request.hfsnode next ≠ none

def LockOp.request (s : LockState) : LockOp → Option Hfslockf
  | .setlock _ lock => some (s.alloc lock)
  | .clearlock unlock => some (s.alloc unlock)
  | .resume node => (s.wokenSleeper node).map Sleeper.request
  | .interrupt _ => none

def LockOp.Effect (s s' : LockState) (op : LockOp) (out : Outcome) : Prop :=
  match op.request s with
  | some lock => Hfs.Effect s s' lock out
  | none => Keeps s s'

def LockState.Start (s : LockState) : Prop := (∀ hfsnode, s.lockf hfsnode = []) ∧ s.sleepers = []

inductive LockRun : LockState → Prop
  | start {s : LockState} (h : s.Start) : LockRun s
  | step {s s' : LockState} {op : LockOp} {out : Outcome} (run : LockRun s) (hop : op.Valid s)
      (h : step s op = some (s', out)) : LockRun s'

lemma interruptSleeper_spec (hs : s.Wf) {w : Sleeper} (h : ∀ next, w.lfNext = some next →
    s.lockAt w.request.hfsnode next ≠ none) :
    ∃ s', interruptSleeper s w = some s' ∧ s'.Wf ∧ Keeps s s' := by
  have hrequests : ∀ w' ∈ s.sleepers.erase w, w'.request.Valid :=
    fun w' hw' => hs.requests w' (mem_of_mem_erase hw')
  unfold interruptSleeper
  cases hnext : w.lfNext with
  | none => exact ⟨_, rfl, ⟨hs.locks, hrequests⟩, fun _ _ _ => rfl⟩
  | some next =>
    obtain ⟨l, hl⟩ := ne_none_iff_exists'.1 (h next hnext)
    have hg : ∀ l : Hfslockf, (if l.node = next then
        { l with blkhd := l.blkhd.erase w.request.node } else l).SameRange l := by
      intro l
      split
      · exact ⟨rfl, rfl, rfl, rfl⟩
      · exact .refl l
    simp only [hl]
    refine ⟨_, rfl, ⟨fun f => ?_, hrequests⟩, fun f owner b => ?_⟩
    · show LocksOk (update s.lockf w.request.hfsnode _ f)
      rw [update_apply]
      split
      · exact (hs.locks _).map hg
      · exact hs.locks f
    · show lockType (update s.lockf w.request.hfsnode _ f) owner b = _
      rw [update_apply]
      split
      next hf => rw [lockType_map hg (hs.locks _), hf]
      · rfl

lemma step_spec (hs : s.Wf) {op : LockOp} (hop : op.Valid s) :
    ∃ s' out, step s op = some (s', out) ∧ s'.Wf ∧ op.Effect s s' out := by
  have hnext : { s with nextNode := s.nextNode + 1 }.Wf := ⟨hs.locks, hs.requests⟩
  cases op with
  | setlock proc lock =>
    have hlock : (s.alloc lock).Valid := ⟨hop.1, hop.2, hop.3⟩
    exact hfsSetlock_spec hnext hlock proc
  | clearlock unlock =>
    have hunlock : (s.alloc unlock).Valid := ⟨hop.1, hop.2, hop.3⟩
    obtain ⟨s', hclear, hwf, hclears⟩ := hfsClearlock_spec hnext hunlock
    refine ⟨s', .cleared, ?_, hwf, hclears⟩
    rw [step, hclear]
    rfl
  | resume node =>
    cases hfind : s.wokenSleeper node with
    | none =>
      refine ⟨s, .nothing, ?_, hs, ?_⟩
      · simp only [step, hfind]
      · simp only [LockOp.Effect, LockOp.request, hfind, map_none]
        exact fun _ _ _ => rfl
    | some w =>
      have hw : w ∈ s.sleepers := mem_of_find?_eq_some hfind
      have herase : { s with sleepers := s.sleepers.erase w }.Wf :=
        ⟨hs.locks, fun w' hw' => hs.requests w' (mem_of_mem_erase hw')⟩
      simp only [step, LockOp.Effect, LockOp.request, hfind, map_some]
      exact hfsSetlock_spec herase (hs.requests w hw) w.proc
  | interrupt node =>
    cases hfind : s.sleepers.find? fun w => w.request.node = node with
    | none =>
      refine ⟨s, .nothing, ?_, hs, fun _ _ _ => rfl⟩
      simp only [step, hfind]
    | some w =>
      obtain ⟨s', hinterrupt, hwf, hkeeps⟩ := interruptSleeper_spec hs
        (hop w (mem_of_find?_eq_some hfind) (by simpa using find?_some hfind))
      refine ⟨s', .interrupted, ?_, hwf, hkeeps⟩
      simp only [step, hfind, hinterrupt, map_some]

lemma LockRun.wf (run : LockRun s) : s.Wf := by
  induction run with
  | start h =>
    refine ⟨fun f => ?_, by simp [h.2]⟩
    rw [h.1 f]
    exact ⟨.nil, by simp, by simp [Holds]⟩
  | step run hop h ih =>
    obtain ⟨s', out, hstep, hwf, -⟩ := step_spec ih hop
    cases hstep.symm.trans h
    exact hwf

/-- One owner's locks are in order and apart, and two owners' share a byte only if both are shared.
-/
structure LockState.Granted (s : LockState) : Prop where
  ordered : ∀ hfsnode, (s.lockf hfsnode).Pairwise InOrder
  exclusive : ∀ hfsnode, ∀ l ∈ s.lockf hfsnode, ∀ l' ∈ s.lockf hfsnode, l.lfId ≠ l'.lfId →
    ∀ b, l.Contains b → l'.Contains b → l.lfType = .rdlck ∧ l'.lfType = .rdlck

lemma LockState.Wf.granted (hs : s.Wf) : s.Granted where
  ordered f := (hs.locks f).sorted
  exclusive f l hl l' hl' hne b hb hb' :=
    (hs.locks f).apart b l.lfId l'.lfId _ _ hne ⟨l, hl, rfl, hb, rfl⟩ ⟨l', hl', rfl, hb', rfl⟩

end Rhapsody.Hfs
