import Rhapsody.Kern.Lock

/-! Read/write locks over whole runs. Every bit of the lock has one thread behind it,
which holds it or is on its way to it, and no sleeper is left asleep when what it
waits for has gone. -/

namespace Rhapsody.Kern

open List

/-! ## The invariant -/

namespace LockThread

variable (t : LockThread)

def Base : Bool := t.upgrade || t.write

def writeClaims : ℕ := t.write.toNat + (decide (t.place = .drain)).toNat

def upgradeClaims : ℕ := t.upgrade.toNat + (decide (t.place = .upgrade)).toNat

variable {t} in
lemma writeClaims_eq_zero_iff : t.writeClaims = 0 ↔ t.write = false ∧ t.place ≠ .drain := by
  cases hw : t.write <;> simp [writeClaims, hw]

variable {t} in
lemma upgradeClaims_eq_zero_iff : t.upgradeClaims = 0 ↔ t.upgrade = false ∧ t.place ≠ .upgrade := by
  cases hu : t.upgrade <;> simp [upgradeClaims, hu]

variable {t} in
lemma base_eq_false_iff : t.Base = false ↔ t.upgrade = false ∧ t.write = false :=
  Bool.or_eq_false_iff

def Excludes (a b : LockThread) : Prop :=
  a.Base = true → b.reads = 0 ∧ b.Base = false ∧ b.place ≠ .upgrade

def Apart (a b : LockThread) : Prop := a.Excludes b ∧ b.Excludes a

variable {a : LockThread}

variable {b : LockThread}

lemma Apart.symm (h : a.Apart b) : b.Apart a := ⟨h.2, h.1⟩

lemma apart_of_not_base (ha : a.Base = false) (hb : b.Base = false) : a.Apart b :=
  ⟨fun h => absurd (ha.symm.trans h) nofun, fun h => absurd (hb.symm.trans h) nofun⟩

lemma base_of_drop {kind : Lock.Kind} (h : (t.drop kind).Base = true) : t.Base = true := by
  cases kind with
  | read => exact h
  | recursion => exact h
  | upgrade =>
    rw [Base, Bool.or_eq_true] at h ⊢
    exact .inr (h.resolve_left nofun)
  | write =>
    rw [Base, Bool.or_eq_true] at h ⊢
    exact .inl (h.resolve_right nofun)

lemma Apart.drop (h : a.Apart b) (kind : Lock.Kind) : (a.drop kind).Apart b := by
  refine ⟨fun ha => h.1 (base_of_drop a ha), fun hb => ?_⟩
  obtain ⟨hreads, hbase, hplace⟩ := h.2 hb
  refine ⟨?_, ?_, ?_⟩
  · cases kind <;> first | exact hreads | exact congrArg (· - 1) hreads
  · cases hd : (a.drop kind).Base with
    | false => rfl
    | true => exact absurd (hbase.symm.trans (base_of_drop a hd)) nofun
  · cases kind <;> exact hplace

end LockThread

open LockThread

def Lock.Blocks (l : Lock) : LockPlace → Prop
  | .outside => False
  | .wantWrite => l.wantWrite = true
  | .drain => l.readCount ≠ 0 ∨ l.wantUpgrade = true
  | .read => l.wantWrite = true ∨ l.wantUpgrade = true
  | .upgrade => l.readCount ≠ 0

structure Lock.Counts (l : Lock) (ts : List LockThread) : Prop where
  reads : l.readCount = (ts.map reads).sum
  depth : l.recursionDepth = (ts.map recursions).sum
  write : (ts.map writeClaims).sum = l.wantWrite.toNat
  upgrade : (ts.map upgradeClaims).sum = l.wantUpgrade.toNat
  apart : ts.Pairwise LockThread.Apart
  nested : ∀ t ∈ ts, t.recursions ≠ 0 → t.Base = true

def Lock.Sleepers (l : Lock) (ts : List LockThread) : Prop :=
  ∀ t ∈ ts, t.asleep = true → l.waiting = true ∧ l.Blocks t.place

structure LockSystem.Ok (s : LockSystem) : Prop where
  counts : s.lock.Counts s.threads
  sleepers : s.lock.Sleepers s.threads
  owner : ∀ k, s.lock.thread = some k → ∃ t, s.threads[k]? = some t ∧ t.Base = true

variable {r : LockResult}

namespace Lock

variable {l l' : Lock} {k : ℕ} {t t' : LockThread} {rest ts : List LockThread} {spin : Bool}

section
variable {f : LockThread → ℕ} {b : Bool}

lemma sum_eq_of_rest (h : ∀ u ∈ rest, f u = 0) : ((t :: rest).map f).sum = f t := by
  rw [List.map_cons, List.sum_cons,
    List.sum_eq_zero_iff_forall_eq_nat.2 (List.forall_mem_map.2 h), Nat.add_zero]

lemma eq_zero_of_sum (h : (ts.map f).sum = 0) (ht : t ∈ ts) : f t = 0 :=
  List.sum_eq_zero_iff_forall_eq_nat.1 h _ (List.mem_map_of_mem ht)

lemma bit_eq_false (h : (ts.map f).sum = b.toNat) (hzero : ∀ u ∈ ts, f u = 0) : b = false := by
  rw [List.sum_eq_zero_iff_forall_eq_nat.2 (List.forall_mem_map.2 hzero)] at h
  cases b with
  | false => rfl
  | true => cases h

theorem rest_of_bit (h : ((t :: rest).map f).sum = b.toNat) (ht : f t ≠ 0) :
    b = true ∧ f t = 1 ∧ ∀ u ∈ rest, f u = 0 := by
  rw [map_cons, sum_cons] at h
  have hle := Bool.toNat_le b
  refine ⟨?_, by omega, fun u hu => eq_zero_of_sum (by omega) hu⟩
  cases b with
  | true => rfl
  | false =>
    rw [Bool.toNat_false] at h
    omega

end

namespace Counts

lemma perm (h : l.Counts ts) {ts' : List LockThread} (hp : ts.Perm ts') : l.Counts ts' where
  reads := h.reads.trans (hp.map _).sum_eq
  depth := h.depth.trans (hp.map _).sum_eq
  write := (hp.map _).sum_eq.symm.trans h.write
  upgrade := (hp.map _).sum_eq.symm.trans h.upgrade
  apart := (hp.pairwise_iff fun h => h.symm).1 h.apart
  nested t ht := h.nested t (hp.mem_iff.2 ht)

lemma wake (h : l.Counts ts) : l.Counts (ts.map LockThread.wake) where
  reads := by rw [map_map]; exact h.reads
  depth := by rw [map_map]; exact h.depth
  write := by rw [map_map]; exact h.write
  upgrade := by rw [map_map]; exact h.upgrade
  apart := pairwise_map.2 h.apart
  nested t ht := by
    obtain ⟨u, hu, rfl⟩ := mem_map.1 ht
    exact h.nested u hu

lemma replace (h : l.Counts (t :: rest)) (hreads : l'.readCount + t.reads = l.readCount + t'.reads)
    (hdepth : l'.recursionDepth + t.recursions = l.recursionDepth + t'.recursions)
    (hwrite : l'.wantWrite.toNat + t.writeClaims = l.wantWrite.toNat + t'.writeClaims)
    (hupgrade : l'.wantUpgrade.toNat + t.upgradeClaims = l.wantUpgrade.toNat + t'.upgradeClaims)
    (hapart : ∀ b ∈ rest, t'.Apart b) (hnested : t'.recursions ≠ 0 → t'.Base = true) :
    l'.Counts (t' :: rest) := by
  have h1 := h.reads
  have h2 := h.depth
  have h3 := h.write
  have h4 := h.upgrade
  simp only [map_cons, sum_cons] at h1 h2 h3 h4
  refine ⟨?_, ?_, ?_, ?_, ?_, ?_⟩
  · simp only [map_cons, sum_cons]
    omega
  · simp only [map_cons, sum_cons]
    omega
  · simp only [map_cons, sum_cons]
    omega
  · simp only [map_cons, sum_cons]
    omega
  · exact pairwise_cons.2 ⟨hapart, (pairwise_cons.1 h.apart).2⟩
  · exact forall_mem_cons.2 ⟨hnested, (forall_mem_cons.1 h.nested).2⟩

lemma apart_rest (h : l.Counts (t :: rest)) : ∀ b ∈ rest, t.Apart b := (pairwise_cons.1 h.apart).1

lemma nested_self (h : l.Counts (t :: rest)) : t.recursions ≠ 0 → t.Base = true :=
  h.nested t mem_cons_self

lemma reads_eq_zero (h : l.Counts ts) (hl : l.readCount = 0) (ht : t ∈ ts) : t.reads = 0 :=
  eq_zero_of_sum (h.reads.symm.trans hl) ht

lemma recursions_eq_zero (h : l.Counts ts) (hl : l.recursionDepth = 0) (ht : t ∈ ts) :
    t.recursions = 0 := eq_zero_of_sum (h.depth.symm.trans hl) ht

lemma write_eq_false (h : l.Counts ts) (hl : l.wantWrite = false) (ht : t ∈ ts) :
    t.write = false ∧ t.place ≠ .drain := by
  have hsum := h.write
  rw [hl] at hsum
  exact writeClaims_eq_zero_iff.1 (eq_zero_of_sum hsum ht)

lemma upgrade_eq_false (h : l.Counts ts) (hl : l.wantUpgrade = false) (ht : t ∈ ts) :
    t.upgrade = false ∧ t.place ≠ .upgrade := by
  have hsum := h.upgrade
  rw [hl] at hsum
  exact upgradeClaims_eq_zero_iff.1 (eq_zero_of_sum hsum ht)

lemma not_base (h : l.Counts ts) (hw : l.wantWrite = false) (hu : l.wantUpgrade = false)
    (ht : t ∈ ts) : t.Base = false :=
  base_eq_false_iff.2 ⟨(h.upgrade_eq_false hu ht).1, (h.write_eq_false hw ht).1⟩

lemma write_rest (h : l.Counts (t :: rest)) (ht : t.writeClaims ≠ 0) :
    l.wantWrite = true ∧ t.writeClaims = 1 ∧ ∀ b ∈ rest, b.write = false ∧ b.place ≠ .drain := by
  obtain ⟨hset, hone, hrest⟩ := rest_of_bit h.write ht
  exact ⟨hset, hone, fun b hb => writeClaims_eq_zero_iff.1 (hrest b hb)⟩

lemma upgrade_rest (h : l.Counts (t :: rest)) (ht : t.upgradeClaims ≠ 0) :
    l.wantUpgrade = true ∧ t.upgradeClaims = 1 ∧
      ∀ b ∈ rest, b.upgrade = false ∧ b.place ≠ .upgrade := by
  obtain ⟨hset, hone, hrest⟩ := rest_of_bit h.upgrade ht
  exact ⟨hset, hone, fun b hb => upgradeClaims_eq_zero_iff.1 (hrest b hb)⟩

end Counts

/-! ## One hold of the interlock -/

structure Takes (l : Lock) (k : ℕ) (t : LockThread) (rest : List LockThread) : Prop where
  counts : l.Counts (t :: rest)
  sleepers : l.Sleepers rest
  awake : t.asleep = false
  owner : l.thread = some k → t.Base = true

structure Leaves (l : Lock) (k : ℕ) (rest : List LockThread) (r : LockResult) : Prop where
  counts : r.lock.Counts (r.thread :: rest)
  sleepers : r.wakeup = false → r.lock.Sleepers (r.thread :: rest)
  owner : r.lock.thread = some k → r.thread.Base = true
  others : ∀ j, j ≠ k → r.lock.thread = some j → l.thread = some j

lemma Leaves.of_thread (h : l'.Leaves k rest r) (heq : l'.thread = l.thread) :
    l.Leaves k rest r := ⟨h.counts, h.sleepers, h.owner, fun j hj hr => heq ▸ h.others j hj hr⟩

variable {place : LockPlace} {max n : ℕ} {kind : Kind}

lemma Blocks.mono (h : l.Blocks place) (hw : l.wantWrite = true → l'.wantWrite = true)
    (hu : l.wantUpgrade = true → l'.wantUpgrade = true) (hr : l.readCount ≠ 0 → l'.readCount ≠ 0) :
    l'.Blocks place := by
  cases place with
  | outside => exact h
  | wantWrite => exact hw h
  | drain => exact h.imp hr hu
  | read => exact h.imp hw hu
  | upgrade => exact hr h

lemma Sleepers.mono (h : l.Sleepers ts) (hwaiting : l'.waiting = l.waiting)
    (hw : l.wantWrite = true → l'.wantWrite = true)
    (hu : l.wantUpgrade = true → l'.wantUpgrade = true)
    (hr : l.readCount ≠ 0 → l'.readCount ≠ 0) : l'.Sleepers ts := by
  intro b hb ha
  obtain ⟨hwait, hblocks⟩ := h b hb ha
  exact ⟨hwaiting.trans hwait, hblocks.mono hw hu hr⟩

lemma Sleepers.cons (h : l.Sleepers rest) (ht : t.asleep = false) : l.Sleepers (t :: rest) :=
  forall_mem_cons.2 ⟨fun ha => absurd (ht.symm.trans ha) nofun, h⟩

lemma Takes.wait (h : l.Takes k { t with place := place } rest) (hb : l.Blocks place) :
    l.Leaves k rest (l.wait t spin place) := by
  cases spin with
  | true => exact ⟨h.counts.replace rfl rfl rfl rfl h.counts.apart_rest h.counts.nested_self,
      fun _ => h.sleepers.cons rfl, h.owner, fun _ _ hj => hj⟩
  | false =>
    refine ⟨h.counts.replace rfl rfl rfl rfl h.counts.apart_rest h.counts.nested_self,
      fun _ => forall_mem_cons.2 ⟨fun _ => ⟨rfl, hb.mono id id id⟩, ?_⟩,
      h.owner, fun _ _ hj => hj⟩
    intro b hbr ha
    exact ⟨rfl, (h.sleepers b hbr ha).2.mono id id id⟩

lemma fieldIncr_of_lt (h : n < max) : fieldIncr max n = n + 1 := if_neg (by omega)

lemma fieldDecr_of_ne (h : n ≠ 0) : fieldDecr max n = n - 1 := if_neg h

section
variable (h : l.Takes k t rest)
include h

lemma Takes.drainLoop (ht : t.place = .drain) : l.Leaves k rest (l.drainLoop t spin) := by
  have hclaims : t.writeClaims = t.write.toNat + 1 := by rw [writeClaims, ht]; rfl
  obtain ⟨-, hone, hrest⟩ := h.counts.write_rest (by omega)
  rw [Lock.drainLoop]
  split
  next hcond => exact Takes.wait (by rw [← ht]; exact h) hcond
  next hcond =>
    obtain ⟨hread, hup⟩ := not_or.1 hcond
    have hread : l.readCount = 0 := not_not.1 hread
    have hup : l.wantUpgrade = false := eq_false_of_ne_true hup
    refine ⟨h.counts.replace rfl rfl ?_ ?_ ?_ fun _ => Bool.or_true _,
      fun _ => h.sleepers.cons h.awake, fun _ => Bool.or_true _, fun _ _ hj => hj⟩
    · rw [hone]
      rfl
    · rw [upgradeClaims, ht]
      rfl
    intro b hb
    have hmem := mem_cons_of_mem t hb
    obtain ⟨hbu, hbp⟩ := h.counts.upgrade_eq_false hup hmem
    have hbase : b.Base = false := base_eq_false_iff.2 ⟨hbu, (hrest b hb).1⟩
    exact ⟨fun _ => ⟨h.counts.reads_eq_zero hread hmem, hbase, hbp⟩,
      fun hb => absurd (hbase.symm.trans hb) nofun⟩

lemma Takes.upgradeLoop (ht : t.place = .upgrade) : l.Leaves k rest (l.upgradeLoop t spin) := by
  have hclaims : t.upgradeClaims = t.upgrade.toNat + 1 := by
    rw [upgradeClaims, ht]
    rfl
  obtain ⟨-, hone, hrest⟩ := h.counts.upgrade_rest (by omega)
  rw [Lock.upgradeLoop]
  split
  next hcond => exact Takes.wait (by rw [← ht]; exact h) hcond
  next hcond =>
    have hread : l.readCount = 0 := not_not.1 hcond
    refine ⟨h.counts.replace rfl rfl ?_ ?_ ?_ fun _ => Bool.true_or _,
      fun _ => h.sleepers.cons h.awake, fun _ => Bool.true_or _, fun _ _ hj => hj⟩
    · rw [writeClaims, ht]
      rfl
    · rw [hone]
      rfl
    intro b hb
    have hbase : b.Base = false := by
      cases hbb : b.Base with
      | false => rfl
      | true => exact absurd ht ((h.counts.apart_rest b hb).2 hbb).2.2
    have hzero := h.counts.reads_eq_zero hread (mem_cons_of_mem t hb)
    exact ⟨fun _ => ⟨hzero, hbase, (hrest b hb).2⟩, fun hb => absurd (hbase.symm.trans hb) nofun⟩

section
variable (ht : t.place ≠ .drain) (ht' : t.place ≠ .upgrade)
include ht ht'

lemma Takes.move (hp : place ≠ .drain) (hp' : place ≠ .upgrade) :
    l.Takes k { t with place := place } rest := by
  refine ⟨h.counts.replace rfl rfl ?_ ?_ ?_ h.counts.nested_self, h.sleepers, h.awake, h.owner⟩
  · simp only [writeClaims, ht, hp]
  · simp only [upgradeClaims, ht', hp']
  intro b hb
  obtain ⟨h1, h2⟩ := h.counts.apart_rest b hb
  exact ⟨h1, fun hbase => ⟨(h2 hbase).1, (h2 hbase).2.1, hp'⟩⟩

lemma Takes.wantWriteLoop : l.Leaves k rest (l.wantWriteLoop t spin) := by
  rw [Lock.wantWriteLoop]
  split
  next hcond => exact Takes.wait (h.move ht ht' nofun nofun) hcond
  next hcond =>
    have hno : l.wantWrite = false := eq_false_of_ne_true hcond
    have hdrain : Takes { l with wantWrite := true } k { t with place := .drain } rest := by
      refine ⟨h.counts.replace rfl rfl ?_ ?_ ?_ h.counts.nested_self,
        h.sleepers.mono rfl (fun _ => rfl) id id, h.awake, h.owner⟩
      · rw [hno, writeClaims]
        simp only [writeClaims, ht, decide_true, decide_false, Bool.toNat_true,
          Bool.toNat_false]
        omega
      · simp only [upgradeClaims, ht']
        rfl
      intro b hb
      obtain ⟨h1, h2⟩ := h.counts.apart_rest b hb
      exact ⟨h1, fun hbase => ⟨(h2 hbase).1, (h2 hbase).2.1, nofun⟩⟩
    exact (hdrain.drainLoop rfl).of_thread rfl

lemma Takes.readLoop (hmax : ¬(l.wantWrite ∨ l.wantUpgrade) → l.readCount < readCountMax) :
    l.Leaves k rest (l.readLoop t spin) := by
  rw [Lock.readLoop]
  split
  next hcond => exact Takes.wait (h.move ht ht' nofun nofun) hcond
  next hcond =>
    have hmax := hmax hcond
    obtain ⟨hw, hu⟩ := not_or.1 hcond
    have hnone (b) (hb : b ∈ t :: rest) : b.Base = false :=
      h.counts.not_base (eq_false_of_ne_true hw) (eq_false_of_ne_true hu) hb
    have hself := hnone t mem_cons_self
    refine ⟨h.counts.replace ?_ rfl ?_ ?_ ?_ h.counts.nested_self,
      fun _ => Sleepers.cons (h.sleepers.mono rfl id id fun _ => ?_) h.awake, h.owner,
      fun _ _ hj => hj⟩
    · simp only [fieldIncr_of_lt hmax]
      omega
    · simp only [writeClaims, ht]
      rfl
    · simp only [upgradeClaims, ht']
      rfl
    · intro b hb
      exact apart_of_not_base hself (hnone b (mem_cons_of_mem t hb))
    · simp only [fieldIncr_of_lt hmax]
      omega

end

lemma Takes.recurse (howner : l.thread = some k)
    (hmax : l.recursionDepth < recursionDepthMax) : l.Leaves k rest (l.recurse t) := by
  refine ⟨h.counts.replace rfl ?_ rfl rfl h.counts.apart_rest fun _ => h.owner howner,
    fun _ => Sleepers.cons (h.sleepers.mono rfl id id id) h.awake, h.owner, fun _ _ hj => hj⟩
  simp only [Lock.recurse, fieldIncr_of_lt hmax]
  omega

lemma Takes.recurseRead (hnone : ∀ b ∈ rest, b.Base = false)
    (hmax : l.readCount < readCountMax) : l.Leaves k rest (l.recurseRead t) := by
  refine ⟨h.counts.replace ?_ rfl rfl rfl ?_ h.counts.nested_self,
    fun _ => Sleepers.cons (h.sleepers.mono rfl id id fun _ => ?_) h.awake, h.owner,
    fun _ _ hj => hj⟩
  · simp only [Lock.recurseRead, fieldIncr_of_lt hmax]
    omega
  · intro b hb
    exact ⟨(h.counts.apart_rest b hb).1, fun hb' => absurd ((hnone b hb).symm.trans hb') nofun⟩
  · simp only [Lock.recurseRead, fieldIncr_of_lt hmax]
    omega

lemma Takes.rest_not_base (hbase : t.Base = true) :
    ∀ b ∈ rest, b.Base = false := fun b hb => ((h.counts.apart_rest b hb).1 hbase).2.1

lemma Takes.lockWrite (ht : t.place = .outside)
    (hmax : l.thread = some k → l.recursionDepth < recursionDepthMax) :
    l.Leaves k rest (l.lockWrite k t spin) := by
  rw [Lock.lockWrite]
  split
  next howner => exact h.recurse howner (hmax howner)
  · exact h.wantWriteLoop (by rw [ht]; nofun) (by rw [ht]; nofun)

lemma Takes.lockRead (ht : t.place = .outside)
    (hmax : l.thread = some k ∨ ¬(l.wantWrite ∨ l.wantUpgrade) → l.readCount < readCountMax) :
    l.Leaves k rest (l.lockRead k t spin) := by
  rw [Lock.lockRead]
  split
  next howner => exact h.recurseRead (h.rest_not_base (h.owner howner)) (hmax (.inl howner))
  · exact h.readLoop (by rw [ht]; nofun) (by rw [ht]; nofun) fun hfree => hmax (.inr hfree)

lemma Takes.keep : l.Leaves k rest ⟨l, t, false⟩ :=
  ⟨h.counts, fun _ => h.sleepers.cons h.awake, h.owner, fun _ _ hj => hj⟩

lemma Takes.lockTryWrite (ht : t.place = .outside)
    (hmax : l.thread = some k → l.recursionDepth < recursionDepthMax) :
    l.Leaves k rest (l.lockTryWrite k t) := by
  rw [Lock.lockTryWrite]
  split
  next howner => exact h.recurse howner (hmax howner)
  · split
    · exact h.keep
    -- what `lock_write` does when it need not wait
    rename_i hcond
    obtain ⟨hw, hcond⟩ := not_or.1 hcond
    have hloop : l.Leaves k rest (l.wantWriteLoop t false) :=
      h.wantWriteLoop (by rw [ht]; nofun) (by rw [ht]; nofun)
    rw [Lock.wantWriteLoop, if_neg hw, Lock.drainLoop,
      if_neg fun hor => hcond (Or.symm hor)] at hloop
    rw [← ht] at hloop
    exact hloop

lemma Takes.lockTryRead
    (hmax : l.thread = some k ∨ ¬(l.wantWrite ∨ l.wantUpgrade) → l.readCount < readCountMax) :
    l.Leaves k rest (l.lockTryRead k t) := by
  rw [Lock.lockTryRead]
  split
  next howner => exact h.recurseRead (h.rest_not_base (h.owner howner)) (hmax (.inl howner))
  · split
    · exact h.keep
    next hcond =>
      obtain ⟨hw, hu⟩ := not_or.1 hcond
      refine h.recurseRead (fun b hb => ?_) (hmax (.inr hcond))
      exact h.counts.not_base (eq_false_of_ne_true hw) (eq_false_of_ne_true hu)
        (mem_cons_of_mem t hb)

end

/-! ### Giving up a hold -/

lemma Counts.readCount_ne_zero (h : l.Counts (t :: rest)) (ht : t.reads ≠ 0) :
    l.readCount ≠ 0 := fun hz => ht (h.reads_eq_zero hz mem_cons_self)

lemma Counts.dropRead (h : l.Counts (t :: rest)) (ht : t.reads ≠ 0) :
    (l.drop .read).Counts (t.drop .read :: rest) := by
  have hne := h.readCount_ne_zero ht
  refine h.replace ?_ rfl rfl rfl (fun b hb => (h.apart_rest b hb).drop _) h.nested_self
  simp only [Lock.drop, LockThread.drop, fieldDecr_of_ne hne]
  omega

lemma Takes.dropRead_of_base (h : l.Takes k t rest) (ht : t.reads ≠ 0) (hbase : t.Base = true) :
    (l.drop .read).Takes k (t.drop .read) rest := by
  refine ⟨h.counts.dropRead ht, fun b hb ha => ?_, h.awake, h.owner⟩
  obtain ⟨hwait, hblocks⟩ := h.sleepers b hb ha
  refine ⟨hwait, ?_⟩
  obtain ⟨-, -, hup⟩ := (h.counts.apart_rest b hb).1 hbase
  cases hp : b.place with
  | outside | wantWrite | read => rw [hp] at hblocks; exact hblocks
  | upgrade => exact absurd hp hup
  | drain =>
    right
    cases hu : t.upgrade with
    | true => exact (h.counts.upgrade_rest (by simp [upgradeClaims, hu])).1
    | false =>
      -- then the writer has the `want_write` bit that the sleeper claims
      rw [LockThread.Base, hu, Bool.false_or] at hbase
      have hrest := (h.counts.write_rest (by simp [writeClaims, hbase])).2.2
      exact absurd hp (hrest b hb).2

lemma Takes.toUpgrade (h : l.Takes k t rest) (hplace : t.place = .outside) (ht : t.reads ≠ 0)
    (hno : l.wantUpgrade = false) :
    Takes { l.drop .read with wantUpgrade := true } k { t.drop .read with place := .upgrade }
      rest := by
  have hnone (b) (hb : b ∈ rest) : b.Base = false := by
    cases hbase : b.Base with
    | false => rfl
    | true => exact absurd ((h.counts.apart_rest b hb).2 hbase).1 ht
  refine ⟨(h.counts.dropRead ht).replace rfl rfl ?_ ?_ ?_ h.counts.nested_self, ?_, h.awake,
    h.owner⟩
  · simp only [writeClaims, LockThread.drop, hplace]
    rfl
  · simp only [upgradeClaims, LockThread.drop, Lock.drop, hplace, hno]
    cases t.upgrade <;> rfl
  · intro b hb
    exact ⟨(h.counts.apart_rest b hb).1, fun hb' => absurd ((hnone b hb).symm.trans hb') nofun⟩
  intro b hb ha
  obtain ⟨hwait, hblocks⟩ := h.sleepers b hb ha
  refine ⟨hwait, ?_⟩
  cases hp : b.place with
  | outside | wantWrite => rw [hp] at hblocks; exact hblocks
  | drain => exact .inr rfl
  | read => exact .inr rfl
  | upgrade => exact absurd hp (h.counts.upgrade_eq_false hno (mem_cons_of_mem t hb)).2

lemma Leaves.wakeWaiting {wanted : Bool} (hc : l'.Counts (t' :: rest)) (ha : t'.asleep = false)
    (hs : l.Sleepers rest) (hwaiting : l'.waiting = l.waiting)
    (hkeep : wanted = false → l'.Sleepers rest) (howner : l'.thread = some k → t'.Base = true)
    (hothers : ∀ j, j ≠ k → l'.thread = some j → l.thread = some j) :
    l.Leaves k rest (l'.wakeWaiting t' wanted) := by
  rw [Lock.wakeWaiting]
  split
  · exact ⟨hc.replace rfl rfl rfl rfl hc.apart_rest hc.nested_self, nofun, howner, hothers⟩
  next hcond =>
    refine ⟨hc, fun _ => Sleepers.cons ?_ ha, howner, hothers⟩
    cases hw : wanted with
    | false => exact hkeep hw
    | true =>
      intro b hb hasleep
      rw [hw, Bool.and_true, hwaiting] at hcond
      exact absurd (hs b hb hasleep).1 hcond

lemma Takes.upgradeRecursive (h : l.Takes k t rest) (ht : t.reads ≠ 0)
    (howner : l.thread = some k) (hmax : l.recursionDepth < recursionDepthMax) :
    l.Leaves k rest ((l.drop .read).recurse (t.drop .read)) :=
  ((h.dropRead_of_base ht (h.owner howner)).recurse howner hmax).of_thread rfl

section
variable (h : l.Takes k t rest) (hplace : t.place = .outside) (ht : t.reads ≠ 0)
include h hplace ht

lemma Takes.upgrade (hno : l.wantUpgrade = false) :
    l.Leaves k rest (Lock.upgradeLoop { l.drop .read with wantUpgrade := true }
      (t.drop .read) spin) :=
  ((h.toUpgrade hplace ht hno).upgradeLoop rfl).of_thread rfl

lemma Takes.lockReadToWrite (hmax : l.thread = some k → l.recursionDepth < recursionDepthMax) :
    l.Leaves k rest (l.lockReadToWrite k t spin) := by
  rw [Lock.lockReadToWrite]
  split
  next howner => exact h.upgradeRecursive ht howner (hmax howner)
  · split
    · refine Leaves.wakeWaiting (h.counts.dropRead ht) h.awake h.sleepers rfl (fun hw => ?_)
        h.owner fun _ _ hj => hj
      exact h.sleepers.mono rfl id id fun _ => of_decide_eq_false hw
    next hno => exact h.upgrade hplace ht (eq_false_of_ne_true hno)

lemma Takes.lockTryReadToWrite (hmax : l.thread = some k → l.recursionDepth < recursionDepthMax) :
    l.Leaves k rest (l.lockTryReadToWrite k t) := by
  rw [Lock.lockTryReadToWrite]
  split
  next howner => exact h.upgradeRecursive ht howner (hmax howner)
  · split
    · exact h.keep
    next hno => exact h.upgrade hplace ht (eq_false_of_ne_true hno)

end

/-! ### `lock_done` and `lock_write_to_read` -/

section
variable (h : l.Counts (t :: rest))
include h

lemma Counts.base_of_holdsWrite (ht : t.HoldsWrite = true) : t.Base = true := by
  rw [LockThread.HoldsWrite, Bool.or_assoc, Bool.or_eq_true] at ht
  rcases ht with ht | ht
  · exact h.nested_self (bne_iff_ne.1 ht)
  · exact ht

lemma Counts.has_writeKind (hplace : t.place = .outside) (ht : t.HoldsWrite = true) :
    t.Has l.writeKind = true := by
  have hbase := h.base_of_holdsWrite ht
  have hrest (b) (hb : b ∈ rest) := (h.apart_rest b hb).1 hbase
  rw [Lock.writeKind]
  split
  · -- the others do not recurse
    rename_i hdepth
    have hsum := h.depth
    rw [sum_eq_of_rest fun b hb => ?_] at hsum
    · exact bne_iff_ne.2 (hsum ▸ hdepth)
    by_contra hne
    have hb' := h.nested b (mem_cons_of_mem t hb) hne
    exact absurd ((hrest b hb).2.1.symm.trans hb') nofun
  split
  · -- the others neither have an upgrade nor wait for one
    rename_i hup
    have hsum := h.upgrade
    rw [sum_eq_of_rest fun b hb => upgradeClaims_eq_zero_iff.2
      ⟨(base_eq_false_iff.1 (hrest b hb).2.1).1, (hrest b hb).2.2⟩, hup,
      upgradeClaims, hplace] at hsum
    cases hu : t.upgrade with
    | true => exact hu
    | false => rw [hu] at hsum; cases hsum
  next hup =>
    have hno := (h.upgrade_eq_false (eq_false_of_ne_true hup) mem_cons_self).1
    rw [LockThread.Base, hno, Bool.false_or] at hbase
    exact hbase

lemma Counts.has_doneKind (hplace : t.place = .outside) (ht : t.Holds = true) :
    t.Has l.doneKind = true := by
  have hcases : t.reads ≠ 0 ∨ t.HoldsWrite = true := by
    rw [LockThread.Holds, Bool.or_eq_true] at ht
    exact ht.imp_left bne_iff_ne.1
  rw [Lock.doneKind]
  split
  next hread =>
    rcases hcases with hr | hw
    · exact bne_iff_ne.2 hr
    -- the holds for reading are all its own
    have hbase := h.base_of_holdsWrite hw
    have hsum := h.reads
    rw [sum_eq_of_rest fun b hb => ((h.apart_rest b hb).1 hbase).1] at hsum
    exact bne_iff_ne.2 (hsum ▸ hread)
  next hread =>
    rcases hcases with hr | hw
    · exact absurd (h.reads_eq_zero (not_not.1 hread) mem_cons_self) hr
    · exact h.has_writeKind hplace hw

lemma Counts.drop (ht : t.Has kind = true)
    (hlast : kind = .upgrade ∨ kind = .write → l.recursionDepth = 0) :
    (l.drop kind).Counts (t.drop kind :: rest) := by
  have hapart (b) (hb : b ∈ rest) := (h.apart_rest b hb).drop kind
  cases kind with
  | read => exact h.dropRead (bne_iff_ne.1 ht)
  | recursion =>
    have ht : t.recursions ≠ 0 := bne_iff_ne.1 ht
    have hne : l.recursionDepth ≠ 0 := fun hz => ht (h.recursions_eq_zero hz mem_cons_self)
    refine h.replace rfl ?_ rfl rfl hapart fun _ => h.nested_self ht
    simp only [Lock.drop, LockThread.drop, fieldDecr_of_ne hne]
    omega
  | upgrade =>
    have ht : t.upgrade = true := ht
    have hzero := h.recursions_eq_zero (hlast (.inl rfl)) mem_cons_self
    have hset := (h.upgrade_rest (by simp [upgradeClaims, ht])).1
    refine h.replace rfl rfl rfl ?_ hapart fun hne => absurd hzero hne
    change 0 + t.upgradeClaims = l.wantUpgrade.toNat + (0 + (decide (t.place = .upgrade)).toNat)
    rw [upgradeClaims, ht, hset]
    omega
  | write =>
    have ht : t.write = true := ht
    have hzero := h.recursions_eq_zero (hlast (.inr rfl)) mem_cons_self
    have hset := (h.write_rest (by simp [writeClaims, ht])).1
    refine h.replace rfl rfl ?_ rfl hapart fun hne => absurd hzero hne
    change 0 + t.writeClaims = l.wantWrite.toNat + (0 + (decide (t.place = .drain)).toNat)
    rw [writeClaims, ht, hset]
    omega

end

lemma recursionDepth_of_writeKind (h : l.writeKind = .upgrade ∨ l.writeKind = .write) :
    l.recursionDepth = 0 := by
  rw [Lock.writeKind] at h
  split at h
  · rcases h with h | h <;> cases h
  next hd => exact not_not.1 hd

lemma doneKind_last (h : l.doneKind = .upgrade ∨ l.doneKind = .write) :
    l.readCount = 0 ∧ l.recursionDepth = 0 := by
  rw [Lock.doneKind] at h
  split at h
  · rcases h with h | h <;> cases h
  next hr => exact ⟨not_not.1 hr, recursionDepth_of_writeKind h⟩

@[simp] lemma drop_thread (kind : Kind) : (l.drop kind).thread = l.thread := by
  cases kind <;> rfl

@[simp] lemma drop_waiting (kind : Kind) : (l.drop kind).waiting = l.waiting := by
  cases kind <;> rfl

lemma drop_asleep (kind : Kind) : (t.drop kind).asleep = t.asleep := by
  cases kind <;> rfl

lemma base_drop (h : t.Base = true) (hk : ¬(kind = .upgrade ∨ kind = .write)) :
    (t.drop kind).Base = true := by
  cases kind with
  | read => exact h
  | recursion => exact h
  | upgrade => exact absurd (.inl rfl) hk
  | write => exact absurd (.inr rfl) hk

section
variable (h : l.Takes k t rest)
include h

lemma Takes.lockDone (hplace : t.place = .outside) (ht : t.Holds = true)
    (hclear : l.readCount = 0 → l.recursionDepth = 0 → l.thread ≠ some k) :
    l.Leaves k rest (l.lockDone t) := by
  have hhas := h.counts.has_doneKind hplace ht
  refine Leaves.wakeWaiting (h.counts.drop hhas fun hk => (doneKind_last hk).2)
    ((drop_asleep _).trans h.awake) h.sleepers (drop_waiting _) (fun hw => ?_) (fun howner => ?_)
    fun j _ hj => (drop_thread _).symm.trans hj
  · -- readers are left, so that only one of them has gone
    have hleft : (l.drop l.doneKind).readCount ≠ 0 := of_decide_eq_false hw
    have hread : l.doneKind = .read := by
      by_contra hne
      have hzero : l.readCount = 0 := by
        by_contra hr
        exact hne (if_pos hr)
      apply hleft
      cases hk : l.doneKind with
      | read => exact absurd hk hne
      | recursion => exact hzero
      | upgrade => exact hzero
      | write => exact hzero
    rw [hread] at hleft ⊢
    exact h.sleepers.mono rfl id id fun _ => hleft
  rw [drop_thread] at howner
  apply base_drop (h.owner howner)
  intro hk
  obtain ⟨hr, hd⟩ := doneKind_last hk
  exact hclear hr hd howner

lemma Takes.lockWriteToRead (hplace : t.place = .outside) (ht : t.HoldsWrite = true)
    (hmax : l.readCount < readCountMax) (hclear : l.recursionDepth = 0 → l.thread ≠ some k) :
    l.Leaves k rest (l.lockWriteToRead t) := by
  have hhas := h.counts.has_writeKind hplace ht
  have hnone := h.rest_not_base (h.counts.base_of_holdsWrite ht)
  have hdrop := h.counts.drop hhas recursionDepth_of_writeKind
  have hread : (l.drop l.writeKind).readCount = l.readCount := by
    rw [Lock.writeKind]
    split
    · rfl
    · split <;> rfl
  have hlock : Lock.drop { l with readCount := fieldIncr readCountMax l.readCount } l.writeKind =
      { l.drop l.writeKind with readCount := l.readCount + 1 } := by
    rw [fieldIncr_of_lt hmax]
    rw [Lock.writeKind]
    split
    · rfl
    · split <;> rfl
  rw [Lock.lockWriteToRead, hlock]
  refine Leaves.wakeWaiting (hdrop.replace ?_ rfl rfl rfl ?_ hdrop.nested_self)
    ((drop_asleep _).trans h.awake) h.sleepers (drop_waiting _) nofun (fun howner => ?_)
    fun j _ hj => (drop_thread _).symm.trans hj
  · rw [hread]
    exact add_right_comm _ _ _
  · intro b hb
    exact ⟨(hdrop.apart_rest b hb).1, fun hb' => absurd ((hnone b hb).symm.trans hb') nofun⟩
  have howner : l.thread = some k := (drop_thread _).symm.trans howner
  refine base_drop (h.owner howner) fun hk => ?_
  exact hclear (recursionDepth_of_writeKind hk) howner

lemma Takes.lockSetRecursive (ht : t.HoldsWrite = true) (hr : l.lockSetRecursive k t = some r) :
    l.Leaves k rest r := by
  rw [Lock.lockSetRecursive] at hr
  split at hr
  · cases hr
    refine ⟨h.counts.replace rfl rfl rfl rfl h.counts.apart_rest h.counts.nested_self,
      fun _ => Sleepers.cons (h.sleepers.mono rfl id id id) h.awake,
      fun _ => h.counts.base_of_holdsWrite ht, fun j hj howner => ?_⟩
    exact absurd (Option.some.inj howner).symm hj
  · cases hr

lemma Takes.lockClearRecursive (hr : l.lockClearRecursive k t = some r) : l.Leaves k rest r := by
  rw [Lock.lockClearRecursive] at hr
  split at hr
  · cases hr
    split
    · exact ⟨h.counts.replace rfl rfl rfl rfl h.counts.apart_rest h.counts.nested_self,
        fun _ => Sleepers.cons (h.sleepers.mono rfl id id id) h.awake, nofun, nofun⟩
    · exact h.keep
  · cases hr

lemma Takes.resume (hmax : t.place = .read → ¬(l.wantWrite ∨ l.wantUpgrade) →
    l.readCount < readCountMax) : l.Leaves k rest (l.resume t spin) := by
  rw [Lock.resume]
  cases hp : t.place with
  | outside => exact h.keep
  | wantWrite => exact h.wantWriteLoop (by rw [hp]; nofun) (by rw [hp]; nofun)
  | drain => exact h.drainLoop hp
  | read => exact h.readLoop (by rw [hp]; nofun) (by rw [hp]; nofun) (hmax hp)
  | upgrade => exact h.upgradeLoop hp

end

end Lock

/-! ## Runs -/

/-- No field overflows, and a thread does not give up its last hold while the lock is recursive for
it. -/
def LockOp.Meets (l : Lock) (k : ℕ) (t : LockThread) : LockOp → Prop
  | .lockWrite | .lockTryWrite | .lockReadToWrite | .lockTryReadToWrite =>
    l.thread = some k → l.recursionDepth < recursionDepthMax
  | .lockRead | .lockTryRead =>
    l.thread = some k ∨ ¬(l.wantWrite ∨ l.wantUpgrade) → l.readCount < readCountMax
  | .resume => t.place = .read → ¬(l.wantWrite ∨ l.wantUpgrade) → l.readCount < readCountMax
  | .lockDone => l.readCount = 0 → l.recursionDepth = 0 → l.thread ≠ some k
  | .lockWriteToRead =>
    l.readCount < readCountMax ∧ (l.recursionDepth = 0 → l.thread ≠ some k)
  | .lockSetRecursive | .lockClearRecursive => True

variable {t : LockThread}

lemma Lock.Takes.run {l : Lock} {k : ℕ} {rest : List LockThread} {spin : Bool} {op : LockOp}
    (h : l.Takes k t rest) (hallowed : op.Allowed t = true) (hmeets : op.Meets l k t)
    (hr : op.run l k t spin = some r) : l.Leaves k rest r := by
  cases op with
  | lockWrite =>
    cases hr
    exact h.lockWrite (of_decide_eq_true hallowed) hmeets
  | lockRead =>
    cases hr
    exact h.lockRead (of_decide_eq_true hallowed) hmeets
  | lockReadToWrite =>
    cases hr
    obtain ⟨hplace, ht⟩ := of_decide_eq_true hallowed
    exact h.lockReadToWrite hplace ht hmeets
  | lockWriteToRead =>
    cases hr
    obtain ⟨hplace, ht⟩ := of_decide_eq_true hallowed
    exact h.lockWriteToRead hplace ht hmeets.1 hmeets.2
  | lockDone =>
    cases hr
    obtain ⟨hplace, ht⟩ := of_decide_eq_true hallowed
    exact h.lockDone hplace ht hmeets
  | lockTryWrite =>
    cases hr
    exact h.lockTryWrite (of_decide_eq_true hallowed) hmeets
  | lockTryRead =>
    cases hr
    exact h.lockTryRead hmeets
  | lockTryReadToWrite =>
    cases hr
    obtain ⟨hplace, ht⟩ := of_decide_eq_true hallowed
    exact h.lockTryReadToWrite hplace ht hmeets
  | lockSetRecursive => exact h.lockSetRecursive (of_decide_eq_true hallowed).2 hr
  | lockClearRecursive => exact h.lockClearRecursive hr
  | resume =>
    cases hr
    exact h.resume hmeets

namespace LockSystem

variable {s s' : LockSystem} {k : ℕ} {spin : Bool} {op : LockOp}

lemma Ok.init (n : ℕ) : (init n).Ok := by
  have hmem {t : LockThread} (ht : t ∈ (LockSystem.init n).threads) : t = .init :=
    eq_of_mem_replicate ht
  have hsum (f : LockThread → ℕ) (hf : f .init = 0) :
      ((LockSystem.init n).threads.map f).sum = 0 := by
    refine List.sum_eq_zero_iff_forall_eq_nat.2 (List.forall_mem_map.2 fun t ht => ?_)
    rw [hmem ht, hf]
  refine ⟨⟨(hsum _ rfl).symm, (hsum _ rfl).symm, hsum _ rfl, hsum _ rfl, ?_, ?_⟩, ?_, nofun⟩
  · refine List.pairwise_replicate.2 (.inr ?_)
    exact apart_of_not_base rfl rfl
  · intro t ht hne
    rw [hmem ht] at hne
    exact absurd rfl hne
  intro t ht ha
  rw [hmem ht] at ha
  cases ha

lemma Ok.takes (h : s.Ok) (ht : s.threads[k]? = some t) (hallowed : op.Allowed t = true) :
    s.lock.Takes k t (s.threads.eraseIdx k) := by
  have hperm := Census.perm ht
  refine ⟨h.counts.perm hperm, ?_, ?_, ?_⟩
  · intro b hb
    exact h.sleepers b (hperm.mem_iff.2 (mem_cons_of_mem t hb))
  · cases ha : t.asleep with
    | false => rfl
    | true =>
      -- a sleeper is in a loop, and goes on only when it has been woken
      have hblocks := (h.sleepers t (hperm.mem_iff.2 mem_cons_self) ha).2
      cases hp : t.place with
      | outside => rw [hp] at hblocks; exact hblocks.elim
      | _ =>
        exfalso
        cases op <;> simp [LockOp.Allowed, hp, ha] at hallowed
  intro howner
  obtain ⟨u, hu, hbase⟩ := h.owner k howner
  rw [ht] at hu
  cases hu
  exact hbase

lemma Ok.put (h : s.Ok) (ht : s.threads[k]? = some t)
    (hr : s.lock.Leaves k (s.threads.eraseIdx k) r) : (s.put k r).Ok := by
  have hperm := Census.perm_set ht r.thread
  have hset : (s.threads.set k r.thread)[k]? = some r.thread :=
    List.getElem?_set_self (List.getElem?_eq_some_iff.1 ht).1
  have howner (j) (hj : r.lock.thread = some j) :
      ∃ u, (s.threads.set k r.thread)[j]? = some u ∧ u.Base = true := by
    rcases eq_or_ne j k with rfl | hne
    · exact ⟨r.thread, hset, hr.owner hj⟩
    · obtain ⟨u, hu, hbase⟩ := h.owner j (hr.others j hne hj)
      exact ⟨u, (getElem?_set_ne hne.symm).trans hu, hbase⟩
  have hcounts := hr.counts.perm hperm.symm
  rw [LockSystem.put]
  cases hw : r.wakeup with
  | false =>
    exact ⟨hcounts, fun b hb => hr.sleepers hw b (hperm.mem_iff.1 hb), howner⟩
  | true =>
    refine ⟨hcounts.wake, ?_, ?_⟩
    · intro b hb ha
      obtain ⟨u, -, rfl⟩ := mem_map.1 hb
      cases ha
    intro j hj
    obtain ⟨u, hu, hbase⟩ := howner j hj
    exact ⟨u.wake, getElem?_map.trans (congrArg (Option.map _) hu), hbase⟩

lemma step_eq_some (hs : s.step k spin op = some s') :
    ∃ t r, s.threads[k]? = some t ∧ op.Allowed t = true ∧ op.run s.lock k t spin = some r ∧
      s' = s.put k r := by
  obtain ⟨t, ht, hs⟩ := Option.bind_eq_some_iff.1 hs
  split at hs
  next hallowed =>
    obtain ⟨r, hr, hs⟩ := Option.bind_eq_some_iff.1 hs
    cases hs
    exact ⟨t, r, ht, hallowed, hr, rfl⟩
  · cases hs

lemma Ok.step (h : s.Ok) (hmeets : ∀ t ∈ s.threads[k]?, op.Meets s.lock k t)
    (hs : s.step k spin op = some s') :
    s'.Ok := by
  obtain ⟨t, r, ht, hallowed, hr, rfl⟩ := step_eq_some hs
  exact h.put ht ((h.takes ht hallowed).run hallowed (hmeets t ht) hr)

/-! ### What the invariant says -/

lemma Ok.at (h : s.Ok) (ht : t ∈ s.threads) : ∃ rest, s.lock.Counts (t :: rest) := by
  obtain ⟨k, hk⟩ := mem_iff_getElem?.1 ht
  exact ⟨_, h.counts.perm (Census.perm hk)⟩

lemma Ok.exclusive (h : s.Ok) (j k : ℕ) (tj tk : LockThread) (hne : j ≠ k)
    (hj : s.threads[j]? = some tj) (hk : s.threads[k]? = some tk)
    (hwrite : tk.HoldsWrite = true) : tj.Holds = false := by
  have hcounts := h.counts.perm (Census.perm hk)
  have hmem : tj ∈ s.threads.eraseIdx k := mem_eraseIdx_iff_getElem?.2 ⟨j, hne, hj⟩
  obtain ⟨hreads, hbase, -⟩ := (hcounts.apart_rest tj hmem).1 (hcounts.base_of_holdsWrite hwrite)
  have hrec : tj.recursions = 0 := by
    by_contra hrec
    have hb := hcounts.nested tj (mem_cons_of_mem tk hmem) hrec
    exact absurd (hbase.symm.trans hb) nofun
  rw [LockThread.Holds, LockThread.HoldsWrite, hreads, hrec, Bool.or_assoc]
  exact hbase

lemma Ok.not_lost (h : s.Ok) : ¬s.Lost := by
  rintro ⟨⟨t, ht, ha⟩, hholds, hasleep⟩
  have hread : s.lock.readCount = 0 := by
    rw [h.counts.reads]
    refine List.sum_eq_zero_iff_forall_eq_nat.2 (List.forall_mem_map.2 fun u hu => ?_)
    have hno := hholds u hu
    rw [LockThread.Holds, Bool.or_eq_false_iff] at hno
    exact bne_eq_false_iff_eq.1 hno.1
  have hbase (u) (hu : u ∈ s.threads) : u.upgrade = false ∧ u.write = false := by
    have hno := hholds u hu
    rw [LockThread.Holds, Bool.or_eq_false_iff, LockThread.HoldsWrite, Bool.or_assoc,
      Bool.or_eq_false_iff] at hno
    exact base_eq_false_iff.1 hno.2.2
  -- nobody waits for an upgrade, since there are no readers
  have hupgrade : s.lock.wantUpgrade = false := by
    refine Lock.bit_eq_false h.counts.upgrade fun u hu => ?_
    refine upgradeClaims_eq_zero_iff.2 ⟨(hbase u hu).1, fun hp => ?_⟩
    have hblocks := (h.sleepers u hu (hasleep u hu (by rw [hp]; nofun))).2
    rw [hp] at hblocks
    exact hblocks hread
  -- so no writer waits for the readers and upgrades
  have hwrite : s.lock.wantWrite = false := by
    refine Lock.bit_eq_false h.counts.write fun u hu => ?_
    refine writeClaims_eq_zero_iff.2 ⟨(hbase u hu).2, fun hp => ?_⟩
    have hblocks := (h.sleepers u hu (hasleep u hu (by rw [hp]; nofun))).2
    rw [hp] at hblocks
    exact hblocks.elim (fun hne => hne hread) fun hup => absurd (hupgrade.symm.trans hup) nofun
  have hblocks := (h.sleepers t ht ha).2
  cases hp : t.place with
  | outside => rw [hp] at hblocks; exact hblocks
  | wantWrite => rw [hp] at hblocks; exact absurd (hwrite.symm.trans hblocks) nofun
  | drain =>
    rw [hp] at hblocks
    exact hblocks.elim (fun hne => hne hread) fun hup => absurd (hupgrade.symm.trans hup) nofun
  | read =>
    rw [hp] at hblocks
    exact hblocks.elim (fun hw => absurd (hwrite.symm.trans hw) nofun)
      fun hup => absurd (hupgrade.symm.trans hup) nofun
  | upgrade => rw [hp] at hblocks; exact hblocks hread

lemma Ok.safe (h : s.Ok) : s.Safe where
  exclusive := h.exclusive
  readCount := h.counts.reads
  done t ht hplace hholds := by
    obtain ⟨rest, hcounts⟩ := h.at ht
    exact hcounts.has_doneKind hplace hholds
  downgrade t ht hplace hholds := by
    obtain ⟨rest, hcounts⟩ := h.at ht
    exact hcounts.has_writeKind hplace hholds
  notLost := h.not_lost

end LockSystem

inductive LockRun : LockSystem → Prop where
  | init (n : ℕ) : LockRun (.init n)
  | step {s s' : LockSystem} (k : ℕ) (spin : Bool) (op : LockOp) (run : LockRun s)
      (hmeets : ∀ t ∈ s.threads[k]?, op.Meets s.lock k t) (hs : s.step k spin op = some s') :
      LockRun s'

lemma LockRun.ok {s : LockSystem} (run : LockRun s) : s.Ok := by
  induction run with
  | init n => exact .init n
  | step k spin op _ hmeets hs ih => exact ih.step hmeets hs

theorem lockRun_safe {s : LockSystem} (run : LockRun s) : s.Safe := run.ok.safe

/-- A reader upgrades while another thread waits to write. -/
theorem lockRun_safe_upgrade : ∃ s : LockSystem, LockRun s ∧ s.Safe ∧
    (∃ t ∈ s.threads, t.HoldsWrite = true) ∧ ∃ t ∈ s.threads, t.asleep = true := by
  have run := LockRun.init 2
  have run := run.step 0 false .lockRead (fun _ _ _ => (by decide : 0 < readCountMax)) rfl
  have run := run.step 1 false .lockWrite (fun _ _ => nofun) rfl
  have run := run.step 0 false .lockReadToWrite (fun _ _ => nofun) rfl
  exact ⟨_, run, lockRun_safe run, ⟨_, mem_cons_self, rfl⟩,
    ⟨_, mem_cons_of_mem _ mem_cons_self, rfl⟩⟩

def LockSystem.runOps (s : LockSystem) : List (ℕ × LockOp) → Option LockSystem
  | [] => some s
  | (k, op) :: rest => do (← s.step k false op).runOps rest

/-- A thread leaves the lock recursive for it and walks into the lock of another writer. -/
theorem recursive_after_done :
    ∃ s, (LockSystem.init 2).runOps [(0, .lockWrite), (0, .lockSetRecursive), (0, .lockDone),
        (1, .lockWrite), (0, .lockWrite)] = some s ∧
      (∀ t ∈ s.threads, t.HoldsWrite = true) ∧ s.threads.length = 2 ∧ ¬s.Safe := by
  refine ⟨_, rfl, by decide, rfl, fun hsafe => ?_⟩
  exact absurd (hsafe.exclusive 1 0 _ _ (by decide) rfl rfl rfl) (by decide)

end Rhapsody.Kern
