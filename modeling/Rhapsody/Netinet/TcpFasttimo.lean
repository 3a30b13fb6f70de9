import Rhapsody.Lib.Census

/-! Delayed acknowledgements: `tcp_fasttimo`, and the count of active connections by which it
chooses between the `tcb` list and the hash chains that are marked in a bitmask. -/

namespace Rhapsody.Netinet

open List

/-- The states behind `ESTABLISHED` are one: nothing here tells them apart. -/
inductive ConnState
  | synSent
  | synReceived
  | established
  | closing
deriving DecidableEq

def nTcpHashElements : ℕ := 8 * 1024

instance : NeZero nTcpHashElements := ⟨by decide⟩

structure DelackConn where
  tState : ConnState
  hashElement : Fin nTcpHashElements
  delack : Bool
deriving DecidableEq

/-- `data` is a segment in sequence; by `leave`, which is `tcp_close`, `tcp_drop` or
`add_to_time_wait`, a connection goes from the `tcb` list. -/
inductive ConnEvent
  | syn | synAck | ack | data | fin | usrclosed | output | leave

def DelackConn.active (c : DelackConn) : Bool := c.tState = .established

/-- The connection on the `tcb` list, and what is added to `current_active_connections`. -/
def DelackConn.next (c : DelackConn) (e : ConnEvent) : Option DelackConn × BitVec 32 :=
  match e, c.tState with
  | .syn, .synSent => (some { c with tState := .synReceived }, 0)
  | .synAck, .synSent | .ack, .synReceived => (some { c with tState := .established }, 1)
  | .data, .established => (some { c with delack := true }, 0)
  -- also for a connection in `SYN_RECEIVED`, which has not been counted
  | .fin, .synReceived | .fin, .established | .usrclosed, .synReceived | .usrclosed, .established =>
    (some { c with tState := .closing }, -1)
  | .output, _ => (some { c with delack := false }, 0)
  | .usrclosed, .synSent | .leave, _ => (none, 0)
  | _, _ => (some c, 0)

def ConnEvent.delays (c : DelackConn) : ConnEvent → Bool
  | .data => c.active
  | _ => false

/-- The condition on an event: a FIN or a close does not meet a connection in `SYN_RECEIVED`,
nor does one in `ESTABLISHED` go from the list. -/
def ConnEvent.Counted (c : DelackConn) : ConnEvent → Prop
  | .fin | .usrclosed => c.tState ≠ .synReceived
  | .leave => c.active = false
  | _ => True

instance (c : DelackConn) (e : ConnEvent) : Decidable (e.Counted c) := by
  cases e <;> unfold ConnEvent.Counted <;> infer_instance

/-! ### The bitmask -/

/-- `TCP_DELACK_BITSET`. -/
def tcpDelackBitset (mask : ℕ → BitVec 32) (elem : ℕ) : ℕ → BitVec 32 :=
  Function.update mask (elem >>> 5) (mask (elem >>> 5) ||| 1#32 <<< (elem &&& 0x1f))

def isMarked (mask : ℕ → BitVec 32) (elem : ℕ) : Bool := (mask (elem / 32)).getLsbD (elem % 32)

/-- `tcp_output`, after `TF_ACKNOW` was set for `TF_DELACK`. -/
def DelackConn.acked (c : DelackConn) : DelackConn := { c with delack := false }

def visitChain (conns : List DelackConn) (elem : ℕ) : List DelackConn :=
  conns.map fun c => if c.hashElement = elem then c.acked else c

/-- The loop over the bits of a word; `temp_mask` is the bit `j`. -/
def scanWord (word : BitVec 32) (elemBase : ℕ) (conns : List DelackConn) : List DelackConn :=
  (range 32).foldl
    (fun conns j => if word.getLsbD j then visitChain conns (elemBase + j) else conns) conns

def scanBitmask (mask : ℕ → BitVec 32) (conns : List DelackConn) : List DelackConn :=
  (range (nTcpHashElements / 32)).foldl
    (fun conns i => if mask i ≠ 0 then scanWord (mask i) (32 * i) conns else conns) conns

structure DelackSys where
  conns : List DelackConn := []
  delackBitmask : ℕ → BitVec 32 := fun _ => 0
  currentActiveConnections : BitVec 32 := 0
  lastActiveConnCount : BitVec 32 := 0

inductive DelackOp
  | create (passive : Bool) (hashElement : Fin nTcpHashElements)
  | event (i : ℕ) (e : ConnEvent)
  | fasttimo

def delackBitmaskThresh : BitVec 32 := 300

namespace DelackSys

def manyLast (s : DelackSys) : Bool := delackBitmaskThresh < s.lastActiveConnCount

/-- There are many connections, and there were at the last tick, from which on the chains
have been marked. -/
def byBitmask (s : DelackSys) : Bool :=
  delackBitmaskThresh < s.currentActiveConnections && s.manyLast

def tcpFasttimo (s : DelackSys) : DelackSys where
  conns := if s.byBitmask then scanBitmask s.delackBitmask s.conns
    else s.conns.map DelackConn.acked
  delackBitmask := if s.byBitmask then fun i => if i < nTcpHashElements / 32 then 0
    else s.delackBitmask i else s.delackBitmask
  currentActiveConnections := s.currentActiveConnections
  lastActiveConnCount := s.currentActiveConnections

def step (s : DelackSys) : DelackOp → DelackSys
  | .create passive hashElement =>
    { s with conns := ⟨if passive then .synReceived else .synSent, hashElement, false⟩ :: s.conns }
  | .event i e => s.conns[i]?.elim s fun c =>
    { s with
      conns := (c.next e).1.elim (s.conns.eraseIdx i) (s.conns.set i)
      delackBitmask := if e.delays c && s.manyLast then
        tcpDelackBitset s.delackBitmask c.hashElement else s.delackBitmask
      currentActiveConnections := s.currentActiveConnections + (c.next e).2 }
  | .fasttimo => s.tcpFasttimo

def count (s : DelackSys) : BitVec 32 := .ofNat 32 (s.conns.countP DelackConn.active)

def Counted (s : DelackSys) : DelackOp → Prop
  | .event i e => ∀ c ∈ s.conns[i]?, e.Counted c
  | _ => True

def CountedRun (s : DelackSys) : List DelackOp → Prop
  | [] => True
  | op :: ops => s.Counted op ∧ (s.step op).CountedRun ops

instance (s : DelackSys) (op : DelackOp) : Decidable (s.Counted op) := by
  cases op <;> unfold Counted <;> infer_instance

instance CountedRun.decidable :
    ∀ (ops : List DelackOp) (s : DelackSys), Decidable (s.CountedRun ops)
  | [], _ => isTrue trivial
  | op :: ops, s => @instDecidableAnd _ _ _ (CountedRun.decidable ops (s.step op))

/-- A delayed acknowledgement is marked in the bitmask if the next tick may go by it. -/
def Marked (s : DelackSys) : Prop :=
  ∀ c ∈ s.conns, c.delack = true → s.manyLast = true →
    isMarked s.delackBitmask c.hashElement = true

end DelackSys

variable {s : DelackSys} {c d : DelackConn} {e : ConnEvent} {i : ℕ}

lemma isMarked_bitset (mask : ℕ → BitVec 32) (elem k : ℕ) :
    isMarked (tcpDelackBitset mask elem) k = (decide (k = elem) || isMarked mask k) := by
  have hword : elem >>> 5 = elem / 32 := Nat.shiftRight_eq_div_pow elem 5
  have hbit : elem &&& 0x1f = elem % 32 := Nat.and_two_pow_sub_one_eq_mod elem 5
  unfold isMarked tcpDelackBitset
  rw [hword, hbit, Function.update_apply]
  split_ifs with hsame
  · rw [hsame, BitVec.getLsbD_or, Bool.or_comm, BitVec.getLsbD_shiftLeft, BitVec.getLsbD_one]
    congr 1
    have hlt := Nat.mod_lt k (show 0 < 32 by decide)
    have hmod : k % 32 = elem % 32 ↔ k = elem := by omega
    grind
  · have hne : k ≠ elem := fun heq => hsame (congrArg (· / 32) heq)
    rw [decide_eq_false hne, Bool.false_or]

/-- Passes over the list, each for the connections on some chains, are one pass. -/
lemma foldl_acked {κ : Type} (q : κ → ℕ → Bool) (ks : List κ) (conns : List DelackConn) :
    ks.foldl (fun conns k => conns.map fun c => if q k c.hashElement then c.acked else c) conns =
      conns.map fun c => if ks.any (q · c.hashElement) then c.acked else c := by
  induction ks generalizing conns with
  | nil => simp
  | cons k ks ih =>
    rw [foldl_cons, ih, map_map]
    refine map_congr_left fun c _ => ?_
    by_cases hq : q k c.hashElement = true <;> simp [hq, DelackConn.acked]

lemma scanWord_eq (word : BitVec 32) (elemBase : ℕ) (conns : List DelackConn) :
    scanWord word elemBase conns = conns.map fun c =>
      if (range 32).any (fun j => word.getLsbD j && decide (c.hashElement.val = elemBase + j))
      then c.acked else c := by
  rw [← foldl_acked fun j h => word.getLsbD j && decide (h = elemBase + j)]
  unfold scanWord visitChain
  congr 1
  funext conns j
  cases word.getLsbD j <;> simp

lemma scanBitmask_eq (mask : ℕ → BitVec 32) (conns : List DelackConn) :
    scanBitmask mask conns =
      conns.map fun c => if isMarked mask c.hashElement then c.acked else c := by
  have hwords : scanBitmask mask conns = conns.map fun c => if (range (nTcpHashElements / 32)).any
      (fun i => (range 32).any fun j =>
        (mask i).getLsbD j && decide (c.hashElement.val = 32 * i + j)) then c.acked else c := by
    rw [← foldl_acked fun i h => (range 32).any fun j =>
      (mask i).getLsbD j && decide (h = 32 * i + j)]
    unfold scanBitmask
    congr 1
    funext conns i
    rw [← scanWord_eq]
    split_ifs with hzero
    · rfl
    · rw [not_not.1 hzero, scanWord_eq]
      simp
  rw [hwords]
  refine map_congr_left fun c _ => ?_
  congr 1
  have hlt : c.hashElement.val < nTcpHashElements := c.hashElement.isLt
  simp only [isMarked, any_eq_true, mem_range, Bool.and_eq_true, decide_eq_true_eq, eq_iff_iff]
  unfold nTcpHashElements at hlt ⊢
  constructor
  · rintro ⟨i, -, j, hj, hbit, heq⟩
    rwa [heq, show (32 * i + j) / 32 = i by omega, show (32 * i + j) % 32 = j by omega]
  · intro hbit
    exact ⟨_, by omega, _, Nat.mod_lt _ (by decide), hbit, (Nat.div_add_mod _ 32).symm⟩

lemma DelackConn.next_delack (h : (c.next e).1 = some d) : d.hashElement = c.hashElement ∧
    (d.delack = true → c.delack = true ∨ e.delays c = true) := by
  unfold next at h
  split at h <;> cases h <;> simp_all [ConnEvent.delays, active]

lemma DelackConn.next_counted (h : e.Counted c) :
    BitVec.ofNat 32 ((c.next e).1.toList.countP active) =
      BitVec.ofNat 32 (if c.active then 1 else 0) + (c.next e).2 := by
  unfold next
  split <;> simp_all [active, ConnEvent.Counted]

lemma perm_next {l : List DelackConn} (hc : l[i]? = some c) (o : Option DelackConn) :
    (o.elim (l.eraseIdx i) (l.set i)).Perm (o.toList ++ l.eraseIdx i) := by
  cases o with
  | none => exact .refl _
  | some d => exact Census.perm_set hc d

namespace DelackSys

/-- What a tick does to a connection. -/
def visit (s : DelackSys) (c : DelackConn) : DelackConn :=
  if s.byBitmask && !isMarked s.delackBitmask c.hashElement then c else c.acked

lemma tcpFasttimo_conns (s : DelackSys) : s.tcpFasttimo.conns = s.conns.map s.visit := by
  unfold tcpFasttimo visit
  dsimp only
  cases s.byBitmask with
  | false => simp
  | true =>
    rw [if_pos rfl, scanBitmask_eq]
    refine map_congr_left fun c _ => ?_
    cases isMarked s.delackBitmask c.hashElement <;> rfl

/-- By the bitmask or along the list, the tick comes to every delayed acknowledgement. -/
lemma Marked.visit (h : s.Marked) (hc : c ∈ s.conns) : (s.visit c).delack = false := by
  have hmark := h c hc
  unfold DelackSys.visit byBitmask
  split_ifs <;> simp_all [DelackConn.acked]

lemma Marked.step (h : s.Marked) (op : DelackOp) : (s.step op).Marked := by
  cases op with
  | create passive k => exact forall_mem_cons.2 ⟨nofun, h⟩
  | fasttimo =>
    intro c hc hdelack
    obtain ⟨d, hd, rfl⟩ := mem_map.1 (s.tcpFasttimo_conns ▸ hc)
    rw [h.visit hd] at hdelack
    cases hdelack
  | event i e =>
    cases hc : s.conns[i]? with
    | none => simpa [DelackSys.step, hc] using h
    | some c =>
      simp only [DelackSys.step, hc, Option.elim_some]
      intro d hd hdelack hlast
      change s.manyLast = true at hlast
      dsimp only
      rw [hlast, Bool.and_true]
      obtain hd | hd := mem_append.1 ((perm_next hc _).mem_iff.1 hd)
      · obtain ⟨hash, hdelayed⟩ := DelackConn.next_delack (Option.mem_toList.1 hd)
        rw [hash]
        split_ifs with hdelays
        · rw [isMarked_bitset, decide_eq_true rfl, Bool.true_or]
        · have hold := (hdelayed hdelack).resolve_right hdelays
          exact h c (mem_of_getElem? hc) hold hlast
      -- another connection: a mark is only set here, so that its own stays
      · have hmark := h d (mem_of_mem_eraseIdx hd) hdelack hlast
        split_ifs
        · rw [isMarked_bitset, hmark, Bool.or_true]
        · exact hmark

lemma count_step (op : DelackOp) (h : s.currentActiveConnections = s.count)
    (hcounted : s.Counted op) : (s.step op).currentActiveConnections = (s.step op).count := by
  cases op with
  | create passive k => cases passive <;> exact h
  | fasttimo =>
    have hsame : DelackConn.active ∘ s.visit = DelackConn.active := by
      funext c
      unfold Function.comp visit
      split_ifs <;> rfl
    rw [count, step, tcpFasttimo_conns, countP_map, hsame]
    exact h
  | event i e =>
    cases hc : s.conns[i]? with
    | none => simpa [step, hc] using h
    | some c =>
      have hnext := DelackConn.next_counted (hcounted c hc)
      simp only [step, hc, Option.elim_some, count, (perm_next hc _).countP_eq, countP_append,
        Census.countP_eq _ hc, BitVec.ofNat_add] at h ⊢
      rw [h, hnext]
      ac_rfl

lemma Marked.run (h : s.Marked) (ops : List DelackOp) : (ops.foldl DelackSys.step s).Marked := by
  induction ops generalizing s with
  | nil => exact h
  | cons op ops ih => exact ih (h.step op)

lemma count_run {ops : List DelackOp} (h : s.currentActiveConnections = s.count)
    (hrun : s.CountedRun ops) :
    (ops.foldl step s).currentActiveConnections = (ops.foldl step s).count := by
  induction ops generalizing s with
  | nil => exact h
  | cons op ops ih => exact ih (count_step op h hrun.1) hrun.2

end DelackSys

/-- The first half needs no condition. -/
theorem fasttimo_acks (ops : List DelackOp) :
    let s := ops.foldl DelackSys.step {}
    (∀ (i : ℕ) (c : DelackConn), s.conns[i]? = some c → c.active = true →
      ∃ c', s.tcpFasttimo.conns[i]? = some c' ∧ c'.delack = false) ∧
    (DelackSys.CountedRun {} ops →
      s.tcpFasttimo.currentActiveConnections = s.tcpFasttimo.count) := by
  intro s
  have hmarked : s.Marked := DelackSys.Marked.run (by simp [DelackSys.Marked]) ops
  refine ⟨fun i c hc _ => ⟨s.visit c, ?_, hmarked.visit (mem_of_getElem? hc)⟩, fun hrun => ?_⟩
  · simp [DelackSys.tcpFasttimo_conns, hc]
  · exact DelackSys.count_step .fasttimo (DelackSys.count_run rfl hrun) trivial

/-- 303 connections, on chains of their own, are open at a tick. Then there is text for one, while
another is closed and goes from the list. -/
def manyOps : List DelackOp :=
  (range 303).flatMap (fun k => [.create (k % 2 = 0) (Fin.ofNat _ k),
    .event 0 (if k % 2 = 0 then .ack else .synAck)]) ++
    [.fasttimo, .event 5 .data, .event 7 .fin, .event 7 .leave]

theorem fasttimo_acks_many :
    let s := manyOps.foldl DelackSys.step {}
    s.byBitmask = true ∧ s.count = 302 ∧ s.conns[5]? = some ⟨.established, 297, true⟩ ∧
      (∃ c', s.tcpFasttimo.conns[5]? = some c' ∧ c'.delack = false) ∧
      s.tcpFasttimo.currentActiveConnections = s.tcpFasttimo.count := by
  have hfive : (manyOps.foldl DelackSys.step {}).conns[5]? = some ⟨.established, 297, true⟩ := by
    decide +kernel
  have hcounted : DelackSys.CountedRun {} manyOps := by decide +kernel
  exact ⟨by decide +kernel, by decide +kernel, hfive, (fasttimo_acks manyOps).1 5 _ hfive rfl,
    (fasttimo_acks manyOps).2 hcounted⟩

/-- A connection that is reset stays counted. -/
theorem fasttimo_miscounts : ∃ ops : List DelackOp,
    (ops.foldl DelackSys.step {}).tcpFasttimo.currentActiveConnections ≠
      (ops.foldl DelackSys.step {}).tcpFasttimo.count :=
  ⟨[.create false 0, .event 0 .synAck, .event 0 .leave], by decide⟩

end Rhapsody.Netinet
