import Rhapsody.Ipc.Mqueue

/-! Handing a message to a blocked receiver against queueing it first. Blocked receivers are
served by the loops of `ipc_mqueue_send` and `ipc_mqueue_move`; on the reference path the messages
are enqueued and the same calls of `ipc_mqueue_receive` made in the same order. -/

namespace Rhapsody.Ipc

open List

variable {τ π : Type*}

lemma hasBits_or (word a b : Word) :
    hasBits word (a ||| b) = (hasBits word a || hasBits word b) := by
  rw [Bool.eq_iff_iff]
  simp only [hasBits, BitVec.and_or_distrib_left, bne_iff_ne, Bool.or_eq_true]
  exact (not_congr BitVec.or_eq_zero_iff).trans not_and_or

/-- What a receiver makes of a result computed by a sender: it does not expect the error for a
failed allocation of the scatter list. -/
def Received.asHandedOver : Received π → Received π
  | .returned .rcvBodyErrorVmKernel _ _ => .panic
  | r => r

/-- An offer to a blocked receiver does what it would have done with the head of its queue. -/
def Offer.Matches (kmsg : IpcKmsg π) (seqno : Word) : Offer τ π → Attempt π → Prop
  | .taken th, .take state list =>
    afterThreadBlock th = .returned state (.kmsg (some kmsg) seqno) list
  | .refused th, .leave mr out list =>
    afterThreadBlock th = (Received.returned mr out list).asHandedOver
  | _, _ => False

variable {call : ReceiveCall τ π} {kmsg : IpcKmsg π} {list : Option (IpcKmsg π)} {mem : τ → Memory}
  {state : MachMsgReturn} {th th' : IpcThread τ π} {calls : List (ReceiveCall τ π)}
  {offer : IpcKmsg π → Word → IpcThread τ π → Offer τ π} {seqno : π → Word}

lemma receiveFirst_leave_out {mr : MachMsgReturn} {out : KmsgOut π}
    (h : receiveFirst mem call kmsg = .leave mr out list) (k : Option (IpcKmsg π)) (n : Word) :
    out ≠ .kmsg k n := by
  rintro rfl
  unfold receiveFirst at h
  repeat' split at h
  all_goals simp at h

lemma afterThreadBlock_give_small (kmsg : IpcKmsg π) (seqno : Word)
    (hstate : state = .rcvTooLarge ∨ state = .rcvScatterSmall)
    (hlarge : hasBits th.ithRcvOption machRcvLarge = false)
    (hold : hasBits th.ithRcvOption machRcvOldFormat = false) :
    afterThreadBlock (th.give state kmsg seqno) =
      .returned state (.kmsg (some kmsg) seqno) th.ithList := by
  obtain rfl | rfl := hstate <;> simp [afterThreadBlock, IpcThread.give, hasBits_or, hlarge, hold]

lemma afterThreadBlock_tooSmall (kmsg : IpcKmsg π)
    (hstate : state = .rcvTooLarge ∨ state = .rcvScatterSmall)
    (hopt : hasBits th.ithRcvOption machRcvLarge = true ∨
      hasBits th.ithRcvOption machRcvOldFormat = true) :
    afterThreadBlock (th.tooSmall state kmsg) =
      .returned state (.size kmsg.msghSize) th.ithList := by
  obtain rfl | rfl := hstate <;> obtain hopt | hopt := hopt <;>
    simp [afterThreadBlock, IpcThread.tooSmall, hasBits_or, hopt]

lemma scatterOffer_matches (mem : τ → Memory) (call : ReceiveCall τ π) (kmsg : IpcKmsg π)
    (seqno : Word) (hold : kmsg.isOldFormat = false)
    (hopt : hasBits call.option machRcvOldFormat = false)
    (hsize : ¬kmsg.msghSize > call.maxSize - requestedTrailerSize (mem call.self) call.option) :
    (sendOffer mem kmsg seqno call.block).Matches kmsg seqno (receiveFirst mem call kmsg) := by
  cases hcomplex : kmsg.isComplex with
  | false => simp [sendOffer, receiveFirst, hold, hopt, ReceiveCall.block, hsize, hcomplex,
      Offer.Matches]; rfl
  | true =>
    cases hlist : call.list with
    | none => simp [sendOffer, receiveFirst, hold, hopt, ReceiveCall.block, hsize, hcomplex, hlist,
        Offer.Matches]; rfl
    | some list =>
      obtain ⟨state, list', hcheck⟩ : ∃ state list',
          ipcKmsgCheckScatter (mem call.self) kmsg call.option list = (state, list') := ⟨_, _, rfl⟩
      have hcode := ipcKmsgCheckScatter_code (mem call.self) kmsg call.option list
      simp only [sendOffer, receiveFirst, hold, hopt, ReceiveCall.block, hsize, hcomplex, hlist,
        hcheck, Bool.false_eq_true, if_false]
      rw [hcheck] at hcode
      obtain rfl | rfl | rfl | rfl : state = _ ∨ state = _ ∨ state = _ ∨ state = _ := hcode
      · rfl
      · rfl
      · cases hlarge : hasBits call.option machRcvLarge with
        | true => exact afterThreadBlock_tooSmall kmsg (.inr rfl) (.inl hlarge)
        | false => exact afterThreadBlock_give_small kmsg seqno (.inr rfl) hlarge hopt
      · rfl

lemma sendOffer_matches (mem : τ → Memory) (call : ReceiveCall τ π) (kmsg : IpcKmsg π)
    (seqno : Word) :
    (sendOffer mem kmsg seqno call.block).Matches kmsg seqno (receiveFirst mem call kmsg) := by
  cases hold : kmsg.isOldFormat with
  | true =>
    cases hopt : hasBits call.option machRcvOldFormat with
    | false => simp [sendOffer, receiveFirst, hold, hopt, ReceiveCall.block, Offer.Matches]; rfl
    | true =>
      by_cases hsize : kmsg.msghSize ≤ call.maxSize
      · simp [sendOffer, receiveFirst, hold, hopt, ReceiveCall.block, hsize,
          BitVec.not_lt.2 hsize, Offer.Matches]
        rfl
      simp only [sendOffer, receiveFirst, hold, hopt, ReceiveCall.block, hsize,
        BitVec.not_le.1 hsize, gt_iff_lt, if_true, if_false, not_true_eq_false]
      exact afterThreadBlock_tooSmall kmsg (.inl rfl) (.inr hopt)
  | false =>
    cases hopt : hasBits call.option machRcvOldFormat with
    | true =>
      by_cases hhdr : kmsg.isComplex ∨ kmsg.msghSize > sizeofMachMsgHeader ∨
          call.maxSize < sizeofMachMsgHeader
      · simp only [sendOffer, receiveFirst, hold, hopt, ReceiveCall.block, hhdr,
          Bool.false_eq_true, if_true, if_false]
        rfl
      simp only [sendOffer, receiveFirst, hold, hopt, ReceiveCall.block, hhdr,
        Bool.false_eq_true, if_true, if_false]
      rfl
    | false =>
      by_cases hsize : kmsg.msghSize >
          call.maxSize - requestedTrailerSize (mem call.self) call.option
      · cases hlarge : hasBits call.option machRcvLarge with
        | true =>
          simp only [sendOffer, receiveFirst, hold, hopt, hlarge, ReceiveCall.block, hsize,
            Bool.false_eq_true, if_true, if_false]
          exact afterThreadBlock_tooSmall kmsg (.inl rfl) (.inl hlarge)
        | false =>
          simp only [sendOffer, receiveFirst, hold, hopt, hlarge, ReceiveCall.block, hsize,
            Bool.false_eq_true, if_true, if_false]
          exact afterThreadBlock_give_small kmsg seqno (.inl rfl) hlarge hopt
      · exact scatterOffer_matches mem call kmsg seqno hold hopt hsize

lemma moveOffer_eq (mem : τ → Memory) :
    (moveOffer mem : IpcKmsg π → Word → IpcThread τ π → Offer τ π) = sendOffer mem := rfl

/-! ## Runs of receives and deliveries -/

variable [DecidableEq π]

def receiveRun (mem : τ → Memory) :
    List (ReceiveCall τ π) → IpcMqueue τ π → (π → Word) →
      IpcMqueue τ π × (π → Word) × List (Received π)
  | [], mqueue, seqno => (mqueue, seqno, [])
  | call :: calls, mqueue, seqno =>
    let (mqueue1, seqno1, r) := ipcMqueueReceive mem mqueue seqno call
    let (mqueue2, seqno2, rs) := receiveRun mem calls mqueue1 seqno1
    (mqueue2, seqno2, r.toList ++ rs)

def deliverRun (offer : IpcKmsg π → Word → IpcThread τ π → Offer τ π) :
    List (IpcKmsg π) → Delivered τ π → Delivered τ π
  | [], d => d
  | kmsg :: kmsgs, d =>
    let d1 := deliver offer d.mqueue d.seqno kmsg
    deliverRun offer kmsgs { d1 with woken := d.woken ++ d1.woken }

lemma receiveRun_of_empty (mem : τ → Memory) (hwaits : ∀ call ∈ calls, call.Waits)
    (threads : List (IpcThread τ π)) (seqno : π → Word) :
    receiveRun mem calls ⟨[], threads⟩ seqno =
      (⟨[], threads ++ calls.map ReceiveCall.block⟩, seqno, []) := by
  induction calls generalizing threads with
  | nil => simp [receiveRun]
  | cons call calls ih =>
    obtain ⟨hcall, hcalls⟩ := forall_mem_cons.1 hwaits
    simp [receiveRun, ipcMqueueReceive, hcall, ih hcalls]

lemma deliverRun_no_threads (offer : IpcKmsg π → Word → IpcThread τ π → Offer τ π)
    (kmsgs queued : List (IpcKmsg π)) (seqno : π → Word) (woken : List (IpcThread τ π)) :
    deliverRun offer kmsgs ⟨⟨queued, []⟩, seqno, woken⟩ =
      ⟨⟨queued ++ kmsgs, []⟩, seqno, woken⟩ := by
  induction kmsgs generalizing queued with
  | nil => simp [deliverRun]
  | cons kmsg kmsgs ih => simp [deliverRun, deliver, offerLoop, ih]

lemma deliverRun_refused (h : offer kmsg (seqno kmsg.msghRemotePort) th = .refused th')
    (kmsgs : List (IpcKmsg π)) (threads woken : List (IpcThread τ π)) :
    deliverRun offer (kmsg :: kmsgs) ⟨⟨[], th :: threads⟩, seqno, woken⟩ =
      deliverRun offer (kmsg :: kmsgs) ⟨⟨[], threads⟩, seqno, woken ++ [th']⟩ := by
  have hloop : offerLoop (offer kmsg (seqno kmsg.msghRemotePort)) (th :: threads) =
      { offerLoop (offer kmsg (seqno kmsg.msghRemotePort)) threads with
        woken := th' :: (offerLoop (offer kmsg (seqno kmsg.msghRemotePort)) threads).woken } := by
    simp [offerLoop, h]
  simp only [deliverRun, deliver, hloop]
  split_ifs <;> simp

omit [DecidableEq π] in
lemma asHandedOver_take (h : receiveFirst mem call kmsg = .take state list) (out : KmsgOut π)
    (list' : Option (IpcKmsg π)) :
    (Received.returned state out list').asHandedOver = .returned state out list' := by
  have hne : state ≠ .rcvBodyErrorVmKernel := by
    rintro rfl
    unfold receiveFirst at h
    repeat' split at h
    all_goals simp_all [isVmKernel_iff]
  cases state <;> first | rfl | exact absurd rfl hne

lemma deliverRun_eq_receiveRun (mem : τ → Memory) (hwaits : ∀ call ∈ calls, call.Waits)
    (kmsgs : List (IpcKmsg π)) (seqno : π → Word) (woken : List (IpcThread τ π)) :
    ∃ woken', deliverRun (sendOffer mem) kmsgs ⟨⟨[], calls.map ReceiveCall.block⟩, seqno, woken⟩ =
          ⟨(receiveRun mem calls ⟨kmsgs, []⟩ seqno).1,
            (receiveRun mem calls ⟨kmsgs, []⟩ seqno).2.1, woken ++ woken'⟩ ∧
      woken'.map afterThreadBlock =
        (receiveRun mem calls ⟨kmsgs, []⟩ seqno).2.2.map Received.asHandedOver := by
  induction calls generalizing kmsgs seqno woken with
  | nil => exact ⟨[], by simp [deliverRun_no_threads, receiveRun], rfl⟩
  | cons call calls ih =>
    obtain ⟨-, hcalls⟩ := forall_mem_cons.1 hwaits
    cases kmsgs with
    | nil =>
      refine ⟨[], ?_, ?_⟩
      · simp [deliverRun, receiveRun_of_empty mem hwaits]
      · simp [receiveRun_of_empty mem hwaits]
    | cons kmsg kmsgs =>
      have hmatch := sendOffer_matches mem call kmsg (seqno kmsg.msghRemotePort)
      cases hoffer : sendOffer mem kmsg (seqno kmsg.msghRemotePort) call.block with
      | taken th =>
        cases hfirst : receiveFirst mem call kmsg with
        | leave mr out list => rw [hoffer, hfirst] at hmatch; exact hmatch.elim
        | take state list =>
          rw [hoffer, hfirst] at hmatch
          obtain ⟨woken', hrun, hres⟩ := ih hcalls kmsgs (Function.update seqno
            kmsg.msghRemotePort (seqno kmsg.msghRemotePort + 1)) (woken ++ [th])
          refine ⟨th :: woken', ?_, ?_⟩
          · simp_all [receiveRun, ipcMqueueReceive, deliverRun, deliver, offerLoop]
          have hone : afterThreadBlock th =
              (Received.returned state (.kmsg (some kmsg) (seqno kmsg.msghRemotePort))
                list).asHandedOver := hmatch.trans (asHandedOver_take hfirst _ _).symm
          simp [receiveRun, ipcMqueueReceive, hfirst, hres, hone]
      | refused th =>
        cases hfirst : receiveFirst mem call kmsg with
        | take state list => rw [hoffer, hfirst] at hmatch; exact hmatch.elim
        | leave mr out list =>
          rw [hoffer, hfirst] at hmatch
          obtain ⟨woken', hrun, hres⟩ := ih hcalls (kmsg :: kmsgs) seqno (woken ++ [th])
          refine ⟨th :: woken', ?_, ?_⟩
          · rw [map_cons, deliverRun_refused hoffer, hrun]
            simp [receiveRun, ipcMqueueReceive, hfirst]
          · have hone : afterThreadBlock th = (Received.returned mr out list).asHandedOver := hmatch
            simp [receiveRun, ipcMqueueReceive, hfirst, hres, hone]

lemma moveLoop_eq (mem : τ → Memory) (port : π) (kmsgs : List (IpcKmsg π)) (d : Delivered τ π) :
    moveLoop mem port kmsgs d = (kmsgs.filter (·.msghRemotePort ≠ port),
        deliverRun (sendOffer mem) (kmsgs.filter (·.msghRemotePort = port)) d) := by
  induction kmsgs generalizing d with
  | nil => rfl
  | cons kmsg kmsgs ih =>
    by_cases h : kmsg.msghRemotePort = port
    · simp [moveLoop, h, ih, deliverRun, moveOffer_eq]
    · simp [moveLoop, h, ih]

/-- What is left when the calls block first and `source`'s messages for `port` are moved to their
queue afterwards. -/
def moveAfterBlocking (mem : τ → Memory) (calls : List (ReceiveCall τ π)) (source : IpcMqueue τ π)
    (seqno : π → Word) (port : π) : IpcMqueue τ π × (π → Word) × List (Received π) :=
  let q := receiveRun mem calls ipcMqueueInit seqno
  let d := (ipcMqueueMove mem q.1 source q.2.1 port).2
  (d.mqueue, d.seqno, q.2.2 ++ d.woken.map afterThreadBlock)

def moveBeforeReceiving (mem : τ → Memory) (calls : List (ReceiveCall τ π))
    (source : IpcMqueue τ π) (seqno : π → Word) (port : π) :
    IpcMqueue τ π × (π → Word) × List (Received π) :=
  let d := (ipcMqueueMove mem ipcMqueueInit source seqno port).2
  receiveRun mem calls d.mqueue d.seqno

def sendAfterBlocking (mem : τ → Memory) (calls : List (ReceiveCall τ π)) (seqno : π → Word)
    (kmsg : IpcKmsg π) : IpcMqueue τ π × (π → Word) × List (Received π) :=
  let q := receiveRun mem calls ipcMqueueInit seqno
  let d := ipcMqueueSend mem q.1 q.2.1 kmsg
  (d.mqueue, d.seqno, q.2.2 ++ d.woken.map afterThreadBlock)

def sendBeforeReceiving (mem : τ → Memory) (calls : List (ReceiveCall τ π)) (seqno : π → Word)
    (kmsg : IpcKmsg π) : IpcMqueue τ π × (π → Word) × List (Received π) :=
  let d := ipcMqueueSend mem ipcMqueueInit seqno kmsg
  receiveRun mem calls d.mqueue d.seqno

/-- The call failed to allocate a scatter list for the message it left behind. -/
def Received.IsAllocFailure (r : Received π) : Prop :=
  ∃ out list, r = .returned .rcvBodyErrorVmKernel out list

omit [DecidableEq π] in
lemma asHandedOver_eq_iff (r : Received π) : r.asHandedOver = r ↔ ¬r.IsAllocFailure := by
  cases r with
  | panic => simp [Received.asHandedOver, Received.IsAllocFailure]
  | returned mr out list => cases mr <;> simp [Received.asHandedOver, Received.IsAllocFailure]

omit [DecidableEq π] in
lemma asHandedOver_eq_panic_iff (r : Received π) :
    r.asHandedOver = .panic ↔ r = .panic ∨ r.IsAllocFailure := by
  cases r with
  | panic => simp [Received.asHandedOver]
  | returned mr out list => cases mr <;> simp [Received.asHandedOver, Received.IsAllocFailure]

omit [DecidableEq π] in
lemma map_asHandedOver_eq_iff (rs : List (Received π)) :
    rs.map Received.asHandedOver = rs ↔ ∀ r ∈ rs, ¬r.IsAllocFailure := by
  calc rs.map Received.asHandedOver = rs
      ↔ rs.map Received.asHandedOver = rs.map id := by rw [map_id]
    _ ↔ ∀ r ∈ rs, r.asHandedOver = id r := map_inj_left
    _ ↔ ∀ r ∈ rs, ¬r.IsAllocFailure := forall₂_congr fun r _ => asHandedOver_eq_iff r

lemma receiveRun_ne_panic (mem : τ → Memory) (calls : List (ReceiveCall τ π))
    (mqueue : IpcMqueue τ π) (seqno : π → Word) :
    .panic ∉ (receiveRun mem calls mqueue seqno).2.2 := by
  induction calls generalizing mqueue seqno with
  | nil => simp [receiveRun]
  | cons call calls ih =>
    have hone : (ipcMqueueReceive mem mqueue seqno call).2.2 ≠ some .panic := by
      unfold ipcMqueueReceive
      split
      · dsimp only
        split <;> simp
      · split_ifs <;> simp
    simp [receiveRun, ih, hone]

lemma sendAfterBlocking_eq (mem : τ → Memory) (hwaits : ∀ call ∈ calls, call.Waits)
    (seqno : π → Word) (kmsg : IpcKmsg π) :
    sendAfterBlocking mem calls seqno kmsg =
      ((sendBeforeReceiving mem calls seqno kmsg).1, (sendBeforeReceiving mem calls seqno kmsg).2.1,
        (sendBeforeReceiving mem calls seqno kmsg).2.2.map Received.asHandedOver) := by
  obtain ⟨woken, hrun, hres⟩ := deliverRun_eq_receiveRun mem hwaits [kmsg] seqno []
  have hsend : ∀ mqueue : IpcMqueue τ π, ipcMqueueSend mem mqueue seqno kmsg =
      deliverRun (sendOffer mem) [kmsg] ⟨mqueue, seqno, []⟩ := fun _ => by
    simp [deliverRun, ipcMqueueSend]
  have hblocked := receiveRun_of_empty mem hwaits [] seqno
  simp only [sendAfterBlocking, sendBeforeReceiving, ipcMqueueInit, hsend, hblocked,
    deliverRun_no_threads, nil_append] at hrun hres ⊢
  rw [hrun, ← hres]

lemma moveAfterBlocking_eq (mem : τ → Memory) (hwaits : ∀ call ∈ calls, call.Waits)
    (source : IpcMqueue τ π) (seqno : π → Word) (port : π) :
    moveAfterBlocking mem calls source seqno port =
      ((moveBeforeReceiving mem calls source seqno port).1,
        (moveBeforeReceiving mem calls source seqno port).2.1,
        (moveBeforeReceiving mem calls source seqno port).2.2.map Received.asHandedOver) := by
  obtain ⟨woken, hrun, hres⟩ := deliverRun_eq_receiveRun mem hwaits
    (source.imqMessages.filter (·.msghRemotePort = port)) seqno []
  have hblocked := receiveRun_of_empty mem hwaits [] seqno
  simp only [moveAfterBlocking, moveBeforeReceiving, ipcMqueueMove, moveLoop_eq, ipcMqueueInit,
    hblocked, deliverRun_no_threads, nil_append] at hrun hres ⊢
  rw [hrun, ← hres]

omit [DecidableEq π] in
lemma handedOver_iff {direct queued : IpcMqueue τ π × (π → Word) × List (Received π)}
    (h : direct = (queued.1, queued.2.1, queued.2.2.map Received.asHandedOver))
    (hpanic : .panic ∉ queued.2.2) :
    (direct = queued ↔ ∀ r ∈ queued.2.2, ¬r.IsAllocFailure) ∧
      (.panic ∈ direct.2.2 ↔ ∃ r ∈ queued.2.2, r.IsAllocFailure) := by
  subst h
  constructor
  · rw [← map_asHandedOver_eq_iff]
    simp [Prod.ext_iff]
  simp only [mem_map, asHandedOver_eq_panic_iff]
  constructor
  · rintro ⟨r, hr, rfl | hfail⟩
    · exact absurd hr hpanic
    · exact ⟨r, hr, hfail⟩
  · rintro ⟨r, hr, hfail⟩
    exact ⟨r, hr, .inr hfail⟩

/-! ## The calls that fail -/

/-- `ipc_kmsg_check_scatter` goes through the descriptors of the message and of the list. -/
def scanList (call : ReceiveCall τ π) (kmsg list : IpcKmsg π) : ScatterScan :=
  scanScatter (hasBits call.option machRcvLarge) list.descriptors.isEmpty kmsg.descriptors
    list.descriptors false

/-- A new-format complex message fits, the scatter list of the call does not suit its sizes, and
there is no memory for another list. -/
structure ScatterFails (mem : τ → Memory) (call : ReceiveCall τ π) (kmsg : IpcKmsg π) : Prop where
  newFormat : kmsg.isOldFormat = false ∧ hasBits call.option machRcvOldFormat = false
  fits : ¬kmsg.msghSize > call.maxSize - requestedTrailerSize (mem call.self) call.option
  complex : kmsg.isComplex = true
  sizes : ∃ list, call.list = some list ∧ scanList call kmsg list = .finished true
  noMemory : (mem call.self).ikmAlloc (sizeofMachMsgBody +
    BitVec.ofNat 32 kmsg.descriptors.length * sizeofMachMsgDescriptor) = none

/-- The message is too large and wanted in the old format or with `MACH_RCV_LARGE`, or the scatter
list does not suit it. -/
def Leaves (mem : τ → Memory) (call : ReceiveCall τ π) (kmsg : IpcKmsg π) : Prop :=
  if kmsg.isOldFormat then
    hasBits call.option machRcvOldFormat = true ∧ kmsg.msghSize > call.maxSize
  else hasBits call.option machRcvOldFormat = false ∧
    if kmsg.msghSize > call.maxSize - requestedTrailerSize (mem call.self) call.option then
      hasBits call.option machRcvLarge = true
    else kmsg.isComplex = true ∧ ∃ list, call.list = some list ∧
      (scanList call kmsg list = .invalidType ∨
        scanList call kmsg list ≠ .finished false ∧ hasBits call.option machRcvLarge = true)

/-- Some call finds such a message at the head of the queue: those before it left that message or
took the ones before. -/
inductive MeetsFailure (mem : τ → Memory) : List (ReceiveCall τ π) → List (IpcKmsg π) → Prop
  | fails {call calls kmsg kmsgs} (h : ScatterFails mem call kmsg) :
      MeetsFailure mem (call :: calls) (kmsg :: kmsgs)
  | left {call calls kmsg kmsgs} (hleaves : Leaves mem call kmsg)
      (h : MeetsFailure mem calls (kmsg :: kmsgs)) :
      MeetsFailure mem (call :: calls) (kmsg :: kmsgs)
  | took {call calls kmsg kmsgs} (htakes : ¬Leaves mem call kmsg)
      (h : MeetsFailure mem calls kmsgs) : MeetsFailure mem (call :: calls) (kmsg :: kmsgs)

omit [DecidableEq π] in
lemma MeetsFailure.exists {kmsgs : List (IpcKmsg π)} (h : MeetsFailure mem calls kmsgs) :
    ∃ call ∈ calls, ∃ kmsg ∈ kmsgs, ScatterFails mem call kmsg := by
  induction h with
  | fails h => exact ⟨_, mem_cons_self, _, mem_cons_self, h⟩
  | left _ _ ih =>
    obtain ⟨call, hcall, hfails⟩ := ih
    exact ⟨call, mem_cons_of_mem _ hcall, hfails⟩
  | took _ _ ih =>
    obtain ⟨call, hcall, kmsg, hkmsg, hfails⟩ := ih
    exact ⟨call, mem_cons_of_mem _ hcall, kmsg, mem_cons_of_mem _ hkmsg, hfails⟩

lemma large_of_scanScatter {large noScatter : Bool} {gs ss : List MachMsgDescriptor} {err : Bool}
    (h : scanScatter large noScatter gs ss err = .finished true) : large = true ∨ err = true := by
  fun_induction scanScatter large noScatter gs ss err <;> simp_all

omit [DecidableEq π] in
lemma ipcKmsgCheckScatter_iff (mem : Memory) (call : ReceiveCall τ π) (kmsg list : IpcKmsg π) :
    ((ipcKmsgCheckScatter mem kmsg call.option list).1 = .success ↔
      scanList call kmsg list = .finished false) ∧
    ((ipcKmsgCheckScatter mem kmsg call.option list).1 = .rcvInvalidType ↔
      scanList call kmsg list = .invalidType) ∧
    ((ipcKmsgCheckScatter mem kmsg call.option list).1 = .rcvBodyErrorVmKernel ↔
      scanList call kmsg list = .finished true ∧ mem.ikmAlloc (sizeofMachMsgBody +
        BitVec.ofNat 32 kmsg.descriptors.length * sizeofMachMsgDescriptor) = none) := by
  unfold ipcKmsgCheckScatter scanList
  split
  next hscan => simp [hscan]
  next hscan => simp [hscan]
  next hscan => simp [hscan]
  next hscan =>
    dsimp only
    split <;> simp_all

omit [DecidableEq π] in
lemma receiveFirst_leave_iff (mem : τ → Memory) (call : ReceiveCall τ π) (kmsg : IpcKmsg π) :
    ((∃ mr out list, receiveFirst mem call kmsg = .leave mr out list) ↔ Leaves mem call kmsg) ∧
      ((∃ out list, receiveFirst mem call kmsg = .leave .rcvBodyErrorVmKernel out list) ↔
        ScatterFails mem call kmsg) := by
  have hnot (h : ¬(kmsg.isOldFormat = false ∧ hasBits call.option machRcvOldFormat = false) ∨
      kmsg.msghSize > call.maxSize - requestedTrailerSize (mem call.self) call.option ∨
      kmsg.isComplex = false ∨ call.list = none) : ¬ScatterFails mem call kmsg := by
    rintro ⟨hnew, hfits, hcomplex, ⟨list, hlist, -⟩, -⟩
    simp_all
  unfold receiveFirst Leaves
  cases hold : kmsg.isOldFormat with
  | true =>
    rw [iff_false_intro (hnot (.inl (by simp [hold])))]
    cases hopt : hasBits call.option machRcvOldFormat <;>
      by_cases hsize : kmsg.msghSize > call.maxSize <;> simp [hsize]
  | false =>
    cases hopt : hasBits call.option machRcvOldFormat with
    | true =>
      rw [iff_false_intro (hnot (.inl (by simp [hopt])))]
      by_cases hhdr : kmsg.isComplex ∨ kmsg.msghSize > sizeofMachMsgHeader ∨
        call.maxSize < sizeofMachMsgHeader <;> simp [hhdr]
    | false =>
      by_cases hsize : kmsg.msghSize > call.maxSize -
          requestedTrailerSize (mem call.self) call.option
      · rw [iff_false_intro (hnot (.inr (.inl hsize)))]
        cases hlarge : hasBits call.option machRcvLarge <;> simp [hsize]
      cases hcomplex : kmsg.isComplex with
      | false =>
        rw [iff_false_intro (hnot (.inr (.inr (.inl hcomplex))))]
        simp [hsize]
      | true =>
        cases hlist : call.list with
        | none =>
          rw [iff_false_intro (hnot (.inr (.inr (.inr hlist))))]
          simp [hsize]
        | some list =>
          have hfails : ScatterFails mem call kmsg ↔ scanList call kmsg list = .finished true ∧
              (mem call.self).ikmAlloc (sizeofMachMsgBody +
                BitVec.ofNat 32 kmsg.descriptors.length * sizeofMachMsgDescriptor) = none := by
            refine ⟨fun h => ?_, fun h => ⟨⟨hold, hopt⟩, hsize, hcomplex, ⟨list, hlist, h.1⟩, h.2⟩⟩
            obtain ⟨list', hlist', hscan⟩ := h.sizes
            cases hlist.symm.trans hlist'
            exact ⟨hscan, h.noMemory⟩
          have hlarge (h : scanList call kmsg list = .finished true) :
              hasBits call.option machRcvLarge = true :=
            (large_of_scanScatter h).resolve_right Bool.false_ne_true
          obtain ⟨hsuccess, hinvalid, hvm⟩ := ipcKmsgCheckScatter_iff (mem call.self) call kmsg list
          rw [hfails, ← hvm]
          simp only [Option.some.injEq, exists_eq_left', ne_eq, ← hsuccess, ← hinvalid]
          have hlarge := fun h => hlarge (hvm.1 h).1
          clear hfails hsuccess hinvalid hvm
          generalize ipcKmsgCheckScatter (mem call.self) kmsg call.option list = r at hlarge ⊢
          obtain ⟨state, list'⟩ := r
          dsimp only at hlarge
          generalize hasBits call.option machRcvLarge = large at hlarge ⊢
          by_cases hbody : state = .rcvBodyErrorVmKernel
          · simp [hsize, hbody, hlarge hbody, isVmKernel_iff]
          by_cases hdone : state = .success
          · simp [hsize, hdone]
          by_cases htype : state = .rcvInvalidType
          · simp [hsize, htype]
          cases large <;> simp [hsize, hbody, hdone, htype, isVmKernel_iff]

lemma receiveRun_fails_iff (mem : τ → Memory) (hwaits : ∀ call ∈ calls, call.Waits)
    (kmsgs : List (IpcKmsg π)) (seqno : π → Word) :
    (∃ r ∈ (receiveRun mem calls ⟨kmsgs, []⟩ seqno).2.2, r.IsAllocFailure) ↔
      MeetsFailure mem calls kmsgs := by
  induction calls generalizing kmsgs seqno with
  | nil => exact ⟨fun ⟨_, hr, _⟩ => absurd hr not_mem_nil, nofun⟩
  | cons call calls ih =>
    obtain ⟨-, hcalls⟩ := forall_mem_cons.1 hwaits
    cases kmsgs with
    | nil =>
      rw [receiveRun_of_empty mem hwaits]
      exact ⟨fun ⟨_, hr, _⟩ => absurd hr not_mem_nil, nofun⟩
    | cons kmsg kmsgs =>
      obtain ⟨hleaves, hfails⟩ := receiveFirst_leave_iff mem call kmsg
      cases hfirst : receiveFirst mem call kmsg with
      | take state list =>
        have hnot : ¬Leaves mem call kmsg := fun h => by
          obtain ⟨mr, out, list, heq⟩ := hleaves.2 h
          cases hfirst.symm.trans heq
        have hnot' : ¬ScatterFails mem call kmsg := fun h => by
          obtain ⟨out, list, heq⟩ := hfails.2 h
          cases hfirst.symm.trans heq
        have hone (out : KmsgOut π) :
            ¬(Received.returned state out list).IsAllocFailure := by
          rw [← asHandedOver_eq_iff]
          exact asHandedOver_take hfirst _ _
        simp only [receiveRun, ipcMqueueReceive, hfirst, Option.toList_some, singleton_append,
          exists_mem_cons_iff, hone, false_or, ih hcalls]
        refine ⟨.took hnot, fun h => ?_⟩
        cases h with
        | fails h => exact absurd h hnot'
        | left h => exact absurd h hnot
        | took _ h => exact h
      | leave mr out list =>
        have hyes : Leaves mem call kmsg := hleaves.1 ⟨_, _, _, hfirst⟩
        have hone : (Received.returned mr out list).IsAllocFailure ↔
            ScatterFails mem call kmsg := by
          rw [← hfails, hfirst]
          constructor
          · rintro ⟨out', list', heq⟩
            cases heq
            exact ⟨_, _, rfl⟩
          · rintro ⟨out', list', heq⟩
            cases heq
            exact ⟨_, _, rfl⟩
        simp only [receiveRun, ipcMqueueReceive, hfirst, Option.toList_some, singleton_append,
          exists_mem_cons_iff, hone, ih hcalls]
        refine ⟨fun h => h.elim .fails (.left hyes), fun h => ?_⟩
        cases h with
        | fails h => exact .inl h
        | left _ h => exact .inr h
        | took h => exact absurd hyes h

/-- Hand-off and queueing agree, on every result and on the state left, exactly when no receive
meets a message for which it cannot allocate a scatter list; that makes a receiver woken by hand-off
panic. -/
theorem handOff_agrees_iff (mem : τ → Memory) {calls : List (ReceiveCall τ π)}
    (hwaits : ∀ call ∈ calls, call.Waits) (seqno : π → Word) :
    (∀ kmsg, (sendAfterBlocking mem calls seqno kmsg = sendBeforeReceiving mem calls seqno kmsg ↔
        ¬MeetsFailure mem calls [kmsg]) ∧
      (.panic ∈ (sendAfterBlocking mem calls seqno kmsg).2.2 ↔ MeetsFailure mem calls [kmsg])) ∧
    (∀ source port, (moveAfterBlocking mem calls source seqno port =
          moveBeforeReceiving mem calls source seqno port ↔
        ¬MeetsFailure mem calls (source.imqMessages.filter (·.msghRemotePort = port))) ∧
      (.panic ∈ (moveAfterBlocking mem calls source seqno port).2.2 ↔
        MeetsFailure mem calls (source.imqMessages.filter (·.msghRemotePort = port)))) := by
  constructor
  · intro kmsg
    obtain ⟨hagree, hpanic⟩ := handedOver_iff (sendAfterBlocking_eq mem hwaits seqno kmsg)
      (receiveRun_ne_panic mem calls _ _)
    have hmeets := receiveRun_fails_iff mem hwaits [kmsg] seqno
    rw [← hmeets]
    exact ⟨hagree.trans (by push Not; rfl), hpanic⟩
  · intro source port
    obtain ⟨hagree, hpanic⟩ := handedOver_iff (moveAfterBlocking_eq mem hwaits source seqno port)
      (receiveRun_ne_panic mem calls _ _)
    have hmeets := receiveRun_fails_iff mem hwaits
      (source.imqMessages.filter (·.msghRemotePort = port)) seqno
    have hqueued : (moveBeforeReceiving mem calls source seqno port).2.2 =
        (receiveRun mem calls ⟨source.imqMessages.filter (·.msghRemotePort = port), []⟩
          seqno).2.2 := by
      simp [moveBeforeReceiving, ipcMqueueMove, moveLoop_eq, ipcMqueueInit, deliverRun_no_threads]
    rw [← hmeets, ← hqueued]
    exact ⟨hagree.trans (by push Not; rfl), hpanic⟩

def scatterKmsg : IpcKmsg Unit where
  msghBits := machMsghBitsComplex
  msghSize := sizeofMachMsgHeader + sizeofMachMsgBody + 700 * sizeofMachMsgDescriptor
  msghRemotePort := ()
  descriptors := List.replicate 700 ⟨machMsgOolDescriptor, 0, 4096⟩

def scatterCall : ReceiveCall Unit Unit where
  self := ()
  option := machRcvLarge
  maxSize := 16384
  timeout := 0
  list := some ⟨0, sizeofMachMsgHeader + sizeofMachMsgBody, (), []⟩
  oldKmsg := none
  oldSeqno := 0

def scatterMemory : Memory where
  pastTrailerSize := fun _ => 0
  ikmAlloc := fun size => if size ≤ 4096 then some fun _ => ⟨0, 0, 0⟩ else none

theorem handOff_panics :
    (sendAfterBlocking (fun _ => scatterMemory) [scatterCall] (fun _ => 0) scatterKmsg).2.2 =
        [.panic] ∧
      (sendBeforeReceiving (fun _ => scatterMemory) [scatterCall] (fun _ => 0) scatterKmsg).2.2 =
        [.returned .rcvBodyErrorVmKernel .unset scatterCall.list] := by
  decide +kernel

/-- The first receiver has no scatter list for the three descriptors and gets one made, the second
takes the message. -/
theorem handOff_agrees_iff_scatterCall :
    let small : IpcKmsg Unit := { scatterKmsg with
      msghSize := 64, descriptors := List.replicate 3 ⟨machMsgOolDescriptor, 0, 4096⟩ }
    let calls : List (ReceiveCall Unit Unit) := [scatterCall, { scatterCall with list := none }]
    (sendBeforeReceiving (fun _ => scatterMemory) calls (fun _ => 0) small).2.2.length = 2 ∧
      sendAfterBlocking (fun _ => scatterMemory) calls (fun _ => 0) small =
        sendBeforeReceiving (fun _ => scatterMemory) calls (fun _ => 0) small := by
  intro small calls
  have hmeets : ¬MeetsFailure (fun _ => scatterMemory) calls [small] := by
    intro h
    obtain ⟨call, -, kmsg, hkmsg, hfails⟩ := h.exists
    obtain rfl := mem_singleton.1 hkmsg
    exact absurd hfails.noMemory (by decide)
  exact ⟨by decide +kernel, ((handOff_agrees_iff _ (by decide) _).1 small).1.2 hmeets⟩

end Rhapsody.Ipc
