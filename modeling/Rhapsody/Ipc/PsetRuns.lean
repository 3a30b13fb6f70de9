import Rhapsody.Ipc.HandOff
import Rhapsody.Ipc.Pset
import Rhapsody.Lib.Fifo

/-! Every port is a first-in first-out queue with numbered deliveries, whatever
queue its messages stand in and however they reach their receivers. -/

namespace Rhapsody.Ipc

open Function List

open Lib
open scoped List

variable {τ π σ : Type*}

/-! ## What a thread set going returns with -/

variable {call : ReceiveCall τ π} {kmsg : IpcKmsg π} {mem : τ → Memory} {seqno : Word}
  {th : IpcThread τ π}

lemma receiveFirst_leave_message {mr : MachMsgReturn} {out : KmsgOut π}
    {list : Option (IpcKmsg π)} (h : receiveFirst mem call kmsg = .leave mr out list)
    (mr' : MachMsgReturn) : (Received.returned mr' out list).message = none := by
  cases out with
  | unset => rfl
  | size n => rfl
  | kmsg k n => exact absurd rfl (receiveFirst_leave_out h k n)

lemma message_of_taken (h : sendOffer mem kmsg seqno call.block = .taken th) :
    th.message = some (kmsg, seqno) := by
  have hmatch := sendOffer_matches mem call kmsg seqno
  rw [h] at hmatch
  cases hfirst : receiveFirst mem call kmsg with
  | leave mr out list => rw [hfirst] at hmatch; exact hmatch.elim
  | take state list =>
    rw [hfirst] at hmatch
    have hth : afterThreadBlock th = .returned state (.kmsg (some kmsg) seqno) list := hmatch
    rw [IpcThread.message, hth, Received.message]

lemma message_of_refused (h : sendOffer mem kmsg seqno call.block = .refused th) :
    th.message = none := by
  have hmatch := sendOffer_matches mem call kmsg seqno
  rw [h] at hmatch
  cases hfirst : receiveFirst mem call kmsg with
  | take state list => rw [hfirst] at hmatch; exact hmatch.elim
  | leave mr out list =>
    rw [hfirst] at hmatch
    have hth : afterThreadBlock th = (Received.returned mr out list).asHandedOver := hmatch
    have hnone := receiveFirst_leave_message hfirst
    rw [IpcThread.message, hth]
    cases mr <;> first | rfl | exact hnone _

def AllBlocked (ths : List (IpcThread τ π)) : Prop :=
  ∀ th ∈ ths, ∃ call : ReceiveCall τ π, th = call.block

lemma offerLoop_spec (mem : τ → Memory) (kmsg : IpcKmsg π) (seqno : Word)
    {ths : List (IpcThread τ π)} (hths : AllBlocked ths) :
    let d := offerLoop (sendOffer mem kmsg seqno) ths
    (∀ th ∈ d.threads, th ∈ ths) ∧
      (d.taken = true ∧ ths ≠ [] ∧ d.woken.filterMap IpcThread.message = [(kmsg, seqno)] ∨
        d.taken = false ∧ d.threads = [] ∧ d.woken.filterMap IpcThread.message = []) := by
  induction ths with
  | nil => simp [offerLoop]
  | cons th ths ih =>
    obtain ⟨⟨call, rfl⟩, hrest⟩ := forall_mem_cons.1 hths
    cases hoffer : sendOffer mem kmsg seqno call.block with
    | taken th' =>
      have hth := message_of_taken hoffer
      simp only [offerLoop, hoffer]
      exact ⟨fun th h => mem_cons_of_mem _ h, .inl ⟨trivial, by simp, by simp [hth]⟩⟩
    | refused th' =>
      have hth := message_of_refused hoffer
      obtain ⟨hsub, hcase⟩ := ih hrest
      simp only [offerLoop, hoffer]
      refine ⟨fun th h => mem_cons_of_mem _ (hsub th h), ?_⟩
      rcases hcase with ⟨htaken, -, hmsg⟩ | ⟨htaken, hnone, hmsg⟩
      · exact .inl ⟨htaken, by simp, by simp [hth, hmsg]⟩
      · exact .inr ⟨htaken, hnone, by simp [hth, hmsg]⟩

/-! ## One queue -/

structure IpcMqueue.Wf (mqueue : IpcMqueue τ π) : Prop where
  idle : mqueue.imqThreads = [] ∨ mqueue.imqMessages = []
  blocked : AllBlocked mqueue.imqThreads

section
variable [DecidableEq π]

variable {mqueue : IpcMqueue τ π}

lemma deliver_spec (mem : τ → Memory) (h : mqueue.Wf) (seqno : π → Word) (kmsg : IpcKmsg π) :
    let d := deliver (sendOffer mem) mqueue seqno kmsg
    let port := kmsg.msghRemotePort
    d.mqueue.Wf ∧ (mqueue.imqMessages = [] ∧ d.mqueue.imqMessages = [] ∧
          d.seqno = Function.update seqno port (seqno port + 1) ∧
          d.woken.filterMap IpcThread.message = [(kmsg, seqno port)] ∨
        d.mqueue = ⟨mqueue.imqMessages ++ [kmsg], []⟩ ∧ d.seqno = seqno ∧
          d.woken.filterMap IpcThread.message = []) := by
  obtain ⟨hsub, hcase⟩ := offerLoop_spec mem kmsg (seqno kmsg.msghRemotePort) h.blocked
  simp only [deliver]
  rcases hcase with ⟨htaken, hne, hmsg⟩ | ⟨htaken, hnone, hmsg⟩
  · have hempty : mqueue.imqMessages = [] := h.idle.resolve_left hne
    rw [if_pos htaken]
    exact ⟨⟨.inr hempty, fun th hth => h.blocked th (hsub th hth)⟩,
      .inl ⟨hempty, hempty, rfl, hmsg⟩⟩
  · rw [htaken, hnone]
    exact ⟨⟨.inl rfl, by simp [AllBlocked]⟩, .inr ⟨rfl, rfl, hmsg⟩⟩

def deliverEvents (woken : List (IpcThread τ π)) : List (QueueEvent (IpcKmsg π) Word) :=
  (woken.filterMap IpcThread.message).map fun (kmsg, seqno) => .deliver kmsg seqno

lemma deliverRun_spec (mem : τ → Memory) (port : π) (kmsgs : List (IpcKmsg π))
    (hkmsgs : ∀ k ∈ kmsgs, k.msghRemotePort = port) (h : mqueue.Wf) (seqno : π → Word)
    (woken : List (IpcThread τ π)) :
    ∃ left woken', let d := deliverRun (sendOffer mem) kmsgs ⟨mqueue, seqno, woken⟩
      d.mqueue.Wf ∧ d.mqueue.imqMessages = mqueue.imqMessages ++ left ∧
      d.woken = woken ++ woken' ∧ (∀ k ∈ left, k ∈ kmsgs) ∧
      (∀ other, other ≠ port → d.seqno other = seqno other) ∧
      (∀ m ∈ woken'.filterMap IpcThread.message, m.1.msghRemotePort = port) ∧
      Fifo kmsgs (seqno port) (deliverEvents woken') left (d.seqno port) := by
  induction kmsgs generalizing mqueue seqno woken with
  | nil => exact ⟨[], [], h, by simp [deliverRun], by simp [deliverRun], by simp,
      by simp [deliverRun], by simp, .nil _ _⟩
  | cons kmsg kmsgs ih =>
    obtain ⟨hport, hrest⟩ := forall_mem_cons.1 hkmsgs
    obtain ⟨hwf, hcase⟩ := deliver_spec mem h seqno kmsg
    dsimp only [deliverRun]
    generalize deliver (sendOffer mem) mqueue seqno kmsg = d at hwf hcase ⊢
    rcases hcase with ⟨hempty, hmsgs, hseqno, hmsg⟩ | ⟨hmq, hseqno, hmsg⟩
    · obtain ⟨left, woken', hwf', hleft, hwoken, hsub, hother, hports, hfifo⟩ :=
        ih hrest hwf d.seqno (woken ++ d.woken)
      refine ⟨left, d.woken ++ woken', hwf', ?_, ?_,
        fun k hk => mem_cons_of_mem _ (hsub k hk), ?_, ?_, ?_⟩
      · rw [hleft, hempty, hmsgs]
      · rw [hwoken, append_assoc]
      · intro other hne
        refine (hother other hne).trans ?_
        rw [hseqno, hport, update_of_ne hne]
      · intro m hm
        rw [filterMap_append, hmsg, mem_append, mem_singleton] at hm
        rcases hm with rfl | hm
        · exact hport
        · exact hports m hm
      have hnext : d.seqno port = seqno port + 1 := by
        rw [hseqno, hport, update_self]
      have hevents : deliverEvents (d.woken ++ woken') =
          .deliver kmsg (seqno port) :: deliverEvents woken' := by
        simp [deliverEvents, hmsg, hport]
      rw [hnext] at hfifo
      rw [hevents]
      exact .deliver kmsg hfifo
    -- no receiver is left, so the rest is queued behind this message
    refine ⟨kmsg :: kmsgs, d.woken, ?_⟩
    have hrun : deliverRun (sendOffer mem) kmsgs ⟨d.mqueue, d.seqno, woken ++ d.woken⟩ =
        ⟨⟨mqueue.imqMessages ++ kmsg :: kmsgs, []⟩, seqno, woken ++ d.woken⟩ := by
      rw [hmq, hseqno, deliverRun_no_threads]
      simp
    rw [hrun]
    refine ⟨⟨.inl rfl, by simp [AllBlocked]⟩, rfl, rfl, fun k hk => hk, fun _ _ => rfl,
      by simp [hmsg], ?_⟩
    rw [deliverEvents, hmsg]
    exact .nil _ _

end

/-! ## Events of one port -/

def MsgEvent.forPort [DecidableEq π] (port : π) :
    MsgEvent τ π → Option (QueueEvent (IpcKmsg π) Word)
  | .sent kmsg .accepted => if kmsg.msghRemotePort = port then some (.accept kmsg) else none
  | .delivered kmsg n => if kmsg.msghRemotePort = port then some (.deliver kmsg n) else none
  | .seqnoSet p n => if p = port then some (.renumber n) else none
  | _ => none

variable {port : π}

lemma forPort_eq_renumber [DecidableEq π] {e : MsgEvent τ π} {n : Word}
    (h : e.forPort port = some (.renumber n)) : e = .seqnoSet port n := by
  cases e with
  | sent kmsg how => cases how <;> simp [MsgEvent.forPort] at h
  | delivered kmsg k | received self r => simp [MsgEvent.forPort] at h
  | seqnoSet p k =>
    obtain ⟨rfl, rfl⟩ : p = port ∧ k = n := by simpa [MsgEvent.forPort] using h
    rfl

def portEvents [DecidableEq π] (port : π) (es : List (MsgEvent τ π)) :
    List (QueueEvent (IpcKmsg π) Word) := es.filterMap (MsgEvent.forPort port)

def deliveredMessages (es : List (MsgEvent τ π)) : List (IpcKmsg π × Word) :=
  es.filterMap fun
    | .delivered kmsg n => some (kmsg, n)
    | _ => none

def receivedMessages (es : List (MsgEvent τ π)) : List (IpcKmsg π × Word) :=
  es.filterMap fun
    | .received _ r => r.message
    | _ => none

lemma deliveredMessages_append (es fs : List (MsgEvent τ π)) :
    deliveredMessages (es ++ fs) = deliveredMessages es ++ deliveredMessages fs :=
  filterMap_append

lemma receivedMessages_append (es fs : List (MsgEvent τ π)) :
    receivedMessages (es ++ fs) = receivedMessages es ++ receivedMessages fs :=
  filterMap_append

lemma receivedMessages_received (self : τ) (r : Received π) :
    receivedMessages [.received self r] = r.message.toList := by
  cases hr : r.message <;> simp [receivedMessages, hr]

lemma deliveries_eq (woken : List (IpcThread τ π)) : deliveries woken =
      (woken.filterMap IpcThread.message).map fun m => .delivered m.1 m.2 := by
  rw [map_filterMap]
  rfl

lemma deliveredMessages_deliveries (woken : List (IpcThread τ π)) :
    deliveredMessages (deliveries woken) = woken.filterMap IpcThread.message := by
  rw [deliveries_eq, deliveredMessages, filterMap_map]
  exact filterMap_some

lemma receivedMessages_deliveries (woken : List (IpcThread τ π)) :
    receivedMessages (deliveries woken) = [] := by
  rw [deliveries_eq, receivedMessages, filterMap_map]
  exact filterMap_none _

section
variable [DecidableEq π] {woken : List (IpcThread τ π)}

lemma portEvents_deliveries
    (h : ∀ m ∈ woken.filterMap IpcThread.message, m.1.msghRemotePort = port) :
    portEvents port (deliveries woken) = deliverEvents woken := by
  rw [deliveries_eq, portEvents, filterMap_map, deliverEvents, ← filterMap_eq_map]
  refine filterMap_congr fun m hm => ?_
  simp [MsgEvent.forPort, h m hm]

lemma portEvents_deliveries_of_ne {other : π} (hne : other ≠ port)
    (h : ∀ m ∈ woken.filterMap IpcThread.message, m.1.msghRemotePort = port) :
    portEvents other (deliveries woken) = [] := by
  rw [deliveries_eq, portEvents, filterMap_map, filterMap_eq_nil_iff]
  intro m hm
  simp [MsgEvent.forPort, h m hm, hne.symm]

end

/-! ## The ports together -/

namespace IpcPorts

variable [DecidableEq π]

def queued (s : IpcPorts τ π σ) (port : π) : List (IpcKmsg π) :=
  (s.mqueue (s.queueOf port)).imqMessages.filter (·.msghRemotePort = port)

def inHand (s : IpcPorts τ π σ) : List (IpcKmsg π × Word) := s.awake.filterMap IpcThread.message

structure Wf (s : IpcPorts τ π σ) : Prop where
  queue : ∀ mq, (s.mqueue mq).Wf
  placed : ∀ mq, ∀ k ∈ (s.mqueue mq).imqMessages, s.queueOf k.msghRemotePort = mq

/-- The events from `s` to `s'` are those of one queue for each port, and a delivered message is
with one thread. -/
structure Sound (s : IpcPorts τ π σ) (es : List (MsgEvent τ π)) (s' : IpcPorts τ π σ) : Prop where
  wf : s'.Wf
  fifo : ∀ port, Fifo (s.queued port) (s.ipSeqno port) (portEvents port es) (s'.queued port)
    (s'.ipSeqno port)
  hands : (deliveredMessages es ++ s.inHand).Perm (receivedMessages es ++ s'.inHand)

abbrev Steps (s : IpcPorts τ π σ) (out : IpcPorts τ π σ × List (MsgEvent τ π)) : Prop :=
  Sound s out.2 out.1

variable {s s' s'' : IpcPorts τ π σ} {es fs : List (MsgEvent τ π)}

lemma Sound.trans (h : Sound s es s') (h' : Sound s' fs s'') : Sound s (es ++ fs) s'' where
  wf := h'.wf
  fifo port := by
    rw [portEvents, filterMap_append]
    exact (h.fifo port).append (h'.fifo port)
  hands := by
    rw [deliveredMessages_append, receivedMessages_append, append_assoc, append_assoc]
    calc deliveredMessages es ++ (deliveredMessages fs ++ s.inHand)
        ~ deliveredMessages fs ++ (deliveredMessages es ++ s.inHand) := perm_append_comm_assoc _ _ _
      _ ~ deliveredMessages fs ++ (receivedMessages es ++ s'.inHand) := h.hands.append_left _
      _ ~ receivedMessages es ++ (deliveredMessages fs ++ s'.inHand) := perm_append_comm_assoc _ _ _
      _ ~ receivedMessages es ++ (receivedMessages fs ++ s''.inHand) := h'.hands.append_left _

def Silent (es : List (MsgEvent τ π)) : Prop :=
  (∀ port, portEvents port es = []) ∧ deliveredMessages es = [] ∧ receivedMessages es = []

omit [DecidableEq π] in
lemma queueOf_congr (h : s'.ipPset = s.ipPset) (port : π) : s'.queueOf port = s.queueOf port := by
  rw [queueOf, queueOf, h]

omit [DecidableEq π] in
lemma Wf.congr (h : s.Wf) (hmq : s'.mqueue = s.mqueue) (hset : s'.ipPset = s.ipPset) : s'.Wf where
  queue mq := hmq ▸ h.queue mq
  placed mq k hk := by
    rw [queueOf_congr hset]
    exact h.placed mq k (hmq ▸ hk)

lemma queued_congr (hmq : s'.mqueue = s.mqueue) (hset : s'.ipPset = s.ipPset) (port : π) :
    s'.queued port = s.queued port := by
  rw [queued, queued, hmq, queueOf_congr hset]

section
variable (h : s.Wf) (hmq : s'.mqueue = s.mqueue) (hset : s'.ipPset = s.ipPset)
  (hseqno : s'.ipSeqno = s.ipSeqno) (hawake : s'.awake = s.awake)
include h hmq hset hseqno hawake

lemma Wf.frame (hes : Silent es) : Sound s es s' where
  wf := h.congr hmq hset
  fifo port := by
    rw [hes.1, queued_congr hmq hset, hseqno]
    exact .nil _ _
  hands := by
    rw [hes.2.1, hes.2.2, inHand, inHand, hawake]

lemma Wf.quiet : Sound s [] s' := h.frame hmq hset hseqno hawake ⟨fun _ => rfl, rfl, rfl⟩

end

lemma Sound.before (h : Sound s' es s'') (hmq : s'.mqueue = s.mqueue)
    (hset : s'.ipPset = s.ipPset) (hseqno : s'.ipSeqno = s.ipSeqno)
    (hawake : s'.awake = s.awake) : Sound s es s'' where
  wf := h.wf
  fifo port := by
    rw [← queued_congr hmq hset, ← hseqno]
    exact h.fifo port
  hands := by
    rw [inHand, ← hawake]
    exact h.hands

/-! ## One queue changed -/

section
variable [DecidableEq σ] {mq : MqueueOf π σ} {q : IpcMqueue τ π}

lemma Wf.update (h : s.Wf) (hmq : s'.mqueue = Function.update s.mqueue mq q)
    (hset : s'.ipPset = s.ipPset) (hq : q.Wf)
    (hplaced : ∀ k ∈ q.imqMessages, s.queueOf k.msghRemotePort = mq) : s'.Wf where
  queue mq' := by
    rw [hmq]
    by_cases he : mq' = mq
    · subst he
      rwa [update_self]
    · rw [update_of_ne he]
      exact h.queue mq'
  placed mq' k hk := by
    rw [hmq] at hk
    rw [queueOf_congr hset]
    by_cases he : mq' = mq
    · subst he
      rw [update_self] at hk
      exact hplaced k hk
    · rw [update_of_ne he] at hk
      exact h.placed mq' k hk

section
variable (hmq : s'.mqueue = Function.update s.mqueue mq q) (hset : s'.ipPset = s.ipPset)
include hmq hset

lemma queued_update_self (hport : s.queueOf port = mq) :
    s'.queued port = q.imqMessages.filter (·.msghRemotePort = port) := by
  rw [queued, queueOf_congr hset, hport, hmq, update_self]

lemma queued_update_of_ne (hport : s.queueOf port ≠ mq) : s'.queued port = s.queued port := by
  rw [queued, queueOf_congr hset, hmq, update_of_ne hport, queued]

lemma queued_update_threads (hq : q.imqMessages = (s.mqueue mq).imqMessages) (port : π) :
    s'.queued port = s.queued port := by
  by_cases hport : s.queueOf port = mq
  · rw [queued_update_self hmq hset hport, hq, ← hport, queued]
  · exact queued_update_of_ne hmq hset hport

end

lemma Wf.sendQueue (h : s.Wf) (mem : τ → Memory) (kmsg : IpcKmsg π) : Sound s
      (.sent kmsg .accepted :: deliveries (ipcMqueueSend mem
        (s.mqueue (s.queueOf kmsg.msghRemotePort)) s.ipSeqno kmsg).woken)
      (s.withQueue (s.queueOf kmsg.msghRemotePort)
        (ipcMqueueSend mem (s.mqueue (s.queueOf kmsg.msghRemotePort)) s.ipSeqno kmsg)) := by
  generalize hplace : s.queueOf kmsg.msghRemotePort = mq
  obtain ⟨hwf, hcase⟩ := deliver_spec mem (h.queue mq) s.ipSeqno kmsg
  change (ipcMqueueSend mem _ _ _).mqueue.Wf at hwf
  generalize hd : ipcMqueueSend mem (s.mqueue mq) s.ipSeqno kmsg = d at hwf ⊢
  rw [show deliver (sendOffer mem) _ s.ipSeqno kmsg = d from hd] at hcase
  have hports : ∀ m ∈ d.woken.filterMap IpcThread.message,
      m.1.msghRemotePort = kmsg.msghRemotePort := by
    rcases hcase with ⟨-, -, -, hmsg⟩ | ⟨-, -, hmsg⟩ <;> simp [hmsg]
  have hmessages : d.mqueue.imqMessages = (s.mqueue mq).imqMessages ∨
      d.mqueue.imqMessages = (s.mqueue mq).imqMessages ++ [kmsg] := by
    rcases hcase with ⟨hempty, hnone, -, -⟩ | ⟨hq, -, -⟩
    · exact .inl (hnone.trans hempty.symm)
    · exact .inr (by rw [hq])
  have hmq : (s.withQueue mq d).mqueue = Function.update s.mqueue mq d.mqueue := rfl
  refine ⟨h.update hmq rfl hwf ?_, fun port => ?_, ?_⟩
  · intro k hk
    rcases hmessages with he | he <;> rw [he] at hk
    · exact h.placed _ k hk
    rcases mem_append.1 hk with hk | hk
    · exact h.placed _ k hk
    · rw [mem_singleton.1 hk, hplace]
  · by_cases hport : port = kmsg.msghRemotePort
    · subst hport
      have hevents : portEvents kmsg.msghRemotePort (.sent kmsg .accepted :: deliveries d.woken) =
          .accept kmsg :: deliverEvents d.woken := by
        rw [← portEvents_deliveries hports]
        simp [portEvents, MsgEvent.forPort]
      rw [hevents, queued_update_self hmq rfl hplace]
      refine .accept kmsg ?_
      rcases hcase with ⟨hempty, hnone, hseqno, hmsg⟩ | ⟨hq, hseqno, hmsg⟩
      · rw [queued, hplace, hempty, hnone, deliverEvents, hmsg]
        refine .deliver kmsg ?_
        simpa [withQueue, setQueue, hseqno] using Fifo.nil _ _
      · rw [queued, hplace, hq, deliverEvents, hmsg]
        simpa [withQueue, setQueue, hseqno] using Fifo.nil _ _
    have hevents : portEvents port (.sent kmsg .accepted :: deliveries d.woken) = [] := by
      rw [← portEvents_deliveries_of_ne hport hports]
      simp [portEvents, MsgEvent.forPort, Ne.symm hport]
    have hseqno : d.seqno port = s.ipSeqno port := by
      rcases hcase with ⟨-, -, hseqno, -⟩ | ⟨-, hseqno, -⟩
      · rw [hseqno, update_of_ne hport]
      · rw [hseqno]
    have hqueued : (s.withQueue mq d).queued port = s.queued port := by
      by_cases hsame : s.queueOf port = mq
      · rw [queued_update_self hmq rfl hsame, queued, hsame]
        rcases hmessages with he | he <;> simp [he, Ne.symm hport]
      · exact queued_update_of_ne hmq rfl hsame
    rw [hevents, hqueued, show (s.withQueue _ d).ipSeqno port = _ from hseqno]
    exact .nil _ _
  · have hsent : deliveredMessages (.sent kmsg .accepted :: deliveries d.woken) =
        d.woken.filterMap IpcThread.message := deliveredMessages_deliveries d.woken
    have hreceived : receivedMessages (.sent kmsg .accepted :: deliveries d.woken) = [] :=
      receivedMessages_deliveries d.woken
    rw [hsent, hreceived, inHand, inHand, withQueue, filterMap_append]
    exact perm_append_comm

/-! ## Sends -/

omit [DecidableEq σ] in
lemma Wf.notAccepted (h : s.Wf) (kmsg : IpcKmsg π) {how : Sent} (hhow : how ≠ .accepted)
    (hmq : s'.mqueue = s.mqueue) (hset : s'.ipPset = s.ipPset) (hseqno : s'.ipSeqno = s.ipSeqno)
    (hawake : s'.awake = s.awake) : Sound s [.sent kmsg how] s' := by
  refine h.frame hmq hset hseqno hawake ?_
  cases how with
  | accepted => exact absurd rfl hhow
  | _ => exact ⟨fun _ => rfl, rfl, rfl⟩

section
variable (h : s.Wf) (mem)
include h mem

lemma Wf.sendAccepted (kmsg : IpcKmsg π) : s.Steps (s.sendAccepted mem kmsg) := by
  unfold IpcPorts.sendAccepted
  split
  · exact h.notAccepted kmsg (by decide) rfl rfl rfl rfl
  · have hs : (s.countMessage kmsg.msghRemotePort).Wf := h.congr rfl rfl
    exact (hs.sendQueue mem kmsg).before rfl rfl rfl rfl

lemma Wf.sendLoop (sender : Sender τ π) : s.Steps (s.sendLoop mem sender) := by
  unfold IpcPorts.sendLoop
  dsimp only
  split
  · exact h.notAccepted _ (by decide) rfl rfl rfl rfl
  split
  · exact h.sendAccepted mem sender.kmsg
  split
  · exact h.notAccepted _ (by decide) rfl rfl rfl rfl
  · exact h.quiet rfl rfl rfl rfl

lemma Wf.send (sender : Sender τ π) : s.Steps (s.send mem sender) := by
  unfold IpcPorts.send
  split
  · exact h.notAccepted _ (by decide) rfl rfl rfl rfl
  · exact h.sendLoop mem sender

lemma Wf.sendAgain (i : ℕ) : s.Steps (s.sendAgain mem i) := by
  unfold IpcPorts.sendAgain
  split
  · exact h.quiet rfl rfl rfl rfl
  · have hs : (s.startResending i).Wf := h.congr rfl rfl
    exact (hs.sendLoop mem _).before rfl rfl rfl rfl

lemma Wf.sendWoken (port : π) (i : ℕ) (why : WaitResult) :
    s.Steps (s.sendWoken mem port i why) := by
  unfold IpcPorts.sendWoken
  split
  · exact h.quiet rfl rfl rfl rfl
  have hs : (s.unblockSender port i).Wf := h.congr rfl rfl
  cases why with
  | timedOut => exact (hs.sendLoop mem _).before rfl rfl rfl rfl
  | interrupted | shouldTerminate => exact h.notAccepted _ (by decide) rfl rfl rfl rfl

end

/-! ## Moves -/

lemma Wf.changed (h : s.Wf) (mq : MqueueOf π σ) (mr : MachMsgReturn)
    (hmr : mr = .rcvPortChanged ∨ mr = .rcvPortDied) : Sound s [] (s.changed mq mr) where
  wf := h.update (q := (ipcMqueueChanged (s.mqueue mq) mr).1) rfl rfl
    ⟨.inl rfl, by simp [ipcMqueueChanged, AllBlocked]⟩ (h.placed mq)
  fifo port := by
    have hmq : (s.changed mq mr).mqueue =
        Function.update s.mqueue mq (ipcMqueueChanged (s.mqueue mq) mr).1 := rfl
    rw [queued_update_threads hmq rfl rfl]
    exact .nil _ _
  hands := by
    have hnone : (ipcMqueueChanged (s.mqueue mq) mr).2.filterMap IpcThread.message = [] := by
      rw [ipcMqueueChanged, filterMap_map, filterMap_eq_nil_iff]
      intro th _
      rcases hmr with rfl | rfl <;> rfl
    have hawake : (s.changed mq mr).awake = s.awake ++ (ipcMqueueChanged (s.mqueue mq) mr).2 := rfl
    rw [inHand, inHand, hawake, filterMap_append, hnone, append_nil]
    exact List.Perm.refl _

lemma moveMessages_ipPset (mem : τ → Memory) (port : π) (pset : Option σ)
    (dest source : MqueueOf π σ) :
    (s.moveMessages mem port pset dest source).1.ipPset = Function.update s.ipPset port pset := rfl

section
variable (h : s.Wf) (mem)
include h mem

lemma Wf.moveMessages (port : π) (pset : Option σ) {dest source : MqueueOf π σ}
    (hsource : s.queueOf port = source) (hne : dest ≠ source)
    (hdest : (s.moveMessages mem port pset dest source).1.queueOf port = dest) :
    s.Steps (s.moveMessages mem port pset dest source) := by
  obtain ⟨left, woken, hwf, hleft, hwoken, hsub, hkept, hports, hfifo⟩ :=
    deliverRun_spec mem port ((s.mqueue source).imqMessages.filter (·.msghRemotePort = port))
      (by simp) (h.queue dest) s.ipSeqno []
  generalize hd : deliverRun (sendOffer mem)
    ((s.mqueue source).imqMessages.filter (·.msghRemotePort = port))
    ⟨s.mqueue dest, s.ipSeqno, []⟩ = d at *
  have hrun : ipcMqueueMove mem (s.mqueue dest) (s.mqueue source) s.ipSeqno port =
      (⟨(s.mqueue source).imqMessages.filter (·.msghRemotePort ≠ port),
        (s.mqueue source).imqThreads⟩, d) := by
    rw [← hd]
    simp only [ipcMqueueMove, moveLoop_eq]
  have hset := s.moveMessages_ipPset mem port pset dest source
  generalize hmove : s.moveMessages mem port pset dest source = out at hdest hset ⊢
  rw [IpcPorts.moveMessages, hrun] at hmove
  obtain ⟨s', events⟩ := out
  obtain ⟨hs', hevents⟩ := Prod.mk.inj hmove
  have hevents : events = deliveries woken := by
    rw [← hevents, hwoken, nil_append]
  have hseqno : s'.ipSeqno = d.seqno := hs' ▸ rfl
  have hawake : s'.awake = s.awake ++ woken := by
    rw [← nil_append woken, ← hwoken, ← hs']
    rfl
  have hmq : s'.mqueue = Function.update (Function.update s.mqueue dest d.mqueue) source
      ⟨(s.mqueue source).imqMessages.filter (·.msghRemotePort ≠ port),
        (s.mqueue source).imqThreads⟩ := hs' ▸ rfl
  have hothers : ∀ other, other ≠ port → s'.queueOf other = s.queueOf other := by
    intro other hother
    rw [queueOf, queueOf, hset, update_of_ne hother]
  rw [hevents]
  clear hs' hmove
  have hsourceWf := h.queue source
  have hmqSource : s'.mqueue source = ⟨(s.mqueue source).imqMessages.filter
      (·.msghRemotePort ≠ port), (s.mqueue source).imqThreads⟩ := by
    rw [hmq, update_self]
  have hmqDest : s'.mqueue dest = d.mqueue := by
    rw [hmq, update_of_ne hne, update_self]
  have hmqOther : ∀ mq, mq ≠ source → mq ≠ dest → s'.mqueue mq = s.mqueue mq := by
    intro mq h1 h2
    rw [hmq, update_of_ne h1, update_of_ne h2]
  -- a message in another queue belongs to another port
  have hforeign : ∀ mq, mq ≠ source → ∀ k ∈ (s.mqueue mq).imqMessages, k.msghRemotePort ≠ port := by
    rintro mq hother k hk rfl
    exact hother ((h.placed mq k hk).symm.trans hsource)
  have hleftPort : ∀ k ∈ left, k.msghRemotePort = port := by
    intro k hk
    simpa using (mem_filter.1 (hsub k hk)).2
  refine ⟨⟨fun mq => ?_, fun mq k hk => ?_⟩, fun p => ?_, ?_⟩
  · by_cases h1 : mq = source
    · subst h1
      rw [hmqSource]
      exact ⟨hsourceWf.idle.imp_right fun he => by simp [he], hsourceWf.blocked⟩
    by_cases h2 : mq = dest
    · subst h2
      rwa [hmqDest]
    · rw [hmqOther mq h1 h2]
      exact h.queue mq
  · by_cases h1 : mq = source
    · subst h1
      rw [hmqSource] at hk
      obtain ⟨hk, hother⟩ := mem_filter.1 hk
      rw [hothers _ (by simpa using hother)]
      exact h.placed _ k hk
    by_cases h2 : mq = dest
    · subst h2
      rw [hmqDest, hleft, mem_append] at hk
      rcases hk with hk | hk
      · rw [hothers _ (hforeign _ h1 k hk)]
        exact h.placed _ k hk
      · rw [hleftPort k hk, hdest]
    rw [hmqOther mq h1 h2] at hk
    rw [hothers _ (hforeign mq h1 k hk)]
    exact h.placed mq k hk
  · by_cases hp : p = port
    · subst hp
      have hqueued : s'.queued p = left := by
        rw [queued, hdest, hmqDest, hleft, filter_append,
          filter_eq_nil_iff.2 fun k hk => by simpa using hforeign dest hne k hk,
          filter_eq_self.2 fun k hk => by simpa using hleftPort k hk, nil_append]
      rw [portEvents_deliveries hports, hqueued, hseqno, queued, hsource]
      exact hfifo
    have hqueued : s'.queued p = s.queued p := by
      rw [queued, queued, hothers p hp]
      by_cases h1 : s.queueOf p = source
      · rw [h1, hmqSource]
        rw [filter_filter]
        refine filter_congr fun k _ => ?_
        by_cases hk : k.msghRemotePort = p <;> simp [hk, hp]
      by_cases h2 : s.queueOf p = dest
      · have hnone : left.filter (·.msghRemotePort = p) = [] :=
          filter_eq_nil_iff.2 fun k hk => by simpa [hleftPort k hk] using Ne.symm hp
        rw [h2, hmqDest, hleft, filter_append, hnone, append_nil]
      · rw [hmqOther _ h1 h2]
    rw [portEvents_deliveries_of_ne hp hports, hqueued, hseqno, hkept p hp]
    exact .nil _ _
  · rw [deliveredMessages_deliveries, receivedMessages_deliveries, inHand, inHand, hawake,
      filterMap_append]
    exact perm_append_comm

lemma Wf.psetRemove {pset : σ} (hset : s.ipPset port = some pset) :
    s.Steps (s.ipcPsetRemove mem pset port) := by
  have hsource : s.queueOf port = .pset pset := by rw [queueOf, hset]
  exact h.moveMessages mem port none hsource (by simp)
    (by rw [queueOf, moveMessages_ipPset, update_self])

lemma Wf.psetAdd (pset : σ) (hset : s.ipPset port = none) :
    s.Steps (s.ipcPsetAdd mem pset port) := by
  have hsource : s.queueOf port = .port port := by rw [queueOf, hset]
  have hmoved : Sound s (s.moveMessages mem port (some pset) (.pset pset) (.port port)).2 _ :=
    h.moveMessages mem port (some pset) hsource (by simp)
      (by rw [queueOf, moveMessages_ipPset, update_self])
  have hadded := hmoved.trans (hmoved.wf.changed (.port port) .rcvPortChanged (.inl rfl))
  rwa [append_nil] at hadded

lemma Wf.psetMove (port : π) (nset : Option σ) :
    Sound s (s.ipcPsetMove mem port nset).2.2 (s.ipcPsetMove mem port nset).2.1 := by
  unfold ipcPsetMove
  split
  · exact h.quiet rfl rfl rfl rfl
  · next nset hnone => exact h.psetAdd mem nset hnone
  · next oset hsome => exact h.psetRemove mem hsome
  · next oset nset hsome =>
    split
    · exact h.quiet rfl rfl rfl rfl
    have hremoved := h.psetRemove mem hsome
    have hnone : (s.ipcPsetRemove mem oset port).1.ipPset port = none := by
      rw [ipcPsetRemove, moveMessages_ipPset, update_self]
    exact hremoved.trans (hremoved.wf.psetAdd mem nset hnone)

end

lemma Wf.psetDestroy (h : s.Wf) (pset : σ) : s.Steps (s.ipcPsetDestroy pset) := by
  have hchanged := h.changed (.pset pset) .rcvPortDied (.inr rfl)
  exact hchanged.trans (hchanged.wf.quiet rfl rfl rfl rfl)

lemma Wf.leaveDeadSet (h : s.Wf) (mem : τ → Memory) (port : π) :
    s.Steps (s.leaveDeadSet mem port) := by
  unfold IpcPorts.leaveDeadSet
  split
  · exact h.quiet rfl rfl rfl rfl
  · next pset hsome =>
    split
    · exact h.quiet rfl rfl rfl rfl
    · exact h.psetRemove mem hsome

lemma Wf.setSeqno (h : s.Wf) (mem : τ → Memory) (port : π) (seqno : Word) :
    s.Steps (s.ipcPortSetSeqno mem port seqno) := by
  have hleft := h.leaveDeadSet mem port
  refine hleft.trans ⟨hleft.wf.congr rfl rfl, fun p => ?_, List.Perm.refl _⟩
  have hqueued : (s.ipcPortSetSeqno mem port seqno).1.queued p =
      (s.leaveDeadSet mem port).1.queued p := rfl
  have hseqno : (s.ipcPortSetSeqno mem port seqno).1.ipSeqno =
      Function.update (s.leaveDeadSet mem port).1.ipSeqno port seqno := rfl
  rw [hqueued, hseqno]
  by_cases hp : p = port
  · subst hp
    simpa [portEvents, MsgEvent.forPort] using Fifo.renumber seqno (.nil _ _)
  · simpa [portEvents, MsgEvent.forPort, Ne.symm hp, update_of_ne hp] using Fifo.nil _ _

/-! ## Receives -/

omit [DecidableEq σ] in
lemma Wf.returnsNothing (h : s.Wf) (self : τ) {r : Received π} (hr : r.message = none) :
    Sound s [.received self r] (s.returns self r).1 :=
  h.frame rfl rfl rfl rfl ⟨fun _ => rfl, rfl, by simp [receivedMessages, hr]⟩

omit [DecidableEq σ] in
lemma portEvents_received (port : π) (e : MsgEvent τ π) (self : τ) (r : Received π) :
    portEvents port [e, .received self r] = portEvents port [e] := by
  cases h : e.forPort port <;> simp [portEvents, h, MsgEvent.forPort.eq_4]

lemma setQueue_self (mq : MqueueOf π σ) : s.setQueue mq (s.mqueue mq) s.ipSeqno = s := by
  rw [setQueue, update_eq_self]

lemma Wf.receiveFrom (h : s.Wf) (mem : τ → Memory) (mq : MqueueOf π σ) (call : ReceiveCall τ π) :
    s.Steps (s.receiveFrom mem mq call) := by
  have hq := h.queue mq
  cases hmsgs : (s.mqueue mq).imqMessages with
  | nil =>
    by_cases hwaits : call.Waits
    · -- the thread joins the receivers of an empty queue
      have hstep : s.receiveFrom mem mq call =
          (s.setQueue mq ⟨[], (s.mqueue mq).imqThreads ++ [call.block]⟩ s.ipSeqno, []) := by
        simp only [IpcPorts.receiveFrom, ipcMqueueReceive, hmsgs, if_pos hwaits]
      have hmq : (s.setQueue mq ⟨[], (s.mqueue mq).imqThreads ++ [call.block]⟩ s.ipSeqno).mqueue =
          Function.update s.mqueue mq ⟨[], (s.mqueue mq).imqThreads ++ [call.block]⟩ := rfl
      rw [hstep]
      refine ⟨h.update hmq rfl ⟨.inr rfl, ?_⟩ (by simp), fun port => ?_, List.Perm.refl _⟩
      · intro th hth
        rcases mem_append.1 hth with hth | hth
        · exact hq.blocked th hth
        · exact ⟨call, mem_singleton.1 hth⟩
      · rw [queued_update_threads hmq rfl hmsgs.symm]
        exact .nil _ _
    have hstep : s.receiveFrom mem mq call =
        s.returns call.self (.returned .rcvTimedOut .unset call.list) := by
      simp only [IpcPorts.receiveFrom, ipcMqueueReceive, hmsgs, if_neg hwaits, setQueue_self]
      rfl
    rw [hstep]
    exact h.returnsNothing call.self rfl
  | cons k ks =>
    cases hfirst : receiveFirst mem call k with
    | leave mr out list =>
      have hnone := receiveFirst_leave_message hfirst mr
      have hstep : s.receiveFrom mem mq call = s.returns call.self (.returned mr out list) := by
        simp only [IpcPorts.receiveFrom, ipcMqueueReceive, hmsgs, hfirst, setQueue_self, hnone]
        rfl
      rw [hstep]
      exact h.returnsNothing call.self hnone
    | take state list =>
      -- the first message of its port leaves the queue with the next number
      have hport : s.queueOf k.msghRemotePort = mq := h.placed mq k (by simp [hmsgs])
      have hstep : s.receiveFrom mem mq call =
          (((s.setQueue mq ⟨ks, (s.mqueue mq).imqThreads⟩ (Function.update s.ipSeqno
              k.msghRemotePort (s.ipSeqno k.msghRemotePort + 1))).returns call.self
              (.returned state (.kmsg (some k) (s.ipSeqno k.msghRemotePort)) list)).1,
            [.delivered k (s.ipSeqno k.msghRemotePort), .received call.self
              (.returned state (.kmsg (some k) (s.ipSeqno k.msghRemotePort)) list)]) := by
        simp only [IpcPorts.receiveFrom, ipcMqueueReceive, hmsgs, hfirst]
        rfl
      have hmq : (s.receiveFrom mem mq call).1.mqueue =
          Function.update s.mqueue mq ⟨ks, (s.mqueue mq).imqThreads⟩ := by rw [hstep]; rfl
      have hset : (s.receiveFrom mem mq call).1.ipPset = s.ipPset := by rw [hstep]; rfl
      have hseqno : (s.receiveFrom mem mq call).1.ipSeqno = Function.update s.ipSeqno
          k.msghRemotePort (s.ipSeqno k.msghRemotePort + 1) := by rw [hstep]; rfl
      have hthreads : (s.mqueue mq).imqThreads = [] := hq.idle.resolve_right (by simp [hmsgs])
      refine ⟨h.update hmq hset ⟨.inl hthreads, hq.blocked⟩ ?_, fun p => ?_, ?_⟩
      · intro k' hk'
        exact h.placed mq k' (by simp [hmsgs, hk'])
      · by_cases hp : p = k.msghRemotePort
        · subst hp
          rw [queued_update_self hmq hset hport, hseqno, queued, hport, hmsgs, hstep]
          rw [filter_cons_of_pos (by simp), update_self, portEvents_received]
          simpa only [portEvents, MsgEvent.forPort, if_true, filterMap_cons,
            filterMap_nil] using Fifo.deliver k (.nil _ _)
        have hqueued : (s.receiveFrom mem mq call).1.queued p = s.queued p := by
          by_cases hp' : s.queueOf p = mq
          · rw [queued_update_self hmq hset hp', queued, hp', hmsgs]
            simp [Ne.symm hp]
          · exact queued_update_of_ne hmq hset hp'
        rw [hqueued, hseqno, hstep, update_of_ne hp, portEvents_received]
        simpa [portEvents, MsgEvent.forPort, Ne.symm hp] using Fifo.nil _ _
      · rw [hstep]
        exact List.Perm.refl _

lemma Wf.receivePort (h : s.Wf) (mem : τ → Memory) (port : π) (call : ReceiveCall τ π) :
    s.Steps (s.receivePort mem port call) := by
  have hleft := h.leaveDeadSet mem port
  unfold IpcPorts.receivePort
  dsimp only
  split
  · exact hleft
  · exact hleft.trans (hleft.wf.receiveFrom mem (.port port) call)

lemma Wf.receivePset (h : s.Wf) (mem : τ → Memory) (pset : σ) (call : ReceiveCall τ π) :
    s.Steps (s.receivePset mem pset call) := by
  unfold IpcPorts.receivePset
  split
  · exact h.receiveFrom mem (.pset pset) call
  · exact h.quiet rfl rfl rfl rfl

omit [DecidableEq σ] in
lemma Wf.receiveAgain (h : s.Wf) (i : ℕ) : s.Steps (s.receiveAgain i) := by
  unfold IpcPorts.receiveAgain
  split
  · exact h.quiet rfl rfl rfl rfl
  · next th hth =>
    obtain ⟨hi, rfl⟩ := List.getElem?_eq_some_iff.1 hth
    refine ⟨h.congr rfl rfl, fun port => .nil _ _, ?_⟩
    have hperm : s.awake ~ s.awake[i] :: s.awake.eraseIdx i := (getElem_cons_eraseIdx_perm hi).symm
    calc s.inHand ~ (s.awake[i] :: s.awake.eraseIdx i).filterMap IpcThread.message :=
          hperm.filterMap _
      _ = s.awake[i].message.toList ++ (s.awake.eraseIdx i).filterMap IpcThread.message := by
          cases hm : s.awake[i].message <;> simp [hm]
      _ = receivedMessages [.received s.awake[i].self (afterThreadBlock s.awake[i])] ++
            (s.awake.eraseIdx i).filterMap IpcThread.message := by
          rw [receivedMessages_received, IpcThread.message]

lemma Wf.unblockReceiver (h : s.Wf) (mq : MqueueOf π σ) (i : ℕ) :
    Sound s [] (s.unblockReceiver mq i) := by
  have hq := h.queue mq
  have hmq : (s.unblockReceiver mq i).mqueue = Function.update s.mqueue mq
      ⟨(s.mqueue mq).imqMessages, (s.mqueue mq).imqThreads.eraseIdx i⟩ := rfl
  refine ⟨h.update hmq rfl ⟨?_, ?_⟩ (h.placed mq), fun port => ?_, List.Perm.refl _⟩
  · exact hq.idle.imp_left fun he => by simp [he]
  · exact fun th hth => hq.blocked th (mem_of_mem_eraseIdx hth)
  · rw [queued_update_threads hmq rfl rfl]
    exact .nil _ _

lemma Wf.receiveWoken (h : s.Wf) (mem : τ → Memory) (mq : MqueueOf π σ) (i : ℕ) (why : WaitResult) :
    s.Steps (s.receiveWoken mem mq i why) := by
  unfold IpcPorts.receiveWoken
  split
  · exact h.quiet rfl rfl rfl rfl
  have hs := h.unblockReceiver mq i
  cases why with
  | timedOut => exact hs.trans (hs.wf.receiveFrom mem mq _)
  | interrupted | shouldTerminate => exact hs.trans (hs.wf.returnsNothing _ rfl)

omit [DecidableEq σ] in
lemma Wf.receiveDone (h : s.Wf) (i : ℕ) : s.Steps (s.receiveDone i) := by
  unfold IpcPorts.receiveDone
  split
  · exact h.quiet rfl rfl rfl rfl
  dsimp only
  split
  · split
    · exact h.quiet rfl rfl rfl rfl
    · split <;> exact h.quiet rfl rfl rfl rfl
  · exact h.quiet rfl rfl rfl rfl

lemma Wf.step (h : s.Wf) (op : MqueueOp τ π σ) : s.Steps (s.step op) := by
  cases op with
  | send mem sender => exact h.send mem sender
  | sendAgain mem i => exact h.sendAgain mem i
  | sendWoken mem port i why => exact h.sendWoken mem port i why
  | receivePort mem port call => exact h.receivePort mem port call
  | receivePset mem pset call => exact h.receivePset mem pset call
  | receiveAgain i => exact h.receiveAgain i
  | receiveWoken mem mq i why => exact h.receiveWoken mem mq i why
  | receiveDone i => exact h.receiveDone i
  | psetAdd mem pset port =>
    rw [IpcPorts.step]
    split
    · next hset => exact h.psetAdd mem pset hset
    · exact h.quiet rfl rfl rfl rfl
  | psetRemove mem pset port =>
    rw [IpcPorts.step]
    split
    · next hset => exact h.psetRemove mem hset
    · exact h.quiet rfl rfl rfl rfl
  | psetMove mem port nset => exact h.psetMove mem port nset
  | psetDestroy pset => exact h.psetDestroy pset
  | setSeqno mem port seqno => exact h.setSeqno mem port seqno

lemma Wf.run (h : s.Wf) (ops : List (MqueueOp τ π σ)) : Sound s (run ops s).2 (run ops s).1 := by
  induction ops generalizing s with
  | nil => exact h.quiet rfl rfl rfl rfl
  | cons op ops ih =>
    have hstep := h.step op
    exact hstep.trans (ih hstep.wf)

end

/-- Before anything is sent or received; the sets may already have members. -/
def Idle (s : IpcPorts τ π σ) : Prop := (∀ mq, s.mqueue mq = ipcMqueueInit) ∧ s.awake = []

omit [DecidableEq π] in
lemma Idle.wf (h : s.Idle) : s.Wf where
  queue mq := by
    rw [h.1 mq]
    exact ⟨.inl rfl, by simp [ipcMqueueInit, AllBlocked]⟩
  placed mq k hk := by
    rw [h.1 mq] at hk
    simp [ipcMqueueInit] at hk

def Consecutive (numbers : List Word) : Prop :=
  ∃ first : Word, numbers = (List.range numbers.length).map fun i : ℕ => first + (i : Word)

end IpcPorts

open IpcPorts QueueEvent

/-- In every run each port delivers the messages it accepted in order, those not delivered yet wait
in the one queue that serves the port, each delivered one is returned by one receive or held by one
thread about to return it, and sequence numbers are consecutive where nobody sets them. -/
theorem mqueueRun_fifo [DecidableEq π] [DecidableEq σ] {s : IpcPorts τ π σ} (hs : s.Idle)
    (ops : List (MqueueOp τ π σ)) :
    (∀ port, accepted (portEvents port (run ops s).2) =
      (delivered (portEvents port (run ops s).2)).map Prod.fst ++ (run ops s).1.queued port) ∧
    deliveredMessages (run ops s).2 ~ receivedMessages (run ops s).2 ++ (run ops s).1.inHand ∧
    ∀ port before during after, (run ops s).2 = before ++ during ++ after →
      (∀ seqno, .seqnoSet port seqno ∉ during) →
      Consecutive ((delivered (portEvents port during)).map Prod.snd) := by
  have hrun := hs.wf.run ops
  refine ⟨fun port => ?_, ?_, ?_⟩
  · have hnone : s.queued port = [] := by simp [queued, hs.1, ipcMqueueInit]
    have hconserved := (hrun.fifo port).conserved
    rwa [hnone, nil_append] at hconserved
  · have hnone : s.inHand = [] := by simp [inHand, hs.2]
    have hhands := hrun.hands
    rwa [hnone, append_nil] at hhands
  intro port before during after hlog hset
  have hfifo := hrun.fifo port
  rw [hlog, portEvents, filterMap_append, filterMap_append] at hfifo
  obtain ⟨_, _, hfront, -⟩ := hfifo.split
  obtain ⟨q, n, -, hduring⟩ := hfront.split
  have hnumbered := hduring.numbered (by
    intro seqno hmem
    obtain ⟨e, he, hport⟩ := mem_filterMap.1 hmem
    exact hset seqno (forPort_eq_renumber hport ▸ he))
  refine ⟨n, ?_⟩
  rw [length_map]
  exact hnumbered

def twoPorts : IpcPorts Unit Bool Unit where
  ipReceiverKernel := fun _ => false
  ipActive := fun _ => true
  ipPset := fun _ => none
  ipSeqno := fun _ => 0
  ipMsgcount := fun _ => 0
  ipQlimit := fun _ => 5
  ipBlocked := fun _ => []
  ipsActive := fun _ => true
  mqueue := fun _ => ipcMqueueInit
  awake := []
  resending := []
  taken := []

/-- Two messages to one port, which joins the set between them, and two receives. -/
def movedBetweenSends : List (MqueueOp Unit Bool Unit) :=
  let mem := fun _ => scatterMemory
  let kmsg n : IpcKmsg Bool := ⟨0, n, true, []⟩
  let call : ReceiveCall Unit Bool := ⟨(), 0, 64, 0, none, none, 0⟩
  [.send mem ⟨(), kmsg 24, 0, 0⟩, .psetMove mem true (some ()), .send mem ⟨(), kmsg 32, 0, 0⟩,
    .receivePset mem () call, .receivePset mem () call]

theorem mqueueRun_fifo_twoPorts : twoPorts.Idle ∧
      receivedMessages (run movedBetweenSends twoPorts).2 =
        [(⟨0, 24, true, []⟩, 0), (⟨0, 32, true, []⟩, 1)] ∧
      accepted (portEvents true (run movedBetweenSends twoPorts).2) =
        (delivered (portEvents true (run movedBetweenSends twoPorts).2)).map Prod.fst ++
          (run movedBetweenSends twoPorts).1.queued true :=
  have hidle : twoPorts.Idle := ⟨fun _ => rfl, rfl⟩
  ⟨hidle, by decide +kernel, (mqueueRun_fifo hidle movedBetweenSends).1 true⟩

end Rhapsody.Ipc
