import Rhapsody.Ipc.Mqueue

/-! Ports, port sets and the threads that send to and receive from them (`ipc/ipc_mqueue.c`,
`ipc/ipc_pset.c`). A step is what one thread does between taking the first lock and dropping the
last; `ipc_mqueue_send` and `ipc_mqueue_copyin` lock the queue before they unlock the port. -/

namespace Rhapsody.Ipc

open Function

variable {τ π σ : Type*}

/-- `&port->ip_messages` or `&pset->ips_messages`. -/
inductive MqueueOf (π σ : Type*) where
  | port (port : π)
  | pset (pset : σ)
  deriving DecidableEq

structure Sender (τ π : Type*) where
  self : τ
  kmsg : IpcKmsg π
  option : Word
  timeout : Word
  deriving DecidableEq

/-- How a send ended. A message for a dead port or of a circular loop is destroyed and counts as
sent. -/
inductive Sent where
  | byKernel
  | destroyed
  | accepted
  | timedOut
  | interrupted
  deriving DecidableEq

/-- `ith_wait_result` of a thread set going by something else than a message. -/
inductive WaitResult where
  | interrupted
  | shouldTerminate
  | timedOut
  deriving DecidableEq

structure IpcPorts (τ π σ : Type*) where
  /-- `ip_receiver == ipc_space_kernel` -/
  ipReceiverKernel : π → Bool
  ipActive : π → Bool
  ipPset : π → Option σ
  ipSeqno : π → Word
  ipMsgcount : π → Word
  ipQlimit : π → Word
  ipBlocked : π → List (Sender τ π)
  ipsActive : σ → Bool
  mqueue : MqueueOf π σ → IpcMqueue τ π
  /-- Receivers set going that have not come to `after_thread_block` yet. -/
  awake : List (IpcThread τ π)
  /-- Senders set going by a receiver. -/
  resending : List (Sender τ π)
  /-- The ports of messages whose receivers have dropped the queue's lock and
  not yet taken the port's. -/
  taken : List π

inductive MsgEvent (τ π : Type*) where
  | sent (kmsg : IpcKmsg π) (how : Sent)
  | delivered (kmsg : IpcKmsg π) (seqno : Word)
  | received (self : τ) (r : Received π)
  | seqnoSet (port : π) (seqno : Word)
  deriving DecidableEq

def Received.message : Received π → Option (IpcKmsg π × Word)
  | .returned _ (.kmsg (some kmsg) seqno) _ => some (kmsg, seqno)
  | _ => none

def IpcThread.message (th : IpcThread τ π) : Option (IpcKmsg π × Word) :=
  (afterThreadBlock th).message

def IpcThread.call (th : IpcThread τ π) (timeout : Word) : ReceiveCall τ π :=
  ⟨th.self, th.ithRcvOption, th.ithMsize, timeout, th.ithList, th.ithKmsg, th.ithSeqno⟩

def deliveries (woken : List (IpcThread τ π)) : List (MsgEvent τ π) :=
  woken.filterMap fun th => th.message.map fun (kmsg, seqno) => .delivered kmsg seqno

abbrev Stepped (τ π σ : Type*) := IpcPorts τ π σ × List (MsgEvent τ π)

namespace IpcPorts

section
variable (s : IpcPorts τ π σ)

def queueOf (port : π) : MqueueOf π σ :=
  match s.ipPset port with
  | none => .port port
  | some pset => .pset pset

variable [DecidableEq π] [DecidableEq σ]

def setQueue (mq : MqueueOf π σ) (mqueue : IpcMqueue τ π) (seqno : π → Word) : IpcPorts τ π σ :=
  { s with mqueue := update s.mqueue mq mqueue, ipSeqno := seqno }

def withQueue (mq : MqueueOf π σ) (d : Delivered τ π) : IpcPorts τ π σ :=
  { s.setQueue mq d.mqueue d.seqno with awake := s.awake ++ d.woken }

/-! ## Sending -/

def countMessage (port : π) : IpcPorts τ π σ :=
  { s with ipMsgcount := update s.ipMsgcount port (s.ipMsgcount port + 1) }

def unblockSender (port : π) (i : ℕ) : IpcPorts τ π σ :=
  { s with ipBlocked := update s.ipBlocked port ((s.ipBlocked port).eraseIdx i) }

variable (mem : τ → Memory)

def sendAccepted (kmsg : IpcKmsg π) : Stepped τ π σ :=
  if hasBits kmsg.msghBits machMsghBitsCircular then (s, [.sent kmsg .destroyed])
  else
    let port := kmsg.msghRemotePort
    let s := s.countMessage port
    let d := ipcMqueueSend mem (s.mqueue (s.queueOf port)) s.ipSeqno kmsg
    (s.withQueue (s.queueOf port) d, .sent kmsg .accepted :: deliveries d.woken)

def sendLoop (sender : Sender τ π) : Stepped τ π σ :=
  let kmsg := sender.kmsg
  let port := kmsg.msghRemotePort
  if ¬s.ipActive port then (s, [.sent kmsg .destroyed])
  else if s.ipMsgcount port < s.ipQlimit port ∨ hasBits sender.option machSendAlways ∨
      kmsg.msghBits &&& machMsghBitsRemoteMask = machMsgTypePortSendOnce then
    s.sendAccepted mem kmsg
  else if hasBits sender.option machSendTimeout ∧ sender.timeout = 0 then
    (s, [.sent kmsg .timedOut])
  else
    ({ s with ipBlocked := update s.ipBlocked port (s.ipBlocked port ++ [sender]) }, [])

/-- A call of `ipc_mqueue_send`. What `ipc_kobject_server` replies is sent by a
call of its own. -/
def send (sender : Sender τ π) : Stepped τ π σ :=
  if s.ipReceiverKernel sender.kmsg.msghRemotePort then (s, [.sent sender.kmsg .byKernel])
  else s.sendLoop mem sender

def startResending (i : ℕ) : IpcPorts τ π σ := { s with resending := s.resending.eraseIdx i }

def sendAgain (i : ℕ) : Stepped τ π σ :=
  match s.resending[i]? with
  | none => (s, [])
  | some sender => (s.startResending i).sendLoop mem sender

def sendWoken (port : π) (i : ℕ) (why : WaitResult) : Stepped τ π σ :=
  match (s.ipBlocked port)[i]? with
  | none => (s, [])
  | some sender =>
    match why with
    | .timedOut => (s.unblockSender port i).sendLoop mem { sender with timeout := 0 }
    | _ => (s.unblockSender port i, [.sent sender.kmsg .interrupted])

/-! ## Moving a port -/

variable (mq : MqueueOf π σ)

def changed (mr : MachMsgReturn) : IpcPorts τ π σ :=
  let (mqueue, woken) := ipcMqueueChanged (s.mqueue mq) mr
  { s with mqueue := update s.mqueue mq mqueue, awake := s.awake ++ woken }

variable (port : π)

def moveMessages (pset : Option σ) (dest source : MqueueOf π σ) : Stepped τ π σ :=
  let (kept, d) := ipcMqueueMove mem (s.mqueue dest) (s.mqueue source) s.ipSeqno port
  let s := { s with ipPset := update s.ipPset port pset }
  let s := s.withQueue dest d
  ({ s with mqueue := update s.mqueue source kept }, deliveries d.woken)

def ipcPsetAdd (pset : σ) (port : π) : Stepped τ π σ :=
  let (s, es) := s.moveMessages mem port (some pset) (.pset pset) (.port port)
  (s.changed (.port port) .rcvPortChanged, es)

def ipcPsetRemove (pset : σ) (port : π) : Stepped τ π σ :=
  s.moveMessages mem port none (.port port) (.pset pset)

def ipcPsetMove (nset : Option σ) : Bool × Stepped τ π σ :=
  match s.ipPset port, nset with
  | none, none => (false, s, [])
  | none, some nset => (true, s.ipcPsetAdd mem nset port)
  | some oset, none => (s.ipsActive oset, s.ipcPsetRemove mem oset port)
  | some oset, some nset =>
    if oset = nset then (true, s, [])
    else
      let (s1, es1) := s.ipcPsetRemove mem oset port
      let (s2, es2) := s1.ipcPsetAdd mem nset port
      (true, s2, es1 ++ es2)

def ipcPsetDestroy (pset : σ) : Stepped τ π σ :=
  let s := s.changed (.pset pset) .rcvPortDied
  ({ s with ipsActive := update s.ipsActive pset false }, [])

def leaveDeadSet : Stepped τ π σ :=
  match s.ipPset port with
  | none => (s, [])
  | some pset => if s.ipsActive pset then (s, []) else s.ipcPsetRemove mem pset port

def ipcPortSetSeqno (seqno : Word) : Stepped τ π σ :=
  let (s, es) := s.leaveDeadSet mem port
  ({ s with ipSeqno := update s.ipSeqno port seqno }, es ++ [.seqnoSet port seqno])

/-! ## Receiving -/

/-- A receive returns; the port of its message is locked later. -/
def returns (self : τ) (r : Received π) : Stepped τ π σ :=
  ({ s with taken := s.taken ++ (r.message.map fun m => m.1.msghRemotePort).toList },
    [.received self r])

def receiveFrom (call : ReceiveCall τ π) : Stepped τ π σ :=
  let (mqueue, seqno, r) := ipcMqueueReceive mem (s.mqueue mq) s.ipSeqno call
  let s := s.setQueue mq mqueue seqno
  match r with
  | none => (s, [])
  | some r =>
    let (s, es) := s.returns call.self r
    (s, (r.message.map fun (kmsg, seqno) => .delivered kmsg seqno).toList ++ es)

/-- A receive on a port: `ipc_mqueue_copyin` refuses the member of a live set. -/
def receivePort (call : ReceiveCall τ π) : Stepped τ π σ :=
  let (s, es) := s.leaveDeadSet mem port
  if (s.ipPset port).isSome then (s, es)
  else
    let (s, es') := s.receiveFrom mem (.port port) call
    (s, es ++ es')

def receivePset (pset : σ) (call : ReceiveCall τ π) : Stepped τ π σ :=
  if s.ipsActive pset then s.receiveFrom mem (.pset pset) call else (s, [])

def receiveAgain (i : ℕ) : Stepped τ π σ :=
  match s.awake[i]? with
  | none => (s, [])
  | some th => returns { s with awake := s.awake.eraseIdx i } th.self (afterThreadBlock th)

def unblockReceiver (i : ℕ) : IpcPorts τ π σ :=
  let mqueue := s.mqueue mq
  s.setQueue mq { mqueue with imqThreads := mqueue.imqThreads.eraseIdx i } s.ipSeqno

def receiveWoken (i : ℕ) (why : WaitResult) : Stepped τ π σ :=
  match (s.mqueue mq).imqThreads[i]? with
  | none => (s, [])
  | some th =>
    match why with
    | .timedOut => (s.unblockReceiver mq i).receiveFrom mem mq (th.call 0)
    | _ => (s.unblockReceiver mq i).returns th.self (.returned .rcvInterrupted .unset th.ithList)

def receiveDone (i : ℕ) : Stepped τ π σ :=
  match s.taken[i]? with
  | none => (s, [])
  | some port =>
    let s := { s with taken := s.taken.eraseIdx i }
    if s.ipActive port then
      let msgcount := s.ipMsgcount port - 1
      let s := { s with ipMsgcount := update s.ipMsgcount port msgcount }
      match s.ipBlocked port with
      | [] => (s, [])
      | sender :: senders =>
        if msgcount < s.ipQlimit port then
          ({ s with ipBlocked := update s.ipBlocked port senders,
                    resending := s.resending ++ [sender] }, [])
        else (s, [])
    else (s, [])

end

end IpcPorts

/-! ## Runs -/

inductive MqueueOp (τ π σ : Type*) where
  | send (mem : τ → Memory) (sender : Sender τ π)
  | sendAgain (mem : τ → Memory) (i : ℕ)
  | sendWoken (mem : τ → Memory) (port : π) (i : ℕ) (why : WaitResult)
  | receivePort (mem : τ → Memory) (port : π) (call : ReceiveCall τ π)
  | receivePset (mem : τ → Memory) (pset : σ) (call : ReceiveCall τ π)
  | receiveAgain (i : ℕ)
  | receiveWoken (mem : τ → Memory) (mq : MqueueOf π σ) (i : ℕ) (why : WaitResult)
  | receiveDone (i : ℕ)
  | psetAdd (mem : τ → Memory) (pset : σ) (port : π)
  | psetRemove (mem : τ → Memory) (pset : σ) (port : π)
  | psetMove (mem : τ → Memory) (port : π) (nset : Option σ)
  | psetDestroy (pset : σ)
  | setSeqno (mem : τ → Memory) (port : π) (seqno : Word)

variable [DecidableEq π] [DecidableEq σ]

def IpcPorts.step (s : IpcPorts τ π σ) : MqueueOp τ π σ → Stepped τ π σ
  | .send mem sender => s.send mem sender
  | .sendAgain mem i => s.sendAgain mem i
  | .sendWoken mem port i why => s.sendWoken mem port i why
  | .receivePort mem port call => s.receivePort mem port call
  | .receivePset mem pset call => s.receivePset mem pset call
  | .receiveAgain i => s.receiveAgain i
  | .receiveWoken mem mq i why => s.receiveWoken mem mq i why
  | .receiveDone i => s.receiveDone i
  | .psetAdd mem pset port =>
    if s.ipPset port = none then s.ipcPsetAdd mem pset port else (s, [])
  | .psetRemove mem pset port =>
    if s.ipPset port = some pset then s.ipcPsetRemove mem pset port else (s, [])
  | .psetMove mem port nset => (s.ipcPsetMove mem port nset).2
  | .psetDestroy pset => s.ipcPsetDestroy pset
  | .setSeqno mem port seqno => s.ipcPortSetSeqno mem port seqno

def IpcPorts.run : List (MqueueOp τ π σ) → IpcPorts τ π σ → Stepped τ π σ
  | [], s => (s, [])
  | op :: ops, s =>
    let (s1, es1) := s.step op
    let (s2, es2) := run ops s1
    (s2, es1 ++ es2)

end Rhapsody.Ipc
