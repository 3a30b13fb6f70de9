import Rhapsody.Ipc.Message

/-! Message queues (`ipc/ipc_mqueue.c`). The checks of a message against a receiver are written
out in `ipc_mqueue_send`, `ipc_mqueue_move` and `ipc_mqueue_receive`, and three times here. -/

namespace Rhapsody.Ipc

variable {τ π : Type*}

structure IpcThread (τ π : Type*) where
  self : τ
  ithState : MachMsgReturn
  ithMsize : Word
  ithRcvOption : Word
  ithList : Option (IpcKmsg π)
  ithKmsg : Option (IpcKmsg π)
  ithSeqno : Word
  deriving DecidableEq

structure IpcMqueue (τ π : Type*) where
  imqMessages : List (IpcKmsg π)
  imqThreads : List (IpcThread τ π)
  deriving DecidableEq

def ipcMqueueInit : IpcMqueue τ π := ⟨[], []⟩

/-! ## Offering a message to a blocked receiver -/

namespace IpcKmsg

def isOldFormat (kmsg : IpcKmsg π) : Bool := hasBits kmsg.msghBits machMsghBitsOldFormat

def isComplex (kmsg : IpcKmsg π) : Bool := hasBits kmsg.msghBits machMsghBitsComplex

end IpcKmsg

namespace IpcThread

def give (th : IpcThread τ π) (state : MachMsgReturn) (kmsg : IpcKmsg π) (seqno : Word) :
    IpcThread τ π :=
  { th with ithState := state, ithKmsg := some kmsg, ithSeqno := seqno }

def tooSmall (th : IpcThread τ π) (state : MachMsgReturn) (kmsg : IpcKmsg π) : IpcThread τ π :=
  { th with ithState := state, ithMsize := kmsg.msghSize }

end IpcThread

inductive Offer (τ π : Type*) where
  | taken (th : IpcThread τ π)
  | refused (th : IpcThread τ π)
  deriving DecidableEq

def sendOffer (mem : τ → Memory) (kmsg : IpcKmsg π) (seqno : Word) (receiver : IpcThread τ π) :
    Offer τ π :=
  if kmsg.isOldFormat then
    if ¬hasBits receiver.ithRcvOption machRcvOldFormat then
      .taken (receiver.give .rcvHeaderError kmsg seqno)
    else if kmsg.msghSize ≤ receiver.ithMsize then
      .taken (receiver.give .success kmsg seqno)
    else
      .refused (receiver.tooSmall .rcvTooLarge kmsg)
  else if hasBits receiver.ithRcvOption machRcvOldFormat then
    if kmsg.isComplex ∨ kmsg.msghSize > sizeofMachMsgHeader ∨
        receiver.ithMsize < sizeofMachMsgHeader then
      .taken (receiver.give .rcvHeaderError kmsg seqno)
    else
      .taken (receiver.give .success kmsg seqno)
  else if kmsg.msghSize >
      receiver.ithMsize - requestedTrailerSize (mem receiver.self) receiver.ithRcvOption then
    if hasBits receiver.ithRcvOption machRcvLarge then
      .refused (receiver.tooSmall .rcvTooLarge kmsg)
    else
      .taken (receiver.give .rcvTooLarge kmsg seqno)
  else
    match kmsg.isComplex, receiver.ithList with
    | true, some list =>
      let (state, list') := ipcKmsgCheckScatter (mem receiver.self) kmsg receiver.ithRcvOption list
      let receiver := { receiver with ithState := state, ithList := some list' }
      if state ≠ .success then
        if state = .rcvInvalidType ∨ state.isVmKernel then .refused receiver
        else if hasBits receiver.ithRcvOption machRcvLarge then
          .refused (receiver.tooSmall state kmsg)
        else .taken (receiver.give state kmsg seqno)
      else .taken (receiver.give .success kmsg seqno)
    | _, _ => .taken (receiver.give .success kmsg seqno)

def moveOffer (mem : τ → Memory) (kmsg : IpcKmsg π) (seqno : Word) (th : IpcThread τ π) :
    Offer τ π :=
  if kmsg.isOldFormat then
    if ¬hasBits th.ithRcvOption machRcvOldFormat then
      .taken (th.give .rcvHeaderError kmsg seqno)
    else if kmsg.msghSize ≤ th.ithMsize then
      .taken (th.give .success kmsg seqno)
    else
      .refused (th.tooSmall .rcvTooLarge kmsg)
  else if hasBits th.ithRcvOption machRcvOldFormat then
    if kmsg.isComplex ∨ kmsg.msghSize > sizeofMachMsgHeader ∨ th.ithMsize < sizeofMachMsgHeader then
      .taken (th.give .rcvHeaderError kmsg seqno)
    else
      .taken (th.give .success kmsg seqno)
  else if kmsg.msghSize > th.ithMsize - requestedTrailerSize (mem th.self) th.ithRcvOption then
    if hasBits th.ithRcvOption machRcvLarge then
      .refused (th.tooSmall .rcvTooLarge kmsg)
    else
      .taken (th.give .rcvTooLarge kmsg seqno)
  else
    match kmsg.isComplex, th.ithList with
    | true, some list =>
      let (state, list') := ipcKmsgCheckScatter (mem th.self) kmsg th.ithRcvOption list
      let th := { th with ithState := state, ithList := some list' }
      if state ≠ .success then
        if state = .rcvInvalidType ∨ state.isVmKernel then .refused th
        else if hasBits th.ithRcvOption machRcvLarge then .refused (th.tooSmall state kmsg)
        else .taken (th.give state kmsg seqno)
      else .taken (th.give .success kmsg seqno)
    | _, _ => .taken (th.give .success kmsg seqno)

/-- The threads set going, in order, the ones still blocked, and whether the
message found a receiver. -/
structure Delivery (τ π : Type*) where
  woken : List (IpcThread τ π)
  threads : List (IpcThread τ π)
  taken : Bool

def offerLoop (offer : IpcThread τ π → Offer τ π) : List (IpcThread τ π) → Delivery τ π
  | [] => ⟨[], [], false⟩
  | th :: ths =>
    match offer th with
    | .taken th' => ⟨[th'], ths, true⟩
    | .refused th' =>
      let d := offerLoop offer ths
      { d with woken := th' :: d.woken }

section
variable [DecidableEq π]

/-- Queue, sequence numbers (`ip_seqno` of every port) and the threads set going. -/
structure Delivered (τ π : Type*) where
  mqueue : IpcMqueue τ π
  seqno : π → Word
  woken : List (IpcThread τ π)

def deliver (offer : IpcKmsg π → Word → IpcThread τ π → Offer τ π) (mqueue : IpcMqueue τ π)
    (seqno : π → Word) (kmsg : IpcKmsg π) : Delivered τ π :=
  let port := kmsg.msghRemotePort
  let d := offerLoop (offer kmsg (seqno port)) mqueue.imqThreads
  if d.taken then
    ⟨{ mqueue with imqThreads := d.threads }, Function.update seqno port (seqno port + 1), d.woken⟩
  else
    ⟨{ mqueue with imqMessages := mqueue.imqMessages ++ [kmsg], imqThreads := d.threads }, seqno,
      d.woken⟩

def ipcMqueueSend (mem : τ → Memory) (mqueue : IpcMqueue τ π) (seqno : π → Word)
    (kmsg : IpcKmsg π) : Delivered τ π := deliver (sendOffer mem) mqueue seqno kmsg

/-- The message loop of `ipc_mqueue_move`; returns what stays in the source queue. -/
def moveLoop (mem : τ → Memory) (port : π) :
    List (IpcKmsg π) → Delivered τ π → List (IpcKmsg π) × Delivered τ π
  | [], d => ([], d)
  | kmsg :: kmsgs, d =>
    if kmsg.msghRemotePort ≠ port then
      let (kept, d') := moveLoop mem port kmsgs d
      (kmsg :: kept, d')
    else
      let d1 := deliver (moveOffer mem) d.mqueue d.seqno kmsg
      moveLoop mem port kmsgs { d1 with woken := d.woken ++ d1.woken }

def ipcMqueueMove (mem : τ → Memory) (dest source : IpcMqueue τ π) (seqno : π → Word) (port : π) :
    IpcMqueue τ π × Delivered τ π :=
  let (kept, d) := moveLoop mem port source.imqMessages ⟨dest, seqno, []⟩
  ({ source with imqMessages := kept }, d)

def ipcMqueueChanged (mqueue : IpcMqueue τ π) (mr : MachMsgReturn) :
    IpcMqueue τ π × List (IpcThread τ π) :=
  ({ mqueue with imqThreads := [] }, mqueue.imqThreads.map fun th => { th with ithState := mr })

/-! ## Receiving -/

/-- The arguments of `ipc_mqueue_receive`, and what earlier receives left in `ith_kmsg` and
`ith_seqno`. -/
structure ReceiveCall (τ π : Type*) where
  self : τ
  option : Word
  maxSize : Word
  timeout : Word
  list : Option (IpcKmsg π)
  oldKmsg : Option (IpcKmsg π)
  oldSeqno : Word

inductive KmsgOut (π : Type*) where
  | unset
  | size (n : Word)
  | kmsg (k : Option (IpcKmsg π)) (seqno : Word)
  deriving DecidableEq

inductive Received (π : Type*) where
  | returned (mr : MachMsgReturn) (out : KmsgOut π) (list : Option (IpcKmsg π))
  | panic
  deriving DecidableEq

/-- The first message of the queue is either taken off or left where it is. -/
inductive Attempt (π : Type*) where
  | take (state : MachMsgReturn) (list : Option (IpcKmsg π))
  | leave (mr : MachMsgReturn) (out : KmsgOut π) (list : Option (IpcKmsg π))
  deriving DecidableEq

def receiveFirst (mem : τ → Memory) (call : ReceiveCall τ π) (kmsg : IpcKmsg π) : Attempt π :=
  if kmsg.isOldFormat then
    if ¬hasBits call.option machRcvOldFormat then .take .rcvHeaderError call.list
    else if kmsg.msghSize > call.maxSize then
      .leave .rcvTooLarge (.size kmsg.msghSize) call.list
    else .take .success call.list
  else if hasBits call.option machRcvOldFormat then
    if kmsg.isComplex ∨ kmsg.msghSize > sizeofMachMsgHeader ∨
        call.maxSize < sizeofMachMsgHeader then
      .take .rcvHeaderError call.list
    else .take .success call.list
  else if kmsg.msghSize > call.maxSize - requestedTrailerSize (mem call.self) call.option then
    if hasBits call.option machRcvLarge then
      .leave .rcvTooLarge (.size kmsg.msghSize) call.list
    else .take .rcvTooLarge call.list
  else
    match kmsg.isComplex, call.list with
    | true, some list =>
      let (state, list') := ipcKmsgCheckScatter (mem call.self) kmsg call.option list
      if state ≠ .success then
        if state = .rcvInvalidType ∨ state.isVmKernel then .leave state .unset (some list')
        else if hasBits call.option machRcvLarge then
          .leave state (.size kmsg.msghSize) (some list')
        else .take state (some list')
      else .take .success (some list')
    | _, _ => .take .success call.list

def ReceiveCall.block (call : ReceiveCall τ π) : IpcThread τ π :=
  ⟨call.self, .rcvInProgress, call.maxSize, call.option, call.list, call.oldKmsg, call.oldSeqno⟩

def ReceiveCall.Waits (call : ReceiveCall τ π) : Prop :=
  ¬(hasBits call.option machRcvTimeout ∧ call.timeout = 0)

instance (call : ReceiveCall τ π) : Decidable call.Waits :=
  inferInstanceAs (Decidable (¬(_ ∧ _)))

/-- `ipc_mqueue_receive` up to the point where it returns or blocks (`none`). -/
def ipcMqueueReceive (mem : τ → Memory) (mqueue : IpcMqueue τ π) (seqno : π → Word)
    (call : ReceiveCall τ π) : IpcMqueue τ π × (π → Word) × Option (Received π) :=
  match mqueue.imqMessages with
  | k :: ks =>
    let port := k.msghRemotePort
    match receiveFirst mem call k with
    | .leave mr out list => (mqueue, seqno, some (.returned mr out list))
    | .take state list =>
      ({ mqueue with imqMessages := ks }, Function.update seqno port (seqno port + 1),
        some (.returned state (.kmsg (some k) (seqno port)) list))
  | [] =>
    if call.Waits then
      ({ mqueue with imqThreads := mqueue.imqThreads ++ [call.block] }, seqno, none)
    else
      (mqueue, seqno, some (.returned .rcvTimedOut .unset call.list))

def afterThreadBlock (self : IpcThread τ π) : Received π :=
  let returnKmsg := Received.returned self.ithState (.kmsg self.ithKmsg self.ithSeqno) self.ithList
  match self.ithState with
  | .success => returnKmsg
  | .rcvInvalidType => .returned self.ithState .unset self.ithList
  | .rcvTooLarge | .rcvScatterSmall =>
    if ¬hasBits self.ithRcvOption (machRcvLarge ||| machRcvOldFormat) then returnKmsg
    else .returned self.ithState (.size self.ithMsize) self.ithList
  | .rcvPortDied | .rcvPortChanged => .returned self.ithState .unset self.ithList
  | .rcvHeaderError => returnKmsg
  | _ => .panic

end

end Rhapsody.Ipc
