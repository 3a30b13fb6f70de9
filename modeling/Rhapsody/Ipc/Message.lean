import Mathlib

/-! Messages, option words and return codes (`mach/message.h`), the trailer-size
table of `ipc/mach_msg.c`, and the scatter-list check of `ipc/ipc_kmsg.c`. -/

namespace Rhapsody.Ipc

/-- A 32-bit word: `mach_msg_bits_t`, `mach_msg_option_t`, `mach_msg_size_t`, .... -/
abbrev Word := BitVec 32

def hasBits (word mask : Word) : Bool := word &&& mask != 0

def machMsghBitsComplex : Word := 0x80000000
def machMsghBitsCircular : Word := 0x40000000
def machMsghBitsOldFormat : Word := 0x08000000
def machMsghBitsRemoteMask : Word := 0x000000ff

def machSendTimeout : Word := 0x00000010
def machSendAlways : Word := 0x00010000
def machRcvTimeout : Word := 0x00000100
def machRcvLarge : Word := 0x00000800
def machRcvOldFormat : Word := 0x00008000

/-- `MACH_MSG_TYPE_PORT_SEND_ONCE`, an alias of `MACH_MSG_TYPE_MOVE_SEND_ONCE`. -/
def machMsgTypePortSendOnce : Word := 18

def sizeofMachMsgHeader : Word := 24

def sizeofMachMsgBody : Word := 4

def sizeofMachMsgDescriptor : Word := 12

inductive MachMsgReturn where
  | success
  | sendInProgress
  | sendTimedOut
  | sendInterrupted
  | rcvInProgress
  | rcvTimedOut
  | rcvTooLarge
  | rcvInterrupted
  | rcvPortChanged
  | rcvPortDied
  | rcvHeaderError
  | rcvInvalidType
  | rcvScatterSmall
  /-- `MACH_MSG_VM_KERNEL|MACH_RCV_BODY_ERROR` -/
  | rcvBodyErrorVmKernel
  deriving DecidableEq

def MachMsgReturn.code : MachMsgReturn → Word
  | success => 0x00000000
  | sendInProgress => 0x10000001
  | sendTimedOut => 0x10000004
  | sendInterrupted => 0x10000007
  | rcvInProgress => 0x10004001
  | rcvTimedOut => 0x10004003
  | rcvTooLarge => 0x10004004
  | rcvInterrupted => 0x10004005
  | rcvPortChanged => 0x10004006
  | rcvPortDied => 0x10004009
  | rcvHeaderError => 0x1000400b
  | rcvInvalidType => 0x1000400d
  | rcvScatterSmall => 0x1000400e
  | rcvBodyErrorVmKernel => 0x00000400 ||| 0x1000400c

def machMsgVmKernel : Word := 0x00000400

def MachMsgReturn.isVmKernel (mr : MachMsgReturn) : Bool := hasBits mr.code machMsgVmKernel

lemma isVmKernel_iff (mr : MachMsgReturn) : mr.isVmKernel = true ↔ mr = .rcvBodyErrorVmKernel := by
  cases mr <;> decide

/-! ## Descriptors and messages -/

def machMsgPortDescriptor : BitVec 8 := 0
def machMsgOolDescriptor : BitVec 8 := 1
def machMsgOolPortsDescriptor : BitVec 8 := 2
def machMsgOverwrite : BitVec 8 := 3

/-- What the check reads of a `mach_msg_descriptor_t`. The size of a region and the count of a port
array share a word. -/
structure MachMsgDescriptor where
  type : BitVec 8
  copy : BitVec 8
  size : Word
  deriving DecidableEq

/-- A kernel message to a port of type `π`, with the descriptors of its body. -/
structure IpcKmsg (π : Type*) where
  msghBits : Word
  msghSize : Word
  msghRemotePort : π
  descriptors : List MachMsgDescriptor
  deriving DecidableEq

/-- The words behind the three entries of `trailer_size`, and the fresh memory `ikm_alloc` finds for
a request, if any. -/
structure Memory where
  pastTrailerSize : ℕ → Word
  ikmAlloc : Word → Option (ℕ → MachMsgDescriptor)

def Memory.trailerSize (mem : Memory) (i : ℕ) : Word :=
  match i with
  | 0 => 8
  | 1 => 12
  | 2 => 20
  | i + 3 => mem.pastTrailerSize i

def getRcvElements (option : Word) : Word := (option >>> 24) &&& 0xf

def requestedTrailerSize (mem : Memory) (option : Word) : Word :=
  mem.trailerSize (getRcvElements option).toNat

/-! ## The scatter list -/

inductive ScatterScan where
  | invalidType
  | scatterSmall
  | finished (sizeError : Bool)
  deriving DecidableEq

def scanScatter (large noScatter : Bool) :
    List MachMsgDescriptor → List MachMsgDescriptor → Bool → ScatterScan
  | [], _, sizeError => .finished sizeError
  | g :: gs, ss, sizeError =>
    if g.type ≠ machMsgPortDescriptor then
      if noScatter then
        if large then .finished true else .scatterSmall
      else
        match ss.dropWhile (fun s => s.type = machMsgPortDescriptor) with
        | [] => .finished sizeError
        | s :: ss' =>
          let want := if g.type = machMsgOolDescriptor then machMsgOolDescriptor
            else machMsgOolPortsDescriptor
          if s.type ≠ want then .invalidType
          else if s.copy = machMsgOverwrite ∧ s.size < g.size then
            if large then scanScatter large noScatter gs ss' true else .scatterSmall
          else scanScatter large noScatter gs ss' sizeError
    else scanScatter large noScatter gs ss sizeError

/-- Type and size of every gather descriptor, over whatever the memory held. -/
def fillScatter (fresh : ℕ → MachMsgDescriptor) (gather : List MachMsgDescriptor) :
    List MachMsgDescriptor :=
  gather.zipIdx.map fun (g, i) =>
    if g.type = machMsgOolDescriptor ∨ g.type = machMsgOolPortsDescriptor then
      { fresh i with type := g.type, size := g.size }
    else { fresh i with type := g.type }

variable {π : Type*}

def ipcKmsgCheckScatter (mem : Memory) (kmsg : IpcKmsg π) (option : Word) (list : IpcKmsg π) :
    MachMsgReturn × IpcKmsg π :=
  match scanScatter (hasBits option machRcvLarge) list.descriptors.isEmpty kmsg.descriptors
      list.descriptors false with
  | .invalidType => (.rcvInvalidType, list)
  | .scatterSmall => (.rcvScatterSmall, list)
  | .finished false => (.success, list)
  | .finished true =>
    let newSize := sizeofMachMsgBody +
      BitVec.ofNat 32 kmsg.descriptors.length * sizeofMachMsgDescriptor
    match mem.ikmAlloc newSize with
    | none => (.rcvBodyErrorVmKernel, list)
    | some fresh =>
      (.rcvScatterSmall,
        { list with msghSize := newSize, descriptors := fillScatter fresh kmsg.descriptors })

lemma ipcKmsgCheckScatter_code (mem : Memory) (kmsg : IpcKmsg π) (option : Word)
    (list : IpcKmsg π) :
    (ipcKmsgCheckScatter mem kmsg option list).1 = .success ∨
      (ipcKmsgCheckScatter mem kmsg option list).1 = .rcvInvalidType ∨
      (ipcKmsgCheckScatter mem kmsg option list).1 = .rcvScatterSmall ∨
      (ipcKmsgCheckScatter mem kmsg option list).1 = .rcvBodyErrorVmKernel := by
  unfold ipcKmsgCheckScatter
  split
  · simp
  · simp
  · simp
  · dsimp only
    split <;> simp

end Rhapsody.Ipc
