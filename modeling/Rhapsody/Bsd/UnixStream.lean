import Rhapsody.Bsd.Sockbuf

/-! One direction of a connected pair of Unix stream sockets: `sosend` and `soreceive`
(`bsd/kern/uipc_socket.c`) over `uipc_usrreq` (`bsd/kern/uipc_usrreq.c`), in the sections they
run at `splnet`. A call that has to wait is tried again from its start. `sent` is what sends have
handed over, by their return values, and `got` what receives that do not peek have returned. -/

namespace Rhapsody.Bsd

def minclsize : ℕ := mhlen + mlen

structure Control where
  bytes : List UInt8
  rights : List ℕ
  deriving DecidableEq

/-- A send with the data not yet handed over: `top` is filled or it is about to test for space. -/
structure Sender where
  data : List UInt8
  control : Option Control
  space : ℕ
  top : Option (List SbMbuf)
  deriving DecidableEq

/-- The arguments of a receive; `control` if there is a place for control messages. -/
structure Recv where
  resid : ℕ
  peek : Bool
  waitall : Bool
  dontwait : Bool
  control : Bool
  deriving DecidableEq

/-- Where a receive is that has let go of `splnet`: it copies `len` bytes from `moff` on, it waits
for data, or the mbuf was freed under it. -/
inductive ReadPhase
  | copying (m moff len : ℕ)
  | waiting
  | lost
  deriving DecidableEq

structure Reader where
  call : Recv
  resid : ℕ
  out : List UInt8
  nextrecord : Bool
  origResid : ℕ
  phase : ReadPhase
  deriving DecidableEq

structure Receipt where
  peek : Bool
  bytes : List UInt8
  deriving DecidableEq

/-- `snd` is the send buffer of one socket and `rcv` the receive buffer of the other, with its
`SB_LOCK`; `unpCc` and `unpMbcnt` are in the control block of the other. -/
structure StreamDir where
  snd : Sockbuf
  rcv : Sockbuf
  unpCc : BitVec 32
  unpMbcnt : BitVec 32
  locked : Bool
  senders : List Sender
  readers : List Reader
  next : ℕ
  sent : List UInt8
  got : List UInt8
  deriving DecidableEq

/-! ### Sending -/

/-- The loop of `sosend` that fills `top` from `uio`; `cl` says whether `MCLGET` finds a cluster. -/
def fill : ℕ → List Bool → Bool → List UInt8 → ℕ → List SbMbuf × List UInt8 × ℕ
  | 0, _, _, data, space => ([], data, space)
  | fuel + 1, cl, first, data, space =>
    let ext := minclsize ≤ data.length ∧ cl.headD false = true
    let room := if ext then mclBytes else if first then mhlen else mlen
    let start := if ext then 0 else if first then pktdat else 0
    let len := min (min room data.length) space
    let m : SbMbuf := ⟨0, .data, decide ext, start, data.take len, []⟩
    let rest := data.drop len
    if rest = [] ∨ space - len = 0 ∨ minclsize ≤ rest.length then ([m], rest, space - len)
    else
      let (top, r) := fill fuel cl.tail false rest (space - len)
      (m :: top, r)

def number (next : ℕ) (chain : List SbMbuf) : List SbMbuf :=
  chain.mapIdx fun i m => { m with addr := next + i }

def Sender.clen (sd : Sender) : ℕ := (sd.control.map fun c => c.bytes.length).getD 0

def Sender.refill (sd : Sender) (cl : List Bool) (space : ℕ) : Sender :=
  let (top, rest, space) := fill (sd.data.length + 1) cl true sd.data space
  { sd with
    data  := rest
    space := space
    top   := some top }

/-- The test for space in `sosend`: `none` if the send has to wait, an empty list for `EMSGSIZE`. -/
def Sender.check (sd : Sender) (snd : Sockbuf) (cl : List Bool) : Option (List Sender) :=
  let space := snd.sbspace
  if snd.hiwat.toNat < sd.clen then some []
  else if space < sd.data.length + sd.clen ∧
      (BitVec.ofInt 32 space < snd.lowat ∨ space < sd.clen) then none
  else some [sd.refill cl (space - sd.clen).toNat]

variable (s : StreamDir)

namespace StreamDir

/-- `PRU_SEND` with a control message. If `sbappendcontrol` fails the chain is let go of all the
same. -/
def pruSend (top : List SbMbuf) (control : Option Control) : StreamDir :=
  let rcv :=
    match control with
    | some c =>
      let m : SbMbuf := ⟨s.next, .control, false, 0, c.bytes, c.rights⟩
      (s.rcv.sbappendcontrol (number (s.next + 1) top) m).getD s.rcv
    | none => s.rcv.sbappend (number (s.next + 1) top)
  { s with
    rcv      := rcv
    snd      := { s.snd with
      mbmax := s.snd.mbmax - (rcv.mbcnt - s.unpMbcnt)
      hiwat := s.snd.hiwat - (rcv.cc - s.unpCc) }
    unpMbcnt := rcv.mbcnt
    unpCc    := rcv.cc
    next     := s.next + 1 + top.length
    sent     := s.sent ++ top.flatMap SbMbuf.bytes }

/-- The chunk in `top` is handed over, and another one filled if there is space for it. -/
def hand (i : ℕ) (cl : List Bool) : Option StreamDir :=
  match s.senders[i]? with
  | some sd =>
    match sd.top with
    | none => none
    | some top =>
      let s := s.pruSend top sd.control
      let sd := { sd with control := none, top := none }
      some { s with
        senders :=
          if sd.data = [] then s.senders.eraseIdx i
          else s.senders.set i (if 0 < sd.space then sd.refill cl sd.space else sd) }
  | none => none

/-! ### Receiving -/

def pruRcvd : StreamDir :=
  { s with
    snd      := { s.snd with
      mbmax := s.snd.mbmax + (s.unpMbcnt - s.rcv.mbcnt)
      hiwat := s.snd.hiwat + (s.unpCc - s.rcv.cc) }
    unpMbcnt := s.rcv.mbcnt
    unpCc    := s.rcv.cc }

variable (rd : Reader)

def returns : StreamDir × Option Receipt :=
  ({ s with
    locked := false
    got    := if rd.call.peek then s.got else s.got ++ rd.out }, some ⟨rd.call.peek, rd.out⟩)

def advance : StreamDir :=
  match s.rcv.mb with
  | [] :: rest => { s with rcv := { s.rcv with mb := rest } }
  | _ => s

/-- The end of `soreceive`, from the test for `PR_ATOMIC` on. A receive that copied nothing
starts again. -/
def finish : StreamDir × Option Receipt :=
  let s := if rd.call.peek then s else s.advance.pruRcvd
  if rd.origResid = rd.resid ∧ rd.origResid ≠ 0 then ({ s with locked := false }, none)
  else s.returns rd

def loop (rest : List SbMbuf) (moff : ℕ) (err : Bool) : StreamDir × Option Receipt :=
  match rest with
  | [] => s.finish rd
  | m :: _ =>
    if 0 < rd.resid ∧ err = false then
      let len := min rd.resid (m.mLen - moff)
      ({ s with readers := { rd with phase := .copying m.addr moff len } :: s.readers }, none)
    else s.finish rd

def waitLoop (rest : List SbMbuf) (moff : ℕ) : StreamDir × Option Receipt :=
  if rd.call.waitall = true ∧ rest = [] ∧ 0 < rd.resid ∧ rd.nextrecord = false then
    let s := if rd.call.peek then s else s.advance
    ({ s with readers := { rd with phase := .waiting } :: s.readers }, none)
  else s.loop rd rest moff false

/-- The loop over the control messages of a record; `ok` says whether `unp_externalize` succeeds. -/
def takeControl (control : Bool) : List Bool → List SbMbuf → List SbMbuf × Bool
  | _, [] => ([], false)
  | ok, m :: r =>
    if m.mType = .control then
      if control = true ∧ ok.headD true = false then (r, true)
      else takeControl control ok.tail r
    else (m :: r, false)

/-- `soreceive` up to its first copy, or `none` if it has to wait. `sblock` gives zero whether it
got the lock or not: not with `MSG_DONTWAIT`, nor if a signal ends the sleep in `sb_lock`, which is
`intr`. One that waits for data without the lock takes it from the receive that has it. -/
def recv (call : Recv) (ok : List Bool) (intr : Bool) : Option (StreamDir × Option Receipt) :=
  if s.locked = true ∧ call.dontwait = false ∧ intr = false then none
  else
    let rd : Reader := ⟨call, call.resid, [], false, call.resid, .waiting⟩
    let waits := if s.locked = true then some ({ s with locked := false }, none) else none
    let s := { s with locked := true }
    match s.rcv.mb with
    | [] => if call.resid = 0 ∨ call.dontwait = true then some (s.returns rd) else waits
    | r :: rest =>
      if (call.dontwait = false ∧ s.rcv.cc.toNat < call.resid) ∧
          (s.rcv.cc < s.rcv.lowat ∨ call.waitall = true ∧ call.resid ≤ s.rcv.hiwat.toNat) ∧
          rest = [] then waits
      else
        let rd := { rd with
          nextrecord := decide (rest ≠ [])
          origResid  :=
            if call.control = true ∧ (r.head?.map SbMbuf.mType) = some .control then 0
            else call.resid }
        if call.peek then
          some (s.loop rd (r.dropWhile fun m => m.mType = .control) 0 false)
        else
          let (r, err) := takeControl call.control ok r
          some ({ s with rcv := { s.rcv with mb := r :: rest } }.loop rd r 0 err)

def drop : StreamDir × Option Receipt :=
  ({ s with readers := { rd with phase := .lost } :: s.readers }, none)

def copiedPeek (m moff len : ℕ) : StreamDir × Option Receipt :=
  match (s.rcv.mb.headD []).dropWhile (fun x => x.addr ≠ m) with
  | [] => s.drop rd
  | x :: rest =>
    let rd := { rd with
      out   := rd.out ++ (x.bytes.drop moff).take len
      resid := rd.resid - len }
    if len = x.mLen - moff then s.waitLoop rd rest 0
    else s.waitLoop rd (x :: rest) (moff + len)

def copied (m len : ℕ) : StreamDir × Option Receipt :=
  match s.rcv.mb with
  | (x :: r) :: rest =>
    if x.addr = m then
      let rd := { rd with
        out   := rd.out ++ x.bytes.take len
        resid := rd.resid - len }
      if len = x.mLen then
        { s with rcv := { s.rcv with mb := r :: rest } }.waitLoop
          { rd with nextrecord := decide (rest ≠ []) } r 0
      else
        let x := { x with bytes := x.bytes.drop len, mData := x.mData + len }
        { s with rcv := { s.rcv with mb := (x :: r) :: rest } }.waitLoop rd (x :: r) 0
    else s.drop rd
  | _ => s.drop rd

def wake : StreamDir × Option Receipt :=
  match s.rcv.mb with
  | [] => s.waitLoop rd [] 0
  | r :: rest => s.waitLoop { rd with nextrecord := decide (rest ≠ []) } r 0

end StreamDir

/-! ### Steps -/

inductive StreamOp
  | send (data : List UInt8) (control : Option Control)
  | check (i : ℕ) (cl : List Bool)
  | giveUp (i : ℕ)
  | hand (i : ℕ) (cl : List Bool)
  | recv (call : Recv) (ok : List Bool) (intr : Bool)
  | copied (i : ℕ)
  | wake (i : ℕ)
  | interrupt (i : ℕ)
  | sndbuf (cc : BitVec 32)
  | rcvbuf (cc : BitVec 32)
  deriving DecidableEq

namespace StreamDir

def onReader (i : ℕ) (f : StreamDir → Reader → Option (StreamDir × Option Receipt)) :
    Option (StreamDir × Option Receipt) :=
  match s.readers[i]? with
  | none => none
  | some rd => f { s with readers := s.readers.eraseIdx i } rd

def step : StreamOp → Option (StreamDir × Option Receipt)
  | .send data control => some ({ s with senders := ⟨data, control, 0, none⟩ :: s.senders }, none)
  | .check i cl =>
    match s.senders[i]? with
    | none => none
    | some sd =>
      if sd.top = none then
        (sd.check s.snd cl).map fun l =>
          ({ s with senders := l ++ s.senders.eraseIdx i }, none)
      else none
  -- `SS_NBIO`, or a signal while waiting for space
  | .giveUp i =>
    match s.senders[i]? with
    | none => none
    | some sd =>
      if sd.top = none then some ({ s with senders := s.senders.eraseIdx i }, none) else none
  | .hand i cl => (s.hand i cl).map fun s => (s, none)
  | .recv call ok intr => s.recv call ok intr
  | .copied i => s.onReader i fun s rd =>
    match rd.phase with
    | .copying m moff len => some (if rd.call.peek then s.copiedPeek rd m moff len
        else s.copied rd m len)
    | _ => none
  | .wake i => s.onReader i fun s rd =>
    if rd.phase = .waiting then some (s.wake rd) else none
  -- a signal or a timeout while waiting for more data
  | .interrupt i => s.onReader i fun s rd =>
    if rd.phase = .waiting then some (s.returns rd) else none
  | .sndbuf cc => (s.snd.sbreserve cc).map fun snd => ({ s with snd := snd }, none)
  | .rcvbuf cc => (s.rcv.sbreserve cc).map fun rcv => ({ s with rcv := rcv }, none)

end StreamDir

end Rhapsody.Bsd
