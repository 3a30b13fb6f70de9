import Rhapsody.Netinet.TcpInput
import Rhapsody.Bsd.SockbufRecords

/-! The sending half of TCP from `TCPS_ESTABLISHED` on: `tcp_output`, acknowledgements and
windows in `tcp_input`, the retransmission and persist timers and the requests of the user. A
call of `tcp_output` is taken apart into its rounds, so that a state may lie within a call. What
the code reads of the receiving half and of the lower layers is an input of each step. -/

namespace Rhapsody.Netinet

open Bsd

def seqLt (a b : TcpSeq) : Bool :=
  (a - b).toInt < 0

def umin (a b : BitVec 32) : BitVec 32 := if a < b then a else b

/-- What follows on `tcp_output`: nothing, the end of the fast retransmission with the old
`snd_nxt`, or `tcp_close`. -/
inductive After
  | ret
  | dupack (onxt : TcpSeq)
  | drop
  deriving DecidableEq

/-- The sending fields of a `tcpcb` and its socket. A timer is running or not. -/
structure TcpSnd where
  tState : TcpState
  sndUna : TcpSeq
  sndNxt : TcpSeq
  sndMax : TcpSeq
  sndUp : TcpSeq
  sndWl1 : TcpSeq
  sndWl2 : TcpSeq
  sndWnd : BitVec 32
  sndCwnd : BitVec 32
  sndSsthresh : BitVec 32
  maxSndwnd : BitVec 32
  sndScale : ℕ
  tMaxseg : BitVec 16
  /-- A `short`. -/
  tDupacks : BitVec 16
  /-- Timestamps are sent. -/
  tstamps : Bool
  tForce : Bool
  ackNow : Bool
  noDelay : Bool
  sentFin : Bool
  rexmt : Bool
  persist : Bool
  soSnd : RecSockbuf
  cantSendMore : Bool
  moreToCome : Bool
  /-- The call of `tcp_output` that is going on, with its variable `idle`. -/
  pending : Option (Bool × After)
  deriving DecidableEq

structure SentSeg where
  tiSeq : TcpSeq
  data : List UInt8
  fin : Bool
  rst : Bool
  push : Bool
  urg : Bool
  deriving DecidableEq

inductive TcpPanic
  | copy
  | sbdrop
  | setpersist
  deriving DecidableEq

def TcpState.outFin : TcpState → Bool
  | finWait1 | closing | lastAck => true
  | _ => false

def TcpState.outRst (s : TcpState) : Bool := s = closed

inductive IpResult
  | sent
  | noBufs
  | failed
  deriving DecidableEq

/-- What a round gets from outside: whether a window update is due, and how the lower layers answer.
-/
structure OutEnv where
  windowUpdate : Bool
  mgethdr : Bool
  mCopy : ℕ → Bool
  ipOutput : IpResult

structure Sizing where
  tp : TcpSnd
  off : BitVec 32
  len : BitVec 32
  fin : Bool
  sendalot : Bool

variable (s : TcpSnd)

namespace TcpSnd

def maxseg : BitVec 32 := s.tMaxseg.setWidth 32

def tcpQuench : TcpSnd := { s with sndCwnd := s.maxseg }

/-! ## `tcp_output` -/

def enter (idleLong : Bool) (after : After) : TcpSnd :=
  let idle := decide (s.sndMax = s.sndUna)
  { s with
    sndCwnd := if idle && idleLong then s.maxseg else s.sndCwnd
    pending := some (idle, after) }

/-- The window with the effect of `t_force`, and whether a FIN may be sent. -/
def forced : TcpSnd × BitVec 32 × Bool :=
  let off := s.sndNxt - s.sndUna
  let win := umin s.sndWnd s.sndCwnd
  let fin := s.tState.outFin
  if s.tForce then
    if win = 0 then (s, 1, fin && !decide (off < s.soSnd.cc))
    else ({ s with persist := false }, win, fin)
  else (s, win, fin)

/-- A negative length, if the FIN has been sent or the window shrank. `snd_nxt` is pulled back
to a closed window. -/
def pullBack (win len : BitVec 32) : TcpSnd × BitVec 32 :=
  if len.toInt < 0 then
    (if win = 0 then { s with rexmt := false, sndNxt := s.sndUna } else s, 0)
  else (s, len)

def sizing : Sizing :=
  let off := s.sndNxt - s.sndUna
  let (s, win, fin) := s.forced
  let (s, len) := s.pullBack win (umin s.soSnd.cc win - off)
  let (len, sendalot) := if s.maxseg < len then (s.maxseg, true) else (len, false)
  let fin := fin && !seqLt (s.sndNxt + len) (s.sndUna + s.soSnd.cc)
  ⟨s, off, len, fin, sendalot⟩

variable (z : Sizing)

def wants (idle : Bool) (e : OutEnv) : Bool :=
  let s := z.tp
  (z.len ≠ 0 && (z.len = s.maxseg
    || (!s.moreToCome && (idle || s.noDelay) && decide (s.soSnd.cc ≤ z.len + z.off))
    || s.tForce || decide (s.maxSndwnd / 2 ≤ z.len) || seqLt s.sndNxt s.sndMax))
  || e.windowUpdate || s.ackNow || s.tState.outRst || seqGt s.sndUp s.sndUna
  || (z.fin && (!s.sentFin || s.sndNxt = s.sndUna))

def tcpSetpersist : Except TcpPanic TcpSnd :=
  if s.rexmt then .error .setpersist else .ok { s with persist := true }

def rest : Except TcpPanic TcpSnd :=
  if s.soSnd.cc ≠ 0 ∧ s.rexmt = false ∧ s.persist = false then s.tcpSetpersist else .ok s

def fitted : Sizing :=
  let optlen : BitVec 32 := if z.tp.tstamps && !z.tp.tState.outRst then 12 else 0
  if z.tp.maxseg - optlen < z.len then
    { z with len := z.tp.maxseg - optlen, fin := false, sendalot := true }
  else z

def copies (e : OutEnv) : Except CopyStop (List UInt8) :=
  let hdrlen := 40 + if z.tp.tstamps && !z.tp.tState.outRst then 12 else 0
  if !e.mgethdr then .error .noBufs
  else if z.len = 0 then .ok []
  else if z.len.toNat ≤ mhlen - hdrlen - 16 then
    RecSockbuf.copyLoop (fun _ => true) 0 z.tp.soSnd.mb z.off.toNat z.len.toNat
  else RecSockbuf.copyLoop e.mCopy 0 z.tp.soSnd.mb z.off.toNat z.len.toNat

def resent : TcpSnd :=
  if z.fin && z.tp.sentFin && z.tp.sndNxt = z.tp.sndMax then
    { z.tp with sndNxt := z.tp.sndNxt - 1 }
  else z.tp

def segment (data : List UInt8) : SentSeg where
  tiSeq := if z.len ≠ 0 || z.fin || s.persist then s.sndNxt else s.sndMax
  data := data
  fin := z.fin
  rst := s.tState.outRst
  push := z.len ≠ 0 && z.off + z.len = s.soSnd.cc
  urg := seqGt s.sndUp s.sndNxt

def dragUp : TcpSnd :=
  if seqGt s.sndUp s.sndNxt then s else { s with sndUp := s.sndUna }

def number : TcpSnd :=
  let nxt := s.sndNxt + (if z.fin then 1 else 0) + z.len
  { s with
    sndNxt := nxt
    sentFin := s.sentFin || z.fin
    sndMax := if seqGt nxt s.sndMax then nxt else s.sndMax }

def startRexmt : TcpSnd :=
  if s.rexmt = false ∧ s.sndNxt ≠ s.sndUna then { s with rexmt := true, persist := false } else s

def probe : TcpSnd :=
  if seqGt (s.sndNxt + z.len) s.sndMax then { s with sndMax := s.sndNxt + z.len } else s

def advance : TcpSnd :=
  let s := s.dragUp
  if !s.tForce || !s.persist then (s.number z).startRexmt else s.probe z

def emit (e : OutEnv) : Except TcpPanic (TcpSnd × Option SentSeg × Bool) :=
  let z := fitted z
  match copies z e with
  | .error .panic => .error .copy
  | .error .noBufs => .ok (z.tp.tcpQuench, none, false)
  | .ok data =>
    let s := resent z
    let seg := s.segment z data
    let s := s.advance z
    match e.ipOutput with
    | .noBufs => .ok (s.tcpQuench, some seg, false)
    | .failed => .ok (s, some seg, false)
    | .sent => .ok ({ s with ackNow := false }, some seg, z.sendalot)

def round (idle : Bool) (e : OutEnv) : Except TcpPanic (TcpSnd × Option SentSeg × Bool) :=
  let z := s.sizing
  if wants z idle e then emit z e
  else z.tp.rest.map fun s => (s, none, false)

def tcpClose : TcpSnd := { s with tState := .closed, pending := none }

def finish (after : After) : TcpSnd :=
  let s := { s with tForce := false, moreToCome := false, pending := none }
  match after with
  | .ret => s
  | .dupack onxt =>
    { s with
      sndCwnd := s.sndSsthresh + s.maxseg * s.tDupacks.signExtend 32
      sndNxt := if seqGt onxt s.sndNxt then onxt else s.sndNxt }
  | .drop => s.tcpClose

def tcpDrop (idleLong : Bool) : TcpSnd :=
  enter { s with tState := .closed } idleLong .drop

end TcpSnd

/-! ## Acknowledgements -/

/-- A segment with an acknowledgement. `predicted` tells whether it meets the receiver's conditions
of header prediction, `tiFin` and `ackNow` whether its FIN is taken and an acknowledgement is due at
the end. -/
structure AckSeg where
  tiSeq : TcpSeq
  tiAck : TcpSeq
  tiLen : ℕ
  tiwin : BitVec 32
  predicted : Bool
  tiFin : Bool
  ackNow : Bool

namespace TcpSnd

def tcprexmtthresh : ℤ := 3

def sbdrop (s : TcpSnd) (len : ℕ) : Except TcpPanic TcpSnd :=
  match s.soSnd.sbdrop len with
  | none => .error .sbdrop
  | some sb => .ok { s with soSnd := sb }

def restartRexmt (all : Bool) : TcpSnd :=
  if all then { s with rexmt := false }
  else if s.persist = false then { s with rexmt := true } else s

variable (a : AckSeg)

def predictedAck (idleLong : Bool) : Except TcpPanic TcpSnd :=
  (s.sbdrop (a.tiAck - s.sndUna).toNat).map fun s =>
    let s := { s with sndUna := a.tiAck }
    let s := s.restartRexmt (s.sndUna = s.sndMax)
    if s.soSnd.cc ≠ 0 then s.enter idleLong .ret else s

def isPredicted : Bool :=
  s.tState = .established && a.predicted && a.tiwin ≠ 0 && a.tiwin = s.sndWnd
    && s.sndNxt = s.sndMax && a.tiLen = 0 && seqGt a.tiAck s.sndUna && seqLeq a.tiAck s.sndMax
    && decide (s.sndWnd ≤ s.sndCwnd)

def halfWindow : BitVec 32 :=
  let win := umin s.sndWnd s.sndCwnd / 2 / s.maxseg
  (if win < 2 then 2 else win) * s.maxseg

def openCwnd : TcpSnd :=
  let cw := s.sndCwnd
  let incr := if s.sndSsthresh < cw then s.maxseg * s.maxseg / cw else s.maxseg
  { s with sndCwnd := umin (cw + incr) (65535 <<< s.sndScale) }

def cancelTimers : TcpSnd := { s with rexmt := false, persist := false }

def updates : Bool :=
  seqLt s.sndWl1 a.tiSeq || s.sndWl1 = a.tiSeq && (seqLt s.sndWl2 a.tiAck
    || s.sndWl2 = a.tiAck && decide (s.sndWnd < a.tiwin))

def updateWindow : TcpSnd :=
  if s.updates a then
    { s with
      sndWnd := a.tiwin
      sndWl1 := a.tiSeq
      sndWl2 := a.tiAck
      maxSndwnd := if s.maxSndwnd < a.tiwin then a.tiwin else s.maxSndwnd }
  else s

def peerFin : TcpSnd :=
  match s.tState with
  | .established => { s with tState := .closeWait }
  | .finWait1 => { s with tState := .closing }
  | .finWait2 => { s.cancelTimers with tState := .timeWait, cantSendMore := true }
  | _ => s

def step6 (needoutput idleLong : Bool) : TcpSnd :=
  let update := s.updates a
  let s := s.updateWindow a
  let s := if a.tiFin then s.peerFin else s
  let s := { s with ackNow := s.ackNow || a.ackNow }
  if needoutput || update || s.ackNow then s.enter idleLong .ret else s

def duplicateAck (idleLong : Bool) : TcpSnd :=
  if a.tiLen = 0 ∧ a.tiwin = s.sndWnd then
    if s.rexmt = false ∨ a.tiAck ≠ s.sndUna then
      step6 { s with tDupacks := 0 } a false idleLong
    else
      let s := { s with tDupacks := s.tDupacks + 1 }
      if s.tDupacks.toInt = tcprexmtthresh then
        enter
          { s with
            sndSsthresh := s.halfWindow
            rexmt := false
            sndNxt := a.tiAck
            sndCwnd := s.maxseg } idleLong (.dupack s.sndNxt)
      else if tcprexmtthresh < s.tDupacks.toInt then
        enter { s with sndCwnd := s.sndCwnd + s.maxseg } idleLong .ret
      else s.step6 a false idleLong
  else step6 { s with tDupacks := 0 } a false idleLong

def dropAfterAck (idleLong : Bool) : TcpSnd :=
  enter { s with ackNow := true } idleLong .ret

def finAcked (ourfinisacked needoutput idleLong : Bool) : TcpSnd :=
  match s.tState with
  | .finWait1 =>
    step6 (if ourfinisacked then { s with tState := .finWait2 } else s) a needoutput idleLong
  | .closing =>
    step6 (if ourfinisacked then
        { s.cancelTimers with tState := .timeWait, cantSendMore := true } else s)
      a needoutput idleLong
  | .lastAck => if ourfinisacked then s.tcpClose else s.step6 a needoutput idleLong
  | .timeWait => s.dropAfterAck idleLong
  | _ => s.step6 a needoutput idleLong

def retract : TcpSnd :=
  { s with
    sndCwnd := if tcprexmtthresh < s.tDupacks.toInt ∧ s.sndSsthresh < s.sndCwnd
      then s.sndSsthresh else s.sndCwnd
    tDupacks := 0 }

def dropped (ack : TcpSeq) : BitVec 32 :=
  let acked := ack - s.sndUna
  if s.soSnd.cc < acked then s.soSnd.cc else acked

def release (ack : TcpSeq) : Except TcpPanic TcpSnd :=
  (s.sbdrop (s.dropped ack).toNat).map fun s' =>
    { s' with
      sndWnd := s.sndWnd - s.dropped ack
      sndUna := ack
      sndNxt := if seqLt s.sndNxt ack then ack else s.sndNxt }

def newAck (idleLong : Bool) : Except TcpPanic TcpSnd :=
  let s := s.retract
  if seqGt a.tiAck s.sndMax then .ok (s.dropAfterAck idleLong)
  else
    let ourfinisacked := decide (s.soSnd.cc < a.tiAck - s.sndUna)
    let needoutput := decide (a.tiAck = s.sndMax)
    let s := (s.restartRexmt needoutput).openCwnd
    (s.release a.tiAck).map fun s => s.finAcked a ourfinisacked needoutput idleLong

def input (idleLong : Bool) : Except TcpPanic TcpSnd :=
  if s.isPredicted a then s.predictedAck a idleLong
  else if seqLeq a.tiAck s.sndUna then .ok (s.duplicateAck a idleLong)
  else s.newAck a idleLong

end TcpSnd

/-! ## Requests and timers -/

/-- `again` is a round of the call of `tcp_output` that is going on; other steps are taken when
there is none. -/
inductive SndOp
  | send (chain : List RecMbuf) (oob moreToCome : Bool) (idleLong : Bool)
  | output (ackNow idleLong : Bool)
  | usrclosed (idleLong : Bool)
  | input (a : AckSeg) (idleLong : Bool)
  | rexmtTimeout (giveUp idleLong : Bool)
  | persistTimeout (giveUp idleLong : Bool)
  | drop (idleLong : Bool)
  | close
  | again (e : OutEnv)

structure SndStep where
  tp : TcpSnd
  taken : List UInt8
  sent : Option SentSeg
  deriving DecidableEq

namespace TcpSnd

/-- `sosend` with `PRU_SEND` or `PRU_SENDOOB`; `none` if the user may not send the chain now.
`sosend` can sleep between its test of `SS_CANTSENDMORE` and the request; here they are one step. -/
def usrSend (chain : List RecMbuf) (oob moreToCome idleLong : Bool) : Option SndStep :=
  let space := s.soSnd.sbspace + if oob then 1024 else 0
  if s.cantSendMore then none
  else if max space 0 < (chainBytes chain).length then none
  else if oob && decide (s.soSnd.sbspace < -512) then some ⟨s, [], none⟩
  else
    let s := { s with soSnd := s.soSnd.sbappend chain, moreToCome := moreToCome }
    let s := if oob then { s with sndUp := s.sndUna + s.soSnd.cc, tForce := true } else s
    some ⟨s.enter idleLong .ret, chainBytes chain, none⟩

def usrclosed (idleLong : Bool) : TcpSnd :=
  let s := { s with cantSendMore := true }
  let s :=
    match s.tState with
    | .established => { s with tState := .finWait1 }
    | .closeWait => { s with tState := .lastAck }
    | _ => s
  s.enter idleLong .ret

def rexmtTimeout (giveUp idleLong : Bool) : TcpSnd :=
  if giveUp then tcpDrop { s with rexmt := false } idleLong
  else
    enter
      { s with
        sndNxt := s.sndUna
        sndCwnd := s.maxseg
        sndSsthresh := s.halfWindow
        tDupacks := 0 } idleLong .ret

def persistTimeout (giveUp idleLong : Bool) : Except TcpPanic TcpSnd :=
  let s := { s with persist := false }
  if giveUp then .ok (s.tcpDrop idleLong)
  else s.tcpSetpersist.map fun s => enter { s with tForce := true } idleLong .ret

def again (e : OutEnv) (idle : Bool) (after : After) : Except TcpPanic SndStep :=
  (s.round idle e).map fun (s, seg, more) => ⟨if more then s else s.finish after, [], seg⟩

def step : SndOp → Option (Except TcpPanic SndStep)
  | .again e => s.pending.map fun (idle, after) => s.again e idle after
  | op =>
    if s.pending.isSome ∨ s.tState = .closed then none
    else
      let still (r : Except TcpPanic TcpSnd) := some (r.map fun s => SndStep.mk s [] none)
      match op with
      | .send chain oob moreToCome idleLong =>
        (s.usrSend chain oob moreToCome idleLong).map .ok
      | .output ackNow idleLong =>
        still (.ok (enter { s with ackNow := s.ackNow || ackNow } idleLong .ret))
      | .usrclosed idleLong => still (.ok (s.usrclosed idleLong))
      | .input a idleLong => still (s.input a idleLong)
      | .rexmtTimeout giveUp idleLong =>
        if s.rexmt then still (.ok (s.rexmtTimeout giveUp idleLong)) else none
      | .persistTimeout giveUp idleLong =>
        if s.persist then still (s.persistTimeout giveUp idleLong) else none
      | .drop idleLong => still (.ok (s.tcpDrop idleLong))
      | .close => still (.ok s.tcpClose)
      | .again _ => none

end TcpSnd

end Rhapsody.Netinet
