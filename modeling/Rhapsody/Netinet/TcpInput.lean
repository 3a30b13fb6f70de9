import Mathlib

/-! The receiving half of `bsd/netinet/tcp_input.c`, from `TCPS_ESTABLISHED` on: header
prediction, the trimming of a segment to the window, the reassembly queue of `tcp_reass`, and the
FIN. Sequence numbers are compared by the sign of their difference. What the code reads of the
sending half (acknowledgements, timestamps) is an input of each call. -/

namespace Rhapsody.Netinet

/-- From `TCPS_ESTABLISHED` on. `closed` is a control block that `tcp_close` has freed. -/
inductive TcpState
  | closed
  | established
  | closeWait
  | finWait1
  | closing
  | lastAck
  | finWait2
  | timeWait
  deriving DecidableEq

namespace TcpState

def num : TcpState → ℕ
  | closed => 0
  | established => 4
  | closeWait => 5
  | finWait1 => 6
  | closing => 7
  | lastAck => 8
  | finWait2 => 9
  | timeWait => 10

def haveRcvdFin (s : TcpState) : Bool :=
  timeWait.num ≤ s.num

end TcpState

abbrev TcpSeq := BitVec 32

def seqGt (a b : TcpSeq) : Bool :=
  0 < (a - b).toInt

def seqLeq (a b : TcpSeq) : Bool :=
  (a - b).toInt ≤ 0

/-- A `tcpiphdr` with the text that `REASS_MBUF` holds: `tiFin` is `TH_FIN` of `ti_flags`. -/
structure TcpSeg where
  tiSeq : TcpSeq
  tiFin : Bool
  data : List UInt8
  deriving DecidableEq

namespace TcpSeg

def tiLen (ti : TcpSeg) : ℕ :=
  ti.data.length

def tiEnd (ti : TcpSeg) : TcpSeq :=
  ti.tiSeq + BitVec.ofNat 32 ti.tiLen

def adj (ti : TcpSeg) (i : ℕ) : TcpSeg :=
  { ti with
    tiSeq := ti.tiSeq + BitVec.ofNat 32 i
    data  := ti.data.drop i }

end TcpSeg

/-- The receiving fields. `soRcv` is every byte appended to the receive buffer so far, and `fins`
how often `EV_FIN` was posted. -/
structure Tcpcb where
  tState : TcpState
  rcvNxt : TcpSeq
  rcvAdv : TcpSeq
  rcvWnd : BitVec 32
  lastAckSent : TcpSeq
  segs : List TcpSeg
  soRcv : List UInt8
  cantRcvMore : Bool
  fins : ℕ
  deriving DecidableEq

variable (tp : Tcpcb)

def Tcpcb.soIsDisconnected : Tcpcb :=
  { tp with cantRcvMore := true }

def tcpClose : Tcpcb :=
  { tp.soIsDisconnected with
    tState := .closed
    segs   := [] }

/-! ### The reassembly queue -/

/-- The segment before `ti` may have some of its data already; nothing is left of `ti` if it has
all. -/
def cutByPreceding (q : Option TcpSeg) (ti : TcpSeg) : Option TcpSeg :=
  match q with
  | none => some ti
  | some q =>
    let i := (q.tiEnd - ti.tiSeq).toInt
    if 0 < i then
      if ti.tiLen ≤ i then none else some (ti.adj i.toNat)
    else some ti

/-- The segments after `ti` that it overlaps are trimmed, or dequeued where it covers them. -/
def trimSucceeding (tiEnd : TcpSeq) : List TcpSeg → List TcpSeg
  | [] => []
  | q :: rest =>
    let i := (tiEnd - q.tiSeq).toInt
    if i ≤ 0 then q :: rest
    else if i < q.tiLen then q.adj i.toNat :: rest
    else trimSucceeding tiEnd rest

def enqueue (segs : List TcpSeg) (ti : TcpSeg) : Option (List TcpSeg) :=
  let before := segs.takeWhile fun q => !seqGt q.tiSeq ti.tiSeq
  let after := segs.dropWhile fun q => !seqGt q.tiSeq ti.tiSeq
  match cutByPreceding before.getLast? ti with
  | none => none
  | some ti => some (before ++ ti :: trimSucceeding ti.tiEnd after)

/-- The `do` loop at `present`. The flags are those of the last segment presented. -/
def presentLoop : List TcpSeg → Tcpcb → Bool → Tcpcb × Bool
  | [], tp, flags => ({ tp with segs := [] }, flags)
  | ti :: rest, tp, flags =>
    if ti.tiSeq = tp.rcvNxt then
      presentLoop rest
        { tp with
          rcvNxt := tp.rcvNxt + BitVec.ofNat 32 ti.tiLen
          soRcv  := if tp.cantRcvMore then tp.soRcv else tp.soRcv ++ ti.data }
        ti.tiFin
    else ({ tp with segs := ti :: rest }, flags)

def tcpReass (ti : TcpSeg) : Tcpcb × Bool :=
  match enqueue tp.segs ti with
  | none => (tp, false)
  | some segs => presentLoop segs tp false

def tcpReassMacro (ti : TcpSeg) : Tcpcb × Bool :=
  if ti.tiSeq = tp.rcvNxt ∧ tp.segs = [] ∧ tp.tState = .established then
    ({ tp with
       rcvNxt := tp.rcvNxt + BitVec.ofNat 32 ti.tiLen
       soRcv  := tp.soRcv ++ ti.data }, ti.tiFin)
  else tcpReass tp ti

/-! ### A segment arrives -/

/-- What `tcp_input` has of a segment. `ti_len` is a `short`: `ip_len` is one, and the header offset
was checked against it. -/
structure TcpPacket where
  tiSeq : TcpSeq
  syn : Bool
  fin : Bool
  rst : Bool
  ack : Bool
  data : List UInt8
  short : data.length < 2 ^ 15

/-- The acknowledgement is not above `snd_una`, ends the call (duplicates after `tcprexmtthresh`, or
above `snd_max`), or is new, and may be that of our FIN. -/
inductive AckVerdict
  | old
  | drop
  | new (ourFinIsAcked : Bool)
  deriving DecidableEq

structure Arrival where
  /-- `sbspace (&so->so_rcv)`, a `long`. -/
  sbspace : BitVec 32
  /-- The tests of header prediction on timestamps, `tiwin`, `snd_wnd`, `snd_nxt`, `snd_max`. -/
  predicted : Bool
  /-- The tests of header prediction on the acknowledgement of a segment without text. -/
  pureAck : Bool
  /-- `ti->ti_ack == tp->snd_una`. -/
  ackIsUna : Bool
  /-- The timestamp is refused by PAWS. -/
  paws : Bool
  /-- `SS_NOFDREF`: the user processes are gone. -/
  noFdRef : Bool
  ack : AckVerdict
  deriving DecidableEq

/-- Header prediction, with the segment taken or seen to be a pure acknowledgement. -/
def headerPrediction (p : TcpPacket) (e : Arrival) : Option Tcpcb :=
  if tp.tState = .established ∧ p.syn = false ∧ p.fin = false ∧ p.rst = false ∧ p.ack = true ∧
      e.predicted ∧ p.tiSeq = tp.rcvNxt then
    if p.data.length = 0 then
      if e.pureAck then some tp else none
    else if e.ackIsUna ∧ tp.segs = [] ∧ (p.data.length : ℤ) ≤ e.sbspace.toInt then
      some { tp with
        rcvNxt := tp.rcvNxt + BitVec.ofNat 32 p.data.length
        soRcv  := tp.soRcv ++ p.data }
    else none
  else none

/-- The window before the segment is looked at. `max` is that of two `u_int`s. -/
def recvWindow (sbspace : BitVec 32) : BitVec 32 :=
  let win := if sbspace.toInt < 0 then 0 else sbspace
  let adv := tp.rcvAdv - tp.rcvNxt
  if adv < win then win else adv

/-- The segment as it is trimmed. `ti` keeps its own `ti_flags`; `syn`, `fin` and `ack` are in the
variable `tiflags`. -/
structure Work where
  ti : TcpSeg
  syn : Bool
  fin : Bool
  ack : Bool
  deriving DecidableEq

variable (w : Work)

namespace Work

def ofPacket (p : TcpPacket) : Work where
  ti := { tiSeq := p.tiSeq, tiFin := p.fin, data := p.data }
  syn := p.syn
  fin := p.fin
  ack := p.ack

def stripSyn : Work :=
  if w.syn then { w with syn := false, ti := { w.ti with tiSeq := w.ti.tiSeq + 1 } } else w

def dropFront (todrop : ℤ) : Option Work :=
  if w.ti.tiLen ≤ todrop then
    if w.fin ∧ todrop = w.ti.tiLen + 1 then
      some { w with fin := false, ti := w.ti.adj w.ti.tiLen }
    else if todrop ≠ 0 ∨ w.ack = false then none
    else some { w with ti := w.ti.adj todrop.toNat }
  else some { w with ti := w.ti.adj todrop.toNat }

def trimFront (rcvNxt : TcpSeq) : Option Work :=
  let todrop := (rcvNxt - w.ti.tiSeq).toInt
  if 0 < todrop then w.stripSyn.dropFront (todrop - if w.syn then 1 else 0) else some w

def cutTail (todrop : ℤ) : Work :=
  { w with
    fin := false
    ti  := { w.ti with data := w.ti.data.take (w.ti.tiLen - todrop.toNat) } }

end Work

inductive Fit
  | dropAfterAck
  | reopen
  | keep (w : Work)

def trimWindow : Fit :=
  let todrop := (w.ti.tiEnd - (tp.rcvNxt + tp.rcvWnd)).toInt
  if 0 < todrop then
    if w.ti.tiLen ≤ todrop then
      if w.syn ∧ tp.tState = .timeWait ∧ seqGt w.ti.tiSeq tp.rcvNxt then .reopen
      else if tp.rcvWnd = 0 ∧ w.ti.tiSeq = tp.rcvNxt then .keep (w.cutTail todrop)
      else .dropAfterAck
    else .keep (w.cutTail todrop)
  else .keep w

/-- A reset is taken only with the number of the last acknowledgement sent. -/
def reset (seq : TcpSeq) : Tcpcb :=
  if tp.lastAckSent = seq ∧ tp.tState ≠ .timeWait then tcpClose tp else tp

def ackProcessing : AckVerdict → Tcpcb × Bool
  | .old => (tp, true)
  | .drop => (tp, false)
  | .new ours =>
    match tp.tState with
    | .finWait1 => (if ours then { tp with tState := .finWait2 } else tp, true)
    | .closing =>
      (if ours then { tp.soIsDisconnected with tState := .timeWait } else tp, true)
    | .lastAck => if ours then (tcpClose tp, false) else (tp, true)
    | .timeWait => (tp, false)
    | _ => (tp, true)

inductive Passage
  | stop (tp : Tcpcb)
  | text (tp : Tcpcb) (w : Work)

def checkFlags (e : Arrival) (w : Work) : Passage :=
  if w.syn then .stop (tcpClose tp)
  else if w.ack = false then .stop tp
  else
    match ackProcessing tp e.ack with
    | (tp, true) => .text tp w
    | (tp, false) => .stop tp

def sift (p : TcpPacket) (e : Arrival) : Passage :=
  let tp := { tp with rcvWnd := recvWindow tp e.sbspace }
  if p.rst then .stop (reset tp p.tiSeq)
  else if e.paws then .stop tp
  else
    match (Work.ofPacket p).trimFront tp.rcvNxt with
    | none => .stop tp
    | some w =>
      if e.noFdRef ∧ TcpState.closeWait.num < tp.tState.num ∧ w.ti.tiLen ≠ 0 then
        .stop (tcpClose tp)
      else
        match trimWindow tp w with
        | .dropAfterAck => .stop tp
        | .reopen => .stop (tcpClose tp)
        | .keep w => checkFlags tp e w

def finReceived : Tcpcb :=
  let tp :=
    if tp.tState.haveRcvdFin then tp
    else { tp with
      cantRcvMore := true
      fins        := tp.fins + 1
      rcvNxt      := tp.rcvNxt + 1 }
  match tp.tState with
  | .established => { tp with tState := .closeWait }
  | .finWait1 => { tp with tState := .closing }
  | .finWait2 => { tp.soIsDisconnected with tState := .timeWait }
  | _ => tp

def Work.hasText (tp : Tcpcb) : Bool :=
  (w.ti.tiLen ≠ 0 || w.fin) && !tp.tState.haveRcvdFin

def doData : Tcpcb :=
  if w.hasText tp then
    match tcpReassMacro tp w.ti with
    | (tp, true) => finReceived tp
    | (tp, false) => tp
  else tp

def tcpInput (p : TcpPacket) (e : Arrival) : Tcpcb :=
  if tp.tState = .closed then tp
  else
    match headerPrediction tp p e with
    | some tp => tp
    | none =>
      match sift tp p e with
      | .stop tp => tp
      | .text tp w => doData tp w

/-! ### The other calls that move the receiver -/

structure Advert where
  sbspace : BitVec 32
  sbHiwat : ℕ
  tMaxseg : ℕ
  rcvScale : ℕ

def Advert.win (o : Advert) (tp : Tcpcb) : ℤ :=
  let space := o.sbspace.toInt
  let win := if space < (o.sbHiwat / 4 : ℕ) ∧ space < o.tMaxseg then 0 else space
  let win := min win (65535 <<< o.rcvScale : ℕ)
  max win (tp.rcvAdv - tp.rcvNxt).toInt

def tcpOutput (o : Advert) : Tcpcb :=
  let edge := tp.rcvNxt + BitVec.ofInt 32 (o.win tp)
  { tp with
    rcvAdv      := if 0 < o.win tp ∧ seqGt edge tp.rcvAdv then edge else tp.rcvAdv
    lastAckSent := tp.rcvNxt }

def tcpUsrClosed : Tcpcb :=
  let tp :=
    match tp.tState with
    | .established => { tp with tState := .finWait1 }
    | .closeWait => { tp with tState := .lastAck }
    | _ => tp
  if TcpState.finWait2.num ≤ tp.tState.num then tp.soIsDisconnected else tp

end Rhapsody.Netinet
