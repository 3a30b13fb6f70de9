import Rhapsody.Netinet.InPcb

/-! The requests of TCP, UDP and raw IP sockets that use the control blocks, from
`tcp_usrreq.c`, `tcp_input.c`, `udp_usrreq.c` and `raw_ip.c`, as far as they concern the
addresses and the hash chains. Each runs at `splnet`. -/

namespace Rhapsody.Netinet

namespace PcbState

variable (s : PcbState) (i : ℕ)

/-! ## UDP -/

/-- `prepend` tells whether `M_PREPEND` finds a header, `output` whether `ip_output`
succeeds. -/
def udpOutput (addr : Option SockaddrIn) (env : IfEnv) (prepend output : Bool) :
    PcbState × Option PcbErr :=
  match addr with
  | none =>
    if (s.pcbs i).inpFaddr = 0 then (s, some .notConn)
    else if !prepend then (s, some .noBufs)
    else (s, if output then none else some .output)
  | some sin =>
    let laddr := (s.pcbs i).inpLaddr
    if (s.pcbs i).inpFaddr ≠ 0 then (s, some .isConn)
    else
      match s.inPcbconnect i sin env with
      | (s, some error) => (s, some error)
      | (s, none) =>
        if !prepend then (s, some .noBufs)
        else
          let s := s.inPcbdisconnect i
          let s := s.modify i fun inp => { inp with inpLaddr := laddr }
          (s.hashInsert i, if output then none else some .output)

def udpBind (nam : SockaddrIn) (env : IfEnv) : PcbState × Option PcbErr :=
  match s.inPcbbind i (some nam) env with
  | (s, some error) => (s, some error)
  | (s, none) => (s.hashInsert i, none)

def udpConnect (nam : SockaddrIn) (env : IfEnv) : PcbState × Option PcbErr :=
  if (s.pcbs i).inpFaddr ≠ 0 then (s, some .isConn)
  else
    match (s.hashRemove i).inPcbconnect i nam env with
    | (s, some error) => (s, some error)
    | (s, none) => (s.modify i fun inp => { inp with isConnected := true }, none)

def udpDisconnect : PcbState × Option PcbErr :=
  if (s.pcbs i).inpFaddr = 0 then (s, some .notConn)
  else
    let s := s.inPcbdisconnect i
    let s := s.modify i fun inp => { inp with inpLaddr := 0 }
    let s := s.hashInsert i
    (s.modify i fun inp => { inp with isConnected := false }, none)

def udpClose : PcbState :=
  let s := if (s.pcbs i).isConnected then (s.udpDisconnect i).1 else s
  s.inPcbdetach i

/-! ## TCP -/

def tcpAttach (reuseAddr reusePort noFdRef tcpcb : Bool) : PcbState × Option PcbErr :=
  let s := s.inPcballoc i .tcp reuseAddr reusePort noFdRef
  if tcpcb then (s, none) else (s.inPcbdetach i, some .noBufs)

def tcpListen (env : IfEnv) : PcbState × Option PcbErr :=
  match if (s.pcbs i).inpLport = 0 then s.inPcbbind i none env else (s, none) with
  | (s, some error) => (s, some error)
  | (s, none) =>
    ((s.hashInsert i).modify i fun inp => { inp with acceptConn := true }, none)

def tcpConnect (nam : SockaddrIn) (env : IfEnv) (template : Bool) : PcbState × Option PcbErr :=
  match if (s.pcbs i).inpLport = 0 then s.inPcbbind i none env else (s, none) with
  | (s, some error) => (s, some error)
  | (s, none) =>
    match s.inPcbconnect i nam env with
    | (s, some error) => (s, some error)
    | (s, none) =>
      if template then (s.modify i fun inp => { inp with isConnected := true }, none)
      else (s.inPcbdisconnect i, some .noBufs)

def tcpChild (parent : Inpcb) (dst dport : ℕ) : PcbState :=
  let s := s.inPcballoc i .tcp parent.reuseAddr parent.reusePort true
  let s := s.modify i fun inp => { inp with inpLaddr := dst, inpLport := dport }
  (s.lportHashInsert i).modify i fun inp => { inp with noLookup := true }

/-- A `SYN`. The new block is given up if the segment is not wanted or has no buffer for the name
(`wanted`), or if it cannot be connected. -/
def tcpIncoming (src sport dst dport : ℕ) (env : IfEnv) (tcpcb wanted template : Bool) :
    Option (PcbState × Option PcbErr) :=
  match s.findpcb .tcp src sport dst dport with
  | none => none
  | some parent =>
    let head := s.pcbs parent
    if !head.acceptConn then none
    else if !tcpcb then some (s.tcpAttach i head.reuseAddr head.reusePort true false)
    else
      let s := s.tcpChild i head dst dport
      if !wanted then some (s.inPcbdetach i, none)
      else
        match s.inPcbconnect i ⟨true, true, src, sport⟩ env with
        | (s, some error) => some (s.inPcbdetach i, some error)
        | (s, none) =>
          let s := s.modify i fun inp => { inp with noLookup := false }
          if template then some (s.modify i fun inp => { inp with isConnected := true }, none)
          else some (s.inPcbdetach i, some .noBufs)

/-! ## Raw IP -/

def ripBind (nam : SockaddrIn) (env : IfEnv) : PcbState × Option PcbErr :=
  if !nam.sized then (s, some .inval)
  else if !env.ifnet || !nam.inet || (nam.sinAddr ≠ 0 && !env.ifWithAddr nam.sinAddr) then
    (s, some .addrNotAvail)
  else (s.modify i fun inp => { inp with inpLaddr := nam.sinAddr }, none)

def ripConnect (nam : SockaddrIn) (env : IfEnv) : PcbState × Option PcbErr :=
  if !nam.sized then (s, some .inval)
  else if !env.ifnet then (s, some .addrNotAvail)
  else if !nam.inet then (s, some .afNoSupport)
  else (s.modify i fun inp => { inp with inpFaddr := nam.sinAddr, isConnected := true }, none)

def ripDisconnect : PcbState × Option PcbErr :=
  if (s.pcbs i).isConnected then (s.inPcbdetach i, none) else (s, some .notConn)

end PcbState

/-- A request on a socket; or a connection arrives, ends by `soisdisconnected` while the block
stays, or the block is closed. -/
inductive PcbOp where
  | attach (p : Proto) (reuseAddr reusePort tcpcb : Bool)
  | setOptions (reuseAddr reusePort : Bool)
  | bind (nam : SockaddrIn) (env : IfEnv)
  | listen (env : IfEnv)
  | connect (nam : SockaddrIn) (env : IfEnv) (template : Bool)
  | incoming (src sport dst dport : ℕ) (env : IfEnv) (tcpcb wanted template : Bool)
  | accept
  | disconnect
  | send (addr : Option SockaddrIn) (env : IfEnv) (prepend output : Bool)
  | disconnected
  | close (gone : Bool)
  | tcpClose

namespace PcbState

variable (s : PcbState) (i : ℕ)

def init : PcbState :=
  ⟨fun _ => ⟨.raw, 0, 0, 0, 0, unset, unset, false, false, false, false, false, false⟩, [],
    fun _ => ⟨fun _ => none, fun _ => none, fun _ => none⟩, fun _ => 0, false⟩

def attach (reuseAddr reusePort tcpcb : Bool) : Proto → PcbState × Option PcbErr
  | .tcp => s.tcpAttach i reuseAddr reusePort false tcpcb
  | p => (s.inPcballoc i p reuseAddr reusePort false, none)

def bind (nam : SockaddrIn) (env : IfEnv) : Proto → PcbState × Option PcbErr
  | .tcp => s.inPcbbind i (some nam) env
  | .udp => s.udpBind i nam env
  | .raw => s.ripBind i nam env

def listen (env : IfEnv) : Proto → PcbState × Option PcbErr
  | .tcp => s.tcpListen i env
  | _ => (s, some .opNotSupp)

/-- `soconnect`, where the disconnection of a connected datagram socket is a step of its
own. -/
def connect (nam : SockaddrIn) (env : IfEnv) (template : Bool) : PcbState × Option PcbErr :=
  if (s.pcbs i).acceptConn then (s, some .opNotSupp)
  else match (s.pcbs i).inpHead with
    | .tcp =>
      if (s.pcbs i).isConnected then (s, some .isConn) else s.tcpConnect i nam env template
    | .udp => s.udpConnect i nam env
    | .raw => s.ripConnect i nam env

def disconnect : Proto → Option (PcbState × Option PcbErr)
  | .tcp => none
  | .udp => some (s.udpDisconnect i)
  | .raw => some (s.ripDisconnect i)

def close (gone : Bool) : Proto → PcbState
  | .tcp => if gone then s.inPcbdetach i else s.modify i fun inp => { inp with noFdRef := true }
  | .udp => s.udpClose i
  | .raw => s.inPcbdetach i

def request (inp : Inpcb) : PcbOp → Option (PcbState × Option PcbErr)
  | .setOptions reuseAddr reusePort =>
    some (s.modify i fun inp => { inp with reuseAddr := reuseAddr, reusePort := reusePort }, none)
  | .bind nam env => some (s.bind i nam env inp.inpHead)
  | .listen env => some (s.listen i env inp.inpHead)
  | .connect nam env template => some (s.connect i nam env template)
  | .disconnect => s.disconnect i inp.inpHead
  | .send addr env prepend output =>
    if inp.inpHead = .udp then some (s.udpOutput i addr env prepend output) else none
  | .close gone => some (s.close i gone inp.inpHead, none)
  | _ => none

def step : PcbOp → Option (PcbState × Option PcbErr)
  | .attach p reuseAddr reusePort tcpcb =>
    if i ∈ s.blocks then none else some (s.attach i reuseAddr reusePort tcpcb p)
  | .incoming src sport dst dport env tcpcb wanted template =>
    if i ∈ s.blocks then none
    else s.tcpIncoming i src sport dst dport env tcpcb wanted template
  | op =>
    if i ∉ s.blocks then none
    else
      let inp := s.pcbs i
      match op with
      | .accept =>
        if inp.noFdRef && inp.isConnected then
          some (s.modify i fun inp => { inp with noFdRef := false }, none)
        else none
      | .disconnected =>
        if inp.inpHead = .tcp then
          some (s.modify i fun inp => { inp with isConnected := false }, none)
        else none
      | .tcpClose => if inp.inpHead = .tcp then some (s.inPcbdetach i, none) else none
      | op => if inp.noFdRef then none else s.request i inp op

end PcbState

end Rhapsody.Netinet
