import Rhapsody.Lib.Buckets

/-! The internet control blocks of `netinet/in_pcb.c`. A block may be on two hash chains, for its
connection and for its local port. Its links are kept in the chains and the rest in its record.
Ports and addresses are the words that are stored, in network order. -/

namespace Rhapsody.Netinet

open Function

inductive Proto where
  | tcp | udp | raw
  deriving DecidableEq

inductive HashKind where
  | conn | lport
  deriving DecidableEq

/-- `n_elements` of the table of a protocol; raw IP gives none to `in_pcballoc`. -/
def Proto.nElements : Proto → HashKind → Option ℕ
  | .tcp, .conn => some 8192
  | .tcp, .lport => some 1024
  | .udp, .conn => some 2048
  | .udp, .lport => some 1024
  | .raw, _ => none

def Proto.connRequired (p : Proto) : Bool := p = .tcp

def unset : ℕ := 2 ^ 32 - 1

/-- A control block and what is used of its socket: `SO_REUSEADDR`, `SO_REUSEPORT`, `SO_ACCEPTCONN`,
one of `SS_ISCONNECTED` and `SS_ISCONNECTING`, and `SS_NOFDREF`. -/
structure Inpcb where
  inpHead : Proto
  inpFaddr : ℕ
  inpFport : ℕ
  inpLaddr : ℕ
  inpLport : ℕ
  hashElement : ℕ
  lportHashElement : ℕ
  noLookup : Bool
  reuseAddr : Bool
  reusePort : Bool
  acceptConn : Bool
  isConnected : Bool
  noFdRef : Bool
  deriving DecidableEq

namespace Inpcb

def element (inp : Inpcb) : HashKind → ℕ
  | .conn => inp.hashElement
  | .lport => inp.lportHashElement

def setElement (inp : Inpcb) (e : ℕ) : HashKind → Inpcb
  | .conn => { inp with hashElement := e }
  | .lport => { inp with lportHashElement := e }

def hashIndex (inp : Inpcb) (n : ℕ) : HashKind → ℕ
  | .conn => (inp.inpLport + inp.inpFport + inp.inpFaddr) % 2 ^ 32 &&& (n - 1)
  | .lport => inp.inpLport &&& (n - 1)

/-- The number of wildcards with which a block matches, `none` if it does not. -/
def wildcards (inp : Inpcb) (faddr fport laddr lport : ℕ) : Option ℕ :=
  if inp.inpLport ≠ lport then none
  else
    let l : Option ℕ := if inp.inpLaddr ≠ 0 then
        if laddr = 0 then some 1 else if inp.inpLaddr ≠ laddr then none else some 0
      else some (if laddr ≠ 0 then 1 else 0)
    let f : Option ℕ := if inp.inpFaddr ≠ 0 then
        if faddr = 0 then some 1
        else if inp.inpFaddr ≠ faddr ∨ inp.inpFport ≠ fport then none else some 0
      else some (if faddr ≠ 0 then 1 else 0)
    l.bind fun w => f.map fun w' => w + w'

end Inpcb

/-- `blocks` are the control blocks on the lists, the latest first; `stray` tells whether a hash
array was used outside its bounds or without a table. -/
structure PcbState where
  pcbs : ℕ → Inpcb
  blocks : List ℕ
  links : HashKind → Buckets (Proto × ℕ) ℕ
  /-- `inp_lport` of the list heads, in host order. -/
  headLport : Proto → ℕ
  stray : Bool

inductive PcbErr where
  | addrNotAvail | inval | access | addrInUse | afNoSupport | isConn | notConn | opNotSupp
  | noBufs | output
  deriving DecidableEq

structure SockaddrIn where
  /-- `m_len` is the size of the structure. -/
  sized : Bool
  inet : Bool
  sinAddr : ℕ
  sinPort : ℕ
  deriving DecidableEq

structure IfEnv where
  ifnet : Bool
  /-- The address of `in_ifaddr`. -/
  primary : Option ℕ
  /-- Its broadcast address, if it has `IFF_BROADCAST`. -/
  broadcast : Option ℕ
  ifWithAddr : ℕ → Bool
  /-- The address of the interface that the route to a destination,
  `ifa_ifwithdstaddr` or `ifa_ifwithnet` gives. -/
  source : ℕ → Option ℕ
  /-- The interface set as a multicast option and its address. -/
  multicast : Option (Option ℕ)
  suser : Bool

def htons (n : ℕ) : ℕ := n % 256 * 256 + n / 256 % 256

def inMulticast (addr : ℕ) : Bool := addr % 256 / 16 = 14

def inaddrBroadcast : ℕ := 2 ^ 32 - 1

def ipportReserved : ℕ := 1024

def ipportUserreserved : ℕ := 5000

/-- The loop of `in_pcblookup`, `hash_in_pcbwild` and `lport_hash_in_pcbwild`. -/
def leastWild (score : ℕ → Option ℕ) (wild : Bool) : List ℕ → Option ℕ → ℕ → Option ℕ
  | [], found, _ => found
  | i :: rest, found, matchwild =>
    match score i with
    | none => leastWild score wild rest found matchwild
    | some w =>
      if w ≠ 0 ∧ wild = false then leastWild score wild rest found matchwild
      else if w < matchwild then
        if w = 0 then some i else leastWild score wild rest (some i) w
      else leastWild score wild rest found matchwild

namespace PcbState

variable (s : PcbState)

variable (i : ℕ)

def modify (f : Inpcb → Inpcb) : PcbState :=
  { s with pcbs := update s.pcbs i (f (s.pcbs i)) }

/-! ## The hash tables -/

def remove (kind : HashKind) (i : ℕ) : PcbState :=
  let inp := s.pcbs i
  match inp.inpHead.nElements kind with
  | none => { s with stray := true }
  | some n =>
    let e := inp.element kind
    let b := s.links kind
    let b := if e < n then b.cutHead (inp.inpHead, e) i else b
    { s with
      pcbs := update s.pcbs i (inp.setElement unset kind)
      links := update s.links kind (b.cutLinks i)
      stray := s.stray || decide (n ≤ e) }

def hashRemove : PcbState := s.remove .conn i

def lportHashRemove : PcbState := s.remove .lport i

def insert (kind : HashKind) (i : ℕ) : PcbState :=
  let inp := s.pcbs i
  if inp.element kind ≠ unset then s
  else
    match inp.inpHead.nElements kind with
    | none => { s with stray := true }
    | some n =>
      let hIdx := inp.hashIndex n kind
      { s with
        pcbs := update s.pcbs i (inp.setElement hIdx kind)
        links := update s.links kind ((s.links kind).push (inp.inpHead, hIdx) i) }

def hashInsert : PcbState := s.insert .conn i

def lportHashInsert : PcbState := s.insert .lport i

def chain (kind : HashKind) (p : Proto) (e : ℕ) : List ℕ :=
  (s.links kind).walk s.blocks.length ((s.links kind).head (p, e))

variable (p : Proto)

def inetHash1 (lport faddr fport : ℕ) : List ℕ :=
  match p.nElements .conn with
  | none => []
  | some n => s.chain .conn p ((lport + fport + faddr) % 2 ^ 32 &&& (n - 1))

def inetLportHash1 (lport : ℕ) : List ℕ :=
  match p.nElements .lport with
  | none => []
  | some n => s.chain .lport p (lport &&& (n - 1))

/-- `in_pcblookup` over a list, `hash_in_pcbwild` over a connection chain and
`lport_hash_in_pcbwild` over a local port chain. -/
def inPcblookup (blocks : List ℕ) (faddr fport laddr lport : ℕ) (wild : Bool) : Option ℕ :=
  leastWild (fun i => (s.pcbs i).wildcards faddr fport laddr lport) wild blocks none 3

def hashInPcblookup (blocks : List ℕ) (faddr fport laddr lport : ℕ) : Option ℕ :=
  blocks.find? fun i => (s.pcbs i).inpLport = lport ∧ (s.pcbs i).inpLaddr = laddr ∧
    (s.pcbs i).inpFaddr = faddr ∧ (s.pcbs i).inpFport = fport

def findpcb (src sport dst dport : ℕ) : Option ℕ :=
  match s.hashInPcblookup (s.inetHash1 p dport src sport) src sport dst dport with
  | some i => some i
  | none => s.inPcblookup (s.inetHash1 p dport 0 0) src sport dst dport true

/-! ## Allocation, addresses and release -/

def inPcballoc (reuseAddr reusePort noFdRef : Bool) : PcbState :=
  { s with
    pcbs := update s.pcbs i
      ⟨p, 0, 0, 0, 0, unset, unset, false, reuseAddr, reusePort, false, false, noFdRef⟩
    blocks := i :: s.blocks
    links := fun kind => (s.links kind).clear i }

def nextLport : ℕ :=
  let old := s.headLport p
  let new := (old + 1) % 2 ^ 16
  if old < ipportReserved ∨ ipportUserreserved < new then ipportReserved else new

def bindLoop (i : ℕ) (wild : Bool) : ℕ → PcbState → PcbState × Option ℕ
  | 0, s => (s, none)
  | rounds + 1, s =>
    let p := (s.pcbs i).inpHead
    let s := { s with headLport := update s.headLport p (s.nextLport p) }
    let lport := htons (s.headLport p)
    match s.inPcblookup (s.inetLportHash1 p lport) 0 0 (s.pcbs i).inpLaddr lport wild with
    | some _ => bindLoop i wild rounds s
    | none => (s, some lport)

def bindTo (lport : ℕ) : PcbState :=
  (s.modify i fun inp => { inp with inpLport := lport }).lportHashInsert i

def bindAny (wild : Bool) : PcbState × Option PcbErr :=
  match bindLoop i wild (ipportUserreserved - ipportReserved - 1) s with
  | (s, none) => (s, some .addrInUse)
  | (s, some lport) => (s.bindTo i lport, none)

def shares (inp t : Inpcb) (addr : ℕ) : Bool :=
  if inMulticast addr && inp.reuseAddr then t.reuseAddr || t.reusePort
  else inp.reusePort && t.reusePort

def inPcbbind (nam : Option SockaddrIn) (env : IfEnv) : PcbState × Option PcbErr :=
  let inp := s.pcbs i
  let wild := !inp.reuseAddr && !inp.reusePort && (!inp.inpHead.connRequired || !inp.acceptConn)
  if env.primary = none then (s, some .addrNotAvail)
  else if inp.inpLport ≠ 0 ∨ inp.inpLaddr ≠ 0 then (s, some .inval)
  else
    match nam with
    | none => s.bindAny i wild
    | some sin =>
      if !sin.sized then (s, some .inval)
      else if !inMulticast sin.sinAddr && sin.sinAddr ≠ 0 && !env.ifWithAddr sin.sinAddr then
        (s, some .addrNotAvail)
      else if sin.sinPort ≠ 0 then
        if htons sin.sinPort < ipportReserved ∧ env.suser = false then (s, some .access)
        else
          match s.inPcblookup (s.inetLportHash1 inp.inpHead sin.sinPort) 0 0 sin.sinAddr
              sin.sinPort wild with
          | some t =>
            if shares inp (s.pcbs t) sin.sinAddr then
              ((s.modify i fun inp => { inp with inpLaddr := sin.sinAddr }).bindTo i sin.sinPort,
                none)
            else (s, some .addrInUse)
          | none =>
            ((s.modify i fun inp => { inp with inpLaddr := sin.sinAddr }).bindTo i sin.sinPort,
              none)
      else (s.modify i fun inp => { inp with inpLaddr := sin.sinAddr }).bindAny i wild

def destination (env : IfEnv) (addr : ℕ) : ℕ :=
  match env.primary with
  | none => addr
  | some a =>
    if addr = 0 then a
    else if addr = inaddrBroadcast then env.broadcast.getD addr else addr

def sourceAddr (inp : Inpcb) (env : IfEnv) (dst : ℕ) : Option ℕ :=
  if inp.inpLaddr ≠ 0 then some inp.inpLaddr
  else
    match (env.source dst).or env.primary with
    | none => none
    | some a => if inMulticast dst then env.multicast.getD (some a) else some a

def inPcbconnect (sin : SockaddrIn) (env : IfEnv) : PcbState × Option PcbErr :=
  let inp := s.pcbs i
  if !sin.sized then (s, some .inval)
  else if !sin.inet then (s, some .afNoSupport)
  else if sin.sinPort = 0 then (s, some .addrNotAvail)
  else
    let dst := destination env sin.sinAddr
    match sourceAddr inp env dst with
    | none => (s, some .addrNotAvail)
    | some laddr =>
      if inp.noLookup = false ∧ (s.hashInPcblookup
          (s.inetHash1 inp.inpHead inp.inpLport dst sin.sinPort) dst sin.sinPort laddr
          inp.inpLport).isSome then (s, some .addrInUse)
      else
        let s := if inp.inpLaddr = 0 then
            let s := if inp.inpLport = 0 then (s.inPcbbind i none env).1 else s
            s.modify i fun inp => { inp with inpLaddr := laddr }
          else s
        let s := s.modify i fun inp => { inp with inpFaddr := dst, inpFport := sin.sinPort }
        (s.hashInsert i, none)

/-- `hash_element >= 0` and `lport_hash_element >= 0` hold of every block, as the fields
are unsigned. -/
def inPcbdetach : PcbState :=
  let s := (s.hashRemove i).lportHashRemove i
  { s with blocks := s.blocks.erase i }

def inPcbdisconnect : PcbState :=
  let s := s.modify i fun inp => { inp with inpFaddr := 0, inpFport := 0 }
  if (s.pcbs i).noFdRef then s.inPcbdetach i else s.hashRemove i

end PcbState

end Rhapsody.Netinet
