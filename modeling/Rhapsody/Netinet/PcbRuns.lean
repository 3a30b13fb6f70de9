import Rhapsody.Netinet.UdpHash

/-! Control blocks over whole runs. If no block is taken off a chain it is not on, and none
changes its addresses on a chain, the chains always agree with the blocks. -/

namespace Rhapsody.Netinet

open List Option Function

variable {inp : Inpcb} {s : PcbState}

namespace Inpcb

structure Half (inp : Inpcb) : Prop where
  lportPlaced : inp.Placed .lport
  lportSet : inp.lportHashElement ≠ unset → inp.inpLport ≠ 0
  accept : inp.acceptConn = true → inp.inpLport ≠ 0

structure Ok (inp : Inpcb) : Prop extends inp.Half where
  connPlaced : inp.Placed .conn
  connSet : inp.hashElement ≠ unset → inp.inpLport ≠ 0
  peer : inp.inpHead = .udp → inp.inpFaddr ≠ 0 → inp.hashElement ≠ unset

lemma Ok.placed (h : inp.Ok) (kind : HashKind) : inp.Placed kind := by
  cases kind
  · exact h.connPlaced
  · exact h.lportPlaced

lemma Ok.unset_of_lport (h : inp.Ok) (hlport : inp.inpLport = 0) :
    inp.hashElement = unset ∧ inp.lportHashElement = unset :=
  ⟨not_not.1 fun hne => h.connSet hne hlport, not_not.1 fun hne => h.lportSet hne hlport⟩

end Inpcb

namespace PcbState

section
variable {x y : Inpcb} {error : Option PcbErr} {laddr dst fport : ℕ}

lemma inserted_ok (h : inp.Half) (hunset : inp.hashElement = unset) (hlport : inp.inpLport ≠ 0)
    (hp : inp.inpHead ≠ .raw) : (inserted inp .conn).Ok := by
  have hplaced := inserted_placed inp .conn hunset hp
  have hset := inserted_set inp hp .conn
  rw [inserted_of_unset inp .conn hunset] at hplaced hset ⊢
  exact ⟨⟨h.lportPlaced, h.lportSet, h.accept⟩, hplaced, fun _ => hlport, fun _ _ => hset⟩

lemma reinserted_ok (h : inp.Ok) (hlport : inp.inpLport ≠ 0) (hp : inp.inpHead ≠ .raw) :
    (inserted inp .conn).Ok := by
  by_cases hunset : inp.hashElement = unset
  · exact inserted_ok h.toHalf hunset hlport hp
  unfold PcbState.inserted
  rw [if_pos]
  · exact h
  · exact hunset

lemma removed_ok (h : inp.Half) (hfaddr : inp.inpFaddr = 0) : (inp.setElement unset .conn).Ok :=
  ⟨⟨h.lportPlaced, h.lportSet, h.accept⟩, fun hne => absurd rfl hne, fun hne => absurd rfl hne,
    fun _ hne => absurd hfaddr hne⟩

lemma flags_ok (h : inp.Ok) (noLookup reuseAddr reusePort isConnected noFdRef : Bool) :
    Inpcb.Ok { inp with
      noLookup := noLookup, reuseAddr := reuseAddr, reusePort := reusePort
      isConnected := isConnected, noFdRef := noFdRef } :=
  ⟨⟨h.lportPlaced, h.lportSet, h.accept⟩, h.connPlaced, h.connSet, h.peer⟩

lemma BindOutcome.ok (h : BindOutcome inp x error) (hok : inp.Ok) (hp : inp.inpHead ≠ .raw) :
    x.Ok := by
  cases h with
  | unchanged error => exact hok
  | address laddr hlport =>
    exact ⟨⟨hok.lportPlaced, hok.lportSet, hok.accept⟩, hok.connPlaced, hok.connSet, hok.peer⟩
  | bound laddr lport hlport hne =>
    obtain ⟨hconn, hunset⟩ := hok.unset_of_lport hlport
    have hplaced :=
      inserted_placed { inp with inpLaddr := laddr, inpLport := lport } .lport hunset hp
    rw [inserted_of_unset { inp with inpLaddr := laddr, inpLport := lport } .lport hunset]
      at hplaced ⊢
    exact ⟨⟨hplaced, fun _ => hne, fun _ => hne⟩, fun hset => absurd hconn hset, fun _ => hne,
      hok.peer⟩

lemma ConnectOutcome.half (h : ConnectOutcome inp laddr dst fport y) (hok : inp.Ok)
    (hp : inp.inpHead ≠ .raw) : y.Half := by
  cases h with
  | bound hladdr => exact ⟨hok.lportPlaced, hok.lportSet, hok.accept⟩
  | binds x error hlport hbind =>
    have hx := hbind.ok hok hp
    exact ⟨hx.lportPlaced, hx.lportSet, hx.accept⟩

end

/-! ## The condition -/

/-- `in_pcbconnect` is given a proper name and knows an address of its own, and no other block has
the same two names. -/
structure Connects (s : PcbState) (i : ℕ) (sin : SockaddrIn) (env : IfEnv) : Prop where
  name : sin.sized = true ∧ sin.inet = true ∧ sin.sinPort ≠ 0
  source : sourceAddr (s.pcbs i) env (destination env sin.sinAddr) ≠ none
  unused : (s.pcbs i).noLookup = false →
    ∀ laddr ∈ sourceAddr (s.pcbs i) env (destination env sin.sinAddr),
      s.hashInPcblookup (s.inetHash1 (s.pcbs i).inpHead (s.pcbs i).inpLport
        (destination env sin.sinAddr) sin.sinPort) (destination env sin.sinAddr) sin.sinPort laddr
        (s.pcbs i).inpLport = none

def lportAfter (old : ℕ) : ℕ :=
  let new := (old + 1) % 2 ^ 16
  if old < ipportReserved ∨ ipportUserreserved < new then ipportReserved else new

/-- The ports that `in_pcbbind` tries in turn. -/
def triedPorts : ℕ → ℕ → List ℕ
  | _, 0 => []
  | old, rounds + 1 => lportAfter old :: triedPorts (lportAfter old) rounds

/-- No block of the protocol has one of the ports that are tried. -/
def HasPort (s : PcbState) (i : ℕ) (wild : Bool) (rounds : ℕ) : Prop :=
  ∃ lport ∈ triedPorts (s.headLport (s.pcbs i).inpHead) rounds, s.inPcblookup
    (s.inetLportHash1 (s.pcbs i).inpHead (htons lport)) 0 0 (s.pcbs i).inpLaddr (htons lport) wild =
      none

/-- The block has a local port, or `in_pcbconnect` finds one for it. -/
def GetsPort (s : PcbState) (i : ℕ) (env : IfEnv) : Prop :=
  (s.pcbs i).inpLport ≠ 0 ∨ (s.pcbs i).inpLaddr = 0 ∧ env.primary ≠ none ∧
    s.HasPort i (!(s.pcbs i).reuseAddr && !(s.pcbs i).reusePort &&
      (!(s.pcbs i).inpHead.connRequired || !(s.pcbs i).acceptConn))
      (ipportUserreserved - ipportReserved - 1)

/-- The condition on a step. A block is given back only from both its chains, a UDP block is
connected only from a connection chain, a TCP block only from none, and a datagram to an address
that can be connected to finds a header, if its block is on a chain, and a local port. -/
def Proper (s : PcbState) (i : ℕ) (op : PcbOp) : Prop :=
  let inp := s.pcbs i
  let both := inp.hashElement ≠ unset ∧ inp.lportHashElement ≠ unset
  match op with
  | .attach p _ _ tcpcb => p = .tcp → tcpcb = true
  | .connect nam env _ => match inp.inpHead with
    | .tcp => inp.acceptConn = false → inp.isConnected = false → s.Connects i nam env →
      inp.hashElement = unset
    | .udp => inp.acceptConn = false → inp.inpFaddr = 0 → inp.hashElement ≠ unset
    | .raw => True
  | .incoming src sport dst dport env tcpcb wanted _ =>
    ∀ j ∈ s.findpcb .tcp src sport dst dport, (s.pcbs j).acceptConn = true →
      tcpcb = true ∧ wanted = true ∧ sport ≠ 0 ∧
        sourceAddr { inp with inpLaddr := dst } env (destination env src) ≠ none
  | .disconnect => inp.inpHead = .raw → inp.isConnected = false
  | .send addr env prepend _ => ∀ sin ∈ addr, inp.inpFaddr = 0 → s.Connects i sin env →
    (inp.hashElement ≠ unset → prepend = true) ∧ s.GetsPort i env
  | .close gone => match inp.inpHead with
    | .tcp => gone = true → both
    | .udp => both
    | .raw => False
  | .tcpClose => both
  | _ => True

structure Ok (s : PcbState) : Prop where
  chained : ∃ chain, s.Chained chain
  blocks : ∀ i ∈ s.blocks, (s.pcbs i).Ok
  stray : s.stray = false

section
variable {s' : PcbState} {chain : HashKind → Proto × ℕ → List ℕ} {i : ℕ} {inp' : Inpcb}
  {safe : Prop}

lemma Acts.ok (h : s.Acts s' i inp' safe) (hok : s.Ok) (hsafe : safe) (hinp : inp'.Ok) :
    s'.Ok := by
  refine ⟨h.chained, fun j hj => ?_, (h.stray hsafe).trans hok.stray⟩
  rw [h.pcbs]
  by_cases hji : j = i
  · rw [hji, update_self]
    exact hinp
  · rw [update_of_ne hji]
    exact hok.blocks j (h.blocks ▸ hj)

lemma Ok.modify (h : s.Ok) (i : ℕ) (f : Inpcb → Inpcb) (hkeeps : (s.pcbs i).Keeps (f (s.pcbs i)))
    (hf : (f (s.pcbs i)).Ok) : (s.modify i f).Ok := by
  obtain ⟨chain, hchain⟩ := h.chained
  exact (modify_acts hchain i f hkeeps).ok h trivial hf

lemma Ok.setFlags (h : s.Ok) (hi : i ∈ s.blocks) {f : Inpcb → Inpcb} (hf : ∀ inp, f inp = { inp with
      noLookup := (f inp).noLookup, reuseAddr := (f inp).reuseAddr, reusePort := (f inp).reusePort
      isConnected := (f inp).isConnected, noFdRef := (f inp).noFdRef }) : (s.modify i f).Ok := by
  refine h.modify i f ?_ ?_
  · rw [hf]
    exact keeps_of_elements rfl rfl rfl
  · rw [hf]
    exact flags_ok (h.blocks i hi) _ _ _ _ _

lemma Ok.alloc (h : s.Ok) (hi : i ∉ s.blocks) (p : Proto) (reuseAddr reusePort noFdRef : Bool) :
    (s.inPcballoc i p reuseAddr reusePort noFdRef).Ok := by
  obtain ⟨chain, hchain⟩ := h.chained
  refine ⟨⟨chain, hchain.alloc hi p reuseAddr reusePort noFdRef⟩, fun j hj => ?_, h.stray⟩
  by_cases hji : j = i
  · subst hji
    have hself : (s.inPcballoc j p reuseAddr reusePort noFdRef).pcbs j =
        ⟨p, 0, 0, 0, 0, unset, unset, false, reuseAddr, reusePort, false, false, noFdRef⟩ :=
      update_self _ _ _
    rw [hself]
    exact ⟨⟨fun hne => absurd rfl hne, fun hne => absurd rfl hne, nofun⟩,
      fun hne => absurd rfl hne, fun hne => absurd rfl hne, fun _ hne => absurd rfl hne⟩
  have hother : (s.inPcballoc i p reuseAddr reusePort noFdRef).pcbs j = s.pcbs j :=
    update_of_ne hji _ _
  rw [hother]
  exact h.blocks j ((mem_cons.1 hj).resolve_left hji)

lemma Ok.detach (h : s.Ok) (hi : i ∈ s.blocks) (hp : (s.pcbs i).inpHead ≠ .raw)
    (hboth : (s.pcbs i).hashElement ≠ unset ∧ (s.pcbs i).lportHashElement ≠ unset) :
    (s.inPcbdetach i).Ok := by
  obtain ⟨chain, hchain⟩ := h.chained
  obtain ⟨hchained, hblocks, hpcbs, hstray⟩ := inPcbdetach_spec hchain hi hp
  refine ⟨hchained, fun j hj => ?_, ?_⟩
  · rw [hblocks] at hj
    have hji : j ≠ i := fun hji => hchain.nodup.not_mem_erase (hji ▸ hj)
    rw [hpcbs j hji]
    exact h.blocks j (mem_of_mem_erase hj)
  · rw [hstray fun kind => by cases kind; exacts [hboth.1, hboth.2]]
    exact h.stray

lemma parted_half (h : inp.Half) (laddr : ℕ) : (parted inp laddr).Half :=
  ⟨h.lportPlaced, h.lportSet, h.accept⟩

/-! ## Requests -/

lemma inserted_half (h : inp.Half) : (inserted inp .conn).Half := by
  unfold inserted
  split_ifs
  · exact h
  · exact ⟨h.lportPlaced, h.lportSet, h.accept⟩

lemma connects_of_eq {sin : SockaddrIn} {env : IfEnv}
    (h : s.inPcbconnect i sin env = (s', none)) : s.Connects i sin env := by
  unfold inPcbconnect at h
  dsimp only at h
  by_cases hsized : (!sin.sized) = true
  · rw [if_pos hsized] at h
    cases h
  by_cases hinet : (!sin.inet) = true
  · rw [if_neg hsized, if_pos hinet] at h
    cases h
  by_cases hport : sin.sinPort = 0
  · rw [if_neg hsized, if_neg hinet, if_pos hport] at h
    cases h
  rw [if_neg hsized, if_neg hinet, if_neg hport] at h
  refine ⟨⟨by simpa using hsized, by simpa using hinet, hport⟩, ?_, fun hlookup laddr hladdr => ?_⟩
  · intro hnone
    rw [hnone] at h
    cases h
  · rw [Option.mem_def.1 hladdr] at h
    dsimp only at h
    by_contra hused
    rw [if_pos ⟨hlookup, Option.isSome_iff_ne_none.2 hused⟩] at h
    cases h

lemma bindLoop_finds {wild : Bool} {rounds : ℕ} (h : s.HasPort i wild rounds) :
    (bindLoop i wild rounds s).2 ≠ none := by
  induction rounds generalizing s with
  | zero =>
    obtain ⟨lport, hmem, -⟩ := h
    cases hmem
  | succ rounds ih =>
    obtain ⟨lport, hmem, hfree⟩ := h
    unfold bindLoop
    dsimp only
    rw [update_self]
    split
    next hused =>
      refine ih ⟨lport, ?_, hfree⟩
      dsimp only
      rw [update_self]
      refine (mem_cons.1 hmem).resolve_left ?_
      rintro rfl
      cases hfree.symm.trans hused
    · nofun

lemma inPcbbind_none {env : IfEnv} (hport : s.GetsPort i env) (hlport : (s.pcbs i).inpLport = 0) :
    (s.pcbs i).inpLaddr = 0 ∧ (s.inPcbbind i none env).2 = none := by
  obtain ⟨hladdr, hprimary, hfinds⟩ := hport.resolve_left (not_not.2 hlport)
  refine ⟨hladdr, ?_⟩
  have hloop := bindLoop_finds hfinds
  unfold inPcbbind bindAny
  dsimp only
  rw [if_neg hprimary, if_neg (by simp [hlport, hladdr])]
  split
  next hnone =>
    rw [hnone] at hloop
    exact absurd rfl hloop
  · rfl

lemma inPcbconnect_lport (h : s.Chained chain) (hi : i ∈ s.blocks)
    (hp : (s.pcbs i).inpHead ≠ .raw) {sin : SockaddrIn} {env : IfEnv}
    (hc : s.inPcbconnect i sin env = (s', none)) (hport : s.GetsPort i env) :
    (s'.pcbs i).inpLport ≠ 0 := by
  by_cases hlport : (s.pcbs i).inpLport = 0
  · obtain ⟨hladdr, hnone⟩ := inPcbbind_none hport hlport
    obtain ⟨x, hbind, houtcome, -⟩ := inPcbbind_acts h hi hp none env
    rw [hnone] at houtcome
    have hx : x.inpHead ≠ .raw := by rwa [houtcome.head]
    have hacts (laddr) := setPeer_acts (hbind.modify (fun inp => { inp with inpLaddr := laddr })
      ⟨rfl, fun kind => by cases kind <;> rfl⟩) hi hx (destination env sin.sinAddr) sin.sinPort
    obtain ⟨⟨hsized, hinet, hsport⟩, hsource, -⟩ := connects_of_eq hc
    obtain ⟨laddr, hladdr'⟩ := Option.ne_none_iff_exists'.1 hsource
    have hpcb := (hacts laddr).self
    have hstate : s' = (((s.inPcbbind i none env).1.modify i fun inp =>
        { inp with inpLaddr := laddr }).modify i fun inp =>
          { inp with inpFaddr := destination env sin.sinAddr, inpFport := sin.sinPort }).hashInsert
            i := by
      unfold inPcbconnect at hc
      dsimp only at hc
      rw [if_neg (by simp [hsized]), if_neg (by simp [hinet]), if_neg hsport, hladdr'] at hc
      dsimp only at hc
      rw [if_pos hladdr, if_pos hlport] at hc
      split_ifs at hc
      · cases (Prod.mk.inj hc).2
      · exact (Prod.mk.inj hc).1.symm
    rw [hstate]
    rw [hpcb, inserted_lport]
    exact houtcome.lport
  · rcases inPcbconnect_acts h hi hp sin env with
      ⟨error, herror⟩ | ⟨s1, laddr, y, hc', -, -, hy, hacts⟩
    · cases herror.symm.trans hc
    · cases hc'.symm.trans hc
      rw [hacts.self, inserted_lport, hy.lport hlport]
      exact hlport

section
variable (h : s.Ok) (hi : i ∈ s.blocks)
include h hi

lemma udpOutput_ok (hp : (s.pcbs i).inpHead = .udp) (hfd : (s.pcbs i).noFdRef = false)
    (addr : Option SockaddrIn) (env : IfEnv) (prepend output : Bool)
    (hproper : ∀ sin ∈ addr, (s.pcbs i).inpFaddr = 0 → s.Connects i sin env →
      ((s.pcbs i).hashElement ≠ unset → prepend = true) ∧ s.GetsPort i env) :
    (s.udpOutput i addr env prepend output).1.Ok := by
  obtain ⟨chain, hchain⟩ := h.chained
  cases addr with
  | none =>
    unfold udpOutput
    split_ifs <;> exact h
  | some sin =>
    by_cases hfaddr : (s.pcbs i).inpFaddr = 0
    · rcases udpOutput_acts hchain hi hp hfd hfaddr sin env output with
        ⟨error, -, hout⟩ | ⟨s1, s2, laddr, dst, y, hc, hout, -, hy, hacts1, hacts⟩
      · rw [hout]
        exact h
      have hraw : y.inpHead ≠ .raw := by
        rw [hy.same.1]
        exact udp_ne_raw hp
      obtain ⟨hprepend, hport⟩ := hproper sin rfl hfaddr (connects_of_eq hc)
      have hhalf := hy.half (h.blocks i hi) (udp_ne_raw hp)
      have hlport : y.inpLport ≠ 0 := by
        have hlport := inPcbconnect_lport hchain hi (udp_ne_raw hp) hc hport
        rwa [hacts1.self, inserted_lport] at hlport
      cases prepend with
      | true =>
        rw [hout]
        exact hacts.ok h trivial (inserted_ok (parted_half hhalf _) rfl hlport hraw)
      | false =>
        -- a block that was on no chain is left connected on the right one
        have hunset : (s.pcbs i).hashElement = unset := by
          by_contra hset
          cases hprepend hset
        have hleft : s.udpOutput i (some sin) env false output = (s1, some .noBufs) := by
          unfold udpOutput
          dsimp only
          rw [if_neg (not_not.2 hfaddr), hc]
          rfl
        rw [hleft]
        exact hacts1.ok h trivial (inserted_ok hhalf (hy.same.2.1.trans hunset) hlport hraw)
    have hout : s.udpOutput i (some sin) env prepend output = (s, some .isConn) := by
      unfold udpOutput
      dsimp only
      rw [if_pos hfaddr]
    rw [hout]
    exact h

lemma bind_ok (nam : SockaddrIn) (env : IfEnv) : (s.bind i nam env (s.pcbs i).inpHead).1.Ok := by
  obtain ⟨chain, hchain⟩ := h.chained
  cases hp : (s.pcbs i).inpHead with
  | tcp =>
    have hraw : (s.pcbs i).inpHead ≠ .raw := by rw [hp]; exact nofun
    obtain ⟨x, hacts, hbind, -⟩ := inPcbbind_acts hchain hi hraw (some nam) env
    exact hacts.ok h trivial (hbind.ok (h.blocks i hi) hraw)
  | udp =>
    have hraw := udp_ne_raw hp
    show (s.udpBind i nam env).1.Ok
    rcases udpBind_acts hchain hi hp nam env with
      ⟨s1, error, x, hs, -, hbind, hacts⟩ | ⟨s1, x, hs, hbind, hacts⟩
    · rw [hs]
      exact hacts.ok h trivial (hbind.ok (h.blocks i hi) hraw)
    rw [hs]
    apply hacts.ok h trivial
    apply reinserted_ok (hbind.ok (h.blocks i hi) hraw) hbind.lport
    rw [hbind.head]
    exact hraw
  | raw =>
    show (s.ripBind i nam env).1.Ok
    unfold ripBind
    split_ifs
    · exact h
    · exact h
    have hinp := h.blocks i hi
    dsimp only
    refine h.modify i _ (keeps_of_elements rfl rfl rfl) ?_
    exact ⟨⟨hinp.lportPlaced, hinp.lportSet, hinp.accept⟩, hinp.connPlaced, hinp.connSet, hinp.peer⟩

lemma bindFirst_acts (hp : (s.pcbs i).inpHead = .tcp) (env : IfEnv) :
    ∃ s₁ error x, (if (s.pcbs i).inpLport = 0 then s.inPcbbind i none env else (s, none)) =
        (s₁, error) ∧ s.Acts s₁ i x True ∧ x.Ok ∧ (s.pcbs i).Alike x ∧
      (error = none → x.inpLport ≠ 0) := by
  obtain ⟨chain, hchain⟩ := h.chained
  have hraw : (s.pcbs i).inpHead ≠ .raw := by rw [hp]; exact nofun
  by_cases hlport : (s.pcbs i).inpLport = 0
  · obtain ⟨x, hacts, hbind, -⟩ := inPcbbind_acts hchain hi hraw none env
    rw [if_pos hlport]
    refine ⟨(s.inPcbbind i none env).1, (s.inPcbbind i none env).2, x, rfl, hacts,
      hbind.ok (h.blocks i hi) hraw, hbind.alike, fun herr => ?_⟩
    rw [herr] at hbind
    exact hbind.lport
  rw [if_neg hlport]
  exact ⟨s, none, _, rfl, .refl hchain i, h.blocks i hi, ⟨rfl, rfl, rfl, rfl, rfl⟩,
    fun _ => hlport⟩

lemma tcpListen_ok (hp : (s.pcbs i).inpHead = .tcp) (env : IfEnv) : (s.tcpListen i env).1.Ok := by
  obtain ⟨s1, error, x, hs, hacts, hx, halike, hlport⟩ := bindFirst_acts h hi hp env
  unfold tcpListen
  rw [hs]
  cases error with
  | some error => exact hacts.ok h trivial hx
  | none =>
    have hlport := hlport rfl
    have hraw : x.inpHead ≠ .raw := by
      rw [halike.head, hp]
      exact nofun
    have hok := reinserted_ok hx hlport hraw
    have hset := (hacts.insert hi hraw .conn).modify (fun inp => { inp with acceptConn := true })
      (keeps_of_elements rfl rfl rfl)
    apply hset.ok h trivial
    refine ⟨⟨hok.lportPlaced, hok.lportSet, fun _ => ?_⟩, hok.connPlaced, hok.connSet, hok.peer⟩
    rw [inserted_lport]
    exact hlport

lemma tcpConnect_ok (hp : (s.pcbs i).inpHead = .tcp) (hfd : (s.pcbs i).noFdRef = false)
    (nam : SockaddrIn) (env : IfEnv) (template : Bool)
    (hconnects : s.Connects i nam env → (s.pcbs i).hashElement = unset) :
    (s.tcpConnect i nam env template).1.Ok := by
  obtain ⟨s1, error, x, hs, hacts, hx, halike, hlport⟩ := bindFirst_acts h hi hp env
  have h1 := hacts.ok h trivial hx
  have hself := hacts.self
  unfold tcpConnect
  rw [hs]
  cases error with
  | some error => exact h1
  | none =>
    have hlport := hlport rfl
    have hraw : x.inpHead ≠ .raw := by
      rw [halike.head, hp]
      exact nofun
    obtain ⟨chain1, hchain1⟩ := h1.chained
    have hi1 : i ∈ s1.blocks := hacts.blocks ▸ hi
    dsimp only
    rcases inPcbconnect_acts hchain1 hi1 (by rw [hself]; exact hraw) nam env with
      ⟨error, hc⟩ | ⟨s2, laddr, y, hc, -, -, hy, hacts2⟩
    · rw [hc]
      exact h1
    have hunset : (s.pcbs i).hashElement = unset := by
      by_cases hzero : (s.pcbs i).inpLport = 0
      · exact ((h.blocks i hi).unset_of_lport hzero).1
      · rw [if_neg hzero] at hs
        cases hs
        exact hconnects (connects_of_eq hc)
    rw [hc]
    rw [hself] at hy
    have hhalf := hy.half hx hraw
    obtain ⟨hheady, hconn, hfdy⟩ := hy.same
    have hy' := hy.lport hlport
    have hok : (inserted y .conn).Ok := by
      apply inserted_ok hhalf (hconn.trans (halike.hashElement.trans hunset))
      · rw [hy']
        exact hlport
      · rw [hheady]
        exact hraw
    have h2 := hacts2.ok h1 trivial hok
    have hself2 := hacts2.self
    split_ifs
    · dsimp only
      exact h2.setFlags (hacts2.blocks ▸ hi1) fun _ => rfl
    obtain ⟨chain2, hchain2⟩ := h2.chained
    have hpart := inPcbdisconnect_acts hchain2 (hacts2.blocks ▸ hi1)
      (by rw [hself2, inserted_head, hheady]; exact hraw)
      (by rw [hself2, inserted_noFdRef, hfdy, halike.noFdRef]; exact hfd)
    apply hpart.ok h2
    · rw [hself2]
      exact inserted_set y (by rw [hheady]; exact hraw) .conn
    rw [hself2]
    have hhalf2 := inserted_half hhalf
    exact removed_ok ⟨hhalf2.lportPlaced, hhalf2.lportSet, hhalf2.accept⟩ rfl

lemma udpConnect_ok (hp : (s.pcbs i).inpHead = .udp) (nam : SockaddrIn) (env : IfEnv)
    (hset : (s.pcbs i).inpFaddr = 0 → (s.pcbs i).hashElement ≠ unset) :
    (s.udpConnect i nam env).1.Ok := by
  obtain ⟨chain, hchain⟩ := h.chained
  by_cases hfaddr : (s.pcbs i).inpFaddr = 0
  · have hx := removed_ok (h.blocks i hi).toHalf hfaddr
    rcases udpConnect_acts hchain hi hp hfaddr nam env with
      ⟨s1, error, hs, hacts⟩ | ⟨s1, laddr, dst, y, hs, -, hy, hacts⟩
    · rw [hs]
      exact hacts.ok h (hset hfaddr) hx
    have hraw : y.inpHead ≠ .raw := by
      rw [hy.same.1]
      exact udp_ne_raw hp
    rw [hs]
    -- a block on a connection chain has a port
    have hlport : y.inpLport ≠ 0 := by
      have hlport := (h.blocks i hi).connSet (hset hfaddr)
      rw [hy.lport hlport]
      exact hlport
    have hhalf := hy.half hx (udp_ne_raw hp)
    exact hacts.ok h (hset hfaddr) (flags_ok (inserted_ok hhalf hy.same.2.1 hlport hraw) _ _ _ _ _)
  · have hout : s.udpConnect i nam env = (s, some .isConn) := by
      unfold udpConnect
      rw [if_pos hfaddr]
    rw [hout]
    exact h

lemma udpDisconnect_ok (hp : (s.pcbs i).inpHead = .udp) (hfd : (s.pcbs i).noFdRef = false) :
    (s.udpDisconnect i).1.Ok ∧ (s.udpDisconnect i).1.blocks = s.blocks ∧
      ((s.udpDisconnect i).1.pcbs i).inpHead = .udp ∧
      ((s.udpDisconnect i).1.pcbs i).lportHashElement = (s.pcbs i).lportHashElement ∧
      ((s.pcbs i).hashElement ≠ unset → ((s.udpDisconnect i).1.pcbs i).hashElement ≠ unset) := by
  obtain ⟨chain, hchain⟩ := h.chained
  by_cases hfaddr : (s.pcbs i).inpFaddr = 0
  · have hout : s.udpDisconnect i = (s, some .notConn) := by
      unfold udpDisconnect
      rw [if_pos hfaddr]
    rw [hout]
    exact ⟨h, rfl, hp, rfl, id⟩
  have hinp := h.blocks i hi
  have hset := hinp.peer hp hfaddr
  obtain ⟨s1, hs, hacts⟩ := udpDisconnect_acts hchain hi hp hfd hfaddr
  have hok : (inserted (parted (s.pcbs i) 0) .conn).Ok :=
    inserted_ok (parted_half hinp.toHalf 0) rfl (hinp.connSet hset) (udp_ne_raw hp)
  rw [hs]
  rw [hacts.self]
  refine ⟨hacts.ok h hset (flags_ok hok _ _ _ _ _), hacts.blocks, ?_, ?_, fun _ => ?_⟩
  · exact (inserted_head (parted (s.pcbs i) 0) .conn).trans hp
  · rw [inserted_of_unset (parted _ _) .conn rfl]
    rfl
  · exact inserted_set (parted _ _) (udp_ne_raw hp) .conn

lemma udpClose_ok (hp : (s.pcbs i).inpHead = .udp) (hfd : (s.pcbs i).noFdRef = false)
    (hboth : (s.pcbs i).hashElement ≠ unset ∧ (s.pcbs i).lportHashElement ≠ unset) :
    (s.udpClose i).Ok := by
  unfold udpClose
  split_ifs
  · obtain ⟨h1, hblocks, hhead, hlport, hset⟩ := udpDisconnect_ok h hi hp hfd
    apply h1.detach (hblocks ▸ hi) (udp_ne_raw hhead)
    rw [hlport]
    exact ⟨hset hboth.1, hboth.2⟩
  · exact h.detach hi (udp_ne_raw hp) hboth

lemma ripConnect_ok (hp : (s.pcbs i).inpHead = .raw) (nam : SockaddrIn) (env : IfEnv) :
    (s.ripConnect i nam env).1.Ok := by
  unfold ripConnect
  split_ifs
  · exact h
  · exact h
  · exact h
  have hinp := h.blocks i hi
  dsimp only
  refine h.modify i _ (keeps_of_elements rfl rfl rfl) ?_
  refine ⟨⟨hinp.lportPlaced, hinp.lportSet, hinp.accept⟩, ?_, hinp.connSet, ?_⟩
  · refine fun hne => absurd ?_ hne
    by_contra hset
    obtain ⟨n, hn, -⟩ := hinp.placed .conn hset
    rw [hp] at hn
    cases hn
  · intro hudp
    cases hp.symm.trans hudp

end

/-! ## Incoming connections -/

variable {j faddr lport dport sport src : ℕ} {p : Proto} {r : PcbState × Option PcbErr} {op : PcbOp}

lemma leastWild_some {score : ℕ → Option ℕ} {wild : Bool} {l : List ℕ} {found : Option ℕ} {w : ℕ}
    (h : leastWild score wild l found w = some j) : found = some j ∨ j ∈ l ∧ score j ≠ none := by
  induction l generalizing found w with
  | nil => exact .inl h
  | cons i l ih =>
    unfold leastWild at h
    split at h
    · exact (ih h).imp_right fun ⟨hj, hs⟩ => ⟨mem_cons_of_mem i hj, hs⟩
    next w' hscore =>
      split_ifs at h
      · exact (ih h).imp_right fun ⟨hj, hs⟩ => ⟨mem_cons_of_mem i hj, hs⟩
      · obtain rfl : i = j := some.inj h
        exact .inr ⟨mem_cons_self, by rw [hscore]; exact nofun⟩
      · rcases ih h with hi | ⟨hj, hs⟩
        · obtain rfl : i = j := some.inj hi
          exact .inr ⟨mem_cons_self, by rw [hscore]; exact nofun⟩
        · exact .inr ⟨mem_cons_of_mem i hj, hs⟩
      · exact (ih h).imp_right fun ⟨hj, hs⟩ => ⟨mem_cons_of_mem i hj, hs⟩

variable {fport dst : ℕ}

lemma inetHash1_mem (h : s.Chained chain) (hj : j ∈ s.inetHash1 p lport faddr fport) :
    j ∈ s.blocks := by
  unfold inetHash1 at hj
  split at hj
  · cases hj
  rw [h.chain_eq] at hj
  exact ((h.mem .conn j _ _).1 hj).1

lemma findpcb_lport (h : s.Chained chain) (hj : s.findpcb p src sport dst dport = some j) :
    j ∈ s.blocks ∧ (s.pcbs j).inpLport = dport := by
  unfold findpcb at hj
  split at hj
  next k hexact =>
    obtain rfl : k = j := some.inj hj
    refine ⟨inetHash1_mem h (mem_of_find?_eq_some hexact), ?_⟩
    have hmatch := find?_some hexact
    exact (of_decide_eq_true hmatch).1
  next hexact =>
    rcases leastWild_some hj with hnone | ⟨hmem, hscore⟩
    · cases hnone
    · refine ⟨inetHash1_mem h hmem, ?_⟩
      by_contra hne
      apply hscore
      unfold Inpcb.wildcards
      rw [if_pos hne]

lemma tcpChild_ok (h : s.Ok) (hi : i ∉ s.blocks) (parent : Inpcb) (hdport : dport ≠ 0) :
    (s.tcpChild i parent dst dport).Ok ∧ i ∈ (s.tcpChild i parent dst dport).blocks ∧
      ((s.tcpChild i parent dst dport).pcbs i).inpHead = .tcp ∧
      ((s.tcpChild i parent dst dport).pcbs i).hashElement = unset ∧
      ((s.tcpChild i parent dst dport).pcbs i).lportHashElement ≠ unset ∧
      ((s.tcpChild i parent dst dport).pcbs i).inpLport = dport := by
  have h1 := h.alloc hi .tcp parent.reuseAddr parent.reusePort true
  have hi1 : i ∈ (s.inPcballoc i .tcp parent.reuseAddr parent.reusePort true).blocks :=
    mem_cons_self
  have hself : (s.inPcballoc i .tcp parent.reuseAddr parent.reusePort true).pcbs i =
      ⟨.tcp, 0, 0, 0, 0, unset, unset, false, parent.reuseAddr, parent.reusePort, false, false,
        true⟩ := update_self _ _ _
  unfold tcpChild
  generalize s.inPcballoc i .tcp parent.reuseAddr parent.reusePort true = s1 at h1 hi1 hself
  obtain ⟨chain1, hchain1⟩ := h1.chained
  have hset := (Acts.refl hchain1 i).modify
    (fun inp => { inp with inpLaddr := dst, inpLport := dport }) (keeps_of_elements rfl rfl rfl)
  have hraw : Inpcb.inpHead { s1.pcbs i with inpLaddr := dst, inpLport := dport } ≠ .raw := by
    rw [hself]
    exact nofun
  rw [hself] at hset hraw
  have hins := hset.insert hi1 hraw .lport
  have hplaced := inserted_placed _ .lport rfl hraw
  have hlportSet := inserted_set _ hraw .lport
  rw [inserted_of_unset _ .lport rfl] at hins hplaced hlportSet
  have hok : Inpcb.Ok _ := ⟨⟨hplaced, fun _ => hdport, nofun⟩, fun hne => absurd rfl hne,
    fun hne => absurd rfl hne, nofun⟩
  have hall := hins.modify (fun inp => { inp with noLookup := true })
    (keeps_of_elements rfl rfl rfl)
  have hpcb := hall.self
  refine ⟨hall.ok h1 trivial (flags_ok hok _ _ _ _ _), ?_⟩
  unfold lportHashInsert
  rw [hpcb, hall.blocks]
  exact ⟨hi1, rfl, rfl, hlportSet, rfl⟩

lemma tcpChild_connects {env : IfEnv} (parent : Inpcb) (dport : ℕ) (hsport : sport ≠ 0)
    (hsource : sourceAddr { s.pcbs i with inpLaddr := dst } env (destination env src) ≠ none) :
    ((s.tcpChild i parent dst dport).inPcbconnect i ⟨true, true, src, sport⟩ env).2 = none := by
  have hpcb : ((s.tcpChild i parent dst dport).pcbs i).inpLaddr = dst ∧
      ((s.tcpChild i parent dst dport).pcbs i).noLookup = true := by
    have hinsert (t : PcbState) : ((t.insert .lport i).pcbs i).inpLaddr = (t.pcbs i).inpLaddr := by
      unfold PcbState.insert
      dsimp only
      split_ifs
      · rfl
      split
      · rfl
      · dsimp only
        rw [update_self]
        rfl
    unfold tcpChild modify lportHashInsert
    dsimp only
    rw [update_self]
    refine ⟨(hinsert _).trans ?_, rfl⟩
    dsimp only
    rw [update_self]
  have hsource' : sourceAddr ((s.tcpChild i parent dst dport).pcbs i) env (destination env src) =
      sourceAddr { s.pcbs i with inpLaddr := dst } env (destination env src) := by
    unfold sourceAddr
    rw [hpcb.1]
  obtain ⟨laddr, hladdr⟩ := Option.ne_none_iff_exists'.1 hsource
  unfold inPcbconnect
  dsimp only
  rw [hsource', hladdr, if_neg nofun, if_neg nofun, if_neg hsport]
  dsimp only
  rw [hpcb.2, if_neg nofun]

lemma tcpIncoming_ok (h : s.Ok) (hi : i ∉ s.blocks) {env : IfEnv} {template : Bool}
    {tcpcb wanted : Bool}
    (hproper : ∀ j ∈ s.findpcb .tcp src sport dst dport, (s.pcbs j).acceptConn = true →
      tcpcb = true ∧ wanted = true ∧ sport ≠ 0 ∧
        sourceAddr { s.pcbs i with inpLaddr := dst } env (destination env src) ≠ none)
    (hr : s.tcpIncoming i src sport dst dport env tcpcb wanted template = some r) : r.1.Ok := by
  unfold tcpIncoming at hr
  split at hr
  · cases hr
  rename_i j hfind
  by_cases haccept : (!(s.pcbs j).acceptConn) = true
  · rw [if_pos haccept] at hr
    cases hr
  obtain ⟨rfl, rfl, hsport, hsource⟩ := hproper j hfind (by simpa using haccept)
  rw [if_neg haccept, if_neg nofun, if_neg nofun] at hr
  obtain ⟨chain, hchain⟩ := h.chained
  obtain ⟨hj, hlport⟩ := findpcb_lport hchain hfind
  have hdport : dport ≠ 0 := by
    rw [← hlport]
    exact (h.blocks j hj).accept (by simpa using haccept)
  obtain ⟨h1, hi1, hhead, hunset, hset, hlport1⟩ := tcpChild_ok h hi (s.pcbs j) hdport
  obtain ⟨chain1, hchain1⟩ := h1.chained
  have hraw : ((s.tcpChild i (s.pcbs j) dst dport).pcbs i).inpHead ≠ .raw := by
    rw [hhead]
    exact nofun
  rcases inPcbconnect_acts hchain1 hi1 hraw ⟨true, true, src, sport⟩ env with
    ⟨error, hc⟩ | ⟨s2, laddr, y, hc, -, -, hy, hacts⟩
  · have hconnects := tcpChild_connects (s.pcbs j) dport hsport hsource
    rw [hc] at hconnects
    cases hconnects
  rw [hc] at hr
  have hx := h1.blocks i hi1
  have hhalf := hy.half hx hraw
  obtain ⟨hheady, hconn, -⟩ := hy.same
  have hy' := hy.lport (by rw [hlport1]; exact hdport)
  have hrawy : y.inpHead ≠ .raw := by rwa [hheady]
  have hok : (inserted y .conn).Ok := by
    apply inserted_ok hhalf (hconn.trans hunset) _ hrawy
    rw [hy']
    rw [hlport1]
    exact hdport
  have hshown := hacts.modify (fun inp => { inp with noLookup := false })
    (keeps_of_elements rfl rfl rfl)
  have hpcb := hshown.self
  have h2 := hshown.ok h1 trivial (flags_ok hok _ _ _ _ _)
  have hi2 := hshown.blocks ▸ hi1
  split_ifs at hr
  · obtain rfl := some.inj hr
    dsimp only
    exact h2.setFlags hi2 fun _ => rfl
  obtain rfl := some.inj hr
  apply h2.detach hi2
  · rw [hpcb]
    rwa [inserted_head]
  rw [hpcb]
  refine ⟨inserted_set y hrawy .conn, ?_⟩
  rw [inserted_of_unset y .conn (hconn.trans hunset), hy']
  exact hset

lemma connect_ok (h : s.Ok) (hi : i ∈ s.blocks) (hfd : (s.pcbs i).noFdRef = false)
    (nam : SockaddrIn) (env : IfEnv) (template : Bool)
    (htcp : (s.pcbs i).inpHead = .tcp → (s.pcbs i).acceptConn = false →
      (s.pcbs i).isConnected = false → s.Connects i nam env → (s.pcbs i).hashElement = unset)
    (hudp : (s.pcbs i).inpHead = .udp → (s.pcbs i).acceptConn = false →
      (s.pcbs i).inpFaddr = 0 → (s.pcbs i).hashElement ≠ unset) :
    (s.connect i nam env template).1.Ok := by
  unfold connect
  by_cases haccept : (s.pcbs i).acceptConn = true
  · rw [if_pos haccept]
    exact h
  rw [if_neg haccept]
  have haccept := eq_false_of_ne_true haccept
  cases hp : (s.pcbs i).inpHead with
  | tcp =>
    split_ifs with hconn
    · exact h
    · exact tcpConnect_ok h hi hp hfd nam env template (htcp hp haccept (eq_false_of_ne_true hconn))
  | udp => exact udpConnect_ok h hi hp nam env (hudp hp haccept)
  | raw => exact ripConnect_ok h hi hp nam env

lemma request_ok (h : s.Ok) (hi : i ∈ s.blocks) (hfd : (s.pcbs i).noFdRef = false)
    (hproper : s.Proper i op) (hr : s.request i (s.pcbs i) op = some r) : r.1.Ok := by
  cases op with
  | attach p reuseAddr reusePort tcpcb => cases hr
  | incoming src sport dst dport env tcpcb wanted template => cases hr
  | accept => cases hr
  | disconnected => cases hr
  | tcpClose => cases hr
  | setOptions reuseAddr reusePort =>
    obtain rfl := some.inj hr
    dsimp only
    exact h.setFlags hi fun _ => rfl
  | bind nam env =>
    obtain rfl := some.inj hr
    exact bind_ok h hi nam env
  | listen env =>
    obtain rfl := some.inj hr
    cases hp : (s.pcbs i).inpHead with
    | tcp => exact tcpListen_ok h hi hp env
    | udp => exact h
    | raw => exact h
  | connect nam env template =>
    obtain rfl := some.inj hr
    unfold Proper at hproper
    dsimp only at hproper
    apply connect_ok h hi hfd
    · intro hp
      rw [hp] at hproper
      exact hproper
    · intro hp
      rw [hp] at hproper
      exact hproper
  | disconnect =>
    unfold request disconnect at hr
    dsimp only at hr
    split at hr
    · cases hr
    next hp =>
      obtain rfl := some.inj hr
      exact (udpDisconnect_ok h hi hp hfd).1
    next hp =>
      obtain rfl := some.inj hr
      have hconn : (s.pcbs i).isConnected = false := hproper hp
      unfold ripDisconnect
      rw [hconn]
      exact h
  | send addr env prepend output =>
    unfold request at hr
    split_ifs at hr with hp
    obtain rfl := some.inj hr
    exact udpOutput_ok h hi hp hfd addr env prepend output hproper
  | close gone =>
    obtain rfl := some.inj hr
    unfold Proper at hproper
    dsimp only at hproper
    cases hp : (s.pcbs i).inpHead with
    | tcp =>
      rw [hp] at hproper
      show (if gone then s.inPcbdetach i
        else s.modify i fun inp => { inp with noFdRef := true }).Ok
      split_ifs with hgone
      · exact h.detach hi (by rw [hp]; exact nofun) (hproper hgone)
      · exact h.setFlags hi fun _ => rfl
    | udp =>
      rw [hp] at hproper
      exact udpClose_ok h hi hp hfd hproper
    | raw =>
      rw [hp] at hproper
      exact hproper.elim

lemma step_ok (h : s.Ok) (hproper : s.Proper i op) (hr : s.step i op = some r) : r.1.Ok := by
  have huser : i ∈ s.blocks → ¬(s.pcbs i).noFdRef = true →
      s.request i (s.pcbs i) op = some r → r.1.Ok := fun hi hfd hr =>
    request_ok h hi (eq_false_of_ne_true hfd) hproper hr
  unfold step at hr
  cases op with
  | attach p reuseAddr reusePort tcpcb =>
    split_ifs at hr with hi
    obtain rfl := some.inj hr
    cases p with
    | tcp =>
      obtain rfl : tcpcb = true := hproper rfl
      exact h.alloc hi .tcp reuseAddr reusePort false
    | udp => exact h.alloc hi .udp reuseAddr reusePort false
    | raw => exact h.alloc hi .raw reuseAddr reusePort false
  | incoming src sport dst dport env tcpcb wanted template =>
    split_ifs at hr with hi
    exact tcpIncoming_ok h hi hproper hr
  | accept | disconnected =>
    dsimp only at hr
    split_ifs at hr with hi
    obtain rfl := some.inj hr
    dsimp only
    exact h.setFlags hi fun _ => rfl
  | tcpClose =>
    dsimp only at hr
    split_ifs at hr with hi hp
    obtain rfl := some.inj hr
    exact h.detach hi (by rw [hp]; exact nofun) hproper
  | setOptions reuseAddr reusePort | bind nam env | listen env | connect nam env template
  | disconnect | send addr env prepend output | close gone =>
    dsimp only at hr
    split_ifs at hr with hi hfd
    exact huser hi hfd hr

end

/-! ## Runs -/

/-- The chains met from their heads are those of the blocks: a block is on the chain that it names
and no other, that chain is the one its addresses and ports hash to, its neighbours are linked to
it, and no array has been used out of its bounds. -/
structure Hashed (s : PcbState) : Prop where
  linked : ∀ kind p e, (s.links kind).Linked (s.chain kind p e)
  nodup : ∀ kind p e, (s.chain kind p e).Nodup
  mem : ∀ kind p e, ∀ i ∈ s.blocks, i ∈ s.chain kind p e ↔
    p = (s.pcbs i).inpHead ∧ e = (s.pcbs i).element kind ∧ (s.pcbs i).element kind ≠ unset
  gone : ∀ kind p e, ∀ i, i ∉ s.blocks → i ∉ s.chain kind p e
  index : ∀ kind, ∀ i ∈ s.blocks, (s.pcbs i).element kind ≠ unset →
    ∃ n, (s.pcbs i).inpHead.nElements kind = some n ∧ (s.pcbs i).element kind < n ∧
      (s.pcbs i).element kind = (s.pcbs i).hashIndex n kind
  inBounds : s.stray = false

lemma Ok.hashed (h : s.Ok) : s.Hashed := by
  obtain ⟨chain, hchain⟩ := h.chained
  refine ⟨fun kind p e => ?_, fun kind p e => ?_, fun kind p e i hi => ?_, fun kind p e i hi => ?_,
    fun kind i hi hset => ?_, h.stray⟩
  · rw [hchain.chain_eq]
    exact (hchain.holds kind).linked (p, e)
  · rw [hchain.chain_eq]
    exact (hchain.holds kind).nodup (p, e)
  · rw [hchain.chain_eq, hchain.mem]
    constructor
    · rintro ⟨-, rfl, rfl, hset⟩
      exact ⟨rfl, rfl, hset⟩
    · rintro ⟨rfl, rfl, hset⟩
      exact ⟨hi, rfl, rfl, hset⟩
  · rw [hchain.chain_eq]
    exact hchain.loose (.inl hi) (p, e)
  obtain ⟨n, hn, hidx⟩ := (h.blocks i hi).placed kind hset
  refine ⟨n, hn, ?_, hidx⟩
  rw [hidx]
  exact Inpcb.hashIndex_lt _ _ (Proto.nElements_bounds hn).1

end PcbState

inductive PcbRun : PcbState → Prop where
  | init : PcbRun .init
  | step {s : PcbState} (run : PcbRun s) (i : ℕ) (op : PcbOp) (r : PcbState × Option PcbErr)
      (hproper : s.Proper i op) (hr : s.step i op = some r) : PcbRun r.1

lemma PcbState.init_ok : PcbState.init.Ok :=
  ⟨⟨fun _ _ => [], nodup_nil, fun _ => Buckets.holds_empty,
    fun _ _ _ _ => ⟨nofun, fun h => nomatch h.1⟩, nofun, fun _ => Nat.zero_le _⟩, nofun, rfl⟩

lemma PcbRun.ok (run : PcbRun s) : s.Ok := by
  induction run with
  | init => exact PcbState.init_ok
  | step run i op r hproper hr ih => exact PcbState.step_ok ih hproper hr

theorem pcbRun_hashed {s : PcbState} (run : PcbRun s) : s.Hashed := run.ok.hashed

def oneInterface : IfEnv where
  ifnet := true
  primary := some 0x0100000a
  broadcast := none
  ifWithAddr addr := addr = 0x0100000a
  source _ := none
  multicast := none
  suser := false

/-- A UDP socket is bound to port 2000 and connected to port 3000 of 10.0.0.2. -/
theorem pcbRun_hashed_udp : ∃ s, PcbRun s ∧ s.Hashed ∧ s.blocks = [7] ∧
    (s.pcbs 7).hashElement = 28 ∧ (s.pcbs 7).lportHashElement = 7 := by
  have run1 := PcbRun.init.step 7 (.attach .udp false false true) _ nofun rfl
  have run2 := run1.step 7 (.bind ⟨true, true, 0, htons 2000⟩ oneInterface) _ trivial rfl
  have hset : ∀ r ∈ PcbState.init.step 7 (.attach .udp false false true),
      ∀ r' ∈ r.1.step 7 (.bind ⟨true, true, 0, htons 2000⟩ oneInterface),
      (r'.1.pcbs 7).hashElement ≠ unset := by
    decide +kernel
  have hset := hset _ rfl _ rfl
  have run3 := run2.step 7 (.connect ⟨true, true, 0x0200000a, htons 3000⟩ oneInterface true) _
    (fun _ _ => hset) rfl
  refine ⟨_, run3, pcbRun_hashed run3, ?_⟩
  decide +kernel

namespace PcbState

def runOps (s : PcbState) : List (ℕ × PcbOp) → Option PcbState
  | [] => some s
  | (i, op) :: ops => (s.step i op).bind fun r => r.1.runOps ops

end PcbState

/-- A TCP socket that was never on a chain is closed: `hash_remove` uses `hash_array` at index -1,
as does the release of a raw IP socket. A UDP socket bound to port 2000 sends a datagram that finds
no header: it stays connected on the chain of its wildcard address. -/
theorem pcb_stray_and_misplaced :
    (∃ s, PcbState.init.runOps [(7, .attach .tcp false false true), (7, .close true)] = some s ∧
      s.stray = true) ∧
    (∃ s, PcbState.init.runOps [(7, .attach .raw false false true), (7, .close true)] = some s ∧
      s.stray = true) ∧
    ∃ s, PcbState.init.runOps [(7, .attach .udp false false true),
        (7, .bind ⟨true, true, 0, htons 2000⟩ oneInterface),
        (7, .send (some ⟨true, true, 0x0200000a, htons 3000⟩) oneInterface false true)] = some s ∧
      7 ∈ s.blocks ∧ (s.pcbs 7).hashElement ≠ unset ∧
      (s.pcbs 7).hashElement ≠ (s.pcbs 7).hashIndex 2048 .conn := by
  refine ⟨⟨_, rfl, rfl⟩, ⟨_, rfl, rfl⟩, ⟨_, rfl, ?_⟩⟩
  decide +kernel

end Rhapsody.Netinet
