import Rhapsody.Netinet.InPcbHash

/-! What the requests of UDP sockets do to a control block and its chains. -/

namespace Rhapsody.Netinet

structure Inpcb.Alike (inp inp' : Inpcb) : Prop where
  head : inp'.inpHead = inp.inpHead
  hashElement : inp'.hashElement = inp.hashElement
  faddr : inp'.inpFaddr = inp.inpFaddr
  fport : inp'.inpFport = inp.inpFport
  noFdRef : inp'.noFdRef = inp.noFdRef

namespace PcbState

section
variable {inp x y : Inpcb} {error : Option PcbErr} {laddr dst fport : ℕ}

lemma inserted_of_unset (inp : Inpcb) (kind : HashKind) (h : inp.element kind = unset) :
    inserted inp kind =
      inp.setElement (inp.hashIndex ((inp.inpHead.nElements kind).getD 0) kind) kind :=
  if_neg (not_not.2 h)

lemma inserted_placed (inp : Inpcb) (kind : HashKind) (h : inp.element kind = unset)
    (hp : inp.inpHead ≠ .raw) : (inserted inp kind).Placed kind := by
  obtain ⟨n, hn⟩ := Proto.nElements_isSome hp kind
  intro _
  rw [inserted_of_unset inp kind h]
  refine ⟨n, ?_, ?_⟩
  · rw [Inpcb.inpHead_setElement]
    exact hn
  · rw [Inpcb.element_setElement, Inpcb.hashIndex_setElement, hn]
    rfl

lemma inserted_set (inp : Inpcb) (hp : inp.inpHead ≠ .raw) (kind : HashKind) :
    (inserted inp kind).element kind ≠ unset := by
  obtain ⟨n, hn⟩ := Proto.nElements_isSome hp kind
  obtain ⟨hpos, hlt⟩ := Proto.nElements_bounds hn
  unfold inserted
  split_ifs with hset
  · exact hset
  have hidx := inp.hashIndex_lt kind hpos
  rw [Inpcb.element_setElement, hn, Option.getD_some]
  omega

lemma inserted_lport (inp : Inpcb) (kind : HashKind) :
    (inserted inp kind).inpLport = inp.inpLport := by
  unfold inserted
  split_ifs
  · rfl
  · cases kind <;> rfl

lemma inserted_noFdRef (inp : Inpcb) : (inserted inp .conn).noFdRef = inp.noFdRef := by
  unfold inserted
  split_ifs <;> rfl

lemma inserted_head (inp : Inpcb) (kind : HashKind) :
    (inserted inp kind).inpHead = inp.inpHead := by
  unfold inserted
  split_ifs
  · rfl
  · exact Inpcb.inpHead_setElement _ _ _

lemma BindOutcome.alike (h : BindOutcome inp x error) : inp.Alike x := by
  cases h with
  | unchanged error | address laddr hlport => exact ⟨rfl, rfl, rfl, rfl, rfl⟩
  | bound laddr lport hlport hne =>
    unfold PcbState.inserted
    split_ifs <;> exact ⟨rfl, rfl, rfl, rfl, rfl⟩

lemma BindOutcome.lport (h : BindOutcome inp x none) : x.inpLport ≠ 0 := by
  cases h with
  | bound laddr lport hlport hne =>
    unfold PcbState.inserted
    split_ifs <;> exact hne

lemma ConnectOutcome.same (h : ConnectOutcome inp laddr dst fport y) :
    y.inpHead = inp.inpHead ∧ y.hashElement = inp.hashElement ∧ y.noFdRef = inp.noFdRef := by
  cases h with
  | bound hladdr => exact ⟨rfl, rfl, rfl⟩
  | binds x error hlport hbind =>
    exact ⟨hbind.alike.head, hbind.alike.hashElement, hbind.alike.noFdRef⟩

lemma ConnectOutcome.lport (h : ConnectOutcome inp laddr dst fport y) (hlport : inp.inpLport ≠ 0) :
    y = { inp with inpLaddr := laddr, inpFaddr := dst, inpFport := fport } := by
  cases h with
  | bound hladdr => rfl
  | binds x error hzero hbind => exact absurd hzero hlport

def parted (inp : Inpcb) (laddr : ℕ) : Inpcb :=
  { inp with inpFaddr := 0, inpFport := 0, inpLaddr := laddr, hashElement := unset }

lemma parted_inserted (inp : Inpcb) (laddr : ℕ) :
    parted (inserted inp .conn) laddr = parted inp laddr := by
  unfold inserted
  split_ifs <;> rfl

lemma keeps_of_elements {inp' : Inpcb} (hhead : inp'.inpHead = inp.inpHead)
    (hconn : inp'.hashElement = inp.hashElement)
    (hlport : inp'.lportHashElement = inp.lportHashElement) : inp.Keeps inp' :=
  ⟨hhead, fun kind => by cases kind; exacts [hconn, hlport]⟩

end

section
variable {s s' : PcbState} {chain : HashKind → Proto × ℕ → List ℕ} {i : ℕ}

lemma Chained.chain_eq (h : s.Chained chain) (kind : HashKind) (p : Proto) (e : ℕ) :
    s.chain kind p e = chain kind (p, e) := by
  apply (h.holds kind).walk_eq
  exact (h.holds kind).length_le fun j hj => ((h.mem kind j p e).1 hj).1

section
variable (h : s.Chained chain) (hi : i ∈ s.blocks) (hp : (s.pcbs i).inpHead ≠ .raw)
  (hfd : (s.pcbs i).noFdRef = false)
include h hi hp hfd

lemma inPcbdisconnect_acts : s.Acts (s.inPcbdisconnect i) i
      (Inpcb.setElement { s.pcbs i with inpFaddr := 0, inpFport := 0 } unset .conn)
      ((s.pcbs i).hashElement ≠ unset) := by
  have hset := modify_acts h i (fun inp => { inp with inpFaddr := 0, inpFport := 0 })
    (keeps_of_elements rfl rfl rfl)
  unfold inPcbdisconnect
  dsimp only
  rw [hset.self, if_neg (by rw [hfd]; exact nofun)]
  exact (hset.remove hi hp .conn).weaken fun hne => ⟨trivial, hne⟩

lemma rejoin_acts (laddr : ℕ) : s.Acts
      (((s.inPcbdisconnect i).modify i fun inp => { inp with inpLaddr := laddr }).hashInsert i) i
      (inserted (parted (s.pcbs i) laddr) .conn) ((s.pcbs i).hashElement ≠ unset) := by
  have hset := (inPcbdisconnect_acts h hi hp hfd).modify (fun inp => { inp with inpLaddr := laddr })
    (keeps_of_elements rfl rfl rfl)
  exact hset.insert hi hp .conn

end

lemma udp_ne_raw (hp : (s.pcbs i).inpHead = .udp) : (s.pcbs i).inpHead ≠ .raw := by
  rw [hp]
  exact nofun

section
variable (h : s.Chained chain) (hi : i ∈ s.blocks) (hp : (s.pcbs i).inpHead = .udp)
include h hi hp

lemma udpBind_acts (nam : SockaddrIn) (env : IfEnv) :
    (∃ s1 error x, s.udpBind i nam env = (s1, some error) ∧ s1.links = s.links ∧
        BindOutcome (s.pcbs i) x (some error) ∧ s.Acts s1 i x True) ∨
      ∃ s1 x, s.udpBind i nam env = (s1, none) ∧ BindOutcome (s.pcbs i) x none ∧
        s.Acts s1 i (inserted x .conn) True := by
  have hraw := udp_ne_raw hp
  obtain ⟨x, hacts, hbind, hlinks⟩ := inPcbbind_acts h hi hraw (some nam) env
  unfold udpBind
  generalize s.inPcbbind i (some nam) env = r at hacts hbind hlinks
  obtain ⟨s1, _ | error⟩ := r
  · exact .inr ⟨_, x, rfl, hbind, hacts.insert hi (by rwa [hbind.head]) .conn⟩
  · exact .inl ⟨s1, error, x, rfl, hlinks nofun, hbind, hacts⟩

lemma udpConnect_acts (hfaddr : (s.pcbs i).inpFaddr = 0) (nam : SockaddrIn) (env : IfEnv) :
    (∃ s1 error, s.udpConnect i nam env = (s1, some error) ∧
        s.Acts s1 i ((s.pcbs i).setElement unset .conn) ((s.pcbs i).hashElement ≠ unset)) ∨
      ∃ s1 laddr dst y, s.udpConnect i nam env = (s1, none) ∧ nam.sinPort ≠ 0 ∧
        ConnectOutcome ((s.pcbs i).setElement unset .conn) laddr dst nam.sinPort y ∧
        s.Acts s1 i { inserted y .conn with isConnected := true }
          ((s.pcbs i).hashElement ≠ unset) := by
  have hraw := udp_ne_raw hp
  have hremove := remove_acts h hi hraw .conn
  obtain ⟨chain1, h1⟩ := hremove.chained
  have hself := hremove.self
  have hi1 : i ∈ (s.remove .conn i).blocks := hremove.blocks ▸ hi
  have hraw1 : ((s.remove .conn i).pcbs i).inpHead ≠ .raw := by
    rw [hself, Inpcb.inpHead_setElement]
    exact hraw
  unfold udpConnect hashRemove
  rw [if_neg (not_not.2 hfaddr)]
  rcases inPcbconnect_acts h1 hi1 hraw1 nam env with
    ⟨error, hc⟩ | ⟨s2, laddr, y, hc, hport, -, hy, hacts⟩
  · rw [hc]
    exact .inl ⟨_, error, rfl, hremove⟩
  rw [hc]
  rw [hself] at hy
  have hset := (hremove.trans hacts).modify (fun inp => { inp with isConnected := true })
    (keeps_of_elements rfl rfl rfl)
  exact .inr ⟨_, laddr, _, y, rfl, hport, hy, hset.weaken fun hne => ⟨hne, trivial⟩⟩

lemma udpDisconnect_acts (hfd : (s.pcbs i).noFdRef = false) (hfaddr : (s.pcbs i).inpFaddr ≠ 0) :
    ∃ s1, s.udpDisconnect i = (s1, none) ∧
      s.Acts s1 i { inserted (parted (s.pcbs i) 0) .conn with isConnected := false }
        ((s.pcbs i).hashElement ≠ unset) := by
  unfold udpDisconnect
  rw [if_neg hfaddr]
  exact ⟨_, rfl, (rejoin_acts h hi (udp_ne_raw hp) hfd 0).modify
    (fun inp => { inp with isConnected := false }) (keeps_of_elements rfl rfl rfl)⟩

lemma udpOutput_acts (hfd : (s.pcbs i).noFdRef = false) (hfaddr : (s.pcbs i).inpFaddr = 0)
    (sin : SockaddrIn) (env : IfEnv) (output : Bool) :
    (∃ error, s.inPcbconnect i sin env = (s, some error) ∧
        ∀ prepend, s.udpOutput i (some sin) env prepend output = (s, some error)) ∨
      ∃ s1 s₂ laddr dst y, s.inPcbconnect i sin env = (s1, none) ∧
        s.udpOutput i (some sin) env true output = (s₂, if output then none else some .output) ∧
        s₂ = ((s1.inPcbdisconnect i).modify i fun inp =>
          { inp with inpLaddr := (s.pcbs i).inpLaddr }).hashInsert i ∧
        ConnectOutcome (s.pcbs i) laddr dst sin.sinPort y ∧ s.Acts s1 i (inserted y .conn) True ∧
        s.Acts s₂ i (inserted (parted y (s.pcbs i).inpLaddr) .conn) True := by
  have hraw := udp_ne_raw hp
  rcases inPcbconnect_acts h hi hraw sin env with
    ⟨error, hc⟩ | ⟨s1, laddr, y, hc, -, -, hy, hacts⟩
  · refine .inl ⟨error, hc, fun prepend => ?_⟩
    unfold udpOutput
    dsimp only
    rw [if_neg (not_not.2 hfaddr), hc]
  obtain ⟨chain1, h1⟩ := hacts.chained
  have hself := hacts.self
  obtain ⟨hhead, -, hfdy⟩ := hy.same
  have hrawy : y.inpHead ≠ .raw := by rwa [hhead]
  have hjoin := rejoin_acts h1 (hacts.blocks ▸ hi) (by rw [hself, inserted_head]; exact hrawy)
    (by rw [hself, inserted_noFdRef, hfdy]; exact hfd) (s.pcbs i).inpLaddr
  rw [hself, parted_inserted] at hjoin
  refine .inr ⟨s1, _, laddr, _, y, hc, ?_, rfl, hy, hacts, (hacts.trans hjoin).weaken fun _ =>
    ⟨trivial, inserted_set y hrawy .conn⟩⟩
  unfold udpOutput
  dsimp only
  rw [if_neg (not_not.2 hfaddr), hc]
  rfl

end

end

end PcbState

end Rhapsody.Netinet
