import Rhapsody.Netinet.PcbRuns

/-! The sockets to which `udp_input` gives a broadcast or multicast datagram. -/

namespace Rhapsody.Netinet

open List

namespace PcbState

variable {s : PcbState} {src sport dst dport : ℕ}

/-- Each UDP socket is on the chain of its local port once it is bound. -/
structure PortsHashed (s : PcbState) : Prop where
  chained : ∃ chain, s.Chained chain
  element : ∀ i ∈ s.blocks, (s.pcbs i).inpHead = .udp → (s.pcbs i).lportHashElement =
    if (s.pcbs i).inpLport = 0 then unset else (s.pcbs i).inpLport &&& 1023
  peer : ∀ i ∈ s.blocks, (s.pcbs i).inpHead = .udp → (s.pcbs i).inpFaddr = 0 →
    (s.pcbs i).inpFport = 0

lemma and_ne_unset (a : ℕ) : a &&& 1023 ≠ unset := by
  have := Nat.and_le_right (n := a) (m := 1023)
  unfold unset
  omega

lemma PortsHashed.inetLportHash1 (h : s.PortsHashed) (lport : ℕ) :
    (s.inetLportHash1 .udp lport).Nodup ∧
    ∀ j, j ∈ s.inetLportHash1 .udp lport ↔ j ∈ s.blocks ∧ (s.pcbs j).inpHead = .udp ∧
      (s.pcbs j).inpLport ≠ 0 ∧ (s.pcbs j).inpLport &&& 1023 = lport &&& 1023 := by
  obtain ⟨chain, hchain⟩ := h.chained
  have heq : s.inetLportHash1 .udp lport = chain .lport (.udp, lport &&& 1023) :=
    hchain.chain_eq .lport .udp _
  rw [heq]
  refine ⟨(hchain.holds .lport).nodup _, fun j => ?_⟩
  rw [hchain.mem]
  refine and_congr_right fun hj => and_congr_right fun hhead => ?_
  show (s.pcbs j).lportHashElement = _ ∧ _ ↔ _
  rw [h.element j hj hhead]
  split
  next hzero => simp [hzero, (and_ne_unset lport).symm]
  next hne => simp [hne, and_ne_unset]

/-- `last` is given its copy when the next match is found. The test that would end the loop early
masks the options with zero, so it fails. -/
def broadcastLoop (s : PcbState) (src sport dst : ℕ) : List ℕ → Option ℕ → List ℕ
  | [], last => last.toList
  | i :: rest, last =>
    let inp := s.pcbs i
    if inp.inpLaddr ≠ 0 ∧ inp.inpLaddr ≠ dst then s.broadcastLoop src sport dst rest last
    else if inp.inpFaddr ≠ 0 ∧ (inp.inpFaddr ≠ src ∨ inp.inpFport ≠ sport) then
      s.broadcastLoop src sport dst rest last
    else last.toList ++ s.broadcastLoop src sport dst rest (some i)

/-- The sockets to which a copy is appended, in order. -/
def udpBroadcast (s : PcbState) (src sport dst dport : ℕ) : List ℕ :=
  s.broadcastLoop src sport dst (s.inetLportHash1 .udp dport) none

/-- What the loop tests of a socket. -/
def Accepts (s : PcbState) (src sport dst i : ℕ) : Prop :=
  ((s.pcbs i).inpLaddr = 0 ∨ (s.pcbs i).inpLaddr = dst) ∧
  ((s.pcbs i).inpFaddr = 0 ∨ (s.pcbs i).inpFaddr = src ∧ (s.pcbs i).inpFport = sport)

instance (i : ℕ) : Decidable (s.Accepts src sport dst i) := instDecidableAnd

lemma broadcastLoop_eq (l : List ℕ) (last : Option ℕ) : s.broadcastLoop src sport dst l last =
      last.toList ++ l.filter fun i => s.Accepts src sport dst i := by
  induction l generalizing last with
  | nil => exact (append_nil _).symm
  | cons i l ih =>
    rw [broadcastLoop, filter_cons]
    simp only [ih, Accepts]
    split_ifs <;> grind

/-- The sockets with other ports on the chain of the destination port, and those that are not bound
if that is 0, have addresses that keep the datagram off. -/
structure KeptOff (s : PcbState) (src sport dst dport : ℕ) : Prop where
  others : ∀ j ∈ s.blocks, (s.pcbs j).inpHead = .udp → s.Accepts src sport dst j →
    (s.pcbs j).inpLport ≠ 0 → (s.pcbs j).inpLport &&& 1023 = dport &&& 1023 →
    (s.pcbs j).inpLport = dport
  unbound : ∀ j ∈ s.blocks, (s.pcbs j).inpHead = .udp → s.Accepts src sport dst j → dport = 0 →
    (s.pcbs j).inpLport ≠ 0

instance : Decidable (s.KeptOff src sport dst dport) :=
  decidable_of_iff
    ((∀ j ∈ s.blocks, (s.pcbs j).inpHead = .udp → s.Accepts src sport dst j →
      (s.pcbs j).inpLport ≠ 0 → (s.pcbs j).inpLport &&& 1023 = dport &&& 1023 →
      (s.pcbs j).inpLport = dport) ∧
    ∀ j ∈ s.blocks, (s.pcbs j).inpHead = .udp → s.Accepts src sport dst j → dport = 0 →
      (s.pcbs j).inpLport ≠ 0)
    ⟨fun h => ⟨h.1, h.2⟩, fun h => ⟨h.others, h.unbound⟩⟩

/-- The sockets that match get one copy each, and no other gets one, exactly if the addresses keep
it off the others. -/
theorem udpBroadcast_delivers (h : s.PortsHashed) :
    ((s.udpBroadcast src sport dst dport).Nodup ∧
    ∀ j, j ∈ s.udpBroadcast src sport dst dport ↔ j ∈ s.blocks ∧ (s.pcbs j).inpHead = .udp ∧
      (s.pcbs j).inpLport = dport ∧ ((s.pcbs j).inpLaddr = 0 ∨ (s.pcbs j).inpLaddr = dst) ∧
      ((s.pcbs j).inpFaddr = 0 ∧ (s.pcbs j).inpFport = 0 ∨
        (s.pcbs j).inpFaddr = src ∧ (s.pcbs j).inpFport = sport)) ↔
    s.KeptOff src sport dst dport := by
  obtain ⟨hnodup, hmem⟩ := h.inetLportHash1 dport
  rw [udpBroadcast, broadcastLoop_eq]
  simp only [Option.toList_none, nil_append, mem_filter, hmem, decide_eq_true_eq]
  constructor
  · rintro ⟨-, hiff⟩
    refine ⟨fun j hj hhead haccepts hport hchain => ?_, fun j hj hhead haccepts hzero hport => ?_⟩
    · exact ((hiff j).1 ⟨⟨hj, hhead, hport, hchain⟩, haccepts⟩).2.2.1
    · have hpeer := h.peer j hj hhead
      have hmatch := (hiff j).2 ⟨hj, hhead, hport.trans hzero.symm, haccepts.1,
        haccepts.2.imp_left fun hfaddr => ⟨hfaddr, hpeer hfaddr⟩⟩
      exact hmatch.1.2.2.1 hport
  · intro hkept
    refine ⟨hnodup.filter _, fun j => ?_⟩
    have hpeer := h.peer j
    have hothers := hkept.others j
    have hunbound := hkept.unbound j
    unfold Accepts at *
    grind

/-- Socket `i` is made and bound to the address and the port. -/
def bound (s : PcbState) (i laddr lport : ℕ) : PcbState :=
  ((s.inPcballoc i .udp false false false).modify i fun inp =>
    { inp with inpLaddr := laddr }).bindTo i lport

lemma bound_chained {chain} {i : ℕ} (h : s.Chained chain) (hi : i ∉ s.blocks) (laddr lport : ℕ) :
    ∃ chain, (s.bound i laddr lport).Chained chain := by
  have hacts := (Acts.refl (h.alloc hi .udp false false false) i).modify
    (fun inp => { inp with inpLaddr := laddr }) ⟨rfl, fun kind => by cases kind <;> rfl⟩
  have hhead : ((s.inPcballoc i .udp false false false).pcbs i).inpHead = .udp := by
    simp [inPcballoc]
  exact (bindTo_acts hacts mem_cons_self (by rw [hhead]; nofun) lport).chained

/-- The second socket, whose port is on the chain of the first one's, has another address. -/
theorem udpBroadcast_delivers_two :
    1 ∈ ((init.bound 1 0 1).bound 2 8 1025).udpBroadcast 5 6 7 1 ∧
      2 ∉ ((init.bound 1 0 1).bound 2 8 1025).udpBroadcast 5 6 7 1 := by
  obtain ⟨chain, hchain⟩ := init_ok.chained
  obtain ⟨chain, hchain⟩ := bound_chained hchain (i := 1) nofun 0 1
  have hports : ((init.bound 1 0 1).bound 2 8 1025).PortsHashed :=
    ⟨bound_chained hchain (by decide) 8 1025, by decide, by decide⟩
  obtain ⟨-, hmem⟩ := (@udpBroadcast_delivers _ 5 6 7 1 hports).2 (by decide)
  exact ⟨(hmem 1).2 (by decide), fun h => absurd ((hmem 2).1 h) (by decide)⟩

/-- The stored ports 1 and 1025 (ports 256 and 260 where `htons` swaps) are on one chain. -/
theorem udpBroadcast_other_port :
    ((init.bound 1 0 1).bound 2 0 1025).udpBroadcast 5 6 7 1 = [2, 1] ∧
    (((init.bound 1 0 1).bound 2 0 1025).pcbs 2).inpLport = 1025 := by
  decide

end PcbState

end Rhapsody.Netinet
