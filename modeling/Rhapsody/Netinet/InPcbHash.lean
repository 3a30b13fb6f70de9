import Rhapsody.Netinet.PcbRequests

/-! What the functions on control blocks do to the hash chains. Each changes the record of one
block and keeps the chains in step with the cached chain numbers; that a number is the right hash
is a matter of one record. -/

namespace Rhapsody.Netinet

open Function List

namespace Inpcb

variable (inp : Inpcb) (e n : ℕ) (kind kind' : HashKind)

@[simp] lemma inpHead_setElement : (inp.setElement e kind).inpHead = inp.inpHead := by
  cases kind <;> rfl

@[simp] lemma element_setElement : (inp.setElement e kind).element kind = e := by
  cases kind <;> rfl

lemma element_setElement_ne {kind kind' : HashKind} (h : kind' ≠ kind) :
    (inp.setElement e kind).element kind' = inp.element kind' := by
  cases kind <;> cases kind' <;> first | rfl | exact absurd rfl h

@[simp] lemma hashIndex_setElement :
    (inp.setElement e kind).hashIndex n kind' = inp.hashIndex n kind' := by
  cases kind <;> cases kind' <;> rfl

lemma hashIndex_lt {n : ℕ} (hn : 0 < n) : inp.hashIndex n kind < n := by
  have hlt : ∀ a : ℕ, a &&& (n - 1) < n := by
    intro a
    have := Nat.and_le_right (n := a) (m := n - 1)
    omega
  cases kind
  all_goals exact hlt _

/-- A block that is on a chain is on the one that its addresses and ports hash to. -/
def Placed (inp : Inpcb) (kind : HashKind) : Prop :=
  inp.element kind ≠ unset →
    ∃ n, inp.inpHead.nElements kind = some n ∧ inp.element kind = inp.hashIndex n kind

structure Keeps (inp inp' : Inpcb) : Prop where
  head : inp'.inpHead = inp.inpHead
  element : ∀ kind, inp'.element kind = inp.element kind

end Inpcb

variable {p : Proto}

lemma Proto.nElements_bounds {kind : HashKind} {n : ℕ} (h : p.nElements kind = some n) :
    0 < n ∧ n < unset := by
  cases p <;> cases kind <;> cases h <;> decide

lemma Proto.nElements_isSome (hp : p ≠ .raw) (kind : HashKind) :
    ∃ n, p.nElements kind = some n := by
  cases p with
  | raw => exact absurd rfl hp
  | tcp | udp => cases kind <;> exact ⟨_, rfl⟩

namespace PcbState

structure Chained (s : PcbState) (chain : HashKind → Proto × ℕ → List ℕ) : Prop where
  nodup : s.blocks.Nodup
  holds : ∀ kind, (s.links kind).Holds (chain kind)
  mem : ∀ kind i p e, i ∈ chain kind (p, e) ↔
    i ∈ s.blocks ∧ (s.pcbs i).inpHead = p ∧ (s.pcbs i).element kind = e ∧ e ≠ unset
  inside : ∀ kind, ∀ i ∈ s.blocks, (s.pcbs i).element kind ≠ unset →
    ∃ n, (s.pcbs i).inpHead.nElements kind = some n ∧ (s.pcbs i).element kind < n
  ports : ∀ p, s.headLport p ≤ ipportUserreserved

structure Acts (s s' : PcbState) (i : ℕ) (inp' : Inpcb) (safe : Prop) : Prop where
  pcbs : s'.pcbs = update s.pcbs i inp'
  blocks : s'.blocks = s.blocks
  chained : ∃ chain, s'.Chained chain
  stray : safe → s'.stray = s.stray

section
variable {s s' s'' : PcbState} {chain : HashKind → Proto × ℕ → List ℕ} {i : ℕ} {kind : HashKind}
  {inp' inp'' : Inpcb} {safe safe' : Prop}

lemma Acts.self (h : s.Acts s' i inp' safe) : s'.pcbs i = inp' := by
  rw [h.pcbs, update_self]

lemma Acts.trans (h : s.Acts s' i inp' safe) (h' : s'.Acts s'' i inp'' safe') :
    s.Acts s'' i inp'' (safe ∧ safe') where
  pcbs := by rw [h'.pcbs, h.pcbs, update_idem]
  blocks := h'.blocks.trans h.blocks
  chained := h'.chained
  stray hsafe := (h'.stray hsafe.2).trans (h.stray hsafe.1)

lemma Acts.weaken (h : s.Acts s' i inp' safe) (hsafe : safe' → safe) :
    s.Acts s' i inp' safe' :=
  { h with stray := fun hs => h.stray (hsafe hs) }

lemma Acts.refl (h : s.Chained chain) (i : ℕ) : s.Acts s i (s.pcbs i) True where
  pcbs := (update_eq_self i s.pcbs).symm
  blocks := rfl
  chained := ⟨chain, h⟩
  stray _ := rfl

/-! ## The elementary operations -/

lemma Chained.congr (h : s.Chained chain) (hblocks : s'.blocks = s.blocks)
    (hlinks : s'.links = s.links) (hpcbs : ∀ i, (s.pcbs i).Keeps (s'.pcbs i))
    (hports : ∀ p, s'.headLport p ≤ ipportUserreserved) : s'.Chained chain where
  nodup := hblocks ▸ h.nodup
  holds kind := hlinks ▸ h.holds kind
  mem kind i p e := by rw [h.mem, hblocks, (hpcbs i).head, (hpcbs i).element]
  inside kind i hi := by
    rw [(hpcbs i).head, (hpcbs i).element]
    exact h.inside kind i (hblocks ▸ hi)
  ports := hports

lemma Chained.loose (h : s.Chained chain)
    (hi : i ∉ s.blocks ∨ (s.pcbs i).element kind = unset) (k : Proto × ℕ) :
    i ∉ chain kind k := by
  intro hmem
  obtain ⟨hblocks, -, he, hset⟩ := (h.mem kind i k.1 k.2).1 hmem
  rcases hi with hi | hi
  · exact hi hblocks
  · exact hset (he.symm.trans hi)

variable {x : Inpcb}

lemma keeps_update {pcbs : ℕ → Inpcb} (h : (pcbs i).Keeps x) (j : ℕ) :
    (pcbs j).Keeps (update pcbs i x j) := by
  by_cases hj : j = i
  · subst hj
    rw [update_self]
    exact h
  · rw [update_of_ne hj]
    exact ⟨rfl, fun _ => rfl⟩

section
variable (h : s.Chained chain)
include h

lemma Chained.modify (i : ℕ) (f : Inpcb → Inpcb) (hf : (s.pcbs i).Keeps (f (s.pcbs i))) :
    (s.modify i f).Chained chain :=
  h.congr rfl rfl (keeps_update hf) h.ports

lemma modify_acts (i : ℕ) (f : Inpcb → Inpcb) (hf : (s.pcbs i).Keeps (f (s.pcbs i))) :
    s.Acts (s.modify i f) i (f (s.pcbs i)) True where
  pcbs := rfl
  blocks := rfl
  chained := ⟨chain, h.modify i f hf⟩
  stray _ := rfl

lemma Chained.replace {e : ℕ} {b : Buckets (Proto × ℕ) ℕ} {c : Proto × ℕ → List ℕ}
    (hblocks : s'.blocks = s.blocks)
    (hpcbs : s'.pcbs = update s.pcbs i ((s.pcbs i).setElement e kind))
    (hlinks : s'.links = update s.links kind b) (hports : s'.headLport = s.headLport)
    (hb : b.Holds c) (hself : ∀ k, i ∈ c k ↔ i ∈ s.blocks ∧ k = ((s.pcbs i).inpHead, e) ∧ e ≠ unset)
    (hother : ∀ j k, j ≠ i → (j ∈ c k ↔ j ∈ chain kind k))
    (hinside : e ≠ unset → ∃ n, (s.pcbs i).inpHead.nElements kind = some n ∧ e < n) :
    s'.Chained (update chain kind c) where
  nodup := hblocks ▸ h.nodup
  holds kind' := by
    rw [hlinks]
    by_cases hk : kind' = kind
    · subst hk
      rw [update_self, update_self]
      exact hb
    · rw [update_of_ne hk, update_of_ne hk]
      exact h.holds kind'
  mem kind' j p e' := by
    rw [hblocks, hpcbs]
    by_cases hj : j = i
    · subst hj
      rw [update_self, Inpcb.inpHead_setElement]
      by_cases hk : kind' = kind
      · subst hk
        rw [update_self, Inpcb.element_setElement, hself]
        constructor
        · rintro ⟨hi, ⟨⟩, he⟩
          exact ⟨hi, rfl, rfl, he⟩
        · rintro ⟨hi, rfl, rfl, he⟩
          exact ⟨hi, rfl, he⟩
      · rw [update_of_ne hk, Inpcb.element_setElement_ne _ _ hk]
        exact h.mem kind' j p e'
    rw [update_of_ne hj]
    by_cases hk : kind' = kind
    · subst hk
      rw [update_self, hother j _ hj]
      exact h.mem kind' j p e'
    · rw [update_of_ne hk]
      exact h.mem kind' j p e'
  inside kind' j hj := by
    rw [hblocks] at hj
    rw [hpcbs]
    by_cases hji : j = i
    · subst hji
      rw [update_self, Inpcb.inpHead_setElement]
      by_cases hk : kind' = kind
      · subst hk
        rw [Inpcb.element_setElement]
        exact hinside
      · rw [Inpcb.element_setElement_ne _ _ hk]
        exact h.inside kind' j hj
    · rw [update_of_ne hji]
      exact h.inside kind' j hj
  ports := hports ▸ h.ports

lemma Chained.remove (hi : i ∈ s.blocks) (hp : (s.pcbs i).inpHead ≠ .raw) (kind : HashKind) :
    (s.remove kind i).Chained (update chain kind fun k => (chain kind k).erase i) := by
  obtain ⟨n, hn⟩ := Proto.nElements_isSome hp kind
  have hremove : s.remove kind i = { s with
      pcbs := update s.pcbs i ((s.pcbs i).setElement unset kind)
      links := update s.links kind ((if (s.pcbs i).element kind < n
          then (s.links kind).cutHead ((s.pcbs i).inpHead, (s.pcbs i).element kind) i
          else s.links kind).cutLinks i)
      stray := s.stray || decide (n ≤ (s.pcbs i).element kind) } := by
    unfold PcbState.remove
    dsimp only
    rw [hn]
  rw [hremove]
  refine h.replace (s := s) rfl rfl rfl rfl ?_ (fun k => ?_) (fun j k hj => ?_)
    fun he => absurd rfl he
  · by_cases hset : (s.pcbs i).element kind = unset
    · have hloose := h.loose (.inr hset)
      have hlt : ¬(s.pcbs i).element kind < n := by
        have := (Proto.nElements_bounds hn).2
        omega
      rw [if_neg hlt, (h.holds kind).cutLinks_loose hloose]
      have hsame : (fun k => (chain kind k).erase i) = chain kind :=
        funext fun k => erase_of_not_mem (hloose k)
      rw [hsame]
      exact h.holds kind
    obtain ⟨n', hn', hlt⟩ := h.inside kind i hi hset
    cases hn.symm.trans hn'
    rw [if_pos hlt]
    have hmem := (h.mem kind i _ _).2 ⟨hi, rfl, rfl, hset⟩
    have hcut := (h.holds kind).cut hmem
    have hsame : (fun k => (chain kind k).erase i) = update (chain kind)
        ((s.pcbs i).inpHead, (s.pcbs i).element kind)
        ((chain kind ((s.pcbs i).inpHead, (s.pcbs i).element kind)).erase i) := by
      funext k
      by_cases hk : k = ((s.pcbs i).inpHead, (s.pcbs i).element kind)
      · subst hk
        rw [update_self]
      rw [update_of_ne hk]
      apply erase_of_not_mem
      exact fun hk' => hk ((h.holds kind).apart _ _ i hk' hmem)
    rw [hsame]
    exact hcut
  · constructor
    · intro hmem
      exact absurd hmem ((h.holds kind).nodup k).not_mem_erase
    · rintro ⟨-, -, he⟩
      exact absurd rfl he
  · exact mem_erase_of_ne hj

lemma remove_acts (hi : i ∈ s.blocks) (hp : (s.pcbs i).inpHead ≠ .raw) (kind : HashKind) :
    s.Acts (s.remove kind i) i ((s.pcbs i).setElement unset kind)
      ((s.pcbs i).element kind ≠ unset) := by
  obtain ⟨n, hn⟩ := Proto.nElements_isSome hp kind
  refine ⟨?_, ?_, ⟨_, h.remove hi hp kind⟩, fun hset => ?_⟩
  · unfold PcbState.remove
    dsimp only
    rw [hn]
  · unfold PcbState.remove
    dsimp only
    rw [hn]
  obtain ⟨n', hn', hlt⟩ := h.inside kind i hi hset
  cases hn.symm.trans hn'
  unfold PcbState.remove
  dsimp only
  rw [hn]
  show (s.stray || decide (n ≤ (s.pcbs i).element kind)) = s.stray
  rw [decide_eq_false (not_le.2 hlt), Bool.or_false]

lemma Chained.insert (hi : i ∈ s.blocks) {n : ℕ} (hn : (s.pcbs i).inpHead.nElements kind = some n)
    (hunset : (s.pcbs i).element kind = unset) :
    (s.insert kind i).Chained (update chain kind (update (chain kind)
      ((s.pcbs i).inpHead, (s.pcbs i).hashIndex n kind)
      (i :: chain kind ((s.pcbs i).inpHead, (s.pcbs i).hashIndex n kind)))) := by
  obtain ⟨hpos, hlt⟩ := Proto.nElements_bounds hn
  have hidx := (s.pcbs i).hashIndex_lt kind hpos
  have hne : (s.pcbs i).hashIndex n kind ≠ unset := by omega
  have hloose := h.loose (.inr hunset)
  have hinsert : s.insert kind i = { s with
      pcbs := update s.pcbs i ((s.pcbs i).setElement ((s.pcbs i).hashIndex n kind) kind)
      links := update s.links kind ((s.links kind).push
        ((s.pcbs i).inpHead, (s.pcbs i).hashIndex n kind) i) } := by
    unfold PcbState.insert
    rw [if_neg (not_not.2 hunset), hn]
  rw [hinsert]
  refine h.replace (s := s) rfl rfl rfl rfl ((h.holds kind).push _ hloose) (fun k => ?_)
    (fun j k hj => ?_) fun _ => ⟨n, hn, hidx⟩
  · by_cases hk : k = ((s.pcbs i).inpHead, (s.pcbs i).hashIndex n kind)
    · subst hk
      rw [update_self]
      exact ⟨fun _ => ⟨hi, rfl, hne⟩, fun _ => mem_cons_self⟩
    · rw [update_of_ne hk]
      exact ⟨fun hk' => absurd hk' (hloose k), fun hk' => absurd hk'.2.1 hk⟩
  by_cases hk : k = ((s.pcbs i).inpHead, (s.pcbs i).hashIndex n kind)
  · subst hk
    rw [update_self, mem_cons]
    exact ⟨fun hj' => hj'.resolve_left hj, .inr⟩
  · rw [update_of_ne hk]

def inserted (inp : Inpcb) (kind : HashKind) : Inpcb :=
  if inp.element kind ≠ unset then inp
  else inp.setElement (inp.hashIndex ((inp.inpHead.nElements kind).getD 0) kind) kind

lemma insert_acts (hi : i ∈ s.blocks) (hp : (s.pcbs i).inpHead ≠ .raw) (kind : HashKind) :
    s.Acts (s.insert kind i) i (inserted (s.pcbs i) kind) True := by
  obtain ⟨n, hn⟩ := Proto.nElements_isSome hp kind
  by_cases hunset : (s.pcbs i).element kind = unset
  · have hchained := h.insert hi hn hunset
    unfold inserted
    unfold PcbState.insert at hchained ⊢
    rw [if_neg (not_not.2 hunset), hn] at hchained ⊢
    rw [if_neg (not_not.2 hunset)]
    exact ⟨rfl, rfl, ⟨_, hchained⟩, fun _ => rfl⟩
  unfold inserted PcbState.insert
  rw [if_pos hunset, if_pos hunset]
  exact .refl h i

end

lemma Acts.modify (h : s.Acts s' i inp' safe) (f : Inpcb → Inpcb) (hf : inp'.Keeps (f inp')) :
    s.Acts (s'.modify i f) i (f inp') safe := by
  obtain ⟨chain', h'⟩ := h.chained
  obtain rfl := h.self
  exact (h.trans (modify_acts h' i f hf)).weaken fun hs => ⟨hs, trivial⟩

lemma Acts.insert (h : s.Acts s' i inp' safe) (hi : i ∈ s.blocks) (hp : inp'.inpHead ≠ .raw)
    (kind : HashKind) : s.Acts (s'.insert kind i) i (inserted inp' kind) safe := by
  obtain ⟨chain', h'⟩ := h.chained
  obtain rfl := h.self
  exact (h.trans (insert_acts h' (h.blocks ▸ hi) hp kind)).weaken fun hs => ⟨hs, trivial⟩

lemma Acts.remove (h : s.Acts s' i inp' safe) (hi : i ∈ s.blocks) (hp : inp'.inpHead ≠ .raw)
    (kind : HashKind) : s.Acts (s'.remove kind i) i (inp'.setElement unset kind)
      (safe ∧ inp'.element kind ≠ unset) := by
  obtain ⟨chain', h'⟩ := h.chained
  obtain rfl := h.self
  exact h.trans (remove_acts h' (h.blocks ▸ hi) hp kind)

/-! ## Allocation and release -/

lemma Chained.alloc (h : s.Chained chain) (hi : i ∉ s.blocks) (p : Proto)
    (reuseAddr reusePort noFdRef : Bool) :
    (s.inPcballoc i p reuseAddr reusePort noFdRef).Chained chain := by
  have hother : ∀ j, j ∈ s.blocks → (s.inPcballoc i p reuseAddr reusePort noFdRef).pcbs j =
      s.pcbs j := by
    intro j hj
    apply update_of_ne
    rintro rfl
    exact hi hj
  have hself : (s.inPcballoc i p reuseAddr reusePort noFdRef).pcbs i =
      ⟨p, 0, 0, 0, 0, unset, unset, false, reuseAddr, reusePort, false, false, noFdRef⟩ :=
    update_self _ _ _
  have hunset : ∀ kind, ((s.inPcballoc i p reuseAddr reusePort noFdRef).pcbs i).element kind =
      unset := by
    intro kind
    rw [hself]
    cases kind <;> rfl
  refine ⟨nodup_cons.2 ⟨hi, h.nodup⟩, fun kind => ?_, fun kind j q e => ?_,
    fun kind j hj hset => ?_, h.ports⟩
  · show ((s.links kind).clear i).Holds (chain kind)
    rw [(h.holds kind).clear_loose (h.loose (.inl hi))]
    exact h.holds kind
  · by_cases hj : j = i
    · subst hj
      rw [hunset]
      refine ⟨fun hmem => absurd hmem (h.loose (.inl hi) (q, e)), ?_⟩
      rintro ⟨-, -, rfl, he⟩
      exact absurd rfl he
    rw [h.mem]
    have hblocks : j ∈ i :: s.blocks ↔ j ∈ s.blocks := by
      rw [mem_cons]
      exact ⟨fun hj' => hj'.resolve_left hj, .inr⟩
    have hpcb : (s.inPcballoc i p reuseAddr reusePort noFdRef).pcbs j = s.pcbs j :=
      update_of_ne hj _ _
    rw [hpcb]
    exact and_congr_left' hblocks.symm
  · rcases mem_cons.1 hj with rfl | hj
    · exact absurd (hunset kind) hset
    · rw [hother j hj] at hset ⊢
      exact h.inside kind j hj hset

lemma Chained.drop (h : s.Chained chain) (hunset : ∀ kind, (s.pcbs i).element kind = unset) :
    Chained { s with blocks := s.blocks.erase i } chain := by
  have hsub : ∀ {j}, j ∈ s.blocks.erase i → j ∈ s.blocks := mem_of_mem_erase
  refine ⟨h.nodup.erase i, h.holds, fun kind j p e => ?_,
    fun kind j hj => h.inside kind j (hsub hj), h.ports⟩
  rw [h.mem]
  constructor
  · rintro ⟨hj, hp, he, hset⟩
    refine ⟨(mem_erase_of_ne ?_).2 hj, hp, he, hset⟩
    rintro rfl
    exact hset (he.symm.trans (hunset kind))
  · rintro ⟨hj, hrest⟩
    exact ⟨hsub hj, hrest⟩

lemma inPcbdetach_spec (h : s.Chained chain) (hi : i ∈ s.blocks) (hp : (s.pcbs i).inpHead ≠ .raw) :
    (∃ chain', (s.inPcbdetach i).Chained chain') ∧ (s.inPcbdetach i).blocks = s.blocks.erase i ∧
      (∀ j, j ≠ i → (s.inPcbdetach i).pcbs j = s.pcbs j) ∧
      ((∀ kind, (s.pcbs i).element kind ≠ unset) → (s.inPcbdetach i).stray = s.stray) := by
  have hboth := (remove_acts h hi hp .conn).remove hi (by rwa [Inpcb.inpHead_setElement]) .lport
  obtain ⟨chain2, h2⟩ := hboth.chained
  have hunset : ∀ kind, (((s.remove .conn i).remove .lport i).pcbs i).element kind = unset := by
    intro kind
    rw [hboth.self]
    cases kind <;> rfl
  refine ⟨⟨chain2, h2.drop hunset⟩, congrArg (List.erase · i) hboth.blocks, fun j hj => ?_,
    fun hset => hboth.stray ⟨hset .conn, hset .lport⟩⟩
  have hpcbs : (s.inPcbdetach i).pcbs j = ((s.remove .conn i).remove .lport i).pcbs j := rfl
  rw [hpcbs, hboth.pcbs, update_of_ne hj]

/-! ## Addresses -/

inductive BindOutcome (inp : Inpcb) : Inpcb → Option PcbErr → Prop where
  | unchanged (error : PcbErr) : BindOutcome inp inp (some error)
  | address (laddr : ℕ) (hlport : inp.inpLport = 0) :
    BindOutcome inp { inp with inpLaddr := laddr } (some .addrInUse)
  | bound (laddr lport : ℕ) (hlport : inp.inpLport = 0) (h : lport ≠ 0) :
    BindOutcome inp (inserted { inp with inpLaddr := laddr, inpLport := lport } .lport) none

lemma nextLport_bounds (h : s.headLport p ≤ ipportUserreserved) :
    ipportReserved ≤ s.nextLport p ∧ s.nextLport p ≤ ipportUserreserved := by
  unfold ipportUserreserved at h
  unfold nextLport ipportReserved ipportUserreserved
  dsimp only
  split_ifs <;> omega

lemma bindLoop_spec (i : ℕ) (wild : Bool) (rounds : ℕ) (s : PcbState)
    (h : ∀ p, s.headLport p ≤ ipportUserreserved) :
    ∃ ports, (bindLoop i wild rounds s).1 = { s with headLport := ports } ∧
      (∀ p, ports p ≤ ipportUserreserved) ∧
      ∀ lport, (bindLoop i wild rounds s).2 = some lport → lport ≠ 0 := by
  induction rounds generalizing s with
  | zero => exact ⟨s.headLport, rfl, h, nofun⟩
  | succ rounds ih =>
    obtain ⟨hlow, hhigh⟩ := nextLport_bounds (h (s.pcbs i).inpHead)
    have hports : ∀ p, update s.headLport (s.pcbs i).inpHead
        (s.nextLport (s.pcbs i).inpHead) p ≤ ipportUserreserved := by
      intro p
      by_cases hp : p = (s.pcbs i).inpHead
      · rw [hp, update_self]
        exact hhigh
      · rw [update_of_ne hp]
        exact h p
    unfold bindLoop
    dsimp only
    split
    · obtain ⟨ports, hs, hrest⟩ := ih ⟨s.pcbs, s.blocks, s.links, _, s.stray⟩ hports
      exact ⟨ports, hs, hrest⟩
    refine ⟨_, rfl, hports, ?_⟩
    rintro lport ⟨⟩
    rw [update_self]
    unfold ipportReserved at hlow
    unfold ipportUserreserved at hhigh
    unfold htons
    omega

lemma bindTo_acts (h : s.Acts s' i x True) (hi : i ∈ s.blocks) (hp : x.inpHead ≠ .raw) (lport : ℕ) :
    s.Acts (s'.bindTo i lport) i (inserted { x with inpLport := lport } .lport) True :=
  (h.modify (fun inp => { inp with inpLport := lport })
    ⟨rfl, fun kind => by cases kind <;> rfl⟩).insert hi hp .lport

lemma bindAny_acts (h : s.Chained chain) (hi : i ∈ s.blocks) (hp : (s.pcbs i).inpHead ≠ .raw)
    (wild : Bool) :
    ((s.bindAny i wild).2 = some .addrInUse ∧ (s.bindAny i wild).1.links = s.links ∧
        s.Acts (s.bindAny i wild).1 i (s.pcbs i) True) ∨
      ∃ lport, lport ≠ 0 ∧ (s.bindAny i wild).2 = none ∧
        s.Acts (s.bindAny i wild).1 i (inserted { s.pcbs i with inpLport := lport } .lport)
          True := by
  obtain ⟨ports, hs, hports, hport⟩ :=
    bindLoop_spec i wild (ipportUserreserved - ipportReserved - 1) s h.ports
  unfold bindAny
  generalize hloop : bindLoop i wild (ipportUserreserved - ipportReserved - 1) s = r at hs hport
  obtain ⟨s1, found⟩ := r
  obtain rfl : s1 = { s with headLport := ports } := hs
  have h1 : Chained { s with headLport := ports } chain :=
    h.congr rfl rfl (fun _ => ⟨rfl, fun _ => rfl⟩) hports
  have hports : s.Acts { s with headLport := ports } i (s.pcbs i) True :=
    ⟨(update_eq_self i s.pcbs).symm, rfl, ⟨chain, h1⟩, fun _ => rfl⟩
  cases found with
  | none => exact .inl ⟨rfl, rfl, hports⟩
  | some lport =>
    exact .inr ⟨lport, hport lport rfl, rfl, bindTo_acts hports hi hp lport⟩

lemma setLaddr_acts (h : s.Chained chain) (i laddr : ℕ) :
    s.Acts (s.modify i fun inp => { inp with inpLaddr := laddr }) i
      { s.pcbs i with inpLaddr := laddr } True :=
  modify_acts h i _ ⟨rfl, fun kind => by cases kind <;> rfl⟩

lemma inPcbbind_acts (h : s.Chained chain) (hi : i ∈ s.blocks)
    (hp : (s.pcbs i).inpHead ≠ .raw) (nam : Option SockaddrIn) (env : IfEnv) :
    ∃ inp', s.Acts (s.inPcbbind i nam env).1 i inp' True ∧
      BindOutcome (s.pcbs i) inp' (s.inPcbbind i nam env).2 ∧
      ((s.inPcbbind i nam env).2 ≠ none → (s.inPcbbind i nam env).1.links = s.links) := by
  have hunchanged : ∀ error, ∃ inp', s.Acts s i inp' True ∧
      BindOutcome (s.pcbs i) inp' (some error) ∧ (some error ≠ none → s.links = s.links) :=
    fun error => ⟨_, .refl h i, .unchanged error, fun _ => rfl⟩
  have hany : ∀ (s1 : PcbState) (laddr : ℕ) (wild : Bool), (s.pcbs i).inpLport = 0 →
      s1.links = s.links → s.Acts s1 i { s.pcbs i with inpLaddr := laddr } True →
      ∃ inp', s.Acts (s1.bindAny i wild).1 i inp' True ∧
        BindOutcome (s.pcbs i) inp' (s1.bindAny i wild).2 ∧
        ((s1.bindAny i wild).2 ≠ none → (s1.bindAny i wild).1.links = s.links) := by
    intro s1 laddr wild hlport hlinks hacts
    obtain ⟨chain1, h1⟩ := hacts.chained
    have hself := hacts.self
    rcases bindAny_acts h1 (hacts.blocks ▸ hi) (by rw [hself]; exact hp) wild with
      ⟨herr, hlinks', hacts'⟩ | ⟨lport, hne, herr, hacts'⟩
    · rw [herr]
      rw [hself] at hacts'
      exact ⟨_, (hacts.trans hacts').weaken fun _ => ⟨trivial, trivial⟩, .address laddr hlport,
        fun _ => hlinks'.trans hlinks⟩
    rw [herr]
    rw [hself] at hacts'
    exact ⟨_, (hacts.trans hacts').weaken fun _ => ⟨trivial, trivial⟩,
      .bound laddr lport hlport hne, nofun⟩
  have hto : ∀ laddr lport, (s.pcbs i).inpLport = 0 → lport ≠ 0 →
      ∃ inp', s.Acts ((s.modify i fun inp => { inp with inpLaddr := laddr }).bindTo i lport) i
        inp' True ∧ BindOutcome (s.pcbs i) inp' none ∧ ((none : Option PcbErr) ≠ none →
          ((s.modify i fun inp => { inp with inpLaddr := laddr }).bindTo i lport).links =
            s.links) := by
    intro laddr lport hlport hne
    exact ⟨_, bindTo_acts (setLaddr_acts h i laddr) hi hp lport, .bound laddr lport hlport hne,
      fun hnone => absurd rfl hnone⟩
  unfold inPcbbind
  by_cases hprimary : env.primary = none
  · rw [if_pos hprimary]
    exact hunchanged _
  rw [if_neg hprimary]
  by_cases hbound : (s.pcbs i).inpLport ≠ 0 ∨ (s.pcbs i).inpLaddr ≠ 0
  · rw [if_pos hbound]
    exact hunchanged _
  rw [if_neg hbound]
  obtain ⟨hlport, hladdr⟩ := not_or.1 hbound
  have hlport := not_not.1 hlport
  have hladdr := not_not.1 hladdr
  cases nam with
  | none =>
    refine hany s 0 _ hlport rfl ?_
    have hsame : { s.pcbs i with inpLaddr := 0 } = s.pcbs i := by rw [← hladdr]
    rw [hsame]
    exact .refl h i
  | some sin =>
    dsimp only
    split_ifs with hsized havail hport hreserved
    · exact hunchanged _
    · exact hunchanged _
    · exact hunchanged _
    · split
      · split_ifs
        · exact hto sin.sinAddr sin.sinPort hlport hport
        · exact hunchanged _
      · exact hto sin.sinAddr sin.sinPort hlport hport
    · exact hany _ sin.sinAddr _ hlport rfl (setLaddr_acts h i sin.sinAddr)

lemma setPeer_acts (h : s.Acts s' i x True) (hi : i ∈ s.blocks) (hp : x.inpHead ≠ .raw)
    (faddr fport : ℕ) :
    s.Acts ((s'.modify i fun inp => { inp with inpFaddr := faddr, inpFport := fport }).hashInsert i)
      i (inserted { x with inpFaddr := faddr, inpFport := fport } .conn) True :=
  (h.modify (fun inp => { inp with inpFaddr := faddr, inpFport := fport })
    ⟨rfl, fun kind => by cases kind <;> rfl⟩).insert hi hp .conn

lemma BindOutcome.head {inp : Inpcb} {error : Option PcbErr} (h : BindOutcome inp x error) :
    x.inpHead = inp.inpHead := by
  cases h with
  | unchanged error => rfl
  | address laddr hlport => rfl
  | bound laddr lport hlport hne =>
    unfold inserted
    split_ifs
    · rfl
    · rw [Inpcb.inpHead_setElement]

/-- What a record is before `in_pcbconnect` puts it on a chain: the block may have been
bound first. -/
inductive ConnectOutcome (inp : Inpcb) (laddr dst fport : ℕ) : Inpcb → Prop where
  | bound (hladdr : inp.inpLaddr ≠ 0 → laddr = inp.inpLaddr) : ConnectOutcome inp laddr dst fport
      { inp with inpLaddr := laddr, inpFaddr := dst, inpFport := fport }
  | binds (x : Inpcb) (error : Option PcbErr) (hlport : inp.inpLport = 0)
      (hbind : BindOutcome inp x error) :
    ConnectOutcome inp laddr dst fport
      { x with inpLaddr := laddr, inpFaddr := dst, inpFport := fport }

lemma inPcbconnect_acts (h : s.Chained chain) (hi : i ∈ s.blocks)
    (hp : (s.pcbs i).inpHead ≠ .raw) (sin : SockaddrIn) (env : IfEnv) :
    (∃ error, s.inPcbconnect i sin env = (s, some error)) ∨
      ∃ s₁ laddr y, s.inPcbconnect i sin env = (s₁, none) ∧ sin.sinPort ≠ 0 ∧
        sourceAddr (s.pcbs i) env (destination env sin.sinAddr) = some laddr ∧
        ConnectOutcome (s.pcbs i) laddr (destination env sin.sinAddr) sin.sinPort y ∧
        s.Acts s₁ i (inserted y .conn) True := by
  unfold inPcbconnect
  dsimp only
  by_cases hsized : (!sin.sized) = true
  · rw [if_pos hsized]
    exact .inl ⟨_, rfl⟩
  rw [if_neg hsized]
  by_cases hinet : (!sin.inet) = true
  · rw [if_pos hinet]
    exact .inl ⟨_, rfl⟩
  rw [if_neg hinet]
  by_cases hport : sin.sinPort = 0
  · rw [if_pos hport]
    exact .inl ⟨_, rfl⟩
  rw [if_neg hport]
  cases hsource : sourceAddr (s.pcbs i) env (destination env sin.sinAddr) with
  | none => exact .inl ⟨_, rfl⟩
  | some laddr =>
    dsimp only
    split_ifs with hbusy hladdr hlport
    · exact .inl ⟨_, rfl⟩
    · obtain ⟨x, hbind, houtcome, -⟩ := inPcbbind_acts h hi hp none env
      have hset := hbind.modify (fun inp => { inp with inpLaddr := laddr })
        ⟨rfl, fun kind => by cases kind <;> rfl⟩
      have hx : x.inpHead ≠ .raw := by rwa [houtcome.head]
      exact .inr ⟨_, laddr, _, rfl, hport, rfl, .binds x _ hlport houtcome,
        setPeer_acts hset hi hx _ _⟩
    · exact .inr ⟨_, laddr, _, rfl, hport, rfl, .bound fun hne => absurd hladdr hne,
        setPeer_acts (setLaddr_acts h i laddr) hi hp _ _⟩
    have hsame : laddr = (s.pcbs i).inpLaddr := by
      unfold sourceAddr at hsource
      rw [if_pos hladdr] at hsource
      exact (Option.some.inj hsource).symm
    subst hsame
    exact .inr ⟨_, _, _, rfl, hport, rfl, .bound fun _ => rfl, setPeer_acts (.refl h i) hi hp _ _⟩

end

end PcbState

end Rhapsody.Netinet
