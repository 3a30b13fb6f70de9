import Rhapsody.Netinet.TcpReass

/-! The trimming of a segment to the receive window: what is left of it is a part of the
stream from `rcv_nxt` on that the window holds, or nothing. -/

namespace Rhapsody.Netinet

open SeqNum

/-- `p` has the text and the FIN of the stream from `pos`. A SYN takes the number before. -/
structure Agrees (irs : TcpSeq) (stream : List UInt8) (p : TcpPacket) (pos : ℕ) : Prop where
  seq : p.tiSeq + (if p.syn then 1 else 0) = place (irs + 1) pos
  syn : p.syn = true → pos = 0
  data : p.data = (stream.drop pos).take p.data.length
  le : pos + p.data.length ≤ stream.length
  fin : p.fin = true → pos + p.data.length = stream.length

/-- The segment lies within half the space of `rcv_nxt`, the window does not end inside it if it has
the FIN, and a last byte comes with the FIN just when `last` says so. -/
structure Fits (stream : List UInt8) (last : Bool) (n wnd : ℕ) (p : TcpPacket) (pos : ℕ) :
    Prop where
  behind : n + (if p.syn then 1 else 0) < pos + half
  ahead : pos + p.data.length < n + half
  edge : p.fin = true → pos + p.data.length ≤ n + wnd ∨ n + wnd ≤ pos ∨ wnd = 0
  ends : 0 < p.data.length → pos + p.data.length = stream.length → p.fin = last

variable {irs : TcpSeq} {stream : List UInt8} {last : Bool} {S : ℕ → Prop} {w w' : Work}
  {p : TcpPacket} {tp : Tcpcb} {pos n wnd e : ℕ}

def Work.Bare (w : Work) : Prop := w.ti.tiLen = 0 ∧ w.fin = false

def Trimmed (irs : TcpSeq) (stream : List UInt8) (last : Bool) (S : ℕ → Prop) (n pos len : ℕ)
    (fin : Bool) (w : Work) : Prop :=
  w.Bare ∨ ∃ pos', n ≤ pos' ∧ pos ≤ pos' ∧ pos' + w.ti.tiLen = pos + len ∧
    Carried irs stream last S w.ti pos' ∧ w.fin = fin ∧ w.ti.tiFin = fin

/-! ### Before `rcv_nxt` -/

lemma dropFront_spec (hc : Carried irs stream last S w.ti pos) (hfin : w.fin = w.ti.tiFin)
    (hn : pos ≤ n) (h : w.dropFront ((n : ℤ) - pos) = some w') :
    Trimmed irs stream last S n pos w.ti.tiLen w.fin w' := by
  have hnat : ((n : ℤ) - pos).toNat = n - pos := by omega
  have hcut (hle : n - pos ≤ w.ti.tiLen) : Trimmed irs stream last S n pos w.ti.tiLen w.fin
      { w with ti := w.ti.adj (n - pos) } := by
    refine .inr ⟨n, le_rfl, hn, ?_, ?_, rfl, hfin.symm⟩
    · simp only [TcpSeg.tiLen_adj]
      omega
    · have hadj := hc.adj hle
      rwa [show pos + (n - pos) = n by omega] at hadj
  unfold Work.dropFront at h
  rw [hnat] at h
  split at h
  · split at h
    next hall hfin' =>
      cases h
      exact .inl ⟨by simp, rfl⟩
    · split at h
      · cases h
      · cases h
        exact hcut (by omega)
  · cases h
    exact hcut (by omega)

lemma stripSyn_ofPacket_ti (p : TcpPacket) : (Work.ofPacket p).stripSyn.ti =
      { tiSeq := p.tiSeq + (if p.syn then 1 else 0), tiFin := p.fin, data := p.data } := by
  unfold Work.stripSyn Work.ofPacket
  cases p.syn
  · simp
  · rfl

lemma stripSyn_fin (w : Work) : w.stripSyn.fin = w.fin := by
  unfold Work.stripSyn
  split <;> rfl

lemma carried_stripSyn (ha : Agrees irs stream p pos) (hf : Fits stream last n wnd p pos) :
    Carried irs stream last (fun _ => True) (Work.ofPacket p).stripSyn.ti pos := by
  rw [stripSyn_ofPacket_ti]
  exact {
    seq := ha.seq
    data := ha.data
    le := ha.le
    fin := ha.fin
    ends := hf.ends
    within := fun _ _ _ => trivial }

lemma place_succ_base (b : TcpSeq) (n : ℕ) : place (b + 1) n = place b (n + 1) := by
  rw [place, place, Nat.add_comm, BitVec.ofNat_add, add_assoc]
  rfl

lemma trimFront_spec (ha : Agrees irs stream p pos) (hf : Fits stream last n wnd p pos)
    (h : (Work.ofPacket p).trimFront (place (irs + 1) n) = some w) :
    Trimmed irs stream last (fun _ => True) n pos p.data.length p.fin w := by
  have hc := carried_stripSyn ha hf
  have hti := stripSyn_ofPacket_ti p
  have hfin := stripSyn_fin (Work.ofPacket p)
  have hlen : (Work.ofPacket p).stripSyn.ti.tiLen = p.data.length := by
    rw [hti]
    rfl
  have htrim : ∀ {w : Work}, pos ≤ n →
      (Work.ofPacket p).stripSyn.dropFront ((n : ℤ) - pos) = some w →
      Trimmed irs stream last (fun _ => True) n pos p.data.length p.fin w := by
    intro w hn hw
    have hspec := dropFront_spec hc (by rw [hfin, hti]; rfl) hn hw
    rwa [hlen, hfin] at hspec
  have hbehind := hf.behind
  have hahead := hf.ahead
  have hseq := ha.seq
  unfold Work.trimFront at h
  cases hsyn : p.syn with
  | true =>
    -- The SYN has the number `irs`, which is behind `rcv_nxt`.
    obtain rfl := ha.syn hsyn
    simp only [hsyn, if_true] at hbehind hseq
    have hirs : p.tiSeq = place irs 0 := by
      rw [place_zero] at hseq ⊢
      exact add_right_cancel hseq
    have hdiff : (place (irs + 1) n - (Work.ofPacket p).ti.tiSeq).toInt = (n : ℤ) + 1 := by
      show (place (irs + 1) n - p.tiSeq).toInt = _
      rw [hirs, place_succ_base, toInt_sub_of_near _ (by omega) (by omega)]
      omega
    have hs : (Work.ofPacket p).syn = true := hsyn
    rw [hdiff, if_pos (by omega), hs, if_pos rfl] at h
    apply htrim (Nat.zero_le n)
    rw [← h]
    congr 1
    omega
  | false =>
    simp only [hsyn, Bool.false_eq_true, if_false] at hbehind hseq
    have hpos : p.tiSeq = place (irs + 1) pos := by
      rw [← hseq]
      exact (add_zero _).symm
    have hdiff : (place (irs + 1) n - (Work.ofPacket p).ti.tiSeq).toInt = (n : ℤ) - pos := by
      show (place (irs + 1) n - p.tiSeq).toInt = _
      rw [hpos, toInt_sub_of_near _ (by omega) (by omega)]
    have hs : (Work.ofPacket p).syn = false := hsyn
    dsimp only at h
    rw [hdiff, hs] at h
    split at h
    · apply htrim (by omega)
      rw [← h]
      congr 1
      simp
    cases h
    have hstrip : (Work.ofPacket p).stripSyn = Work.ofPacket p := by
      unfold Work.stripSyn
      rw [hs]
      rfl
    rw [hstrip] at hc
    exact Or.inr ⟨pos, by omega, le_rfl, rfl, hc, rfl, rfl⟩

lemma bare_dropFront {todrop : ℤ} (hbare : w.Bare) (h : w.dropFront todrop = some w') :
    w'.Bare := by
  obtain ⟨hlen, hfin⟩ := hbare
  have hadj : ∀ i, (w.ti.adj i).tiLen = 0 := by
    intro i
    rw [TcpSeg.tiLen_adj, hlen, Nat.zero_sub]
  unfold Work.dropFront at h
  split at h
  · split at h
    · cases h
      exact ⟨hadj _, rfl⟩
    split at h
    · cases h
    · cases h
      exact ⟨hadj _, hfin⟩
  · cases h
    exact ⟨hadj _, hfin⟩

lemma bare_trimFront {rcvNxt : TcpSeq} (hbare : w.Bare) (h : w.trimFront rcvNxt = some w') :
    w'.Bare := by
  have hstrip : w.stripSyn.Bare := by
    unfold Work.stripSyn
    split <;> exact hbare
  unfold Work.trimFront at h
  dsimp only at h
  split_ifs at h
  · exact bare_dropFront hstrip h
  · exact bare_dropFront hstrip h
  · cases h
    exact hbare

/-! ### After the window -/

lemma overshoot (b : TcpSeq) (hn : n ≤ e) (he : e < n + half) (hw : wnd < 2 ^ 32) :
    ((place b e - place b (n + wnd)).toInt ≤ 0 ∧ e ≤ n + wnd) ∨
      (place b e - place b (n + wnd)).toInt = (e : ℤ) - (n + wnd : ℕ) ∨
      (e : ℤ) - n < (place b e - place b (n + wnd)).toInt ∧ wnd ≠ 0 := by
  have hhalf : half = 2 ^ 31 := rfl
  rw [sub_place, BitVec.toInt_ofInt, Int.bmod_def]
  split <;> omega

lemma Carried.cutTail {k : ℕ} {ti : TcpSeg} (h : Carried irs stream last S ti pos)
    (hfin : ti.tiFin = false) (hk : k < ti.tiLen) :
    Carried irs stream last (fun o => S o ∧ o < pos + k) { ti with data := ti.data.take k } pos :=
  have hlen : ({ ti with data := ti.data.take k } : TcpSeg).tiLen = k := by
    show (ti.data.take k).length = k
    rw [List.length_take]
    exact min_eq_left hk.le
  have hle := h.le
  { seq := h.seq
    data := by
      rw [hlen]
      rw [h.data, List.take_take, min_eq_left hk.le]
    le := by
      rw [hlen]
      omega
    fin := by
      intro hf
      have hf' : ti.tiFin = true := hf
      rw [hfin] at hf'
      cases hf'
    ends := by
      intro _ hend
      rw [hlen] at hend
      omega
    within := by
      intro o ho hlt
      rw [hlen] at hlt
      exact ⟨h.within o ho (by omega), hlt⟩ }

/-- What goes of `w` to the reassembly code, if anything, lies between `n` and the edge of the
window, with the FIN of its header. -/
def Offered (irs : TcpSeq) (stream : List UInt8) (last : Bool) (n wnd : ℕ) (w : Work) : Prop :=
  w.Bare ∨ ∃ pos, n ≤ pos ∧ pos + w.ti.tiLen < n + half ∧
    Carried irs stream last (fun o => o < n + wnd) w.ti pos ∧ (w.fin = true → w.ti.tiFin = true)

lemma trimWindow_keep (h : trimWindow tp w = .keep w') :
    let todrop := (w.ti.tiEnd - (tp.rcvNxt + tp.rcvWnd)).toInt
    (todrop ≤ 0 ∧ w' = w) ∨ (0 < todrop ∧ todrop < w.ti.tiLen ∧ w' = w.cutTail todrop) ∨
      (w.ti.tiLen ≤ todrop ∧ w' = w.cutTail todrop) := by
  unfold trimWindow at h
  dsimp only at h ⊢
  split at h
  next hpos =>
    split at h
    next hall =>
      split at h
      · cases h
      split at h
      · cases h
        exact .inr (.inr ⟨hall, rfl⟩)
      · cases h
    next hpart =>
      cases h
      exact .inr (.inl ⟨hpos, by omega, rfl⟩)
  next hneg =>
    cases h
    exact .inl ⟨by omega, rfl⟩

lemma bare_cutTail {todrop : ℤ} (h : w.ti.tiLen ≤ todrop) : (w.cutTail todrop).Bare := by
  constructor
  · show (w.ti.data.take (w.ti.tiLen - todrop.toNat)).length = 0
    rw [List.length_take]
    omega
  · rfl

lemma bare_trimWindow (hbare : w.Bare) (h : trimWindow tp w = .keep w') : w'.Bare := by
  have hlen := hbare.1
  rcases trimWindow_keep h with ⟨-, rfl⟩ | ⟨h0, hlt, -⟩ | ⟨hall, rfl⟩
  · exact hbare
  · omega
  · exact bare_cutTail hall

lemma trimWindow_spec (hnxt : tp.rcvNxt = place (irs + 1) n)
    (htrim : Trimmed irs stream last (fun _ => True) n pos p.data.length p.fin w)
    (hf : Fits stream last n tp.rcvWnd.toNat p pos) (h : trimWindow tp w = .keep w') :
    Offered irs stream last n tp.rcvWnd.toNat w' := by
  have hkeep := trimWindow_keep h
  rcases htrim with hbare | ⟨pos', hn, hpos, hend, hc, hfin, htifin⟩
  · exact .inl (bare_trimWindow hbare h)
  have hahead := hf.ahead
  have hedge := hf.edge
  have hwnd : tp.rcvNxt + tp.rcvWnd = place (irs + 1) (n + tp.rcvWnd.toNat) := by
    rw [hnxt, ← place_add, BitVec.ofNat_toNat, BitVec.setWidth_eq]
  have hover := overshoot (irs + 1) (show n ≤ pos' + w.ti.tiLen by omega) (by omega) tp.rcvWnd.isLt
  rw [← hwnd, ← hc.tiEnd] at hover
  generalize (w.ti.tiEnd - (tp.rcvNxt + tp.rcvWnd)).toInt = todrop at hkeep hover
  rcases hkeep with ⟨hneg, rfl⟩ | ⟨h0, hlt, rfl⟩ | ⟨hall, rfl⟩
  · right
    refine ⟨pos', hn, by omega, hc.imp ?_, fun hf' => ?_⟩
    · intro o _ ho _
      omega
    · rw [htifin, ← hfin, hf']
  · -- The edge lies inside the segment, so that it has no FIN.
    have hnofin : w.ti.tiFin = false := by
      cases hpfin : p.fin with
      | false => rw [htifin, hpfin]
      | true =>
        have hcase := hedge hpfin
        omega
    right
    have hk : w.ti.tiLen - todrop.toNat < w.ti.tiLen := by omega
    have hcut := hc.cutTail hnofin hk
    have hcutLen : (w.cutTail todrop).ti.tiLen = w.ti.tiLen - todrop.toNat := by
      show (w.ti.data.take (w.ti.tiLen - todrop.toNat)).length = _
      rw [List.length_take]
      exact min_eq_left hk.le
    refine ⟨pos', hn, by omega, hcut.imp ?_, nofun⟩
    rintro o _ _ ⟨-, ho⟩
    omega
  · exact .inl (bare_cutTail hall)

end Rhapsody.Netinet
