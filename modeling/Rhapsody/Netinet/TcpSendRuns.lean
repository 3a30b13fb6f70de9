import Rhapsody.Netinet.TcpOutputSpec

/-! The sending half of a connection over whole runs: whatever the peer acknowledges and
however the timers go, every segment carries the bytes that the user has sent under its
numbers. -/

namespace Rhapsody.Netinet

open Bsd SeqNum List

section
variable {base : TcpSeq} {s s' : TcpSnd} {stream : List UInt8} {sent : List SentSeg} {u x m : ℕ}
  (h : Sending base s stream sent u x m)
include h

lemma Sending.enter (idleLong : Bool) (after : After)
    (hafter : ∀ onxt, after = .dupack onxt → ∃ o, onxt = place base o ∧ u ≤ o ∧ o ≤ m) :
    Sending base (s.enter idleLong after) stream sent u x m := by
  refine { h with dupack := ?_ }
  intro idle onxt hpending
  cases hpending
  exact hafter onxt rfl

lemma Sending.enterRet (idleLong : Bool) : Sending base (s.enter idleLong .ret) stream sent u x m :=
  h.enter idleLong .ret nofun

lemma Sending.tcpDrop (idleLong : Bool) : Sending base (s.tcpDrop idleLong) stream sent u x m := by
  have hclosed : Sending base { s with tState := .closed } stream sent u x m :=
    { h with
      sentFin := fun hsent => ⟨(h.sentFin hsent).1, (h.sentFin hsent).2.1, nofun, nofun⟩
      outFin := nofun }
  exact hclosed.enter idleLong .drop nofun

lemma Sending.tcpClose : Sending base s.tcpClose stream sent u x m :=
  { h with
    sentFin := fun hsent => ⟨(h.sentFin hsent).1, (h.sentFin hsent).2.1, nofun, nofun⟩
    outFin := nofun
    dupack := nofun }

lemma Sending.finish {idle : Bool} {after : After} (hpending : s.pending = some (idle, after)) :
    ∃ x', Sending base (s.finish after) stream sent u x' m := by
  have hnone : Sending base { s with tForce := false, moreToCome := false, pending := none }
      stream sent u x m := { h with dupack := nofun }
  cases after with
  | ret => exact ⟨x, hnone⟩
  | drop => exact ⟨x, hnone.tcpClose⟩
  | dupack onxt =>
    obtain ⟨o, rfl, huo, hom⟩ := h.dupack idle onxt hpending
    have hnear := h.near
    have hux := h.unaNxt
    have hxm := h.nxtMax
    refine ⟨max o x, { hnone with
      nxtAt := ?_
      unaNxt := by omega
      nxtMax := by omega
      dupack := nofun }⟩
    show (if seqGt (place base o) s.sndNxt = true then place base o else s.sndNxt) = _
    rw [h.nxtAt, seqGt_max (by omega) (by omega)]

lemma Sending.bytesOnly (hsent : s.sentFin = false) : m ≤ stream.length := by
  have htop := h.top
  rw [hsent] at htop
  exact htop

/-! ## Acknowledgements -/

lemma Sending.ackPlace {ack : TcpSeq}
    (hgt : seqGt ack s.sndUna = true) (hle : seqGt ack s.sndMax = false) :
    ∃ v, ack = place base v ∧ u < v ∧ v ≤ m := by
  have hnear := h.near
  have hum : u ≤ m := le_trans h.unaNxt h.nxtMax
  have hack := exists_place base ack u
  have hdist : 0 < (ack - place base u).toNat ∧ 2 * (ack - place base u).toNat < 2 ^ 32 := by
    have hgt := of_decide_eq_true hgt
    rw [h.unaAt, BitVec.toInt_eq_toNat_cond] at hgt
    split_ifs at hgt with hhalf <;> omega
  generalize (ack - place base u).toNat = d at hack hdist
  subst hack
  refine ⟨u + d, rfl, by omega, ?_⟩
  have hle := of_decide_eq_false hle
  rw [h.maxAt, toInt_sub_place base (by omega) (by omega)] at hle
  omega

omit h in
lemma seqLeq_eq (a b : TcpSeq) : seqLeq a b = !seqGt a b := by
  unfold seqLeq seqGt
  rw [← decide_not]
  exact decide_eq_decide.2 Int.not_lt.symm

variable {v len : ℕ} {oob : Bool}

lemma Sending.acked (huv : u ≤ v) (hvm : v ≤ m) (hbytes : s'.soSnd.bytes = stream.drop v)
    (hhiwat : s'.soSnd.hiwat = s.soSnd.hiwat) (huna : s'.sndUna = place base v)
    (hnxt : s'.sndNxt = if seqLt s.sndNxt (place base v) = true then place base v else s.sndNxt)
    (hmax : s'.sndMax = s.sndMax) (hsent : s'.sentFin = s.sentFin)
    (hcant : s.cantSendMore = true → s'.cantSendMore = true)
    (hstate : s'.tState = s.tState ∨ s.sentFin = true ∧ s'.tState ≠ .established ∧
      s'.tState ≠ .closeWait)
    (hout : s'.tState.outFin = true → s.tState.outFin = true ∧ v ≤ stream.length)
    (htimers : s'.rexmt = true → s'.persist = false) (hpending : s'.pending = none) :
    ∃ x', Sending base s' stream sent v x' m := by
  have hnear := h.near
  have hux := h.unaNxt
  have hxm := h.nxtMax
  have hfew := h.few
  refine ⟨max v x, ?_⟩
  refine {
    unaAt := huna
    nxtAt := ?_
    maxAt := hmax.trans h.maxAt
    unaNxt := by omega
    nxtMax := by omega
    top := by rw [hsent]; exact h.top
    sentFin := fun hf => ?_
    outFin := fun hf => ⟨hcant (h.outFin (hout hf).1).1, (hout hf).2⟩
    bytes := hbytes
    few := ?_
    hiwat := by rw [hhiwat]; exact h.hiwat
    timers := htimers
    dupack := by rw [hpending]; exact nofun
    carries := h.carries
    finSent := by rw [hsent]; exact h.finSent
    noMore := fun seg hseg hf => hcant (h.noMore seg hseg hf)
    covered := h.covered
    finLast := h.finLast }
  · rw [hnxt, h.nxtAt, seqLt_place (by omega) (by omega)]
    by_cases hlt : x < v
    · rw [if_pos (decide_eq_true hlt), Nat.max_eq_left (le_of_lt hlt)]
    · rw [if_neg (by rw [decide_eq_true_eq]; exact hlt), Nat.max_eq_right (not_lt.1 hlt)]
  · rw [hsent] at hf
    obtain ⟨hm, hc, hne, hne'⟩ := h.sentFin hf
    refine ⟨hm, hcant hc, ?_⟩
    rcases hstate with hsame | ⟨-, hstate⟩
    · rw [hsame]
      exact ⟨hne, hne'⟩
    · exact hstate
  · rw [h.length] at hfew
    rw [hbytes, hhiwat, length_drop]
    omega

lemma Sending.restartRexmt (all : Bool) : Sending base (s.restartRexmt all) stream sent u x m := by
  unfold TcpSnd.restartRexmt
  split_ifs with hall hpersist
  · exact { h with timers := nofun }
  · exact { h with timers := fun _ => hpersist }
  · exact h

lemma Sending.sbdrop (hlen : u + len ≤ stream.length) :
    ∃ sb, s.sbdrop len = .ok { s with soSnd := sb } ∧ sb.bytes = stream.drop (u + len) ∧
      sb.hiwat = s.soSnd.hiwat := by
  have hle : len ≤ s.soSnd.bytes.length := by
    rw [h.length]
    omega
  obtain ⟨sb, hdrop, hbytes, hhiwat, -⟩ := s.soSnd.sbdrop_spec hle
  unfold TcpSnd.sbdrop
  rw [hdrop]
  refine ⟨sb, rfl, ?_, hhiwat⟩
  rw [hbytes, h.bytes, drop_drop]

lemma Sending.peerFin : Sending base s.peerFin stream sent u x m := by
  unfold TcpSnd.peerFin
  split
  · next hstate =>
    have hnot : s.sentFin ≠ true := fun hsent => (h.sentFin hsent).2.2.1 hstate
    exact { h with sentFin := fun hsent => absurd hsent hnot, outFin := nofun }
  · next hstate =>
    have hout : s.tState.outFin = true := by rw [hstate]; rfl
    exact { h with
      sentFin := fun hsent => ⟨(h.sentFin hsent).1, (h.sentFin hsent).2.1, nofun, nofun⟩
      outFin := fun _ => h.outFin hout }
  · exact { h with
      sentFin := fun hsent => ⟨(h.sentFin hsent).1, rfl, nofun, nofun⟩
      outFin := nofun
      timers := nofun
      noMore := fun _ _ _ => rfl }
  · exact h

lemma Sending.step6 (a : AckSeg) (needoutput idleLong : Bool) :
    Sending base (s.step6 a needoutput idleLong) stream sent u x m := by
  have hwindow : Sending base (s.updateWindow a) stream sent u x m := by
    unfold TcpSnd.updateWindow
    by_cases hupdate : s.updates a = true
    · rw [if_pos hupdate]
      exact { h with }
    · rw [if_neg hupdate]
      exact h
  have hfin : Sending base (if a.tiFin = true then (s.updateWindow a).peerFin
      else s.updateWindow a) stream sent u x m := by
    split_ifs
    · exact hwindow.peerFin
    · exact hwindow
  unfold TcpSnd.step6
  dsimp only
  generalize (if a.tiFin = true then (s.updateWindow a).peerFin else s.updateWindow a) = s1 at hfin
  have hack : Sending base { s1 with ackNow := s1.ackNow || a.ackNow } stream sent u x m :=
    { hfin with }
  split_ifs
  · exact hack.enterRet idleLong
  · exact hack

lemma Sending.duplicateAck (a : AckSeg) (idleLong : Bool) :
    ∃ x', Sending base (s.duplicateAck a idleLong) stream sent u x' m := by
  have hux := h.unaNxt
  have hxm := h.nxtMax
  have hdup : ∀ d, Sending base { s with tDupacks := d } stream sent u x m := fun d => { h with }
  unfold TcpSnd.duplicateAck
  dsimp only
  split_ifs with hquiet hother hthresh hmore
  · exact ⟨x, (hdup 0).step6 a false idleLong⟩
  · obtain ⟨-, hsame⟩ := not_or.1 hother
    have hack : a.tiAck = place base u := (not_not.1 hsame).trans h.unaAt
    have hback : Sending base { s with
        tDupacks := s.tDupacks + 1
        sndSsthresh := TcpSnd.halfWindow { s with tDupacks := s.tDupacks + 1 }
        rexmt := false
        sndNxt := a.tiAck
        sndCwnd := TcpSnd.maxseg { s with tDupacks := s.tDupacks + 1 } } stream sent u u m :=
      { h with nxtAt := hack, unaNxt := le_refl u, nxtMax := by omega, timers := nofun }
    refine ⟨u, hback.enter idleLong _ ?_⟩
    rintro onxt ⟨⟩
    exact ⟨x, h.nxtAt, hux, hxm⟩
  · refine ⟨x, Sending.enterRet ?_ idleLong⟩
    exact { h with }
  · exact ⟨x, (hdup _).step6 a false idleLong⟩
  · exact ⟨x, (hdup 0).step6 a false idleLong⟩

lemma Sending.dropAfterAck (idleLong : Bool) :
    Sending base (s.dropAfterAck idleLong) stream sent u x m := by
  refine Sending.enterRet ?_ idleLong
  exact { h with }

lemma Sending.dropped (huv : u < v) (hvm : v ≤ m) :
    u + (s.dropped (place base v)).toNat ≤ stream.length ∧
      stream.drop (u + (s.dropped (place base v)).toNat) = stream.drop v ∧
      decide (s.soSnd.cc < place base v - s.sndUna) = decide (stream.length < v) := by
  have hnear := h.near
  have htop := h.top
  have hone := Bool.toNat_le s.sentFin
  have hcc := h.cc
  have hacked : (place base v - s.sndUna).toNat = v - u := by
    rw [h.unaAt, toNat_sub_place base (le_of_lt huv) (by omega)]
  have hlt : s.soSnd.cc < place base v - s.sndUna ↔ stream.length < v := by
    rw [BitVec.lt_def, hcc, hacked]
    omega
  unfold TcpSnd.dropped
  dsimp only
  split_ifs with hfin
  · have hfin' := hlt.1 hfin
    rw [hcc]
    refine ⟨by omega, ?_, decide_eq_decide.2 hlt⟩
    rw [drop_of_length_le (by omega), drop_of_length_le (by omega)]
  have hfin' := mt hlt.2 hfin
  rw [hacked, Nat.add_sub_cancel' (le_of_lt huv)]
  exact ⟨by omega, rfl, decide_eq_decide.2 hlt⟩

lemma Sending.finAcked (hpending : s.pending = none) (huv : u < v) (hvm : v ≤ m) {sb : RecSockbuf}
    (wnd : BitVec 32) (hbytes : sb.bytes = stream.drop v) (hhiwat : sb.hiwat = s.soSnd.hiwat)
    (hs : s' = { s with
      soSnd := sb
      sndWnd := wnd
      sndUna := place base v
      sndNxt := if seqLt s.sndNxt (place base v) then place base v else s.sndNxt })
    (a : AckSeg) (needoutput idleLong : Bool) :
    ∃ x', Sending base (s'.finAcked a (decide (stream.length < v)) needoutput idleLong)
      stream sent v x' m := by
  -- The record before and after a change of the state.
  have hnext : ∀ (t : TcpState) (cant rexmt persist : Bool),
      (t = s.tState ∨ s.sentFin = true ∧ t ≠ .established ∧ t ≠ .closeWait) →
      (t.outFin = true → s.tState.outFin = true ∧ v ≤ stream.length) →
      (rexmt = true → persist = false) → (s.cantSendMore = true → cant = true) →
      ∃ x', Sending base { s' with
        tState := t
        cantSendMore := cant
        rexmt := rexmt
        persist := persist } stream sent v x' m := by
    intro t cant rexmt persist hstate hout htimers hcant
    subst hs
    exact h.acked (le_of_lt huv) hvm hbytes hhiwat rfl rfl rfl rfl hcant hstate hout htimers
      hpending
  have hsame : (s.tState.outFin = true → v ≤ stream.length) →
      ∃ x', Sending base s' stream sent v x' m := by
    intro hv
    subst hs
    exact hnext s.tState s.cantSendMore s.rexmt s.persist (.inl rfl)
      (fun hout => ⟨hout, hv hout⟩) h.timers id
  subst hs
  unfold TcpSnd.finAcked
  by_cases hv : stream.length < v
  · have hsent : s.sentFin = true := by
      by_contra hsent
      have hm := h.bytesOnly (Bool.not_eq_true _ ▸ hsent)
      omega
    simp only [decide_eq_true hv, if_true]
    cases hstate : s.tState with
    | established | closeWait | finWait2 | closed =>
      rw [hstate] at hsame
      obtain ⟨x', hx⟩ := hsame nofun
      exact ⟨x', hx.step6 a needoutput idleLong⟩
    | timeWait =>
      rw [hstate] at hsame
      obtain ⟨x', hx⟩ := hsame nofun
      exact ⟨x', hx.dropAfterAck idleLong⟩
    | finWait1 =>
      obtain ⟨x', hx⟩ := hnext .finWait2 s.cantSendMore s.rexmt s.persist
        (.inr ⟨hsent, nofun, nofun⟩) nofun h.timers id
      exact ⟨x', hx.step6 a needoutput idleLong⟩
    | closing =>
      obtain ⟨x', hx⟩ := hnext .timeWait true false false (.inr ⟨hsent, nofun, nofun⟩) nofun
        nofun fun _ => rfl
      exact ⟨x', hx.step6 a needoutput idleLong⟩
    | lastAck =>
      obtain ⟨x', hx⟩ := hnext .closed s.cantSendMore s.rexmt s.persist
        (.inr ⟨hsent, nofun, nofun⟩) nofun h.timers id
      exact ⟨x', hx.tcpClose⟩
  obtain ⟨x', hx⟩ := hsame fun _ => not_lt.1 hv
  refine ⟨x', ?_⟩
  simp only [decide_eq_false hv, Bool.false_eq_true, if_false]
  cases hstate : s.tState with
  | timeWait =>
    rw [hstate] at hx
    exact hx.dropAfterAck idleLong
  | _ =>
    rw [hstate] at hx
    exact hx.step6 a needoutput idleLong

section
variable (hpending : s.pending = none) (a : AckSeg) (idleLong : Bool)
include hpending a idleLong

lemma Sending.newAck (hgt : seqGt a.tiAck s.sndUna = true) :
    ∃ s' u' x', s.newAck a idleLong = .ok s' ∧ Sending base s' stream sent u' x' m := by
  have hretract : Sending base s.retract stream sent u x m := { h with }
  unfold TcpSnd.newAck
  dsimp only
  split_ifs with hbeyond
  · exact ⟨_, u, x, rfl, hretract.dropAfterAck idleLong⟩
  obtain ⟨v, hack, huv, hvm⟩ := h.ackPlace hgt (Bool.not_eq_true _ ▸ hbeyond)
  have hopen : Sending base
      (s.retract.restartRexmt (decide (a.tiAck = s.retract.sndMax))).openCwnd stream sent u x m :=
    { hretract.restartRexmt (decide (a.tiAck = s.retract.sndMax)) with }
  have hquiet : (s.retract.restartRexmt (decide (a.tiAck = s.retract.sndMax))).openCwnd.pending =
      none := by
    unfold TcpSnd.restartRexmt
    split_ifs <;> exact hpending
  have hfin := (hretract.dropped huv hvm).2.2
  rw [hack] at hopen hquiet ⊢
  rw [hfin]
  generalize (s.retract.restartRexmt (decide (place base v = s.retract.sndMax))).openCwnd = s1
    at hopen hquiet
  obtain ⟨hle, hdrop, -⟩ := hopen.dropped huv hvm
  obtain ⟨sb, hsb, hbytes, hhiwat⟩ := hopen.sbdrop hle
  obtain ⟨x', hx⟩ := hopen.finAcked hquiet huv hvm (s1.sndWnd - s1.dropped (place base v))
    (hbytes.trans hdrop) hhiwat rfl a (decide (place base v = s.retract.sndMax)) idleLong
  refine ⟨_, v, x', ?_, hx⟩
  unfold TcpSnd.release
  rw [hsb]
  rfl

lemma Sending.predictedAck (hpred : s.isPredicted a = true) :
    ∃ s' u' x', s.predictedAck a idleLong = .ok s' ∧ Sending base s' stream sent u' x' m := by
  unfold TcpSnd.isPredicted at hpred
  simp only [Bool.and_eq_true, decide_eq_true_eq] at hpred
  obtain ⟨⟨⟨⟨⟨⟨⟨⟨hstate, -⟩, -⟩, -⟩, hnxt⟩, -⟩, hgt⟩, hleq⟩, -⟩ := hpred
  rw [seqLeq_eq, Bool.not_eq_true'] at hleq
  obtain ⟨v, hack, huv, hvm⟩ := h.ackPlace hgt hleq
  have hnear := h.near
  have hux := h.unaNxt
  have hxm := h.nxtMax
  have hnot : s.sentFin = false := by
    cases hsent : s.sentFin with
    | true => exact absurd hstate (h.sentFin hsent).2.2.1
    | false => rfl
  have htop := h.bytesOnly hnot
  rw [h.nxtAt, h.maxAt] at hnxt
  obtain rfl := place_inj base (by omega) (by omega) hnxt
  have hacked : (a.tiAck - s.sndUna).toNat = v - u := by
    rw [hack, h.unaAt, toNat_sub_place base (le_of_lt huv) (by omega)]
  have hlen : u + (v - u) ≤ stream.length := by omega
  obtain ⟨sb, hsb, hbytes, hhiwat⟩ := h.sbdrop hlen
  rw [Nat.add_sub_cancel' (le_of_lt huv)] at hbytes
  have hkeep : s.sndNxt =
      if seqLt s.sndNxt (place base v) = true then place base v else s.sndNxt := by
    rw [h.nxtAt, seqLt_place (by omega) (by omega), if_neg (by rw [decide_eq_true_eq]; omega)]
  have hv : ∃ x', Sending base { s with soSnd := sb, sndUna := a.tiAck } stream sent v x' x :=
    h.acked (le_of_lt huv) hvm hbytes hhiwat hack hkeep rfl rfl id (.inl rfl)
      (fun hout => ⟨hout, by omega⟩) h.timers hpending
  obtain ⟨x', hv⟩ := hv
  have hrestart := hv.restartRexmt (decide (a.tiAck = s.sndMax))
  unfold TcpSnd.predictedAck
  rw [hacked, hsb]
  refine ⟨_, v, x', rfl, ?_⟩
  dsimp only
  split_ifs
  · exact hrestart.enterRet idleLong
  · exact hrestart

lemma Sending.input :
    ∃ s' u' x' m', s.input a idleLong = .ok s' ∧ Sending base s' stream sent u' x' m' := by
  unfold TcpSnd.input
  split_ifs with hpred hold
  · obtain ⟨s', u', x', hs', h'⟩ := h.predictedAck hpending a idleLong hpred
    exact ⟨s', u', x', m, hs', h'⟩
  · obtain ⟨x', h'⟩ := h.duplicateAck a idleLong
    exact ⟨_, u, x', m, rfl, h'⟩
  rw [seqLeq_eq, Bool.not_eq_true', Bool.not_eq_false] at hold
  obtain ⟨s', u', x', hs', h'⟩ := h.newAck hpending a idleLong hold
  exact ⟨s', u', x', m, hs', h'⟩

end

/-! ## Requests and timers -/

lemma Sending.append (hcant : s.cantSendMore = false) (chain : List RecMbuf) (moreToCome : Bool)
    (hfits : s.soSnd.bytes.length + (chainBytes chain).length ≤ s.soSnd.hiwat.toNat + 1024) :
    Sending base { s with soSnd := s.soSnd.sbappend chain, moreToCome := moreToCome }
      (stream ++ chainBytes chain) sent u x m := by
  have hnot : s.sentFin = false := by
    cases hsent : s.sentFin with
    | true => exact absurd (hcant.symm.trans (h.sentFin hsent).2.1) nofun
    | false => rfl
  have hm := h.bytesOnly hnot
  have hux := h.unaNxt
  have hxm := h.nxtMax
  have hmarks := (s.soSnd.sbappend_marks chain).1
  have hbytes := s.soSnd.sbappend_bytes chain
  refine { h with
    top := ?_
    sentFin := fun hsent => absurd (hnot.symm.trans hsent) nofun
    outFin := fun hout => ?_
    bytes := ?_
    few := ?_
    hiwat := ?_
    carries := fun seg hseg => (h.carries seg hseg).append fun hf => ?_
    covered := fun i hi _ => h.covered i hi (by omega)
    finLast := fun seg hseg hf => ?_ }
  · rw [length_append]
    omega
  · exact absurd (hcant.symm.trans (h.outFin hout).1) nofun
  · rw [hbytes, h.bytes, drop_append_of_le_length (by omega)]
  · rw [hbytes, hmarks, length_append]
    exact hfits
  · rw [hmarks]
    exact h.hiwat
  all_goals exact absurd (hcant.symm.trans (h.noMore seg hseg hf)) nofun

lemma Sending.fits
    (hspace : ¬max (s.soSnd.sbspace + if oob = true then 1024 else 0) 0 < (len : ℤ)) :
    s.soSnd.bytes.length + len ≤ s.soSnd.hiwat.toNat + 1024 := by
  have hcc := h.cc
  have hlength := h.length
  have hhiwat := h.hiwat
  have hfew := h.few
  unfold sbMax at hhiwat
  have hsub := toInt_sub_small s.soSnd.hiwat s.soSnd.cc (by omega) (by omega)
  unfold RecSockbuf.sbspace at hspace
  rw [hsub] at hspace
  split_ifs at hspace <;> omega

lemma Sending.usrclosed (idleLong : Bool) :
    Sending base (s.usrclosed idleLong) stream sent u x m := by
  have hum := le_trans h.unaNxt h.nxtMax
  have hopen : s.tState = .established ∨ s.tState = .closeWait → s.sentFin = false := by
    intro hstate
    cases hsent : s.sentFin with
    | false => rfl
    | true =>
      obtain ⟨-, -, hne, hne'⟩ := h.sentFin hsent
      rcases hstate with hstate | hstate
      · exact absurd hstate hne
      · exact absurd hstate hne'
  unfold TcpSnd.usrclosed
  apply Sending.enterRet
  split
  · next hstate =>
    have hnot := hopen (.inl hstate)
    have hm := h.bytesOnly hnot
    exact { h with
      sentFin := fun hsent => absurd (hnot.symm.trans hsent) nofun
      outFin := fun _ => ⟨rfl, le_trans hum hm⟩
      noMore := fun _ _ _ => rfl }
  · next hstate =>
    have hnot := hopen (.inr hstate)
    have hm := h.bytesOnly hnot
    exact { h with
      sentFin := fun hsent => absurd (hnot.symm.trans hsent) nofun
      outFin := fun _ => ⟨rfl, le_trans hum hm⟩
      noMore := fun _ _ _ => rfl }
  · exact { h with
      sentFin := fun hsent => ⟨(h.sentFin hsent).1, rfl, (h.sentFin hsent).2.2⟩
      outFin := fun hout => ⟨rfl, (h.outFin hout).2⟩
      noMore := fun _ _ _ => rfl }

lemma Sending.rexmtTimeout (giveUp idleLong : Bool) :
    ∃ x', Sending base (s.rexmtTimeout giveUp idleLong) stream sent u x' m := by
  unfold TcpSnd.rexmtTimeout
  split_ifs
  · refine ⟨x, Sending.tcpDrop ?_ idleLong⟩
    exact { h with timers := nofun }
  refine ⟨u, Sending.enterRet ?_ idleLong⟩
  exact { h with
    nxtAt := h.unaAt
    unaNxt := le_refl u
    nxtMax := le_trans h.unaNxt h.nxtMax }

lemma Sending.persistTimeout (hpersist : s.persist = true) (giveUp idleLong : Bool) :
    ∃ s', s.persistTimeout giveUp idleLong = .ok s' ∧ Sending base s' stream sent u x m := by
  have hrexmt : s.rexmt = false := by
    cases hrexmt : s.rexmt with
    | false => rfl
    | true => exact absurd ((h.timers hrexmt).symm.trans hpersist) nofun
  unfold TcpSnd.persistTimeout TcpSnd.tcpSetpersist
  dsimp only
  split_ifs with hgive hboth
  · refine ⟨_, rfl, Sending.tcpDrop ?_ idleLong⟩
    exact { h with timers := fun _ => rfl }
  · exact absurd (hrexmt.symm.trans hboth) nofun
  · refine ⟨_, rfl, Sending.enterRet ?_ idleLong⟩
    exact { h with timers := fun hr => absurd (hrexmt.symm.trans hr) nofun }

lemma Sending.usrSend {chain : List RecMbuf} {moreToCome idleLong : Bool} {next : SndStep}
    (hnext : s.usrSend chain oob moreToCome idleLong = some next) :
    Sending base next.tp (stream ++ next.taken) (sent ++ next.sent.toList) u x m ∧
      next.sent = none := by
  unfold TcpSnd.usrSend at hnext
  by_cases hcant : s.cantSendMore = true
  · rw [if_pos hcant] at hnext
    cases hnext
  rw [if_neg hcant] at hnext
  rw [Bool.not_eq_true] at hcant
  by_cases hspace : max (s.soSnd.sbspace + if oob = true then 1024 else 0) 0 <
      ((chainBytes chain).length : ℤ)
  · rw [if_pos hspace] at hnext
    cases hnext
  rw [if_neg hspace] at hnext
  have happend := h.append hcant chain moreToCome (h.fits hspace)
  split_ifs at hnext with hfull hoob
  · cases hnext
    rw [Option.toList_none, append_nil, append_nil]
    exact ⟨h, rfl⟩
  all_goals
    cases hnext
    rw [Option.toList_none, append_nil]
  · refine ⟨Sending.enterRet ?_ idleLong, rfl⟩
    exact { happend with }
  · exact ⟨happend.enterRet idleLong, rfl⟩

omit h in
lemma TcpSnd.quiet_of_step {o : Option (Except TcpPanic SndStep)} {r : Except TcpPanic SndStep}
    (ho : (if s.pending.isSome = true ∨ s.tState = .closed then none else o) = some r) :
    s.pending = none ∧ o = some r := by
  split_ifs at ho with hgone
  exact ⟨Option.not_isSome_iff_eq_none.1 (not_or.1 hgone).1, ho⟩

lemma Sending.step {op : SndOp}
    {r : Except TcpPanic SndStep} (hr : s.step op = some r) :
    ∃ next u' x' m', r = .ok next ∧
      Sending base next.tp (stream ++ next.taken) (sent ++ next.sent.toList) u' x' m' ∧
      ∀ g ∈ next.sent, g.Carries base stream u := by
  have hstill : ∀ {q : Except TcpPanic TcpSnd},
      (∃ s' u' x' m', q = .ok s' ∧ Sending base s' stream sent u' x' m') →
      ∃ next u' x' m', q.map (fun s => SndStep.mk s [] none) = .ok next ∧
        Sending base next.tp (stream ++ next.taken) (sent ++ next.sent.toList) u' x' m' ∧
        ∀ g ∈ next.sent, g.Carries base stream u := by
    rintro q ⟨s', u', x', m', rfl, h'⟩
    refine ⟨⟨s', [], none⟩, u', x', m', rfl, ?_, nofun⟩
    rw [Option.toList_none, append_nil, append_nil]
    exact h'
  unfold TcpSnd.step at hr
  cases op with
  | again e =>
    obtain ⟨⟨idle, after⟩, hpending, rfl⟩ := Option.map_eq_some_iff.1 hr
    obtain ⟨s', seg, more, x', m', hround, h', hseg⟩ := h.round idle e
    have hsame := (congrArg Prod.fst (TcpSnd.round_frame hround)).trans hpending
    dsimp only
    unfold TcpSnd.again
    rw [hround]
    cases more with
    | true =>
      refine ⟨_, u, x', m', rfl, ?_, hseg⟩
      rw [append_nil]
      exact h'
    | false =>
      obtain ⟨x'', h''⟩ := h'.finish hsame
      refine ⟨_, u, x'', m', rfl, ?_, hseg⟩
      rw [append_nil]
      exact h''
  | send chain oob moreToCome idleLong =>
    obtain ⟨-, hr⟩ := s.quiet_of_step hr
    obtain ⟨next, hnext, rfl⟩ := Option.map_eq_some_iff.1 hr
    obtain ⟨h', hnone⟩ := h.usrSend hnext
    refine ⟨next, u, x, m, rfl, h', ?_⟩
    rw [hnone]
    exact nofun
  | output ackNow idleLong =>
    obtain ⟨-, hr⟩ := s.quiet_of_step hr
    cases hr
    refine hstill ⟨_, u, x, m, rfl, Sending.enterRet ?_ idleLong⟩
    exact { h with }
  | usrclosed idleLong =>
    obtain ⟨-, hr⟩ := s.quiet_of_step hr
    cases hr
    exact hstill ⟨_, u, x, m, rfl, h.usrclosed idleLong⟩
  | input a idleLong =>
    obtain ⟨hpending, hr⟩ := s.quiet_of_step hr
    cases hr
    exact hstill (h.input hpending a idleLong)
  | rexmtTimeout giveUp idleLong =>
    obtain ⟨-, hr⟩ := s.quiet_of_step hr
    dsimp only at hr
    split_ifs at hr
    cases hr
    obtain ⟨x', h'⟩ := h.rexmtTimeout giveUp idleLong
    exact hstill ⟨_, u, x', m, rfl, h'⟩
  | persistTimeout giveUp idleLong =>
    obtain ⟨-, hr⟩ := s.quiet_of_step hr
    dsimp only at hr
    split_ifs at hr with hpersist
    cases hr
    obtain ⟨s', hs', h'⟩ := h.persistTimeout hpersist giveUp idleLong
    exact hstill ⟨s', u, x, m, hs', h'⟩
  | drop idleLong =>
    obtain ⟨-, hr⟩ := s.quiet_of_step hr
    cases hr
    exact hstill ⟨_, u, x, m, rfl, h.tcpDrop idleLong⟩
  | close =>
    obtain ⟨-, hr⟩ := s.quiet_of_step hr
    cases hr
    exact hstill ⟨_, u, x, m, rfl, h.tcpClose⟩

end

/-! ## Runs -/

structure Established (iss : TcpSeq) (s : TcpSnd) : Prop where
  tState : s.tState = .established
  sndUna : s.sndUna = iss + 1
  sndNxt : s.sndNxt = iss + 1
  sndMax : s.sndMax = iss + 1
  sentFin : s.sentFin = false
  empty : s.soSnd.mb = []
  /-- `sbreserve` grants no more. -/
  hiwat : s.soSnd.hiwat.toNat ≤ sbMax * mclBytes / (128 + mclBytes)
  timers : ¬(s.rexmt = true ∧ s.persist = true)
  pending : s.pending = none

/-- A connection, with all bytes the user has sent and the segments that went out. -/
inductive SndRun (iss : TcpSeq) : TcpSnd → List UInt8 → List SentSeg → Prop
  | established {s : TcpSnd} (h : Established iss s) : SndRun iss s [] []
  | step {s : TcpSnd} {stream : List UInt8} {sent : List SentSeg} (h : SndRun iss s stream sent)
      (op : SndOp) {next : SndStep} (hstep : s.step op = some (.ok next)) :
      SndRun iss next.tp (stream ++ next.taken) (sent ++ next.sent.toList)

section
variable {iss : TcpSeq} {s : TcpSnd} {stream : List UInt8} {sent : List SentSeg}

lemma Established.sending (h : Established iss s) : Sending (iss + 1) s [] [] 0 0 0 := by
  have hbytes : s.soSnd.bytes = [] := by
    unfold RecSockbuf.bytes
    rw [h.empty]
    rfl
  have hhiwat : s.soSnd.hiwat.toNat ≤ sbMax := Nat.le_trans h.hiwat (by decide)
  refine {
    unaAt := by rw [h.sndUna, place_zero]
    nxtAt := by rw [h.sndNxt, place_zero]
    maxAt := by rw [h.sndMax, place_zero]
    unaNxt := Nat.le_refl 0
    nxtMax := Nat.le_refl 0
    top := Nat.zero_le _
    sentFin := fun hsent => absurd (h.sentFin.symm.trans hsent) nofun
    outFin := fun hout => ?_
    bytes := hbytes
    few := by rw [hbytes]; exact Nat.zero_le _
    hiwat := hhiwat
    timers := fun hrexmt => ?_
    dupack := by rw [h.pending]; exact nofun
    carries := nofun
    finSent := fun hsent => absurd (h.sentFin.symm.trans hsent) nofun
    noMore := nofun
    covered := nofun
    finLast := nofun }
  · rw [h.tState] at hout
    cases hout
  · exact Bool.eq_false_iff.2 fun hpersist => h.timers ⟨hrexmt, hpersist⟩

lemma SndRun.sending (h : SndRun iss s stream sent) :
    ∃ u x m, Sending (iss + 1) s stream sent u x m := by
  induction h with
  | established h => exact ⟨0, 0, 0, h.sending⟩
  | step _ op hstep ih =>
    obtain ⟨u, x, m, h⟩ := ih
    obtain ⟨next, u', x', m', hok, h', -⟩ := h.step hstep
    cases hok
    exact ⟨u', x', m', h'⟩

end

end Rhapsody.Netinet
