import Rhapsody.Netinet.TcpOutput
import Rhapsody.Lib.SeqNum

/-! What a round of `tcp_output` sends. The numbers of a connection are places in the stream
of the user's bytes, which the FIN follows, and the send buffer holds the stream from the place
of `snd_una` on. -/

namespace Rhapsody.Netinet

open Bsd SeqNum List TcpSnd

/-- The segment has the bytes of the stream under its numbers, from a place not before `u`, and its
FIN is behind the last. -/
def SentSeg.Carries (base : TcpSeq) (stream : List UInt8) (u : ℕ) (seg : SentSeg) : Prop :=
  seg.data ≠ [] ∨ seg.fin = true →
    ∃ p ≥ u, seg.tiSeq = place base p ∧ p + seg.data.length ≤ stream.length ∧
      seg.data = (stream.drop p).take seg.data.length ∧
      (seg.fin = true → p + seg.data.length = stream.length)

variable {seg : SentSeg}

variable {base : TcpSeq} {stream : List UInt8} {u : ℕ}

lemma SentSeg.Carries.append (h : seg.Carries base stream u) {more : List UInt8}
    (hfin : seg.fin ≠ true) : seg.Carries base (stream ++ more) u := by
  intro hcarry
  obtain ⟨p, hup, hseq, hle, hdata, -⟩ := h hcarry
  refine ⟨p, hup, hseq, ?_, ?_, fun hf => absurd hf hfin⟩
  · rw [length_append]
    omega
  rw [drop_append_of_le_length (by omega), take_append_of_le_length]
  · exact hdata
  · rw [length_drop]
    omega

lemma SentSeg.Carries.later (h : seg.Carries base stream u) : seg.Carries base stream 0 := by
  intro hcarry
  obtain ⟨p, -, hplace⟩ := h hcarry
  exact ⟨p, Nat.zero_le p, hplace⟩

def Covered (base : TcpSeq) (sent : List SentSeg) (i : ℕ) : Prop :=
  ∃ seg ∈ sent, ∃ p, seg.tiSeq = place base p ∧ p ≤ i ∧ i < p + seg.data.length

lemma Covered.append {sent : List SentSeg} {i : ℕ} (h : Covered base sent i)
    (more : List SentSeg) : Covered base (sent ++ more) i := by
  obtain ⟨seg, hseg, hplace⟩ := h
  exact ⟨seg, mem_append_left _ hseg, hplace⟩

/-- The connection with `snd_una`, `snd_nxt` and `snd_max` at the places `u`, `x` and `m`, after the
segments `sent`. The first place is behind the SYN. -/
structure Sending (base : TcpSeq) (s : TcpSnd) (stream : List UInt8) (sent : List SentSeg)
    (u x m : ℕ) : Prop where
  unaAt : s.sndUna = place base u
  nxtAt : s.sndNxt = place base x
  maxAt : s.sndMax = place base m
  unaNxt : u ≤ x
  nxtMax : x ≤ m
  /-- The number behind the stream is used by a FIN only. -/
  top : m ≤ stream.length + s.sentFin.toNat
  sentFin : s.sentFin = true → m = stream.length + 1 ∧ s.cantSendMore = true ∧
    s.tState ≠ .established ∧ s.tState ≠ .closeWait
  outFin : s.tState.outFin = true → s.cantSendMore = true ∧ u ≤ stream.length
  bytes : s.soSnd.bytes = stream.drop u
  few : s.soSnd.bytes.length ≤ s.soSnd.hiwat.toNat + 1024
  hiwat : s.soSnd.hiwat.toNat ≤ sbMax
  timers : s.rexmt = true → s.persist = false
  dupack : ∀ idle onxt, s.pending = some (idle, .dupack onxt) →
    ∃ o, onxt = place base o ∧ u ≤ o ∧ o ≤ m
  carries : ∀ seg ∈ sent, seg.Carries base stream 0
  finSent : s.sentFin = true → ∃ seg ∈ sent, seg.fin = true
  noMore : ∀ seg ∈ sent, seg.fin = true → s.cantSendMore = true
  covered : ∀ i < m, i < stream.length → Covered base sent i
  finLast : ∀ seg ∈ sent, seg.fin = true → ∀ i < stream.length, Covered base sent i

section
variable {p q : ℕ}

lemma seqLt_place (hp : p ≤ q + 2 ^ 30) (hq : q ≤ p + 2 ^ 30) :
    seqLt (place base p) (place base q) = decide (p < q) := by
  unfold seqLt
  rw [toInt_sub_place base (by omega) (by omega)]
  exact decide_eq_decide.2 (by omega)

lemma seqGt_place (hp : p ≤ q + 2 ^ 30) (hq : q ≤ p + 2 ^ 30) :
    seqGt (place base p) (place base q) = decide (q < p) := by
  unfold seqGt
  rw [toInt_sub_place base (by omega) (by omega)]
  exact decide_eq_decide.2 (by omega)

lemma umin_toNat (a b : BitVec 32) : (umin a b).toNat = min a.toNat b.toNat := by
  unfold umin
  split_ifs with h
  · have := BitVec.lt_def.1 h
    omega
  · have := mt BitVec.lt_def.2 h
    omega

lemma place_ofNat_toNat (b : BitVec 32) : place base p + b = place base (p + b.toNat) := by
  rw [← place_add, BitVec.ofNat_toNat, BitVec.setWidth_eq]

end

section
variable {s : TcpSnd} {sent : List SentSeg} {x m : ℕ}
  (h : Sending base s stream sent u x m)
include h

lemma Sending.length : s.soSnd.bytes.length = stream.length - u := by
  rw [h.bytes, length_drop]

lemma Sending.near : stream.length ≤ u + 2 ^ 20 ∧ m ≤ u + 2 ^ 20 := by
  have hfew := h.few
  have hhiwat := h.hiwat
  have htop := h.top
  rw [h.length] at hfew
  unfold sbMax at hhiwat
  have hfin := Bool.toNat_le s.sentFin
  omega

lemma Sending.cc : s.soSnd.cc.toNat = stream.length - u := by
  have hnear := h.near
  unfold RecSockbuf.cc
  rw [h.length, BitVec.toNat_ofNat, Nat.mod_eq_of_lt (by omega)]

lemma Sending.off : (s.sndNxt - s.sndUna).toNat = x - u := by
  have hnear := h.near
  have hle := h.nxtMax
  rw [h.nxtAt, h.unaAt, toNat_sub_place base h.unaNxt (by omega)]

structure Sized (base : TcpSeq) (stream : List UInt8) (sent : List SentSeg) (u m : ℕ)
    (z : Sizing) (y l : ℕ) : Prop where
  sending : Sending base z.tp stream sent u y m
  len : z.len.toNat = l
  data : l ≠ 0 → z.off.toNat = y - u ∧ y + l ≤ stream.length
  fin : z.fin = true → z.tp.tState.outFin = true ∧
    (y + l = stream.length ∨ l = 0 ∧ y = stream.length + 1)

lemma Sending.forced : Sending base s.forced.1 stream sent u x m ∧
      (s.forced.2.2 = true → s.forced.1.tState.outFin = true) := by
  unfold TcpSnd.forced
  dsimp only
  split_ifs with hforce hwin
  · refine ⟨h, fun hfin => ?_⟩
    rw [Bool.and_eq_true] at hfin
    exact hfin.1
  · exact ⟨{ h with timers := fun _ => rfl }, fun hfin => hfin⟩
  · exact ⟨h, fun hfin => hfin⟩

lemma Sending.pullBack (win : BitVec 32) {off : BitVec 32} (hoff : off.toNat = x - u) :
    ∃ y, Sending base (s.pullBack win (umin s.soSnd.cc win - off)).1 stream sent u y m ∧
      (s.pullBack win (umin s.soSnd.cc win - off)).1.tState = s.tState ∧
      ((s.pullBack win (umin s.soSnd.cc win - off)).2.toNat ≠ 0 → y = x ∧
        y + (s.pullBack win (umin s.soSnd.cc win - off)).2.toNat ≤ stream.length) := by
  have hnear := h.near
  have hcc := h.cc
  have hux := h.unaNxt
  have hxm := h.nxtMax
  have hmin := umin_toNat s.soSnd.cc win
  unfold TcpSnd.pullBack
  split_ifs with hneg hwin
  · refine ⟨u, ?_, rfl, fun hne => absurd rfl hne⟩
    exact { h with nxtAt := h.unaAt, unaNxt := le_refl u, nxtMax := by omega, timers := nofun }
  · exact ⟨x, h, rfl, fun hne => absurd rfl hne⟩
  rw [toInt_sub_small _ _ (by omega) (by omega)] at hneg
  have hlen : (umin s.soSnd.cc win - off).toNat = (umin s.soSnd.cc win).toNat - off.toNat :=
    BitVec.toNat_sub_of_le (BitVec.le_def.2 (by omega))
  refine ⟨x, h, rfl, fun hne => ⟨rfl, ?_⟩⟩
  dsimp only at hne ⊢
  omega

lemma Sending.last {len : BitVec 32} (hlen : x + len.toNat ≤ stream.length ∨ len.toNat = 0)
    (hfin : (!seqLt (s.sndNxt + len) (s.sndUna + s.soSnd.cc)) = true) :
    x + len.toNat = stream.length ∨ len.toNat = 0 ∧ x = stream.length + 1 := by
  have hnear := h.near
  have hux := h.unaNxt
  have hxm := h.nxtMax
  have htop := h.top
  have hone := Bool.toNat_le s.sentFin
  rw [h.nxtAt, h.unaAt, place_ofNat_toNat, place_ofNat_toNat, h.cc,
    seqLt_place (by omega) (by omega), Bool.not_eq_true', decide_eq_false_iff_not] at hfin
  omega

lemma Sending.sizing : ∃ y l, Sized base stream sent u m s.sizing y l := by
  obtain ⟨h1, hfin⟩ := h.forced
  have hoff := h.off
  unfold TcpSnd.sizing
  generalize s.forced = r at h1 hfin
  obtain ⟨s1, win, fin⟩ := r
  dsimp only at h1 hfin ⊢
  obtain ⟨y, h2, hstate, hdata⟩ := h1.pullBack win hoff
  generalize s1.pullBack win (umin s1.soSnd.cc win - (s.sndNxt - s.sndUna)) = r at h2 hstate hdata
  obtain ⟨s2, len⟩ := r
  dsimp only at h2 hstate hdata ⊢
  rw [← hstate] at hfin
  -- The cut to one segment keeps what is known of the length.
  have hcut : (if s2.maxseg < len then (s2.maxseg, true) else (len, false)).1.toNat ≤
      len.toNat := by
    split_ifs with hlt
    · exact le_of_lt (BitVec.lt_def.1 hlt)
    · exact le_refl _
  generalize (if s2.maxseg < len then (s2.maxseg, true) else (len, false)) = c at hcut
  obtain ⟨l, sendalot⟩ := c
  dsimp only at hcut ⊢
  refine ⟨y, l.toNat, h2, rfl, fun hne => ?_, fun hboth => ?_⟩
  · obtain ⟨rfl, hle⟩ := hdata (by omega)
    exact ⟨hoff, by omega⟩
  rw [Bool.and_eq_true] at hboth
  have hout := hfin hboth.1
  refine ⟨hout, h2.last ?_ hboth.2⟩
  by_cases hne : l.toNat = 0
  · exact .inr hne
  · have hle := (hdata (by omega)).2
    exact .inl (by omega)

omit h in
lemma Sized.fitted {z : Sizing} {y l : ℕ} (h : Sized base stream sent u m z y l) :
    ∃ l', Sized base stream sent u m (fitted z) y l' := by
  unfold TcpSnd.fitted
  dsimp only
  generalize z.tp.maxseg - (if (z.tp.tstamps && !z.tp.tState.outRst) = true then 12 else 0) = room
  split_ifs with hlong
  · refine ⟨room.toNat, h.sending, rfl, fun hne => ?_, nofun⟩
    have hlt := BitVec.lt_def.1 hlong
    have hlen := h.len
    obtain ⟨hoff, hle⟩ := h.data (by omega)
    exact ⟨hoff, by omega⟩
  · exact ⟨l, h⟩

end

section
variable {s : TcpSnd} {sent : List SentSeg} {m y l : ℕ}
  {z : Sizing}

lemma Sized.copies (h : Sized base stream sent u m z y l) (e : OutEnv) :
    copies z e = .error .noBufs ∨
      copies z e = .ok ((stream.drop y).take l) ∧ ((stream.drop y).take l).length = l := by
  have hux := h.sending.unaNxt
  have hlen := h.len
  unfold TcpSnd.copies
  dsimp only
  split_ifs with hhdr hzero hsmall
  · exact .inl rfl
  · obtain rfl : l = 0 := by
      rw [← hlen, hzero]
      rfl
    rw [take_zero]
    exact .inr ⟨rfl, rfl⟩
  all_goals
    have hne : l ≠ 0 := by
      intro hl
      apply hzero
      apply BitVec.eq_of_toNat_eq
      rw [hlen, hl]
      rfl
    obtain ⟨hoff, hle⟩ := h.data hne
    have hbytes : z.tp.soSnd.mb.flatMap chainBytes = stream.drop u := h.sending.bytes
    have htake : ((stream.drop y).take l).length = l := by
      rw [length_take, length_drop]
      omega
    have hdrop : (stream.drop u).drop (y - u) = stream.drop y := by
      rw [drop_drop]
      congr 1
      omega
    have hfits : z.off.toNat + z.len.toNat ≤ (z.tp.soSnd.mb.flatMap chainBytes).length := by
      rw [hbytes, length_drop]
      omega
    rcases RecSockbuf.copyLoop_spec _ 0 _ _ _ (by omega) hfits with hcopy | hcopy
    · exact .inl hcopy
    · rw [hcopy, hbytes, hoff, hlen, hdrop]
      exact .inr ⟨rfl, htake⟩

lemma Sized.resent (h : Sized base stream sent u m z y l) :
    ∃ y', Sending base (resent z) stream sent u y' m ∧
      (resent z).tState = z.tp.tState ∧
      (l ≠ 0 → y' = y) ∧ (z.fin = true → y' + l = stream.length) := by
  have hs := h.sending
  unfold TcpSnd.resent
  split_ifs with hagain
  · simp only [Bool.and_eq_true, decide_eq_true_eq] at hagain
    obtain ⟨⟨hfin, hsent⟩, hmax⟩ := hagain
    obtain ⟨hout, hplace⟩ := h.fin hfin
    have hu := (hs.outFin hout).2
    have hm := (hs.sentFin hsent).1
    have hnear := hs.near
    have hux := hs.unaNxt
    rw [hs.nxtAt, hs.maxAt] at hmax
    obtain rfl := place_inj base (by omega) (by omega) hmax
    have hl : l = 0 ∧ y = stream.length + 1 := by omega
    refine ⟨stream.length, ?_, rfl, fun hne => absurd hl.1 hne, fun _ => by omega⟩
    refine { hs with nxtAt := ?_, unaNxt := hu, nxtMax := by omega }
    rw [hs.nxtAt, hl.2, ← place_add]
    exact BitVec.add_sub_cancel _ _
  refine ⟨y, hs, rfl, fun _ => rfl, fun hfin => ?_⟩
  obtain ⟨-, hplace⟩ := h.fin hfin
  rcases hplace with hplace | ⟨-, hy⟩
  · exact hplace
  -- The FIN has a number already, so `snd_nxt` would be `snd_max`.
  exfalso
  have htop := hs.top
  have hym := hs.nxtMax
  have hsent : z.tp.sentFin = true := by
    cases hsent : z.tp.sentFin with
    | true => rfl
    | false =>
      rw [hsent] at htop
      change m ≤ stream.length + 0 at htop
      omega
  have hm := (hs.sentFin hsent).1
  apply hagain
  rw [hfin, hsent, hs.nxtAt, hs.maxAt, hm, hy]
  simp

lemma outFin_ne {t : TcpState} (h : t.outFin = true) : t ≠ .established ∧ t ≠ .closeWait := by
  constructor
  all_goals
    rintro rfl
    cases h

variable {x : ℕ}

lemma Sending.dragUp (h : Sending base s stream sent u x m) :
    Sending base s.dragUp stream sent u x m := by
  unfold TcpSnd.dragUp
  split_ifs
  · exact h
  · exact { h with }

lemma Sending.startRexmt (h : Sending base s stream sent u x m) :
    Sending base s.startRexmt stream sent u x m := by
  unfold TcpSnd.startRexmt
  split_ifs
  · exact { h with timers := fun _ => rfl }
  · exact h

lemma seqGt_max {p q : ℕ} (hp : p ≤ q + 2 ^ 30) (hq : q ≤ p + 2 ^ 30) :
    (if seqGt (place base p) (place base q) = true then place base p else place base q) =
      place base (max p q) := by
  rw [seqGt_place hp hq]
  by_cases h : q < p
  · rw [if_pos (decide_eq_true h), Nat.max_eq_left (le_of_lt h)]
  · rw [if_neg (by rw [decide_eq_true_eq]; exact h), Nat.max_eq_right (not_lt.1 h)]

variable {data : List UInt8} {e : OutEnv} {more : Bool} {s' : TcpSnd}

lemma TcpSnd.segment_tiSeq (s : TcpSnd) (hlen : z.len.toNat = l) (h : l ≠ 0 ∨ z.fin = true) :
    (s.segment z data).tiSeq = s.sndNxt := by
  apply if_pos
  rw [Bool.or_eq_true, Bool.or_eq_true, decide_eq_true_eq]
  rcases h with hne | hfin
  · refine .inl (.inl fun hzero => hne ?_)
    rw [← hlen, hzero]
    rfl
  · exact .inl (.inr hfin)

lemma Sending.segment (h : Sending base s stream sent u x m) (hlen : z.len.toNat = l)
    (hlength : data.length = l)
    (hdata : l ≠ 0 → x + l ≤ stream.length ∧ data = (stream.drop x).take l)
    (hfin : z.fin = true → x + l = stream.length) : (s.segment z data).Carries base stream u := by
  intro hcarry
  have hseq : (s.segment z data).tiSeq = place base x := by
    rw [← h.nxtAt]
    refine s.segment_tiSeq hlen (hcarry.imp_left fun hne hzero => hne ?_)
    exact eq_nil_of_length_eq_zero (hlength.trans hzero)
  have hl : (s.segment z data).data.length = l := hlength
  refine ⟨x, h.unaNxt, hseq, ?_, ?_, fun hf => ?_⟩
  · rw [hl]
    by_cases hzero : l = 0
    · rcases hcarry with hne | hf
      · exact absurd (eq_nil_of_length_eq_zero (hlength.trans hzero)) hne
      · exact le_of_eq (hfin hf)
    · exact (hdata hzero).1
  · rw [hl]
    by_cases hzero : l = 0
    · rw [hzero, take_zero]
      exact eq_nil_of_length_eq_zero (hlength.trans hzero)
    · exact (hdata hzero).2
  · rw [hl]
    exact hfin hf

section
variable (h : Sending base s stream sent u x m) (hlen : z.len.toNat = l)
include h hlen

lemma Sending.next : s.sndNxt + (if z.fin = true then 1 else 0) + z.len =
    place base (x + z.fin.toNat + l) := by
  rw [h.nxtAt, ← hlen, ← place_ofNat_toNat]
  congr 1
  cases z.fin with
  | true => exact place_add base x 1
  | false => exact BitVec.add_zero _

variable (hdata : l ≠ 0 → x + l ≤ stream.length)
include hdata

lemma Sending.number (hfin : z.fin = true → s.tState.outFin = true ∧ x + l = stream.length)
    (hseg : z.fin = true → ∃ seg ∈ sent, seg.fin = true)
    (hcover : ∀ i, x ≤ i → i < x + l → Covered base sent i) :
    ∃ x' m', Sending base (s.number z) stream sent u x' m' := by
  have hnear := h.near
  have hux := h.unaNxt
  have hxm := h.nxtMax
  have htop := h.top
  have hnxt := h.next hlen
  have hone := Bool.toNat_le s.sentFin
  have hfin' := Bool.toNat_le z.fin
  refine ⟨x + z.fin.toNat + l, max (x + z.fin.toNat + l) m, ?_⟩
  refine { h with
    nxtAt := hnxt
    maxAt := ?_
    unaNxt := by omega
    nxtMax := le_max_left _ _
    top := ?_
    sentFin := ?_
    dupack := ?_
    finSent := ?_
    covered := ?_ }
  · show (if seqGt _ s.sndMax = true then _ else s.sndMax) = _
    rw [hnxt, h.maxAt, seqGt_max (by omega) (by omega)]
  · show _ ≤ stream.length + (s.sentFin || z.fin).toNat
    cases hf : z.fin with
    | true =>
      have hx := (hfin hf).2
      rw [Bool.or_true]
      change max (x + 1 + l) m ≤ stream.length + 1
      omega
    | false =>
      rw [Bool.or_false]
      change max (x + 0 + l) m ≤ stream.length + s.sentFin.toNat
      omega
  · intro hsent
    cases hf : z.fin with
    | true =>
      obtain ⟨hout, hx⟩ := hfin hf
      refine ⟨?_, (h.outFin hout).1, outFin_ne hout⟩
      change max (x + 1 + l) m = stream.length + 1
      omega
    | false =>
      have hsent : (s.sentFin || z.fin) = true := hsent
      rw [hf, Bool.or_false] at hsent
      obtain ⟨hm, hrest⟩ := h.sentFin hsent
      refine ⟨?_, hrest⟩
      change max (x + 0 + l) m = stream.length + 1
      omega
  · intro idle onxt hpending
    obtain ⟨o, honxt, huo, hom⟩ := h.dupack idle onxt hpending
    exact ⟨o, honxt, huo, le_trans hom (le_max_right _ _)⟩
  · intro hsent
    rcases Bool.or_eq_true _ _ ▸ hsent with hold | hnew
    · exact h.finSent hold
    · exact hseg hnew
  intro i hi hlt
  by_cases hold : i < m
  · exact h.covered i hold hlt
  apply hcover i (by omega)
  cases hf : z.fin with
  | true =>
    have hx := (hfin hf).2
    omega
  | false =>
    rw [hf] at hi
    change i < max (x + 0 + l) m at hi
    omega

lemma Sending.probe (hcover : ∀ i, x ≤ i → i < x + l → Covered base sent i) :
    ∃ m', Sending base (s.probe z) stream sent u x m' := by
  have hnear := h.near
  have hux := h.unaNxt
  have hxm := h.nxtMax
  unfold TcpSnd.probe
  rw [h.nxtAt, place_ofNat_toNat, hlen, h.maxAt]
  by_cases hl : l = 0
  · rw [seqGt_place (by omega) (by omega), if_neg (by rw [decide_eq_true_eq]; omega)]
    exact ⟨m, h⟩
  have hle := hdata hl
  rw [seqGt_place (by omega) (by omega)]
  split_ifs with hgt
  · have hgt := of_decide_eq_true hgt
    refine ⟨x + l, { h with
      nxtAt := rfl
      maxAt := rfl
      nxtMax := by omega
      top := ?_
      sentFin := ?_
      dupack := ?_
      covered := ?_ }⟩
    · exact Nat.le_trans hle (Nat.le_add_right _ _)
    · intro hsent
      have hm := (h.sentFin hsent).1
      omega
    · intro idle onxt hpending
      obtain ⟨o, honxt, huo, hom⟩ := h.dupack idle onxt hpending
      exact ⟨o, honxt, huo, by omega⟩
    intro i hi hlt
    by_cases hold : i < m
    · exact h.covered i hold hlt
    · exact hcover i (by omega) hi
  · exact ⟨m, h⟩

lemma Sending.advance (hfin : z.fin = true → s.tState.outFin = true ∧ x + l = stream.length)
    (hseg : z.fin = true → ∃ seg ∈ sent, seg.fin = true)
    (hcover : ∀ i, x ≤ i → i < x + l → Covered base sent i) :
    ∃ x' m', Sending base (s.advance z) stream sent u x' m' := by
  have hdrag := h.dragUp
  have hstate : s.dragUp.tState = s.tState := by
    unfold TcpSnd.dragUp
    split_ifs <;> rfl
  unfold TcpSnd.advance
  dsimp only
  split_ifs
  · obtain ⟨x', m', hnumber⟩ := hdrag.number hlen hdata (by rw [hstate]; exact hfin) hseg hcover
    exact ⟨x', m', hnumber.startRexmt⟩
  · obtain ⟨m', hprobe⟩ := hdrag.probe hlen hdata hcover
    exact ⟨x, m', hprobe⟩

end

lemma Sending.sends (h : Sending base s stream sent u x m) (hcarries : seg.Carries base stream u)
    (hfin : seg.fin = true → s.cantSendMore = true)
    (hlast : seg.fin = true → ∀ i < stream.length, Covered base (sent ++ [seg]) i) :
    Sending base s stream (sent ++ [seg]) u x m := by
  refine { h with
    carries := ?_
    finSent := fun hsent => ?_
    noMore := ?_
    covered := fun i hi hlt => (h.covered i hi hlt).append _
    finLast := ?_ }
  · intro g hg
    rcases mem_append.1 hg with hg | hg
    · exact h.carries g hg
    · rw [mem_singleton.1 hg]
      exact hcarries.later
  · obtain ⟨g, hg, hf⟩ := h.finSent hsent
    exact ⟨g, mem_append_left _ hg, hf⟩
  · intro g hg
    rcases mem_append.1 hg with hg | hg
    · exact h.noMore g hg
    · rw [mem_singleton.1 hg]
      exact hfin
  intro g hg hf i hi
  rcases mem_append.1 hg with hg | hg
  · exact (h.finLast g hg hf i hi).append _
  · exact hlast (mem_singleton.1 hg ▸ hf) i hi

lemma Sending.tcpQuench (h : Sending base s stream sent u x m) :
    Sending base s.tcpQuench stream sent u x m :=
  { h with }

lemma Sized.emit (h : Sized base stream sent u m z y l) (e : OutEnv) :
    ∃ s' seg more x' m', emit z e = .ok (s', seg, more) ∧
      Sending base s' stream (sent ++ seg.toList) u x' m' ∧ ∀ g ∈ seg, g.Carries base stream u := by
  obtain ⟨l', h'⟩ := h.fitted
  unfold TcpSnd.emit
  generalize TcpSnd.fitted z = z at h'
  dsimp only
  rcases h'.copies e with hcopy | ⟨hcopy, hlength⟩
  · rw [hcopy]
    refine ⟨_, none, false, y, m, rfl, ?_, nofun⟩
    rw [Option.toList_none, append_nil]
    exact h'.sending.tcpQuench
  obtain ⟨x, hs, hstate, hx, hfin⟩ := h'.resent
  have hdata : l' ≠ 0 → x + l' ≤ stream.length := by
    intro hne
    rw [hx hne]
    exact (h'.data hne).2
  have hout : z.fin = true → (TcpSnd.resent z).tState.outFin = true := by
    intro hf
    rw [hstate]
    exact (h'.fin hf).1
  have hcarries := hs.segment h'.len hlength (fun hne => ⟨hdata hne, by rw [hx hne]⟩) hfin
  have hmem : (TcpSnd.resent z).segment z ((stream.drop y).take l') ∈
      sent ++ [(TcpSnd.resent z).segment z ((stream.drop y).take l')] :=
    mem_append_right _ mem_cons_self
  have hcover : ∀ i, x ≤ i → i < x + l' → Covered base
      (sent ++ [(TcpSnd.resent z).segment z ((stream.drop y).take l')]) i := by
    intro i hxi hi
    refine ⟨_, hmem, x, ?_, hxi, hi.trans_eq (congrArg (x + ·) hlength.symm)⟩
    rw [(TcpSnd.resent z).segment_tiSeq h'.len (.inl (by omega)), hs.nxtAt]
  have hsends := hs.sends hcarries (fun hf => (hs.outFin (hout hf)).1) fun hf i hi => by
    by_cases hxi : x ≤ i
    · apply hcover i hxi
      rw [hfin hf]
      exact hi
    · have hxm := hs.nxtMax
      exact (hs.covered i (by omega) hi).append _
  obtain ⟨x', m', hnext⟩ := hsends.advance h'.len hdata (fun hf => ⟨hout hf, hfin hf⟩)
    (fun hf => ⟨_, hmem, hf⟩) hcover
  have hseg : ∀ g ∈ some ((TcpSnd.resent z).segment z ((stream.drop y).take l')),
      g.Carries base stream u := by
    rintro g ⟨⟩
    exact hcarries
  rw [hcopy]
  generalize (TcpSnd.resent z).advance z = s' at hnext
  cases e.ipOutput with
  | noBufs => exact ⟨_, some _, _, x', m', rfl, hnext.tcpQuench, hseg⟩
  | failed => exact ⟨_, some _, _, x', m', rfl, hnext, hseg⟩
  | sent => exact ⟨_, some _, _, x', m', rfl, { hnext with }, hseg⟩

/-- What `tcp_output` leaves as it is. -/
abbrev TcpSnd.frame (s : TcpSnd) := (s.pending, s.tState, s.soSnd)

lemma TcpSnd.sizing_frame (s : TcpSnd) : s.sizing.tp.frame = s.frame := by
  have hforced : s.forced.1.frame = s.frame := by
    unfold forced
    dsimp only
    split_ifs <;> rfl
  have hpulled : ∀ (s : TcpSnd) (win len : BitVec 32),
      (s.pullBack win len).1.frame = s.frame := by
    intro s win len
    unfold pullBack
    split_ifs <;> rfl
  exact (hpulled _ _ _).trans hforced

lemma TcpSnd.advance_frame (s : TcpSnd) (z : Sizing) : (s.advance z).frame = s.frame := by
  have hdrag : s.dragUp.frame = s.frame := by
    unfold dragUp
    split_ifs <;> rfl
  have hstart : ∀ s : TcpSnd, s.startRexmt.frame = s.frame := by
    intro s
    unfold startRexmt
    split_ifs <;> rfl
  unfold advance
  dsimp only
  split_ifs
  · exact (hstart _).trans hdrag
  · unfold probe
    split_ifs <;> exact hdrag

lemma fitted_tp (z : Sizing) : (fitted z).tp = z.tp := by
  unfold fitted
  dsimp only
  split_ifs <;> rfl

lemma emit_frame {seg : Option SentSeg} (h : emit z e = .ok (s', seg, more)) :
    s'.frame = z.tp.frame := by
  rw [← fitted_tp]
  unfold emit at h
  generalize fitted z = z at h
  have hresent : (resent z).frame = z.tp.frame := by
    unfold resent
    split_ifs <;> rfl
  have hnext := ((resent z).advance_frame z).trans hresent
  dsimp only at h
  split at h
  · cases h
  · rw [← (Prod.mk.inj (Except.ok.inj h)).1]
    rfl
  split at h
  all_goals
    rw [← (Prod.mk.inj (Except.ok.inj h)).1]
    exact hnext

lemma TcpSnd.round_frame {seg : Option SentSeg} {idle : Bool}
    (h : s.round idle e = .ok (s', seg, more)) : s'.frame = s.frame := by
  rw [← s.sizing_frame]
  unfold round at h
  generalize s.sizing = z at h
  dsimp only at h
  split_ifs at h
  · exact emit_frame h
  unfold rest tcpSetpersist at h
  split_ifs at h
  · cases h
  all_goals rw [← (Prod.mk.inj (Except.ok.inj h)).1]

lemma Sending.round (h : Sending base s stream sent u x m) (idle : Bool) (e : OutEnv) :
    ∃ s' seg more x' m', s.round idle e = .ok (s', seg, more) ∧
      Sending base s' stream (sent ++ seg.toList) u x' m' ∧ ∀ g ∈ seg, g.Carries base stream u := by
  obtain ⟨y, l, hz⟩ := h.sizing
  unfold TcpSnd.round
  generalize s.sizing = z at hz
  dsimp only
  split_ifs
  · exact hz.emit e
  unfold rest tcpSetpersist
  split_ifs with hpersist hrexmt
  · exact absurd (hpersist.2.1.symm.trans hrexmt) nofun
  · refine ⟨_, none, false, y, m, rfl, ?_, nofun⟩
    rw [Option.toList_none, append_nil]
    exact { hz.sending with
      timers := fun hrexmt => absurd (hpersist.2.1.symm.trans hrexmt) nofun }
  refine ⟨_, none, false, y, m, rfl, ?_, nofun⟩
  rw [Option.toList_none, append_nil]
  exact hz.sending

end

end Rhapsody.Netinet
