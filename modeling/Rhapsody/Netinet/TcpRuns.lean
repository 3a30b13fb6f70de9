import Rhapsody.Netinet.TcpTrim

/-! Runs of the receiver: segments of one stream arrive in any order, whole or cut, once or
more; segments are sent in between, and the user closes. -/

namespace Rhapsody.Netinet

open SeqNum List

/-- How many numbers after `irs + 1` have been received: the bytes, and the FIN. -/
def Tcpcb.received (tp : Tcpcb) : ℕ :=
  tp.soRcv.length + tp.fins

def takesFin (tp : Tcpcb) (p : TcpPacket) (e : Arrival) : Bool :=
  if tp.tState = .closed then false
  else
    match headerPrediction tp p e with
    | some _ => false
    | none =>
      match sift tp p e with
      | .stop _ => false
      | .text tp w => w.hasText tp && w.fin

inductive TcpOp
  | input (p : TcpPacket) (e : Arrival)
  | output (o : Advert)
  | usrClosed

structure TcpConn where
  tp : Tcpcb
  finTaken : Bool

namespace TcpConn

def init (irs rcvAdv : TcpSeq) (rcvWnd : BitVec 32) (lastAckSent : TcpSeq) : TcpConn where
  tp :=
    { tState      := .established
      rcvNxt      := irs + 1
      rcvAdv      := rcvAdv
      rcvWnd      := rcvWnd
      lastAckSent := lastAckSent
      segs        := []
      soRcv       := []
      cantRcvMore := false
      fins        := 0 }
  finTaken := false

def step (c : TcpConn) : TcpOp → TcpConn
  | .input p e => ⟨tcpInput c.tp p e, c.finTaken || takesFin c.tp p e⟩
  | .output o => ⟨tcpOutput c.tp o, c.finTaken⟩
  | .usrClosed => ⟨tcpUsrClosed c.tp, c.finTaken⟩

def run (c : TcpConn) (ops : List TcpOp) : TcpConn :=
  ops.foldl step c

end TcpConn

def InStream (irs : TcpSeq) (stream : List UInt8) (p : TcpPacket) : Prop :=
  (p.data = [] ∧ p.fin = false) ∨ ∃ pos, Agrees irs stream p pos

def Tcpcb.Kept (tp : Tcpcb) (o : ℕ) : Prop :=
  o < tp.soRcv.length ∨ ∃ q ∈ tp.segs, tp.received + (q.tiSeq - tp.rcvNxt).toNat ≤ o ∧
    o < tp.received + (q.tiSeq - tp.rcvNxt).toNat + q.tiLen

structure Faithful (irs : TcpSeq) (stream : List UInt8) (c : TcpConn) : Prop where
  next : c.tp.rcvNxt = irs + 1 + BitVec.ofNat 32 c.tp.received
  bytes : c.tp.soRcv = stream.take c.tp.received
  sorted : c.tp.segs.Pairwise fun a b => seqLeq a.tiEnd b.tiSeq = true
  once : c.tp.fins ≤ 1
  after : 0 < c.tp.fins → c.tp.soRcv = stream
  reported : c.finTaken = true → c.tp.soRcv = stream → c.tp.fins = 1

/-- `rcv_nxt` does not move back, and nothing after a window of `wnd` is kept. -/
structure Advances (wnd : ℕ) (tp tp' : Tcpcb) : Prop where
  forward : tp.received ≤ tp'.received
  window : ∀ o, tp'.Kept o → tp.Kept o ∨ o < tp.received + wnd

def TcpOp.window (tp : Tcpcb) : TcpOp → ℕ
  | .input _ e => (recvWindow tp e.sbspace).toNat
  | _ => 0

/-- A segment with text or FIN is of the stream and fits, and a user that has closed does not close
again. -/
def TcpOp.Ok (irs : TcpSeq) (stream : List UInt8) (last : Bool) (tp : Tcpcb) : TcpOp → Prop
  | .input p e =>
    (p.data = [] ∧ p.fin = false) ∨ ∃ pos, Agrees irs stream p pos ∧
      Fits stream last tp.received (recvWindow tp e.sbspace).toNat p pos
  | .output _ => True
  | .usrClosed => tp.tState ≠ .finWait2

def RunOk (irs : TcpSeq) (stream : List UInt8) (last : Bool) : TcpConn → List TcpOp → Prop
  | _, [] => True
  | c, op :: ops => op.Ok irs stream last c.tp ∧ RunOk irs stream last (c.step op) ops

/-! ### The invariant -/

def Tcpcb.Listens (tp : Tcpcb) : Prop :=
  tp.cantRcvMore = true → tp.tState.haveRcvdFin = true ∨ tp.tState = .closed

structure Open (irs : TcpSeq) (stream : List UInt8) (last : Bool) (c : TcpConn) : Prop
    extends Receiving irs stream c.tp where
  laid : Layout (Placed irs stream last fun _ => True) TcpSeg.tiLen (c.tp.soRcv.length + 1)
    c.tp.segs (c.tp.soRcv.length + (half - 1))
  listens : c.tp.Listens
  pending : c.finTaken = true → c.tp.tState ≠ .closed → ∃ q ∈ c.tp.segs, q.tiFin = true
  told : c.finTaken = true → c.tp.soRcv ≠ stream

structure Done (irs : TcpSeq) (stream : List UInt8) (tp : Tcpcb) : Prop where
  fins : tp.fins = 1
  next : tp.rcvNxt = place (irs + 1) (stream.length + 1)
  bytes : tp.soRcv = stream
  segs : tp.segs = []

def TcpInv (irs : TcpSeq) (stream : List UInt8) (last : Bool) (c : TcpConn) : Prop :=
  Open irs stream last c ∨ Done irs stream c.tp

variable {irs : TcpSeq} {stream : List UInt8} {last : Bool} {S : ℕ → Prop} {c : TcpConn}
  {tp tp' : Tcpcb} {p : TcpPacket} {e : Arrival} {w : Work} {o : ℕ}

lemma Receiving.received_eq (h : Receiving irs stream tp) : tp.received = tp.soRcv.length := by
  rw [Tcpcb.received, h.fins, add_zero]

lemma TcpInv.next (h : TcpInv irs stream last c) : c.tp.rcvNxt = place (irs + 1) c.tp.received := by
  rcases h with hopen | hdone
  · rw [hopen.received_eq]
    exact hopen.next
  · rw [Tcpcb.received, hdone.fins, hdone.bytes]
    exact hdone.next

lemma received_add_toNat (h : Receiving irs stream tp) {q : TcpSeg} {pos : ℕ}
    (hq : Placed irs stream last S q pos) (hlo : tp.soRcv.length ≤ pos)
    (hhi : pos ≤ tp.soRcv.length + (half - 1)) :
    tp.received + (q.tiSeq - tp.rcvNxt).toNat = pos := by
  have hhalf : half = 2 ^ 31 := rfl
  rw [h.received_eq, hq.seq, h.next, toNat_sub_place _ hlo (by omega)]
  omega

lemma kept_of_laid (h : Receiving irs stream tp)
    (hl : Layout (Placed irs stream last S) TcpSeg.tiLen (tp.soRcv.length + 1) tp.segs
      (tp.soRcv.length + (half - 1))) (ho : tp.Kept o) : o < tp.soRcv.length ∨ S o := by
  rcases ho with hlt | ⟨q, hq, hle, hlt⟩
  · exact .inl hlt
  obtain ⟨pos, hlo, hhi, hplaced⟩ := hl.mem hq
  rw [received_add_toNat h hplaced (by omega) (by omega)] at hle hlt
  exact .inr (hplaced.within o hle hlt)

lemma laid_kept (h : Receiving irs stream tp)
    (hl : Layout (Placed irs stream last fun _ => True) TcpSeg.tiLen (tp.soRcv.length + 1) tp.segs
      (tp.soRcv.length + (half - 1))) :
    Layout (Placed irs stream last tp.Kept) TcpSeg.tiLen (tp.soRcv.length + 1) tp.segs
      (tp.soRcv.length + (half - 1)) := by
  apply hl.imp
  intro q hq pos hlo hhi hplaced
  refine ⟨hplaced.toCarried.imp ?_, hplaced.bare⟩
  intro o hle hlt _
  rw [← received_add_toNat h hplaced (by omega) (by omega)] at hle hlt
  exact .inr ⟨q, hq, hle, hlt⟩

variable {n wnd : ℕ} {tp'' : Tcpcb} {s : TcpState}

lemma lt_length_of_fin {hi : ℕ} {l : List TcpSeg}
    (hl : Layout (Placed irs stream last S) TcpSeg.tiLen (n + 1) l hi)
    (hfin : ∃ q ∈ l, q.tiFin = true) : n < stream.length := by
  obtain ⟨q, hq, hqfin⟩ := hfin
  obtain ⟨pos, hlo, -, hplaced⟩ := hl.mem hq
  have hend := hplaced.fin hqfin
  omega

lemma TcpInv.faithful (h : TcpInv irs stream last c) : Faithful irs stream c := by
  have hnext := h.next
  rcases h with hopen | hdone
  · exact {
      next := hnext
      bytes := by
        rw [hopen.received_eq]
        exact prefix_iff_eq_take.1 hopen.bytes
      sorted := by
        apply hopen.laid.pairwise.imp
        rintro a b ⟨m, n, hm, ha, hmn, hb, hn⟩
        rw [seqLeq, ha.tiEnd, hb.seq, toInt_sub_of_near _ (by omega) (by omega)]
        exact decide_eq_true (by omega)
      once := by
        rw [hopen.fins]
        exact Nat.zero_le 1
      after := by
        intro h0
        rw [hopen.fins] at h0
        cases h0
      reported := fun hf hs => absurd hs (hopen.told hf) }
  exact {
    next := hnext
    bytes := by
      rw [Tcpcb.received, hdone.bytes, take_of_length_le (Nat.le_add_right _ _)]
    sorted := by
      rw [hdone.segs]
      exact List.Pairwise.nil
    once := hdone.fins.le
    after := fun _ => hdone.bytes
    reported := fun _ _ => hdone.fins }

/-! ### Steps that take no text -/

structure Alike (tp tp' : Tcpcb) : Prop where
  rcvNxt : tp'.rcvNxt = tp.rcvNxt
  soRcv : tp'.soRcv = tp.soRcv
  fins : tp'.fins = tp.fins
  segs : tp'.segs = tp.segs
  listens : tp.Listens → tp'.Listens
  closed : tp'.tState = .closed ↔ tp.tState = .closed

structure Shut (tp tp' : Tcpcb) : Prop where
  rcvNxt : tp'.rcvNxt = tp.rcvNxt
  soRcv : tp'.soRcv = tp.soRcv
  fins : tp'.fins = tp.fins
  segs : tp'.segs = []
  shut : tp'.tState = .closed

def Quiet (tp tp' : Tcpcb) : Prop := Alike tp tp' ∨ Shut tp tp'

lemma Alike.of_eq (h1 : tp'.rcvNxt = tp.rcvNxt) (h2 : tp'.soRcv = tp.soRcv)
    (h3 : tp'.fins = tp.fins) (h4 : tp'.segs = tp.segs)
    (h₅ : tp'.cantRcvMore = tp.cantRcvMore) (h₆ : tp'.tState = tp.tState) : Alike tp tp' where
  rcvNxt := h1
  soRcv := h2
  fins := h3
  segs := h4
  listens := by
    unfold Tcpcb.Listens
    rw [h₅, h₆]
    exact id
  closed := by rw [h₆]

lemma Alike.refl (tp : Tcpcb) : Alike tp tp := .of_eq rfl rfl rfl rfl rfl rfl

lemma Alike.trans (h : Alike tp tp') (h' : Alike tp' tp'') : Alike tp tp'' where
  rcvNxt := h'.rcvNxt.trans h.rcvNxt
  soRcv := h'.soRcv.trans h.soRcv
  fins := h'.fins.trans h.fins
  segs := h'.segs.trans h.segs
  listens := fun hl => h'.listens (h.listens hl)
  closed := h'.closed.trans h.closed

lemma Alike.quiet (h : Alike tp tp') (h' : Quiet tp' tp'') : Quiet tp tp'' := by
  rcases h' with h' | h'
  · exact .inl (h.trans h')
  exact .inr {
    rcvNxt := h'.rcvNxt.trans h.rcvNxt
    soRcv := h'.soRcv.trans h.soRcv
    fins := h'.fins.trans h.fins
    segs := h'.segs
    shut := h'.shut }

lemma Quiet.received (h : Quiet tp tp') : tp'.received = tp.received := by
  unfold Tcpcb.received
  rcases h with h | h
  all_goals rw [h.soRcv, h.fins]

lemma Quiet.advances (h : Quiet tp tp') (wnd : ℕ) : Advances wnd tp tp' where
  forward := h.received.ge
  window := by
    intro o ho
    left
    have hrec := h.received
    rcases h with h | h
    · unfold Tcpcb.Kept at ho
      rw [hrec, h.soRcv, h.segs, h.rcvNxt] at ho
      exact ho
    rcases ho with hlt | ⟨q, hq, -⟩
    · rw [h.soRcv] at hlt
      exact .inl hlt
    · simp [h.segs] at hq

lemma Advances.of_quiet (hq : Quiet tp tp') (h : Advances wnd tp' tp'') : Advances wnd tp tp'' where
  forward := hq.received.ge.trans h.forward
  window := by
    intro o ho
    rcases h.window o ho with hkept | hlt
    · exact (hq.advances wnd).window o hkept
    · rw [hq.received] at hlt
      exact .inr hlt

lemma TcpInv.quiet (h : TcpInv irs stream last c) (hq : Quiet c.tp tp') :
    TcpInv irs stream last ⟨tp', c.finTaken⟩ := by
  have hhalf : half = 2 ^ 31 := rfl
  rcases h with hopen | hdone
  · left
    rcases hq with ha | hs
    · exact {
        fins := ha.fins.trans hopen.fins
        next := by rw [ha.rcvNxt, ha.soRcv, hopen.next]
        bytes := by rw [ha.soRcv]; exact hopen.bytes
        laid := by
          rw [ha.soRcv, ha.segs]
          exact hopen.laid
        listens := ha.listens hopen.listens
        pending := by
          intro hf hc
          rw [ha.segs]
          exact hopen.pending hf fun h => hc (ha.closed.2 h)
        told := by
          intro hf
          show tp'.soRcv ≠ stream
          rw [ha.soRcv]
          exact hopen.told hf }
    exact {
      fins := hs.fins.trans hopen.fins
      next := by rw [hs.rcvNxt, hs.soRcv, hopen.next]
      bytes := by rw [hs.soRcv]; exact hopen.bytes
      laid := by
        rw [hs.segs]
        show tp'.soRcv.length + 1 ≤ tp'.soRcv.length + (half - 1)
        omega
      listens := fun _ => .inr hs.shut
      pending := fun _ hc => absurd hs.shut hc
      told := by
        intro hf
        show tp'.soRcv ≠ stream
        rw [hs.soRcv]
        exact hopen.told hf }
  · right
    rcases hq with ha | hs
    · exact ⟨ha.fins.trans hdone.fins, ha.rcvNxt.trans hdone.next, ha.soRcv.trans hdone.bytes,
        ha.segs.trans hdone.segs⟩
    · exact ⟨hs.fins.trans hdone.fins, hs.rcvNxt.trans hdone.next, hs.soRcv.trans hdone.bytes,
        hs.segs⟩

lemma shut_tcpClose (tp : Tcpcb) : Shut tp (tcpClose tp) := ⟨rfl, rfl, rfl, rfl, rfl⟩

lemma quiet_reset (tp : Tcpcb) (seq : TcpSeq) : Quiet tp (reset tp seq) := by
  unfold reset
  split
  · exact .inr (shut_tcpClose tp)
  · exact .inl (Alike.refl tp)

lemma TcpState.haveRcvdFin_iff : s.haveRcvdFin = true ↔ s = .timeWait := by
  cases s <;> decide

lemma alike_setState (h : tp.tState ≠ .timeWait) (h' : tp.tState ≠ .closed) (hs : s ≠ .closed) :
    Alike tp { tp with tState := s } where
  rcvNxt := rfl
  soRcv := rfl
  fins := rfl
  segs := rfl
  listens := by
    intro hl hcant
    rcases hl hcant with hfin | hclosed
    · exact absurd (TcpState.haveRcvdFin_iff.1 hfin) h
    · exact absurd hclosed h'
  closed := ⟨fun hc => absurd hc hs, fun hc => absurd hc h'⟩

lemma alike_timeWait (h : tp.tState ≠ .closed) :
    Alike tp { tp.soIsDisconnected with tState := .timeWait } where
  rcvNxt := rfl
  soRcv := rfl
  fins := rfl
  segs := rfl
  listens := fun _ _ => .inl rfl
  closed := ⟨nofun, fun hc => absurd hc h⟩

lemma alike_tcpUsrClosed (h : tp.tState ≠ .finWait2) : Alike tp (tcpUsrClosed tp) := by
  unfold tcpUsrClosed
  cases hs : tp.tState with
  | established | closeWait => exact alike_setState (by rw [hs]; nofun) (by rw [hs]; nofun) nofun
  | finWait2 => exact absurd hs h
  | timeWait =>
    have ht : Alike tp { tp.soIsDisconnected with tState := .timeWait } :=
      alike_timeWait (by rw [hs]; nofun)
    rw [← hs] at ht
    simpa [hs, TcpState.num, Tcpcb.soIsDisconnected] using ht
  | closed | finWait1 | closing | lastAck =>
    simp only [hs]
    exact Alike.refl tp

lemma ackProcessing_spec (tp : Tcpcb) (v : AckVerdict) : Quiet tp (ackProcessing tp v).1 ∧
      ((ackProcessing tp v).2 = true → Alike tp (ackProcessing tp v).1) := by
  have hsame : Quiet tp tp ∧ (true = true → Alike tp tp) :=
    ⟨.inl (Alike.refl tp), fun _ => Alike.refl tp⟩
  cases v with
  | old => exact hsame
  | drop => exact ⟨hsame.1, nofun⟩
  | new ours =>
    unfold ackProcessing
    dsimp only
    split
    next hs =>
      have ha : Alike tp { tp with tState := .finWait2 } :=
        alike_setState (by rw [hs]; nofun) (by rw [hs]; nofun) nofun
      cases ours with
      | true => exact ⟨.inl ha, fun _ => ha⟩
      | false => exact hsame
    next hs =>
      have ha : Alike tp { tp.soIsDisconnected with tState := .timeWait } :=
        alike_timeWait (by rw [hs]; nofun)
      cases ours with
      | true => exact ⟨.inl ha, fun _ => ha⟩
      | false => exact hsame
    · cases ours with
      | true => exact ⟨.inr (shut_tcpClose tp), nofun⟩
      | false => exact hsame
    · exact ⟨hsame.1, nofun⟩
    · exact hsame

/-! ### Text -/

lemma checkFlags_stop (h : checkFlags tp e w = .stop tp') : Quiet tp tp' := by
  have hack := ackProcessing_spec tp e.ack
  unfold checkFlags at h
  split at h
  · cases h
    exact .inr (shut_tcpClose tp)
  split at h
  · cases h
    exact .inl (Alike.refl tp)
  split at h
  · cases h
  next heq =>
    cases h
    rw [heq] at hack
    exact hack.1

lemma checkFlags_text {w' : Work} (h : checkFlags tp e w = .text tp' w') :
    Alike tp tp' ∧ w' = w := by
  have hack := ackProcessing_spec tp e.ack
  unfold checkFlags at h
  split at h
  · cases h
  split at h
  · cases h
  split at h
  next heq =>
    cases h
    rw [heq] at hack
    exact ⟨hack.2 rfl, rfl⟩
  · cases h

lemma alike_window (tp : Tcpcb) (wnd : BitVec 32) : Alike tp { tp with rcvWnd := wnd } :=
  .of_eq rfl rfl rfl rfl rfl rfl

lemma sift_stop (h : sift tp p e = .stop tp') : Quiet tp tp' := by
  have hwnd := alike_window tp (recvWindow tp e.sbspace)
  apply hwnd.quiet
  unfold sift at h
  dsimp only at h
  split at h
  · cases h
    exact quiet_reset _ _
  split at h
  · cases h
    exact .inl (Alike.refl _)
  split at h
  · cases h
    exact .inl (Alike.refl _)
  split at h
  · cases h
    exact .inr (shut_tcpClose _)
  split at h
  · cases h
    exact .inl (Alike.refl _)
  · cases h
    exact .inr (shut_tcpClose _)
  · exact checkFlags_stop h

lemma sift_text (h : sift tp p e = .text tp' w) :
    Alike tp tp' ∧ ∃ w₀, (Work.ofPacket p).trimFront tp.rcvNxt = some w₀ ∧
      trimWindow { tp with rcvWnd := recvWindow tp e.sbspace } w₀ = .keep w := by
  have hwnd := alike_window tp (recvWindow tp e.sbspace)
  unfold sift at h
  dsimp only at h
  split at h
  · cases h
  split at h
  · cases h
  split at h
  · cases h
  next w₀ hfront =>
    split at h
    · cases h
    split at h
    · cases h
    · cases h
    next w1 hkeep =>
      obtain ⟨ha, rfl⟩ := checkFlags_text h
      exact ⟨hwnd.trans ha, w₀, hfront, hkeep⟩

lemma sift_offered (hnxt : tp.rcvNxt = place (irs + 1) tp.received)
    (hok : (TcpOp.input p e).Ok irs stream last tp) (h : sift tp p e = .text tp' w) :
    Offered irs stream last tp.received (recvWindow tp e.sbspace).toNat w := by
  obtain ⟨-, w0, hfront, hkeep⟩ := sift_text h
  rcases hok with ⟨hdata, hfin⟩ | ⟨pos, hagrees, hfits⟩
  · have hbare : (Work.ofPacket p).Bare := ⟨congrArg length hdata, hfin⟩
    exact .inl (bare_trimWindow (bare_trimFront hbare hfront) hkeep)
  rw [hnxt] at hfront
  have htrim := trimFront_spec hagrees hfits hfront
  have hnxt' : { tp with rcvWnd := recvWindow tp e.sbspace }.rcvNxt =
      place (irs + 1) tp.received := hnxt
  exact trimWindow_spec hnxt' htrim hfits hkeep

lemma Offered.opened (hw : Offered irs stream last c.tp.received wnd w)
    (h : TcpInv irs stream last c) (htext : w.hasText c.tp = true) : Open irs stream last c := by
  obtain ⟨hsome, -⟩ := Bool.and_eq_true_iff.1 htext
  rcases hw with ⟨hlen, hnofin⟩ | ⟨pos, hlo, -, hc, -⟩
  · simp [hlen, hnofin] at hsome
  rcases h with hopen | hdone
  · exact hopen
  have hle := hc.le
  rw [Tcpcb.received, hdone.fins, hdone.bytes] at hlo
  omega

lemma done_finReceived {r : Tcpcb} (hr : Receiving irs stream r)
    (hl : Layout (Placed irs stream last S) TcpSeg.tiLen (r.soRcv.length + 1) r.segs
      (r.soRcv.length + (half - 1)))
    (hall : r.soRcv.length = stream.length) (hfin : r.tState.haveRcvdFin = false) :
    Done irs stream (finReceived r) := by
  have hsegs : r.segs = [] := by
    apply eq_nil_iff_forall_not_mem.2
    intro q hq
    obtain ⟨pos, hlo, -, hplaced⟩ := hl.mem hq
    have hle := hplaced.le
    omega
  have hdone : Done irs stream
      { r with cantRcvMore := true, fins := r.fins + 1, rcvNxt := r.rcvNxt + 1 } := {
    fins := by
      rw [hr.fins]
    next := by
      rw [hr.next, hall, ← place_add]
      rfl
    bytes := hr.bytes.eq_of_length hall
    segs := hsegs }
  unfold finReceived
  simp only [hfin, Bool.false_eq_true, if_false]
  split
  · exact ⟨hdone.fins, hdone.next, hdone.bytes, hdone.segs⟩
  · exact ⟨hdone.fins, hdone.next, hdone.bytes, hdone.segs⟩
  · exact ⟨hdone.fins, hdone.next, hdone.bytes, hdone.segs⟩
  · exact hdone

lemma reass_spec (hopen : Open irs stream last c) (hclosed : c.tp.tState ≠ .closed)
    (hw : Offered irs stream last c.tp.received wnd w) (htext : w.hasText c.tp = true) :
    Presented irs stream last (fun o => c.tp.Kept o ∨ o < c.tp.received + wnd)
      (c.finTaken = true ∨ w.fin = true) c.tp (tcpReassMacro c.tp w.ti) := by
  obtain ⟨hsome, hfin⟩ := Bool.and_eq_true_iff.1 htext
  rw [Bool.not_eq_true'] at hfin
  rcases hw with ⟨hlen, hnofin⟩ | ⟨pos, hlo, hhi, hc, hkeep⟩
  · simp [hlen, hnofin] at hsome
  have hrec := hopen.received_eq
  have hcant : c.tp.cantRcvMore = false := by
    apply eq_false_of_ne_true
    intro hcant
    rcases hopen.listens hcant with hr | hr
    · rw [hfin] at hr
      cases hr
    · exact hclosed hr
  have hplaced : Placed irs stream last (fun o => c.tp.Kept o ∨ o < c.tp.received + wnd)
      w.ti pos := by
    refine ⟨hc.imp fun o _ _ ho => .inr ho, ?_⟩
    intro hlen
    apply hkeep
    simpa [hlen] using hsome
  have hlaid : Layout (Placed irs stream last fun o => c.tp.Kept o ∨ o < c.tp.received + wnd)
      TcpSeg.tiLen (c.tp.soRcv.length + 1) c.tp.segs (c.tp.soRcv.length + (half - 1)) := by
    apply (laid_kept hopen.toReceiving hopen.laid).imp
    intro q _ n _ _ hq
    exact ⟨hq.toCarried.imp fun o _ _ ho => .inl ho, hq.bare⟩
  have hp := tcpReassMacro_spec hopen.toReceiving hcant hlaid hplaced (by omega) (by omega)
  refine { hp with pending := ?_ }
  rintro (htaken | hwfin)
  · exact hp.pending (.inl (hopen.pending htaken hclosed))
  · exact hp.pending (.inr (hkeep hwfin))

lemma Presented.opened {known : Prop} {r : Tcpcb × Bool} {taken : Bool}
    (hp : Presented irs stream last S known tp r) (hr : r.2 = false) (hl : tp.Listens)
    (hknown : taken = true → known) : Open irs stream last ⟨r.1, taken⟩ :=
  have hpending : taken = true → ∃ q ∈ r.1.segs, q.tiFin = true := by
    intro ht
    rcases hp.pending (hknown ht) with hf | hq
    · rw [hr] at hf
      cases hf
    · exact hq
  { hp.receiving with
    laid := by
      apply hp.laid.imp
      intro q _ n _ _ hq
      exact ⟨hq.toCarried.imp fun _ _ _ _ => trivial, hq.bare⟩
    listens := by
      unfold Tcpcb.Listens
      rw [hp.tState, hp.cantRcvMore]
      exact hl
    pending := fun ht _ => hpending ht
    told := by
      intro ht hs
      have hlt := lt_length_of_fin hp.laid (hpending ht)
      have hs' : r.1.soRcv = stream := hs
      rw [hs'] at hlt
      exact lt_irrefl _ hlt }

lemma doData_spec (h : TcpInv irs stream last c) (hclosed : c.tp.tState ≠ .closed)
    (hw : Offered irs stream last c.tp.received wnd w) :
    TcpInv irs stream last ⟨doData c.tp w, c.finTaken || (w.hasText c.tp && w.fin)⟩ ∧
      Advances wnd c.tp (doData c.tp w) := by
  unfold doData
  cases htext : w.hasText c.tp with
  | false =>
    rw [Bool.false_and, Bool.or_false]
    exact ⟨h, Quiet.advances (.inl (Alike.refl _)) wnd⟩
  | true =>
    have hopen := hw.opened h htext
    have hp := reass_spec hopen hclosed hw htext
    have hrec := hopen.received_eq
    have hgrows := hp.grows
    obtain ⟨-, hfin⟩ := Bool.and_eq_true_iff.1 htext
    rw [Bool.not_eq_true', ← hp.tState] at hfin
    rw [if_pos rfl, Bool.true_and]
    generalize tcpReassMacro c.tp w.ti = r at hp hgrows hfin ⊢
    obtain ⟨r, f⟩ := r
    have hfresh : ∀ o < r.soRcv.length, c.tp.Kept o ∨ o < c.tp.received + wnd := by
      intro o ho
      rcases hp.fresh o ho with hold | hnew
      · exact .inl (.inl hold)
      · exact hnew
    cases f with
    | true =>
      have hdone : Done irs stream (finReceived r) :=
        done_finReceived hp.receiving hp.laid (hp.all rfl) hfin
      refine ⟨.inr hdone, ?_, ?_⟩
      · show c.tp.received ≤ (finReceived r).received
        rw [hrec, Tcpcb.received, hdone.bytes]
        have hle := hopen.bytes.length_le
        omega
      rintro o (ho | ⟨q, hq, -⟩)
      · have ho' : o < (finReceived r).soRcv.length := ho
        rw [hdone.bytes, ← hp.all rfl] at ho'
        exact hfresh o ho'
      · have hq' : q ∈ (finReceived r).segs := hq
        simp [hdone.segs] at hq'
    | false =>
      have hopen' : Open irs stream last ⟨r, c.finTaken || w.fin⟩ :=
        hp.opened rfl hopen.listens (Bool.or_eq_true_iff.1)
      refine ⟨.inl hopen', ?_, ?_⟩
      · show c.tp.received ≤ r.received
        rw [hrec, hopen'.received_eq]
        exact hgrows
      intro o ho
      rcases kept_of_laid hp.receiving hp.laid ho with hlt | hS
      · exact hfresh o hlt
      · exact hS

lemma le_recvWindow {space : BitVec 32} (h : (n : ℤ) ≤ space.toInt) :
    n ≤ (recvWindow tp space).toNat := by
  have hspace : n ≤ space.toNat := by
    rw [BitVec.toInt_eq_toNat_cond] at h
    split at h <;> omega
  unfold recvWindow
  dsimp only
  rw [if_neg (show ¬ space.toInt < 0 by omega)]
  split
  · exact hspace
  next hlt => exact hspace.trans (BitVec.not_lt.1 hlt)

section
variable (h : TcpInv irs stream last c)
include h

lemma TcpInv.append (hopened : c.tp.tState ≠ .closed) (hnil : c.tp.segs = []) {ti : TcpSeg}
    (hc : Carried irs stream last S ti c.tp.received) :
    TcpInv irs stream last ⟨{ c.tp with
      rcvNxt := c.tp.rcvNxt + BitVec.ofNat 32 ti.tiLen
      soRcv  := c.tp.soRcv ++ ti.data }, c.finTaken⟩ := by
  have hhalf : half = 2 ^ 31 := rfl
  rcases h with hopen | hdone
  · rw [hopen.received_eq] at hc
    have hnot : c.finTaken ≠ true := by
      intro ht
      obtain ⟨q, hq, -⟩ := hopen.pending ht hopened
      simp [hnil] at hq
    exact .inl {
      hopen.toReceiving.append hc with
      laid := by
        rw [hnil]
        show (c.tp.soRcv ++ ti.data).length + 1 ≤ (c.tp.soRcv ++ ti.data).length + (half - 1)
        omega
      listens := hopen.listens
      pending := fun ht => absurd ht hnot
      told := fun ht => absurd ht hnot }
  · have hle := hc.le
    rw [Tcpcb.received, hdone.fins, hdone.bytes] at hle
    omega

lemma headerPrediction_spec (hok : (TcpOp.input p e).Ok irs stream last c.tp)
    (hpred : headerPrediction c.tp p e = some tp') :
    TcpInv irs stream last ⟨tp', c.finTaken⟩ ∧
      Advances (recvWindow c.tp e.sbspace).toNat c.tp tp' := by
  have hnext := h.next
  unfold headerPrediction at hpred
  split at hpred
  next hcond =>
    obtain ⟨hest, hsyn, -, -, -, -, hseq⟩ := hcond
    split at hpred
    · split at hpred
      · cases hpred
        exact ⟨h, Quiet.advances (.inl (Alike.refl _)) _⟩
      · cases hpred
    next hlen =>
      split at hpred
      next hspace =>
        obtain ⟨-, hnil, hspace⟩ := hspace
        cases hpred
        rcases hok with ⟨hdata, -⟩ | ⟨pos, hagrees, hfits⟩
        · exact absurd (congrArg length hdata) hlen
        have hhalf : half = 2 ^ 31 := rfl
        have hbehind := hfits.behind
        have hahead := hfits.ahead
        have hc := carried_stripSyn hagrees hfits
        rw [stripSyn_ofPacket_ti] at hc
        have hpos : pos = c.tp.received := by
          have hplace := hagrees.seq
          rw [hsyn, hseq, hnext] at hplace
          simp only [Bool.false_eq_true, if_false, add_zero] at hplace
          exact (place_inj _ (by omega) (by omega) hplace).symm
        rw [hpos] at hc
        refine ⟨h.append (by rw [hest]; nofun) hnil hc, ?_, ?_⟩
        · show c.tp.soRcv.length + c.tp.fins ≤ (c.tp.soRcv ++ p.data).length + c.tp.fins
          rw [length_append]
          omega
        rintro o (ho | ⟨q, hq, -⟩)
        · have ho' : o < (c.tp.soRcv ++ p.data).length := ho
          rw [length_append] at ho'
          have hwnd : p.data.length ≤ (recvWindow c.tp e.sbspace).toNat := le_recvWindow hspace
          right
          show o < c.tp.soRcv.length + c.tp.fins + _
          omega
        · have hq' : q ∈ c.tp.segs := hq
          simp [hnil] at hq'
      · cases hpred
  · cases hpred

/-! ### Runs -/

lemma TcpInv.input (hok : (TcpOp.input p e).Ok irs stream last c.tp) :
    TcpInv irs stream last (c.step (.input p e)) ∧
      Advances (recvWindow c.tp e.sbspace).toNat c.tp (c.step (.input p e)).tp := by
  unfold TcpConn.step tcpInput takesFin
  dsimp only
  split
  · rw [Bool.or_false]
    exact ⟨h, Quiet.advances (.inl (Alike.refl _)) _⟩
  next hopened =>
    cases hpred : headerPrediction c.tp p e with
    | some tp' =>
      rw [Bool.or_false]
      exact headerPrediction_spec h hok hpred
    | none =>
      cases hsift : sift c.tp p e with
      | stop tp' =>
        have hq := sift_stop hsift
        rw [Bool.or_false]
        exact ⟨h.quiet hq, hq.advances _⟩
      | text tp' w =>
        obtain ⟨ha, -⟩ := sift_text hsift
        have hq : Quiet c.tp tp' := .inl ha
        have hw := sift_offered h.next hok hsift
        rw [← hq.received] at hw
        have hopened' : tp'.tState ≠ .closed := fun hc => hopened (ha.closed.1 hc)
        have hspec := doData_spec (h.quiet hq) hopened' hw
        exact ⟨hspec.1, .of_quiet hq hspec.2⟩

lemma TcpInv.step {op : TcpOp} (hok : op.Ok irs stream last c.tp) :
    TcpInv irs stream last (c.step op) ∧ Advances (op.window c.tp) c.tp (c.step op).tp := by
  cases op with
  | input p e => exact h.input hok
  | output o =>
    have hq : Quiet c.tp (tcpOutput c.tp o) := .inl (.of_eq rfl rfl rfl rfl rfl rfl)
    exact ⟨h.quiet hq, hq.advances _⟩
  | usrClosed =>
    have hq : Quiet c.tp (tcpUsrClosed c.tp) := .inl (alike_tcpUsrClosed hok)
    exact ⟨h.quiet hq, hq.advances _⟩

lemma TcpInv.run {ops : List TcpOp} (hok : RunOk irs stream last c ops) :
    TcpInv irs stream last (c.run ops) := by
  induction ops generalizing c with
  | nil => exact h
  | cons op ops ih => exact ih (h.step hok.1).1 hok.2

end

lemma tcpInv_init (irs rcvAdv : TcpSeq) (rcvWnd : BitVec 32) (lastAckSent : TcpSeq)
    (stream : List UInt8) (last : Bool) :
    TcpInv irs stream last (.init irs rcvAdv rcvWnd lastAckSent) := by
  left
  exact {
    fins := rfl
    next := (place_zero _).symm
    bytes := nil_prefix
    laid := by
      show 0 + 1 ≤ 0 + (half - 1)
      decide
    listens := nofun
    pending := nofun
    told := nofun }

/-- In a run whose segments all fit, the stream is received faithfully, and no step takes `rcv_nxt`
back or keeps what lies after its window. -/
theorem tcpRun_faithful (irs rcvAdv : TcpSeq) (rcvWnd : BitVec 32) (lastAckSent : TcpSeq)
    (stream : List UInt8) (last : Bool) (ops : List TcpOp)
    (hops : RunOk irs stream last (.init irs rcvAdv rcvWnd lastAckSent) ops) :
    Faithful irs stream ((TcpConn.init irs rcvAdv rcvWnd lastAckSent).run ops) ∧ ∀ op : TcpOp,
        op.Ok irs stream last ((TcpConn.init irs rcvAdv rcvWnd lastAckSent).run ops).tp →
        Advances (op.window ((TcpConn.init irs rcvAdv rcvWnd lastAckSent).run ops).tp)
          ((TcpConn.init irs rcvAdv rcvWnd lastAckSent).run ops).tp
          (((TcpConn.init irs rcvAdv rcvWnd lastAckSent).run ops).step op).tp := by
  have hinv := (tcpInv_init irs rcvAdv rcvWnd lastAckSent stream last).run hops
  exact ⟨hinv.faithful, fun op hop => (hinv.step hop).2⟩

/-- A stream whose numbers wrap round comes in three overlapping segments, the last first. -/
theorem tcpRun_faithful_wrapped : ∃ ops : List TcpOp,
      RunOk 0xFFFFFFFE [1, 2, 3, 4] true (.init 0xFFFFFFFE 50 50 0) ops ∧
      ((TcpConn.init 0xFFFFFFFE 50 50 0).run ops).tp.fins = 1 ∧
      Faithful 0xFFFFFFFE [1, 2, 3, 4] ((TcpConn.init 0xFFFFFFFE 50 50 0).run ops) := by
  let e : Arrival := ⟨50, false, false, false, false, false, .old⟩
  let ops : List TcpOp := [.input ⟨1, false, true, false, true, [3, 4], by decide⟩ e,
      .input ⟨0, false, false, false, true, [2, 3], by decide⟩ e,
      .input ⟨0xFFFFFFFF, false, false, false, true, [1, 2], by decide⟩ e]
  have hops : RunOk 0xFFFFFFFE [1, 2, 3, 4] true (.init 0xFFFFFFFE 50 50 0) ops := by
    refine ⟨.inr ⟨2, ?_, ?_⟩, .inr ⟨1, ?_, ?_⟩, .inr ⟨0, ?_, ?_⟩, trivial⟩
    · exact ⟨by decide, by decide, by decide, by decide, by decide⟩
    · exact ⟨by decide, by decide, by decide, by decide⟩
    · exact ⟨by decide, by decide, by decide, by decide, by decide⟩
    · exact ⟨by decide, by decide, by decide, by decide⟩
    · exact ⟨by decide, by decide, by decide, by decide, by decide⟩
    · exact ⟨by decide, by decide, by decide, by decide⟩
  exact ⟨ops, hops, by decide, (tcpRun_faithful _ _ _ _ _ _ ops hops).1⟩

/-- Two bytes and the FIN come in one segment, and the window has room for one byte. The FIN is
taken from the untrimmed header, and the second byte never comes. -/
theorem fin_at_window_edge : ∃ (p : TcpPacket) (e : Arrival), InStream 0 [7, 8] p ∧
      ((TcpConn.init 0 2 1 0).run [.input p e]).tp.soRcv = [7] ∧
      ((TcpConn.init 0 2 1 0).run [.input p e]).tp.fins = 1 ∧
      ¬ Faithful 0 [7, 8] ((TcpConn.init 0 2 1 0).run [.input p e]) := by
  let p : TcpPacket := ⟨1, false, true, false, true, [7, 8], by decide⟩
  let e : Arrival := ⟨1, false, false, false, false, false, .old⟩
  have hin : InStream 0 [7, 8] p := .inr ⟨0, by decide, by decide, by decide, by decide, by decide⟩
  refine ⟨p, e, hin, by decide, by decide, ?_⟩
  intro h
  have hall := h.after (by decide)
  revert hall
  decide

end Rhapsody.Netinet
