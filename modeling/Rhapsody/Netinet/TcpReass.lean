import Rhapsody.Lib.Layout
import Rhapsody.Lib.SeqNum
import Rhapsody.Netinet.TcpInput

/-! The reassembly queue against the stream it is cut from. Positions are natural numbers; the
sequence number of position `n` is `place (irs + 1) n`. Every difference the code takes is between
positions less than half the space apart, so its sign is the true one. -/

namespace Rhapsody.Netinet

open SeqNum List

def half : ℕ := 2 ^ 31

variable {n e hi lo : ℕ} {l : List TcpSeg}

lemma toInt_sub_of_near (b : TcpSeq) {m : ℕ} (hnm : n < m + half) (hmn : m < n + half) :
    (place b m - place b n).toInt = (m : ℤ) - n := by
  unfold half at hnm hmn
  apply toInt_sub_place
  all_goals omega

section

variable (irs : TcpSeq) (stream : List UInt8) (last : Bool) (S : ℕ → Prop)

/-- `ti` holds the bytes of the stream from `pos`, all in `S`, and its FIN. If it has text and ends
with the stream it has the FIN just when `last` says so. -/
structure Carried (ti : TcpSeg) (pos : ℕ) : Prop where
  seq : ti.tiSeq = place (irs + 1) pos
  data : ti.data = (stream.drop pos).take ti.tiLen
  le : pos + ti.tiLen ≤ stream.length
  fin : ti.tiFin = true → pos + ti.tiLen = stream.length
  ends : 0 < ti.tiLen → pos + ti.tiLen = stream.length → ti.tiFin = last
  within : ∀ o, pos ≤ o → o < pos + ti.tiLen → S o

structure Placed (ti : TcpSeg) (pos : ℕ) : Prop extends Carried irs stream last S ti pos where
  bare : ti.tiLen = 0 → ti.tiFin = true

end

variable {irs : TcpSeq} {stream : List UInt8} {last : Bool} {S T : ℕ → Prop}
  {ti q : TcpSeg} {pos i : ℕ}

namespace TcpSeg

@[simp] lemma tiLen_adj (ti : TcpSeg) (i : ℕ) : (ti.adj i).tiLen = ti.tiLen - i := by
  simp [tiLen, adj]

end TcpSeg

namespace Carried

section
variable (h : Carried irs stream last S ti pos)
include h

lemma tiEnd : ti.tiEnd = place (irs + 1) (pos + ti.tiLen) := by
  rw [TcpSeg.tiEnd, h.seq, place_add]

lemma adj (hi : i ≤ ti.tiLen) : Carried irs stream last S (ti.adj i) (pos + i) where
  seq := by
    show ti.tiSeq + BitVec.ofNat 32 i = _
    rw [h.seq, place_add]
  data := by
    show ti.data.drop i = _
    rw [TcpSeg.tiLen_adj, h.data, drop_take, drop_drop]
  le := by
    have hle := h.le
    rw [TcpSeg.tiLen_adj]
    omega
  fin := by
    intro hfin
    have hend := h.fin hfin
    rw [TcpSeg.tiLen_adj]
    omega
  ends := by
    intro hlen hend
    rw [TcpSeg.tiLen_adj] at hlen hend
    exact h.ends (by omega) (by omega)
  within := by
    intro o ho hlt
    rw [TcpSeg.tiLen_adj] at hlt
    exact h.within o (by omega) (by omega)

lemma imp (hST : ∀ o, pos ≤ o → o < pos + ti.tiLen → S o → T o) :
    Carried irs stream last T ti pos :=
  { h with within := fun o ho hlt => hST o ho hlt (h.within o ho hlt) }

end

end Carried

lemma Placed.adj (h : Placed irs stream last S ti pos) (hi : i < ti.tiLen) :
    Placed irs stream last S (ti.adj i) (pos + i) where
  toCarried := h.toCarried.adj hi.le
  bare := by
    intro hlen
    rw [TcpSeg.tiLen_adj] at hlen
    omega

/-! ### The queue -/

lemma cutByPreceding_spec (hq : Placed irs stream last S q n)
    (hti : Placed irs stream last S ti pos) (hn : n + q.tiLen < pos + half)
    (hpos : pos < n + q.tiLen + half) :
    (cutByPreceding (some q) ti = none ∧ (ti.tiFin = true → q.tiFin = true)) ∨
      ∃ ti' pos', cutByPreceding (some q) ti = some ti' ∧ Placed irs stream last S ti' pos' ∧
        n + q.tiLen ≤ pos' ∧ pos' + ti'.tiLen = pos + ti.tiLen ∧ ti'.tiFin = ti.tiFin := by
  have hi : (q.tiEnd - ti.tiSeq).toInt = ((n + q.tiLen : ℕ) : ℤ) - pos := by
    rw [hq.tiEnd, hti.seq]
    exact toInt_sub_of_near _ hpos hn
  unfold cutByPreceding
  dsimp only
  rw [hi]
  split
  next hover =>
    split
    next hall =>
      refine .inl ⟨rfl, ?_⟩
      intro hfin
      -- The end of `ti` is that of the stream, so `q` ends there too and has text.
      have hend := hti.fin hfin
      have hqle := hq.le
      have hti0 : 0 < ti.tiLen := by omega
      have hlast := hti.ends hti0 hend
      rcases Nat.eq_zero_or_pos q.tiLen with h0 | h0
      · exact hq.bare h0
      · rw [hq.ends h0 (by omega), ← hlast, hfin]
    next hpart =>
      obtain ⟨k, hk⟩ := Nat.exists_eq_add_of_le (show pos ≤ n + q.tiLen by omega)
      have hnat : (((n + q.tiLen : ℕ) : ℤ) - pos).toNat = k := by omega
      refine .inr ⟨_, pos + k, rfl, ?_, by omega, ?_, rfl⟩
      · rw [hnat]
        exact hti.adj (by omega)
      · rw [hnat, TcpSeg.tiLen_adj]
        omega
  · exact .inr ⟨ti, pos, rfl, hti, by omega, rfl, rfl⟩

section
variable (h : Layout (Placed irs stream last S) TcpSeg.tiLen lo l hi) (hlo : e < lo + half)
  (hhi : hi < e + half)
include h hlo hhi

lemma trimSucceeding_layout (he : e ≤ hi) : Layout (Placed irs stream last S) TcpSeg.tiLen e
      (trimSucceeding (place (irs + 1) e) l) hi := by
  induction l generalizing lo with
  | nil => exact he
  | cons q rest ih =>
    obtain ⟨n, hn, hq, hrest⟩ := h
    have hle := hrest.le
    have hi' : (place (irs + 1) e - q.tiSeq).toInt = (e : ℤ) - n := by
      rw [hq.seq]
      exact toInt_sub_of_near _ (by omega) (by omega)
    unfold trimSucceeding
    dsimp only
    rw [hi']
    split
    · exact ⟨n, by omega, hq, hrest⟩
    split
    · obtain ⟨k, rfl⟩ := Nat.exists_eq_add_of_le (show n ≤ e by omega)
      have hnat : (((n + k : ℕ) : ℤ) - n).toNat = k := by omega
      rw [hnat]
      refine ⟨n + k, le_rfl, hq.adj (by omega), ?_⟩
      rw [TcpSeg.tiLen_adj]
      exact hrest.mono (by omega) le_rfl
    · exact ih hrest (by omega)

lemma trimSucceeding_fin (hle : e ≤ stream.length) (hfin : ∃ q ∈ l, q.tiFin = true) :
    (∃ q ∈ trimSucceeding (place (irs + 1) e) l, q.tiFin = true) ∨
      e = stream.length ∧ last = true := by
  induction l generalizing lo with
  | nil => simp at hfin
  | cons q rest ih =>
    obtain ⟨n, hn, hq, hrest⟩ := h
    have hrle := hrest.le
    have hi' : (place (irs + 1) e - q.tiSeq).toInt = (e : ℤ) - n := by
      rw [hq.seq]
      exact toInt_sub_of_near _ (by omega) (by omega)
    unfold trimSucceeding
    dsimp only
    rw [hi']
    split
    · exact .inl hfin
    split
    · left
      obtain ⟨r, hr, hrfin⟩ := hfin
      rcases mem_cons.1 hr with rfl | hr
      · exact ⟨_, mem_cons_self, hrfin⟩
      · exact ⟨r, mem_cons_of_mem _ hr, hrfin⟩
    obtain ⟨r, hr, hrfin⟩ := hfin
    rcases mem_cons.1 hr with rfl | hr
    · right
      have hend := hq.fin hrfin
      have hlast := hq.ends (by omega) hend
      exact ⟨by omega, by rw [← hlast, hrfin]⟩
    · exact ih hrest (by omega) ⟨r, hr, hrfin⟩

end

lemma splice_spec {before after : List TcpSeg} {mid : ℕ}
    (hbefore : Layout (Placed irs stream last S) TcpSeg.tiLen lo before pos)
    (hti : Placed irs stream last S ti pos)
    (hafter : Layout (Placed irs stream last S) TcpSeg.tiLen mid after hi) (hmid : lo ≤ mid)
    (hhi : pos + ti.tiLen ≤ hi) (hnear : hi < lo + half) :
    Layout (Placed irs stream last S) TcpSeg.tiLen lo
        (before ++ ti :: trimSucceeding ti.tiEnd after) hi ∧
      ((∃ q ∈ before ++ after, q.tiFin = true) ∨ ti.tiFin = true →
        ∃ q ∈ before ++ ti :: trimSucceeding ti.tiEnd after, q.tiFin = true) := by
  have hlo := hbefore.le
  rw [hti.tiEnd]
  constructor
  · refine Layout.append.2 ⟨pos, hbefore, pos, le_rfl, hti, ?_⟩
    exact trimSucceeding_layout hafter (by omega) (by omega) hhi
  rintro (⟨r, hr, hrfin⟩ | hfin)
  · rcases mem_append.1 hr with hr | hr
    · exact ⟨r, mem_append_left _ hr, hrfin⟩
    rcases trimSucceeding_fin hafter (by omega) (by omega) hti.le ⟨r, hr, hrfin⟩ with
      ⟨x, hx, hxfin⟩ | ⟨hend, hlast⟩
    · exact ⟨x, mem_append_right _ (mem_cons_of_mem _ hx), hxfin⟩
    refine ⟨ti, mem_append_right _ mem_cons_self, ?_⟩
    rcases Nat.eq_zero_or_pos ti.tiLen with h0 | h0
    · exact hti.bare h0
    · rw [hti.ends h0 hend, hlast]
  · exact ⟨ti, mem_append_right _ mem_cons_self, hfin⟩

lemma enqueue_spec {segs : List TcpSeg}
    (h : Layout (Placed irs stream last S) TcpSeg.tiLen lo segs hi)
    (hti : Placed irs stream last S ti pos) (hlo : lo ≤ pos) (hhi : pos + ti.tiLen ≤ hi)
    (hnear : hi < lo + half) :
    (enqueue segs ti = none ∧ (ti.tiFin = true → ∃ q ∈ segs, q.tiFin = true)) ∨
      ∃ l, enqueue segs ti = some l ∧ Layout (Placed irs stream last S) TcpSeg.tiLen lo l hi ∧
        ((∃ q ∈ segs, q.tiFin = true) ∨ ti.tiFin = true → ∃ q ∈ l, q.tiFin = true) := by
  have hsplit := takeWhile_append_dropWhile (p := fun q => !seqGt q.tiSeq ti.tiSeq) (l := segs)
  unfold enqueue
  dsimp only
  generalize segs.takeWhile (fun q => !seqGt q.tiSeq ti.tiSeq) = before at hsplit ⊢
  generalize segs.dropWhile (fun q => !seqGt q.tiSeq ti.tiSeq) = after at hsplit ⊢
  subst hsplit
  obtain ⟨mid, hbefore, hafter⟩ := Layout.append.1 h
  rcases eq_nil_or_concat before with rfl | ⟨init, q, rfl⟩
  · have hnil : Layout (Placed irs stream last S) TcpSeg.tiLen lo [] pos := hlo
    exact .inr ⟨_, rfl, splice_spec hnil hti hafter (show lo ≤ mid from hbefore) hhi hnear⟩
  rw [concat_eq_append] at hbefore ⊢
  obtain ⟨start, hinit, n, hn, hq, hqmid⟩ := Layout.append.1 hbefore
  have hqend : n + q.tiLen ≤ mid := hqmid
  have hstart := hinit.le
  have hmid := hafter.le
  rw [getLast?_append_of_ne_nil _ (cons_ne_nil q []), getLast?_singleton]
  rcases cutByPreceding_spec hq hti (by omega) (by omega) with
    ⟨hnone, hfin⟩ | ⟨ti', pos', hsome, hti', hpos', hend, hfin⟩
  · rw [hnone]
    refine .inl ⟨rfl, ?_⟩
    intro htifin
    exact ⟨q, by simp, hfin htifin⟩
  rw [hsome]
  have hbefore' : Layout (Placed irs stream last S) TcpSeg.tiLen lo (init ++ [q]) pos' :=
    Layout.append.2 ⟨start, hinit, n, hn, hq, hpos'⟩
  obtain ⟨hlay, hkeep⟩ := splice_spec hbefore' hti' hafter (by omega) (by omega) hnear
  rw [hfin] at hkeep
  exact .inr ⟨_, rfl, hlay, hkeep⟩

/-! ### Presenting -/

structure Receiving (irs : TcpSeq) (stream : List UInt8) (tp : Tcpcb) : Prop where
  fins : tp.fins = 0
  next : tp.rcvNxt = place (irs + 1) tp.soRcv.length
  bytes : tp.soRcv <+: stream

/-- What `TCP_REASS` makes of `tp`, and the flag it returns. The bytes it appends are in `S`;
`known` says that the FIN was there. -/
structure Presented (irs : TcpSeq) (stream : List UInt8) (last : Bool) (S : ℕ → Prop)
    (known : Prop) (tp : Tcpcb) (r : Tcpcb × Bool) : Prop where
  receiving : Receiving irs stream r.1
  grows : tp.soRcv.length ≤ r.1.soRcv.length
  laid : Layout (Placed irs stream last S) TcpSeg.tiLen (r.1.soRcv.length + 1) r.1.segs
    (r.1.soRcv.length + (half - 1))
  fresh : ∀ o < r.1.soRcv.length, o < tp.soRcv.length ∨ S o
  all : r.2 = true → r.1.soRcv.length = stream.length
  pending : known → r.2 = true ∨ ∃ q ∈ r.1.segs, q.tiFin = true
  tState : r.1.tState = tp.tState
  cantRcvMore : r.1.cantRcvMore = tp.cantRcvMore

variable {tp : Tcpcb}

lemma Receiving.append (h : Receiving irs stream tp)
    (hti : Carried irs stream last S ti tp.soRcv.length) :
    Receiving irs stream { tp with
      rcvNxt := tp.rcvNxt + BitVec.ofNat 32 ti.tiLen
      soRcv  := tp.soRcv ++ ti.data } where
  fins := h.fins
  next := by
    rw [h.next, place_add, length_append]
    rfl
  bytes := by
    obtain ⟨rest, rfl⟩ := h.bytes
    have hdata := hti.data
    rw [drop_left] at hdata
    rw [hdata]
    exact (prefix_append_right_inj tp.soRcv).2 ( take_prefix _ _)

lemma Presented.after {known known' : Prop} {tp' : Tcpcb} {r : Tcpcb × Bool}
    (h : Presented irs stream last S known' tp' r) (hlen : tp'.soRcv.length = tp.soRcv.length + n)
    (hS : ∀ o, tp.soRcv.length ≤ o → o < tp.soRcv.length + n → S o) (hknown : known → known')
    (hstate : tp'.tState = tp.tState) (hcant : tp'.cantRcvMore = tp.cantRcvMore) :
    Presented irs stream last S known tp r where
  receiving := h.receiving
  grows := by
    have hgrows := h.grows
    omega
  laid := h.laid
  fresh := by
    intro o ho
    rcases h.fresh o ho with hold | hnew
    · rcases lt_or_ge o tp.soRcv.length with hlt | hge
      · exact .inl hlt
      · exact .inr (hS o hge (by omega))
    · exact .inr hnew
  all := h.all
  pending := fun hk => h.pending (hknown hk)
  tState := h.tState.trans hstate
  cantRcvMore := h.cantRcvMore.trans hcant

lemma presentLoop_spec {flags : Bool} (h : Receiving irs stream tp) (hcant : tp.cantRcvMore = false)
    (hl : Layout (Placed irs stream last S) TcpSeg.tiLen tp.soRcv.length l (tp.soRcv.length +
      (half - 1))) (hflags : flags = true → tp.soRcv.length = stream.length) :
    Presented irs stream last S (flags = true ∨ ∃ q ∈ l, q.tiFin = true) tp
      (presentLoop l tp flags) := by
  have hhalf : half = 2 ^ 31 := rfl
  induction l generalizing tp flags with
  | nil =>
    exact {
      receiving := ⟨h.fins, h.next, h.bytes⟩
      grows := le_rfl
      laid := by
        show tp.soRcv.length + 1 ≤ tp.soRcv.length + (half - 1)
        omega
      fresh := fun o ho => .inl ho
      all := hflags
      pending := by
        rintro (hf | ⟨q, hq, -⟩)
        · exact .inl hf
        · simp at hq
      tState := rfl
      cantRcvMore := rfl }
  | cons ti rest ih =>
    obtain ⟨n, hn, hti, hrest⟩ := hl
    have hle := hrest.le
    unfold presentLoop
    split
    next hseq =>
      have hpos : n = tp.soRcv.length := by
        rw [hti.seq, h.next] at hseq
        exact place_inj _ (by omega) (by omega) hseq
      subst hpos
      have happ : (if tp.cantRcvMore = true then tp.soRcv else tp.soRcv ++ ti.data) =
          tp.soRcv ++ ti.data := by
        rw [hcant]
        rfl
      rw [happ]
      have hlen : (tp.soRcv ++ ti.data).length = tp.soRcv.length + ti.tiLen := by
        rw [length_append]
        rfl
      have hrest' : Layout (Placed irs stream last S) TcpSeg.tiLen (tp.soRcv ++ ti.data).length
          rest ((tp.soRcv ++ ti.data).length + (half - 1)) :=
        hrest.mono (by omega) (by omega)
      have hfin : ti.tiFin = true → (tp.soRcv ++ ti.data).length = stream.length := by
        intro hf
        rw [hlen]
        exact hti.fin hf
      refine (ih (h.append hti.toCarried) hcant hrest' hfin).after hlen hti.within ?_ rfl rfl
      rintro (hf | ⟨q, hq, hqfin⟩)
      · -- Nothing but a bare FIN lies at the end of the stream.
        have hend := hflags hf
        have htile := hti.le
        exact .inl (hti.bare (by omega))
      rcases mem_cons.1 hq with rfl | hq
      · exact .inl hqfin
      · exact .inr ⟨q, hq, hqfin⟩
    next hseq =>
      have hpos : n ≠ tp.soRcv.length := by
        rintro rfl
        exact hseq (hti.seq.trans h.next.symm)
      exact {
        receiving := ⟨h.fins, h.next, h.bytes⟩
        grows := le_rfl
        laid := ⟨n, show tp.soRcv.length + 1 ≤ n by omega, hti, hrest⟩
        fresh := fun o ho => .inl ho
        all := hflags
        pending := fun hk => hk
        tState := rfl
        cantRcvMore := rfl }

/-! ### The whole of `TCP_REASS` -/

section
variable (h : Receiving irs stream tp) (hcant : tp.cantRcvMore = false)
  (hl : Layout (Placed irs stream last S) TcpSeg.tiLen (tp.soRcv.length + 1) tp.segs
    (tp.soRcv.length + (half - 1)))
  (hti : Placed irs stream last S ti pos) (hlo : tp.soRcv.length ≤ pos)
  (hhi : pos + ti.tiLen ≤ tp.soRcv.length + (half - 1))
include h hcant hl hti hlo hhi

lemma tcpReass_spec :
    Presented irs stream last S ((∃ q ∈ tp.segs, q.tiFin = true) ∨ ti.tiFin = true) tp
      (tcpReass tp ti) := by
  have hhalf : half = 2 ^ 31 := rfl
  have hl' := hl.mono (Nat.le_succ _) le_rfl
  unfold tcpReass
  rcases enqueue_spec hl' hti hlo hhi (by omega) with ⟨hnone, hfin⟩ | ⟨l, hsome, hlay, hfin⟩
  · rw [hnone]
    exact {
      receiving := h
      grows := le_rfl
      laid := hl
      fresh := fun o ho => .inl ho
      all := nofun
      pending := by
        rintro (hold | hnew)
        · exact .inr hold
        · exact .inr (hfin hnew)
      tState := rfl
      cantRcvMore := rfl }
  rw [hsome]
  have hp : Presented irs stream last S (false = true ∨ ∃ q ∈ l, q.tiFin = true) tp
      (presentLoop l tp false) :=
    presentLoop_spec h hcant hlay nofun
  exact { hp with pending := fun hk => hp.pending (.inr (hfin hk)) }

lemma tcpReassMacro_spec :
    Presented irs stream last S ((∃ q ∈ tp.segs, q.tiFin = true) ∨ ti.tiFin = true) tp
      (tcpReassMacro tp ti) := by
  have hhalf : half = 2 ^ 31 := rfl
  unfold tcpReassMacro
  split
  next hfast =>
    obtain ⟨hseq, hnil, -⟩ := hfast
    have hpos : pos = tp.soRcv.length := by
      rw [hti.seq, h.next] at hseq
      exact place_inj _ (by omega) (by omega) hseq
    subst hpos
    have hlen : (tp.soRcv ++ ti.data).length = tp.soRcv.length + ti.tiLen := by
      rw [length_append]
      rfl
    exact {
      receiving := h.append hti.toCarried
      grows := by
        show tp.soRcv.length ≤ (tp.soRcv ++ ti.data).length
        omega
      laid := by
        rw [hnil]
        show (tp.soRcv ++ ti.data).length + 1 ≤ (tp.soRcv ++ ti.data).length + (half - 1)
        omega
      fresh := by
        intro o ho
        have ho' : o < (tp.soRcv ++ ti.data).length := ho
        rcases lt_or_ge o tp.soRcv.length with hlt | hge
        · exact .inl hlt
        · exact .inr (hti.within o hge (by omega))
      all := fun hf => hlen.trans (hti.fin hf)
      pending := by
        rintro (⟨q, hq, -⟩ | hf)
        · simp [hnil] at hq
        · exact .inl hf
      tState := rfl
      cantRcvMore := rfl }
  · exact tcpReass_spec h hcant hl hti hlo hhi

end

end Rhapsody.Netinet
