import Rhapsody.Bsd.Sockbuf

/-! Socket buffers of a stream with `M_EOR`: `sbappend` starts a record behind an mbuf that
ends one, and `sbdrop` and the copy loops of `tcp_output` go from record to record. -/

namespace Rhapsody.Bsd

open List

structure RecMbuf extends SbMbuf where
  eor : Bool
  deriving DecidableEq

def chainBytes (chain : List RecMbuf) : List UInt8 := chain.flatMap fun m => m.bytes

structure RecSockbuf where
  mb : List (List RecMbuf)
  hiwat : BitVec 32
  mbmax : BitVec 32
  deriving DecidableEq

inductive CopyStop
  | noBufs
  | panic
  deriving DecidableEq

namespace RecSockbuf

def bytes (sb : RecSockbuf) : List UInt8 := sb.mb.flatMap chainBytes

def cc (sb : RecSockbuf) : BitVec 32 := .ofNat 32 sb.bytes.length

def mbcnt (sb : RecSockbuf) : BitVec 32 :=
  .ofNat 32 (sb.mb.flatten.map fun m => m.size).sum

def sbspace (sb : RecSockbuf) : ℤ := min (sb.hiwat - sb.cc).toInt (sb.mbmax - sb.mbcnt).toInt

def markEor (r : List RecMbuf) : List RecMbuf :=
  match r.getLast? with
  | none => r
  | some n => r.dropLast ++ [{ n with eor := true }]

def sbcompress (r : List RecMbuf) (eor : Bool) : List RecMbuf → List RecMbuf
  | [] => if eor then markEor r else r
  | m :: rest =>
    let eor := eor || m.eor
    if m.bytes = [] ∧ (eor = false ∨ rest ≠ [] ∨ r ≠ []) then sbcompress r eor rest
    else
      match r.getLast? with
      | none => sbcompress [{ m with eor := false }] eor rest
      | some n =>
        if n.isExt = false ∧ n.eor = false ∧ n.mData + n.mLen + m.mLen < mlen then
          sbcompress (r.dropLast ++ [{ n with bytes := n.bytes ++ m.bytes }]) eor rest
        else sbcompress (r ++ [{ m with eor := false }]) eor rest

def sbappendrecord (sb : RecSockbuf) : List RecMbuf → RecSockbuf
  | [] => sb
  | [m0] => { sb with mb := sb.mb ++ [sbcompress [m0] false []] }
  | m0 :: m :: rest =>
    if m0.eor then
      { sb with mb := sb.mb ++
          [sbcompress [{ m0 with eor := false }] false ({ m with eor := true } :: rest)] }
    else { sb with mb := sb.mb ++ [sbcompress [m0] false (m :: rest)] }

def sbappend (sb : RecSockbuf) (chain : List RecMbuf) : RecSockbuf :=
  match sb.mb.getLast? with
  | none =>
    match sbcompress [] false chain with
    | [] => sb
    | r => { sb with mb := [r] }
  | some r =>
    if chain = [] then sb
    else if r.any fun n => n.eor then sb.sbappendrecord chain
    else { sb with mb := sb.mb.dropLast ++ [sbcompress r false chain] }

/-- The loop of `sbdrop` within one record: what is left of it, and of the length. -/
def dropIn : List RecMbuf → ℕ → List RecMbuf × ℕ
  | m, 0 => (m, 0)
  | [], len => ([], len)
  | b :: rest, len =>
    if len < b.mLen then
      ({ b with mData := b.mData + len, bytes := b.bytes.drop len } :: rest, 0)
    else dropIn rest (len - b.mLen)

def dropLoop : List (List RecMbuf) → List RecMbuf → ℕ → Option (List RecMbuf × List (List RecMbuf))
  | next, m, len =>
    match dropIn m len with
    | (m, 0) => some (m, next)
    | (_, len) =>
      match next with
      | [] => none
      | r :: next => dropLoop next r len

def sbdrop (sb : RecSockbuf) (len : ℕ) : Option RecSockbuf :=
  (dropLoop sb.mb.tail (sb.mb.headD []) len).map fun (m, next) =>
    match m.dropWhile fun b => b.bytes = [] with
    | [] => { sb with mb := next }
    | m => { sb with mb := m :: next }

/-- The loop of `tcp_output` with `m_copydata` or, if `ok` tells of mbufs for it, `m_copy`.
`k` counts the records. -/
def copyLoop (ok : ℕ → Bool) : ℕ → List (List RecMbuf) → ℕ → ℕ → Except CopyStop (List UInt8)
  | _, [], _, _ => .error .panic
  | k, r :: rest, off, len =>
    let curLen := (chainBytes r).length
    if off < curLen then
      let n := min (curLen - off) len
      if !ok k then .error .noBufs
      else
        let copied := ((chainBytes r).drop off).take n
        if len - n = 0 then .ok copied
        else (copyLoop ok (k + 1) rest 0 (len - n)).map fun more => copied ++ more
    else copyLoop ok (k + 1) rest (off - curLen) len

/-! ## The bytes of a buffer -/

section
variable {sb sb' : RecSockbuf} {r chain : List RecMbuf} {m : RecMbuf}

lemma drop_past (a b : List UInt8) {n : ℕ} (h : a.length ≤ n) :
    (a ++ b).drop n = b.drop (n - a.length) := by
  rw [drop_append, drop_of_length_le h, nil_append]

lemma take_past (a b : List UInt8) {n : ℕ} (h : a.length ≤ n) :
    (a ++ b).take n = a ++ b.take (n - a.length) := by
  rw [take_append, take_of_length_le h]

lemma chainBytes_append (c c' : List RecMbuf) :
    chainBytes (c ++ c') = chainBytes c ++ chainBytes c' := flatMap_append

lemma chainBytes_cons (m : RecMbuf) (c : List RecMbuf) :
    chainBytes (m :: c) = m.bytes ++ chainBytes c := flatMap_cons

lemma chainBytes_singleton (m : RecMbuf) : chainBytes [m] = m.bytes := append_nil _

lemma chainBytes_concat (c : List RecMbuf) (m : RecMbuf) :
    chainBytes (c ++ [m]) = chainBytes c ++ m.bytes := by
  rw [chainBytes_append, chainBytes_singleton]

lemma markEor_bytes (r : List RecMbuf) : chainBytes (markEor r) = chainBytes r := by
  unfold markEor
  cases hlast : r.getLast? with
  | none => rfl
  | some n =>
    obtain ⟨r, rfl⟩ := getLast?_eq_some_iff.1 hlast
    rw [dropLast_concat, chainBytes_concat, chainBytes_concat]

lemma sbcompress_bytes (r : List RecMbuf) (eor : Bool) (chain : List RecMbuf) :
    chainBytes (sbcompress r eor chain) = chainBytes r ++ chainBytes chain := by
  induction chain generalizing r eor with
  | nil =>
    unfold sbcompress
    rw [show chainBytes [] = [] from rfl, append_nil]
    split_ifs
    · exact markEor_bytes r
    · rfl
  | cons m rest ih =>
    unfold sbcompress
    dsimp only
    rw [chainBytes_cons]
    split_ifs with hskip
    · rw [ih, hskip.1, nil_append]
    cases hlast : r.getLast? with
    | none =>
      obtain rfl := getLast?_eq_none_iff.1 hlast
      rw [ih, chainBytes_singleton]
      rfl
    | some n =>
      obtain ⟨r, rfl⟩ := getLast?_eq_some_iff.1 hlast
      dsimp only
      split_ifs
      · rw [ih, dropLast_concat, chainBytes_concat, chainBytes_concat]
        simp only [append_assoc]
      · rw [ih, chainBytes_concat, append_assoc]

lemma bytes_concat (records : List (List RecMbuf)) (r : List RecMbuf) :
    (records ++ [r]).flatMap chainBytes = records.flatMap chainBytes ++ chainBytes r := by
  rw [flatMap_append, flatMap_cons]
  exact congrArg _ (append_nil _)

lemma sbappend_bytes (sb : RecSockbuf) (chain : List RecMbuf) :
    (sb.sbappend chain).bytes = sb.bytes ++ chainBytes chain := by
  unfold sbappend
  cases hlast : sb.mb.getLast? with
  | none =>
    have hnil : sb.bytes = [] := by
      unfold bytes
      rw [getLast?_eq_none_iff.1 hlast]
      rfl
    have hbytes := sbcompress_bytes [] false chain
    rw [hnil]
    cases hr : sbcompress [] false chain with
    | nil =>
      rw [hr] at hbytes
      rw [hnil]
      exact hbytes
    | cons m r =>
      rw [hr] at hbytes
      exact (append_nil _).trans hbytes
  | some r =>
    obtain ⟨records, hmb⟩ := getLast?_eq_some_iff.1 hlast
    dsimp only
    split_ifs with hchain
    · rw [hchain]
      exact (append_nil _).symm
    · unfold sbappendrecord bytes
      match chain with
      | [] => exact (append_nil _).symm
      | [m0] =>
        rw [bytes_concat, sbcompress_bytes]
        exact congrArg _ (append_nil _)
      | m0 :: m :: rest =>
        dsimp only
        split_ifs
        all_goals
          rw [bytes_concat, sbcompress_bytes, chainBytes_singleton]
          rfl
    · unfold bytes
      rw [hmb, dropLast_concat, bytes_concat, bytes_concat, sbcompress_bytes, append_assoc]

lemma sbappend_marks (sb : RecSockbuf) (chain : List RecMbuf) :
    (sb.sbappend chain).hiwat = sb.hiwat ∧ (sb.sbappend chain).mbmax = sb.mbmax := by
  unfold sbappend
  split
  · split <;> exact ⟨rfl, rfl⟩
  split_ifs
  · exact ⟨rfl, rfl⟩
  · unfold sbappendrecord
    split
    · exact ⟨rfl, rfl⟩
    · exact ⟨rfl, rfl⟩
    · split_ifs <;> exact ⟨rfl, rfl⟩
  · exact ⟨rfl, rfl⟩

lemma dropIn_spec (m : List RecMbuf) (len : ℕ) :
    chainBytes (dropIn m len).1 = (chainBytes m).drop len ∧
      (dropIn m len).2 = len - (chainBytes m).length := by
  induction m generalizing len with
  | nil =>
    cases len with
    | zero => exact ⟨rfl, rfl⟩
    | succ len => exact ⟨rfl, rfl⟩
  | cons b rest ih =>
    cases len with
    | zero => exact ⟨rfl, (Nat.zero_sub _).symm⟩
    | succ len =>
      have hcons : dropIn (b :: rest) (len + 1) = if len + 1 < b.mLen then
          ({ b with mData := b.mData + (len + 1), bytes := b.bytes.drop (len + 1) } :: rest, 0)
          else dropIn rest (len + 1 - b.mLen) := rfl
      rw [hcons, chainBytes_cons, length_append]
      split_ifs with hlt
      · have hlt : len + 1 < b.bytes.length := hlt
        refine ⟨?_, ?_⟩
        · rw [chainBytes_cons, drop_append_of_le_length (le_of_lt hlt)]
        · dsimp only
          omega
      have hge : b.bytes.length ≤ len + 1 := not_lt.1 hlt
      obtain ⟨hbytes, hlen⟩ := ih (len + 1 - b.mLen)
      refine ⟨?_, ?_⟩
      · rw [hbytes, drop_past _ _ hge]
        rfl
      · rw [hlen]
        exact Nat.sub_sub _ _ _

lemma dropLoop_spec (next : List (List RecMbuf)) (m : List RecMbuf) (len : ℕ)
    (h : len ≤ (chainBytes m ++ next.flatMap chainBytes).length) :
    ∃ m' next', dropLoop next m len = some (m', next') ∧ chainBytes m' ++ next'.flatMap chainBytes =
        (chainBytes m ++ next.flatMap chainBytes).drop len := by
  induction next generalizing m len with
  | nil =>
    obtain ⟨hbytes, hlen⟩ := dropIn_spec m len
    have hzero : (dropIn m len).2 = 0 := by
      rw [hlen]
      simp only [flatMap_nil, append_nil] at h
      omega
    unfold dropLoop
    generalize dropIn m len = r at hbytes hzero
    obtain ⟨m', l⟩ := r
    obtain rfl : l = 0 := hzero
    refine ⟨m', [], rfl, ?_⟩
    simp only [flatMap_nil, append_nil]
    exact hbytes
  | cons r next ih =>
    obtain ⟨hbytes, hlen⟩ := dropIn_spec m len
    unfold dropLoop
    generalize dropIn m len = d at hbytes hlen
    obtain ⟨m', l⟩ := d
    dsimp only at hbytes hlen
    cases l with
    | zero =>
      refine ⟨m', r :: next, rfl, ?_⟩
      rw [hbytes, drop_append_of_le_length (Nat.sub_eq_zero_iff_le.1 hlen.symm)]
    | succ l =>
      rw [length_append, flatMap_cons] at h
      obtain ⟨m'', next'', hloop, hrest⟩ := ih r (l + 1) (by rw [hlen]; omega)
      refine ⟨m'', next'', hloop, ?_⟩
      rw [hrest, hlen, drop_past (chainBytes m) _ (by omega)]
      rfl

lemma chainBytes_dropWhile (m : List RecMbuf) :
    chainBytes (m.dropWhile fun b => b.bytes = []) = chainBytes m := by
  induction m with
  | nil => rfl
  | cons b rest ih =>
    rw [dropWhile_cons]
    split_ifs with hb
    · rw [ih, chainBytes_cons, of_decide_eq_true hb, nil_append]
    · rfl

lemma sbdrop_spec (sb : RecSockbuf) {len : ℕ} (h : len ≤ sb.bytes.length) :
    ∃ sb', sb.sbdrop len = some sb' ∧ sb'.bytes = sb.bytes.drop len ∧ sb'.hiwat = sb.hiwat ∧
      sb'.mbmax = sb.mbmax := by
  have hmb : sb.bytes = chainBytes (sb.mb.headD []) ++ sb.mb.tail.flatMap chainBytes := by
    unfold bytes
    cases sb.mb with
    | nil => rfl
    | cons r records => rfl
  rw [hmb] at h ⊢
  obtain ⟨m, next, hloop, hbytes⟩ := dropLoop_spec _ _ _ h
  unfold sbdrop
  rw [hloop, Option.map_some]
  dsimp only
  have htrim := chainBytes_dropWhile m
  refine ⟨_, rfl, ?_⟩
  cases hm : m.dropWhile fun b => b.bytes = [] with
  | nil | cons b rest =>
    rw [hm] at htrim
    refine ⟨?_, rfl, rfl⟩
    rw [← hbytes, ← htrim]
    rfl

lemma copyLoop_spec (ok : ℕ → Bool) (k : ℕ) (records : List (List RecMbuf)) (off len : ℕ)
    (hlen : 0 < len) (h : off + len ≤ (records.flatMap chainBytes).length) :
    copyLoop ok k records off len = .error .noBufs ∨ copyLoop ok k records off len =
        .ok (((records.flatMap chainBytes).drop off).take len) := by
  induction records generalizing k off len with
  | nil =>
    simp only [flatMap_nil, length_nil] at h
    omega
  | cons r rest ih =>
    rw [flatMap_cons, length_append] at h
    unfold copyLoop
    dsimp only
    rw [flatMap_cons]
    split_ifs with hoff hok hlast
    · exact .inl rfl
    · refine .inr ?_
      rw [drop_append_of_le_length (by omega), take_append_of_le_length]
      · congr 2
        omega
      · rw [length_drop]
        omega
    · have hmin : min ((chainBytes r).length - off) len = (chainBytes r).length - off := by omega
      rw [hmin] at hlast ⊢
      rcases ih (k + 1) 0 (len - ((chainBytes r).length - off)) (by omega) (by omega) with
        hcopy | hcopy
      · rw [hcopy]
        exact .inl rfl
      rw [hcopy]
      refine .inr (congrArg Except.ok ?_)
      have hall : ((chainBytes r).drop off).length = (chainBytes r).length - off := length_drop
      rw [drop_append_of_le_length (by omega), take_past _ _ (by omega), hall,
        drop_zero, take_of_length_le (le_of_eq hall)]
    · rcases ih (k + 1) (off - (chainBytes r).length) len hlen (by omega) with hcopy | hcopy
      · exact .inl hcopy
      · rw [hcopy, drop_past _ _ (by omega)]
        exact .inr rfl

end

end RecSockbuf

end Rhapsody.Bsd
