import Rhapsody.Lib.Ring

/-! Mbufs and their clusters (`bsd/kern/uipc_mbuf.c`, `bsd/sys/mbuf.h`). Mbufs are named by
their place in the clusters they are cut from. A chain is the list of its mbufs, and the free
lists are lists. What `kmem_mb_alloc` will give is a list of numbers of clusters; a caller that
may wait for an mbuf is taken to give up instead. -/

namespace Rhapsody.Bsd

open Function

def mlen : ℕ := 108
def mhlen : ℕ := 100
def pktdat : ℕ := 8

def mclBytes : ℕ := 2048

def nmbpcl : ℕ := 16

def mCopyAll : ℕ := 1000000000

/-- `MT_FREE` or another type; `raw` is memory that `m_expand` has not yet cut up. -/
inductive MbufType
  | raw
  | free
  | used
  deriving DecidableEq

/-- `struct m_ext` of a cluster, with the ring `ext_refs` through the mbufs. -/
structure MExt where
  extBuf : ℕ
  extSize : ℕ
  forward : ℕ
  backward : ℕ
  deriving DecidableEq

/-- `mData` is a place in the cluster if `M_EXT` is set, in `m_dat` if not. -/
structure Mbuf where
  mType : MbufType
  isExt : Bool
  isPkthdr : Bool
  mLen : ℕ
  mData : ℕ
  mExt : MExt
  mDat : List UInt8
  deriving DecidableEq

structure MbufPool where
  mbufs : ℕ → Mbuf
  mfree : List ℕ
  mclfree : List ℕ
  mclrefcnt : ℕ → ℤ
  mClusters : ℕ
  mcl : ℕ → List UInt8
  supply : List ℕ
  maxProtohdr : ℕ

inductive MbufStop
  | freeingFree
  | clusterNotFree
  | alreadyThere
  | copym
  | hang
  | recursion
  deriving DecidableEq

namespace MbufPool

variable (s : MbufPool)

variable (m : ℕ)

def modify (f : Mbuf → Mbuf) : MbufPool :=
  { s with mbufs := update s.mbufs m (f (s.mbufs m)) }

/-! ### The ring of a cluster -/

def links : Links ℕ where
  fwd m := (s.mbufs m).mExt.forward
  bwd m := (s.mbufs m).mExt.backward

def hasReference : Bool :=
  (s.mbufs m).mExt.forward ≠ m

def insque (n m : ℕ) : MbufPool :=
  let next := (s.mbufs m).mExt.forward
  let s := s.modify n fun b => { b with mExt := { b.mExt with forward := next, backward := m } }
  let s := s.modify next fun b => { b with mExt := { b.mExt with backward := n } }
  s.modify m fun b => { b with mExt := { b.mExt with forward := n } }

def remque : MbufPool :=
  let e := (s.mbufs m).mExt
  let s := s.modify e.forward fun b => { b with mExt := { b.mExt with backward := e.backward } }
  s.modify e.backward fun b => { b with mExt := { b.mExt with forward := e.forward } }

/-! ### Allocation -/

def clAdd : ℕ → MbufPool → Except MbufStop MbufPool
  | 0, s => .ok s
  | n + 1, s =>
    let k := s.mClusters
    if s.mclrefcnt k + 1 ≠ 0 then .error .alreadyThere
    else clAdd n { s with
      mclrefcnt := update s.mclrefcnt k (s.mclrefcnt k + 1)
      mclfree   := k :: s.mclfree
      mClusters := k + 1 }

def mClalloc : Except MbufStop MbufPool :=
  match s.supply with
  | [] => .ok s
  | got :: rest => clAdd got { s with supply := rest }

def mclAlloc : Except MbufStop (MbufPool × Option ℕ) := do
  let s ← s.mClalloc
  match s.mclfree with
  | [] => .ok (s, none)
  | k :: rest =>
    .ok ({ s with
      mclrefcnt := update s.mclrefcnt k (s.mclrefcnt k + 1)
      mclfree   := rest }, some k)

/-- The mbufs of the cluster `k`, in the order in which they come to lie on `mfree`. -/
def cut (k : ℕ) : List ℕ :=
  ((List.range nmbpcl).map fun i => k * nmbpcl + i).reverse

def mExpand : Except MbufStop MbufPool :=
  if s.mclfree.length < s.mClusters / 16 then .ok s
  else do
    let (s, k) ← s.mclAlloc
    match k with
    | none => .ok s
    | some k =>
      .ok { s with
        mbufs := fun i => if i / nmbpcl = k then { s.mbufs i with mType := .free } else s.mbufs i
        mfree := cut k ++ s.mfree }

def mintget (hdr : Bool) : MbufPool × Option ℕ :=
  match s.mfree with
  | [] => (s, none)
  | m :: rest =>
    ({ s with
        mclrefcnt := update s.mclrefcnt (m / nmbpcl) (s.mclrefcnt (m / nmbpcl) + 1)
        mfree     := rest }.modify m fun b =>
      { b with
        mType    := .used
        isExt    := false
        isPkthdr := hdr
        mData    := if hdr then pktdat else 0 }, some m)

def mget (hdr : Bool) : Except MbufStop (MbufPool × Option ℕ) :=
  match s.mintget hdr with
  | (s, some m) => .ok (s, some m)
  | (s, none) => do
    let s ← s.mExpand
    .ok (s.mintget hdr)

def mclget : Except MbufStop MbufPool := do
  let (s, k) ← s.mclAlloc
  match k with
  | none => .ok s
  | some k =>
    .ok (s.modify m fun b =>
      { b with
        mData := 0
        isExt := true
        mExt  := { extBuf := k, extSize := mclBytes, forward := m, backward := m } })

/-! ### Freeing -/

def mFreeExt : Except MbufStop MbufPool :=
  if s.hasReference m then .ok (s.remque m)
  else
    let k := (s.mbufs m).mExt.extBuf
    let s := { s with mclrefcnt := update s.mclrefcnt k (s.mclrefcnt k - 1) }
    if s.mclrefcnt k = 0 then .ok { s with mclfree := k :: s.mclfree }
    else .error .clusterNotFree

def mFreeMbuf : MbufPool :=
  { s with
    mclrefcnt := update s.mclrefcnt (m / nmbpcl) (s.mclrefcnt (m / nmbpcl) - 1)
    mfree     := m :: s.mfree }.modify m fun b =>
      { b with
        mType    := .free
        isExt    := false
        isPkthdr := false
        mLen     := 0 }

def mFree : Except MbufStop MbufPool :=
  if (s.mbufs m).mType = .free then .error .freeingFree
  else do
    let s ← if (s.mbufs m).isExt then s.mFreeExt m else .ok s
    .ok (s.mFreeMbuf m)

variable (chain : List ℕ)

def mFreem : Except MbufStop MbufPool :=
  chain.foldlM mFree s

/-! ### Data -/

def mLeadingspace : ℕ :=
  let b := s.mbufs m
  if b.isExt then if s.hasReference m then 0 else b.mData
  else if b.isPkthdr then b.mData - pktdat
  else b.mData

def mTrailingspace : ℕ :=
  let b := s.mbufs m
  if b.isExt then if s.hasReference m then 0 else b.mExt.extSize - (b.mData + b.mLen)
  else mlen - (b.mData + b.mLen)

def load (off n : ℕ) : List UInt8 :=
  let b := s.mbufs m
  ((if b.isExt then s.mcl b.mExt.extBuf else b.mDat).drop (b.mData + off)).take n

def overwrite (a : List UInt8) (i : ℕ) (bytes : List UInt8) : List UInt8 :=
  a.take i ++ bytes ++ a.drop (i + bytes.length)

def store (off : ℕ) (bytes : List UInt8) : MbufPool :=
  let b := s.mbufs m
  if b.isExt then
    let k := b.mExt.extBuf
    { s with mcl := update s.mcl k (overwrite (s.mcl k) (b.mData + off) bytes) }
  else s.modify m fun b => { b with mDat := overwrite b.mDat (b.mData + off) bytes }

def copyPkthdr (dst src : ℕ) : MbufPool :=
  s.modify dst fun b =>
    { b with
      isExt    := false
      isPkthdr := (s.mbufs src).isPkthdr
      mData    := pktdat }

def share (n m : ℕ) : MbufPool :=
  (s.modify n fun b => { b with mExt := (s.mbufs m).mExt }).insque n m

/-! ### Chains -/

def skip (s : MbufPool) : List ℕ → ℕ → Except MbufStop (List ℕ × ℕ)
  | chain, 0 => .ok (chain, 0)
  | [], _ + 1 => .error .copym
  | m :: rest, off + 1 =>
    if off + 1 < (s.mbufs m).mLen then .ok (m :: rest, off + 1)
    else s.skip rest (off + 1 - (s.mbufs m).mLen)

/-- One mbuf of a copy: `n`, fresh, takes what `m` has from `off`, at most `len` bytes. -/
def copyOne (n m off len : ℕ) (copyhdr : Bool) : MbufPool :=
  let s := if copyhdr then s.copyPkthdr n m else s
  let count := min len ((s.mbufs m).mLen - off)
  let count := if count = mCopyAll then mhlen else count
  let s := s.modify n fun b => { b with mLen := count }
  if (s.mbufs m).isExt then
    (s.share n m).modify n fun b =>
      { b with mData := (s.mbufs m).mData + off, isExt := true }
  else s.store n 0 (s.load m off count)

def copyLoop (s : MbufPool) (chain : List ℕ) (off len : ℕ) (copyhdr : Bool) (top : List ℕ) :
    Except MbufStop (MbufPool × List ℕ) :=
  if len = 0 then .ok (s, top)
  else
    match chain with
    | [] => if len ≠ mCopyAll then .error .copym else .ok (s, top)
    | m :: rest => do
      let (s, n) ← s.mget false
      match n with
      | none =>
        let s ← s.mFreem top
        .ok (s, [])
      | some n =>
        let s := s.copyOne n m off len copyhdr
        let len := if len ≠ mCopyAll then len - (s.mbufs n).mLen else len
        s.copyLoop rest 0 len false (top ++ [n])

def mCopym (off len : ℕ) :
    Except MbufStop (MbufPool × List ℕ) := do
  let copyhdr := off = 0 ∧ (chain.head?.map fun m => (s.mbufs m).isPkthdr) = some true
  let (chain, off) ← s.skip chain off
  s.copyLoop chain off len copyhdr []

def catLoop (s : MbufPool) (m : ℕ) : List ℕ → Except MbufStop (MbufPool × List ℕ)
  | [] => .ok (s, [])
  | n :: rest =>
    let b := s.mbufs m
    if b.isExt ∨ mlen ≤ b.mData + b.mLen + (s.mbufs n).mLen then .ok (s, n :: rest)
    else do
      let s := s.store m b.mLen (s.load n 0 (s.mbufs n).mLen)
      let s := s.modify m fun b => { b with mLen := b.mLen + (s.mbufs n).mLen }
      let s ← s.mFree n
      s.catLoop m rest

def mCat (other : List ℕ) : Except MbufStop (MbufPool × List ℕ) :=
  match chain.getLast? with
  | none => .ok (s, other)
  | some m => do
    let (s, rest) ← s.catLoop m other
    .ok (s, chain ++ rest)

def adjHead (s : MbufPool) : List ℕ → ℕ → MbufPool
  | [], _ => s
  | m :: rest, len =>
    if len = 0 then s
    else if (s.mbufs m).mLen ≤ len then
      (s.modify m fun b => { b with mLen := 0 }).adjHead rest (len - (s.mbufs m).mLen)
    else s.modify m fun b => { b with mLen := b.mLen - len, mData := b.mData + len }

def adjCount (s : MbufPool) : List ℕ → ℕ → MbufPool
  | [], _ => s
  | m :: rest, count =>
    if count ≤ (s.mbufs m).mLen then
      rest.foldl (fun s n => s.modify n fun b => { b with mLen := 0 })
        (s.modify m fun b => { b with mLen := count })
    else s.adjCount rest (count - (s.mbufs m).mLen)

def mAdj (req : ℤ) : MbufPool :=
  if 0 ≤ req then s.adjHead chain req.toNat
  else
    match chain.getLast? with
    | none => s
    | some m =>
      let len := (-req).toNat
      if len ≤ (s.mbufs m).mLen then s.modify m fun b => { b with mLen := b.mLen - len }
      else s.adjCount chain ((chain.map fun m => (s.mbufs m).mLen).sum - len)

/-- The loop of `m_pullup` into `m`: what is left of the chain and of `len`. A round that neither
empties its mbuf nor is the last is repeated for ever. -/
def pullLoop (s : MbufPool) (m : ℕ) : List ℕ → ℤ → ℕ → Except MbufStop (MbufPool × List ℕ × ℤ)
  | [], len, _ => .ok (s, [], len)
  | n :: rest, len, space => do
    let count := min (min (max len.toNat s.maxProtohdr) space) (s.mbufs n).mLen
    let s := s.store m (s.mbufs m).mLen (s.load n 0 count)
    let s := s.modify m fun b => { b with mLen := b.mLen + count }
    let s := s.modify n fun b => { b with mLen := b.mLen - count }
    if (s.mbufs n).mLen ≠ 0 then
      let s := s.modify n fun b => { b with mData := b.mData + count }
      if 0 < len - count then .error .hang else .ok (s, n :: rest, len - count)
    else
      let s ← s.mFree n
      if 0 < len - count then s.pullLoop m rest (len - count) (space - count)
      else .ok (s, rest, len - count)

def pullInto (len : ℤ) :
    Except MbufStop (MbufPool × List ℕ) := do
  let space := mlen - ((s.mbufs m).mData + (s.mbufs m).mLen)
  let (s, rest, len) ← s.pullLoop m chain len space
  if 0 < len then
    let s ← s.mFree m
    let s ← s.mFreem rest
    .ok (s, [])
  else .ok (s, m :: rest)

def mPullup (len : ℕ) : Except MbufStop (MbufPool × List ℕ) :=
  match chain with
  | [] => .ok (s, [])
  | n :: rest =>
    let b := s.mbufs n
    if b.isExt = false ∧ b.mData + len < mlen ∧ rest ≠ [] then
      if len ≤ b.mLen then .ok (s, chain)
      else s.pullInto n rest ((len : ℤ) - b.mLen)
    else if mhlen < len then do
      let s ← s.mFreem chain
      .ok (s, [])
    else do
      let (s, m) ← s.mget false
      match m with
      | none =>
        let s ← s.mFreem chain
        .ok (s, [])
      | some m =>
        let s := s.modify m fun b => { b with mLen := 0 }
        let s := if (s.mbufs n).isPkthdr then
            (s.copyPkthdr m n).modify n fun b => { b with isPkthdr := false }
          else s
        s.pullInto m chain len

def align (room len : ℕ) : MbufPool :=
  s.modify m fun b => { b with mData := b.mData + (room - len) / 4 * 4 }

def mPrepend (len : ℕ) :
    Except MbufStop (MbufPool × List ℕ) := do
  let (s, mn) ← s.mget false
  match mn, chain with
  | none, _ =>
    let s ← s.mFreem chain
    .ok (s, [])
  | some mn, [] => .ok (s, [mn])
  | some mn, m :: rest =>
    let s := if (s.mbufs m).isPkthdr then
        (s.copyPkthdr mn m).modify m fun b => { b with isPkthdr := false }
      else s
    let s := if len < mhlen then s.align mn mhlen len else s
    .ok (s.modify mn fun b => { b with mLen := len }, mn :: m :: rest)

def prepend (plen : ℕ) : Except MbufStop (MbufPool × List ℕ) :=
  match chain with
  | [] => .ok (s, [])
  | m :: rest =>
    if plen ≤ s.mLeadingspace m then
      .ok (s.modify m fun b => { b with mData := b.mData - plen, mLen := b.mLen + plen }, m :: rest)
    else s.mPrepend (m :: rest) plen

/-- The loop of `m_split`: the mbufs before the one that is divided, it, those after it, and the
place. -/
def splitPoint (s : MbufPool) : List ℕ → ℕ → Option (List ℕ × ℕ × List ℕ × ℕ)
  | [], _ => none
  | m :: rest, len =>
    if (s.mbufs m).mLen < len then
      (s.splitPoint rest (len - (s.mbufs m).mLen)).map fun r => (m :: r.1, r.2)
    else some ([], m, rest, len)

/-- `n` takes the data of `m` from `len` on. The count of a cluster is raised, and `n` is not put on
its ring. -/
def splitData (n m len : ℕ) : MbufPool :=
  let remain := (s.mbufs m).mLen - len
  let s := if (s.mbufs m).isExt then
      let e := (s.mbufs m).mExt
      let s := s.modify n fun b =>
        { b with isExt := true, mExt := e, mData := (s.mbufs m).mData + len }
      let s := { s with
        mclrefcnt := update s.mclrefcnt e.extBuf (s.mclrefcnt e.extBuf + 1) }
      s.modify m fun b => { b with mExt := { b.mExt with extSize := 0 } }
    else s.store n 0 (s.load m len remain)
  let s := s.modify n fun b => { b with mLen := remain }
  s.modify m fun b => { b with mLen := len }

def spare : ℕ :=
  s.mfree.length + nmbpcl * (s.mclfree.length + s.supply.sum)

/-- What is left of the chain, and the tail, empty for the null pointer. Each call of itself takes
an mbuf first. -/
def mSplit : ℕ → MbufPool → List ℕ → ℕ → Except MbufStop (MbufPool × List ℕ × List ℕ)
  | 0, _, _, _ => .error .recursion
  | fuel + 1, s, chain, len0 =>
    match chain, s.splitPoint chain len0 with
    | m0 :: _, some (before, m, after, len) =>
      let remain := (s.mbufs m).mLen - len
      if (s.mbufs m0).isPkthdr then do
        let (s, n) ← s.mget true
        match n with
        | none => .ok (s, chain, [])
        | some n =>
          if (s.mbufs m).isExt then .ok (s.splitData n m len, before ++ [m], n :: after)
          else if mhlen < remain then
            let (s, front, tail) ← mSplit fuel (s.align n mhlen 0) (m :: after) len
            if tail = [] then
              let s ← s.mFree n
              .ok (s, before ++ front, [])
            else .ok (s, before ++ front, n :: tail)
          else .ok ((s.align n mhlen remain).splitData n m len, before ++ [m], n :: after)
      else if remain = 0 then .ok (s, before ++ [m], after)
      else do
        let (s, n) ← s.mget false
        match n with
        | none => .ok (s, chain, [])
        | some n =>
          .ok ((s.align n mlen remain).splitData n m len, before ++ [m], n :: after)
    | _, _ => .ok (s, chain, [])

end MbufPool

end Rhapsody.Bsd
