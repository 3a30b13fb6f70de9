import Rhapsody.Lib.Census
import Rhapsody.Bsd.MbufChains

/-! Callers of the mbuf operations, with any number of chains. A caller writes data only where
`m_trailingspace` and `M_PREPEND` say there is room for it. -/

namespace Rhapsody.Bsd

structure MbufSystem where
  pool : MbufPool
  chains : List (List ℕ)

inductive MbufCall
  | get (hdr : Bool)
  | mclget (i j : ℕ)
  | append (i : ℕ) (bytes : List UInt8)
  | copym (i off len : ℕ)
  | split (i len : ℕ)
  | pullup (i len : ℕ)
  | prepend (i : ℕ) (bytes : List UInt8)
  | cat (i j : ℕ)
  | adj (i : ℕ) (req : ℤ)
  | free (i : ℕ)
  | freem (i : ℕ)
  deriving DecidableEq

namespace MbufPool

def append (s : MbufPool) (chain : List ℕ) (bytes : List UInt8) : MbufPool :=
  match chain.getLast? with
  | none => s
  | some m =>
    if bytes.length ≤ s.mTrailingspace m then
      (s.store m (s.mbufs m).mLen bytes).modify m fun b =>
        { b with mLen := b.mLen + bytes.length }
    else s

def prependBytes (s : MbufPool) (chain : List ℕ) (bytes : List UInt8) :
    Except MbufStop (MbufPool × List ℕ) := do
  let (s, chain) ← s.prepend chain bytes.length
  match chain with
  | [] => .ok (s, [])
  | m :: rest => .ok (s.store m 0 bytes, m :: rest)

end MbufPool

variable {c : MbufCall}

namespace MbufSystem

open MbufPool List

def onChain (s : MbufSystem) (i : ℕ)
    (f : List ℕ → Except MbufStop (MbufPool × List (List ℕ))) : Except MbufStop MbufSystem :=
  match s.chains[i]? with
  | none => .ok s
  | some chain => do
    let (pool, made) ← f chain
    .ok ⟨pool, made ++ s.chains.eraseIdx i⟩

def call (s : MbufSystem) : MbufCall → Except MbufStop MbufSystem
  | .get hdr => do
    let (pool, m) ← s.pool.mget hdr
    .ok ⟨pool, m.toList :: s.chains⟩
  | .mclget i j => s.onChain i fun chain =>
    match chain[j]? with
    | none => .ok (s.pool, [chain])
    | some m => do
      let pool ← s.pool.mclget m
      .ok (pool, [chain])
  | .append i bytes => s.onChain i fun chain => .ok (s.pool.append chain bytes, [chain])
  | .copym i off len => s.onChain i fun chain => do
    let (pool, top) ← s.pool.mCopym chain off len
    .ok (pool, [top, chain])
  | .split i len => s.onChain i fun chain => do
    let (pool, front, tail) ← mSplit (s.pool.spare + 1) s.pool chain len
    .ok (pool, [front, tail])
  | .pullup i len => s.onChain i fun chain => do
    let (pool, chain) ← s.pool.mPullup chain len
    .ok (pool, [chain])
  | .prepend i bytes => s.onChain i fun chain => do
    let (pool, chain) ← s.pool.prependBytes chain bytes
    .ok (pool, [chain])
  | .cat i j =>
    match s.chains[i]?, (s.chains.eraseIdx i)[j]? with
    | some chain, some other => do
      let (pool, chain) ← s.pool.mCat chain other
      .ok ⟨pool, chain :: (s.chains.eraseIdx i).eraseIdx j⟩
    | _, _ => .ok s
  | .adj i req => s.onChain i fun chain => .ok (s.pool.mAdj chain req, [chain])
  | .free i => s.onChain i fun chain =>
    match chain with
    | [] => .ok (s.pool, [])
    | m :: rest => do
      let pool ← s.pool.mFree m
      .ok (pool, [rest])
  | .freem i => s.onChain i fun chain => do
    let pool ← s.pool.mFreem chain
    .ok (pool, [])

/-- A cluster is put on an mbuf that has none, `m_split` does not have to share one, and what is
prepended fits in an mbuf, for which `m_prepend` has no test. -/
def Proper (s : MbufSystem) : MbufCall → Prop
  | .mclget i j =>
    ∀ chain ∈ s.chains[i]?, ∀ m ∈ chain[j]?, (s.pool.mbufs m).isExt = false
  | .split i len => ∀ chain ∈ s.chains[i]?, s.pool.SplitOk chain len
  | .prepend _ bytes => bytes.length ≤ mhlen
  | _ => True

def Sound (s : MbufSystem) : Prop := s.pool.Sound s.chains.flatten []

/-! ### One call -/

variable {s s' : MbufSystem}

/-- What a call may do: panic as `m_copym` does beyond the chain, or return with no shared cluster
written to. -/
def Returns (s : MbufSystem) (r : Except MbufStop MbufSystem) : Prop :=
  r = .error .copym ∨ ∃ s', r = .ok s' ∧ s'.Sound ∧ Spares s.pool s'.pool

variable {f : List ℕ → Except MbufStop (MbufPool × List (List ℕ))} {i : ℕ}

section
variable (h : s.Sound)
include h

lemma onChain_spec (hf : ∀ chain A, s.chains[i]? = some chain → s.pool.Sound (chain ++ A) [] →
      f chain = .error .copym ∨ ∃ pool made, f chain = .ok (pool, made) ∧
      pool.Sound (made.flatten ++ A) [] ∧ Spares s.pool pool) : s.Returns (s.onChain i f) := by
  unfold onChain
  cases hchain : s.chains[i]? with
  | none => exact .inr ⟨s, rfl, h, fun _ _ _ _ _ _ => rfl⟩
  | some chain =>
    have hperm : s.chains.flatten.Perm (chain ++ (s.chains.eraseIdx i).flatten) := by
      rw [← flatten_cons]
      exact (Census.perm hchain).flatten
    dsimp only
    rcases hf chain _ hchain (MbufPool.Sound.perm h hperm) with
      herr | ⟨pool, made, heq, hsound, hspares⟩
    · rw [herr]
      exact .inl rfl
    rw [heq]
    refine .inr ⟨_, rfl, ?_, hspares⟩
    show pool.Sound (made ++ s.chains.eraseIdx i).flatten []
    rwa [flatten_append]

lemma onChain_one (hf : ∀ chain A, s.chains[i]? = some chain → s.pool.Sound (chain ++ A) [] →
      ∃ pool r, f chain = .ok (pool, [r]) ∧ pool.Sound (r ++ A) [] ∧ Spares s.pool pool) :
    s.Returns (s.onChain i f) := by
  apply onChain_spec h
  intro chain A hchain hsound
  obtain ⟨pool, r, heq, hpool, hspares⟩ := hf chain A hchain hsound
  refine .inr ⟨pool, [r], heq, ?_, hspares⟩
  rwa [flatten_singleton]

lemma call_get (hdr : Bool) : s.Returns (s.call (.get hdr)) := by
  unfold call
  dsimp only
  rcases mget_spec h hdr with ⟨pool, heq, hsound, hmcl⟩ | ⟨pool, m, heq, hsound, hfresh⟩
  · rw [heq]
    exact .inr ⟨_, rfl, hsound, spares_of_eq hmcl⟩
  · rw [heq]
    exact .inr ⟨_, rfl, hsound, spares_of_eq hfresh.mcl⟩

lemma call_mclget {j : ℕ} (hp : s.Proper (.mclget i j)) : s.Returns (s.call (.mclget i j)) := by
  apply onChain_one h
  intro chain A hchain hsound
  cases hm : chain[j]? with
  | none => exact ⟨s.pool, chain, rfl, hsound, spares_of_eq rfl⟩
  | some m =>
    have hmA : m ∈ chain ++ A := mem_append_left A (mem_of_getElem? hm)
    obtain ⟨pool, heq, hpool, hmcl⟩ := mclget_spec hsound hmA (hp chain hchain m hm)
    dsimp only
    rw [heq]
    exact ⟨pool, chain, rfl, hpool, spares_of_eq hmcl⟩

lemma call_append (i : ℕ) (bytes : List UInt8) : s.Returns (s.call (.append i bytes)) := by
  apply onChain_one h
  intro chain A hchain hsound
  refine ⟨_, chain, rfl, ?_⟩
  unfold MbufPool.append
  split
  · exact ⟨hsound, spares_of_eq rfl⟩
  next m hm =>
    split
    next hroom =>
      have hmA : m ∈ chain ++ A := mem_append_left A (mem_of_getLast? hm)
      have hw : s.pool.Writable m bytes.length := by
        intro hext href
        unfold mTrailingspace at hroom
        rw [if_pos hext, if_pos href] at hroom
        exact Nat.le_zero.1 hroom
      have ht := touches_store s.pool m (s.pool.mbufs m).mLen bytes
      have hspares : Spares s.pool (s.pool.store m (s.pool.mbufs m).mLen bytes) :=
        spares_store hsound hmA hw
      generalize s.pool.store m (s.pool.mbufs m).mLen bytes = pool at ht hspares ⊢
      have he : Edits pool (pool.modify m fun b => { b with mLen := b.mLen + bytes.length }) :=
        edits_data pool m _ _ _ _
      exact ⟨(hsound.touch ht).edit he, hspares⟩
    · exact ⟨hsound, spares_of_eq rfl⟩

lemma call_copym (i off len : ℕ) : s.Returns (s.call (.copym i off len)) := by
  apply onChain_spec h
  intro chain A hchain hsound
  have hmem : ∀ m ∈ chain, m ∈ chain ++ A := fun m hm => mem_append_left A hm
  rcases mCopym_spec hsound hmem off len with herr | ⟨pool, top, heq, hpool, hmcl⟩
  · rw [herr]
    exact .inl rfl
  rw [heq]
  refine .inr ⟨pool, [top, chain], rfl, ?_, spares_of_eq hmcl⟩
  rwa [flatten_cons, flatten_singleton, append_assoc]

lemma call_split {len : ℕ} (hp : s.Proper (.split i len)) : s.Returns (s.call (.split i len)) := by
  apply onChain_spec h
  intro chain A hchain hsound
  obtain ⟨pool, front, tail, heq, hpool, hmcl⟩ :=
    mSplit_spec hsound (hp chain hchain) (Nat.lt_succ_self s.pool.spare)
  rw [heq]
  refine Or.inr ⟨pool, [front, tail], rfl, ?_, spares_of_eq hmcl⟩
  rwa [flatten_cons, flatten_singleton]

lemma call_pullup (i len : ℕ) : s.Returns (s.call (.pullup i len)) := by
  apply onChain_one h
  intro chain A hchain hsound
  obtain ⟨pool, r, heq, hpool, hmcl⟩ := mPullup_spec hsound len
  rw [heq]
  exact ⟨pool, r, rfl, hpool, spares_of_eq hmcl⟩

lemma call_prepend (i : ℕ) (bytes : List UInt8) : s.Returns (s.call (.prepend i bytes)) := by
  apply onChain_one h
  intro chain A hchain hsound
  obtain ⟨pool, r, heq, hpool, hmcl, hw⟩ := prepend_spec hsound bytes.length
  unfold prependBytes
  rw [heq]
  cases r with
  | nil => exact ⟨pool, [], rfl, hpool, spares_of_eq hmcl⟩
  | cons m rest =>
    have hspares : Spares pool (pool.store m 0 bytes) :=
      spares_store hpool mem_cons_self (hw m rfl).1
    exact ⟨_, m :: rest, rfl, hpool.touch (touches_store pool m 0 bytes),
      hspares.of_keeps (hw m rfl).2 hmcl⟩

lemma call_cat (i j : ℕ) : s.Returns (s.call (.cat i j)) := by
  unfold call
  dsimp only
  split
  next chain other hchain hother =>
    have hperm : s.chains.flatten.Perm
        (chain ++ (other ++ ((s.chains.eraseIdx i).eraseIdx j).flatten)) := by
      rw [← flatten_cons, ← flatten_cons]
      exact ((Census.perm hchain).trans ((Census.perm hother).cons chain)).flatten
    obtain ⟨pool, r, heq, hpool, hmcl⟩ := mCat_spec (MbufPool.Sound.perm h hperm)
    rw [heq]
    exact .inr ⟨_, rfl, hpool, spares_of_eq hmcl⟩
  · exact .inr ⟨s, rfl, h, spares_of_eq rfl⟩

lemma call_adj (i : ℕ) (req : ℤ) : s.Returns (s.call (.adj i req)) := by
  apply onChain_one h
  intro chain A hchain hsound
  have he := edits_mAdj s.pool chain req
  exact ⟨_, chain, rfl, hsound.edit he, spares_of_eq he.mcl⟩

lemma call_free (i : ℕ) : s.Returns (s.call (.free i)) := by
  apply onChain_spec h
  intro chain A hchain hsound
  cases chain with
  | nil => exact .inr ⟨s.pool, [], rfl, hsound, spares_of_eq rfl⟩
  | cons m rest =>
    obtain ⟨pool, heq, hpool, hmcl, -⟩ := mFree_spec hsound
    dsimp only
    rw [heq]
    refine .inr ⟨pool, [rest], rfl, ?_, spares_of_eq hmcl⟩
    rwa [flatten_singleton]

lemma call_freem (i : ℕ) : s.Returns (s.call (.freem i)) := by
  apply onChain_spec h
  intro chain A hchain hsound
  obtain ⟨pool, heq, hpool, hmcl⟩ := mFreem_spec hsound
  rw [heq]
  exact .inr ⟨pool, [], rfl, hpool, spares_of_eq hmcl⟩

lemma call_spec (hp : s.Proper c) : s.Returns (s.call c) := by
  cases c with
  | get hdr => exact call_get h hdr
  | mclget i j => exact call_mclget h hp
  | append i bytes => exact call_append h i bytes
  | copym i off len => exact call_copym h i off len
  | split i len => exact call_split h hp
  | pullup i len => exact call_pullup h i len
  | prepend i bytes => exact call_prepend h i bytes
  | cat i j => exact call_cat h i j
  | adj i req => exact call_adj h i req
  | free i => exact call_free h i
  | freem i => exact call_freem h i

end

/-! ### Runs -/

def Step (s s' : MbufSystem) : Prop := ∃ c, s.Proper c ∧ s.call c = .ok s'

def Run : MbufSystem → MbufSystem → Prop := Relation.ReflTransGen Step

lemma Step.sound (hstep : Step s s') (h : s.Sound) : s'.Sound := by
  obtain ⟨c, hp, heq⟩ := hstep
  rcases call_spec h hp with herr | ⟨s1, heq1, hsound, -⟩
  · cases herr.symm.trans heq
  · cases heq1.symm.trans heq
    exact hsound

lemma Run.sound (hrun : Run s s') (h : s.Sound) : s'.Sound := by
  induction hrun with
  | refl => exact h
  | tail _ hstep ih => exact hstep.sound ih

/-- No memory has been taken yet; what will be found in it is `dat` and `mcl`. -/
def boot (supply : List ℕ) (maxProtohdr : ℕ) (dat mcl : ℕ → List UInt8) : MbufSystem where
  pool :=
    { mbufs       := fun m => ⟨.raw, false, false, 0, 0, ⟨0, 0, 0, 0⟩, dat m⟩
      mfree       := []
      mclfree     := []
      mclrefcnt   := fun _ => -1
      mClusters   := 0
      mcl         := mcl
      supply      := supply
      maxProtohdr := maxProtohdr }
  chains := []

end MbufSystem

open MbufPool

instance (s : MbufPool) (m k : ℕ) : Decidable (s.Refers m k) :=
  inferInstanceAs (Decidable ((s.mbufs m).mType = .used ∧ (s.mbufs m).isExt = true ∧ _))

instance (s : MbufPool) (chain : List ℕ) (len0 : ℕ) : Decidable (s.SplitOk chain len0) :=
  match h : s.splitPoint chain len0 with
  | none => isTrue fun _ _ _ _ heq => nomatch h.symm.trans heq
  | some (_, m, _, len) =>
    if hok : (s.mbufs m).isExt = true →
        len = (s.mbufs m).mLen ∧ ∀ m0 ∈ chain.head?, (s.mbufs m0).isPkthdr = false
    then isTrue fun _ _ _ _ heq => by cases h.symm.trans heq; exact hok
    else isFalse fun hall => hok (hall _ _ _ _ h)

instance (s : MbufSystem) (c : MbufCall) : Decidable (s.Proper c) := by
  unfold MbufSystem.Proper
  split <;> infer_instance

def MbufSystem.calls (s : MbufSystem) : List MbufCall → Option MbufSystem
  | [] => some s
  | c :: cs =>
    if s.Proper c then
      match s.call c with
      | .ok s => s.calls cs
      | .error _ => none
    else none

def MbufSystem.stop (s : MbufSystem) (c : MbufCall) : Option MbufStop :=
  match s.call c with
  | .ok _ => none
  | .error e => some e

/-- Each cluster in use has a ring of just the mbufs that refer to it and is counted once, and each
one that no mbuf refers to any more is on the free list, unless it was cut up into mbufs. -/
structure MbufPool.Shared (s : MbufPool) : Prop where
  ring : ∀ m k, s.Refers m k → ∃ l, s.links.Ring m l ∧ ∀ x, x ∈ m :: l ↔ s.Refers x k
  count : ∀ k, s.InUse k → s.mclrefcnt k = 1 ∧ k ∉ s.mclfree
  freed : ∀ k < s.mClusters, ¬ s.Cut k → ¬ s.InUse k → s.mclrefcnt k = 0 ∧ k ∈ s.mclfree

lemma MbufPool.Sound.shared {s : MbufPool} {A : List ℕ} (h : s.Sound A []) : s.Shared where
  ring := h.ring
  count k hk := ⟨(h.inUse k hk).1, (h.inUse k hk).2.1⟩
  freed := by
    intro k hk hcut huse
    rcases h.covered k hk with hfree | hold | hold | hspare
    · exact ⟨(h.listed k hfree).1, hfree⟩
    · exact absurd hold hcut
    · exact absurd hold huse
    · cases hspare

def copied : List MbufCall :=
  [.get false, .mclget 0 0, .append 0 [1, 2, 3], .copym 0 1 2, .prepend 0 [9]]

end Rhapsody.Bsd
