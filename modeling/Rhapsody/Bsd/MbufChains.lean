import Rhapsody.Bsd.MbufPool

/-! The operations on chains. Each returns, or stops in one of its own panics, with the mbufs it
was given and those it made accounted for; none writes to a cluster. -/

namespace Rhapsody.Bsd

open List

namespace MbufPool

variable {s s' : MbufPool} {A chain rest : List ℕ} {m n k : ℕ}

/-! ### Changes to the data of mbufs -/

structure Edits (s s' : MbufPool) : Prop extends Touches s s' where
  mcl : s'.mcl = s.mcl

lemma Edits.refl (s : MbufPool) : Edits s s := ⟨Touches.refl s, rfl⟩

variable {s'' : MbufPool} {hdr : Bool} {other after : List ℕ} {len : ℤ} {len0 : ℕ}

lemma Edits.trans (h : Edits s s') (h' : Edits s' s'') : Edits s s'' :=
  ⟨h.toTouches.trans h'.toTouches, h'.mcl.trans h.mcl⟩

lemma edits_data (s : MbufPool) (m : ℕ) (hdr : Mbuf → Bool) (len data : Mbuf → ℕ)
    (dat : Mbuf → List UInt8) :
    Edits s (s.modify m fun b =>
      { b with isPkthdr := hdr b, mLen := len b, mData := data b, mDat := dat b }) := by
  refine ⟨⟨?_, ?_, ?_, rfl, rfl, rfl, rfl⟩, rfl⟩
  all_goals exact modify_proj (by intro; rfl) s m

lemma edits_store (hm : (s.mbufs m).isExt = false) (off : ℕ) (bytes : List UInt8) :
    Edits s (s.store m off bytes) := by
  unfold store
  dsimp only
  rw [hm]
  rw [if_neg Bool.false_ne_true]
  exact edits_data s m _ _ _ _

lemma touches_store (s : MbufPool) (m off : ℕ) (bytes : List UInt8) :
    Touches s (s.store m off bytes) := by
  unfold store
  dsimp only
  split
  · exact ⟨fun _ => rfl, fun _ => rfl, fun _ => rfl, rfl, rfl, rfl, rfl⟩
  · exact (edits_data s m _ _ _ _).toTouches

@[simp] lemma mLen_store (s : MbufPool) (m off : ℕ) (bytes : List UInt8) (i : ℕ) :
    ((s.store m off bytes).mbufs i).mLen = (s.mbufs i).mLen := by
  unfold store
  dsimp only
  split
  · rfl
  rw [modify_mbufs]
  split
  next hi => rw [hi]
  · rfl

lemma edits_copyPkthdr (hm : (s.mbufs m).isExt = false) (n : ℕ) : Edits s (s.copyPkthdr m n) := by
  unfold copyPkthdr
  refine ⟨⟨?_, ?_, ?_, rfl, rfl, rfl, rfl⟩, rfl⟩
  · intro i
    rw [modify_mbufs]
    split
    next hi => rw [hi]
    · rfl
  · intro i
    rw [modify_mbufs]
    split
    next hi => rw [hi, hm]
    · rfl
  intro i
  rw [modify_mbufs]
  split
  next hi => rw [hi]
  · rfl

lemma edits_align (s : MbufPool) (m room len : ℕ) : Edits s (s.align m room len) :=
  edits_data s m _ _ _ _

lemma mLen_align (s : MbufPool) (m room len i : ℕ) :
    ((s.align m room len).mbufs i).mLen = (s.mbufs i).mLen := by
  unfold align
  rw [modify_mbufs]
  split
  next hi => rw [hi]
  · rfl

lemma Sound.edit {B : List ℕ} (h : s.Sound A B) (he : Edits s s') : s'.Sound A B :=
  h.touch he.toTouches

/-! ### Writing -/

def Spares (s s' : MbufPool) : Prop :=
  ∀ k x y, x ≠ y → s.Refers x k → s.Refers y k → s'.mcl k = s.mcl k

lemma spares_of_eq (h : s'.mcl = s.mcl) : Spares s s' := fun k _ _ _ _ _ => congrFun h k

def Keeps (s s' : MbufPool) : Prop := ∀ x k, s.Refers x k → s'.Refers x k

lemma Touches.keeps (h : Touches s s') : Keeps s s' := by
  rintro x k ⟨hlive, hext, hbuf⟩
  exact ⟨(h.mType x).trans hlive, (h.isExt x).trans hext, (congrArg _ (h.mExt x)).trans hbuf⟩

lemma Fresh.keeps (h : Fresh s s' hdr m) : Keeps s s' := by
  rintro x k ⟨hlive, hrefers⟩
  unfold Refers Live
  rw [h.others x hlive]
  exact ⟨hlive, hrefers⟩

lemma Spares.of_keeps (h : Spares s' s'') (hk : Keeps s s') (hmcl : s'.mcl = s.mcl) :
    Spares s s'' := by
  intro k x y hne hx hy
  rw [h k x y hne (hk x k hx) (hk y k hy), hmcl]

lemma hasReference_congr (h : (s'.mbufs m).mExt = (s.mbufs m).mExt) :
    s'.hasReference m = s.hasReference m := by
  unfold hasReference
  rw [h]

def Writable (s : MbufPool) (m len : ℕ) : Prop :=
  (s.mbufs m).isExt = true → s.hasReference m = true → len = 0

lemma overwrite_nil (a : List UInt8) (i : ℕ) : overwrite a i [] = a := by
  unfold overwrite
  rw [append_nil]
  exact take_append_drop i a

lemma Sound.alone (h : s.Sound A []) (hm : s.Refers m k) (href : ¬ s.hasReference m = true)
    {x : ℕ} (hx : s.Refers x k) : x = m := by
  obtain ⟨l, hring, hmem⟩ := h.ring m k hm
  have hself : (s.mbufs m).mExt.forward = m := by
    unfold hasReference at href
    rwa [decide_eq_true_iff, not_not] at href
  have hxl := (hmem x).2 hx
  cases l with
  | nil => exact mem_singleton.1 hxl
  | cons y l =>
    -- the mbuf after `m` on the ring is `m`, though the ring names no mbuf twice
    have hy : y = m := hring.path.1.symm.trans hself
    exact absurd (hy ▸ mem_cons_self) (nodup_cons.1 hring.nodup).1

lemma spares_store {off : ℕ} {bytes : List UInt8} (h : s.Sound A []) (hm : m ∈ A)
    (hw : s.Writable m bytes.length) : Spares s (s.store m off bytes) := by
  intro k x y hne hx hy
  unfold store
  dsimp only
  split
  next hext =>
    show Function.update s.mcl _ _ k = _
    rw [Function.update_apply]
    split
    next hk =>
      have hrefers : s.Refers m k := ⟨(h.owned m).1 hm, hext, hk.symm⟩
      have href : s.hasReference m = true := by
        by_contra href
        exact hne ((h.alone hrefers href hx).trans (h.alone hrefers href hy).symm)
      rw [length_eq_zero_iff.1 (hw hext href), overwrite_nil, hk]
    · rfl
  · rfl

/-- The result is a chain that is owned besides `A`, and the clusters are as they were. -/
abbrev Yields (s : MbufPool) (A : List ℕ) (x : Except MbufStop (MbufPool × List ℕ)) : Prop :=
  ∃ s' r, x = .ok (s', r) ∧ s'.Sound (r ++ A) [] ∧ s'.mcl = s.mcl

/-! ### Freeing -/

lemma mFreem_spec (h : s.Sound (chain ++ A) []) :
    ∃ s', s.mFreem chain = .ok s' ∧ s'.Sound A [] ∧ s'.mcl = s.mcl := by
  induction chain generalizing s with
  | nil => exact ⟨s, rfl, h, rfl⟩
  | cons m chain ih =>
    obtain ⟨s1, heq, hsound, hmcl, -⟩ := mFree_spec h
    obtain ⟨s2, heq2, hsound2, hmcl2⟩ := ih hsound
    refine ⟨s2, ?_, hsound2, hmcl2.trans hmcl⟩
    unfold mFreem at heq2 ⊢
    rw [foldlM_cons, heq]
    exact heq2

/-! ### Copying -/

lemma copyOne_spec (h : s.Sound A []) (hn : n ∈ A) (hm : m ∈ A)
    (hext : (s.mbufs n).isExt = false) (off len : ℕ) (copyhdr : Bool) :
    (s.copyOne n m off len copyhdr).Sound A [] ∧ (s.copyOne n m off len copyhdr).mcl = s.mcl := by
  unfold copyOne
  dsimp only
  generalize hs1 : (if copyhdr = true then s.copyPkthdr n m else s) = s1
  have he1 : Edits s s1 := by
    rw [← hs1]
    split
    · exact edits_copyPkthdr hext m
    · exact Edits.refl s
  generalize (if min len ((s1.mbufs m).mLen - off) = mCopyAll then mhlen
    else min len ((s1.mbufs m).mLen - off)) = count
  generalize hs2 : (s1.modify n fun b => { b with mLen := count }) = s2
  have he2 : Edits s s2 := by
    rw [← hs2]
    exact he1.trans (edits_data s1 n _ _ _ _)
  have hn2 : (s2.mbufs n).isExt = false := (he2.isExt n).trans hext
  have hsound2 := h.edit he2
  split
  next hmext =>
    have hrefers : s2.Refers m (s2.mbufs m).mExt.extBuf := ⟨(hsound2.owned m).1 hm, hmext, rfl⟩
    refine ⟨hsound2.shareRef hn hn2 hrefers, ?_⟩
    exact ((relinks_insque _ n m).mcl).trans he2.mcl
  · have he := he2.trans (edits_store hn2 0 (s2.load m off count))
    exact ⟨h.edit he, he.mcl⟩

lemma copyLoop_spec {top : List ℕ} (h : s.Sound (top ++ A) []) (hchain : ∀ m ∈ chain, m ∈ A)
    (off len : ℕ) (copyhdr : Bool) :
    s.copyLoop chain off len copyhdr top = .error .copym ∨
      s.Yields A (s.copyLoop chain off len copyhdr top) := by
  induction chain generalizing s top off len copyhdr with
  | nil =>
    unfold copyLoop
    split
    · exact .inr ⟨s, top, rfl, h, rfl⟩
    dsimp only
    split
    · exact .inl rfl
    · exact .inr ⟨s, top, rfl, h, rfl⟩
  | cons m rest ih =>
    unfold copyLoop
    split
    · exact .inr ⟨s, top, rfl, h, rfl⟩
    dsimp only
    rcases mget_spec h false with ⟨s1, heq, hsound, hmcl⟩ | ⟨s1, n, heq, hsound, hfresh⟩
    · obtain ⟨s2, heq2, hsound2, hmcl2⟩ := mFreem_spec hsound
      rw [heq]
      dsimp only [bind, Except.bind]
      rw [heq2]
      exact .inr ⟨s2, [], rfl, hsound2, hmcl2.trans hmcl⟩
    rw [heq]
    have hmA : m ∈ n :: (top ++ A) :=
      mem_cons_of_mem n (mem_append_right top (hchain m mem_cons_self))
    obtain ⟨hsound2, hmcl2⟩ := copyOne_spec hsound mem_cons_self hmA hfresh.isExt off len copyhdr
    have hperm : (n :: (top ++ A)).Perm (top ++ [n] ++ A) := by
      rw [append_assoc]
      exact perm_middle.symm
    have hrest : ∀ x ∈ rest, x ∈ A := fun x hx => hchain x (mem_cons_of_mem m hx)
    rcases ih (hsound2.perm hperm) hrest 0 _ false with herr | ⟨s', r, heq', hsound', hmcl'⟩
    · exact .inl herr
    · exact .inr ⟨s', r, heq', hsound', hmcl'.trans (hmcl2.trans hfresh.mcl)⟩

lemma skip_spec (hchain : ∀ m ∈ chain, m ∈ A) (off : ℕ) : s.skip chain off = .error .copym ∨
      ∃ c o, s.skip chain off = .ok (c, o) ∧ ∀ m ∈ c, m ∈ A := by
  induction chain generalizing off with
  | nil =>
    cases off with
    | zero => exact .inr ⟨[], 0, rfl, hchain⟩
    | succ off => exact .inl rfl
  | cons m rest ih =>
    cases off with
    | zero => exact .inr ⟨m :: rest, 0, rfl, hchain⟩
    | succ off =>
      unfold skip
      split
      · exact .inr ⟨m :: rest, off + 1, rfl, hchain⟩
      · exact ih (fun x hx => hchain x (mem_cons_of_mem m hx)) _

lemma mCopym_spec (h : s.Sound A []) (hchain : ∀ m ∈ chain, m ∈ A) (off len : ℕ) :
    s.mCopym chain off len = .error .copym ∨ s.Yields A (s.mCopym chain off len) := by
  unfold mCopym
  rcases skip_spec hchain off with herr | ⟨c, o, heq, hc⟩
  · rw [herr]
    exact .inl rfl
  · rw [heq]
    exact copyLoop_spec h hc o len _

/-! ### Joining and cutting -/

lemma catLoop_spec (h : s.Sound (other ++ A) []) : s.Yields A (s.catLoop m other) := by
  induction other generalizing s with
  | nil => exact ⟨s, [], rfl, h, rfl⟩
  | cons n rest ih =>
    unfold catLoop
    dsimp only
    split
    · exact ⟨s, n :: rest, rfl, h, rfl⟩
    next hcond =>
      have hm : (s.mbufs m).isExt = false := by
        apply eq_false_of_ne_true
        exact fun hext => hcond (.inl hext)
      have he := edits_store hm (s.mbufs m).mLen (s.load n 0 (s.mbufs n).mLen)
      generalize s.store m (s.mbufs m).mLen (s.load n 0 (s.mbufs n).mLen) = s1 at he ⊢
      have he' : Edits s (s1.modify m fun b => { b with mLen := b.mLen + (s1.mbufs n).mLen }) :=
        he.trans (edits_data s1 m _ _ _ _)
      obtain ⟨s2, heq2, hsound2, hmcl2, -⟩ := mFree_spec (h.edit he')
      rw [heq2]
      obtain ⟨s', r, heq', hsound', hmcl'⟩ := ih hsound2
      exact ⟨s', r, heq', hsound', hmcl'.trans (hmcl2.trans he'.mcl)⟩

lemma mCat_spec (h : s.Sound (chain ++ (other ++ A)) []) : s.Yields A (s.mCat chain other) := by
  unfold mCat
  split
  next hnone =>
    rw [getLast?_eq_none_iff] at hnone
    subst hnone
    exact ⟨s, other, rfl, h, rfl⟩
  next m _ =>
    have hperm : (chain ++ (other ++ A)).Perm (other ++ (chain ++ A)) :=
      perm_append_comm_assoc chain other A
    obtain ⟨s', r, heq, hsound, hmcl⟩ := catLoop_spec (m := m) (h.perm hperm)
    rw [heq]
    refine ⟨s', chain ++ r, rfl, hsound.perm ?_, hmcl⟩
    rw [append_assoc]
    exact perm_append_comm_assoc r chain A

lemma edits_adjHead (s : MbufPool) (chain : List ℕ) (len : ℕ) : Edits s (s.adjHead chain len) := by
  induction chain generalizing s len with
  | nil => exact Edits.refl s
  | cons m rest ih =>
    unfold adjHead
    split
    · exact Edits.refl s
    split
    · exact (edits_data s m _ _ _ _).trans (ih _ _)
    · exact edits_data s m _ _ _ _

lemma edits_foldl (s : MbufPool) (l : List ℕ) :
    Edits s (l.foldl (fun s n => s.modify n fun b => { b with mLen := 0 }) s) := by
  induction l generalizing s with
  | nil => exact Edits.refl s
  | cons m rest ih =>
    exact (edits_data s m _ _ _ _).trans (ih _)

lemma edits_adjCount (s : MbufPool) (chain : List ℕ) (count : ℕ) :
    Edits s (s.adjCount chain count) := by
  induction chain generalizing s count with
  | nil => exact Edits.refl s
  | cons m rest ih =>
    unfold adjCount
    split
    · exact (edits_data s m _ _ _ _).trans (edits_foldl _ _)
    · exact ih s _

lemma edits_mAdj (s : MbufPool) (chain : List ℕ) (req : ℤ) : Edits s (s.mAdj chain req) := by
  unfold mAdj
  split
  · exact edits_adjHead s chain _
  split
  · exact Edits.refl s
  dsimp only
  split
  · exact edits_data s _ _ _ _ _
  · exact edits_adjCount s chain _

/-! ### `m_pullup` -/

lemma pullLoop_spec {space : ℕ} (h : s.Sound (chain ++ A) []) (hm : m ∈ A)
    (hext : (s.mbufs m).isExt = false) (hspace : len ≤ space) :
    ∃ s' r len', s.pullLoop m chain len space = .ok (s', r, len') ∧ s'.Sound (r ++ A) [] ∧
      s'.mcl = s.mcl := by
  induction chain generalizing s len space with
  | nil => exact ⟨s, [], len, rfl, h, rfl⟩
  | cons n rest ih =>
    unfold pullLoop
    dsimp only
    generalize hcount : min (min (max len.toNat s.maxProtohdr) space) (s.mbufs n).mLen = count
    generalize hs1 : s.store m (s.mbufs m).mLen (s.load n 0 count) = s1
    generalize hs2 : (s1.modify m fun b => { b with mLen := b.mLen + count }) = s2
    generalize hs3 : (s2.modify n fun b => { b with mLen := b.mLen - count }) = s3
    have he1 : Edits s s1 := hs1 ▸ edits_store hext _ _
    have he2 : Edits s s2 := hs2 ▸ he1.trans (edits_data s1 m _ _ _ _)
    have he3 : Edits s s3 := hs3 ▸ he2.trans (edits_data s2 n _ _ _ _)
    have hne : m ≠ n := by
      have hnodup := h.nodup
      rw [cons_append, nodup_cons] at hnodup
      exact fun heq => hnodup.1 (heq ▸ mem_append_right rest hm)
    have hlen3 : (s3.mbufs n).mLen = (s.mbufs n).mLen - count := by
      rw [← hs3, modify_mbufs, if_pos rfl, ← hs2, modify_mbufs, if_neg hne.symm, ← hs1]
      exact congrArg (· - count) (mLen_store s m _ _ n)
    split
    next hlen =>
      -- the mbuf is not emptied only if the room or what is asked for is used up
      have hdone : ¬ 0 < len - count := by omega
      rw [if_neg hdone]
      have he4 : Edits s (s3.modify n fun b => { b with mData := b.mData + count }) :=
        he3.trans (edits_data s3 n _ _ _ _)
      exact ⟨_, n :: rest, _, rfl, h.edit he4, he4.mcl⟩
    · obtain ⟨s4, heq, hsound, hmcl, hframe⟩ := mFree_spec (h.edit he3)
      rw [heq]
      split
      · have hext4 : (s4.mbufs m).isExt = false := (hframe m hne).trans ((he3.isExt m).trans hext)
        have hspace4 : len - count ≤ (space - count : ℕ) := by omega
        obtain ⟨s', r, len', heq', hsound', hmcl'⟩ := ih hsound hext4 hspace4
        exact ⟨s', r, len', heq', hsound', hmcl'.trans (hmcl.trans he3.mcl)⟩
      · exact ⟨s4, rest, _, rfl, hsound, hmcl.trans he3.mcl⟩

lemma pullInto_spec (h : s.Sound (m :: (chain ++ A)) []) (hext : (s.mbufs m).isExt = false)
    (hspace : len ≤ (mlen - ((s.mbufs m).mData + (s.mbufs m).mLen) : ℕ)) :
    s.Yields A (s.pullInto m chain len) := by
  unfold pullInto
  dsimp only
  have hperm := h.perm perm_middle.symm
  obtain ⟨s1, r, len', heq, hsound, hmcl⟩ := pullLoop_spec hperm mem_cons_self hext hspace
  have hsound' := hsound.perm perm_middle
  rw [heq]
  dsimp only [bind, Except.bind]
  split
  · obtain ⟨s2, heq2, hsound2, hmcl2, -⟩ := mFree_spec hsound'
    obtain ⟨s3, heq3, hsound3, hmcl3⟩ := mFreem_spec hsound2
    rw [heq2]
    dsimp only
    rw [heq3]
    exact ⟨s3, [], rfl, hsound3, hmcl3.trans (hmcl2.trans hmcl)⟩
  · exact ⟨s1, m :: r, rfl, hsound', hmcl⟩

lemma edits_takePkthdr (hext : (s.mbufs m).isExt = false) (n : ℕ) :
    Edits s (if (s.mbufs n).isPkthdr = true then
      (s.copyPkthdr m n).modify n fun b => { b with isPkthdr := false } else s) := by
  split
  · exact (edits_copyPkthdr hext n).trans (edits_data _ n _ _ _ _)
  · exact Edits.refl s

lemma room_takePkthdr (hne : m ≠ n) (hdata : (s.mbufs m).mData ≤ pktdat) {s₁ : MbufPool}
    (heq : (if (s.mbufs n).isPkthdr = true then
      (s.copyPkthdr m n).modify n fun b => { b with isPkthdr := false } else s) = s₁) :
    (s₁.mbufs m).mLen = (s.mbufs m).mLen ∧ (s₁.mbufs m).mData ≤ pktdat := by
  rw [← heq]
  split
  · rw [modify_mbufs, if_neg hne]
    unfold copyPkthdr
    rw [modify_mbufs, if_pos rfl]
    exact ⟨rfl, le_rfl⟩
  · exact ⟨rfl, hdata⟩

lemma mPullup_spec (h : s.Sound (chain ++ A) []) (len : ℕ) : s.Yields A (s.mPullup chain len) := by
  cases chain with
  | nil => exact ⟨s, [], rfl, h, rfl⟩
  | cons n rest =>
    unfold mPullup
    dsimp only
    split
    · rename_i hfirst
      split
      · exact ⟨s, n :: rest, rfl, h, rfl⟩
      rename_i hlen
      apply pullInto_spec h hfirst.1
      omega
    split
    · obtain ⟨s1, heq, hsound, hmcl⟩ := mFreem_spec h
      rw [heq]
      exact ⟨s1, [], rfl, hsound, hmcl⟩
    rename_i hlen
    rcases mget_spec h false with ⟨s1, heq, hsound, hmcl⟩ | ⟨s1, m, heq, hsound, hfresh⟩
    · obtain ⟨s2, heq2, hsound2, hmcl2⟩ := mFreem_spec hsound
      rw [heq]
      dsimp only [bind, Except.bind]
      rw [heq2]
      exact ⟨s2, [], rfl, hsound2, hmcl2.trans hmcl⟩
    rw [heq]
    dsimp only [bind, Except.bind]
    generalize hs2 : (s1.modify m fun b => { b with mLen := 0 }) = s2
    have he2 : Edits s1 s2 := hs2 ▸ edits_data s1 m _ _ _ _
    have hext2 : (s2.mbufs m).isExt = false := (he2.isExt m).trans hfresh.isExt
    have hm2 : (s2.mbufs m).mLen = 0 ∧ (s2.mbufs m).mData = 0 := by
      rw [← hs2, modify_mbufs, if_pos rfl]
      exact ⟨rfl, hfresh.mData⟩
    generalize hs3 : (if (s2.mbufs n).isPkthdr = true then
      (s2.copyPkthdr m n).modify n fun b => { b with isPkthdr := false } else s2) = s3
    have he3 : Edits s1 s3 := he2.trans (hs3 ▸ edits_takePkthdr hext2 n)
    have hne : m ≠ n := by
      have hnodup := hsound.nodup
      rw [nodup_cons] at hnodup
      exact fun heq => hnodup.1 (heq ▸ mem_cons_self)
    obtain ⟨hlen3, hdata3⟩ := room_takePkthdr hne (hm2.2 ▸ Nat.zero_le _) hs3
    have hspace : (len : ℤ) ≤ (mlen - ((s3.mbufs m).mData + (s3.mbufs m).mLen) : ℕ) := by
      unfold mlen
      unfold mhlen at hlen
      unfold pktdat at hdata3
      omega
    have hext3 : (s3.mbufs m).isExt = false := (he3.isExt m).trans hfresh.isExt
    obtain ⟨s', r, heq', hsound', hmcl'⟩ := pullInto_spec (hsound.edit he3) hext3 hspace
    exact ⟨s', r, heq', hsound', hmcl'.trans (he3.mcl.trans hfresh.mcl)⟩

lemma mPrepend_spec (h : s.Sound (chain ++ A) []) (len : ℕ) :
    ∃ s' r, s.mPrepend chain len = .ok (s', r) ∧ s'.Sound (r ++ A) [] ∧ s'.mcl = s.mcl ∧
      ∀ m ∈ r.head?, (s'.mbufs m).isExt = false ∧ Keeps s s' := by
  unfold mPrepend
  rcases mget_spec h false with ⟨s1, heq, hsound, hmcl⟩ | ⟨s1, mn, heq, hsound, hfresh⟩
  · obtain ⟨s2, heq2, hsound2, hmcl2⟩ := mFreem_spec hsound
    rw [heq]
    dsimp only [bind, Except.bind]
    rw [heq2]
    exact ⟨s2, [], rfl, hsound2, hmcl2.trans hmcl, nofun⟩
  rw [heq]
  dsimp only [bind, Except.bind]
  cases chain with
  | nil =>
    refine ⟨s1, [mn], rfl, hsound, hfresh.mcl, fun m hm => ?_⟩
    cases hm
    exact ⟨hfresh.isExt, hfresh.keeps⟩
  | cons m rest =>
    dsimp only
    have he1 := edits_takePkthdr hfresh.isExt m
    generalize (if (s1.mbufs m).isPkthdr = true then
      (s1.copyPkthdr mn m).modify m fun b => { b with isPkthdr := false } else s1) = s2 at he1 ⊢
    generalize hs3 : (if len < mhlen then s2.align mn mhlen len else s2) = s3
    have he2 : Edits s1 s3 := by
      rw [← hs3]
      split
      · exact he1.trans (edits_align s2 mn mhlen len)
      · exact he1
    have he3 : Edits s1 (s3.modify mn fun b => { b with mLen := len }) :=
      he2.trans (edits_data s3 mn _ _ _ _)
    refine ⟨_, mn :: m :: rest, rfl, hsound.edit he3, he3.mcl.trans hfresh.mcl, ?_⟩
    intro x hx
    cases hx
    refine ⟨(he3.isExt mn).trans hfresh.isExt, fun x k hrefers => ?_⟩
    exact he3.toTouches.keeps x k (hfresh.keeps x k hrefers)

lemma prepend_spec (h : s.Sound (chain ++ A) []) (plen : ℕ) :
    ∃ s' r, s.prepend chain plen = .ok (s', r) ∧ s'.Sound (r ++ A) [] ∧ s'.mcl = s.mcl ∧
      ∀ m ∈ r.head?, s'.Writable m plen ∧ Keeps s s' := by
  unfold prepend
  split
  · exact ⟨s, [], rfl, h, rfl, nofun⟩
  next m rest =>
    split
    next hroom =>
      have he : Edits s (s.modify m fun b =>
          { b with mData := b.mData - plen, mLen := b.mLen + plen }) := edits_data s m _ _ _ _
      refine ⟨_, m :: rest, rfl, h.edit he, he.mcl, fun x hx => ?_⟩
      cases hx
      refine ⟨fun hext href => ?_, he.toTouches.keeps⟩
      rw [he.isExt] at hext
      rw [hasReference_congr (he.mExt m)] at href
      unfold mLeadingspace at hroom
      rw [if_pos hext, if_pos href] at hroom
      exact Nat.le_zero.1 hroom
    · obtain ⟨s', r, heq, hsound, hmcl, hhead⟩ := mPrepend_spec h plen
      refine ⟨s', r, heq, hsound, hmcl, fun m hm => ⟨fun hext => ?_, (hhead m hm).2⟩⟩
      rw [(hhead m hm).1] at hext
      cases hext

/-! ### What is left to allocate -/

lemma spare_clAdd {got : ℕ} (h : clAdd got s = .ok s') : s'.spare = s.spare + nmbpcl * got := by
  induction got generalizing s with
  | zero =>
    cases h
    rfl
  | succ got ih =>
    unfold clAdd at h
    dsimp only at h
    split at h
    · cases h
    rw [ih h]
    unfold spare nmbpcl
    rw [length_cons]
    dsimp only
    omega

lemma spare_mClalloc (h : s.mClalloc = .ok s') : s'.spare = s.spare := by
  unfold mClalloc at h
  split at h
  · cases h
    rfl
  next got rest hsupply =>
    rw [spare_clAdd h]
    unfold spare nmbpcl
    rw [hsupply, sum_cons]
    dsimp only
    omega

lemma ok_of_bind {ε α β : Type} {x : Except ε α} {f : α → Except ε β} {b : β}
    (h : x.bind f = .ok b) : ∃ a, x = .ok a ∧ f a = .ok b := by
  cases x with
  | error e => cases h
  | ok a => exact ⟨a, rfl, h⟩

lemma spare_mclAlloc {o : Option ℕ} (h : s.mclAlloc = .ok (s', o)) :
    s'.spare + (if o.isSome then nmbpcl else 0) = s.spare := by
  obtain ⟨s1, hcl, h⟩ := ok_of_bind h
  rw [← spare_mClalloc hcl]
  split at h
  · cases h
    rfl
  next k rest hfree =>
    cases h
    unfold spare nmbpcl
    rw [hfree, length_cons]
    dsimp only
    rw [if_pos Option.isSome_some]
    omega

lemma length_cut (k : ℕ) : (cut k).length = nmbpcl := by
  unfold cut
  rw [length_reverse, length_map, length_range]

lemma spare_mExpand (h : s.mExpand = .ok s') : s'.spare = s.spare := by
  unfold mExpand at h
  split at h
  · cases h
    rfl
  obtain ⟨⟨s1, o⟩, hcl, h⟩ := ok_of_bind h
  rw [← spare_mclAlloc hcl]
  cases o with
  | none =>
    cases h
    rfl
  | some k =>
    cases h
    unfold spare
    dsimp only
    rw [length_append, length_cut, if_pos Option.isSome_some]
    omega

lemma spare_mintget (h : s.mintget hdr = (s', some m)) : s'.spare + 1 = s.spare := by
  unfold mintget at h
  split at h
  · cases h
  next x rest hfree =>
    cases h
    unfold spare
    rw [hfree, length_cons]
    dsimp only [modify]
    omega

lemma spare_mget (h : s.mget hdr = .ok (s', some m)) : s'.spare + 1 = s.spare := by
  unfold mget at h
  split at h
  next s1 x heq =>
    cases h
    exact spare_mintget heq
  next s1 heq =>
    have hs1 : s1 = s := by
      unfold mintget at heq
      split at heq
      · cases heq
        rfl
      · cases heq
    subst hs1
    obtain ⟨s2, hexp, h⟩ := ok_of_bind h
    rw [← spare_mExpand hexp]
    exact spare_mintget (Except.ok.inj h)

/-! ### `m_split` -/

lemma splitPoint_spec {before : List ℕ} {len : ℕ}
    (h : s.splitPoint chain len0 = some (before, m, after, len)) :
    chain = before ++ m :: after ∧ len ≤ (s.mbufs m).mLen := by
  induction chain generalizing before len0 with
  | nil => cases h
  | cons x rest ih =>
    unfold splitPoint at h
    split at h
    · obtain ⟨r, hr, heq⟩ := Option.map_eq_some_iff.1 h
      obtain ⟨pre, rest'⟩ := r
      cases heq
      obtain ⟨hchain, hlen⟩ := ih hr
      exact ⟨congrArg (x :: ·) hchain, hlen⟩
    cases h
    rename_i hlen
    exact ⟨rfl, Nat.le_of_not_lt hlen⟩

/-- A chain with no packet header that is divided between two mbufs, or in an mbuf without a
cluster. -/
def SplitOk (s : MbufPool) (chain : List ℕ) (len0 : ℕ) : Prop :=
  ∀ before m after len, s.splitPoint chain len0 = some (before, m, after, len) →
    (s.mbufs m).isExt = true →
      len = (s.mbufs m).mLen ∧ ∀ m0 ∈ chain.head?, (s.mbufs m0).isPkthdr = false

lemma edits_alignSplit (hn : (s.mbufs n).isExt = false) (hm : (s.mbufs m).isExt = false)
    (room remain len : ℕ) : Edits s ((s.align n room remain).splitData n m len) := by
  have he := edits_align s n room remain
  refine he.trans ?_
  unfold splitData
  dsimp only
  rw [if_neg (ne_true_of_eq_false ((he.isExt m).trans hm))]
  exact ((edits_store ((he.isExt n).trans hn) 0 _).trans (edits_data _ n _ _ _ _)).trans
    (edits_data _ m _ _ _ _)

lemma splitOk_first {len : ℕ} (hlen : len ≤ (s.mbufs m).mLen) (hm : (s.mbufs m).isExt = false) :
    s.SplitOk (m :: after) len := by
  intro before x rest l hpoint hx
  unfold splitPoint at hpoint
  rw [if_neg (not_lt.2 hlen)] at hpoint
  cases hpoint
  rw [hm] at hx
  cases hx

lemma mSplit_spec {fuel : ℕ} (h : s.Sound (chain ++ A) []) (hok : s.SplitOk chain len0)
    (hfuel : s.spare < fuel) :
    ∃ s' front tail, mSplit fuel s chain len0 = .ok (s', front, tail) ∧
      s'.Sound (front ++ tail ++ A) [] ∧ s'.mcl = s.mcl := by
  induction fuel generalizing s A chain len0 with
  | zero => exact absurd hfuel (Nat.not_lt_zero _)
  | succ fuel ih =>
    have hsame : s.Sound (chain ++ [] ++ A) [] := by rwa [append_nil]
    unfold mSplit
    split
    swap
    · exact ⟨s, _, [], rfl, hsame, rfl⟩
    rename_i m0 rest before m after len hpoint
    obtain ⟨hchain, hlen⟩ := splitPoint_spec hpoint
    have hmchain : m ∈ m0 :: rest := by
      rw [hchain]
      exact mem_append_right before mem_cons_self
    have hlive : s.Live m := (h.owned m).1 (mem_append_left A hmchain)
    -- the new mbuf stands after the one that is divided
    have hparts : ∀ n, (n :: (m0 :: rest ++ A)).Perm (before ++ [m] ++ n :: after ++ A) := by
      intro n
      rw [hchain, perm_iff_count]
      intro x
      simp only [count_append, count_cons, count_nil]
      omega
    dsimp only
    split
    next hpkt =>
      have hm : (s.mbufs m).isExt = false := by
        apply eq_false_of_ne_true
        intro hext
        have hnot := (hok before m after len hpoint hext).2 m0 rfl
        rw [hpkt] at hnot
        cases hnot
      rcases mget_spec h true with ⟨s1, heq, hsound, hmcl⟩ | ⟨s1, n, heq, hsound, hfresh⟩
      · rw [heq]
        refine ⟨s1, m0 :: rest, [], rfl, ?_, hmcl⟩
        rwa [append_nil]
      have hm1 : (s1.mbufs m).isExt = false := by rw [hfresh.others m hlive, hm]
      have hspare := spare_mget heq
      rw [heq]
      dsimp only [bind, Except.bind]
      rw [if_neg (ne_true_of_eq_false hm1)]
      split
      · have he := edits_align s1 n mhlen 0
        have hmlen : ((s1.align n mhlen 0).mbufs m).mLen = (s.mbufs m).mLen := by
          rw [mLen_align, hfresh.others m hlive]
        have hext := (he.isExt m).trans hm1
        have hspare1 : (s1.align n mhlen 0).spare = s1.spare := rfl
        have hperm : (n :: (m0 :: rest ++ A)).Perm (m :: after ++ n :: (before ++ A)) := by
          rw [hchain, perm_iff_count]
          intro x
          simp only [count_append, count_cons]
          omega
        obtain ⟨s2, front, tail, heq2, hsound2, hmcl2⟩ :=
          ih ((hsound.edit he).perm hperm) (splitOk_first (hmlen ▸ hlen) hext) (by omega)
        have hmcl' := hmcl2.trans (he.mcl.trans hfresh.mcl)
        rw [heq2]
        dsimp only
        split
        next htail =>
          subst htail
          have hperm2 : (front ++ [] ++ n :: (before ++ A)).Perm
              (n :: (before ++ front ++ [] ++ A)) := by
            rw [perm_iff_count]
            intro x
            simp only [count_append, count_cons]
            omega
          obtain ⟨s3, heq3, hsound3, hmcl3, -⟩ := mFree_spec (hsound2.perm hperm2)
          rw [heq3]
          exact ⟨s3, before ++ front, [], rfl, hsound3, hmcl3.trans hmcl'⟩
        · refine ⟨s2, before ++ front, n :: tail, rfl, hsound2.perm ?_, hmcl'⟩
          rw [perm_iff_count]
          intro x
          simp only [count_append, count_cons]
          omega
      · have he := edits_alignSplit (n := n) hfresh.isExt hm1 mhlen ((s.mbufs m).mLen - len) len
        exact ⟨_, _, _, rfl, (hsound.edit he).perm (hparts n), he.mcl.trans hfresh.mcl⟩
    · split
      · refine ⟨s, before ++ [m], after, rfl, h.perm ?_, rfl⟩
        rw [hchain]
        simp
      next hremain =>
        have hm : (s.mbufs m).isExt = false := by
          apply eq_false_of_ne_true
          intro hext
          have heq := (hok before m after len hpoint hext).1
          omega
        rcases mget_spec h false with ⟨s1, heq, hsound, hmcl⟩ | ⟨s1, n, heq, hsound, hfresh⟩
        · rw [heq]
          refine ⟨s1, m0 :: rest, [], rfl, ?_, hmcl⟩
          rwa [append_nil]
        have hm1 : (s1.mbufs m).isExt = false := by rw [hfresh.others m hlive, hm]
        have he := edits_alignSplit (n := n) hfresh.isExt hm1 mlen ((s.mbufs m).mLen - len) len
        rw [heq]
        exact ⟨_, _, _, rfl, (hsound.edit he).perm (hparts n), he.mcl.trans hfresh.mcl⟩

end MbufPool

end Rhapsody.Bsd
