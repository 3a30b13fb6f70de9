import Rhapsody.Bsd.Mbuf

/-! What holds of the pool between calls, for a list `A` of the mbufs in use and a list `B` of
clusters taken but not yet given to an mbuf. Allocation, sharing and freeing keep it, each
changing `A` or `B` by one. -/

namespace Rhapsody.Bsd

open Function List

namespace MbufPool

def Live (s : MbufPool) (m : ℕ) : Prop := (s.mbufs m).mType = .used

def Refers (s : MbufPool) (m k : ℕ) : Prop :=
  s.Live m ∧ (s.mbufs m).isExt = true ∧ (s.mbufs m).mExt.extBuf = k

def InUse (s : MbufPool) (k : ℕ) : Prop := ∃ m, s.Refers m k

def Cut (s : MbufPool) (k : ℕ) : Prop := (s.mbufs (k * nmbpcl)).mType ≠ .raw

structure Mbufs (s : MbufPool) (A : List ℕ) : Prop where
  owned : ∀ i, i ∈ A ↔ s.Live i
  nodup : A.Nodup
  page : ∀ i, (s.mbufs i).mType ≠ .raw ↔ s.Cut (i / nmbpcl)
  free : ∀ i ∈ s.mfree, (s.mbufs i).mType = .free
  freeNodup : s.mfree.Nodup

/-- A cluster is on the free list, or cut up, or in use, or in `B`, with the count that goes
with it. -/
structure Counts (s : MbufPool) (B : List ℕ) : Prop where
  inUse : ∀ k, s.InUse k → s.mclrefcnt k = 1 ∧ k ∉ s.mclfree ∧ ¬ s.Cut k ∧ k < s.mClusters
  listed : ∀ k ∈ s.mclfree, s.mclrefcnt k = 0 ∧ ¬ s.Cut k ∧ k < s.mClusters
  listedNodup : s.mclfree.Nodup
  spare : ∀ k ∈ B, s.mclrefcnt k = 1 ∧ k ∉ s.mclfree ∧ ¬ s.Cut k ∧ ¬ s.InUse k ∧ k < s.mClusters
  covered : ∀ k < s.mClusters, k ∈ s.mclfree ∨ s.Cut k ∨ s.InUse k ∨ k ∈ B
  fresh : ∀ k, s.mClusters ≤ k → s.mclrefcnt k = -1 ∧ ¬ s.Cut k

structure Clusters (s : MbufPool) (B : List ℕ) : Prop extends s.Counts B where
  ring : ∀ m k, s.Refers m k → ∃ l, s.links.Ring m l ∧ ∀ x, x ∈ m :: l ↔ s.Refers x k

structure Sound (s : MbufPool) (A B : List ℕ) : Prop extends s.Mbufs A, s.Clusters B

variable {s s' : MbufPool} {A A' B B' : List ℕ} {m n k : ℕ}

lemma Mbufs.congr (h : s.Mbufs A) (htype : ∀ i, (s'.mbufs i).mType = (s.mbufs i).mType)
    (hfree : s'.mfree = s.mfree) : s'.Mbufs A where
  owned := by
    intro i
    rw [h.owned, Live, Live, htype]
  nodup := h.nodup
  page := by
    intro i
    rw [Cut, htype, htype]
    exact h.page i
  free := by
    intro i hi
    rw [hfree] at hi
    rw [htype]
    exact h.free i hi
  freeNodup := by
    rw [hfree]
    exact h.freeNodup

lemma Mbufs.perm (h : s.Mbufs A) (hperm : A.Perm A') : s.Mbufs A' :=
  { h with
    owned := fun i => hperm.mem_iff.symm.trans (h.owned i)
    nodup := hperm.nodup_iff.1 h.nodup }

structure CountsAt (s : MbufPool) (B : List ℕ) (k : ℕ) : Prop where
  inUse : s.InUse k → s.mclrefcnt k = 1 ∧ k ∉ s.mclfree ∧ ¬ s.Cut k ∧ k < s.mClusters
  listed : k ∈ s.mclfree → s.mclrefcnt k = 0 ∧ ¬ s.Cut k ∧ k < s.mClusters
  spare : k ∈ B → s.mclrefcnt k = 1 ∧ k ∉ s.mclfree ∧ ¬ s.Cut k ∧ ¬ s.InUse k ∧ k < s.mClusters
  covered : k < s.mClusters → k ∈ s.mclfree ∨ s.Cut k ∨ s.InUse k ∨ k ∈ B
  fresh : s.mClusters ≤ k → s.mclrefcnt k = -1 ∧ ¬ s.Cut k

lemma Counts.at (h : s.Counts B) (k : ℕ) : s.CountsAt B k :=
  ⟨h.inUse k, h.listed k, h.spare k, h.covered k, h.fresh k⟩

lemma Counts.of_at (hnodup : s.mclfree.Nodup) (h : ∀ k, s.CountsAt B k) : s.Counts B :=
  ⟨fun k => (h k).inUse, fun k => (h k).listed, hnodup, fun k => (h k).spare,
    fun k => (h k).covered, fun k => (h k).fresh⟩

lemma CountsAt.congr (h : s.CountsAt B k) (huse : s'.InUse k ↔ s.InUse k)
    (hcut : s'.Cut k ↔ s.Cut k) (hfree : k ∈ s'.mclfree ↔ k ∈ s.mclfree) (hB : k ∈ B' ↔ k ∈ B)
    (hclusters : k < s'.mClusters ↔ k < s.mClusters)
    (hcount : ¬ s.Cut k → s'.mclrefcnt k = s.mclrefcnt k) : s'.CountsAt B' k := by
  constructor
  · intro hk
    obtain ⟨hk1, hrest⟩ := h.inUse (huse.1 hk)
    rw [hcount hrest.2.1, hfree, hcut, hclusters]
    exact ⟨hk1, hrest⟩
  · intro hk
    obtain ⟨hk0, hrest⟩ := h.listed (hfree.1 hk)
    rw [hcount hrest.1, hcut, hclusters]
    exact ⟨hk0, hrest⟩
  · intro hk
    obtain ⟨hk1, hrest⟩ := h.spare (hB.1 hk)
    rw [hcount hrest.2.1, hfree, hcut, huse, hclusters]
    exact ⟨hk1, hrest⟩
  · intro hk
    rw [hfree, hcut, huse, hB]
    exact h.covered (hclusters.1 hk)
  · intro hk
    obtain ⟨hk1, hkcut⟩ := h.fresh (not_lt.1 fun hlt => hk.not_gt (hclusters.2 hlt))
    rw [hcount hkcut, hcut]
    exact ⟨hk1, hkcut⟩

theorem Counts.change (h : s.Counts B) (hnodup : s'.mclfree.Nodup) (hk : s'.CountsAt B' k)
    (huse : ∀ j ≠ k, (s'.InUse j ↔ s.InUse j)) (hcut : ∀ j ≠ k, (s'.Cut j ↔ s.Cut j))
    (hfree : ∀ j ≠ k, (j ∈ s'.mclfree ↔ j ∈ s.mclfree)) (hB : ∀ j ≠ k, (j ∈ B' ↔ j ∈ B))
    (hclusters : ∀ j ≠ k, (j < s'.mClusters ↔ j < s.mClusters))
    (hcount : ∀ j ≠ k, ¬ s.Cut j → s'.mclrefcnt j = s.mclrefcnt j) : s'.Counts B' := by
  refine .of_at hnodup fun j => ?_
  by_cases hj : j = k
  · exact hj ▸ hk
  · exact (h.at j).congr (huse j hj) (hcut j hj) (hfree j hj) (hB j hj) (hclusters j hj)
      (hcount j hj)

lemma CountsAt.of_listed (h0 : s.mclrefcnt k = 0) (hfree : k ∈ s.mclfree) (hcut : ¬ s.Cut k)
    (huse : ¬ s.InUse k) (hB : k ∉ B) (hlt : k < s.mClusters) : s.CountsAt B k :=
  ⟨fun h => absurd h huse, fun _ => ⟨h0, hcut, hlt⟩, fun h => absurd h hB,
    fun _ => .inl hfree, fun h => absurd hlt h.not_gt⟩

theorem CountsAt.of_given (h1 : s.mclrefcnt k = 1) (hfree : k ∉ s.mclfree) (hlt : k < s.mClusters)
    (hcut : s.InUse k ∨ k ∈ B → ¬ s.Cut k) (huse : k ∈ B → ¬ s.InUse k)
    (hsome : s.Cut k ∨ s.InUse k ∨ k ∈ B) : s.CountsAt B k :=
  ⟨fun h => ⟨h1, hfree, hcut (.inl h), hlt⟩, fun h => absurd h hfree,
    fun h => ⟨h1, hfree, hcut (.inr h), huse h, hlt⟩, fun _ => .inr hsome,
    fun h => absurd hlt h.not_gt⟩

/-- Two pools in which the same mbufs refer to the same clusters, on the same rings. -/
structure SameRefs (s s' : MbufPool) : Prop where
  refers : ∀ x k, s'.Refers x k ↔ s.Refers x k
  links : s'.links = s.links
  cut : ∀ k, s'.Cut k ↔ s.Cut k
  mclfree : s'.mclfree = s.mclfree
  mClusters : s'.mClusters = s.mClusters
  count : ∀ k, ¬ s.Cut k → s'.mclrefcnt k = s.mclrefcnt k

theorem Clusters.keepRing (h : s.Clusters B) (hm : s.Refers m k) {P : ℕ → Prop}
    (hP : ∀ x, P x ↔ s.Refers x k) {L : Links ℕ}
    (hL : ∀ x, s.Refers x k → L.fwd x = s.links.fwd x ∧ L.bwd x = s.links.bwd x) :
    ∃ l, L.Ring m l ∧ ∀ x, x ∈ m :: l ↔ P x := by
  obtain ⟨l, hring, hmem⟩ := h.ring m k hm
  exact ⟨l, ⟨hring.path.congr (fun x hx => (hL x ((hmem x).1 hx)).1)
    fun x hx => (hL x ((hmem x).1 hx)).2, hring.nodup⟩, fun x => (hmem x).trans (hP x).symm⟩

lemma Clusters.congr (h : s.Clusters B) (hs : SameRefs s s') : s'.Clusters B where
  toCounts := .of_at (hs.mclfree.symm ▸ h.listedNodup) fun k => (h.at k).congr
    (exists_congr fun x => hs.refers x k) (hs.cut k) (by rw [hs.mclfree]) Iff.rfl
    (by rw [hs.mClusters]) (hs.count k)
  ring m k hm := hs.links ▸ h.keepRing ((hs.refers m k).1 hm) (fun x => hs.refers x k)
    fun _ _ => ⟨rfl, rfl⟩

/-! ### Changes that touch no reference -/

@[simp] lemma modify_mbufs (s : MbufPool) (m i : ℕ) (f : Mbuf → Mbuf) :
    (s.modify m f).mbufs i = if i = m then f (s.mbufs m) else s.mbufs i := by
  exact update_apply s.mbufs m _ i

variable {f : Mbuf → Mbuf} {s'' : MbufPool} {i j x d : ℕ}

lemma modify_proj {β : Type} {g : Mbuf → β} (hg : ∀ b, g (f b) = g b) (s : MbufPool) (m i : ℕ) :
    g ((s.modify m f).mbufs i) = g (s.mbufs i) := by
  rw [modify_mbufs]
  split
  next hi => rw [hg, hi]
  · rfl

lemma links_congr (h : ∀ i, (s'.mbufs i).mExt = (s.mbufs i).mExt) : s'.links = s.links := by
  unfold MbufPool.links
  simp only [h]

structure Touches (s s' : MbufPool) : Prop where
  mType : ∀ i, (s'.mbufs i).mType = (s.mbufs i).mType
  isExt : ∀ i, (s'.mbufs i).isExt = (s.mbufs i).isExt
  mExt : ∀ i, (s'.mbufs i).mExt = (s.mbufs i).mExt
  mfree : s'.mfree = s.mfree
  mclfree : s'.mclfree = s.mclfree
  mclrefcnt : s'.mclrefcnt = s.mclrefcnt
  mClusters : s'.mClusters = s.mClusters

lemma Touches.refl (s : MbufPool) : Touches s s :=
  ⟨fun _ => rfl, fun _ => rfl, fun _ => rfl, rfl, rfl, rfl, rfl⟩

lemma Touches.trans (h : Touches s s') (h' : Touches s' s'') : Touches s s'' where
  mType i := (h'.mType i).trans (h.mType i)
  isExt i := (h'.isExt i).trans (h.isExt i)
  mExt i := (h'.mExt i).trans (h.mExt i)
  mfree := h'.mfree.trans h.mfree
  mclfree := h'.mclfree.trans h.mclfree
  mclrefcnt := h'.mclrefcnt.trans h.mclrefcnt
  mClusters := h'.mClusters.trans h.mClusters

lemma Touches.sameRefs (h : Touches s s') : SameRefs s s' where
  refers x k := by rw [Refers, Refers, Live, Live, h.mType, h.isExt, h.mExt]
  links := links_congr h.mExt
  cut k := by rw [Cut, Cut, h.mType]
  mclfree := h.mclfree
  mClusters := h.mClusters
  count k _ := by rw [h.mclrefcnt]

lemma Sound.touch (h : s.Sound A B) (ht : Touches s s') : s'.Sound A B where
  toMbufs := h.toMbufs.congr ht.mType ht.mfree
  toClusters := h.toClusters.congr ht.sameRefs

lemma Sound.perm (h : s.Sound A B) (hperm : A.Perm A') : s.Sound A' B :=
  ⟨h.toMbufs.perm hperm, h.toClusters⟩

/-! ### Clusters taken from the free list -/

lemma Sound.addCluster (h : s.Sound A B) : Sound { s with
      mclrefcnt := update s.mclrefcnt s.mClusters (s.mclrefcnt s.mClusters + 1)
      mclfree   := s.mClusters :: s.mclfree
      mClusters := s.mClusters + 1 } A B := by
  obtain ⟨hcount, hcut⟩ := h.fresh s.mClusters le_rfl
  have hnotfree : s.mClusters ∉ s.mclfree := fun hk => lt_irrefl _ (h.listed _ hk).2.2
  have hat : CountsAt { s with
      mclrefcnt := update s.mclrefcnt s.mClusters (s.mclrefcnt s.mClusters + 1)
      mclfree   := s.mClusters :: s.mclfree
      mClusters := s.mClusters + 1 } B s.mClusters := by
    refine .of_listed ?_ mem_cons_self hcut (fun huse => lt_irrefl _ (h.inUse _ huse).2.2.2)
      (fun hB => lt_irrefl _ (h.spare _ hB).2.2.2.2) (Nat.lt_succ_self _)
    show update _ _ _ _ = _
    rw [update_self, hcount]
    rfl
  refine ⟨⟨h.owned, h.nodup, h.page, h.free, h.freeNodup⟩, ?_, h.ring⟩
  refine h.toCounts.change (nodup_cons.2 ⟨hnotfree, h.listedNodup⟩) hat (fun _ _ => Iff.rfl)
    (fun _ _ => Iff.rfl) (fun j hj => ?_) (fun _ _ => Iff.rfl) (fun j hj => ?_) fun j hj _ => ?_
  · rw [mem_cons, or_iff_right hj]
  · show j < s.mClusters + 1 ↔ _
    omega
  · exact update_of_ne hj _ _

lemma clAdd_spec (h : s.Sound A B) (got : ℕ) :
    ∃ s', clAdd got s = .ok s' ∧ s'.Sound A B ∧ s'.mcl = s.mcl ∧ s'.mbufs = s.mbufs := by
  induction got generalizing s with
  | zero => exact ⟨s, rfl, h, rfl, rfl⟩
  | succ got ih =>
    unfold clAdd
    rw [if_neg (by rw [(h.fresh s.mClusters le_rfl).1]; decide)]
    exact ih h.addCluster

lemma Sound.takeCluster {rest : List ℕ} (h : s.Sound A []) (hfree : s.mclfree = k :: rest) :
    Sound { s with
      mclrefcnt := update s.mclrefcnt k (s.mclrefcnt k + 1)
      mclfree   := rest } A [k] := by
  have hk : k ∈ s.mclfree := by
    rw [hfree]
    exact mem_cons_self
  obtain ⟨hk0, hkcut, hklt⟩ := h.listed k hk
  have hnodup := h.listedNodup
  rw [hfree] at hnodup
  obtain ⟨hkrest, hrest⟩ := nodup_cons.1 hnodup
  have hnotuse : ¬ s.InUse k := fun huse => (h.inUse k huse).2.1 hk
  have hat : CountsAt { s with
      mclrefcnt := update s.mclrefcnt k (s.mclrefcnt k + 1)
      mclfree   := rest } [k] k := by
    refine .of_given ?_ hkrest hklt (fun _ => hkcut) (fun _ => hnotuse) (.inr (.inr (by simp)))
    show update _ _ _ _ = _
    rw [update_self, hk0]
    rfl
  refine ⟨⟨h.owned, h.nodup, h.page, h.free, h.freeNodup⟩, ?_, h.ring⟩
  refine h.toCounts.change hrest hat (fun _ _ => Iff.rfl) (fun _ _ => Iff.rfl) (fun j hj => ?_)
    (fun j hj => ?_) (fun _ _ => Iff.rfl) fun j hj _ => update_of_ne hj _ _
  · rw [hfree, mem_cons, or_iff_right hj]
  · simpa using hj

lemma mClalloc_spec (h : s.Sound A B) :
    ∃ s', s.mClalloc = .ok s' ∧ s'.Sound A B ∧ s'.mcl = s.mcl ∧ s'.mbufs = s.mbufs := by
  unfold mClalloc
  split
  · exact ⟨s, rfl, h, rfl, rfl⟩
  next got rest _ =>
    have hs : Sound { s with supply := rest } A B := h.touch
      ⟨fun _ => rfl, fun _ => rfl, fun _ => rfl, rfl, rfl, rfl, rfl⟩
    exact clAdd_spec hs got

lemma mclAlloc_spec (h : s.Sound A []) :
    ∃ s' k, s.mclAlloc = .ok (s', k) ∧ s'.Sound A k.toList ∧ s'.mcl = s.mcl ∧
      s'.mbufs = s.mbufs := by
  obtain ⟨s1, heq, hsound, hmcl, hmbufs⟩ := mClalloc_spec h
  unfold mclAlloc
  rw [heq]
  dsimp only [bind, Except.bind]
  cases hfree : s1.mclfree with
  | nil => exact ⟨s1, none, rfl, hsound, hmcl, hmbufs⟩
  | cons k rest => exact ⟨_, some k, rfl, hsound.takeCluster hfree, hmcl, hmbufs⟩

/-! ### New mbufs -/

lemma mem_cut : i ∈ cut k ↔ i / nmbpcl = k := by
  unfold cut nmbpcl
  simp only [mem_reverse, mem_map, mem_range]
  constructor
  · rintro ⟨j, hj, rfl⟩
    omega
  · intro hi
    exact ⟨i % 16, by omega, by omega⟩

lemma nodup_cut (k : ℕ) : (cut k).Nodup := by
  unfold cut
  rw [nodup_reverse]
  apply List.Nodup.map _ nodup_range
  intro i j hij
  exact Nat.add_left_cancel hij

lemma Sound.cutUp (h : s.Sound A [k]) : Sound { s with
      mbufs := fun i => if i / nmbpcl = k then { s.mbufs i with mType := .free } else s.mbufs i
      mfree := cut k ++ s.mfree } A [] := by
  obtain ⟨hk1, hkfree, hkcut, hknot, hklt⟩ := h.spare k (mem_singleton_self k)
  generalize hs' : { s with
    mbufs := fun i => if i / nmbpcl = k then { s.mbufs i with mType := .free } else s.mbufs i
    mfree := cut k ++ s.mfree } = s'
  have htype : ∀ i, (s'.mbufs i).mType = if i / nmbpcl = k then .free else (s.mbufs i).mType := by
    intro i
    rw [← hs']
    dsimp only
    split <;> rfl
  have hraw : ∀ i, i / nmbpcl = k → (s.mbufs i).mType = .raw := by
    intro i hi
    by_contra hne
    exact hkcut (hi ▸ (h.page i).1 hne)
  have hext : ∀ i, (s'.mbufs i).isExt = (s.mbufs i).isExt ∧
      (s'.mbufs i).mExt = (s.mbufs i).mExt := by
    intro i
    rw [← hs']
    dsimp only
    split <;> exact ⟨rfl, rfl⟩
  have hlive : ∀ i, s'.Live i ↔ s.Live i := by
    intro i
    unfold Live
    rw [htype]
    split
    next hi =>
      rw [hraw i hi]
      exact ⟨nofun, nofun⟩
    · rfl
  have hrefers : ∀ x j, s'.Refers x j ↔ s.Refers x j := by
    intro x j
    rw [Refers, Refers, hlive, (hext x).1, (hext x).2]
  have huse : ∀ j, s'.InUse j ↔ s.InUse j := fun j => exists_congr fun x => hrefers x j
  have hcut : ∀ j, s'.Cut j ↔ s.Cut j ∨ j = k := by
    intro j
    unfold Cut
    rw [htype, Nat.mul_div_cancel j (by decide)]
    split
    next hj => exact ⟨fun _ => .inr hj, fun _ => nofun⟩
    next hj => exact ⟨.inl, fun hor => hor.resolve_right hj⟩
  have hlinks : s'.links = s.links := links_congr fun i => (hext i).2
  have hmfree : s'.mfree = cut k ++ s.mfree := by rw [← hs']
  have hmclfree : s'.mclfree = s.mclfree := by rw [← hs']
  have hcount : s'.mclrefcnt = s.mclrefcnt := by rw [← hs']
  have hclusters : s'.mClusters = s.mClusters := by rw [← hs']
  have hat : s'.CountsAt [] k := .of_given (hcount ▸ hk1) (hmclfree ▸ hkfree) (hclusters ▸ hklt)
    (fun hor => absurd hor (by simpa [huse] using hknot)) (by simp) (.inl ((hcut k).2 (.inr rfl)))
  refine ⟨?_, ?_⟩
  · exact {
      owned := fun i => (h.owned i).trans (hlive i).symm
      nodup := h.nodup
      page := by
        intro i
        rw [hcut, ← h.page, htype]
        split
        next hi => exact ⟨fun _ => .inr hi, fun _ => nofun⟩
        next hi => exact ⟨.inl, fun hor => hor.resolve_right hi⟩
      free := by
        intro i hi
        rw [htype]
        split
        · rfl
        next hne =>
          rw [hmfree, mem_append] at hi
          exact h.free i (hi.resolve_left fun hc => hne (mem_cut.1 hc))
      freeNodup := by
        rw [hmfree]
        apply (nodup_cut k).append h.freeNodup
        intro i hi hi'
        have htype' := h.free i hi'
        rw [hraw i (mem_cut.1 hi)] at htype'
        cases htype' }
  · refine ⟨h.toCounts.change (hmclfree ▸ h.listedNodup) hat (fun j _ => huse j)
      (fun j hj => (hcut j).trans (or_iff_left hj)) (fun j _ => by rw [hmclfree])
      (fun j hj => by simpa using hj) (fun j _ => by rw [hclusters]) (fun j _ _ => by rw [hcount]),
      fun m j hm => ?_⟩
    rw [hlinks]
    exact h.keepRing ((hrefers m j).1 hm) (fun x => hrefers x j) fun _ _ => ⟨rfl, rfl⟩

lemma mExpand_spec (h : s.Sound A []) : ∃ s', s.mExpand = .ok s' ∧ s'.Sound A [] ∧ s'.mcl = s.mcl ∧
      ∀ i, s.Live i → s'.mbufs i = s.mbufs i := by
  unfold mExpand
  split
  · exact ⟨s, rfl, h, rfl, fun _ _ => rfl⟩
  obtain ⟨s1, k, heq, hsound, hmcl, hmbufs⟩ := mclAlloc_spec h
  rw [heq]
  cases k with
  | none => exact ⟨s1, rfl, hsound, hmcl, fun i _ => by rw [hmbufs]⟩
  | some k =>
    refine ⟨_, rfl, hsound.cutUp, hmcl, ?_⟩
    intro i hi
    dsimp only
    rw [hmbufs, if_neg]
    -- The mbufs of `k` were not mbufs before.
    intro hik
    have hcut := (hsound.spare k (mem_singleton_self k)).2.2.1
    apply hcut
    rw [← hik]
    apply (hsound.page i).1
    rw [hmbufs, hi]
    nofun

lemma sameRefs_retype {l : List ℕ} {d : ℤ} (hm : ∀ j, ¬ s.Refers m j)
    (hf : (f (s.mbufs m)).isExt = false) (hext : (f (s.mbufs m)).mExt = (s.mbufs m).mExt)
    (hraw : (f (s.mbufs m)).mType ≠ .raw) (hpage : (s.mbufs m).mType ≠ .raw)
    (hcut : s.Cut (m / nmbpcl)) :
    SameRefs s ({ s with
      mclrefcnt := update s.mclrefcnt (m / nmbpcl) d
      mfree     := l }.modify m f) where
  refers x k := by
    unfold Refers Live
    rw [modify_mbufs]
    split
    next hx =>
      subst hx
      exact ⟨fun hr => absurd (hf.symm.trans hr.2.1) nofun, fun hr => absurd hr (hm k)⟩
    · rfl
  links := links_congr fun i => by
    rw [modify_mbufs]
    split
    next hi =>
      rw [hi]
      exact hext
    · rfl
  cut k := by
    unfold Cut
    rw [modify_mbufs]
    split
    next hi =>
      rw [hi]
      exact ⟨fun _ => hpage, fun _ => hraw⟩
    · rfl
  mclfree := rfl
  mClusters := rfl
  count k hk := by
    apply update_of_ne
    rintro rfl
    exact hk hcut

/-- `m` is new: it has no cluster and the most room, and the mbufs in use are as they were. -/
structure Fresh (s s' : MbufPool) (hdr : Bool) (m : ℕ) : Prop where
  isExt : (s'.mbufs m).isExt = false
  mData : (s'.mbufs m).mData = if hdr then pktdat else 0
  mcl : s'.mcl = s.mcl
  others : ∀ i, s.Live i → s'.mbufs i = s.mbufs i

lemma mintget_spec (h : s.Sound A []) (hdr : Bool) :
    (s.mintget hdr = (s, none)) ∨ ∃ s' m, s.mintget hdr = (s', some m) ∧ s'.Sound (m :: A) [] ∧
      Fresh s s' hdr m := by
  unfold mintget
  split
  · exact .inl rfl
  next m rest hfree =>
    right
    have hm : (s.mbufs m).mType = .free := h.free m (by rw [hfree]; exact mem_cons_self)
    have hraw : (s.mbufs m).mType ≠ .raw := by
      rw [hm]
      nofun
    have hnodup := h.freeNodup
    rw [hfree] at hnodup
    obtain ⟨hmrest, hrest⟩ := nodup_cons.1 hnodup
    have hnotlive : ¬ s.Live m := by
      unfold Live
      rw [hm]
      nofun
    have hsame : SameRefs s ({ s with
        mclrefcnt := update s.mclrefcnt (m / nmbpcl) (s.mclrefcnt (m / nmbpcl) + 1)
        mfree     := rest }.modify m fun b =>
          { b with
            mType    := .used
            isExt    := false
            isPkthdr := hdr
            mData    := if hdr then pktdat else 0 }) :=
      sameRefs_retype (fun j hj => hnotlive hj.1) rfl rfl nofun hraw ((h.page m).1 hraw)
    refine ⟨_, m, rfl, ⟨?_, h.toClusters.congr hsame⟩, by simp, by simp, rfl, ?_⟩
    swap
    · intro i hi
      rw [modify_mbufs, if_neg]
      rintro rfl
      exact hnotlive hi
    exact {
      owned := by
        intro i
        rw [mem_cons, h.owned, Live, Live, modify_mbufs]
        split
        next hi => exact ⟨fun _ => rfl, fun _ => .inl hi⟩
        next hi => exact ⟨fun hor => hor.resolve_left hi, .inr⟩
      nodup := nodup_cons.2 ⟨fun hmem => hnotlive ((h.owned m).1 hmem), h.nodup⟩
      page := by
        intro i
        rw [hsame.cut, ← h.page, modify_mbufs]
        split
        next hi =>
          rw [hi]
          exact ⟨fun _ => hraw, fun _ => nofun⟩
        · rfl
      free := by
        intro i hi
        have hi' : i ∈ rest := hi
        have hne : i ≠ m := fun heq => hmrest (heq ▸ hi')
        rw [modify_mbufs, if_neg hne]
        apply h.free
        rw [hfree]
        exact mem_cons_of_mem m hi'
      freeNodup := hrest }

lemma mget_spec (h : s.Sound A []) (hdr : Bool) :
    (∃ s', s.mget hdr = .ok (s', none) ∧ s'.Sound A [] ∧ s'.mcl = s.mcl) ∨
      ∃ s' m, s.mget hdr = .ok (s', some m) ∧ s'.Sound (m :: A) [] ∧ Fresh s s' hdr m := by
  unfold mget
  rcases mintget_spec h hdr with heq | ⟨s', m, heq, hrest⟩
  · rw [heq]
    dsimp only
    obtain ⟨s1, heq1, hsound, hmcl, hothers⟩ := mExpand_spec h
    rw [heq1]
    dsimp only [bind, Except.bind]
    rcases mintget_spec hsound hdr with heq2 | ⟨s', m, heq2, hsound', hfresh⟩
    · rw [heq2]
      exact .inl ⟨s1, rfl, hsound, hmcl⟩
    rw [heq2]
    refine .inr ⟨s', m, rfl, hsound', hfresh.isExt, hfresh.mData, hfresh.mcl.trans hmcl, ?_⟩
    intro i hi
    have hi1 : s1.Live i := by
      rw [Live, hothers i hi]
      exact hi
    rw [hfresh.others i hi1, hothers i hi]
  · rw [heq]
    exact .inr ⟨s', m, rfl, hrest⟩

/-! ### References -/

structure Joins (s s' : MbufPool) (n k : ℕ) : Prop where
  mType : ∀ i, (s'.mbufs i).mType = (s.mbufs i).mType
  refers : ∀ x j, s'.Refers x j ↔ s.Refers x j ∨ x = n ∧ j = k
  mfree : s'.mfree = s.mfree
  mclfree : s'.mclfree = s.mclfree
  mclrefcnt : s'.mclrefcnt = s.mclrefcnt
  mClusters : s'.mClusters = s.mClusters

lemma Joins.of_new (hlive : s.Live n) (hnot : ∀ j, ¬ s.Refers n j)
    (hold : ∀ i, i ≠ n → (s'.mbufs i).mType = (s.mbufs i).mType ∧
      (s'.mbufs i).isExt = (s.mbufs i).isExt ∧
      (s'.mbufs i).mExt.extBuf = (s.mbufs i).mExt.extBuf)
    (hnew : s'.Refers n k) (hmfree : s'.mfree = s.mfree) (hmclfree : s'.mclfree = s.mclfree)
    (hcount : s'.mclrefcnt = s.mclrefcnt) (hclusters : s'.mClusters = s.mClusters) :
    Joins s s' n k where
  mType i := by
    by_cases hi : i = n
    · rw [hi]
      exact hnew.1.trans hlive.symm
    · exact (hold i hi).1
  refers x j := by
    by_cases hx : x = n
    · subst hx
      constructor
      · exact fun hr => .inr ⟨rfl, hr.2.2.symm.trans hnew.2.2⟩
      rintro (hr | ⟨-, rfl⟩)
      · exact absurd hr (hnot j)
      · exact hnew
    · rw [Refers, Live, (hold x hx).1, (hold x hx).2.1, (hold x hx).2.2]
      exact ⟨.inl, fun hor => hor.resolve_right fun hand => hx hand.1⟩
  mfree := hmfree
  mclfree := hmclfree
  mclrefcnt := hcount
  mClusters := hclusters

lemma Joins.other (h : Joins s s' n k) (hjk : j ≠ k) : s'.Refers x j ↔ s.Refers x j :=
  (h.refers x j).trans (or_iff_left fun hand => hjk hand.2)

lemma Joins.inUse (h : Joins s s' n k) (j : ℕ) : s'.InUse j ↔ s.InUse j ∨ j = k := by
  constructor
  · rintro ⟨x, hx⟩
    rcases (h.refers x j).1 hx with hold | ⟨-, hj⟩
    · exact .inl ⟨x, hold⟩
    · exact .inr hj
  rintro (⟨x, hx⟩ | rfl)
  · exact ⟨x, (h.refers x j).2 (.inl hx)⟩
  · exact ⟨n, (h.refers n j).2 (.inr ⟨rfl, rfl⟩)⟩

lemma Sound.joins (h : s.Sound A B) (hj : Joins s s' n k) (hk : B = [k] ∨ B = [] ∧ s.InUse k)
    (hring : ∀ x j, s'.Refers x j → ∃ l, s'.links.Ring x l ∧ ∀ y, y ∈ x :: l ↔ s'.Refers y j) :
    s'.Sound A [] := by
  have hcut : ∀ j, s'.Cut j ↔ s.Cut j := fun j => by rw [Cut, Cut, hj.mType]
  have hkfacts : s.mclrefcnt k = 1 ∧ k ∉ s.mclfree ∧ ¬ s.Cut k ∧ k < s.mClusters := by
    rcases hk with rfl | ⟨-, huse⟩
    · obtain ⟨h1, h2, h3, -, h4⟩ := h.spare k (mem_singleton_self k)
      exact ⟨h1, h2, h3, h4⟩
    · exact h.inUse k huse
  refine ⟨h.toMbufs.congr hj.mType hj.mfree, ?_⟩
  refine ⟨h.toCounts.change (k := k) (hj.mclfree ▸ h.listedNodup) ?_ (fun j hne => ?_)
    (fun j _ => hcut j)
    (fun j _ => by rw [hj.mclfree]) (fun j hne => ?_) (fun j _ => by rw [hj.mClusters])
    (fun j _ _ => by rw [hj.mclrefcnt]), hring⟩
  · refine .of_given (hj.mclrefcnt ▸ hkfacts.1) (hj.mclfree ▸ hkfacts.2.1)
      (hj.mClusters ▸ hkfacts.2.2.2) (fun _ => ?_) (by simp)
      (.inr (.inl ((hj.inUse k).2 (.inr rfl))))
    rw [hcut]
    exact hkfacts.2.2.1
  · rw [hj.inUse, or_iff_left hne]
  rcases hk with rfl | ⟨rfl, -⟩
  · simpa using hne
  · rfl

lemma Sound.adopt (h : s.Sound A [k]) (hm : m ∈ A) (hext : (s.mbufs m).isExt = false) :
    Sound (s.modify m fun b =>
      { b with
        mData := 0
        isExt := true
        mExt  := { extBuf := k, extSize := mclBytes, forward := m, backward := m } }) A [] := by
  have hlive : s.Live m := (h.owned m).1 hm
  have hnot : ∀ j, ¬ s.Refers m j := fun j hj => absurd (hext.symm.trans hj.2.1) nofun
  have hknot : ¬ s.InUse k := (h.spare k (mem_singleton_self k)).2.2.2.1
  have hjoins : Joins s (s.modify m fun b =>
      { b with
        mData := 0
        isExt := true
        mExt  := { extBuf := k, extSize := mclBytes, forward := m, backward := m } }) m k := by
    refine .of_new hlive hnot (fun i hi => ?_) ?_ rfl rfl rfl rfl
    · rw [modify_mbufs, if_neg hi]
      exact ⟨rfl, rfl, rfl⟩
    · rw [Refers, Live, modify_mbufs, if_pos rfl]
      exact ⟨hlive, rfl, rfl⟩
  refine h.joins hjoins (.inl rfl) ?_
  intro x j hx
  rcases (hjoins.refers x j).1 hx with hold | ⟨rfl, rfl⟩
  · -- `m` is on none of the rings there were.
    have hjk : j ≠ k := fun heq => hknot ⟨x, heq ▸ hold⟩
    refine h.keepRing hold (fun y => hjoins.other hjk) fun y hy => ?_
    have hne : y ≠ m := fun heq => hnot j (heq ▸ hy)
    simp [MbufPool.links, hne]
  refine ⟨[], ⟨by simp [Links.Path, MbufPool.links], by simp⟩, ?_⟩
  intro y
  rw [hjoins.refers, mem_singleton]
  constructor
  · intro hy
    exact .inr ⟨hy, rfl⟩
  rintro (hold | ⟨hy, -⟩)
  · exact absurd ⟨y, hold⟩ hknot
  · exact hy

lemma mclget_spec (h : s.Sound A []) (hm : m ∈ A) (hext : (s.mbufs m).isExt = false) :
    ∃ s', s.mclget m = .ok s' ∧ s'.Sound A [] ∧ s'.mcl = s.mcl := by
  obtain ⟨s1, k, heq, hsound, hmcl, hmbufs⟩ := mclAlloc_spec h
  unfold mclget
  rw [heq]
  cases k with
  | none => exact ⟨s1, rfl, hsound, hmcl⟩
  | some k => exact ⟨_, rfl, hsound.adopt hm (by rw [hmbufs]; exact hext), hmcl⟩

lemma links_modify (s : MbufPool) (m : ℕ) : (s.modify m f).links =
      { fwd := update s.links.fwd m (f (s.mbufs m)).mExt.forward
        bwd := update s.links.bwd m (f (s.mbufs m)).mExt.backward } := by
  unfold MbufPool.links
  congr 1
  · funext i
    rw [modify_mbufs, update_apply]
    split <;> rfl
  funext i
  rw [modify_mbufs, update_apply]
  split <;> rfl

lemma links_setBackward (s : MbufPool) (i j : ℕ) :
    (s.modify i fun b => { b with mExt := { b.mExt with backward := j } }).links =
      { s.links with bwd := update s.links.bwd i j } := by
  rw [links_modify]
  congr 1
  exact update_eq_self i s.links.fwd

lemma links_setForward (s : MbufPool) (i j : ℕ) :
    (s.modify i fun b => { b with mExt := { b.mExt with forward := j } }).links =
      { s.links with fwd := update s.links.fwd i j } := by
  rw [links_modify]
  congr 1
  exact update_eq_self i s.links.bwd

lemma links_insque (s : MbufPool) (n m : ℕ) : (s.insque n m).links = s.links.insque n m := by
  unfold insque
  rw [links_setForward, links_setBackward, links_modify]
  rfl

lemma links_remque (s : MbufPool) (m : ℕ) : (s.remque m).links = s.links.remque m := by
  unfold remque
  rw [links_setForward, links_setBackward]
  rfl

structure Relinks (s s' : MbufPool) : Prop where
  mType : ∀ i, (s'.mbufs i).mType = (s.mbufs i).mType
  isExt : ∀ i, (s'.mbufs i).isExt = (s.mbufs i).isExt
  extBuf : ∀ i, (s'.mbufs i).mExt.extBuf = (s.mbufs i).mExt.extBuf
  mfree : s'.mfree = s.mfree
  mclfree : s'.mclfree = s.mclfree
  mclrefcnt : s'.mclrefcnt = s.mclrefcnt
  mClusters : s'.mClusters = s.mClusters
  mcl : s'.mcl = s.mcl

lemma Relinks.trans (h : Relinks s s') (h' : Relinks s' s'') : Relinks s s'' where
  mType i := (h'.mType i).trans (h.mType i)
  isExt i := (h'.isExt i).trans (h.isExt i)
  extBuf i := (h'.extBuf i).trans (h.extBuf i)
  mfree := h'.mfree.trans h.mfree
  mclfree := h'.mclfree.trans h.mclfree
  mclrefcnt := h'.mclrefcnt.trans h.mclrefcnt
  mClusters := h'.mClusters.trans h.mClusters
  mcl := h'.mcl.trans h.mcl

lemma relinks_modify {f : MExt → MExt} (hf : ∀ e, (f e).extBuf = e.extBuf) (s : MbufPool)
    (m : ℕ) : Relinks s (s.modify m fun b => { b with mExt := f b.mExt }) :=
  ⟨modify_proj (by intro; rfl) s m, modify_proj (by intro; rfl) s m,
    modify_proj (g := fun b => b.mExt.extBuf) (fun b => hf b.mExt) s m, rfl, rfl, rfl, rfl, rfl⟩

lemma relinks_setBackward (s : MbufPool) (i j : ℕ) :
    Relinks s (s.modify i fun b => { b with mExt := { b.mExt with backward := j } }) :=
  relinks_modify (f := fun e => { e with backward := j }) (fun _ => rfl) s i

lemma relinks_setForward (s : MbufPool) (i j : ℕ) :
    Relinks s (s.modify i fun b => { b with mExt := { b.mExt with forward := j } }) :=
  relinks_modify (f := fun e => { e with forward := j }) (fun _ => rfl) s i

lemma relinks_insque (s : MbufPool) (n m : ℕ) : Relinks s (s.insque n m) := by
  have hset := relinks_modify
    (f := fun e => { e with forward := (s.mbufs m).mExt.forward, backward := m }) (fun _ => rfl) s n
  exact (hset.trans (relinks_setBackward _ _ _)).trans (relinks_setForward _ _ _)

lemma relinks_remque (s : MbufPool) (m : ℕ) : Relinks s (s.remque m) :=
  (relinks_setBackward s _ _).trans (relinks_setForward _ _ _)

lemma Relinks.refers (h : Relinks s s') (x k : ℕ) : s'.Refers x k ↔ s.Refers x k := by
  rw [Refers, Refers, Live, Live, h.mType, h.isExt, h.extBuf]

lemma joins_share (hlive : s.Live n) (hnot : ∀ j, ¬ s.Refers n j) (hm : s.Refers m k) :
    Joins s ((s.share n m).modify n fun b => { b with mData := d, isExt := true }) n k := by
  have hre : Relinks (s.modify n fun b => { b with mExt := (s.mbufs m).mExt }) (s.share n m) :=
    relinks_insque _ n m
  refine .of_new hlive hnot (fun i hi => ?_) ?_ hre.mfree hre.mclfree hre.mclrefcnt hre.mClusters
  · rw [modify_mbufs, if_neg hi, hre.mType, hre.isExt, hre.extBuf, modify_mbufs, if_neg hi]
    exact ⟨rfl, rfl, rfl⟩
  rw [Refers, Live, modify_mbufs, if_pos rfl]
  refine ⟨(hre.mType n).trans ?_, rfl, (hre.extBuf n).trans ?_⟩
  · rw [modify_mbufs, if_pos rfl]
    exact hlive
  · rw [modify_mbufs, if_pos rfl]
    exact hm.2.2

lemma links_share (hnm : n ≠ m) :
    ((s.share n m).modify n fun b => { b with mData := d, isExt := true }).links =
      s.links.insque n m := by
  have hset : ((s.share n m).modify n fun b => { b with mData := d, isExt := true }).links =
      (s.share n m).links := links_congr (modify_proj (by intro; rfl) _ _)
  rw [hset, share, links_insque, links_modify]
  unfold Links.insque
  simp only [update_of_ne hnm.symm, update_idem]

lemma Sound.shareRef (h : s.Sound A []) (hn : n ∈ A) (hext : (s.mbufs n).isExt = false)
    (hm : s.Refers m k) :
    Sound ((s.share n m).modify n fun b => { b with mData := d, isExt := true }) A [] := by
  have hnot : ∀ j, ¬ s.Refers n j := fun j hj => absurd (hext.symm.trans hj.2.1) nofun
  obtain ⟨l, hring, hmem⟩ := h.ring m k hm
  have hnring : n ∉ m :: l := fun hmem' => hnot k ((hmem n).1 hmem')
  have hjoins := joins_share (d := d) ((h.owned n).1 hn) hnot hm
  have hnm : n ≠ m := fun heq => hnot k (heq ▸ hm)
  refine h.joins hjoins (.inr ⟨rfl, m, hm⟩) ?_
  intro x j hx
  rw [links_share hnm]
  by_cases hjk : j = k
  · subst hjk
    have hall : ∀ y, y ∈ m :: n :: l ↔ s.Refers y j ∨ y = n ∧ j = j := by
      intro y
      rw [← hmem]
      simp only [mem_cons, and_true]
      tauto
    obtain ⟨l', hring', hmem'⟩ :=
      (hring.insque hnring).of_mem ((hall x).2 ((hjoins.refers x j).1 hx))
    exact ⟨l', hring', fun y => (hmem' y).trans ((hall y).trans (hjoins.refers y j).symm)⟩
  -- The cells of another cluster's ring are none of the three that are linked anew.
  refine h.keepRing ((hjoins.other hjk).1 hx) (fun y => hjoins.other hjk) fun y hy => ?_
  have hyn : y ≠ n := fun heq => hnot j (heq ▸ hy)
  have hapart : ∀ z ∈ m :: l, y ≠ z := fun z hz heq =>
    hjk (hy.2.2.symm.trans ((hmem y).1 (heq ▸ hz)).2.2)
  exact ⟨(update_of_ne (hapart m mem_cons_self) _ _).trans (update_of_ne hyn _ _),
    (update_of_ne (hapart _ hring.path.fwd_mem) _ _).trans (update_of_ne hyn _ _)⟩

/-! ### Freeing -/

lemma Mbufs.mFreeMbuf (h : s.Mbufs (m :: A)) : (s.mFreeMbuf m).Mbufs A := by
  have hm : s.Live m := (h.owned m).1 mem_cons_self
  obtain ⟨hmA, hA⟩ := nodup_cons.1 h.nodup
  have htype : ∀ i, ((s.mFreeMbuf m).mbufs i).mType =
      if i = m then .free else (s.mbufs i).mType := by
    intro i
    unfold MbufPool.mFreeMbuf
    rw [modify_mbufs]
    split <;> rfl
  have hraw : ∀ i, ((s.mFreeMbuf m).mbufs i).mType ≠ .raw ↔ (s.mbufs i).mType ≠ .raw := by
    intro i
    rw [htype]
    split
    next hi =>
      rw [hi, hm]
      exact ⟨fun _ => nofun, fun _ => nofun⟩
    · rfl
  exact {
    owned := by
      intro i
      unfold Live
      rw [htype]
      split
      next hi =>
        rw [hi]
        exact ⟨fun hmem => absurd hmem hmA, nofun⟩
      next hi =>
        have howned := h.owned i
        rw [mem_cons] at howned
        rw [← Live, ← howned]
        exact ⟨.inr, fun hor => hor.resolve_left hi⟩
    nodup := hA
    page := by
      intro i
      rw [Cut, hraw, hraw]
      exact h.page i
    free := by
      intro i hi
      rw [htype]
      split
      · rfl
      next hne =>
        have hi' : i ∈ m :: s.mfree := hi
        exact h.free i ((mem_cons.1 hi').resolve_left hne)
    freeNodup := by
      refine nodup_cons.2 ⟨?_, h.freeNodup⟩
      intro hmem
      have hfree := h.free m hmem
      rw [hm] at hfree
      cases hfree }

lemma refers_mFreeMbuf : (s.mFreeMbuf m).Refers x j ↔ s.Refers x j ∧ x ≠ m := by
  unfold MbufPool.mFreeMbuf Refers Live
  rw [modify_mbufs]
  split
  next hx => exact ⟨fun hr => absurd hr.1 nofun, fun hand => absurd hx hand.2⟩
  next hx => exact ⟨fun hr => ⟨hr, hx⟩, fun hand => hand.1⟩

lemma links_mFreeMbuf (s : MbufPool) (m : ℕ) : (s.mFreeMbuf m).links = s.links := by
  unfold MbufPool.mFreeMbuf
  rw [links_modify]
  show (⟨update s.links.fwd m (s.links.fwd m),
    update s.links.bwd m (s.links.bwd m)⟩ : Links ℕ) = s.links
  rw [update_eq_self, update_eq_self]

lemma cut_mFreeMbuf (hm : s.Live m) (j : ℕ) : (s.mFreeMbuf m).Cut j ↔ s.Cut j := by
  unfold MbufPool.mFreeMbuf Cut
  rw [modify_mbufs]
  split
  next hj =>
    rw [hj, hm]
    exact ⟨fun _ => nofun, fun _ => nofun⟩
  · rfl

lemma mclrefcnt_mFreeMbuf (hj : j ≠ m / nmbpcl) : (s.mFreeMbuf m).mclrefcnt j = s.mclrefcnt j :=
  update_of_ne hj _ _

lemma Clusters.ring_remque (h : s.Clusters B) (hm : s.Refers m k) (href : s.hasReference m = true) :
    (∃ y, s.Refers y k ∧ y ≠ m) ∧ ∀ x j, s.Refers x j → x ≠ m →
      ∃ l, (s.links.remque m).Ring x l ∧ ∀ y, y ∈ x :: l ↔ s.Refers y j ∧ y ≠ m := by
  obtain ⟨l, hring, hmem⟩ := h.ring m k hm
  cases l with
  | nil =>
    have hself : (s.mbufs m).mExt.forward = m := hring.path.1
    rw [hasReference, hself] at href
    simp at href
  | cons z l =>
    have hmz : m ∉ z :: l := (nodup_cons.1 hring.nodup).1
    have hz : ∀ y, y ∈ z :: l ↔ s.Refers y k ∧ y ≠ m := by
      intro y
      rw [← hmem]
      constructor
      · intro hy
        exact ⟨mem_cons_of_mem m hy, fun heq => hmz (heq ▸ hy)⟩
      · rintro ⟨hmem', hne⟩
        exact (mem_cons.1 hmem').resolve_left hne
    refine ⟨⟨z, (hz z).1 mem_cons_self⟩, ?_⟩
    intro x j hx hxm
    by_cases hjk : j = k
    · subst hjk
      obtain ⟨l', hring', hmem'⟩ := hring.remque.of_mem ((hz x).2 ⟨hx, hxm⟩)
      exact ⟨l', hring', fun y => (hmem' y).trans (hz y)⟩
    -- The neighbours of `m` are on its own ring, so this one is left alone.
    have hapart : ∀ y, s.Refers y j → ∀ z ∈ m :: _ :: l, y ≠ z := fun y hy z hz heq =>
      hjk (hy.2.2.symm.trans ((hmem y).1 (heq ▸ hz)).2.2)
    refine h.keepRing hx (fun y => and_iff_left_of_imp fun hy => ?_) fun y hy => ?_
    · exact hapart y hy m mem_cons_self
    · exact ⟨update_of_ne (hapart y hy _ hring.path.bwd_mem) _ _,
        update_of_ne (hapart y hy _ hring.path.fwd_mem) _ _⟩

lemma Sound.free_shared (h : s.Sound (m :: A) []) (hm : s.Refers m k)
    (href : s.hasReference m = true) : ((s.remque m).mFreeMbuf m).Sound A [] := by
  obtain ⟨⟨z, hz, hzm⟩, hrings⟩ := h.toClusters.ring_remque hm href
  have hre := relinks_remque s m
  have hlive : (s.remque m).Live m := (hre.mType m).trans hm.1
  have hcutm : s.Cut (m / nmbpcl) := (h.page m).1 (by rw [hm.1]; nofun)
  have hrefers : ∀ x j, ((s.remque m).mFreeMbuf m).Refers x j ↔ s.Refers x j ∧ x ≠ m := by
    intro x j
    rw [refers_mFreeMbuf, hre.refers]
  have huse : ∀ j, ((s.remque m).mFreeMbuf m).InUse j ↔ s.InUse j := by
    intro j
    constructor
    · rintro ⟨x, hx⟩
      exact ⟨x, ((hrefers x j).1 hx).1⟩
    rintro ⟨x, hx⟩
    by_cases hxm : x = m
    · subst hxm
      obtain rfl : k = j := hm.2.2.symm.trans hx.2.2
      exact ⟨z, (hrefers z k).2 ⟨hz, hzm⟩⟩
    · exact ⟨x, (hrefers x j).2 ⟨hx, hxm⟩⟩
  refine ⟨(h.toMbufs.congr hre.mType hre.mfree).mFreeMbuf, ?_⟩
  exact {
    toCounts := by
      have hfree : ((s.remque m).mFreeMbuf m).mclfree = s.mclfree := hre.mclfree
      have hclusters : ((s.remque m).mFreeMbuf m).mClusters = s.mClusters := hre.mClusters
      refine .of_at (hfree ▸ h.listedNodup) fun j => (h.at j).congr (huse j) ?_ (by rw [hfree])
        Iff.rfl (by rw [hclusters]) fun hj => ?_
      · rw [cut_mFreeMbuf hlive, Cut, Cut, hre.mType]
      · have hne : j ≠ m / nmbpcl := fun heq => hj (heq ▸ hcutm)
        rw [mclrefcnt_mFreeMbuf hne, hre.mclrefcnt]
    ring := by
      intro x j hx
      obtain ⟨hold, hxm⟩ := (hrefers x j).1 hx
      obtain ⟨l, hring, hmem⟩ := hrings x j hold hxm
      rw [links_mFreeMbuf, links_remque]
      exact ⟨l, hring, fun y => (hmem y).trans (hrefers y j).symm⟩ }

lemma Sound.free_last (h : s.Sound (m :: A) []) (hm : s.Refers m k)
    (href : s.hasReference m = false) :
    s.mclrefcnt k - 1 = 0 ∧ Sound ({ s with
      mclrefcnt := update s.mclrefcnt k (s.mclrefcnt k - 1)
      mclfree   := k :: s.mclfree }.mFreeMbuf m) A [] := by
  obtain ⟨hk1, hkfree, hkcut, hklt⟩ := h.inUse k ⟨m, hm⟩
  have hself : s.links.fwd m = m := by
    have hforward : (s.mbufs m).mExt.forward = m := by
      simpa [hasReference] using href
    exact hforward
  have honly : ∀ y, s.Refers y k → y = m := by
    intro y hy
    obtain ⟨l, hring, hmem⟩ := h.ring m k hm
    have hl := hring.alone hself
    rw [hl] at hmem
    exact mem_singleton.1 ((hmem y).2 hy)
  have hcutm : s.Cut (m / nmbpcl) := (h.page m).1 (by rw [hm.1]; nofun)
  have hcount : s.mclrefcnt k - 1 = 0 := by
    rw [hk1]
    rfl
  refine ⟨hcount, ?_⟩
  generalize hs1 : ({ s with
    mclrefcnt := update s.mclrefcnt k (s.mclrefcnt k - 1)
    mclfree   := k :: s.mclfree } : MbufPool) = s1
  have hmbufs : s1.mbufs = s.mbufs := by rw [← hs1]
  have hmfree : s1.mfree = s.mfree := by rw [← hs1]
  have hmclfree : s1.mclfree = k :: s.mclfree := by rw [← hs1]
  have hclusters : s1.mClusters = s.mClusters := by rw [← hs1]
  have hrefers1 : ∀ x j, s1.Refers x j ↔ s.Refers x j := by
    intro x j
    rw [Refers, Refers, Live, Live, hmbufs]
  have hlive : s1.Live m := ((hrefers1 m k).2 hm).1
  have hrefers : ∀ x j, (s1.mFreeMbuf m).Refers x j ↔ s.Refers x j ∧ j ≠ k := by
    intro x j
    rw [refers_mFreeMbuf, hrefers1]
    constructor
    · rintro ⟨hx, hxm⟩
      exact ⟨hx, fun heq => hxm (honly x (heq ▸ hx))⟩
    rintro ⟨hx, hjk⟩
    refine ⟨hx, ?_⟩
    rintro rfl
    exact hjk (hx.2.2.symm.trans hm.2.2)
  have huse : ∀ j, (s1.mFreeMbuf m).InUse j ↔ s.InUse j ∧ j ≠ k := by
    intro j
    constructor
    · rintro ⟨x, hx⟩
      exact ⟨⟨x, ((hrefers x j).1 hx).1⟩, ((hrefers x j).1 hx).2⟩
    · rintro ⟨⟨x, hx⟩, hjk⟩
      exact ⟨x, (hrefers x j).2 ⟨hx, hjk⟩⟩
  have hcut : ∀ j, (s1.mFreeMbuf m).Cut j ↔ s.Cut j := by
    intro j
    rw [cut_mFreeMbuf hlive, Cut, Cut, hmbufs]
  have hother : ∀ j, ¬ s.Cut j → j ≠ k → (s1.mFreeMbuf m).mclrefcnt j = s.mclrefcnt j := by
    intro j hj hjk
    have hne : j ≠ m / nmbpcl := fun heq => hj (heq ▸ hcutm)
    rw [mclrefcnt_mFreeMbuf hne, ← hs1]
    exact update_of_ne hjk _ _
  refine ⟨(h.toMbufs.congr (fun i => by rw [hmbufs]) hmfree).mFreeMbuf, ?_⟩
  exact {
    ring := by
      intro x j hx
      obtain ⟨hold, hjk⟩ := (hrefers x j).1 hx
      rw [links_mFreeMbuf, MbufPool.links, hmbufs]
      exact h.keepRing hold (fun y => (hrefers y j).trans (and_iff_left hjk)) fun _ _ => ⟨rfl, rfl⟩
    toCounts := by
      have hfree : (s1.mFreeMbuf m).mclfree = k :: s.mclfree := hmclfree
      have hlt : (s1.mFreeMbuf m).mClusters = s.mClusters := hclusters
      refine h.toCounts.change (hfree ▸ nodup_cons.2 ⟨hkfree, h.listedNodup⟩) ?_
        (fun j hjk => (huse j).trans (and_iff_left hjk)) (fun j _ => hcut j) (fun j hjk => ?_)
        (fun _ _ => Iff.rfl) (fun j _ => by rw [hlt]) fun j hjk hj => hother j hj hjk
      · refine .of_listed ?_ (hfree ▸ mem_cons_self) (fun hc => hkcut ((hcut k).1 hc))
          (fun hu => ((huse k).1 hu).2 rfl) not_mem_nil (hlt ▸ hklt)
        have hne : k ≠ m / nmbpcl := fun heq => hkcut (heq ▸ hcutm)
        rw [mclrefcnt_mFreeMbuf hne, ← hs1]
        exact (update_self _ _ _).trans hcount
      · rw [hfree, mem_cons, or_iff_right hjk] }

lemma isExt_mFreeMbuf (hi : i ≠ m) : ((s.mFreeMbuf m).mbufs i).isExt = (s.mbufs i).isExt := by
  unfold MbufPool.mFreeMbuf
  rw [modify_mbufs, if_neg hi]

lemma mFree_spec (h : s.Sound (m :: A) []) :
    ∃ s', s.mFree m = .ok s' ∧ s'.Sound A [] ∧ s'.mcl = s.mcl ∧
      ∀ i, i ≠ m → (s'.mbufs i).isExt = (s.mbufs i).isExt := by
  have hm : s.Live m := (h.owned m).1 mem_cons_self
  unfold mFree
  rw [if_neg (by rw [hm]; nofun)]
  cases hext : (s.mbufs m).isExt with
  | false =>
    have hraw : (s.mbufs m).mType ≠ .raw := by
      rw [hm]
      nofun
    have hnot : ∀ j, ¬ s.Refers m j := fun j hj => absurd (hext.symm.trans hj.2.1) nofun
    have hsame : SameRefs s (s.mFreeMbuf m) :=
      sameRefs_retype hnot rfl rfl nofun hraw ((h.page m).1 hraw)
    exact ⟨_, rfl, ⟨h.toMbufs.mFreeMbuf, h.toClusters.congr hsame⟩, rfl,
      fun i hi => isExt_mFreeMbuf hi⟩
  | true =>
    have hrefers : s.Refers m (s.mbufs m).mExt.extBuf := ⟨hm, hext, rfl⟩
    unfold mFreeExt
    cases href : s.hasReference m with
    | true =>
      have hre := relinks_remque s m
      exact ⟨_, rfl, h.free_shared hrefers href, hre.mcl,
        fun i hi => (isExt_mFreeMbuf hi).trans (hre.isExt i)⟩
    | false =>
      obtain ⟨hcount, hsound⟩ := h.free_last hrefers href
      rw [hcount] at hsound
      simp only [Bool.false_eq_true, if_false, update_self, hcount, if_true]
      exact ⟨_, rfl, hsound, rfl, fun i hi => isExt_mFreeMbuf hi⟩

end MbufPool

end Rhapsody.Bsd
