import Rhapsody.Vm.MapFork
import Rhapsody.Vm.MapClip

/-! `map->size` against the entries of a map. Every operation keeps the difference of the two, as
words; that they are equal follows from the order of the entries. `vm_map_fork` sets the size on
its own. -/

namespace Rhapsody.Vm
open Rhapsody.Lib List

variable {ο σ : Type} {map map' : VmMap ο} {c : Cut ο}

def mappedSize (es : List (VmMapEntry ο)) : ℕ := (es.map fun e => e.vmeEnd - e.vmeStart).sum

def spread (es : List (VmMapEntry ο)) : ℤ := (es.map fun e => (e.vmeEnd : ℤ) - e.vmeStart).sum

@[simp] lemma spread_nil : spread ([] : List (VmMapEntry ο)) = 0 := rfl

@[simp] lemma spread_cons (e : VmMapEntry ο) (es : List (VmMapEntry ο)) :
    spread (e :: es) = (e.vmeEnd : ℤ) - e.vmeStart + spread es := by
  simp [spread]

@[simp] lemma spread_append (es fs : List (VmMapEntry ο)) :
    spread (es ++ fs) = spread es + spread fs := by
  simp [spread]

variable {es : List (VmMapEntry ο)} {start stop : ℕ} {kr : KernReturn} {mem : VmMapEntry ο}
  {object : Option ο} {s s' : σ}

structure VmMap.Counts (map : VmMap ο) : Prop where
  word : map.size < 2 ^ 32
  agree : (map.size : ℤ) ≡ spread map.entries [ZMOD 2 ^ 32]

lemma VmMap.Counts.congr (h : map.Counts) (hsize : map'.size = map.size)
    (hspread : spread map'.entries = spread map.entries) : map'.Counts :=
  ⟨hsize ▸ h.word, by rw [hsize, hspread]; exact h.agree⟩

lemma VmMap.Counts.add (h : map.Counts) {length : ℕ}
    (hlength : (length : ℤ) ≡ (stop : ℤ) - start [ZMOD 2 ^ 32])
    (hsize : map'.size = add32 map.size length)
    (hspread : spread map'.entries = spread map.entries + ((stop : ℤ) - start)) : map'.Counts := by
  refine ⟨by rw [hsize]; exact Nat.mod_lt _ (by norm_num), ?_⟩
  rw [hsize, hspread]
  exact (add32_modEq _ _).trans (h.agree.add hlength)

/-! ## Lists in order -/

lemma mappedSize_le {lo hi : ℕ} (hlo : lo ≤ hi)
    (horder : es.Pairwise fun a b => a.vmeEnd ≤ b.vmeStart)
    (hwithin : ∀ e ∈ es, lo ≤ e.vmeStart ∧ e.vmeStart ≤ e.vmeEnd ∧ e.vmeEnd ≤ hi) :
    mappedSize es ≤ hi - lo := by
  induction es generalizing lo with
  | nil => simp [mappedSize]
  | cons e es ih =>
    obtain ⟨hnext, horder⟩ := pairwise_cons.1 horder
    obtain ⟨he, hrest⟩ := forall_mem_cons.1 hwithin
    have htail := ih he.2.2 horder fun a ha => ⟨hnext a ha, (hrest a ha).2⟩
    simp only [mappedSize, map_cons, sum_cons] at htail ⊢
    omega

lemma spread_eq_mappedSize (h : ∀ e ∈ es, e.vmeStart ≤ e.vmeEnd) : spread es = mappedSize es := by
  induction es with
  | nil => rfl
  | cons e es ih =>
    obtain ⟨he, hrest⟩ := forall_mem_cons.1 h
    rw [spread_cons, ih hrest]
    simp only [mappedSize, map_cons, sum_cons]
    push_cast [he]
    rfl

lemma VmMap.Wf.mappedSize_lt (h : map.Wf) : mappedSize map.entries < 2 ^ 32 := by
  have hwf := h.wellFormed
  rcases le_total map.minOffset map.maxOffset with hle | hle
  · have hbound := mappedSize_le hle hwf.disjoint fun e he =>
      ⟨(h.within he).1, (h.within he).2.1.le, (h.within he).2.2⟩
    have := h.bounds.2
    omega
  have hnil : map.entries = [] := by
    refine eq_nil_iff_forall_not_mem.2 fun e he => ?_
    have := h.within he
    omega
  simp [hnil, mappedSize]

lemma VmMap.Counts.size_eq (h : map.Counts) (hwf : map.Wf) : map.size = mappedSize map.entries := by
  have hspread := spread_eq_mappedSize fun e he => (hwf.within he).2.1.le
  have hagree := h.agree
  rw [hspread] at hagree
  have hmod := Int.natCast_modEq_iff.1 (by exact_mod_cast hagree)
  exact Nat.ModEq.eq_of_lt_of_lt hmod h.word hwf.mappedSize_lt

lemma VmMap.Wf.counts_of_size (h : map.Wf) (hsize : map.size = mappedSize map.entries) :
    map.Counts := by
  refine ⟨hsize ▸ h.mappedSize_lt, ?_⟩
  rw [spread_eq_mappedSize fun e he => (h.within he).2.1.le, hsize]

/-! ## Operations on one map -/

lemma Clipped.counts (h : Clipped map map') : map.Counts → map'.Counts := by
  induction h with
  | rewrite hint hes =>
    refine fun hc => hc.congr rfl ?_
    have hspans : ∀ xs : List (VmMapEntry ο),
        spread xs = ((spans xs).map fun r => (r.stop : ℤ) - r.start).sum := by
      intro xs
      rw [spans, map_map]
      rfl
    rw [hspans, hspans, hes]
  | @split map _ xs ys e a b hsplit =>
    refine fun hc => hc.congr rfl ?_
    simp only [hsplit.before, hsplit.after, spread_append, spread_cons, hsplit.start, hsplit.stop,
      hsplit.mid]
    ring
  | trans _ _ ih ih' => exact fun hc => ih' (ih hc)

lemma Gap.spread (h : Gap map c start stop) :
    spread map.entries = spread c.before + spread c.rest := by
  rw [← h.entries, Cut.entries, spread_append]

lemma insert_counts {w : VmLayers ο σ} {offset : ℕ} (hwf : map.Wf) (h : map.Counts)
    (hinsert : vmMapInsert w mem map object offset start stop s = some (kr, map', s')) :
    map'.Counts := by
  have hword : ∀ {c}, Gap map c start stop → start ≤ 2 ^ 32 := fun hgap =>
    (hgap.le.trans hgap.hi).trans hwf.bounds.2.le
  cases inserts_of_eq hwf hinsert with
  | refuse hint _ _ => exact h.congr rfl rfl
  | extend hint _ hgap _ hprev hend =>
    refine h.add (sub32_modEq stop (hend ▸ hword hgap)) rfl ?_
    simp only [hgap.entries_dropLast hprev, spread_append, spread_cons]
    ring
  | insert hint _ hgap _ =>
    refine h.add (sub32_modEq stop (hword hgap)) rfl ?_
    simp only [hgap.spread, spread_append, spread_cons, insertNew]
    ring

lemma findEntry_counts [DecidableEq ο] {size : ℕ} {a : Option ℕ} (hwf : map.Wf) (h : map.Counts)
    (hfind : vmMapFindEntry mem map size 0 object = some (kr, a, map')) : map'.Counts := by
  have hlength : ∀ start : ℕ, (size : ℤ) ≡ ((add32 start size : ℕ) : ℤ) - start [ZMOD 2 ^ 32] := by
    intro start
    have hadd := (add32_modEq start size).symm.sub_right start
    rwa [add_sub_cancel_left] at hadd
  cases findsEntry_of_eq hwf hfind with
  | noSpace => exact h
  | @extend c start entry hgap hlast hend =>
    refine h.add (hlength start) rfl ?_
    simp only [hgap.entries_dropLast hlast, spread_append, spread_cons, hend]
    ring
  | @insert c start new hgap hid hstart hstop =>
    refine h.add (hlength start) rfl ?_
    simp only [hgap.spread, spread_append, spread_cons, ← hstart, hstop]
    ring

lemma detachEntry_ends [DecidableEq ο] (w : VmLayers ο σ) (map : VmMap ο) (e : VmMapEntry ο)
    (s : σ) : (detachEntry w map e s).1.vmeStart = e.vmeStart ∧
      (detachEntry w map e s).1.vmeEnd = e.vmeEnd := by
  unfold detachEntry
  by_cases hwired : e.wiredCount ≠ 0
  · simp only [if_pos hwired]
    exact ⟨rfl, rfl⟩
  · simp only [if_neg hwired, and_self]

lemma entryDelete_size (w : VmLayers ο σ) (map : VmMap ο) {e : VmMapEntry ο} (s : σ)
    (hstart : e.vmeStart ≤ 2 ^ 32) :
    ((vmMapEntryDelete w map e s).1.size : ℤ) ≡ map.size - (e.vmeEnd - e.vmeStart)
      [ZMOD 2 ^ 32] := by
  have hword : e.size ≤ 2 ^ 32 := (Nat.mod_lt _ (by norm_num)).le
  exact (sub32_modEq map.size hword).trans ((Int.ModEq.refl _).sub (sub32_modEq _ hstart))

lemma deleteLoop_size [DecidableEq ο] (w : VmLayers ο σ) (stop : ℕ)
    (hes : ∀ e ∈ es, e.vmeStart ≤ 2 ^ 32) (hsize : map.size < 2 ^ 32) (s : σ) :
    (deleteLoop w stop es map s).2.1.size < 2 ^ 32 ∧ ((deleteLoop w stop es map s).2.1.size : ℤ) ≡
        map.size - spread es + spread (deleteLoop w stop es map s).1 [ZMOD 2 ^ 32] := by
  induction es generalizing map s with
  | nil => exact ⟨hsize, by simp [deleteLoop]⟩
  | cons e es ih =>
    obtain ⟨he, hrest⟩ := forall_mem_cons.1 hes
    unfold deleteLoop
    by_cases hstart : e.vmeStart < stop
    · by_cases hstop : stop < e.vmeEnd
      · simp only [if_pos hstart, if_pos hstop]
        refine ⟨Nat.mod_lt _ (by norm_num), ?_⟩
        obtain ⟨hs, ht⟩ := detachEntry_ends w map.create (splitEnd map e stop).1
          (w.call (splitEnd map e stop).2.referenceCall s)
        refine (entryDelete_size w map.create _ (hs.trans_le he)).trans ?_
        rw [hs, ht]
        simp only [splitEnd, spread_cons, VmMap.create]
        ring_nf
        rfl
      simp only [if_pos hstart, if_neg hstop]
      obtain ⟨hs, ht⟩ := detachEntry_ends w map e s
      have hdelete := entryDelete_size w map (detachEntry w map e s).2 (hs.trans_le he)
      rw [hs, ht] at hdelete
      have hword : (vmMapEntryDelete w map (detachEntry w map e s).1
        (detachEntry w map e s).2).1.size < 2 ^ 32 := Nat.mod_lt _ (by norm_num)
      obtain ⟨hlt, hagree⟩ := ih hrest hword (vmMapEntryDelete w map (detachEntry w map e s).1
        (detachEntry w map e s).2).2
      refine ⟨hlt, hagree.trans ?_⟩
      refine ((hdelete.sub_right _).add_right _).trans ?_
      rw [spread_cons, sub_sub]
    · simp only [if_neg hstart]
      exact ⟨hsize, by simp⟩

lemma delete_counts [DecidableEq ο] {w : VmLayers ο σ} (hwf : map.Wf) (h : map.Counts)
    (hdelete : vmMapDelete w map start stop s = some (kr, map', s')) : map'.Counts := by
  obtain ⟨c, map1, s1, henter, hentered, -⟩ := enter_spec w true hwf start s
  have hcounts := (enter_clipped hwf henter).counts h
  simp only [vmMapDelete, henter, Option.bind_eq_bind, Option.bind_some] at hdelete
  obtain ⟨freeStart, -, hdelete⟩ := Option.bind_eq_some_iff.1 hdelete
  obtain ⟨map2, hmap2, hsize2⟩ : ∃ map2, (if freeStart ≥ start then
      { map1 with firstFree := lastPtr c.before } else map1) = map2 ∧ map2.size = map1.size := by
    split_ifs <;> exact ⟨_, rfl, rfl⟩
  rw [hmap2] at hdelete
  obtain ⟨-, rfl, -⟩ : _ ∧ _ = map' ∧ _ := by simpa using hdelete
  have hrest : ∀ e ∈ c.rest, e.vmeStart ≤ 2 ^ 32 := by
    intro e he
    have hmem : e ∈ map1.entries := by
      rw [← hentered.entries]
      exact mem_append_right _ he
    have hwithin := hentered.wf.within hmem
    have hbounds := hentered.wf.bounds.2
    omega
  have hword : map2.size < 2 ^ 32 := hsize2 ▸ hcounts.word
  obtain ⟨hlt, hagree⟩ := deleteLoop_size w stop hrest hword s1
  refine ⟨hlt, hagree.trans ?_⟩
  have hspread : spread map1.entries = spread c.before + spread c.rest := by
    rw [← hentered.entries, Cut.entries, spread_append]
  have hold := (hcounts.agree.sub_right (spread c.rest)).add_right
    (spread (deleteLoop w stop c.rest map2 s1).1)
  rw [hspread, add_sub_cancel_right] at hold
  rw [hsize2, spread_append]
  exact hold

/-! ## All maps -/

lemma countsInvariant [DecidableEq ο] (w : VmLayers ο σ) :
    MapInvariant w VmMap.Counts (fun _ _ => True) (fun _ _ => True) where
  create _ _ _ := ⟨by simp [vmMapCreate], by simp [vmMapCreate]⟩
  clipped h hclip := hclip.counts h
  place := id
  insert hwf h _ := insert_counts hwf h
  findEntry hwf h _ := findEntry_counts hwf h
  delete hwf h := delete_counts hwf h

namespace VmSystem

variable {w : VmLayers ο σ} {sys sys' : VmSystem ο σ} {m : ℕ}

def AllCount (sys : VmSystem ο σ) : Prop := ∀ map ∈ sys.maps, map.Counts

lemma AllCount.step [DecidableEq ο] (hok : sys.Ok) (h : sys.AllCount) {e : VmMapEvent ο}
    (hstep : sys.step w e = some sys') : sys'.AllCount := by
  refine AllMaps.step (countsInvariant w) hok h ?_ hstep
  cases e <;> simp [Places]

end VmSystem

end Rhapsody.Vm
