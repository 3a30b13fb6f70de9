import Rhapsody.Vm.MapAddress

/-! Wiring (`vm_map_pageable`): the wired count at an address counts the calls
whose range covered it. The count is an unsigned short. -/

namespace Rhapsody.Vm
open Rhapsody.Lib List Option

variable {ο σ : Type} {w : VmLayers ο σ} {map map' map0 : VmMap ο} {s s' s0 : σ}

def wiredAt (map : VmMap ο) (x : ℕ) : Option ℕ := valueAt (fun e _ => e.wiredCount) map.entries x

lemma wiredCount_clipFree : ClipFree fun (e : VmMapEntry ο) (_ : ℕ) => e.wiredCount :=
  ⟨fun _ _ _ _ => rfl, fun _ _ _ _ _ _ _ => rfl⟩

def recount (newPageable : Bool) (n : ℕ) : ℕ :=
  if newPageable then (n + (2 ^ 16 - 1)) % 2 ^ 16 else (n + 1) % 2 ^ 16

lemma wireEntry_wiredCount (w : VmLayers ο σ) (e : VmMapEntry ο) (s : σ) :
    (wireEntry w e s).1.wiredCount = recount false e.wiredCount := by
  unfold wireEntry
  dsimp only
  split_ifs <;> rfl

lemma unwireEntry_wiredCount (w : VmLayers ο σ) (pmap : ℕ) (e : VmMapEntry ο) (s : σ) :
    (unwireEntry w pmap e s).1.wiredCount = recount true e.wiredCount := by
  rw [unwireEntry, recount, if_pos rfl]

lemma mem_visited {stop : ℕ} {es : List (VmMapEntry ο)} {e : VmMapEntry ο}
    (hdisjoint : es.Pairwise fun a b => a.vmeEnd ≤ b.vmeStart)
    (hnonempty : ∀ e ∈ es, e.vmeStart < e.vmeEnd) (he : e ∈ es) (hstart : e.vmeStart < stop) :
    e ∈ visited stop es := by
  induction es with
  | nil => cases he
  | cons a es ih =>
    obtain ⟨hnext, hdisjoint'⟩ := pairwise_cons.1 hdisjoint
    have ha : a.vmeStart < stop := by
      rcases mem_cons.1 he with rfl | he
      · exact hstart
      · exact (hnonempty a (mem_cons_self ..)).trans ((hnext e he).trans_lt hstart)
    rw [visited, takeWhile_cons_of_pos (by simpa using ha)]
    rcases mem_cons.1 he with rfl | he
    · exact mem_cons_self ..
    · exact mem_cons_of_mem _ (ih hdisjoint' (fun b hb => hnonempty b (mem_cons_of_mem _ hb)) he)

structure Recounted (newPageable : Bool) (start stop : ℕ) (map map' : VmMap ο) (kr : KernReturn) :
    Prop where
  listed : map'.Listed
  refused : kr ≠ .success → newPageable = true ∧ ∀ x, wiredAt map' x = wiredAt map x
  done : kr = .success → ∀ x, wiredAt map' x =
    if start ≤ x ∧ x < stop then (wiredAt map x).map (recount newPageable) else wiredAt map x
  wired : kr = .success → newPageable = true → ∀ x, start ≤ x ∧ x < stop → wiredAt map x ≠ some 0

lemma Recounted.of_value {newPageable : Bool} {start stop : ℕ} (h : map.Listed)
    (hlisted : map'.Listed)
    (hvalue : ∀ x, wiredAt map' x =
      if (vmMapRangeCheck map start stop).1 ≤ x ∧ x < (vmMapRangeCheck map start stop).2 then
        (wiredAt map x).map (recount newPageable) else wiredAt map x)
    (hwired : newPageable = true → ∀ x, start ≤ x ∧ x < stop → wiredAt map x ≠ some 0) :
    Recounted newPageable start stop map map' .success :=
  ⟨hlisted, fun hkr => absurd rfl hkr, fun _ x => by
      simp only [hvalue x, map_eq_bind]
      exact h.ite_rangeCheck _ _ start stop x, fun _ => hwired⟩

lemma VmMap.Listed.pageable (h : map.Listed) (w : VmLayers ο σ) (newPageable : Bool)
    (start stop : UInt32) (s : σ) :
    ∃ kr map' s', vmMapPageable w map start.toNat stop.toNat newPageable s = some (kr, map', s') ∧
      Recounted newPageable start.toNat stop.toNat map map' kr := by
  obtain ⟨hstart, hstop⟩ := rangeCheck_lt map start.toNat stop.toNat_lt
  obtain ⟨c, map1, s1, henter, hreached⟩ := h.enter wiredCount_clipFree w false hstart s
  simp only [vmMapPageable, henter, bind_eq_bind, bind_some]
  cases newPageable with
  | false =>
    obtain ⟨hlisted, hvalue⟩ := hreached.clipRange wiredCount_clipFree (w := w) (wireEntry_span w)
      (fun e s x => wireEntry_wiredCount w e s) hstop s1
    have hsub : ∀ e ∈ visited (vmMapRangeCheck map start.toNat stop.toNat).2
        (clipRange w (vmMapRangeCheck map start.toNat stop.toNat).2 (wireEntry w) c map1 s1).1.rest,
        e ∈ (clipRange w (vmMapRangeCheck map start.toNat stop.toNat).2 (wireEntry w) c map1
          s1).2.1.entries :=
      fun e he => mem_append_right _ (( takeWhile_prefix _).subset he)
    generalize clipRange w _ (wireEntry w) c map1 s1 = r at hlisted hvalue hsub
    obtain ⟨c2, map2, s2⟩ := r
    -- the second pass moves the hint only
    obtain ⟨hlisted', hentries⟩ := wirePass_keeps
      (P := fun m => m.Listed ∧ m.entries = map2.entries)
      w s2 (fun m e he hm => ⟨⟨hm.1.inOrder, hm.1.within, pointsInto_mem he⟩, hm.2⟩)
      ⟨hlisted, rfl⟩ hsub
    refine ⟨_, _, _, rfl, .of_value h hlisted' (fun x => ?_) (by simp)⟩
    rw [wiredAt, hentries]
    exact hvalue x
  | true =>
    simp only [if_true]
    obtain ⟨hlisted, hvalue⟩ := hreached.clipRange wiredCount_clipFree (w := w)
      (unwireEntry_span w map1.pmap) (fun e s x => unwireEntry_wiredCount w map1.pmap e s) hstop s1
    by_cases hzero : (visited (vmMapRangeCheck map start.toNat stop.toNat).2 c.rest).any
        fun entry => entry.wiredCount = 0
    · rw [if_pos hzero]
      exact ⟨_, _, _, rfl, hreached.listed, fun _ => ⟨rfl, hreached.value⟩, by simp, by simp⟩
    rw [if_neg hzero]
    refine ⟨_, _, _, rfl, .of_value h hlisted hvalue fun _ x hx hat => hzero ?_⟩
    -- the entry at an address of the range has been visited
    obtain ⟨e0, hat0, -⟩ := map_eq_some_iff.1 hat
    have hrange := (h.mem_rangeCheck (mem_of_find?_eq_some hat0)
      (by simpa using find?_some hat0)).2 hx
    obtain ⟨e, hat1, hcount⟩ := map_eq_some_iff.1 ((hreached.value x).trans hat)
    have hin : e.Contains x := by simpa using find?_some hat1
    have he : e ∈ c.entries := hreached.entries ▸ mem_of_find?_eq_some hat1
    have hrest : e ∈ c.rest := by
      rcases mem_append.1 he with he | he
      · exact absurd (hin.2.trans_le (hreached.before e he)) hrange.1.not_gt
      · exact he
    obtain ⟨hdisjoint, hnonempty⟩ := hreached.rest_disjoint
    have hvisited := mem_visited hdisjoint hnonempty hrest (hin.1.trans_lt hrange.2)
    exact any_eq_true.2 ⟨e, hvisited, by simpa using hcount⟩

/-! ## Runs -/

structure WireCall where
  newPageable : Bool
  start : UInt32
  stop : UInt32

def covering (newPageable : Bool) (calls : List WireCall) (x : ℕ) : ℕ :=
  calls.countP fun o => o.newPageable = newPageable ∧ o.start.toNat ≤ x ∧ x < o.stop.toNat

def Countable (map : VmMap ο) (start stop : UInt32) : Prop :=
  ∀ x n, start.toNat ≤ x → x < stop.toNat → wiredAt map x = some n → n + 1 < 2 ^ 16

inductive WireRun (w : VmLayers ο σ) (ok : VmMap ο → UInt32 → UInt32 → Prop) (map0 : VmMap ο)
    (s0 : σ) : List WireCall → VmMap ο → σ → Prop where
  | start : WireRun w ok map0 s0 [] map0 s0
  | wire {calls map s map' s'} (start stop : UInt32) : WireRun w ok map0 s0 calls map s →
    ok map start stop →
    vmMapPageable w map start.toNat stop.toNat false s = some (.success, map', s') →
    WireRun w ok map0 s0 (calls ++ [⟨false, start, stop⟩]) map' s'
  | unwire {calls map s map' s'} (start stop : UInt32) : WireRun w ok map0 s0 calls map s →
    vmMapPageable w map start.toNat stop.toNat true s = some (.success, map', s') →
    WireRun w ok map0 s0 (calls ++ [⟨true, start, stop⟩]) map' s'
  | refused {calls map s map' s'} (start stop : UInt32) : WireRun w ok map0 s0 calls map s →
    vmMapPageable w map start.toNat stop.toNat true s = some (.invalidArgument, map', s') →
    WireRun w ok map0 s0 calls map' s'
  | clipStart {calls map s c} (id : ℕ) (start : UInt32) : WireRun w ok map0 s0 calls map s →
    cutAt id map.entries = some c → (∀ e ∈ c.rest.head?, start.toNat < e.vmeEnd) →
    WireRun w ok map0 s0 calls (vmMapClipStart w start.toNat c map s).2.1
      (vmMapClipStart w start.toNat c map s).2.2
  | clipEnd {calls map s map' s'} (id : ℕ) (stop : UInt32) : WireRun w ok map0 s0 calls map s →
    (∀ e ∈ map.entries, e.id = id → e.vmeStart < stop.toNat) →
    vmMapClipEnd w stop.toNat id map s = some (map', s') → WireRun w ok map0 s0 calls map' s'

structure Counted (map0 : VmMap ο) (calls : List WireCall) (map : VmMap ο) : Prop where
  listed : map.Listed
  short : ∀ x n, wiredAt map x = some n → n < 2 ^ 16
  count : ∀ x, (wiredAt map x).map (· + covering true calls x) =
    (wiredAt map0 x).map (· + covering false calls x)

variable {calls : List WireCall}

lemma Counted.same (h : Counted map0 calls map) (hlisted : map'.Listed)
    (hsame : ∀ x, wiredAt map' x = wiredAt map x) : Counted map0 calls map' :=
  ⟨hlisted, fun x n hn => h.short x n (hsame x ▸ hn), fun x => hsame x ▸ h.count x⟩

lemma covering_append_singleton (p : Bool) (o : WireCall) (x : ℕ) :
    covering p (calls ++ [o]) x = covering p calls x +
      if o.newPageable = p ∧ o.start.toNat ≤ x ∧ x < o.stop.toNat then 1 else 0 := by
  simp [covering, countP_append, countP_singleton]

lemma recount_add {p : Bool} {n : ℕ} (hshort : n < 2 ^ 16) (hwrap : p = false → n + 1 < 2 ^ 16)
    (hpos : p = true → n ≠ 0) :
    recount p n + (if p = true then 1 else 0) = n + if p = false then 1 else 0 := by
  cases p with
  | false =>
    have hlt := hwrap rfl
    simp only [recount, Bool.false_eq_true, if_false, if_true]
    omega
  | true =>
    have hne := hpos rfl
    simp only [recount, if_true, Bool.true_eq_false, if_false]
    omega

lemma Counted.recount (h : Counted map0 calls map) {o : WireCall}
    (hcall : Recounted o.newPageable o.start.toNat o.stop.toNat map map' .success)
    (hwrap : o.newPageable = false → Countable map o.start o.stop) :
    Counted map0 (calls ++ [o]) map' := by
  have hvalue := hcall.done rfl
  refine ⟨hcall.listed, fun x n hn => ?_, fun x => ?_⟩
  · rw [hvalue x] at hn
    split_ifs at hn
    · obtain ⟨k, -, rfl⟩ := map_eq_some_iff.1 hn
      unfold Vm.recount
      split_ifs <;> exact Nat.mod_lt _ (by decide)
    · exact h.short x n hn
  have hcount := h.count x
  rw [hvalue x, covering_append_singleton, covering_append_singleton]
  by_cases hx : o.start.toNat ≤ x ∧ x < o.stop.toNat
  · rw [if_pos hx]
    cases hat : wiredAt map x with
    | none =>
      rw [hat] at hcount
      cases hat0 : wiredAt map0 x with
      | none => rfl
      | some n => simp [hat0] at hcount
    | some n =>
      rw [hat] at hcount
      cases hat0 : wiredAt map0 x with
      | none => simp [hat0] at hcount
      | some n0 =>
        simp only [hat0, map_some, some.injEq] at hcount ⊢
        have hadd := recount_add (h.short x n hat) (fun hkind => hwrap hkind x n hx.1 hx.2 hat)
          fun hkind hzero => hcall.wired rfl hkind x hx (hzero ▸ hat)
        simp only [hx, and_true]
        omega
  · simp only [hx, and_false, if_false, add_zero]
    exact hcount

lemma WireRun.counted (h0 : map0.WellFormed) (hshort : ∀ e ∈ map0.entries, e.wiredCount < 2 ^ 16)
    (hrun : WireRun w Countable map0 s0 calls map s) : Counted map0 calls map := by
  induction hrun with
  | start =>
    refine ⟨h0.listed, fun x n hn => ?_, fun x => rfl⟩
    obtain ⟨e, hat, rfl⟩ := map_eq_some_iff.1 hn
    exact hshort e (mem_of_find?_eq_some hat)
  | @wire calls map s map' s' start stop _ hok hcall ih =>
    obtain ⟨kr, map1, s1, heq, hrecount⟩ := ih.listed.pageable w false start stop s
    cases hcall.symm.trans heq
    exact ih.recount (o := ⟨false, start, stop⟩) hrecount fun _ => hok
  | @unwire calls map s map' s' start stop _ hcall ih =>
    obtain ⟨kr, map1, s1, heq, hrecount⟩ := ih.listed.pageable w true start stop s
    cases hcall.symm.trans heq
    exact ih.recount (o := ⟨true, start, stop⟩) hrecount fun hkind => absurd hkind (by simp)
  | @refused calls map s map' s' start stop _ hcall ih =>
    obtain ⟨kr, map1, s1, heq, hrecount⟩ := ih.listed.pageable w true start stop s
    cases hcall.symm.trans heq
    exact ih.same hrecount.listed (hrecount.refused (by simp)).2
  | @clipStart calls map s c id start _ hcut hin ih =>
    have hclip := clipStart_listed wiredCount_clipFree w ih.listed (cutAt_eq_some hcut).1.symm
      (fun e rest hrest => hin e (by simp [hrest])) start.toNat_lt s
    exact ih.same hclip.1 hclip.2
  | @clipEnd calls map s map' s' id stop _ hin hclip ih =>
    obtain ⟨hlisted, hsame⟩ := clipEnd_listed wiredCount_clipFree ih.listed hin stop.toNat_lt hclip
    exact ih.same hlisted hsame

/-- As long as no count passes its highest value, the wired count at an address is the first one
plus the wires less the unwires that covered it, and an unwire that is refused changes none. -/
theorem wireRun_counts (h0 : map0.WellFormed) (hshort : ∀ e ∈ map0.entries, e.wiredCount < 2 ^ 16)
    (hrun : WireRun w Countable map0 s0 calls map s) :
    (∀ x, (wiredAt map x).map (· + covering true calls x) =
        (wiredAt map0 x).map (· + covering false calls x)) ∧
      ∀ (start stop : UInt32) map' s',
        vmMapPageable w map start.toNat stop.toNat true s = some (.invalidArgument, map', s') →
          ∀ x, wiredAt map' x = wiredAt map x := by
  have hcounted := hrun.counted h0 hshort
  refine ⟨hcounted.count, fun start stop map' s' hcall => ?_⟩
  obtain ⟨kr, map1, s1, heq, hrecount⟩ := hcounted.listed.pageable w true start stop s
  cases hcall.symm.trans heq
  exact (hrecount.refused (by simp)).2

def wiredPage (n : ℕ) : VmMap Unit :=
  { vmMapCreate Unit 0 0x1000 0x3000 with
    entries := [{ clearEntry with
      vmeStart := 0x1000, vmeEnd := 0x2000, object := some (), wiredCount := n }]
    nentries := 1, size := 0x1000, created := 1 }

lemma wiredPage_wellFormed (n : ℕ) : (wiredPage n).WellFormed := by
  refine ⟨?_, ?_, ?_, ?_, rfl, ?_, ?_⟩ <;> simp [wiredPage, vmMapCreate]

lemma wiredPage_wire (n : ℕ) : vmMapPageable nullLayers (wiredPage n) 0x1000 0x2000 false () =
      some (.success, wiredPage ((n + 1) % 2 ^ 16), ()) := by
  have hwire : ∀ e : VmMapEntry Unit, e.object = some () → e.needsCopy = false →
      wireEntry nullLayers e () = ({ e with wiredCount := (e.wiredCount + 1) % 2 ^ 16 }, ()) := by
    intro e hobject hcopy
    simp [wireEntry, hobject, hcopy]
  have hpass : ∀ es map, wirePass nullLayers es map () = (map, ()) := by
    intro es map
    induction es with
    | nil => rfl
    | cons e es ih =>
      have hfault : ∀ start stop, nullLayers.faultWire map.pmap start stop () = (false, ()) :=
        fun _ _ => rfl
      simp [wirePass, ih, hfault]
  simp [vmMapPageable, vmMapRangeCheck, vmMapEnter, vmMapLookupEntry, hintCut, vmMapClipStart,
    clipRange, clipLoop, hwire, hpass, Cut.entries, wiredPage, vmMapCreate, clearEntry]

/-- Wired 65536 times, a page counts as not wired at all. -/
theorem wire_wraps :
    ∃ calls map, WireRun nullLayers (fun _ _ _ => True) (wiredPage 0) () calls map () ∧
      (wiredPage 0).WellFormed ∧ wiredAt (wiredPage 0) 0x1000 = some 0 ∧
      covering false calls 0x1000 = 65536 ∧ covering true calls 0x1000 = 0 ∧
      wiredAt map 0x1000 = some 0 := by
  have hrun : ∀ k, WireRun nullLayers (fun _ _ _ => True) (wiredPage 0) ()
      (replicate k ⟨false, 0x1000, 0x2000⟩) (wiredPage (k % 2 ^ 16)) () := by
    intro k
    induction k with
    | zero => exact .start
    | succ k ih =>
      rw [replicate_succ', ← Nat.mod_add_mod]
      exact .wire 0x1000 0x2000 ih trivial (wiredPage_wire (k % 2 ^ 16))
  refine ⟨_, _, hrun 65536, wiredPage_wellFormed 0, by decide, ?_, ?_, by decide⟩
  all_goals
    rw [covering, countP_replicate]
    rfl

/-- A page is wired over both its halves and one of them unwired. -/
theorem wireRun_counts_halves : ∃ map, WireRun nullLayers Countable (wiredPage 0) ()
        [⟨false, 0x1000, 0x2000⟩, ⟨true, 0x1000, 0x1800⟩] map () ∧
      wiredAt map 0x1000 = some 0 ∧ wiredAt map 0x1800 = some 1 ∧
      ∀ x, (wiredAt map x).map (· + covering true
        [⟨false, 0x1000, 0x2000⟩, ⟨true, 0x1000, 0x1800⟩] x) = (wiredAt (wiredPage 0) x).map
          (· + covering false [⟨false, 0x1000, 0x2000⟩, ⟨true, 0x1000, 0x1800⟩] x) := by
  have hone : WireRun nullLayers Countable (wiredPage 0) () [⟨false, 0x1000, 0x2000⟩] (wiredPage 1)
      () := by
    refine .wire 0x1000 0x2000 .start (fun x n _ _ hn => ?_) (wiredPage_wire 0)
    obtain ⟨e, hat, rfl⟩ := map_eq_some_iff.1 hn
    obtain rfl := mem_singleton.1 (mem_of_find?_eq_some hat)
    exact (by decide : 0 + 1 < 2 ^ 16)
  have hboth := WireRun.unwire 0x1000 0x1800 hone rfl
  exact ⟨_, hboth, by decide, by decide,
    (wireRun_counts (wiredPage_wellFormed 0) (by simp [wiredPage]) hboth).1⟩

end Rhapsody.Vm
