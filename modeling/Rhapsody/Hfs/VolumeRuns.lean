import Rhapsody.Hfs.VolumeContiguous

/-! Sequences of calls that allocate and free blocks of a volume. The volume is followed
together with the sets of blocks that callers own. -/

namespace Rhapsody.Hfs

open Rhapsody.Lib Rhapsody.Lib.Bitmap

variable {vcb vcb' : ExtendedVCB}

structure ExtendedVCB.Ok (vcb : ExtendedVCB) : Prop where
  readable : Readable vcb
  totalBlocks_lt : vcb.totalBlocks < 4294967296
  blockSize_pos : 0 < vcb.blockSize
  freeBlocks_eq : vcb.freeBlocks = clearCount vcb.bitmap vcb.totalBlocks

structure AllocRequest where
  startingBlock : ℕ
  bytesRequested : ℕ
  bytesMaximum : ℕ
  forceContiguous : Bool

namespace AllocRequest

def run (r : AllocRequest) (vcb : ExtendedVCB) : Option (Except OSErr (ℕ × ℕ) × ExtendedVCB) :=
  blockAllocate vcb r.startingBlock r.bytesRequested r.bytesMaximum r.forceContiguous

structure Valid (r : AllocRequest) (vcb : ExtendedVCB) : Prop where
  startingBlock_le : r.startingBlock ≤ vcb.totalBlocks
  requested_pos : 0 < r.bytesRequested
  requested_le : r.bytesRequested ≤ r.bytesMaximum

/-- A request that starts from the volume's allocation pointer finds it inside the
volume. -/
def PointerInside (r : AllocRequest) (vcb : ExtendedVCB) : Prop :=
  r.startingBlock = 0 → vcb.nextAllocation ≤ vcb.totalBlocks

end AllocRequest

/-- A call gives away the blocks `[a, a + n)`, which were free, and changes nothing
else of the bitmap. -/
structure Grants (r : AllocRequest) (vcb vcb' : ExtendedVCB) (a n : ℕ) : Prop where
  nonempty : 0 < n
  inside : a + n ≤ vcb.totalBlocks
  le_maximum : n ≤ r.bytesMaximum ⌈/⌉ vcb.blockSize
  ge_requested : r.forceContiguous = true → r.bytesRequested ⌈/⌉ vcb.blockSize ≤ n
  were_clear : ∀ b, a ≤ b → b < a + n → bit vcb.bitmap b = false
  are_set : ∀ b, a ≤ b → b < a + n → bit vcb'.bitmap b = true
  others : ∀ b, ¬(a ≤ b ∧ b < a + n) → bit vcb'.bitmap b = bit vcb.bitmap b
  freeBlocks : vcb'.freeBlocks + n = vcb.freeBlocks

def AllocEffect (r : AllocRequest) (vcb vcb' : ExtendedVCB) : Except OSErr (ℕ × ℕ) → Prop
  | .ok (a, n) => Grants r vcb vcb' a n
  | .error _ => vcb'.bitmap = vcb.bitmap ∧ vcb'.freeBlocks = vcb.freeBlocks

def AllocRequest.start (r : AllocRequest) (vcb : ExtendedVCB) : ℕ :=
  if r.startingBlock = 0 then vcb.nextAllocation else r.startingBlock

/-- A run of the blocks asked for, or of one block if it need not be contiguous. -/
def AllocRequest.Fits (r : AllocRequest) (vcb : ExtendedVCB) (b : ℕ) : Prop :=
  FreeRun vcb.bitmap b (if r.forceContiguous then r.bytesRequested ⌈/⌉ vcb.blockSize else 1)
    vcb.totalBlocks

/-- A call fails only if nothing fits, and takes the lowest run if it has to be
contiguous. -/
def Complete (r : AllocRequest) (vcb : ExtendedVCB) : Except OSErr (ℕ × ℕ) → Prop
  | .ok (a, _) => r.forceContiguous = true →
    Lowest vcb.bitmap (r.bytesRequested ⌈/⌉ vcb.blockSize) vcb.totalBlocks (r.start vcb) a
  | .error _ => ∀ b, ¬r.Fits vcb b

structure UsedRun (vcb : ExtendedVCB) (a n : ℕ) : Prop where
  inside : a + n ≤ vcb.totalBlocks
  set : ∀ b, a ≤ b → b < a + n → bit vcb.bitmap b = true

structure Frees (vcb vcb' : ExtendedVCB) (a n : ℕ) : Prop where
  are_clear : ∀ b, a ≤ b → b < a + n → bit vcb'.bitmap b = false
  others : ∀ b, ¬(a ≤ b ∧ b < a + n) → bit vcb'.bitmap b = bit vcb.bitmap b
  freeBlocks : vcb'.freeBlocks = vcb.freeBlocks + n

structure SameVolume (vcb vcb' : ExtendedVCB) : Prop where
  readable : vcb'.readable = vcb.readable
  totalBlocks : vcb'.totalBlocks = vcb.totalBlocks
  blockSize : vcb'.blockSize = vcb.blockSize

/-! ### One call -/

lemma divideAndRoundUp_eq (numerator : ℕ) {denominator : ℕ} (hpos : 0 < denominator) :
    divideAndRoundUp numerator denominator = numerator ⌈/⌉ denominator := by
  have hle : numerator / denominator * denominator ≤ numerator := Nat.div_mul_le_self ..
  have hlt : numerator < (numerator / denominator + 1) * denominator :=
    Nat.lt_mul_of_div_lt (Nat.lt_succ_self _) hpos
  rw [Nat.succ_mul] at hlt
  rw [divideAndRoundUp, Nat.ceilDiv_eq_add_pred_div]
  symm
  by_cases hexact : numerator / denominator * denominator ≠ numerator
  · rw [if_pos hexact]
    apply Nat.div_eq_of_lt_le <;> rw [Nat.succ_mul]
    · omega
    · rw [Nat.succ_mul]
      omega
  rw [if_neg hexact]
  apply Nat.div_eq_of_lt_le
  · omega
  · rw [Nat.succ_mul]
    omega

lemma FreeRun.le_freeBlocks {a n : ℕ} (hok : vcb.Ok) (h : FreeRun vcb.bitmap a n vcb.totalBlocks) :
    n ≤ vcb.freeBlocks := by
  have hinside := h.inside
  have hend := hok.totalBlocks_lt
  obtain ⟨bm', -, hfilled⟩ :=
    blockMarkAllocated_spec hok.readable (show a + n < 4294967296 by omega)
  have hcount := hfilled.clearCount_set h.clear hinside
  rw [hok.freeBlocks_eq]
  omega

lemma blockAllocate_spec {r : AllocRequest} (hok : vcb.Ok) (hr : r.Valid vcb)
    (hptr : r.PointerInside vcb) :
    ∃ result vcb', r.run vcb = some (result, vcb') ∧ AllocEffect r vcb vcb' result ∧
      SameVolume vcb vcb' ∧ Complete r vcb result := by
  have hminEq := divideAndRoundUp_eq r.bytesRequested hok.blockSize_pos
  have hmaxEq := divideAndRoundUp_eq r.bytesMaximum hok.blockSize_pos
  have hmin : 0 < divideAndRoundUp r.bytesRequested vcb.blockSize := by
    rw [hminEq, Nat.pos_iff_ne_zero]
    intro hzero
    have hle := (ceilDiv_le_iff_le_mul (b := r.bytesRequested) (c := 0) hok.blockSize_pos).1
      hzero.le
    exact absurd hr.requested_pos (by omega)
  have hmax : divideAndRoundUp r.bytesRequested vcb.blockSize ≤
      divideAndRoundUp r.bytesMaximum vcb.blockSize := by
    rw [hminEq, hmaxEq, ceilDiv_le_iff_le_mul hok.blockSize_pos]
    exact hr.requested_le.trans ((ceilDiv_le_iff_le_mul hok.blockSize_pos).1 le_rfl)
  have hle : r.start vcb ≤ vcb.totalBlocks := by
    unfold AllocRequest.start
    split
    · exact hptr ‹_›
    · exact hr.startingBlock_le
  have hsame : SameVolume vcb vcb := ⟨rfl, rfl, rfl⟩
  rw [AllocRequest.run, blockAllocate]
  by_cases hfull : vcb.freeBlocks = 0
  · rw [if_pos hfull]
    refine ⟨_, _, rfl, ⟨rfl, rfl⟩, hsame, fun b hrun => ?_⟩
    have hcount := FreeRun.le_freeBlocks hok hrun
    split at hcount <;> omega
  by_cases hfew : r.forceContiguous = true ∧
      vcb.freeBlocks < divideAndRoundUp r.bytesRequested vcb.blockSize
  · rw [if_neg hfull, if_pos hfew]
    refine ⟨_, _, rfl, ⟨rfl, rfl⟩, hsame, fun b hrun => ?_⟩
    have hcount := FreeRun.le_freeBlocks hok hrun
    rw [if_pos hfew.1, ← hminEq] at hcount
    exact absurd hfew.2 (not_lt.2 hcount)
  rw [if_neg hfull, if_neg hfew]
  rcases allocateFrom_spec hok.readable r.forceContiguous hle hok.totalBlocks_lt hmin hmax with
    ⟨herror, hnone⟩ | ⟨a, hfound, hpos, hlong, henough, hfrom, hlow⟩
  · rw [AllocRequest.start] at herror
    rw [herror]
    rw [hminEq] at hnone
    exact ⟨_, _, rfl, ⟨rfl, rfl⟩, hsame, hnone⟩
  rw [AllocRequest.start] at hfound
  rw [hfound]
  rw [hminEq] at hlow
  refine ⟨_, _, rfl, ⟨hpos, hfrom.run.inside, hmaxEq ▸ hlong, hminEq ▸ henough, hfrom.run.clear,
    fun b h1 h2 => (hfrom.filled b).trans (if_pos ⟨h1, h2⟩),
    fun b hb => (hfrom.filled b).trans (if_neg hb), ?_⟩, ⟨rfl, rfl, rfl⟩, hlow⟩
  have hcount := hfrom.filled.clearCount_set hfrom.run.clear hfrom.run.inside
  have hfree := hok.freeBlocks_eq
  have hsub := sub32_eq (show a.actualNumBlocks ≤ vcb.freeBlocks by omega)
  dsimp only
  omega

lemma blockDeallocate_spec {a n : ℕ} (hok : vcb.Ok) (hrun : UsedRun vcb a n) :
    ∃ vcb', blockDeallocate vcb a n = (.ok (), vcb') ∧ Frees vcb vcb' a n ∧
      SameVolume vcb vcb' := by
  have hinside := hrun.inside
  have hend := hok.totalBlocks_lt
  have hfree := hok.freeBlocks_eq
  rw [blockDeallocate]
  by_cases hzero : n = 0
  · rw [if_pos hzero]
    exact ⟨vcb, rfl, ⟨fun b h1 h2 => by omega, fun b _ => rfl, by omega⟩, rfl, rfl, rfl⟩
  obtain ⟨bm', hmark, hfilled⟩ := blockMarkFree_spec hok.readable (show a + n < 4294967296 by omega)
  have hcount := hfilled.clearCount_clear hrun.set hinside
  have hle : clearCount bm' vcb.totalBlocks ≤ vcb.totalBlocks := Nat.count_le ..
  have hadd : add32 vcb.freeBlocks n = vcb.freeBlocks + n := add32_eq (by omega)
  rw [if_neg hzero, hmark]
  rw [hadd]
  refine ⟨_, rfl, ⟨fun b h1 h2 => ?_, fun b hb => ?_, rfl⟩, rfl, rfl, rfl⟩
  · exact (hfilled b).trans (if_pos ⟨h1, h2⟩)
  · exact (hfilled b).trans (if_neg hb)

/-! ### Runs -/

variable {r : AllocRequest} {a n : ℕ}

structure Volume where
  vcb : ExtendedVCB
  live : List (Finset ℕ)

inductive VolumeStep : Volume → Volume → Prop
  | granted {v : Volume} {r : AllocRequest} {a n : ℕ} {vcb' : ExtendedVCB} (hr : r.Valid v.vcb)
      (hptr : r.PointerInside v.vcb) (hcall : r.run v.vcb = some (.ok (a, n), vcb')) :
      VolumeStep v ⟨vcb', Finset.Ico a (a + n) :: v.live⟩
  | refused {v : Volume} {r : AllocRequest} {e : OSErr} {vcb' : ExtendedVCB}
      (hr : r.Valid v.vcb) (hptr : r.PointerInside v.vcb)
      (hcall : r.run v.vcb = some (.error e, vcb')) : VolumeStep v ⟨vcb', v.live⟩
  | freed {v : Volume} {a n : ℕ} {result : Except OSErr Unit} {vcb' : ExtendedVCB}
      (hrun : UsedRun v.vcb a n) (hcall : blockDeallocate v.vcb a n = (result, vcb')) :
      VolumeStep v ⟨vcb', v.live.map fun blocks => blocks \ Finset.Ico a (a + n)⟩

def VolumeRun : Volume → Volume → Prop := Relation.ReflTransGen VolumeStep

/-- The count of free blocks is right, every owned block is allocated, and no block is owned twice.
-/
structure Volume.Ok (v : Volume) : Prop where
  vcb : v.vcb.Ok
  marked : ∀ blocks ∈ v.live, ∀ b ∈ blocks, bit v.vcb.bitmap b = true
  disjoint : v.live.Pairwise Disjoint

lemma SameVolume.ok (h : SameVolume vcb vcb') (hok : vcb.Ok)
    (hfree : vcb'.freeBlocks = clearCount vcb'.bitmap vcb.totalBlocks) : vcb'.Ok := by
  refine ⟨fun b => ?_, ?_, ?_, ?_⟩
  · rw [h.readable]
    exact hok.readable b
  · rw [h.totalBlocks]
    exact hok.totalBlocks_lt
  · rw [h.blockSize]
    exact hok.blockSize_pos
  · rw [h.totalBlocks]
    exact hfree

lemma Grants.freeBlocks_eq (h : Grants r vcb vcb' a n) (hok : vcb.Ok) :
    vcb'.freeBlocks = clearCount vcb'.bitmap vcb.totalBlocks := by
  have hfilled : Filled vcb.bitmap vcb'.bitmap a n true := by
    intro b
    split
    · exact h.are_set b (by omega) (by omega)
    · exact h.others b ‹_›
  have hcount := hfilled.clearCount_set h.were_clear h.inside
  have hfree := h.freeBlocks
  have hfree' := hok.freeBlocks_eq
  omega

lemma Frees.freeBlocks_eq (h : Frees vcb vcb' a n) (hok : vcb.Ok) (hrun : UsedRun vcb a n) :
    vcb'.freeBlocks = clearCount vcb'.bitmap vcb.totalBlocks := by
  have hfilled : Filled vcb.bitmap vcb'.bitmap a n false := by
    intro b
    split
    · exact h.are_clear b (by omega) (by omega)
    · exact h.others b ‹_›
  have hcount := hfilled.clearCount_clear hrun.set hrun.inside
  have hfree := h.freeBlocks
  have hfree' := hok.freeBlocks_eq
  omega

variable {v v' : Volume}

lemma Grants.volume_ok (hv : v.Ok) (h : Grants r v.vcb vcb' a n)
    (hsame : SameVolume v.vcb vcb') : Volume.Ok ⟨vcb', Finset.Ico a (a + n) :: v.live⟩ := by
  refine ⟨hsame.ok hv.vcb (h.freeBlocks_eq hv.vcb), ?_, ?_⟩
  · intro blocks hblocks b hb
    rcases List.mem_cons.1 hblocks with rfl | hmem
    · exact h.are_set b (Finset.mem_Ico.1 hb).1 (Finset.mem_Ico.1 hb).2
    by_cases hnew : a ≤ b ∧ b < a + n
    · exact h.are_set b hnew.1 hnew.2
    · exact (h.others b hnew).trans (hv.marked blocks hmem b hb)
  refine List.pairwise_cons.2 ⟨fun blocks hmem => ?_, hv.disjoint⟩
  rw [Finset.disjoint_left]
  intro b hnew hb
  have hclear := h.were_clear b (Finset.mem_Ico.1 hnew).1 (Finset.mem_Ico.1 hnew).2
  rw [hv.marked blocks hmem b hb] at hclear
  cases hclear

lemma Frees.volume_ok (hv : v.Ok) (hrun : UsedRun v.vcb a n) (h : Frees v.vcb vcb' a n)
    (hsame : SameVolume v.vcb vcb') :
    Volume.Ok ⟨vcb', v.live.map fun blocks => blocks \ Finset.Ico a (a + n)⟩ := by
  refine ⟨hsame.ok hv.vcb (h.freeBlocks_eq hv.vcb hrun), ?_, ?_⟩
  · intro blocks hblocks b hb
    obtain ⟨old, hmem, rfl⟩ := List.mem_map.1 hblocks
    obtain ⟨hold, hkept⟩ := Finset.mem_sdiff.1 hb
    rw [Finset.mem_Ico] at hkept
    exact (h.others b hkept).trans (hv.marked old hmem b hold)
  · exact hv.disjoint.map _ fun s t hst =>
      hst.mono Finset.sdiff_subset Finset.sdiff_subset

lemma VolumeStep.ok (hstep : VolumeStep v v') (hv : v.Ok) : v'.Ok := by
  cases hstep with
  | granted hr hptr hcall =>
    obtain ⟨result, vcb'', hspec, heffect, hsame, -⟩ := blockAllocate_spec hv.vcb hr hptr
    rw [hcall] at hspec
    cases hspec
    exact Grants.volume_ok hv heffect hsame
  | refused hr hptr hcall =>
    obtain ⟨result, vcb'', hspec, heffect, hsame, -⟩ := blockAllocate_spec hv.vcb hr hptr
    rw [hcall] at hspec
    cases hspec
    obtain ⟨hbitmap, hfree⟩ := heffect
    refine ⟨hsame.ok hv.vcb ?_, ?_, hv.disjoint⟩
    · rw [hfree, hbitmap]
      exact hv.vcb.freeBlocks_eq
    · rw [hbitmap]
      exact hv.marked
  | freed hrun hcall =>
    obtain ⟨vcb'', hspec, hfrees, hsame⟩ := blockDeallocate_spec hv.vcb hrun
    rw [hcall] at hspec
    cases hspec
    exact Frees.volume_ok hv hrun hfrees hsame

lemma VolumeRun.ok (hrun : VolumeRun v v') (hv : v.Ok) : v'.Ok := by
  induction hrun with
  | refl => exact hv
  | tail _ hstep ih => exact hstep.ok ih

/-- Along every sequence of calls with an allocation pointer inside the volume: no block is owned
twice, the count of free blocks is right, and a call gives away only free blocks, frees exactly the
run it is asked to, and leaves the volume as it was if it fails. -/
theorem volumeRun_allocation (hv : v.Ok) (hrun : VolumeRun v v') : v'.live.Pairwise Disjoint ∧
    v'.vcb.freeBlocks = clearCount v'.vcb.bitmap v'.vcb.totalBlocks ∧
    updateFreeCount v'.vcb = .ok v'.vcb.freeBlocks ∧
    (∀ r : AllocRequest, r.Valid v'.vcb → r.PointerInside v'.vcb →
      ∃ result vcb', r.run v'.vcb = some (result, vcb') ∧ AllocEffect r v'.vcb vcb' result) ∧
    ∀ a n, UsedRun v'.vcb a n →
      ∃ vcb', blockDeallocate v'.vcb a n = (.ok (), vcb') ∧ Frees v'.vcb vcb' a n := by
  have hv' := hrun.ok hv
  refine ⟨hv'.disjoint, hv'.vcb.freeBlocks_eq, ?_, ?_, ?_⟩
  · rw [updateFreeCount_spec hv'.vcb.readable hv'.vcb.totalBlocks_lt, hv'.vcb.freeBlocks_eq]
  · intro r hr hptr
    obtain ⟨result, vcb', hcall, heffect, -⟩ := blockAllocate_spec hv'.vcb hr hptr
    exact ⟨result, vcb', hcall, heffect⟩
  intro a n hused
  obtain ⟨vcb', hcall, hfrees, -⟩ := blockDeallocate_spec hv'.vcb hused
  exact ⟨vcb', hcall, hfrees⟩

def tenBlocks (bitmap : Bitmap) (freeBlocks nextAllocation : ℕ) : ExtendedVCB where
  bitmap := bitmap
  readable _ := true
  totalBlocks := 10
  freeBlocks := freeBlocks
  nextAllocation := nextAllocation
  blockSize := 512

/-- Two blocks and one block are granted, and the first of the two is given back. -/
theorem volumeRun_allocation_threeCalls : ∃ v v' : Volume, v.vcb = tenBlocks (fun _ => 0) 10 0 ∧
      v'.live = [{2}, {1}] ∧ v'.vcb.freeBlocks = 8 ∧ v'.live.Pairwise Disjoint ∧
      updateFreeCount v'.vcb = .ok v'.vcb.freeBlocks := by
  have hv : Volume.Ok ⟨tenBlocks (fun _ => 0) 10 0, []⟩ :=
    ⟨⟨fun _ => rfl, by decide, by decide, by decide +kernel⟩, by simp, List.Pairwise.nil⟩
  obtain ⟨vcb1, vcb2, vcb3, htwo, hone, hfree, hnext, htotal, hbit, hcount⟩ : ∃ vcb1 vcb2 vcb3,
      AllocRequest.run ⟨0, 1024, 1024, true⟩ (tenBlocks (fun _ => 0) 10 0) =
        some (.ok (0, 2), vcb1) ∧
      AllocRequest.run ⟨0, 512, 512, false⟩ vcb1 = some (.ok (2, 1), vcb2) ∧
      blockDeallocate vcb2 0 1 = (.ok (), vcb3) ∧ vcb1.nextAllocation ≤ vcb1.totalBlocks ∧
      1 ≤ vcb2.totalBlocks ∧ bit vcb2.bitmap 0 = true ∧ vcb3.freeBlocks = 8 :=
    ⟨_, _, _, by with_unfolding_all rfl, by with_unfolding_all rfl, by with_unfolding_all rfl,
      by decide +kernel, by decide +kernel, by decide +kernel, by decide +kernel⟩
  have hrun1 : VolumeRun ⟨tenBlocks (fun _ => 0) 10 0, []⟩ _ :=
    .single (.granted (r := ⟨0, 1024, 1024, true⟩) ⟨by decide, by decide, by decide⟩
      (fun _ => by decide) htwo)
  have hrun2 : VolumeRun ⟨tenBlocks (fun _ => 0) 10 0, []⟩ _ :=
    hrun1.tail (.granted (r := ⟨0, 512, 512, false⟩) ⟨Nat.zero_le _, by decide, by decide⟩
      (fun _ => hnext) hone)
  have hused : UsedRun vcb2 0 1 := by
    refine ⟨htotal, fun b _ hb => ?_⟩
    obtain rfl : b = 0 := by omega
    exact hbit
  obtain ⟨hdisjoint, -, hright, -⟩ := volumeRun_allocation hv (hrun2.tail (.freed hused hfree))
  have hlive : [Finset.Ico 2 (2 + 1), Finset.Ico 0 (0 + 2)].map
      (fun blocks => blocks \ Finset.Ico 0 (0 + 1)) = [{2}, {1}] := by decide
  exact ⟨⟨tenBlocks (fun _ => 0) 10 0, []⟩, _, rfl, hlive, hcount, hdisjoint, hright⟩

/-- With the allocation pointer past the end a block outside the volume is given away, and the count
of free blocks is wrong. -/
theorem allocation_outside_volume :
    let vcb := tenBlocks (fun word => if word = 0 then 0x400#32 else 0) 10 20
    let r : AllocRequest := ⟨0, 512, 512, false⟩
    vcb.Ok ∧ r.Valid vcb ∧ ¬r.PointerInside vcb ∧
      ∃ vcb', r.run vcb = some (.ok (20, 1), vcb') ∧ vcb.totalBlocks < 20 ∧
        vcb'.freeBlocks = 9 ∧ clearCount vcb'.bitmap vcb'.totalBlocks = 10 := by
  refine ⟨⟨fun _ => rfl, by decide, by decide, by decide +kernel⟩,
    ⟨by decide, by decide, by decide⟩,
    fun h => absurd (h rfl) (by decide), ?_⟩
  refine ⟨_, by with_unfolding_all rfl, by decide, by with_unfolding_all rfl, by decide +kernel⟩

/-! ### Finding what is free -/

/-- If also the bitmap blocks behind the end of the volume can be read, a call fails only
if nothing fits. -/
theorem blockAllocate_complete (hok : vcb.Ok) (hr : r.Valid vcb) (hptr : r.PointerInside vcb) :
    ∃ result vcb', r.run vcb = some (result, vcb') ∧ AllocEffect r vcb vcb' result ∧
      Complete r vcb result := by
  obtain ⟨result, vcb', hcall, heffect, -, hcomplete⟩ := blockAllocate_spec hok hr hptr
  exact ⟨result, vcb', hcall, heffect, hcomplete⟩

end Rhapsody.Hfs
