import Rhapsody.Hfs.VolumeBitmap

/-! The search for contiguous free blocks, from back to front below a block that would end the
range: `[p, p + freeBlocks)` is known to be free, and so are the `countedFreeBlocks` blocks before
`stopBlock`. A used block moves `stopBlock` past all that was seen. -/

namespace Rhapsody.Hfs

open Rhapsody.Lib Rhapsody.Lib.Bitmap

variable {vcb : ExtendedVCB} {bm : Bitmap} {s s' : ScanState}
  {endingBlock minBlocks p block fuel : ℕ}

structure ScanState.At (s : ScanState) (bm : Bitmap) (block : ℕ) : Prop where
  currentBlock : s.currentBlock = block
  currentWord : s.currentWord = block / 32
  wordsLeft : s.wordsLeft = block / 32 % 128
  currentSector : s.currentSector = block / 4096
  tempWord : s.tempWord = bm (block / 32)
  bitMask : s.bitMask = mask (block % 32)

structure ScanState.Range (s : ScanState) (bm : Bitmap) (endingBlock minBlocks p : ℕ) : Prop where
  sum : p + s.freeBlocks + s.countedFreeBlocks = s.stopBlock + minBlocks
  inside : p + s.freeBlocks ≤ endingBlock
  counted : s.countedFreeBlocks ≤ s.stopBlock
  below : ∀ i, s.stopBlock - s.countedFreeBlocks ≤ i → i < s.stopBlock → bit bm i = false
  above : ∀ i, p ≤ i → i < p + s.freeBlocks → bit bm i = false

structure ScanState.Found (s : ScanState) (bm : Bitmap) (endingBlock minBlocks : ℕ) : Prop where
  enough : minBlocks ≤ s.freeBlocks + s.countedFreeBlocks
  counted : s.countedFreeBlocks ≤ s.stopBlock
  run : FreeRun bm (s.stopBlock - s.countedFreeBlocks) minBlocks endingBlock

lemma ScanState.Range.found (h : s.Range bm endingBlock minBlocks p) (hp : p ≤ s.stopBlock) :
    s.Found bm endingBlock minBlocks := by
  have hsum := h.sum
  have hinside := h.inside
  have hcounted := h.counted
  refine ⟨by omega, hcounted, by omega, fun i h1 h2 => ?_⟩
  by_cases hi : i < s.stopBlock
  · exact h.below i h1 hi
  · exact h.above i (by omega) (by omega)

lemma ScanState.Found.mono (h : s.Found bm endingBlock minBlocks)
    (hstop : s'.stopBlock = s.stopBlock) (hcounted : s'.countedFreeBlocks = s.countedFreeBlocks)
    (hfree : s.freeBlocks ≤ s'.freeBlocks) : s'.Found bm endingBlock minBlocks := by
  have henough := h.enough
  refine ⟨by omega, ?_, ?_⟩
  · rw [hstop, hcounted]
    exact h.counted
  · rw [hstop, hcounted]
    exact h.run

lemma ScanState.Range.down {q : ℕ} (h : s.Range bm endingBlock minBlocks p)
    (hstop : s'.stopBlock = s.stopBlock) (hcounted : s'.countedFreeBlocks = s.countedFreeBlocks)
    (hfree : q + s'.freeBlocks = p + s.freeBlocks)
    (hclear : ∀ i, q ≤ i → i < p → bit bm i = false) :
    s'.Range bm endingBlock minBlocks q := by
  have hsum := h.sum
  have hinside := h.inside
  refine ⟨by omega, by omega, ?_, ?_, fun i h1 h2 => ?_⟩
  · rw [hstop, hcounted]
    exact h.counted
  · rw [hstop, hcounted]
    exact h.below
  by_cases hi : i < p
  · exact hclear i h1 hi
  · exact h.above i (by omega) (by omega)

variable {i maxBlocks startingBlock : ℕ}

/-- No run that is long enough starts in what the search has left behind. -/
structure ScanState.Skips (s : ScanState) (bm : Bitmap) (endingBlock minBlocks startingBlock : ℕ) :
    Prop where
  start_le : startingBlock + s.countedFreeBlocks ≤ s.stopBlock
  none : ∀ b, startingBlock ≤ b → b + s.countedFreeBlocks < s.stopBlock →
    ¬FreeRun bm b minBlocks endingBlock

lemma ScanState.Skips.congr (h : s.Skips bm endingBlock minBlocks startingBlock)
    (hstop : s'.stopBlock = s.stopBlock) (hcounted : s'.countedFreeBlocks = s.countedFreeBlocks) :
    s'.Skips bm endingBlock minBlocks startingBlock := by
  refine ⟨?_, ?_⟩ <;> rw [hstop, hcounted]
  · exact h.start_le
  · exact h.none

theorem ScanState.Skips.used (h : s.Skips bm endingBlock minBlocks startingBlock)
    (hr : s.Range bm endingBlock minBlocks (block + 1)) (hused : bit bm block ≠ false) :
    ∀ b, startingBlock ≤ b → b ≤ block → ¬FreeRun bm b minBlocks endingBlock := by
  intro b hb hle hrun
  by_cases hbehind : b + s.countedFreeBlocks < s.stopBlock
  · exact h.none b hb hbehind hrun
  · have hsum := hr.sum
    exact hused (hrun.clear block hle (by omega))

/-- The search has passed block 0 with enough found, and stops at a used block of its word. -/
structure ScanState.Tail (s : ScanState) (bm : Bitmap) (endingBlock minBlocks i : ℕ) : Prop where
  found : s.Found bm endingBlock minBlocks
  bitMask : s.bitMask = mask i
  used : ∃ j ≤ i, s.tempWord.getMsbD j = true

lemma scanBack_used (hfound : s.Found vcb.bitmap endingBlock minBlocks)
    (hused : s.tempWord &&& s.bitMask ≠ 0) :
    scanBack vcb endingBlock minBlocks (fuel + 1) s = some (.ok s) := by
  rw [scanBack]
  by_cases hstop : s.currentBlock < s.stopBlock
  · exact if_pos hstop
  · rw [if_neg hstop, if_neg hused]
    exact if_pos hfound.enough

lemma previousBit_bit (hi : i + 1 < 32) (hmask : s.bitMask = mask (i + 1)) :
    previousBit vcb minBlocks fuel s =
      some (.ok (false, { s with currentBlock := sub32 s.currentBlock 1, bitMask := mask i })) := by
  have hshift : s.bitMask <<< 1 = mask i := by
    rw [hmask, mask_shiftLeft hi (Nat.succ_pos i)]
    rfl
  have hne : mask i ≠ 0 := by
    rw [Ne, mask_eq_zero (by omega)]
    omega
  rw [previousBit, hshift]
  exact if_neg hne

lemma scanBack_tail (hi : i < 32) (h : s.Tail vcb.bitmap endingBlock minBlocks i)
    (hfuel : i < fuel) :
    ∃ s', scanBack vcb endingBlock minBlocks fuel s = some (.ok s') ∧
      s'.Found vcb.bitmap endingBlock minBlocks ∧ s'.stopBlock = s.stopBlock ∧
      s'.countedFreeBlocks = s.countedFreeBlocks := by
  obtain ⟨j, hj, hbit⟩ := h.used
  induction i generalizing s fuel with
  | zero =>
    obtain _ | fuel := fuel
    · omega
    have hused : s.tempWord &&& s.bitMask ≠ 0 := by
      rw [h.bitMask, Ne, and_mask_eq_zero hi, ← Nat.le_zero.1 hj, hbit]
      decide
    exact ⟨s, scanBack_used h.found hused, h.found, rfl, rfl⟩
  | succ i ih =>
    obtain _ | fuel := fuel
    · omega
    by_cases hused : s.tempWord &&& s.bitMask ≠ 0
    · exact ⟨s, scanBack_used h.found hused, h.found, rfl, rfl⟩
    have hclear : s.tempWord &&& s.bitMask = 0 := not_not.1 hused
    have hne : j ≠ i + 1 := by
      rintro rfl
      rw [h.bitMask, and_mask_eq_zero hi, hbit] at hclear
      cases hclear
    by_cases hstop : s.currentBlock < s.stopBlock
    · rw [scanBack, if_pos hstop]
      exact ⟨s, rfl, h.found, rfl, rfl⟩
    rw [scanBack, if_neg hstop, if_pos hclear,
      previousBit_bit (s := { s with freeBlocks := s.freeBlocks + 1 }) hi h.bitMask]
    refine ih (by omega) ⟨?_, rfl, j, by omega, hbit⟩ (by omega) (by omega) hbit
    exact h.found.mono rfl rfl (Nat.le_succ _)

structure ScanState.Past (s : ScanState) (p : ℕ) : Prop where
  aligned : p % 32 = 0
  currentBlock : s.currentBlock = sub32 p 1
  currentWord : s.currentWord = p / 32
  wordsLeft : s.wordsLeft = p / 32 % 128
  currentSector : s.currentSector = p / 4096
  bitMask : s.bitMask = mask 31

lemma previousWord_eq (hread : Readable vcb) (h : s.Past p) (hp : 0 < p) :
    previousWord vcb s = .ok { s with
      currentWord := (p - 1) / 32
      wordsLeft := (p - 1) / 32 % 128
      currentSector := (p - 1) / 4096 } := by
  have hblock : s.currentBlock = p - 1 := by rw [h.currentBlock, sub32_eq (by omega)]
  have haligned := h.aligned
  rw [previousWord, h.wordsLeft, h.currentWord, hblock, readBitmapBlock_eq hread]
  by_cases hleft : p / 32 % 128 ≠ 0
  · have hsector : (p - 1) / 4096 = s.currentSector := by
      rw [h.currentSector]
      omega
    rw [if_pos hleft, hsector, show (p - 1) / 32 = p / 32 - 1 by omega,
      show (p / 32 - 1) % 128 = p / 32 % 128 - 1 by omega]
    rfl
  rw [if_neg hleft]
  change Except.ok _ = Except.ok _
  rw [kBitsPerBlock, kWordsPerBlock, show (p - 1) / 4096 * 128 + 128 - 1 = (p - 1) / 32 by omega,
    show (p - 1) / 32 % 128 = 128 - 1 by omega]

/-- What a step down from `p` leads to: enough was found, or the search goes on at a
block below `p`. -/
structure Stepped (bm : Bitmap) (endingBlock minBlocks p : ℕ) (s : ScanState)
    (r : Bool × ScanState) : Prop where
  stopBlock : r.2.stopBlock = s.stopBlock
  counted : r.2.countedFreeBlocks = s.countedFreeBlocks
  found : r.1 = true → r.2.Found bm endingBlock minBlocks
  goesOn : r.1 = false → r.2.Tail bm endingBlock minBlocks 31 ∨
    ∃ q < p, s.stopBlock ≤ q + 1 ∧ r.2.At bm q ∧ r.2.Range bm endingBlock minBlocks (q + 1)

lemma nextWord_zero (hread : Readable vcb) (h : s.Past 0)
    (hr : s.Range vcb.bitmap endingBlock minBlocks 0) :
    ∃ r, nextWord vcb minBlocks (fuel + 1) s = some (.ok r) ∧
      Stepped vcb.bitmap endingBlock minBlocks 0 s r := by
  have hfound := hr.found (Nat.zero_le _)
  have henough := hfound.enough
  have hmoved : ∃ s1, previousWord vcb s = .ok s1 ∧ s1.stopBlock = s.stopBlock ∧
      s1.countedFreeBlocks = s.countedFreeBlocks ∧ s1.freeBlocks = s.freeBlocks ∧
      s1.bitMask = mask 31 := by
    rw [previousWord, readBitmapBlock_eq hread, if_neg (by rw [h.wordsLeft]; decide)]
    exact ⟨_, rfl, rfl, rfl, rfl, h.bitMask⟩
  obtain ⟨s1, hprev, hstop, hcounted, hfree, hmask⟩ := hmoved
  rw [nextWord, hprev]
  dsimp only
  by_cases hzero : vcb.bitmap s1.currentWord = 0
  · rw [if_pos hzero, if_pos (by omega)]
    refine ⟨_, rfl, hstop, hcounted, fun _ => ?_, nofun⟩
    exact hfound.mono hstop hcounted (by dsimp only; omega)
  rw [if_neg hzero]
  refine ⟨_, rfl, hstop, hcounted, nofun, fun _ => .inl ⟨?_, hmask, ?_⟩⟩
  · exact hfound.mono hstop hcounted (by dsimp only; omega)
  · obtain ⟨j, hj, hbit⟩ := exists_set_of_ne_zero hzero
    exact ⟨j, by omega, hbit⟩

lemma bit_of_word_zero {k : ℕ} (h : bm k = 0) (hlow : 32 * k ≤ i) (hhigh : i < 32 * k + 32) :
    bit bm i = false := by
  rw [bit, show i / 32 = k by omega, h]
  exact BitVec.getMsbD_zero

lemma nextWord_spec (hread : Readable vcb) (h : s.Past p)
    (hr : s.Range vcb.bitmap endingBlock minBlocks p) (hstop : s.stopBlock ≤ p)
    (hfuel : p < s.stopBlock + fuel) :
    ∃ r, nextWord vcb minBlocks fuel s = some (.ok r) ∧
      Stepped vcb.bitmap endingBlock minBlocks p s r := by
  induction fuel generalizing s p with
  | zero => omega
  | succ fuel ih =>
    rcases Nat.eq_zero_or_pos p with rfl | hp
    · exact nextWord_zero hread h hr
    have haligned := h.aligned
    have hsum := hr.sum
    have hblock : s.currentBlock = p - 1 := by rw [h.currentBlock, sub32_eq (by omega)]
    rw [nextWord, previousWord_eq hread h hp]
    dsimp only
    by_cases hzero : vcb.bitmap ((p - 1) / 32) = 0
    · rw [if_pos hzero]
      have hrange : ScanState.Range
          { s with
            currentWord := (p - 1) / 32
            wordsLeft := (p - 1) / 32 % 128
            currentSector := (p - 1) / 4096
            tempWord := vcb.bitmap ((p - 1) / 32)
            freeBlocks := s.freeBlocks + kBitsPerWord
            currentBlock := sub32 s.currentBlock kBitsPerWord } vcb.bitmap endingBlock minBlocks
          (p - 32) := by
        refine hr.down rfl rfl ?_ fun i h1 h2 => ?_
        · change p - 32 + (s.freeBlocks + 32) = p + s.freeBlocks
          omega
        · exact bit_of_word_zero hzero (by omega) (by omega)
      by_cases henough : s.freeBlocks + kBitsPerWord + s.countedFreeBlocks ≥ minBlocks
      · rw [if_pos henough]
        refine ⟨_, rfl, rfl, rfl, fun _ => hrange.found ?_, fun hno => absurd hno (by simp)⟩
        have henough' : s.freeBlocks + 32 + s.countedFreeBlocks ≥ minBlocks := henough
        dsimp only
        omega
      rw [if_neg henough]
      have henough' : ¬s.freeBlocks + 32 + s.countedFreeBlocks ≥ minBlocks := henough
      have hpast : ScanState.Past
          { s with
            currentWord := (p - 1) / 32
            wordsLeft := (p - 1) / 32 % 128
            currentSector := (p - 1) / 4096
            tempWord := vcb.bitmap ((p - 1) / 32)
            freeBlocks := s.freeBlocks + kBitsPerWord
            currentBlock := sub32 s.currentBlock kBitsPerWord } (p - 32) := by
        refine ⟨by omega, ?_, ?_, ?_, ?_, h.bitMask⟩ <;> dsimp only
        · rw [hblock, kBitsPerWord, sub32_eq (by omega), sub32_eq (by omega)]
          omega
        all_goals omega
      obtain ⟨r, hnext, hstepped⟩ := ih hpast hrange (by dsimp only; omega) (by dsimp only; omega)
      refine ⟨r, hnext, hstepped.stopBlock, hstepped.counted, hstepped.found, fun hr => ?_⟩
      rcases hstepped.goesOn hr with htail | ⟨q, hq, hgoes⟩
      · exact .inl htail
      · exact .inr ⟨q, by omega, hgoes⟩
    · rw [if_neg hzero]
      refine ⟨_, rfl, rfl, rfl, fun hno => absurd hno (by simp),
        fun _ => .inr ⟨p - 1, by omega, by omega, ?_, ?_⟩⟩
      · refine ⟨hblock, rfl, rfl, rfl, rfl, ?_⟩
        rw [show (p - 1) % 32 = 31 by omega]
        exact h.bitMask
      · exact hr.down rfl rfl (by dsimp only; omega) fun i h1 h2 => by omega

lemma previousBit_spec (hread : Readable vcb) (h : s.At vcb.bitmap block)
    (hr : s.Range vcb.bitmap endingBlock minBlocks (block + 1)) (hstop : s.stopBlock ≤ block)
    (hclear : bit vcb.bitmap block = false) (hfuel : block < s.stopBlock + fuel) :
    ∃ r, previousBit vcb minBlocks fuel { s with freeBlocks := s.freeBlocks + 1 } = some (.ok r) ∧
      Stepped vcb.bitmap endingBlock minBlocks block s r := by
  have hblock := h.currentBlock
  have hdown : ∀ s' : ScanState, s'.stopBlock = s.stopBlock →
      s'.countedFreeBlocks = s.countedFreeBlocks → s'.freeBlocks = s.freeBlocks + 1 →
      s'.Range vcb.bitmap endingBlock minBlocks block := by
    intro s' h1 h2 h3
    refine hr.down h1 h2 (by omega) fun i hi1 hi2 => ?_
    rw [show i = block by omega]
    exact hclear
  rcases Nat.eq_zero_or_pos (block % 32) with hword | hbit
  · have hshift : s.bitMask <<< 1 = 0 := by
      rw [h.bitMask, hword]
      rfl
    rw [previousBit]
    rw [if_pos hshift]
    obtain ⟨r, hnext, hstepped⟩ := nextWord_spec hread (s := { s with
        freeBlocks := s.freeBlocks + 1
        currentBlock := sub32 s.currentBlock 1
        bitMask := kLowBitInWordMask })
      ⟨hword, by rw [← hblock], h.currentWord, h.wordsLeft, h.currentSector,
        show kLowBitInWordMask = mask 31 by decide⟩
      (hdown _ rfl rfl rfl) hstop hfuel
    exact ⟨r, hnext, hstepped.stopBlock, hstepped.counted, hstepped.found, hstepped.goesOn⟩
  have hmask : s.bitMask = mask (block % 32 - 1 + 1) := by
    rw [h.bitMask, Nat.sub_add_cancel hbit]
  rw [previousBit_bit (s := { s with freeBlocks := s.freeBlocks + 1 }) (by omega) hmask]
  refine ⟨_, rfl, rfl, rfl, nofun, fun _ =>
    .inr ⟨block - 1, by omega, by omega, ?_, ?_⟩⟩
  · refine ⟨?_, ?_, ?_, ?_, ?_, ?_⟩ <;> dsimp only
    · rw [hblock, sub32_eq (by omega)]
    · rw [h.currentWord]
      omega
    · rw [h.wordsLeft]
      omega
    · rw [h.currentSector]
      omega
    · rw [h.tempWord, show (block - 1) / 32 = block / 32 by omega]
    · rw [show (block - 1) % 32 = block % 32 - 1 by omega]
  · rw [show block - 1 + 1 = block by omega]
    exact hdown _ rfl rfl rfl

lemma ScanState.At.test (h : s.At bm block) :
    s.tempWord &&& s.bitMask = 0 ↔ bit bm block = false := by
  rw [h.tempWord, h.bitMask]
  exact and_mask_eq_zero (Nat.mod_lt _ (by decide))

lemma ScanState.point_at (s : ScanState) (bm : Bitmap) :
    ({ s.point bm (s.currentBlock / 4096 * 128) with
        currentSector := s.currentBlock / 4096 } : ScanState).At bm s.currentBlock := by
  have hword : s.currentBlock / 4096 * 128 + wordIndexInBlock s.currentBlock =
      s.currentBlock / 32 := block_word s.currentBlock
  refine ⟨rfl, hword, wordIndexInBlock_eq _, rfl, ?_, rfl⟩
  change bm _ = _
  rw [hword]

lemma jump_spec (hread : Readable vcb) (s : ScanState) :
    ∃ s', jump vcb s = .ok s' ∧ s'.At vcb.bitmap s.currentBlock ∧ s'.stopBlock = s.stopBlock ∧
      s'.countedFreeBlocks = s.freeBlocks ∧ s'.freeBlocks = 0 := by
  have hpoint := ScanState.point_at
    { s with countedFreeBlocks := s.freeBlocks, freeBlocks := 0 } vcb.bitmap
  simp only [jump, readBitmapBlock_eq hread]
  by_cases hsector : s.currentSector ≠ s.currentBlock / kBitsPerBlock
  · rw [if_pos hsector]
    exact ⟨_, rfl, hpoint, rfl, rfl, rfl⟩
  have hsame : s.currentSector = s.currentBlock / 4096 := not_not.1 hsector
  rw [if_neg hsector, hsame]
  exact ⟨_, rfl, hsame ▸ hpoint, rfl, rfl, rfl⟩

lemma scanBack_spec (hread : Readable vcb) (hend : endingBlock < 4294967296)
    (h : s.At vcb.bitmap block) (hr : s.Range vcb.bitmap endingBlock minBlocks (block + 1))
    (hskips : s.Skips vcb.bitmap endingBlock minBlocks startingBlock)
    (hstop : s.stopBlock ≤ block + 1)
    (hfuel : 2 * (endingBlock - (block + 1 + s.freeBlocks)) + (block + 1 - s.stopBlock) + 40 ≤
      fuel) :
    ∃ s', scanBack vcb endingBlock minBlocks fuel s = some (.ok s') ∧
      (s'.freeBlocks + s'.countedFreeBlocks < minBlocks ∧
          (∀ b, startingBlock ≤ b → ¬FreeRun vcb.bitmap b minBlocks endingBlock) ∨
        s'.Found vcb.bitmap endingBlock minBlocks ∧
          s'.Skips vcb.bitmap endingBlock minBlocks startingBlock) := by
  induction fuel generalizing s block with
  | zero => omega
  | succ fuel ih =>
    have hblock := h.currentBlock
    have hsum := hr.sum
    have hinside := hr.inside
    have hcounted := hr.counted
    rw [scanBack]
    by_cases hover : s.currentBlock < s.stopBlock
    · rw [if_pos hover]
      exact ⟨s, rfl, .inr ⟨hr.found (by omega), hskips⟩⟩
    rw [if_neg hover]
    by_cases hclear : bit vcb.bitmap block = false
    · obtain ⟨r, hprev, hstepped⟩ := previousBit_spec hread h hr (by omega) hclear
        (show block < s.stopBlock + fuel by omega)
      rw [if_pos (h.test.2 hclear), hprev]
      obtain ⟨found, s'⟩ := r
      cases found with
      | true =>
        exact ⟨s', rfl, .inr ⟨hstepped.found rfl, hskips.congr hstepped.stopBlock hstepped.counted⟩⟩
      | false =>
        rcases hstepped.goesOn rfl with htail | ⟨q, hq, hqstop, hat, hrange⟩
        · obtain ⟨t, hscan, hfound, h1, h2⟩ :=
            scanBack_tail (by decide) htail (show 31 < fuel by omega)
          exact ⟨t, hscan, .inr ⟨hfound, hskips.congr (h1.trans hstepped.stopBlock)
            (h2.trans hstepped.counted)⟩⟩
        have hstop' : s'.stopBlock = s.stopBlock := hstepped.stopBlock
        have hcounted' : s'.countedFreeBlocks = s.countedFreeBlocks := hstepped.counted
        have hsum' : q + 1 + s'.freeBlocks + s'.countedFreeBlocks = s'.stopBlock + minBlocks :=
          hrange.sum
        exact ih hat hrange (hskips.congr hstop' hcounted') (by omega) (by omega)
    rw [if_neg (mt h.test.1 hclear), if_neg (by omega)]
    have hadd : add32 s.currentBlock (1 + s.freeBlocks) = block + 1 + s.freeBlocks := by
      rw [hblock, add32_eq (by omega), add_assoc]
    have hbehind := hskips.used hr hclear
    -- a run that starts behind the used block would end behind the end
    have hnone : block + minBlocks ≥ endingBlock →
        ∀ b, startingBlock ≤ b → ¬FreeRun vcb.bitmap b minBlocks endingBlock := by
      intro hge b hb hrun
      have := hrun.inside
      exact hbehind b hb (by omega) hrun
    by_cases hpast : add32 s.currentBlock minBlocks ≥ endingBlock
    · refine ⟨_, if_pos hpast, .inl ⟨show s.freeBlocks + s.countedFreeBlocks < _ by omega, ?_⟩⟩
      rw [hblock, add32] at hpast
      exact hnone (by omega)
    obtain ⟨s', hjump, hat, hstop', hcounted', hfree'⟩ := jump_spec hread
      { s with
        stopBlock := add32 s.currentBlock (1 + s.freeBlocks)
        currentBlock := add32 s.currentBlock minBlocks }
    dsimp only at hat hstop' hcounted'
    rw [if_neg hpast, hjump]
    dsimp only
    by_cases hwrap : block + minBlocks < 4294967296
    · have hnext : add32 s.currentBlock minBlocks = block + minBlocks := by
        rw [hblock, add32_eq hwrap]
      rw [hnext] at hat hpast
      have hle := hskips.start_le
      refine ih hat ⟨by omega, by omega, by omega, ?_, ?_⟩ ⟨by omega, fun b hb hlt => ?_⟩
        (by omega) (by omega)
      · intro i h1 h2
        exact hr.above i (by omega) (by omega)
      · intro i h1 h2
        omega
      · exact hbehind b hb (by omega)
    -- `currentBlock` has wrapped below `stopBlock`, and the loop ends
    have hbelow : s'.currentBlock < s'.stopBlock := by
      rw [hat.currentBlock, hstop', hadd, hblock, add32]
      omega
    obtain _ | fuel := fuel
    · omega
    rw [scanBack, if_pos hbelow]
    exact ⟨s', rfl, .inl ⟨by omega, hnone (by omega)⟩⟩

lemma extendRun_spec (hread : Readable vcb) {left b num : ℕ} (hend : b + left < 4294967296)
    (hnum : num < maxBlocks) :
    ∃ k ≤ left, extendRun vcb maxBlocks left (cursorAt vcb.bitmap b) num = .ok (num + k) ∧
      num + k ≤ maxBlocks ∧ ∀ i, b ≤ i → i < b + k → bit vcb.bitmap i = false := by
  induction left generalizing b num with
  | zero => exact ⟨0, le_rfl, rfl, by omega, fun i h1 h2 => by omega⟩
  | succ left ih =>
    rw [extendRun]
    by_cases hbit : bit vcb.bitmap b = false
    swap
    · rw [if_neg (mt (cursorAt_test _ b).mp hbit)]
      exact ⟨0, Nat.zero_le _, rfl, by omega, fun i h1 h2 => by omega⟩
    rw [if_pos ((cursorAt_test _ b).mpr hbit)]
    by_cases hmax : num + 1 = maxBlocks
    · rw [if_pos hmax, ← hmax]
      refine ⟨1, by omega, rfl, le_rfl, fun i h1 h2 => ?_⟩
      rw [show i = b by omega]
      exact hbit
    have hblock : add32 (cursorAt vcb.bitmap b).block 1 = b + 1 := by
      rw [cursorAt_block, add32_eq (by omega)]
    obtain ⟨k, hk, hrun, hle, hfree⟩ := ih
      (show b + 1 + left < 4294967296 by omega) (show num + 1 < maxBlocks by omega)
    rw [if_neg hmax, hblock, nextBit_eq hread]
    refine ⟨k + 1, by omega, ?_, by omega, fun i h1 h2 => ?_⟩
    · rw [show num + (k + 1) = num + 1 + k by omega]
      exact hrun
    by_cases hi : i = b
    · rw [hi]
      exact hbit
    · exact hfree i (by omega) (by omega)

lemma growRun_spec (hread : Readable vcb) (hend : endingBlock < 4294967296)
    (hmax : minBlocks ≤ maxBlocks) (h : s.Found vcb.bitmap endingBlock minBlocks) :
    ∃ n, growRun vcb endingBlock minBlocks maxBlocks s =
        .ok (s.stopBlock - s.countedFreeBlocks, n) ∧ minBlocks ≤ n ∧ n ≤ maxBlocks ∧
      FreeRun vcb.bitmap (s.stopBlock - s.countedFreeBlocks) n endingBlock := by
  have hinside := h.run.inside
  have hsub := sub32_eq h.counted
  have hadd : add32 (s.stopBlock - s.countedFreeBlocks) minBlocks =
      s.stopBlock - s.countedFreeBlocks + minBlocks := add32_eq (by omega)
  rw [growRun]
  dsimp only
  rw [hsub, hadd, if_neg (by simp [hread _])]
  by_cases hmore : minBlocks < maxBlocks
  · obtain ⟨k, hk, hrun, hle, hfree⟩ := extendRun_spec hread
      (show s.stopBlock - s.countedFreeBlocks + minBlocks +
        (endingBlock - (s.stopBlock - s.countedFreeBlocks + minBlocks)) < 4294967296 by omega) hmore
    rw [if_pos hmore, show kBitsPerBlock = 4096 from rfl, show kWordsPerBlock = 128 from rfl,
      setCursor_eq, hrun]
    refine ⟨_, rfl, by omega, hle, by omega, fun i h1 h2 => ?_⟩
    by_cases hi : i < s.stopBlock - s.countedFreeBlocks + minBlocks
    · exact h.run.clear i h1 hi
    · exact hfree i (by omega) (by omega)
  · rw [if_neg hmore]
    exact ⟨_, rfl, le_rfl, hmax, h.run⟩

lemma startScan_at (bm : Bitmap) (startingBlock block : ℕ) :
    (startScan bm startingBlock block (block / 4096 * 128)).At bm block := by
  have hword : block / 4096 * 128 + wordIndexInBlock block = block / 32 := block_word block
  refine ⟨rfl, hword, wordIndexInBlock_eq _, rfl, ?_, rfl⟩
  change bm _ = _
  rw [hword]

lemma blockFindContiguous_spec (hread : Readable vcb) (hle : startingBlock ≤ endingBlock)
    (hend : endingBlock < 4294967296) (hmin : 0 < minBlocks) (hmax : minBlocks ≤ maxBlocks) :
    (blockFindContiguous vcb startingBlock endingBlock minBlocks maxBlocks =
        some (.error ⟨.dskFulErr, vcb.bitmap⟩) ∧
        ∀ b, startingBlock ≤ b → ¬FreeRun vcb.bitmap b minBlocks endingBlock) ∨
      ∃ a n, blockFindContiguous vcb startingBlock endingBlock minBlocks maxBlocks =
          some (.ok (a, n)) ∧ minBlocks ≤ n ∧ n ≤ maxBlocks ∧
        FreeRun vcb.bitmap a n endingBlock ∧ startingBlock ≤ a ∧
        ∀ b, startingBlock ≤ b → FreeRun vcb.bitmap b minBlocks endingBlock → a ≤ b := by
  rw [blockFindContiguous, sub32_eq hle]
  by_cases hsmall : endingBlock - startingBlock < minBlocks
  · refine .inl ⟨if_pos hsmall, fun b hb hrun => ?_⟩
    have := hrun.inside
    omega
  have hcurrent : sub32 (add32 startingBlock minBlocks) 1 = startingBlock + minBlocks - 1 := by
    rw [add32_eq (by omega), sub32_eq (by omega)]
  rw [if_neg hsmall, hcurrent]
  dsimp only
  rw [readBitmapBlock_eq hread]
  dsimp only
  have hrange : (startScan vcb.bitmap startingBlock (startingBlock + minBlocks - 1)
      ((startingBlock + minBlocks - 1) / 4096 * 128)).Range vcb.bitmap endingBlock minBlocks
      (startingBlock + minBlocks - 1 + 1) := by
    refine ⟨?_, ?_, Nat.zero_le _, fun i h1 h2 => ?_, fun i h1 h2 => ?_⟩ <;>
      dsimp only [startScan] at * <;> omega
  obtain ⟨s', hscan, hresult⟩ := scanBack_spec hread hend (startScan_at _ startingBlock _) hrange
    ⟨le_rfl, fun b hb hlt => absurd hlt (not_lt.2 hb)⟩
    (show startingBlock ≤ startingBlock + minBlocks - 1 + 1 by omega)
    (show _ ≤ scanFuel endingBlock by dsimp only [startScan, scanFuel]; omega)
  rw [hscan]
  dsimp only
  obtain ⟨hfew, hnone⟩ | ⟨hfound, hskips⟩ := hresult
  · exact .inl ⟨if_pos hfew, hnone⟩
  obtain ⟨n, hgrow, h1, h2, hrun⟩ := growRun_spec hread hend hmax hfound
  have hle := hskips.start_le
  rw [if_neg (not_lt.2 hfound.enough), hgrow]
  refine .inr ⟨_, n, rfl, h1, h2, hrun, by omega, fun b hb hfree => not_lt.1 fun hlt => ?_⟩
  exact hskips.none b hb (by omega) hfree

/-- The lowest run of `len` free blocks from `start` on, or the lowest of all if there is
none. -/
structure Lowest (bm : Bitmap) (len stop start a : ℕ) : Prop where
  after : ∀ b, start ≤ b → FreeRun bm b len stop → start ≤ a ∧ a ≤ b
  before : (∀ b, start ≤ b → ¬FreeRun bm b len stop) → ∀ b, FreeRun bm b len stop → a ≤ b

lemma blockAllocateContig_spec (hread : Readable vcb) (hle : startingBlock ≤ vcb.totalBlocks)
    (hend : vcb.totalBlocks < 4294967296) (hmin : 0 < minBlocks) (hmax : minBlocks ≤ maxBlocks) :
    (blockAllocateContig vcb startingBlock minBlocks maxBlocks =
        some (.error ⟨.dskFulErr, vcb.bitmap⟩) ∧
        ∀ b, ¬FreeRun vcb.bitmap b minBlocks vcb.totalBlocks) ∨
      ∃ a, blockAllocateContig vcb startingBlock minBlocks maxBlocks = some (.ok a) ∧
        minBlocks ≤ a.actualNumBlocks ∧ a.actualNumBlocks ≤ maxBlocks ∧
        a.From vcb.bitmap vcb.totalBlocks ∧
        Lowest vcb.bitmap minBlocks vcb.totalBlocks startingBlock a.actualStartBlock := by
  have hmark : ∀ a n, FreeRun vcb.bitmap a n vcb.totalBlocks →
      ∃ bm', markFound vcb (a, n) = .ok ⟨bm', a, n⟩ ∧ Filled vcb.bitmap bm' a n true := by
    intro a n hrun
    have hinside := hrun.inside
    obtain ⟨bm', hmark, hfilled⟩ :=
      blockMarkAllocated_spec hread (show a + n < 4294967296 by omega)
    rw [markFound, hmark]
    exact ⟨bm', rfl, hfilled⟩
  rw [blockAllocateContig]
  rcases blockFindContiguous_spec hread hle hend hmin hmax with
    ⟨hfull, hnone⟩ | ⟨a, n, hfind, h1, h2, hrun, hstart, hlow⟩
  · rw [hfull]
    rcases blockFindContiguous_spec hread (Nat.zero_le _) hend hmin hmax with
      ⟨hfull, hnone⟩ | ⟨a, n, hfind, h1, h2, hrun, -, hlow⟩
    · rw [hfull]
      exact .inl ⟨rfl, fun b => hnone b (Nat.zero_le b)⟩
    · obtain ⟨bm', hmarked, hfilled⟩ := hmark a n hrun
      rw [hfind]
      exact .inr ⟨_, congrArg some hmarked, h1, h2, ⟨hrun, hfilled⟩,
        fun b hb h => absurd h (hnone b hb), fun _ b => hlow b (Nat.zero_le b)⟩
  · obtain ⟨bm', hmarked, hfilled⟩ := hmark a n hrun
    have hinside := hrun.inside
    rw [hfind]
    refine .inr ⟨_, congrArg some hmarked, h1, h2, ⟨hrun, hfilled⟩,
      fun b hb h => ⟨hstart, hlow b hb h⟩, fun hno => absurd ?_ (hno a hstart)⟩
    exact ⟨by omega, fun i hi hlt => hrun.clear i hi (by omega)⟩

lemma allocateFrom_spec (hread : Readable vcb) (forceContiguous : Bool)
    (hle : startingBlock ≤ vcb.totalBlocks) (hend : vcb.totalBlocks < 4294967296)
    (hmin : 0 < minBlocks) (hmax : minBlocks ≤ maxBlocks) :
    (allocateFrom vcb startingBlock minBlocks maxBlocks forceContiguous =
        some (.error ⟨.dskFulErr, vcb.bitmap⟩) ∧
        ∀ b, ¬FreeRun vcb.bitmap b (if forceContiguous then minBlocks else 1) vcb.totalBlocks) ∨
      ∃ a, allocateFrom vcb startingBlock minBlocks maxBlocks forceContiguous = some (.ok a) ∧
        0 < a.actualNumBlocks ∧ a.actualNumBlocks ≤ maxBlocks ∧
        (forceContiguous = true → minBlocks ≤ a.actualNumBlocks) ∧
        a.From vcb.bitmap vcb.totalBlocks ∧ (forceContiguous = true →
          Lowest vcb.bitmap minBlocks vcb.totalBlocks startingBlock a.actualStartBlock) := by
  rw [allocateFrom]
  cases forceContiguous with
  | true =>
    rcases blockAllocateContig_spec hread hle hend hmin hmax with
      hfull | ⟨a, hfound, h1, h2, hfrom, hlow⟩
    · exact .inl hfull
    · exact .inr ⟨a, hfound, by omega, h2, fun _ => h1, hfrom, fun _ => hlow⟩
  | false =>
    rw [if_neg (by decide)]
    rcases blockAllocateAny_spec hread hle hend (show 0 < maxBlocks by omega) with
      ⟨hfull, hused⟩ | ⟨a, hfound, h1, h2, hfrom⟩
    · rw [hfull]
      rcases blockAllocateAny_spec hread (Nat.zero_le startingBlock) (by omega)
        (show 0 < maxBlocks by omega) with ⟨hfull, hused'⟩ | ⟨a, hfound, h1, h2, hfrom⟩
      · rw [hfull]
        refine .inl ⟨rfl, fun b hrun => ?_⟩
        have hclear := hrun.clear b le_rfl (Nat.lt_succ_self b)
        rcases lt_or_ge b startingBlock with hb | hb
        · exact absurd (hused' b (Nat.zero_le b) hb) (by simp [hclear])
        · exact absurd (hused b hb hrun.inside) (by simp [hclear])
      · rw [hfound]
        have hinside := hfrom.run.inside
        exact .inr ⟨a, rfl, h1, h2, nofun, ⟨⟨by omega, hfrom.run.clear⟩, hfrom.filled⟩, nofun⟩
    · rw [hfound]
      exact .inr ⟨a, rfl, h1, h2, nofun, hfrom, nofun⟩

end Rhapsody.Hfs
