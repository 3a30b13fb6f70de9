import Rhapsody.Hfs.VolumeAllocation

/-! What the scanning loops of the block allocator do to the bitmap, when bitmap blocks can be
read. A position is a block number; the pointers, word counts and masks are functions of it. -/

namespace Rhapsody.Hfs

open Function

open Rhapsody.Lib Rhapsody.Lib.Bitmap

variable {a left block endingBlock maxBlocks startingBlock n numBlocks : ℕ} {c : MarkCursor}
  {v : Bool} {whole : BitVec 32} {part : BitVec 32 → BitVec 32 → BitVec 32}

lemma sub32_eq {b : ℕ} (h : b ≤ a) : sub32 a b = a - b := by
  rw [sub32, if_pos h]

lemma add32_eq {b : ℕ} (h : a + b < 4294967296) : add32 a b = a + b := by
  rw [add32]
  exact Nat.mod_eq_of_lt h

lemma wordIndexInBlock_eq (block : ℕ) : wordIndexInBlock block = block / 32 % 128 := by
  simp only [wordIndexInBlock, kBitsPerBlock, kBitsPerWord]
  omega

lemma block_word (block : ℕ) :
    block / kBitsPerBlock * kWordsPerBlock + wordIndexInBlock block = block / 32 := by
  rw [wordIndexInBlock_eq]
  simp only [kBitsPerBlock, kWordsPerBlock]
  omega

variable {vcb : ExtendedVCB} {bm V : Bitmap} {b : ℕ}

def Readable (vcb : ExtendedVCB) : Prop := ∀ block, vcb.readable block = true

lemma readBitmapBlock_eq (hread : Readable vcb) (bm : Bitmap) (block : ℕ) :
    readBitmapBlock vcb bm block = .ok (block / 4096 * 128) := by
  rw [readBitmapBlock, if_pos (hread block)]
  rfl

/-! ### Cursors -/

def cursorAt (bm : Bitmap) (block : ℕ) : Cursor where
  block := block
  buffer := block / 32
  wordsLeft := 128 - block / 32 % 128
  currentWord := bm (block / 32)
  bitMask := mask (block % 32)

lemma cursorAt_block (bm : Bitmap) (block : ℕ) : (cursorAt bm block).block = block := by
  rw [cursorAt]

lemma setCursor_eq (bm : Bitmap) (block : ℕ) :
    setCursor bm (block / 4096 * 128) block = cursorAt bm block := by
  have hword : block / 4096 * 128 + wordIndexInBlock block = block / 32 := block_word block
  rw [setCursor, hword, wordIndexInBlock_eq]
  rfl

lemma openCursor_eq (hread : Readable vcb) (bm : Bitmap) (block : ℕ) :
    openCursor vcb bm block = .ok (cursorAt bm block) := by
  rw [openCursor, readBitmapBlock_eq hread, ← setCursor_eq]
  rfl

lemma cursorAt_test (bm : Bitmap) (b : ℕ) :
    (cursorAt bm b).currentWord &&& (cursorAt bm b).bitMask = 0 ↔ bit bm b = false :=
  and_mask_eq_zero (Nat.mod_lt _ (by decide))

lemma cursorAt_lastBit (bm : Bitmap) (b : ℕ) :
    (cursorAt bm b).bitMask >>> 1 = 0 ↔ (b + 1) % 32 = 0 := by
  have hlt : b % 32 < 32 := Nat.mod_lt _ (by decide)
  change mask (b % 32) >>> 1 = 0 ↔ _
  rw [mask_shiftRight, mask_eq_zero hlt]
  omega

lemma nextBit_word (hread : Readable vcb) (h : (b + 1) % 32 = 0) :
    { cursorAt V b with block := b + 1 }.nextBit vcb bm = .ok (cursorAt bm (b + 1)) := by
  have hbuffer : nextBuffer vcb bm (b + 1) (b / 32) (128 - b / 32 % 128) =
      .ok ((b + 1) / 32, 128 - (b + 1) / 32 % 128) := by
    rw [nextBuffer, readBitmapBlock_eq hread]
    split
    · change Except.ok _ = Except.ok _
      simp only [kWordsPerBlock, Except.ok.injEq, Prod.mk.injEq]
      omega
    change Except.ok _ = Except.ok _
    simp only [Except.ok.injEq, Prod.mk.injEq]
    omega
  have hmask : mask ((b + 1) % 32) = kHighBitInWordMask := by rw [h]; rfl
  rw [Cursor.nextBit, if_pos ((cursorAt_lastBit V b).2 h)]
  change (nextBuffer vcb bm (b + 1) (b / 32) (128 - b / 32 % 128) >>= _) = _
  rw [hbuffer]
  rw [← hmask]
  rfl

lemma nextBit_bit (h : (b + 1) % 32 ≠ 0) :
    { cursorAt V b with block := b + 1 }.nextBit vcb bm = .ok (cursorAt V (b + 1)) := by
  have hdiv : (b + 1) / 32 = b / 32 := by omega
  have hmod : (b + 1) % 32 = b % 32 + 1 := by omega
  rw [Cursor.nextBit, if_neg (mt (cursorAt_lastBit V b).1 h)]
  change Except.ok _ = Except.ok _
  simp only [cursorAt, hdiv, hmod, mask_shiftRight]

lemma nextBit_eq (hread : Readable vcb) (bm : Bitmap) (b : ℕ) :
    { cursorAt bm b with block := b + 1 }.nextBit vcb bm = .ok (cursorAt bm (b + 1)) := by
  by_cases h : (b + 1) % 32 = 0
  · exact nextBit_word hread h
  · exact nextBit_bit h

/-! ### BlockAllocateAny -/

lemma findFree_spec (hread : Readable vcb) (bm : Bitmap) (hend : b + left < 4294967296) :
    ∃ k ≤ left, findFree vcb bm left (cursorAt bm b) = .ok (cursorAt bm (b + k)) ∧
      (k < left → bit bm (b + k) = false) ∧ ∀ i, b ≤ i → i < b + k → bit bm i = true := by
  induction left generalizing b with
  | zero => exact ⟨0, le_rfl, rfl, fun h => absurd h (lt_irrefl 0), fun i h1 h2 => by omega⟩
  | succ left ih =>
    rw [findFree]
    by_cases hbit : bit bm b = false
    · rw [if_pos ((cursorAt_test bm b).mpr hbit)]
      exact ⟨0, Nat.zero_le _, rfl, fun _ => hbit, fun i h1 h2 => by omega⟩
    rw [if_neg (mt (cursorAt_test bm b).mp hbit)]
    have hblock : add32 (cursorAt bm b).block 1 = b + 1 :=
      add32_eq (show b + 1 < 4294967296 by omega)
    obtain ⟨k, hk, hfind, hfree, hused⟩ := ih (b := b + 1) (by omega)
    refine ⟨k + 1, by omega, ?_, fun h => ?_, fun i h1 h2 => ?_⟩
    · rw [hblock, nextBit_eq hread]
      change findFree vcb bm left (cursorAt bm (b + 1)) = _
      rw [hfind, Nat.add_right_comm, Nat.add_assoc]
    · rw [Nat.add_comm k 1, ← Nat.add_assoc]
      exact hfree (by omega)
    · obtain rfl | hlt := h1.eq_or_lt
      · exact Bool.eq_true_of_not_eq_false hbit
      · exact hused i hlt (by omega)

lemma cursorAt_setBit (hend : b + 1 < 4294967296) : ({ cursorAt V b with
        currentWord := (cursorAt V b).currentWord ||| (cursorAt V b).bitMask
        block := add32 (cursorAt V b).block 1 } : Cursor) =
      { cursorAt (setBit V b) b with block := b + 1 } := by
  have hblock : add32 (cursorAt V b).block 1 = b + 1 := add32_eq hend
  rw [hblock]
  simp only [cursorAt, setBit, update_self]

lemma update_setBit (hV : update bm (b / 32) (V (b / 32)) = V) :
    update bm (b / 32) (setBit V b (b / 32)) = setBit V b := by
  rw [setBit, update_self]
  nth_rewrite 2 [← hV]
  rw [update_idem]

lemma filled_writeBack (hV : update bm (b / 32) (V (b / 32)) = V) :
    Filled V (update bm (cursorAt V b).buffer (cursorAt V b).currentWord) b 0 true := by
  change Filled V (update bm (b / 32) (V (b / 32))) b 0 true
  rw [hV]
  exact Filled.refl V b true

lemma allocateRun_next (hread : Readable vcb) (hleft : left ≠ 0) (hend : b + 1 < 4294967296)
    (hbit : bit V b = false) (hV : update bm (b / 32) (V (b / 32)) = V) :
    allocateRun vcb (left + 1) bm (cursorAt V b) =
      allocateRun vcb left (if (b + 1) % 32 = 0 then setBit V b else bm)
        (cursorAt (setBit V b) (b + 1)) := by
  have hlast : ({ cursorAt (setBit V b) b with block := b + 1 } : Cursor).bitMask >>> 1 = 0 ↔
      (b + 1) % 32 = 0 := cursorAt_lastBit (setBit V b) b
  have hwrite : update bm (cursorAt (setBit V b) b).buffer
      (cursorAt (setBit V b) b).currentWord = setBit V b := update_setBit hV
  rw [allocateRun, if_pos ((cursorAt_test V b).2 hbit), cursorAt_setBit hend]
  simp only [if_neg hleft, hlast, hwrite]
  by_cases hword : (b + 1) % 32 = 0
  · rw [if_pos hword, nextBit_word hread hword]
    rfl
  · rw [if_neg hword, nextBit_bit hword]
    rfl

lemma allocateRun_spec (hread : Readable vcb)
    (hend : b + left < 4294967296) (hV : update bm (b / 32) (V (b / 32)) = V) :
    ∃ bm' c k, allocateRun vcb left bm (cursorAt V b) = .ok (bm', c) ∧ c.block = b + k ∧
      k ≤ left ∧ (0 < left → bit V b = false → 0 < k) ∧
      (∀ i, b ≤ i → i < b + k → bit V i = false) ∧
      Filled V (update bm' c.buffer c.currentWord) b k true := by
  induction left generalizing b bm V with
  | zero =>
    have hnone : ∀ i, b ≤ i → i < b + 0 → bit V i = false := fun i h1 h2 => by omega
    have hstop := filled_writeBack hV
    exact ⟨bm, cursorAt V b, 0, rfl, rfl, le_rfl, fun h => absurd h (lt_irrefl 0), hnone, hstop⟩
  | succ left ih =>
    have hnone : ∀ i, b ≤ i → i < b + 0 → bit V i = false := fun i h1 h2 => by omega
    have hstop := filled_writeBack hV
    by_cases hbit : bit V b = false
    swap
    · rw [allocateRun, if_neg (mt (cursorAt_test V b).mp hbit)]
      exact ⟨bm, cursorAt V b, 0, rfl, rfl, Nat.zero_le _, fun _ h => absurd h hbit, hnone, hstop⟩
    by_cases hleft : left = 0
    · rw [allocateRun, if_pos ((cursorAt_test V b).mpr hbit), cursorAt_setBit (by omega)]
      refine ⟨bm, { cursorAt (setBit V b) b with block := b + 1 }, 1, if_pos hleft, rfl,
        by omega, fun _ _ => Nat.one_pos, ?_, ?_⟩
      · intro i h1 h2
        rw [show i = b by omega]
        exact hbit
      change Filled V (update bm (b / 32) (setBit V b (b / 32))) b 1 true
      rw [update_setBit hV]
      exact filled_setBit V b
    have hV' : update (if (b + 1) % 32 = 0 then setBit V b else bm) ((b + 1) / 32)
        (setBit V b ((b + 1) / 32)) = setBit V b := by
      split
      · rw [update_eq_self]
      · rw [show (b + 1) / 32 = b / 32 by omega]
        exact update_setBit hV
    rw [allocateRun_next hread hleft (by omega) hbit hV]
    obtain ⟨bm', c, k, hrun, hblock, hk, -, hfree, hfilled⟩ := ih (by omega) hV'
    refine ⟨bm', c, k + 1, hrun, by omega, by omega, fun _ _ => Nat.succ_pos k, ?_, ?_⟩
    · intro i h1 h2
      by_cases hi : i = b
      · rw [hi]
        exact hbit
      have hsame := hfree i (by omega) (by omega)
      rw [filled_setBit V b i, if_neg (by omega)] at hsame
      exact hsame
    · rw [Nat.add_comm k 1]
      exact (filled_setBit V b).trans hfilled

structure FreeRun (bm : Bitmap) (start len stop : ℕ) : Prop where
  inside : start + len ≤ stop
  clear : ∀ i, start ≤ i → i < start + len → bit bm i = false

structure Allocated.From (a : Allocated) (bm : Bitmap) (stop : ℕ) : Prop where
  run : FreeRun bm a.actualStartBlock a.actualNumBlocks stop
  filled : Filled bm a.bitmap a.actualStartBlock a.actualNumBlocks true

lemma allocateAny_left (hle : startingBlock ≤ block) (hlt : block < endingBlock)
    (hend : endingBlock < 4294967296) (hmax : 0 < maxBlocks) :
    ∃ left, 0 < left ∧ left ≤ maxBlocks ∧ block + left ≤ endingBlock ∧
      sub32 (if block < sub32 endingBlock (min maxBlocks (sub32 endingBlock startingBlock)) then
        add32 block (min maxBlocks (sub32 endingBlock startingBlock)) else endingBlock) block =
        left := by
  rw [sub32_eq (show startingBlock ≤ endingBlock by omega),
    sub32_eq (show min maxBlocks (endingBlock - startingBlock) ≤ endingBlock by omega)]
  by_cases hroom : block < endingBlock - min maxBlocks (endingBlock - startingBlock)
  · rw [if_pos hroom, add32_eq (by omega), sub32_eq (by omega)]
    exact ⟨_, by omega, by omega, by omega, rfl⟩
  · rw [if_neg hroom, sub32_eq (by omega)]
    exact ⟨_, by omega, by omega, by omega, rfl⟩

lemma blockAllocateAny_spec (hread : Readable vcb) (hle : startingBlock ≤ endingBlock)
    (hend : endingBlock < 4294967296) (hmax : 0 < maxBlocks) :
    (blockAllocateAny vcb startingBlock endingBlock maxBlocks = .error ⟨.dskFulErr, vcb.bitmap⟩ ∧
        ∀ i, startingBlock ≤ i → i < endingBlock → bit vcb.bitmap i = true) ∨
      ∃ a, blockAllocateAny vcb startingBlock endingBlock maxBlocks = .ok a ∧
        0 < a.actualNumBlocks ∧ a.actualNumBlocks ≤ maxBlocks ∧
        a.From vcb.bitmap endingBlock := by
  obtain ⟨k, hk, hfind, hfree, hused⟩ := findFree_spec hread vcb.bitmap
    (show startingBlock + (endingBlock - startingBlock) < 4294967296 by omega)
  simp only [blockAllocateAny, openCursor_eq hread, hfind, cursorAt_block, bind, Except.bind]
  by_cases hfull : startingBlock + k = endingBlock
  · exact .inl ⟨if_pos hfull, fun i h1 h2 => hused i h1 (by omega)⟩
  right
  obtain ⟨left, hpos, hlong, hinside, hleft⟩ := allocateAny_left
    (show startingBlock ≤ startingBlock + k by omega)
    (show startingBlock + k < endingBlock by omega) hend hmax
  obtain ⟨bm', last, n, hrun, hblock, hn, hnpos, hclear, hfilled⟩ :=
    allocateRun_spec hread (b := startingBlock + k) (show startingBlock + k + left < _ by omega)
      (update_eq_self _ vcb.bitmap)
  have hnum : sub32 last.block (startingBlock + k) = n := by
    rw [hblock, sub32_eq (by omega)]
    omega
  simp only [if_neg hfull, hleft, hrun, hnum]
  exact ⟨_, rfl, hnpos hpos (hfree (by omega)), le_trans hn hlong,
    ⟨⟨show startingBlock + k + n ≤ endingBlock by omega, hclear⟩, hfilled⟩⟩

/-! ### Marking a run -/

/-- The pointer and the count of words left are those of one bitmap block, the one
`block` is in. -/
def InBuffer (block currentWord wordsLeft : ℕ) : Prop :=
  currentWord + wordsLeft = (block / 4096 + 1) * 128

lemma inBuffer_start (block : ℕ) :
    InBuffer block (block / 32) (kWordsPerBlock - wordIndexInBlock block) := by
  rw [InBuffer, wordIndexInBlock_eq, kWordsPerBlock]
  omega

lemma InBuffer.next {currentWord : ℕ} (h : InBuffer block currentWord 0)
    (hlt : 32 * currentWord < 4294967296) :
    add32 block kBitsPerBlock = block + 4096 ∧ (block + 4096) / 4096 * 128 = currentWord := by
  have hsum : currentWord + 0 = (block / 4096 + 1) * 128 := h
  refine ⟨add32_eq (show block + 4096 < 4294967296 by omega), by omega⟩

def MarkCursor.Ok (c : MarkCursor) : Prop := InBuffer c.startingBlock c.currentWord c.wordsLeft

lemma MarkCursor.refill_spec (hread : Readable vcb) (hc : c.Ok)
    (hlt : 32 * c.currentWord < 4294967296) :
    ∃ c', c.refill vcb = .ok c' ∧ c'.Ok ∧ 0 < c'.wordsLeft ∧ c'.bitmap = c.bitmap ∧
      c'.currentWord = c.currentWord ∧ c'.numBlocks = c.numBlocks := by
  rw [MarkCursor.refill]
  by_cases hleft : c.wordsLeft = 0
  · have hbuffer : InBuffer c.startingBlock c.currentWord 0 := hleft ▸ hc
    obtain ⟨hadd, hword⟩ := hbuffer.next hlt
    rw [if_pos hleft, hadd]
    dsimp only
    rw [readBitmapBlock_eq hread, hword]
    refine ⟨_, rfl, ?_, show 0 < kWordsPerBlock by decide, rfl, rfl, rfl⟩
    change c.currentWord + 128 = ((c.startingBlock + 4096) / 4096 + 1) * 128
    omega
  · rw [if_neg hleft]
    exact ⟨c, rfl, hc, pos_of_ne_zero hleft, rfl, rfl, rfl⟩

lemma MarkCursor.write_ok (hc : c.Ok) (hleft : 0 < c.wordsLeft) (word : BitVec 32) (numBits : ℕ) :
    (c.write word numBits).Ok := by
  have hsum : c.currentWord + c.wordsLeft = (c.startingBlock / 4096 + 1) * 128 := hc
  change c.currentWord + 1 + (c.wordsLeft - 1) = (c.startingBlock / 4096 + 1) * 128
  omega

lemma filled_wholeWord (hwhole : ∀ j < 32, whole.getMsbD j = v) (bm : Bitmap) (k : ℕ) :
    Filled bm (update bm k whole) (32 * k) 32 v := by
  refine filled_update le_rfl le_rfl fun j hj => ?_
  rw [if_pos (by omega), hwhole j hj]

lemma markWords_spec (hread : Readable vcb) (hwhole : ∀ j < 32, whole.getMsbD j = v) (hc : c.Ok)
    (hlt : 32 * (c.currentWord + n) ≤ 4294967296) :
    ∃ c', markWords vcb whole n c = .ok c' ∧ c'.Ok ∧ c'.currentWord = c.currentWord + n ∧
      c'.numBlocks = c.numBlocks - 32 * n ∧
      Filled c.bitmap c'.bitmap (32 * c.currentWord) (32 * n) v := by
  induction n generalizing c with
  | zero => exact ⟨c, rfl, hc, rfl, rfl, Filled.refl _ _ _⟩
  | succ n ih =>
    obtain ⟨d, hrefill, hd, hleft, hbitmap, hword, hnum⟩ := c.refill_spec hread hc (by omega)
    obtain ⟨c', hwords, hc', hword', hnum', hfilled⟩ :=
      ih (d.write_ok hd hleft whole kBitsPerWord) (show 32 * (d.currentWord + 1 + n) ≤ _ by omega)
    rw [markWords, hrefill]
    refine ⟨c', hwords, hc', ?_, ?_, ?_⟩
    · have : c'.currentWord = d.currentWord + 1 + n := hword'
      omega
    · have : c'.numBlocks = d.numBlocks - 32 - 32 * n := hnum'
      omega
    have hone := filled_wholeWord hwhole c.bitmap c.currentWord
    have hrest : Filled (update d.bitmap d.currentWord whole) c'.bitmap
        (32 * (d.currentWord + 1)) (32 * n) v := hfilled
    rw [hbitmap, hword, Nat.mul_add] at hrest
    have hboth := hone.trans hrest
    rw [show 32 + 32 * n = 32 * (n + 1) by omega] at hboth
    exact hboth

lemma getMsbD_firstMask {firstBit j : ℕ} (hj : j < 32) : (firstMask firstBit numBlocks).getMsbD j =
      decide (firstBit ≤ j ∧ j < firstBit + min (32 - firstBit) numBlocks) := by
  rw [firstMask, kAllBitsSetInWord, kBitsPerWord]
  by_cases hshort : 32 - firstBit > numBlocks
  · rw [if_pos hshort, BitVec.getMsbD_and, BitVec.getMsbD_not, getMsbD_allOnes_ushiftRight hj,
      getMsbD_allOnes_ushiftRight hj, Bool.eq_iff_iff]
    simp only [hj, decide_true, Bool.true_and, Bool.and_eq_true, decide_eq_true_eq,
      Bool.not_eq_true', decide_eq_false_iff_not]
    omega
  rw [if_neg hshort, getMsbD_allOnes_ushiftRight hj, Bool.eq_iff_iff]
  simp only [decide_eq_true_eq]
  omega

def Puts (part : BitVec 32 → BitVec 32 → BitVec 32) (v : Bool) : Prop :=
  ∀ w m : BitVec 32, ∀ j < 32, (part w m).getMsbD j = if m.getMsbD j then v else w.getMsbD j

lemma Puts.filled (hpart : Puts part v) {m : BitVec 32} {k start len : ℕ} (hlow : 32 * k ≤ start)
    (hhigh : start + len ≤ 32 * k + 32)
    (hm : ∀ j < 32, m.getMsbD j = decide (start ≤ 32 * k + j ∧ 32 * k + j < start + len)) :
    Filled bm (update bm k (part (bm k) m)) start len v := by
  refine filled_update hlow hhigh fun j hj => ?_
  rw [hpart (bm k) m j hj, hm j hj]
  simp only [decide_eq_true_eq]

lemma firstWord_spec (hpart : Puts part v) (startingBlock numBlocks : ℕ) (c : MarkCursor)
    (hc : c.Ok) (hbitmap : c.bitmap = bm) (hword : c.currentWord = startingBlock / 32)
    (hleft : 0 < c.wordsLeft) (hnum : c.numBlocks = numBlocks) :
    ∃ c' done, (if startingBlock % kBitsPerWord ≠ 0 then
        c.write (part (bm c.currentWord) (firstMask (startingBlock % kBitsPerWord) numBlocks))
          (min (kBitsPerWord - startingBlock % kBitsPerWord) numBlocks)
      else c) = c' ∧ c'.Ok ∧ done ≤ numBlocks ∧ c'.numBlocks = numBlocks - done ∧
      (done < numBlocks → 32 * c'.currentWord = startingBlock + done) ∧
      32 * c'.currentWord ≤ startingBlock + 32 ∧
      Filled bm c'.bitmap startingBlock done v := by
  by_cases hfirst : startingBlock % kBitsPerWord ≠ 0
  · rw [if_pos hfirst]
    refine ⟨_, min (32 - startingBlock % 32) numBlocks, rfl, c.write_ok hc hleft _ _,
      by omega, ?_, ?_, ?_, ?_⟩
    · change c.numBlocks - _ = _
      rw [hnum]
      rfl
    · intro hdone
      change 32 * (c.currentWord + 1) = _
      omega
    · change 32 * (c.currentWord + 1) ≤ _
      omega
    change Filled bm (update c.bitmap c.currentWord _) _ _ v
    rw [hbitmap, hword]
    refine hpart.filled (by omega) (by omega) fun j hj => ?_
    rw [getMsbD_firstMask hj, Bool.eq_iff_iff, decide_eq_true_eq, decide_eq_true_eq, kBitsPerWord]
    omega
  · have hfirst' : startingBlock % 32 = 0 := not_not.mp hfirst
    rw [if_neg hfirst]
    refine ⟨c, 0, rfl, hc, Nat.zero_le _, hnum, fun _ => by omega, by omega, ?_⟩
    rw [hbitmap]
    exact Filled.refl bm _ v

lemma markRun_spec (hread : Readable vcb) (hpart : Puts part v)
    (hwhole : ∀ j < 32, whole.getMsbD j = v) (hend : startingBlock + numBlocks < 4294967296) :
    ∃ bm', markRun vcb part whole startingBlock numBlocks = .ok bm' ∧
      Filled vcb.bitmap bm' startingBlock numBlocks v := by
  have hword : startingBlock / 4096 * 128 + wordIndexInBlock startingBlock = startingBlock / 32 :=
    block_word startingBlock
  have hleft : 0 < kWordsPerBlock - wordIndexInBlock startingBlock := by
    rw [wordIndexInBlock_eq, kWordsPerBlock]
    omega
  obtain ⟨c, done, hfirst, hc, hdone, hnum, hat, hle, hfilled⟩ :=
    firstWord_spec hpart startingBlock numBlocks
      { bitmap := vcb.bitmap
        currentWord := startingBlock / 32
        wordsLeft := kWordsPerBlock - wordIndexInBlock startingBlock
        startingBlock := startingBlock
        numBlocks := numBlocks } (inBuffer_start startingBlock) rfl rfl hleft rfl
  obtain ⟨d, hwords, hd, hdword, hdnum, hdfilled⟩ := markWords_spec hread hwhole
    (n := c.numBlocks / 32) hc (by omega)
  -- what is marked when only the last word is left
  have hsofar : Filled vcb.bitmap d.bitmap startingBlock (done + 32 * (c.numBlocks / 32)) v := by
    by_cases hmore : done < numBlocks
    · rw [hat hmore] at hdfilled
      exact hfilled.trans hdfilled
    · rw [show c.numBlocks / 32 = 0 by omega] at hdfilled ⊢
      exact (hfilled.trans (hdfilled.of_zero _))
  simp only [markRun, readBitmapBlock_eq hread, bind, Except.bind, hword, hfirst]
  rw [show kBitsPerWord = 32 from rfl, hwords]
  by_cases hrest : d.numBlocks ≠ 0
  · obtain ⟨e, hrefill, -, -, hebitmap, heword, henum⟩ := d.refill_spec hread hd (by omega)
    simp only [if_pos hrest, hrefill]
    refine ⟨_, rfl, ?_⟩
    have hstart : 32 * d.currentWord = startingBlock + (done + 32 * (c.numBlocks / 32)) := by omega
    have hlast : Filled e.bitmap (update e.bitmap e.currentWord
        (part (e.bitmap e.currentWord) (~~~(kAllBitsSetInWord >>> d.numBlocks))))
        (32 * d.currentWord) d.numBlocks v := by
      rw [heword]
      refine hpart.filled le_rfl (by omega) fun j hj => ?_
      rw [BitVec.getMsbD_not, kAllBitsSetInWord, getMsbD_allOnes_ushiftRight hj, Bool.eq_iff_iff]
      simp only [hj, decide_true, Bool.true_and, Bool.not_eq_true', decide_eq_false_iff_not,
        decide_eq_true_eq]
      omega
    have hall : done + 32 * (c.numBlocks / 32) + d.numBlocks = numBlocks := by omega
    rw [hstart, hebitmap] at hlast
    have hboth := hsofar.trans hlast
    rw [hall] at hboth
    rw [hebitmap]
    exact hboth
  · simp only [if_neg hrest]
    refine ⟨_, rfl, ?_⟩
    have hall : done + 32 * (c.numBlocks / 32) = numBlocks := by omega
    exact hall ▸ hsofar

lemma blockMarkAllocated_spec (hread : Readable vcb)
    (hend : startingBlock + numBlocks < 4294967296) :
    ∃ bm', blockMarkAllocated vcb startingBlock numBlocks = .ok bm' ∧
      Filled vcb.bitmap bm' startingBlock numBlocks true := by
  apply markRun_spec hread _ _ hend
  · intro w m j hj
    rw [BitVec.getMsbD_or]
    cases m.getMsbD j <;> simp
  intro j hj
  rw [kAllBitsSetInWord, BitVec.getMsbD_allOnes]
  exact decide_eq_true hj

lemma blockMarkFree_spec (hread : Readable vcb) (hend : startingBlock + numBlocks < 4294967296) :
    ∃ bm', blockMarkFree vcb startingBlock numBlocks = .ok bm' ∧
      Filled vcb.bitmap bm' startingBlock numBlocks false := by
  apply markRun_spec hread _ _ hend
  · intro w m j hj
    rw [BitVec.getMsbD_and, BitVec.getMsbD_not]
    cases m.getMsbD j <;> simp [hj]
  · intro j hj
    exact BitVec.getMsbD_zero

/-! ### UpdateFreeCount -/

lemma countBits_eq {fuel : ℕ} {temp : BitVec 32} (hfuel : popCount 32 temp.toNat < fuel)
    (freeCount : ℕ) : countBits fuel temp freeCount = freeCount + popCount 32 temp.toNat := by
  induction fuel generalizing temp freeCount with
  | zero => omega
  | succ fuel ih =>
    rw [countBits]
    by_cases htemp : temp = 0
    · have hzero : popCount 32 temp.toNat = 0 := by
        rw [htemp]
        exact popCount_zero 32
      rw [if_pos htemp, hzero, add_zero]
    have hpop := popCount_and_sub_one htemp
    rw [if_neg htemp, ih (by omega)]
    omega

lemma countHighBits_eq (temp : BitVec 32) (hnum : numBlocks ≤ 32) (freeCount : ℕ) :
    countHighBits numBlocks temp freeCount =
      freeCount + Nat.count (fun i => temp.getMsbD i = true) numBlocks := by
  induction numBlocks generalizing temp freeCount with
  | zero => rfl
  | succ n ih =>
    have hhigh : temp &&& kHighBitInWordMask ≠ 0 ↔ temp.getMsbD 0 = true := by
      rw [show kHighBitInWordMask = mask 0 from rfl, Ne, and_mask_eq_zero (by decide),
        Bool.not_eq_false]
    have hshift : Nat.count (fun i => (temp <<< 1).getMsbD i = true) n =
        Nat.count (fun i => temp.getMsbD (i + 1) = true) n := by
      refine count_congr fun i _ => ?_
      rw [BitVec.getMsbD_shiftLeft, add_comm]
    rw [countHighBits, ih _ (by omega), Nat.count_succ', hshift]
    simp only [hhigh]
    split <;> omega

structure CountCursor.Ok (c : CountCursor) (vcb : ExtendedVCB) : Prop where
  inBuffer : InBuffer c.blockNum c.currentWord c.wordsLeft
  count : c.freeCount = clearCount vcb.bitmap (32 * c.currentWord)

lemma CountCursor.refill_spec (hread : Readable vcb) {c : CountCursor} (hc : c.Ok vcb)
    (hlt : 32 * c.currentWord < 4294967296) :
    ∃ c', c.refill vcb = .ok c' ∧ c'.Ok vcb ∧ 0 < c'.wordsLeft ∧
      c'.currentWord = c.currentWord := by
  rw [CountCursor.refill]
  by_cases hleft : c.wordsLeft = 0
  · have hbuffer : InBuffer c.blockNum c.currentWord 0 := hleft ▸ hc.inBuffer
    obtain ⟨hadd, hword⟩ := hbuffer.next hlt
    rw [if_pos hleft, hadd]
    dsimp only
    rw [readBitmapBlock_eq hread, hword]
    refine ⟨_, rfl, ⟨?_, hc.count⟩, show 0 < kWordsPerBlock by decide, rfl⟩
    change c.currentWord + 128 = ((c.blockNum + 4096) / 4096 + 1) * 128
    omega
  · rw [if_neg hleft]
    exact ⟨c, rfl, hc, pos_of_ne_zero hleft, rfl⟩

lemma countWords_spec (hread : Readable vcb) {c : CountCursor} (hc : c.Ok vcb)
    (hlt : 32 * (c.currentWord + n) ≤ 4294967296) :
    ∃ c', countWords vcb n c = .ok c' ∧ c'.Ok vcb ∧ c'.currentWord = c.currentWord + n := by
  induction n generalizing c with
  | zero => exact ⟨c, rfl, hc, rfl⟩
  | succ n ih =>
    obtain ⟨d, hrefill, hd, hleft, hword⟩ := c.refill_spec hread hc (by omega)
    have hcount := countBits_eq (popCount_lt (~~~(vcb.bitmap d.currentWord))) d.freeCount
    have hnext : CountCursor.Ok
        { d with
          freeCount := countBits 33 (~~~(vcb.bitmap d.currentWord)) d.freeCount
          currentWord := d.currentWord + 1
          wordsLeft := d.wordsLeft - 1 } vcb := by
      constructor
      · have hsum : d.currentWord + d.wordsLeft = (d.blockNum / 4096 + 1) * 128 := hd.inBuffer
        change d.currentWord + 1 + (d.wordsLeft - 1) = (d.blockNum / 4096 + 1) * 128
        omega
      change countBits 33 (~~~(vcb.bitmap d.currentWord)) d.freeCount =
        clearCount vcb.bitmap (32 * (d.currentWord + 1))
      rw [hcount, hd.count, Nat.mul_add, clearCount_word]
    obtain ⟨c', hwords, hc', hword'⟩ := ih hnext (show 32 * (d.currentWord + 1 + n) ≤ _ by omega)
    rw [countWords, hrefill]
    refine ⟨c', hwords, hc', ?_⟩
    have : c'.currentWord = d.currentWord + 1 + n := hword'
    omega

lemma updateFreeCount_spec (hread : Readable vcb) (hend : vcb.totalBlocks < 4294967296) :
    updateFreeCount vcb = .ok (clearCount vcb.bitmap vcb.totalBlocks) := by
  have hstart : CountCursor.Ok
      { currentWord := 0, wordsLeft := kWordsPerBlock, blockNum := 0, freeCount := 0 } vcb :=
    ⟨rfl, rfl⟩
  obtain ⟨c, hwords, hc, hword⟩ := countWords_spec hread hstart
    (n := vcb.totalBlocks / 32) (by dsimp only; omega)
  have hword' : c.currentWord = vcb.totalBlocks / 32 := by
    rw [hword]
    exact zero_add _
  simp only [updateFreeCount, readBitmapBlock_eq hread, bind, Except.bind, Nat.zero_div,
    Nat.zero_mul]
  rw [show kBitsPerWord = 32 from rfl, hwords]
  by_cases hrest : vcb.totalBlocks % 32 ≠ 0
  · obtain ⟨d, hrefill, hd, -, hdword⟩ := c.refill_spec hread hc (by omega)
    have htotal : vcb.totalBlocks = 32 * d.currentWord + vcb.totalBlocks % 32 := by omega
    simp only [if_pos hrest, hrefill]
    rw [countHighBits_eq _ (by omega), hd.count, ← clearCount_bits _ _ (by omega), ← htotal]
    rfl
  simp only [if_neg hrest]
  have htotal : 32 * c.currentWord = vcb.totalBlocks := by omega
  rw [hc.count, htotal]
  rfl

end Rhapsody.Hfs
