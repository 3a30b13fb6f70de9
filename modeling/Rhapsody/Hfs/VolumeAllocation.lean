import Rhapsody.Lib.Bitmap

/-! Allocation of blocks on an HFS volume (`bsd/hfs/hfscommon/Misc/VolumeAllocation.c`): the
bitmap is read one 512-byte block at a time and scanned with a pointer into that buffer, a count
of the words left and a mask. The pointer is the index of its word in the whole bitmap; a read
that fails returns an error together with the bitmap as it was left. -/

namespace Rhapsody.Hfs

open Rhapsody.Lib Function

def kBitsPerWord : ℕ := 32

def kWordsPerBlock : ℕ := 128

def kBitsPerBlock : ℕ := 4096

def kHighBitInWordMask : BitVec 32 := 0x80000000#32

def kLowBitInWordMask : BitVec 32 := 1#32

def kAllBitsSetInWord : BitVec 32 := BitVec.allOnes 32

inductive OSErr where
  | dskFulErr
  | ioErr
  deriving DecidableEq

/-- The fields the allocator uses. `readable` says whether the bitmap block of an allocation block
can be read. -/
structure ExtendedVCB where
  bitmap : Bitmap
  readable : ℕ → Bool
  totalBlocks : ℕ
  freeBlocks : ℕ
  nextAllocation : ℕ
  blockSize : ℕ

structure Failure where
  err : OSErr
  bitmap : Bitmap

@[irreducible] def sub32 (a b : ℕ) : ℕ := if b ≤ a then a - b else 4294967296 - (b - a)

@[irreducible] def add32 (a b : ℕ) : ℕ := (a + b) % 4294967296

def divideAndRoundUp (numerator denominator : ℕ) : ℕ :=
  let quotient := numerator / denominator
  if quotient * denominator ≠ numerator then quotient + 1 else quotient

variable (vcb : ExtendedVCB)

variable (bm : Bitmap)

def readBitmapBlock (block : ℕ) : Except Failure ℕ :=
  if vcb.readable block then .ok (block / kBitsPerBlock * kWordsPerBlock)
  else .error ⟨.ioErr, bm⟩

def wordIndexInBlock (block : ℕ) : ℕ := block % kBitsPerBlock / kBitsPerWord

/-! ### Allocating what is free -/

/-- The position of `BlockAllocateAny`: the block, its word, the words left in the buffer, and the
mask of its bit. -/
structure Cursor where
  block : ℕ
  buffer : ℕ
  wordsLeft : ℕ
  currentWord : BitVec 32
  bitMask : BitVec 32

def setCursor (first block : ℕ) : Cursor :=
  { block := block
    buffer := first + wordIndexInBlock block
    wordsLeft := kWordsPerBlock - wordIndexInBlock block
    currentWord := bm (first + wordIndexInBlock block)
    bitMask := kHighBitInWordMask >>> (block % kBitsPerWord) }

def openCursor (block : ℕ) : Except Failure Cursor := do
  let first ← readBitmapBlock vcb bm block
  return setCursor bm first block

/-- The pointer to the next word; the next bitmap block is read when the buffer is
used up. -/
def nextBuffer (block buffer wordsLeft : ℕ) : Except Failure (ℕ × ℕ) :=
  if wordsLeft - 1 = 0 then do
    let first ← readBitmapBlock vcb bm block
    return (first, kWordsPerBlock)
  else return (buffer + 1, wordsLeft - 1)

def Cursor.nextBit (c : Cursor) : Except Failure Cursor :=
  if c.bitMask >>> 1 = 0 then do
    let (buffer, wordsLeft) ← nextBuffer vcb bm c.block c.buffer c.wordsLeft
    return { c with
             buffer := buffer
             wordsLeft := wordsLeft
             currentWord := bm buffer
             bitMask := kHighBitInWordMask }
  else return { c with bitMask := c.bitMask >>> 1 }

/-- The search for the first unallocated block; the count is `endingBlock - block`. -/
def findFree (vcb : ExtendedVCB) (bm : Bitmap) : ℕ → Cursor → Except Failure Cursor
  | 0, c => return c
  | left + 1, c =>
    if c.currentWord &&& c.bitMask = 0 then return c
    else do
      let c ← { c with block := add32 c.block 1 }.nextBit vcb bm
      findFree vcb bm left c

/-- The loop that allocates consecutive blocks. A word is written back when the loop leaves it. -/
def allocateRun (vcb : ExtendedVCB) : ℕ → Bitmap → Cursor → Except Failure (Bitmap × Cursor)
  | 0, bm, c => return (bm, c)
  | left + 1, bm, c =>
    if c.currentWord &&& c.bitMask = 0 then
      let c := { c with currentWord := c.currentWord ||| c.bitMask, block := add32 c.block 1 }
      if left = 0 then return (bm, c)
      else do
        let bm := if c.bitMask >>> 1 = 0 then update bm c.buffer c.currentWord else bm
        let c ← c.nextBit vcb bm
        allocateRun vcb left bm c
    else return (bm, c)

structure Allocated where
  bitmap : Bitmap
  actualStartBlock : ℕ
  actualNumBlocks : ℕ

variable (startingBlock : ℕ)

def blockAllocateAny (endingBlock maxBlocks : ℕ) :
    Except Failure Allocated := do
  let bm := vcb.bitmap
  let maxBlocks := min maxBlocks (sub32 endingBlock startingBlock)
  let c ← openCursor vcb bm startingBlock
  let c ← findFree vcb bm (endingBlock - startingBlock) c
  if c.block = endingBlock then .error ⟨.dskFulErr, bm⟩
  else
    let endingBlock :=
      if c.block < sub32 endingBlock maxBlocks then add32 c.block maxBlocks else endingBlock
    let (bm, last) ← allocateRun vcb (sub32 endingBlock c.block) bm c
    return { bitmap := update bm last.buffer last.currentWord
             actualStartBlock := c.block
             actualNumBlocks := sub32 last.block c.block }

/-! ### Marking a run -/

structure MarkCursor where
  bitmap : Bitmap
  currentWord : ℕ
  wordsLeft : ℕ
  startingBlock : ℕ
  numBlocks : ℕ

def MarkCursor.refill (c : MarkCursor) : Except Failure MarkCursor :=
  if c.wordsLeft = 0 then do
    let startingBlock := add32 c.startingBlock kBitsPerBlock
    let first ← readBitmapBlock vcb c.bitmap startingBlock
    return { c with
             startingBlock := startingBlock
             currentWord := first
             wordsLeft := kWordsPerBlock }
  else return c

def MarkCursor.write (c : MarkCursor) (word : BitVec 32) (numBits : ℕ) : MarkCursor :=
  { c with
    bitmap := update c.bitmap c.currentWord word
    numBlocks := c.numBlocks - numBits
    currentWord := c.currentWord + 1
    wordsLeft := c.wordsLeft - 1 }

def markWords (vcb : ExtendedVCB) (whole : BitVec 32) : ℕ → MarkCursor → Except Failure MarkCursor
  | 0, c => return c
  | n + 1, c => do
    let c ← c.refill vcb
    markWords vcb whole n (c.write whole kBitsPerWord)

/-- The mask of the first word of a run that does not start on a word boundary. -/
def firstMask (firstBit numBlocks : ℕ) : BitVec 32 :=
  if kBitsPerWord - firstBit > numBlocks then
    (kAllBitsSetInWord >>> firstBit) &&& ~~~(kAllBitsSetInWord >>> (firstBit + numBlocks))
  else kAllBitsSetInWord >>> firstBit

/-- `part` changes the bits of a mask in a word, `whole` is a word with all its bits changed. -/
def markRun (part : BitVec 32 → BitVec 32 → BitVec 32) (whole : BitVec 32)
    (startingBlock numBlocks : ℕ) : Except Failure Bitmap := do
  let bm := vcb.bitmap
  let first ← readBitmapBlock vcb bm startingBlock
  let c : MarkCursor :=
    { bitmap := bm
      currentWord := first + wordIndexInBlock startingBlock
      wordsLeft := kWordsPerBlock - wordIndexInBlock startingBlock
      startingBlock := startingBlock
      numBlocks := numBlocks }
  let firstBit := startingBlock % kBitsPerWord
  let c := if firstBit ≠ 0 then
      c.write (part (bm c.currentWord) (firstMask firstBit numBlocks))
        (min (kBitsPerWord - firstBit) numBlocks)
    else c
  let c ← markWords vcb whole (c.numBlocks / kBitsPerWord) c
  if c.numBlocks ≠ 0 then
    let bitMask := ~~~(kAllBitsSetInWord >>> c.numBlocks)
    let c ← c.refill vcb
    return update c.bitmap c.currentWord (part (c.bitmap c.currentWord) bitMask)
  else return c.bitmap

def blockMarkAllocated (numBlocks : ℕ) : Except Failure Bitmap :=
  markRun vcb (fun word bitMask => word ||| bitMask) kAllBitsSetInWord startingBlock numBlocks

def blockMarkFree (numBlocks : ℕ) : Except Failure Bitmap :=
  markRun vcb (fun word bitMask => word &&& ~~~bitMask) 0 startingBlock numBlocks

/-! ### Finding contiguous blocks -/

/-- The position of `BlockFindContiguous`, from back to front; `tempWord` is what `currentWord`
points to. -/
structure ScanState where
  currentBlock : ℕ
  stopBlock : ℕ
  freeBlocks : ℕ
  countedFreeBlocks : ℕ
  currentWord : ℕ
  wordsLeft : ℕ
  currentSector : ℕ
  tempWord : BitVec 32
  bitMask : BitVec 32

/-- Point to the bit of `currentBlock` in a buffer that starts at word `first`. -/
def ScanState.point (s : ScanState) (bm : Bitmap) (first : ℕ) : ScanState :=
  { s with
    wordsLeft := wordIndexInBlock s.currentBlock
    currentWord := first + wordIndexInBlock s.currentBlock
    tempWord := bm (first + wordIndexInBlock s.currentBlock)
    bitMask := kHighBitInWordMask >>> (s.currentBlock % kBitsPerWord) }

/-- The step to the word before; the bitmap block before is read when the buffer is
used up. -/
def previousWord (s : ScanState) : Except Failure ScanState :=
  if s.wordsLeft ≠ 0 then
    return { s with currentWord := s.currentWord - 1, wordsLeft := s.wordsLeft - 1 }
  else do
    let first ← readBitmapBlock vcb vcb.bitmap s.currentBlock
    return { s with
             currentSector := s.currentBlock / kBitsPerBlock
             currentWord := first + kWordsPerBlock - 1
             wordsLeft := kWordsPerBlock - 1 }

/-- The code at `NextWord`, which passes over words of free blocks. The flag says that enough was
found. -/
def nextWord (vcb : ExtendedVCB) (minBlocks : ℕ) :
    ℕ → ScanState → Option (Except Failure (Bool × ScanState))
  | 0, _ => none
  | fuel + 1, s =>
    match previousWord vcb s with
    | .error e => some (.error e)
    | .ok s =>
      let s := { s with tempWord := vcb.bitmap s.currentWord }
      if s.tempWord = 0 then
        let s := { s with
                   freeBlocks := s.freeBlocks + kBitsPerWord
                   currentBlock := sub32 s.currentBlock kBitsPerWord }
        if s.freeBlocks + s.countedFreeBlocks ≥ minBlocks then some (.ok (true, s))
        else nextWord vcb minBlocks fuel s
      else some (.ok (false, s))

def previousBit (minBlocks fuel : ℕ) (s : ScanState) : Option (Except Failure (Bool × ScanState)) :=
  let s := { s with currentBlock := sub32 s.currentBlock 1, bitMask := s.bitMask <<< 1 }
  if s.bitMask = 0 then nextWord vcb minBlocks fuel { s with bitMask := kLowBitInWordMask }
  else some (.ok (false, s))

def jump (s : ScanState) : Except Failure ScanState := do
  let s := { s with countedFreeBlocks := s.freeBlocks, freeBlocks := 0 }
  let sector := s.currentBlock / kBitsPerBlock
  if s.currentSector ≠ sector then
    let first ← readBitmapBlock vcb vcb.bitmap s.currentBlock
    return { s.point vcb.bitmap first with currentSector := sector }
  else return s.point vcb.bitmap (s.currentSector * kWordsPerBlock)

def scanBack (vcb : ExtendedVCB) (endingBlock minBlocks : ℕ) :
    ℕ → ScanState → Option (Except Failure ScanState)
  | 0, _ => none
  | fuel + 1, s =>
    if s.currentBlock < s.stopBlock then some (.ok s)
    else if s.tempWord &&& s.bitMask = 0 then
      match previousBit vcb minBlocks fuel { s with freeBlocks := s.freeBlocks + 1 } with
      | none => none
      | some (.error e) => some (.error e)
      | some (.ok (true, s)) => some (.ok s)
      | some (.ok (false, s)) => scanBack vcb endingBlock minBlocks fuel s
    else if s.freeBlocks + s.countedFreeBlocks ≥ minBlocks then some (.ok s)
    else
      let s := { s with
                 stopBlock := add32 s.currentBlock (1 + s.freeBlocks)
                 currentBlock := add32 s.currentBlock minBlocks }
      if s.currentBlock ≥ endingBlock then some (.ok s)
      else
        match jump vcb s with
        | .error e => some (.error e)
        | .ok s => scanBack vcb endingBlock minBlocks fuel s

/-- The loop that takes further free blocks up to `maxBlocks`; the count is
`endingBlock - currentBlock`. -/
def extendRun (vcb : ExtendedVCB) (maxBlocks : ℕ) : ℕ → Cursor → ℕ → Except Failure ℕ
  | 0, _, actualNumBlocks => return actualNumBlocks
  | left + 1, c, actualNumBlocks =>
    if c.currentWord &&& c.bitMask = 0 then
      if actualNumBlocks + 1 = maxBlocks then return maxBlocks
      else do
        let c ← { c with block := add32 c.block 1 }.nextBit vcb vcb.bitmap
        extendRun vcb maxBlocks left c (actualNumBlocks + 1)
    else return actualNumBlocks

/-- What `BlockFindContiguous` does with `minBlocks` free blocks. A bitmap block that cannot be read
does not matter then. -/
def growRun (endingBlock minBlocks maxBlocks : ℕ) (s : ScanState) : Except Failure (ℕ × ℕ) :=
  let actualStartBlock := sub32 s.stopBlock s.countedFreeBlocks
  let currentBlock := add32 actualStartBlock minBlocks
  if s.currentSector ≠ currentBlock / kBitsPerBlock ∧ ¬vcb.readable currentBlock then
    return (actualStartBlock, minBlocks)
  else if minBlocks < maxBlocks then do
    let c := setCursor vcb.bitmap (currentBlock / kBitsPerBlock * kWordsPerBlock) currentBlock
    let actualNumBlocks ← extendRun vcb maxBlocks (endingBlock - currentBlock) c minBlocks
    return (actualStartBlock, actualNumBlocks)
  else return (actualStartBlock, minBlocks)

def startScan (startingBlock currentBlock first : ℕ) : ScanState :=
  { currentBlock := currentBlock
    stopBlock := startingBlock
    freeBlocks := 0
    countedFreeBlocks := 0
    currentWord := first + wordIndexInBlock currentBlock
    wordsLeft := wordIndexInBlock currentBlock
    currentSector := currentBlock / kBitsPerBlock
    tempWord := bm (first + wordIndexInBlock currentBlock)
    bitMask := kHighBitInWordMask >>> (currentBlock % kBitsPerWord) }

def scanFuel (endingBlock : ℕ) : ℕ := 3 * endingBlock + 100

def blockFindContiguous (endingBlock minBlocks maxBlocks : ℕ) : Option (Except Failure (ℕ × ℕ)) :=
  if sub32 endingBlock startingBlock < minBlocks then some (.error ⟨.dskFulErr, vcb.bitmap⟩)
  else
    let currentBlock := sub32 (add32 startingBlock minBlocks) 1
    match readBitmapBlock vcb vcb.bitmap currentBlock with
    | .error e => some (.error e)
    | .ok first =>
      match scanBack vcb endingBlock minBlocks (scanFuel endingBlock)
          (startScan vcb.bitmap startingBlock currentBlock first) with
      | none => none
      | some (.error e) => some (.error e)
      | some (.ok s) =>
        if s.freeBlocks + s.countedFreeBlocks < minBlocks then
          some (.error ⟨.dskFulErr, vcb.bitmap⟩)
        else some (growRun vcb endingBlock minBlocks maxBlocks s)

def markFound (run : ℕ × ℕ) : Except Failure Allocated := do
  let bm ← blockMarkAllocated vcb run.1 run.2
  return { bitmap := bm, actualStartBlock := run.1, actualNumBlocks := run.2 }

def blockAllocateContig (minBlocks maxBlocks : ℕ) : Option (Except Failure Allocated) :=
  match blockFindContiguous vcb startingBlock vcb.totalBlocks minBlocks maxBlocks with
  | none => none
  | some (.error ⟨.dskFulErr, _⟩) =>
    match blockFindContiguous vcb 0 vcb.totalBlocks minBlocks maxBlocks with
    | none => none
    | some found => some (found.bind (markFound vcb))
  | some found => some (found.bind (markFound vcb))

/-! ### The volume -/

/-- A run that is long enough, or the first free block after or before `startingBlock`. -/
def allocateFrom (minBlocks maxBlocks : ℕ) (forceContiguous : Bool) :
    Option (Except Failure Allocated) :=
  if forceContiguous then blockAllocateContig vcb startingBlock minBlocks maxBlocks
  else
    match blockAllocateAny vcb startingBlock vcb.totalBlocks maxBlocks with
    | .error ⟨.dskFulErr, _⟩ => some (blockAllocateAny vcb 0 startingBlock maxBlocks)
    | found => some found

def blockAllocate (bytesRequested bytesMaximum : ℕ) (forceContiguous : Bool) :
    Option (Except OSErr (ℕ × ℕ) × ExtendedVCB) :=
  let minBlocks := divideAndRoundUp bytesRequested vcb.blockSize
  let maxBlocks := divideAndRoundUp bytesMaximum vcb.blockSize
  if vcb.freeBlocks = 0 then some (.error .dskFulErr, vcb)
  else if forceContiguous ∧ vcb.freeBlocks < minBlocks then some (.error .dskFulErr, vcb)
  else
    match allocateFrom vcb (if startingBlock = 0 then vcb.nextAllocation else startingBlock)
        minBlocks maxBlocks forceContiguous with
    | none => none
    | some (.error e) => some (.error e.err, { vcb with bitmap := e.bitmap })
    | some (.ok a) =>
      some (.ok (a.actualStartBlock, a.actualNumBlocks),
        { vcb with
          bitmap := a.bitmap
          nextAllocation := if startingBlock = 0 then a.actualStartBlock else vcb.nextAllocation
          freeBlocks := sub32 vcb.freeBlocks a.actualNumBlocks })

def blockDeallocate (firstBlock numBlocks : ℕ) : Except OSErr Unit × ExtendedVCB :=
  if numBlocks = 0 then (.ok (), vcb)
  else
    match blockMarkFree vcb firstBlock numBlocks with
    | .error e => (.error e.err, { vcb with bitmap := e.bitmap })
    | .ok bm => (.ok (), { vcb with bitmap := bm, freeBlocks := add32 vcb.freeBlocks numBlocks })

/-- Count the set bits of a word by clearing the lowest one as long as there is one. -/
def countBits : ℕ → BitVec 32 → ℕ → ℕ
  | 0, _, freeCount => freeCount
  | fuel + 1, temp, freeCount =>
    if temp = 0 then freeCount else countBits fuel (temp &&& (temp - 1)) (freeCount + 1)

def countHighBits : ℕ → BitVec 32 → ℕ → ℕ
  | 0, _, freeCount => freeCount
  | numBlocks + 1, temp, freeCount =>
    countHighBits numBlocks (temp <<< 1)
      (if temp &&& kHighBitInWordMask ≠ 0 then freeCount + 1 else freeCount)

structure CountCursor where
  currentWord : ℕ
  wordsLeft : ℕ
  blockNum : ℕ
  freeCount : ℕ

def CountCursor.refill (c : CountCursor) : Except Failure CountCursor :=
  if c.wordsLeft = 0 then do
    let blockNum := add32 c.blockNum kBitsPerBlock
    let first ← readBitmapBlock vcb vcb.bitmap blockNum
    return { c with blockNum := blockNum, currentWord := first, wordsLeft := kWordsPerBlock }
  else return c

def countWords (vcb : ExtendedVCB) : ℕ → CountCursor → Except Failure CountCursor
  | 0, c => return c
  | n + 1, c => do
    let c ← c.refill vcb
    countWords vcb n
      { c with
        freeCount := countBits 33 (~~~(vcb.bitmap c.currentWord)) c.freeCount
        currentWord := c.currentWord + 1
        wordsLeft := c.wordsLeft - 1 }

def updateFreeCount : Except Failure ℕ := do
  let first ← readBitmapBlock vcb vcb.bitmap 0
  let c : CountCursor :=
    { currentWord := first, wordsLeft := kWordsPerBlock, blockNum := 0, freeCount := 0 }
  let c ← countWords vcb (vcb.totalBlocks / kBitsPerWord) c
  let numBlocks := vcb.totalBlocks % kBitsPerWord
  if numBlocks ≠ 0 then
    let c ← c.refill vcb
    return countHighBits numBlocks (~~~(vcb.bitmap c.currentWord)) c.freeCount
  else return c.freeCount

end Rhapsody.Hfs
