import Rhapsody.Lib.Region

/-! The zone allocator (`kern/zalloc.c`): regions that belong to no zone are kept in a
`zone_free_space`, an address-ordered list threaded through the memory itself with a table of
hints by size; a zone keeps its free elements in a list of its own. -/

namespace Rhapsody.Kern
open Rhapsody.Lib Function

def pageSize : ℕ := 8192

def zoneMinAlloc : ℕ := 16

def roundPage (x : ℕ) : ℕ := add32 x (pageSize - 1) / pageSize * pageSize

/-- `(size + (ZONE_MIN_ALLOC - 1)) & ~(ZONE_MIN_ALLOC - 1)`, at least `ZONE_MIN_ALLOC`. -/
def roundAlloc (size : ℕ) : ℕ :=
  if size > zoneMinAlloc then add32 size (zoneMinAlloc - 1) / zoneMinAlloc * zoneMinAlloc
  else zoneMinAlloc

def toInteger (w : ℕ) : ℤ := if w < 2 ^ 31 then w else (w : ℤ) - 2 ^ 32

def regionEnd (r : Region) : ℕ := add32 r.start r.length

structure ZoneFreeSpace where
  allocUnit : ℕ
  allocMax : ℕ
  entries : List Region
  numEntries : ℕ
  hashShift : ℕ
  /-- The hint for a hash, in the range `1` to `numHints`. -/
  hints : ℤ → Option ℕ
  numHints : ℕ

namespace ZoneFreeSpace

variable (fs : ZoneFreeSpace)

def zoneFreeSpaceHash (size : ℕ) : ℤ :=
  let hash := toInteger (size >>> fs.hashShift)
  if hash > fs.numHints then fs.numHints else hash

def lowerHint (hints : ℤ → Option ℕ) (hash : ℤ) (entry : ℕ) : ℤ → Option ℕ :=
  match hints hash with
  | none => update hints hash (some entry)
  | some a => if entry < a then update hints hash (some entry) else hints

def zoneFreeSpaceHintInsert (entry : Region) : ZoneFreeSpace :=
  { fs with hints := lowerHint fs.hints (fs.zoneFreeSpaceHash entry.length) entry.start }

/-- The next entry of the same length for an exact hint, of length at least `alloc_max` for the
last. -/
def nextHint (hash : ℤ) (length : ℕ) (after : List Region) : Option ℕ :=
  if hash < fs.numHints then (after.find? fun cur => cur.length = length).map Region.start
  else (after.find? fun cur => ¬cur.length < fs.allocMax).map Region.start

def passHint (hash : ℤ) (address length : ℕ) (after : List Region) : ℤ → Option ℕ :=
  if fs.hints hash = some address then
    update fs.hints hash (fs.nextHint hash length after)
  else fs.hints

def zoneFreeSpaceHintDelete (entry : Region) (after : List Region) : ZoneFreeSpace :=
  { fs with hints :=
      fs.passHint (fs.zoneFreeSpaceHash entry.length) entry.start entry.length after }

def zoneFreeSpaceHintPrepend (entry : Region) (oldLength oldEntry : ℕ) (after : List Region) :
    ZoneFreeSpace :=
  let newHash := fs.zoneFreeSpaceHash entry.length
  let oldHash := fs.zoneFreeSpaceHash oldLength
  { fs with hints :=
      if oldHash ≠ newHash then
        lowerHint (fs.passHint oldHash oldEntry oldLength after) newHash entry.start
      else if fs.hints oldHash = some oldEntry then
        update fs.hints oldHash (some entry.start)
      else fs.hints }

def zoneFreeSpaceHintAppend (entry : Region) (oldLength : ℕ) (after : List Region) :
    ZoneFreeSpace :=
  let newHash := fs.zoneFreeSpaceHash entry.length
  let oldHash := fs.zoneFreeSpaceHash oldLength
  { fs with hints :=
      if oldHash ≠ newHash then
        lowerHint (fs.passHint oldHash entry.start oldLength after) newHash entry.start
      else fs.hints }

/-- A place in a free list: the entry at `cur`, what stands before it and what hangs off its `next`.
-/
structure Place where
  before : List Region
  cur : Region
  after : List Region

def Place.entries (p : Place) : List Region := p.before ++ p.cur :: p.after

def placeOf (cond : Region → Bool) : List Region → Option Place
  | [] => none
  | e :: es => if cond e then some ⟨[], e, es⟩
    else (placeOf cond es).map fun p => { p with before := e :: p.before }

def locate (address : ℕ) (entries : List Region) : Option Place :=
  placeOf (fun e => e.start = address) entries

def lookupLast (size : ℕ) : Option Place × ZoneFreeSpace :=
  match (fs.hints fs.numHints).bind (locate · fs.entries) with
  | none => (none, fs)
  | some p =>
    if p.cur.length < size then
      ((placeOf (fun cur => ¬cur.length < size) p.after).map fun q =>
        { q with before := p.before ++ p.cur :: q.before }, fs)
    else
      let next := (p.after.find? fun cur => ¬cur.length < fs.allocMax).map Region.start
      (some p, { fs with hints := update fs.hints fs.numHints next })

def lookupExact (fs : ZoneFreeSpace) (size : ℕ) : ℕ → ℤ → Option Place × ZoneFreeSpace
  | 0, _ => fs.lookupLast size
  | n + 1, hash =>
    match fs.hints hash with
    | none => fs.lookupExact size n (hash + 1)
    | some a =>
      match locate a fs.entries with
      | none => (none, fs)
      | some p =>
        let next := (p.after.find? fun cur => cur.length = p.cur.length).map Region.start
        (some p, { fs with hints := update fs.hints hash next })

def zoneFreeSpaceLookup (size : ℕ) : Option Place × ZoneFreeSpace :=
  match fs.entries with
  | [] => (none, fs)
  | entry :: after =>
    if entry.length ≥ size then (some ⟨[], entry, after⟩, fs.zoneFreeSpaceHintDelete entry after)
    else
      let hash := fs.zoneFreeSpaceHash size
      fs.lookupExact size (fs.numHints - hash).toNat hash

def takeFront (p : Place) (size : ℕ) : ZoneFreeSpace :=
  if sub32 p.cur.length size < zoneMinAlloc then
    { fs with entries := p.before ++ p.after, numEntries := fs.numEntries - 1 }
  else
    let new : Region := ⟨add32 p.cur.start size, sub32 p.cur.length size⟩
    zoneFreeSpaceHintInsert { fs with entries := p.before ++ new :: p.after } new

def zoneFreeSpaceAdd (size newSpace spaceToAdd : ℕ) : ℕ × ZoneFreeSpace :=
  let rest : Region := ⟨add32 newSpace size, sub32 spaceToAdd size⟩
  match placeOf (fun cur => ¬(cur.start < newSpace ∧ regionEnd cur ≠ newSpace)) fs.entries with
  | none =>
    if rest.length ≥ zoneMinAlloc then
      (newSpace, zoneFreeSpaceHintInsert
        { fs with entries := fs.entries ++ [rest], numEntries := fs.numEntries + 1 } rest)
    else (newSpace, fs)
  | some p =>
    if regionEnd p.cur < newSpace then
      if rest.length ≥ zoneMinAlloc then
        (newSpace, zoneFreeSpaceHintInsert
          { fs with
            entries := p.before ++ p.cur :: rest :: p.after, numEntries := fs.numEntries + 1 } rest)
      else (newSpace, fs)
    else if regionEnd p.cur = newSpace then
      let fs := fs.zoneFreeSpaceHintDelete p.cur p.after
      let new : Region := ⟨add32 p.cur.start size, sub32 (add32 p.cur.length spaceToAdd) size⟩
      (p.cur.start, zoneFreeSpaceHintInsert { fs with entries := p.before ++ new :: p.after } new)
    else (newSpace, fs)

end ZoneFreeSpace

/-! ## Zones -/

structure Zone where
  freeElements : List ℕ
  lastInsert : ℕ
  elemSize : ℕ
  curSize : ℕ
  count : ℤ
  /-- The index in `zone_free_space`; `none` is the null pointer. -/
  freeSpace : Option ℕ

namespace Zone

def insertSorted (element : ℕ) : List ℕ → List ℕ
  | [] => [element]
  | cur :: rest =>
    if element > cur then cur :: insertSorted element rest else element :: cur :: rest

/-- Insertion below `last`; if that is not in the list the element is not reached from it. -/
def insertAfter (last element : ℕ) : List ℕ → List ℕ
  | [] => []
  | cur :: rest =>
    if cur = last then cur :: insertSorted element rest else cur :: insertAfter last element rest

def addToZone (zone : Zone) (element : ℕ) : Zone :=
  { zone with
    freeElements := if zone.lastInsert ≠ 0 ∧ element > zone.lastInsert then
        insertAfter zone.lastInsert element zone.freeElements
      else insertSorted element zone.freeElements
    lastInsert := element
    count := zone.count - 1 }

def removeFromZone (zone : Zone) : Option (ℕ × Zone) :=
  match zone.freeElements with
  | [] => none
  | ret :: rest =>
    some (ret,
      { zone with
        freeElements := rest
        count := zone.count + 1
        lastInsert := if zone.lastInsert = ret then 0 else zone.lastInsert })

end Zone

def defaultSpace : ℕ := 0

def zoneCollectable (zone : Zone) : Bool :=
  zone.freeSpace ≠ none ∧ zone.freeSpace ≠ some defaultSpace

/-! ## Collection -/

/-- The free list of `zone_collect` cut at `last`: `rest` is what `*last` points to. -/
structure Cursor where
  fs : ZoneFreeSpace
  before : List Region
  rest : List Region

open ZoneFreeSpace in
def collectElement (elemSize : ℕ) (c : Cursor) (elem : ℕ) : Cursor :=
  let before := c.before ++ c.rest.takeWhile (fun cur => regionEnd cur < elem)
  let insert (rest : List Region) : Cursor :=
    let new : Region := ⟨elem, elemSize⟩
    ⟨zoneFreeSpaceHintInsert { c.fs with
        entries := before ++ new :: rest, numEntries := c.fs.numEntries + 1 } new,
      before, new :: rest⟩
  match c.rest.dropWhile (fun cur => regionEnd cur < elem) with
  | [] => insert []
  | cur :: after =>
    if add32 elem elemSize < cur.start then insert (cur :: after)
    else if add32 elem elemSize = cur.start then
      let new : Region := ⟨elem, add32 cur.length elemSize⟩
      ⟨zoneFreeSpaceHintPrepend { c.fs with entries := before ++ new :: after } new cur.length
        cur.start after, before, new :: after⟩
    else if regionEnd cur = elem then
      let grown : Region := ⟨cur.start, add32 cur.length elemSize⟩
      let append (fs : ZoneFreeSpace) (grown : Region) (after : List Region) : Cursor :=
        ⟨zoneFreeSpaceHintAppend { fs with entries := before ++ grown :: after } grown cur.length
          after, before, grown :: after⟩
      match after with
      | [] => append c.fs grown []
      | next :: after =>
        if regionEnd grown = next.start then
          -- the element fills the gap before the next entry
          let fs := c.fs.zoneFreeSpaceHintDelete next after
          append { fs with numEntries := fs.numEntries - 1 }
            ⟨cur.start, add32 grown.length next.length⟩ after
        else append c.fs grown (next :: after)
    else ⟨c.fs, before, cur :: after⟩

def zoneCollect (zone : Zone) (fs : ZoneFreeSpace) : Zone × ZoneFreeSpace :=
  ({ zone with
      freeElements := [], lastInsert := 0
      curSize := zone.freeElements.foldl (fun n _ => sub32 n zone.elemSize) zone.curSize },
    (zone.freeElements.foldl (collectElement zone.elemSize) ⟨fs, [], fs.entries⟩).fs)

/-! ## The allocator as a whole -/

/-- All spaces and zones, the boot memory not used yet, and, as ghost state, what callers hold and
what was obtained from the system. -/
structure ZoneSystem where
  spaces : List ZoneFreeSpace
  zones : List Zone
  zdata : ℕ
  zdataSize : ℕ
  handed : List Region
  system : List Region

inductive ZoneEvent where
  /-- `zget_space` up to the point where it returns or drops the lock. -/
  | getSpace (space size : ℕ)
  /-- `zget_space` after `kmem_alloc_zone` has returned `newSpace`. -/
  | getSpaceAgain (space size newSpace : ℕ)
  | zget (zone : ℕ)
  | zfree (zone elem : ℕ)
  | collect (zone : ℕ)

namespace ZoneSystem

variable (s : ZoneSystem)

def regions : List Region :=
  s.handed ++ (s.zones.flatMap fun z => z.freeElements.map fun a => ⟨a, z.elemSize⟩) ++
    s.spaces.flatMap ZoneFreeSpace.entries

def hand (space : ℕ) (fs : ZoneFreeSpace) (address size : ℕ) : ZoneSystem :=
  { s with spaces := s.spaces.set space fs, handed := ⟨address, size⟩ :: s.handed }

def grow (space : ℕ) (fs : ZoneFreeSpace) (size newSpace spaceToAdd : ℕ) : ZoneSystem :=
  let (address, fs') := fs.zoneFreeSpaceAdd size newSpace spaceToAdd
  { s.hand space fs' address size with system := ⟨newSpace, spaceToAdd⟩ :: s.system }

/-- Memory the system can come up with: whole pages of kernel addresses that
are not in use here. -/
def Fresh (r : Region) : Prop :=
  pageSize ∣ r.start ∧ pageSize ∣ r.length ∧ 0 < r.start ∧ r.start + r.length ≤ 0x40000000 ∧
    (∀ t ∈ ⟨s.zdata, s.zdataSize⟩ :: s.system,
      r.start + r.length ≤ t.start ∨ t.start + t.length ≤ r.start)

instance (s : ZoneSystem) (r : Region) : Decidable (s.Fresh r) :=
  inferInstanceAs (Decidable (_ ∧ _ ∧ _ ∧ _ ∧ _))

def step : ZoneEvent → Option ZoneSystem
  | .getSpace i size => do
    let fs ← s.spaces[i]?
    let size := roundAlloc size
    match fs.zoneFreeSpaceLookup size with
    | (some p, fs') => some (s.hand i (fs'.takeFront p size) p.cur.start size)
    | (none, fs') =>
      let spaceToAdd := roundPage size
      if s.zdataSize ≥ spaceToAdd then
        let zdataSize := s.zdataSize - spaceToAdd
        some ({ s with zdataSize }.grow i fs' size (add32 s.zdata zdataSize) spaceToAdd)
      else some { s with spaces := s.spaces.set i fs' }
  | .getSpaceAgain i size newSpace => do
    let fs ← s.spaces[i]?
    let size := roundAlloc size
    let spaceToAdd := roundPage size
    if s.Fresh ⟨newSpace, spaceToAdd⟩ then
      match fs.zoneFreeSpaceLookup size with
      | (some p, fs') =>
        -- the new memory is not needed and goes back
        some (s.hand i (fs'.takeFront p size) p.cur.start size)
      | (none, fs') => some (s.grow i fs' size newSpace spaceToAdd)
    else none
  | .zget z => do
    let zone ← s.zones[z]?
    let (address, zone') ← zone.removeFromZone
    some { s with
      zones := s.zones.set z zone', handed := ⟨address, zone.elemSize⟩ :: s.handed }
  | .zfree z elem => do
    let zone ← s.zones[z]?
    if ⟨elem, zone.elemSize⟩ ∈ s.handed then
      some { s with
        zones := s.zones.set z (zone.addToZone elem)
        handed := s.handed.erase ⟨elem, zone.elemSize⟩ }
    else none
  | .collect z => do
    let zone ← s.zones[z]?
    if zoneCollectable zone then
      let i ← zone.freeSpace
      let fs ← s.spaces[i]?
      let (zone', fs') := zoneCollect zone fs
      some { s with zones := s.zones.set z zone', spaces := s.spaces.set i fs' }
    else some s

end ZoneSystem

end Rhapsody.Kern
