import Rhapsody.Lib.Region

/-! Address maps (`vm/vm_map.c`): an address-ordered list of entries behind a header, with a
lookup hint and a free space hint. The header as a pointer is `none`, an entry is known by its
identity. Objects and physical maps are a parameter. A result `none` stands for the use of a
pointer to something that is not an entry of the list. -/

namespace Rhapsody.Vm
open Rhapsody.Lib

inductive KernReturn where
  | success | invalidAddress | protectionFailure | noSpace | invalidArgument
  deriving DecidableEq

abbrev VmProt := BitVec 32

def vmProtRead : VmProt := 1
def vmProtWrite : VmProt := 2
def vmProtExecute : VmProt := 4
def vmProtDefault : VmProt := vmProtRead ||| vmProtWrite
def vmProtAll : VmProt := vmProtRead ||| vmProtWrite ||| vmProtExecute

inductive VmInherit where
  | share | copy | none
  deriving DecidableEq

def vmInheritDefault : VmInherit := .copy

def VmInherit.ofCode : ℕ → Option VmInherit
  | 0 => some .share
  | 1 => some .copy
  | 2 => some .none
  | _ => Option.none

structure VmMapEntry (ο : Type) where
  /-- The identity of the entry, as a pointer to it. -/
  id : ℕ
  vmeStart : ℕ
  vmeEnd : ℕ
  /-- The union of object, share map and submap; `none` is the null pointer. -/
  object : Option ο
  offset : ℕ
  isAMap : Bool
  isShared : Bool
  isSubMap : Bool
  copyOnWrite : Bool
  inTransition : Bool
  needsWakeup : Bool
  needsCopy : Bool
  protection : VmProt
  maxProtection : VmProt
  inheritance : VmInherit
  wiredCount : ℕ
  userWiredCount : ℕ

structure VmMap (ο : Type) where
  entries : List (VmMapEntry ο)
  nentries : ℤ
  minOffset : ℕ
  maxOffset : ℕ
  size : ℕ
  isMainMap : Bool
  refCount : ℕ
  pmap : ℕ
  hint : Option ℕ
  firstFree : Option ℕ
  /-- The number of entries created so far, and the identity of the next one. -/
  created : ℕ

def vmMapCreate (ο : Type) (pmap min max : ℕ) : VmMap ο where
  entries := []
  nentries := 0
  minOffset := min
  maxOffset := max
  size := 0
  isMainMap := true
  refCount := 1
  pmap := pmap
  hint := none
  firstFree := none
  created := 0

inductive VmCall (ο : Type) where
  | objectReference (object : Option ο)
  | objectDeallocate (object : Option ο)
  | mapReference (map : Option ο)
  | mapDeallocate (map : Option ο)
  | objectPageRemove (object : Option ο) (start stop : ℕ)
  | objectPmapRemove (object : Option ο) (start stop : ℕ)
  | objectPmapCopy (object : Option ο) (start stop : ℕ)
  | pmapRemove (pmap start stop : ℕ)
  | pmapProtect (pmap start stop : ℕ) (prot : VmProt)
  /-- `pmap_protect` for the pieces of a share map. -/
  | protectShareMap (pmap : ℕ) (map : Option ο) (offset start stop : ℕ) (prot : VmProt)
  | pmapCopy (dst src dstAddr len srcAddr : ℕ)
  | faultUnwire (pmap start stop : ℕ)
  /-- The page loop of `vm_fault_copy_entry`. -/
  | faultCopyPages (dst : Option ο) (src : Option ο) (srcOffset size : ℕ) (prot : VmProt)

/-- The layers below, over a state `σ`. -/
structure VmLayers (ο σ : Type) where
  call : VmCall ο → σ → σ
  kernelObject : ο
  objectAllocate : ℕ → σ → ο × σ
  /-- `vm_object_coalesce(prev, NULL, prevOffset, 0, prevSize, nextSize)` -/
  objectCoalesce : Option ο → ℕ → ℕ → ℕ → σ → Bool × σ
  /-- The shadow of an object and the offset in it. -/
  objectShadow : Option ο → ℕ → ℕ → σ → (Option ο × ℕ) × σ
  /-- The copy, the offset in it, and whether the source needs a shadow. -/
  objectCopy : Option ο → ℕ → ℕ → σ → (Option ο × ℕ × Bool) × σ
  /-- `vm_fault_wire`, and whether it had to take a fault through the map. -/
  faultWire : ℕ → ℕ → ℕ → σ → Bool × σ

variable {ο σ : Type}

namespace VmMapEntry

def referenceCall (e : VmMapEntry ο) : VmCall ο :=
  if e.isAMap || e.isSubMap then .mapReference e.object else .objectReference e.object

def deallocateCall (e : VmMapEntry ο) : VmCall ο :=
  if e.isAMap || e.isSubMap then .mapDeallocate e.object else .objectDeallocate e.object

def size (e : VmMapEntry ο) : ℕ := sub32 e.vmeEnd e.vmeStart

end VmMapEntry

/-- A list of entries cut where a pointer points: to the first of `rest`, or to the header if there
is none. -/
structure Cut (ο : Type) where
  before : List (VmMapEntry ο)
  rest : List (VmMapEntry ο)

def Cut.entries (c : Cut ο) : List (VmMapEntry ο) := c.before ++ c.rest

def lastPtr (es : List (VmMapEntry ο)) : Option ℕ := es.getLast?.map VmMapEntry.id

def firstPtr (es : List (VmMapEntry ο)) : Option ℕ := es.head?.map VmMapEntry.id

def cutAt (id : ℕ) : List (VmMapEntry ο) → Option (Cut ο)
  | [] => none
  | e :: es =>
    if e.id = id then some ⟨[], e :: es⟩
    else (cutAt id es).map fun c => { c with before := e :: c.before }

namespace VmMap

variable (map : VmMap ο)

def saveHint (p : Option ℕ) : VmMap ο := { map with hint := p }

/-- `_vm_map_entry_create` and `_vm_map_entry_link` as far as the header goes. -/
def create : VmMap ο := { map with nentries := map.nentries + 1, created := map.created + 1 }

end VmMap

/-! ## Lookup -/

def search (address : ℕ) (before : List (VmMapEntry ο)) : List (VmMapEntry ο) → Bool × Cut ο
  | [] => (false, ⟨before, []⟩)
  | cur :: rest =>
    if cur.vmeEnd > address then (decide (address ≥ cur.vmeStart), ⟨before, cur :: rest⟩)
    else search address (before ++ [cur]) rest

/-- The list from the hint on; the header as a hint stands for the first entry. -/
def hintCut (map : VmMap ο) : Option (Cut ο) :=
  match map.hint with
  | none => some ⟨[], map.entries⟩
  | some id => cutAt id map.entries

/-- The cut is at the entry that contains the address or behind the one that precedes it. -/
def vmMapLookupEntry (map : VmMap ο) (address : ℕ) : Option (Bool × Cut ο × VmMap ο) :=
  let save (found : Bool) (c : Cut ο) : Bool × Cut ο × VmMap ο :=
    (found, c, map.saveHint (if found then firstPtr c.rest else lastPtr c.before))
  match hintCut map with
  | none => none
  | some ⟨_, []⟩ => some (save false ⟨[], []⟩)
  | some ⟨before, cur :: rest⟩ =>
    if address ≥ cur.vmeStart then
      if cur.vmeEnd > address then some (true, ⟨before, cur :: rest⟩, map)
      else
        let r := search address before (cur :: rest)
        some (save r.1 r.2)
    else
      -- from the start to the hint, inclusively
      let r := search address [] (before ++ [cur])
      some (save r.1 { r.2 with rest := r.2.rest ++ rest })

/-! ## Allocation -/

variable (w : VmLayers ο σ)

def insertExtend (object : Option ο) (start stop : ℕ) (c : Cut ο) (s : σ) :
    Option (VmMapEntry ο) × σ :=
  match c.before.getLast? with
  | none => (none, s)
  | some prev =>
    if object.isNone ∧ prev.vmeEnd = start ∧ !prev.isAMap ∧ !prev.isSubMap ∧
        prev.inheritance = vmInheritDefault ∧ prev.protection = vmProtDefault ∧
        prev.maxProtection = vmProtAll ∧ prev.wiredCount = 0 then
      let r := w.objectCoalesce prev.object prev.offset prev.size (sub32 stop prev.vmeEnd) s
      (if r.1 then some prev else none, r.2)
    else (none, s)

variable (mem : VmMapEntry ο)

/-- The new entry of `vm_map_insert`; `mem` is what the zone element held before. -/
def insertNew (map : VmMap ο) (object : Option ο) (offset start stop : ℕ) : VmMapEntry ο :=
  let new := { mem with
    id := map.created, vmeStart := start, vmeEnd := stop
    isAMap := false, isSubMap := false, object := object, offset := offset
    copyOnWrite := false, needsCopy := false }
  { new with
    inheritance := if map.isMainMap then vmInheritDefault else new.inheritance
    protection := if map.isMainMap then vmProtDefault else new.protection
    maxProtection := if map.isMainMap then vmProtAll else new.maxProtection
    wiredCount := if map.isMainMap then 0 else new.wiredCount }

def vmMapInsert (map : VmMap ο) (object : Option ο) (offset start stop : ℕ) (s : σ) :
    Option (KernReturn × VmMap ο × σ) :=
  if start < map.minOffset ∨ stop > map.maxOffset ∨ start ≥ stop then
    some (.invalidAddress, map, s)
  else do
    let (found, c, map) ← vmMapLookupEntry map start
    if found then return (.noSpace, map, s)
    if c.rest.head?.any fun next => next.vmeStart < stop then return (.noSpace, map, s)
    match insertExtend w object start stop c s with
    | (some prev, s) =>
      return (.success, { map with
        entries := c.before.dropLast ++ { prev with vmeEnd := stop } :: c.rest
        size := add32 map.size (sub32 stop prev.vmeEnd) }, s)
    | (none, s) =>
      let new := insertNew mem map object offset start stop
      -- the end of the header is that of the map
      let prevEnd := (c.before.getLast?.map VmMapEntry.vmeEnd).getD map.maxOffset
      return (.success, { map.create with
        entries := c.before ++ new :: c.rest
        size := add32 map.size new.size
        firstFree := if map.firstFree = lastPtr c.before ∧ prevEnd ≥ new.vmeStart then some new.id
          else map.firstFree }, s)

/-- Where the search for free space begins: the address, and the list cut behind
the entry that precedes it. -/
def firstFreeCut (map : VmMap ο) : Option (ℕ × Cut ο) :=
  match map.firstFree with
  | none => some (map.minOffset, ⟨[], map.entries⟩)
  | some id =>
    match cutAt id map.entries with
    | some ⟨before, e :: rest⟩ => some (e.vmeEnd, ⟨before ++ [e], rest⟩)
    | _ => none

def alignUp (mask start : ℕ) : ℕ := add32 start mask &&& (2 ^ 32 - 1 - mask)

def propose (max size mask start : ℕ) : Option (ℕ × ℕ) :=
  let start := alignUp mask start
  let stop := add32 start size
  if stop > max ∨ stop < start then none else some (start, stop)

def findSpace (max size mask start : ℕ) (before : List (VmMapEntry ο)) :
    List (VmMapEntry ο) → Option (ℕ × Cut ο)
  | [] => (propose max size mask start).map fun r => (r.1, ⟨before, []⟩)
  | next :: rest =>
    match propose max size mask start with
    | none => none
    | some (start, stop) =>
      if next.vmeStart ≥ stop then some (start, ⟨before, next :: rest⟩)
      else findSpace max size mask next.vmeEnd (before ++ [next]) rest

def vmMapFindEntry [DecidableEq ο] (mem : VmMapEntry ο) (map : VmMap ο) (size mask : ℕ)
    (object : Option ο) : Option (KernReturn × Option ℕ × VmMap ο) := do
  let (start, c) ← firstFreeCut map
  match findSpace map.maxOffset size mask start c.before c.rest with
  | none => return (.noSpace, none, map)
  | some (start, c) =>
    let stop := add32 start size
    let extend := c.before.getLast?.filter fun entry =>
      object.isSome ∧ entry.vmeEnd = start ∧ !entry.isShared ∧ !entry.isSubMap ∧
        entry.object = object ∧ !entry.needsCopy ∧ entry.inheritance = vmInheritDefault ∧
        entry.protection = vmProtDefault ∧ entry.maxProtection = vmProtAll ∧
        entry.wiredCount = 1 ∧ entry.userWiredCount = 0
    match extend with
    | some entry =>
      return (.success, some start, { map with
        entries := c.before.dropLast ++ { entry with vmeEnd := stop } :: c.rest
        size := add32 map.size size, firstFree := some entry.id, hint := some entry.id })
    | none =>
      let new := { mem with
        id := map.created, vmeStart := start, vmeEnd := stop
        isShared := false, isSubMap := false, object := none, offset := 0, needsCopy := false
        inheritance := vmInheritDefault, protection := vmProtDefault
        maxProtection := vmProtAll, wiredCount := 1, userWiredCount := 0
        inTransition := false, needsWakeup := false }
      return (.success, some start, { map.create with
        entries := c.before ++ new :: c.rest
        size := add32 map.size size, firstFree := some new.id, hint := some new.id })

/-- The first address for `vm_map_find`; if there is something there, it starts after it. -/
def findStart (map : VmMap ο) (start : ℕ) : Option (ℕ × Cut ο × VmMap ο) :=
  if start = map.minOffset then (firstFreeCut map).map fun r => (r.1, r.2, map)
  else (vmMapLookupEntry map start).map fun r =>
    match r with
    | (true, ⟨before, e :: rest⟩, map) => (e.vmeEnd, ⟨before ++ [e], rest⟩, map)
    | (_, c, map) => (start, c, map)

def vmMapFind (map : VmMap ο) (object : Option ο) (offset addr length : ℕ) (anywhere : Bool)
    (s : σ) : Option (KernReturn × ℕ × VmMap ο × σ) :=
  if anywhere then
    let start := if addr < map.minOffset then map.minOffset else addr
    if start > map.maxOffset then some (.noSpace, addr, map, s)
    else do
      let (start, c, map) ← findStart map start
      match findSpace map.maxOffset length 0 start c.before c.rest with
      | none => return (.noSpace, addr, map, s)
      | some (start, c) =>
        let (kr, map, s) ← vmMapInsert w mem (map.saveHint (lastPtr c.before)) object offset start
          (add32 start length) s
        return (kr, start, map, s)
  else do
    let (kr, map, s) ← vmMapInsert w mem map object offset addr (add32 addr length) s
    return (kr, addr, map, s)

/-! ## Clipping -/

def splitStart (map : VmMap ο) (e : VmMapEntry ο) (start : ℕ) : VmMapEntry ο × VmMapEntry ο :=
  ({ e with id := map.created, vmeEnd := start },
    { e with vmeStart := start, offset := add32 e.offset (sub32 start e.vmeStart) })

def splitEnd (map : VmMap ο) (e : VmMapEntry ο) (stop : ℕ) : VmMapEntry ο × VmMapEntry ο :=
  ({ e with vmeEnd := stop },
    { e with
      id := map.created, vmeStart := stop, offset := add32 e.offset (sub32 stop e.vmeStart) })

def vmMapClipStart (start : ℕ) (c : Cut ο) (map : VmMap ο) (s : σ) : Cut ο × VmMap ο × σ :=
  match c.rest with
  | [] => (c, map, s)
  | e :: es =>
    if start > e.vmeStart then
      let (front, e') := splitStart map e start
      let c' : Cut ο := ⟨c.before ++ [front], e' :: es⟩
      (c', { map.create with entries := c'.entries }, w.call front.referenceCall s)
    else (c, map, s)

def vmMapClipEnd (stop id : ℕ) (map : VmMap ο) (s : σ) : Option (VmMap ο × σ) :=
  match cutAt id map.entries with
  | some ⟨before, e :: rest⟩ =>
    if stop < e.vmeEnd then
      let (e', tail) := splitEnd map e stop
      some ({ map.create with entries := before ++ e' :: tail :: rest },
        w.call tail.referenceCall s)
    else some (map, s)
  | _ => none

def vmMapRangeCheck (map : VmMap ο) (start stop : ℕ) : ℕ × ℕ :=
  let start := if start < map.minOffset then map.minOffset else start
  let stop := if stop > map.maxOffset then map.maxOffset else stop
  (if start > stop then stop else start, stop)

/-- Look up the start of a range and clip there, or go to the next entry. With `fixHint` the hint is
moved off an entry that was found. -/
def vmMapEnter (fixHint : Bool) (start : ℕ) (map : VmMap ο) (s : σ) :
    Option (Cut ο × VmMap ο × σ) := do
  let (found, c, map) ← vmMapLookupEntry map start
  if found then
    let (c, map, s) := vmMapClipStart w start c map s
    return (c, if fixHint then map.saveHint (lastPtr c.before) else map, s)
  else return (c, map, s)

/-- Each entry that begins below `stop` is clipped there and given to `f`. A tail that was clipped
is not below `stop`. -/
def clipLoop (w : VmLayers ο σ) (stop : ℕ) (f : VmMapEntry ο → σ → VmMapEntry ο × σ) :
    List (VmMapEntry ο) → VmMap ο → σ → List (VmMapEntry ο) × VmMap ο × σ
  | [], map, s => ([], map, s)
  | e :: es, map, s =>
    if e.vmeStart < stop then
      if stop < e.vmeEnd then
        let (e', tail) := splitEnd map e stop
        let r := f e' (w.call tail.referenceCall s)
        (r.1 :: tail :: es, map.create, r.2)
      else
        let r := f e s
        let (es', map, s) := clipLoop w stop f es map r.2
        (r.1 :: es', map, s)
    else (e :: es, map, s)

def clipRange (stop : ℕ) (f : VmMapEntry ο → σ → VmMapEntry ο × σ) (c : Cut ο) (map : VmMap ο)
    (s : σ) : Cut ο × VmMap ο × σ :=
  let (rest, map, s) := clipLoop w stop f c.rest map s
  let c' : Cut ο := ⟨c.before, rest⟩
  (c', { map with entries := c'.entries }, s)

def visited (stop : ℕ) (es : List (VmMapEntry ο)) : List (VmMapEntry ο) :=
  es.takeWhile fun e => e.vmeStart < stop

/-! ## Attributes of a range -/

/-- The update of one entry by `vm_map_protect`. The mask is taken from the first
entry of the range. -/
def protectEntry (pmap : ℕ) (first : VmMapEntry ο) (newProt : VmProt) (setMax : Bool)
    (current : VmMapEntry ο) (s : σ) : VmMapEntry ο × σ :=
  let oldProt := current.protection
  let current :=
    if setMax then { current with maxProtection := newProt, protection := newProt &&& oldProt }
    else { current with protection := newProt }
  let s := if current.protection ≠ oldProt then
      if current.isAMap then
        w.call (.protectShareMap pmap current.object current.offset current.vmeStart
          current.vmeEnd current.protection) s
      else
        let mask := if first.copyOnWrite then ~~~vmProtWrite else vmProtAll
        w.call (.pmapProtect pmap current.vmeStart current.vmeEnd (current.protection &&& mask)) s
    else s
  (current, s)

def protectCheck (newProt : VmProt) : List (VmMapEntry ο) → KernReturn
  | [] => .success
  | current :: rest =>
    if current.isSubMap then .invalidArgument
    else if newProt &&& current.maxProtection ≠ newProt then .protectionFailure
    else protectCheck newProt rest

def vmMapProtect (map : VmMap ο) (start stop : ℕ) (newProt : VmProt) (setMax : Bool) (s : σ) :
    Option (KernReturn × VmMap ο × σ) := do
  let (start, stop) := vmMapRangeCheck map start stop
  let (c, map, s) ← vmMapEnter w false start map s
  match c.rest, protectCheck newProt (visited stop c.rest) with
  | first :: _, .success =>
    let (_, map, s) := clipRange w stop (protectEntry w map.pmap first newProt setMax) c map s
    return (.success, map, s)
  | _, kr => return (kr, map, s)

def vmMapInherit (map : VmMap ο) (start stop newInheritance : ℕ) (s : σ) :
    Option (KernReturn × VmMap ο × σ) :=
  match VmInherit.ofCode newInheritance with
  | none => some (.invalidArgument, map, s)
  | some inheritance => do
    let (start, stop) := vmMapRangeCheck map start stop
    let (c, map, s) ← vmMapEnter w false start map s
    let (_, map, s) :=
      clipRange w stop (fun entry s => ({ entry with inheritance := inheritance }, s)) c map s
    return (.success, map, s)

/-! ## Wiring -/

def unwireEntry (pmap : ℕ) (entry : VmMapEntry ο) (s : σ) : VmMapEntry ο × σ :=
  let wiredCount := (entry.wiredCount + (2 ^ 16 - 1)) % 2 ^ 16
  ({ entry with wiredCount := wiredCount },
    if wiredCount = 0 then w.call (.faultUnwire pmap entry.vmeStart entry.vmeEnd) s else s)

/-- The first pass of wiring: the count, and for a newly wired entry the object. -/
def wireEntry (entry : VmMapEntry ο) (s : σ) : VmMapEntry ο × σ :=
  let entry := { entry with wiredCount := (entry.wiredCount + 1) % 2 ^ 16 }
  if entry.wiredCount = 1 ∧ !entry.isAMap then
    if entry.needsCopy ∧ entry.protection &&& vmProtWrite ≠ 0 then
      let r := w.objectShadow entry.object entry.offset entry.size s
      ({ entry with object := r.1.1, offset := r.1.2, needsCopy := false }, r.2)
    else if entry.object.isNone then
      let r := w.objectAllocate entry.size s
      ({ entry with object := some r.1, offset := 0 }, r.2)
    else (entry, s)
  else (entry, s)

/-- The second pass of wiring. A fault through the map leaves the hint at the
entry. -/
def wirePass (w : VmLayers ο σ) : List (VmMapEntry ο) → VmMap ο → σ → VmMap ο × σ
  | [], map, s => (map, s)
  | entry :: rest, map, s =>
    if entry.wiredCount = 1 then
      let r := w.faultWire map.pmap entry.vmeStart entry.vmeEnd s
      wirePass w rest (if r.1 then map.saveHint (some entry.id) else map) r.2
    else wirePass w rest map s

def vmMapPageable (map : VmMap ο) (start stop : ℕ) (newPageable : Bool) (s : σ) :
    Option (KernReturn × VmMap ο × σ) := do
  let (start, stop) := vmMapRangeCheck map start stop
  let (c, map, s) ← vmMapEnter w false start map s
  if newPageable then
    if (visited stop c.rest).any fun entry => entry.wiredCount = 0 then
      return (.invalidArgument, map, s)
    let (_, map, s) := clipRange w stop (unwireEntry w map.pmap) c map s
    return (.success, map, s)
  else
    let (c, map, s) := clipRange w stop (wireEntry w) c map s
    let (map, s) := wirePass w (visited stop c.rest) map s
    return (.success, map, s)

/-! ## Deletion -/

def vmMapEntryUnwire (pmap : ℕ) (entry : VmMapEntry ο) (s : σ) : VmMapEntry ο × σ :=
  ({ entry with wiredCount := 0 }, w.call (.faultUnwire pmap entry.vmeStart entry.vmeEnd) s)

/-- What `vm_map_delete` and `vm_map_reallocate` do to an entry before they let
go of its object. -/
def detachEntry [DecidableEq ο] (w : VmLayers ο σ) (map : VmMap ο) (entry : VmMapEntry ο) (s : σ) :
    VmMapEntry ο × σ :=
  let r := if entry.wiredCount ≠ 0 then vmMapEntryUnwire w map.pmap entry s else (entry, s)
  let stop := add32 entry.offset entry.size
  let s := if entry.object = some w.kernelObject then
    w.call (.objectPageRemove entry.object entry.offset stop) r.2 else r.2
  let s := if map.isMainMap then s else
    w.call (.objectPmapRemove entry.object entry.offset stop) s
  (r.1, w.call (.pmapRemove map.pmap entry.vmeStart entry.vmeEnd) s)

def vmMapEntryDelete (map : VmMap ο) (entry : VmMapEntry ο) (s : σ) : VmMap ο × σ :=
  let r := if entry.wiredCount ≠ 0 then vmMapEntryUnwire w map.pmap entry s else (entry, s)
  ({ map with nentries := map.nentries - 1, size := sub32 map.size entry.size },
    w.call r.1.deallocateCall r.2)

def deleteLoop [DecidableEq ο] (w : VmLayers ο σ) (stop : ℕ) :
    List (VmMapEntry ο) → VmMap ο → σ → List (VmMapEntry ο) × VmMap ο × σ
  | [], map, s => ([], map, s)
  | e :: es, map, s =>
    if e.vmeStart < stop then
      if stop < e.vmeEnd then
        let (e', tail) := splitEnd map e stop
        let r := detachEntry w map.create e' (w.call tail.referenceCall s)
        (tail :: es, vmMapEntryDelete w map.create r.1 r.2)
      else
        let r := detachEntry w map e s
        let r := vmMapEntryDelete w map r.1 r.2
        deleteLoop w stop es r.1 r.2
    else (e :: es, map, s)

def firstFreeStart (map : VmMap ο) : Option ℕ :=
  match map.firstFree with
  | none => some map.minOffset
  | some id => (cutAt id map.entries).bind fun c => c.rest.head?.map VmMapEntry.vmeStart

def vmMapDelete [DecidableEq ο] (w : VmLayers ο σ) (map : VmMap ο) (start stop : ℕ) (s : σ) :
    Option (KernReturn × VmMap ο × σ) := do
  let (c, map, s) ← vmMapEnter w true start map s
  let freeStart ← firstFreeStart map
  let map := if freeStart ≥ start then { map with firstFree := lastPtr c.before } else map
  let (rest, map, s) := deleteLoop w stop c.rest map s
  return (.success, { map with entries := c.before ++ rest }, s)

def vmMapRemove [DecidableEq ο] (w : VmLayers ο σ) (map : VmMap ο) (start stop : ℕ) (s : σ) :
    Option (KernReturn × VmMap ο × σ) :=
  let (start, stop) := vmMapRangeCheck map start stop
  vmMapDelete w map start stop s

def reallocateEntry [DecidableEq ο] (w : VmLayers ο σ) (map : VmMap ο) (entry : VmMapEntry ο)
    (s : σ) : VmMapEntry ο × σ :=
  let r := detachEntry w map entry s
  let s := w.call r.1.deallocateCall r.2
  let entry := { r.1 with
    isAMap := false, isSubMap := false, object := none, offset := 0
    copyOnWrite := false, needsCopy := false }
  (if map.isMainMap then { entry with
      protection := entry.maxProtection &&& vmProtDefault, wiredCount := 0 }
    else entry, s)

def vmMapReallocate [DecidableEq ο] (w : VmLayers ο σ) (map : VmMap ο) (start stop : ℕ) (s : σ) :
    Option (KernReturn × VmMap ο × σ) := do
  let (start, stop) := vmMapRangeCheck map start stop
  let (c, map, s) ← vmMapEnter w true start map s
  let (_, map, s) := clipRange w stop (reallocateEntry w map) c map s
  return (.success, map, s)

end Rhapsody.Vm
