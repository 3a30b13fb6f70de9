import Rhapsody.Vm.Map

/-! Copies between maps, `vm_map_copy`, and the system of all maps. -/

namespace Rhapsody.Vm
open Rhapsody.Lib

variable {ο σ α : Type}

structure VmSystem (ο σ : Type) where
  maps : List (VmMap ο)
  world : σ

namespace VmSystem

variable (sys : VmSystem ο σ)

def onMap (m : ℕ) (f : VmMap ο → σ → Option (α × VmMap ο × σ)) :
    Option (α × VmSystem ο σ) := do
  let map ← sys.maps[m]?
  let (a, map, s) ← f map sys.world
  return (a, ⟨sys.maps.set m map, s⟩)

def entry (m id : ℕ) : Option (VmMapEntry ο) := do
  let map ← sys.maps[m]?
  let c ← cutAt id map.entries
  c.rest.head?

def next (m id : ℕ) : Option (Option ℕ) := do
  let map ← sys.maps[m]?
  let c ← cutAt id map.entries
  return firstPtr c.rest.tail

def setEntry (m : ℕ) (e : VmMapEntry ο) : VmSystem ο σ :=
  { sys with maps := sys.maps.modify m fun map =>
      { map with entries := map.entries.map fun x => if x.id = e.id then e else x } }

end VmSystem

def checkWalk (stop : ℕ) (prot : VmProt) : ℕ → List (VmMapEntry ο) → Bool
  | start, [] => ¬start < stop
  | start, entry :: rest =>
    if start < stop then
      -- no holes allowed
      if start < entry.vmeStart then false
      else if entry.protection &&& prot ≠ prot then false
      else checkWalk stop prot entry.vmeEnd rest
    else true

def vmMapCheckProtection (map : VmMap ο) (start stop : ℕ) (prot : VmProt) :
    Option (Bool × VmMap ο) := do
  let (found, c, map) ← vmMapLookupEntry map start
  return (found && checkWalk stop prot start c.rest, map)

def vmMapCopyEntry (w : VmLayers ο σ) (srcMap dstMap : VmMap ο) (src dst : VmMapEntry ο) (s : σ) :
    VmMapEntry ο × VmMapEntry ο × σ :=
  if src.isSubMap || dst.isSubMap then (src, dst, s)
  else
    let r := if dst.wiredCount ≠ 0 then vmMapEntryUnwire w dstMap.pmap dst s else (dst, s)
    let dst := r.1
    let s := if dstMap.isMainMap then r.2 else
      w.call (.objectPmapRemove dst.object dst.offset (add32 dst.offset dst.size)) r.2
    let s := w.call (.pmapRemove dstMap.pmap dst.vmeStart dst.vmeEnd) s
    if src.wiredCount = 0 then
      let s := if src.needsCopy then s
        else if srcMap.isMainMap || srcMap.refCount = 1 then
          w.call (.pmapProtect srcMap.pmap src.vmeStart src.vmeEnd
            (src.protection &&& ~~~vmProtWrite)) s
        else w.call (.objectPmapCopy src.object src.offset (add32 src.offset src.size)) s
      let r := w.objectCopy src.object src.offset src.size s
      let src' := { src with
        needsCopy := src.needsCopy || r.1.2.2, copyOnWrite := true }
      let dst' := { dst with
        object := r.1.1, offset := r.1.2.1, needsCopy := true, copyOnWrite := true
        protection := if src.protection &&& vmProtExecute ≠ 0 then
          dst.protection ||| (vmProtExecute &&& dst.maxProtection) else dst.protection }
      let s := w.call (.objectDeallocate dst.object) r.2
      (src', dst', w.call (.pmapCopy dstMap.pmap srcMap.pmap dst.vmeStart dst.size src.vmeStart) s)
    else
      -- `vm_fault_copy_entry`
      let r := w.objectAllocate dst.size s
      let dst' := { dst with object := some r.1, offset := 0 }
      (src, dst', w.call (.faultCopyPages dst'.object src.object src.offset dst.size
        dst.maxProtection) r.2)

namespace VmSystem

variable (w : VmLayers ο σ)

/-- Looks up an address and clips there; returns the entry. Checking protection
asserts that the lookup cannot fail. -/
def enterCopy (m address : ℕ) (sys : VmSystem ο σ) : Option (ℕ × VmSystem ο σ) :=
  sys.onMap m fun map s => do
    let (found, c, map) ← vmMapLookupEntry map address
    if !found then none
    let entry ← c.rest.head?
    let (_, map, s) := vmMapClipStart w address c map s
    return (entry.id, map, s)

def reenterCopy (m address : ℕ) (sys : VmSystem ο σ) : Option (ℕ × VmSystem ο σ) :=
  sys.onMap m fun map s => do
    let (found, c, map) ← vmMapLookupEntry map address
    if !found then none
    let entry ← c.rest.head?
    return (entry.id, map, s)

def clipEnd (m stop id : ℕ) (sys : VmSystem ο σ) : Option (VmSystem ο σ) :=
  (sys.onMap m fun map s => (vmMapClipEnd w stop id map s).map fun r => ((), r)).map Prod.snd

/-- Clips both entries to the ends of the regions and to each other's size. -/
def clipBoth (src dst srcEnd dstEnd srcEntry dstEntry : ℕ) (sys : VmSystem ο σ) :
    Option (VmSystem ο σ) := do
  let sys ← sys.clipEnd w src srcEnd srcEntry
  let sys ← sys.clipEnd w dst dstEnd dstEntry
  let se ← sys.entry src srcEntry
  let de ← sys.entry dst dstEntry
  let sys ← sys.clipEnd w src (add32 se.vmeStart de.size) srcEntry
  let se ← sys.entry src srcEntry
  let de ← sys.entry dst dstEntry
  sys.clipEnd w dst (add32 de.vmeStart se.size) dstEntry

/-- Copies one entry to the other. Sharing maps are not followed: no operation on main maps alone
makes one. -/
def copyEntries (src dst srcEntry dstEntry : ℕ) (sys : VmSystem ο σ) : Option (VmSystem ο σ) := do
  let srcMap ← sys.maps[src]?
  let dstMap ← sys.maps[dst]?
  let se ← sys.entry src srcEntry
  let de ← sys.entry dst dstEntry
  if se.isAMap || de.isAMap then none
  let (se, de, s) := vmMapCopyEntry w srcMap dstMap se de sys.world
  return { (sys.setEntry src se).setEntry dst de with world := s }

/-- The loop of `vm_map_copy`. Each turn moves at least a byte, so the length is
fuel enough. -/
def copyLoop (src dst srcEnd dstEnd : ℕ) :
    ℕ → ℕ → Option ℕ → Option ℕ → VmSystem ο σ → Option (VmSystem ο σ)
  | 0, srcStart, _, _, sys => if srcStart < srcEnd then none else some sys
  | fuel + 1, srcStart, srcPtr, dstPtr, sys =>
    if srcStart < srcEnd then do
      let srcEntry ← srcPtr
      let dstEntry ← dstPtr
      let sys ← sys.clipBoth w src dst srcEnd dstEnd srcEntry dstEntry
      let sys ← sys.copyEntries w src dst srcEntry dstEntry
      let se ← sys.entry src srcEntry
      let srcNext ← sys.next src srcEntry
      let dstNext ← sys.next dst dstEntry
      copyLoop src dst srcEnd dstEnd fuel se.vmeEnd srcNext dstNext sys
    else some sys

def copyRegion (src dst srcAddr srcEnd dstAddr dstEnd : ℕ) (sys : VmSystem ο σ) :
    Option (VmSystem ο σ) := do
  let (srcEntry, sys) ← sys.enterCopy w src srcAddr
  let (dstEntry, sys) ← sys.enterCopy w dst dstAddr
  let (srcEntry, sys) ←
    -- the second clip may have moved the first entry
    if src = dst ∧ srcEntry = dstEntry then sys.reenterCopy src srcAddr
    else some (srcEntry, sys)
  if src = dst ∧ srcEntry = dstEntry then return sys
  sys.copyLoop w src dst srcEnd dstEnd (srcEnd - srcAddr) srcAddr (some srcEntry) (some dstEntry)

/-- The checks: the source has to be readable, the destination writable or free. -/
def copyCheck (mem : VmMapEntry ο) (src dst srcAddr srcEnd dstAddr dstEnd : ℕ) (dstAlloc : Bool)
    (sys : VmSystem ο σ) : Option (KernReturn × VmSystem ο σ) := do
  let srcMap ← sys.maps[src]?
  let dstMap ← sys.maps[dst]?
  if srcMap.isMainMap && dstMap.isMainMap then
    let (readable, sys) ← sys.onMap src fun map s =>
      (vmMapCheckProtection map srcAddr srcEnd vmProtRead).map fun r => (r.1, r.2, s)
    if !readable then return (.protectionFailure, sys)
    if dstAlloc then
      sys.onMap dst fun map s => vmMapInsert w mem map none 0 dstAddr dstEnd s
    else
      let (writable, sys) ← sys.onMap dst fun map s =>
        (vmMapCheckProtection map dstAddr dstEnd vmProtWrite).map fun r => (r.1, r.2, s)
      return (if writable then .success else .protectionFailure, sys)
  else return (.success, sys)

def copyReturn [DecidableEq ο] (src srcAddr srcEnd : ℕ) (srcDestroy : Bool) (sys : VmSystem ο σ) :
    Option (VmSystem ο σ) :=
  if srcDestroy then
    (sys.onMap src fun map s => vmMapDelete w map srcAddr srcEnd s).map Prod.snd
  else some sys

def vmMapCopy [DecidableEq ο] (mem : VmMapEntry ο) (dst src dstAddr len srcAddr : ℕ)
    (dstAlloc srcDestroy : Bool) (sys : VmSystem ο σ) : Option (KernReturn × VmSystem ο σ) :=
  let srcEnd := add32 srcAddr len
  let dstEnd := add32 dstAddr len
  if dstEnd < dstAddr ∨ srcEnd < srcAddr then some (.noSpace, sys)
  else
    (sys.copyCheck w mem src dst srcAddr srcEnd dstAddr dstEnd dstAlloc).bind fun (result, sys) =>
      let copied := if result = .success then
          sys.copyRegion w src dst srcAddr srcEnd dstAddr dstEnd
        else some sys
      (copied.bind (copyReturn w src srcAddr srcEnd srcDestroy)).map fun sys => (result, sys)

end VmSystem

end Rhapsody.Vm
