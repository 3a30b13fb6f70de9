import Rhapsody.Vm.MapCopy

/-! `vm_map_fork`: a new map from the entries of an old one, each according to its
inheritance. An entry that is shared for the first time gets a sharing map. -/

namespace Rhapsody.Vm
open Rhapsody.Lib

variable {ο σ : Type}

structure ShareMaps (ο : Type) where
  ofMap : ℕ → ο
  toMap : ο → Option ℕ
  toMap_ofMap : ∀ m, toMap (ofMap m) = some m

/-- The sharing map made for an entry, which becomes its only one. `vm_map_create`
gives it the size 0. -/
def newShareMap (old : VmMapEntry ο) : VmMap ο :=
  { (vmMapCreate ο 0 old.vmeStart old.vmeEnd).create with
    isMainMap := false, entries := [{ old with id := 0 }] }

namespace VmSystem

variable (w : VmLayers ο σ) (p : ShareMaps ο)

/-- A copy of an entry is linked at the end of a map; returns its identity. -/
def linkLast (m : ℕ) (e : VmMapEntry ο) (sys : VmSystem ο σ) : Option (ℕ × VmSystem ο σ) :=
  sys.onMap m fun map s =>
    some (map.created, { map.create with entries := map.entries ++ [{ e with id := map.created }] },
      s)

def referenceShareMap (e : VmMapEntry ο) (sys : VmSystem ο σ) : Option (VmSystem ο σ) :=
  match e.object with
  | none => some sys
  | some object => do
    let k ← p.toMap object
    let (_, sys) ← sys.onMap k fun map s => some ((), { map with refCount := map.refCount + 1 }, s)
    return sys

def makeShareMap (m : ℕ) (old : VmMapEntry ο) (sys : VmSystem ο σ) :
    VmMapEntry ο × VmSystem ο σ :=
  if old.isAMap then (old, sys)
  else
    let old' := { old with
      isAMap := true, object := some (p.ofMap sys.maps.length), offset := old.vmeStart }
    (old', setEntry { sys with maps := sys.maps ++ [newShareMap old] } m old')

def forkShare (m n : ℕ) (old : VmMapEntry ο) (sys : VmSystem ο σ) : Option (VmSystem ο σ) := do
  let (old, sys) := sys.makeShareMap p m old
  let (_, sys) ← sys.linkLast n old
  let sys ← sys.referenceShareMap p old
  let oldMap ← sys.maps[m]?
  let newMap ← sys.maps[n]?
  let s := w.call (.pmapCopy newMap.pmap oldMap.pmap old.vmeStart old.size old.vmeStart) sys.world
  return { sys with world := s }

/-- `VM_INHERIT_COPY`; a copy out of a sharing map that fails is only reported. -/
def forkCopy [DecidableEq ο] (mem : VmMapEntry ο) (m n : ℕ) (old : VmMapEntry ο)
    (sys : VmSystem ο σ) : Option (VmSystem ο σ) := do
  let new := { old with wiredCount := 0, object := none, isAMap := false }
  let (id, sys) ← sys.linkLast n new
  if old.isAMap then
    let object ← old.object
    let k ← p.toMap object
    let (_, sys) ← sys.vmMapCopy w mem n k new.vmeStart new.size old.offset false false
    return sys
  else sys.copyEntries w m n old.id id

/-- One turn of the loop; a submap is a panic. -/
def forkEntry [DecidableEq ο] (mem : VmMapEntry ο) (m n id : ℕ) (sys : VmSystem ο σ) :
    Option (VmSystem ο σ) := do
  let old ← sys.entry m id
  if old.isSubMap then none
  match old.inheritance with
  | .none => return sys
  | .share => sys.forkShare w p m n old
  | .copy => sys.forkCopy w p mem m n old

/-- The loop over the entries of the old map, by `vme_next`; the number of entries
is fuel enough. -/
def forkLoop [DecidableEq ο] (mem : VmMapEntry ο) (m n : ℕ) :
    ℕ → Option ℕ → VmSystem ο σ → Option (VmSystem ο σ)
  | _, none, sys => some sys
  | 0, some _, _ => none
  | fuel + 1, some id, sys => do
    let sys ← sys.forkEntry w p mem m n id
    let next ← sys.next m id
    forkLoop mem m n fuel next sys

def vmMapFork [DecidableEq ο] (mem : VmMapEntry ο) (newPmap m : ℕ) (sys : VmSystem ο σ) :
    Option (VmSystem ο σ) := do
  let oldMap ← sys.maps[m]?
  let n := sys.maps.length
  let newMap := vmMapCreate ο newPmap oldMap.minOffset oldMap.maxOffset
  let sys ← forkLoop w p mem m n oldMap.entries.length (firstPtr oldMap.entries)
    { sys with maps := sys.maps ++ [newMap] }
  let oldMap ← sys.maps[m]?
  return { sys with maps := sys.maps.modify n fun map => { map with size := oldMap.size } }

end VmSystem

end Rhapsody.Vm
