import Rhapsody.Ipc.SplayTraverse
import Rhapsody.Ipc.Table
import Rhapsody.Lib.FreeList

/-! The translation entries of `ipc/ipc_entry.c`: a table of entries with a splay tree
behind it. Slot 0 of the table is the head of the free list. -/

namespace Rhapsody.Ipc
open Rhapsody.Lib

/-! ## Names and entries -/

def machPortIndex (name : MachPort) : ℕ := name.val >>> 8

def machPortGen (name : MachPort) : BitVec 8 := BitVec.ofNat 8 name.val

def machPortMake (index : ℕ) (gen : BitVec 8) : MachPort :=
  Fin.ofNat (2 ^ 32) (index <<< 8 ||| gen.toNat)

def MachPortValid (name : MachPort) : Prop := name ≠ 0 ∧ name ≠ machPortLargest

def machPortTypeNone : BitVec 5 := 0

/-- The word `ie_bits`, a field for each mask of `ipc_entry.h`. -/
structure IpcEntryBits where
  urefs : ℕ := 0
  type : BitVec 5 := machPortTypeNone
  marequest : Bool := false
  compat : Bool := false
  collision : Bool := false
  gen : BitVec 8 := 0
  deriving DecidableEq

def ieBitsGenMask : IpcEntryBits := { gen := 0xff }

structure IpcEntry (ο : Type*) where
  ieBits : IpcEntryBits := {}
  ieObject : Option ο := none
  /-- The union `index`: `ie_next` in a free entry and in slot 0, `ie_request` otherwise. -/
  index : ℕ := 0

/-- What `bzero` leaves behind, and the state in which a new tree entry is returned. -/
def IpcEntry.zero {ο : Type*} : IpcEntry ο := {}

inductive IpcEntryPtr where
  | table (index : ℕ)
  | tree (name : MachPort)
  deriving DecidableEq

inductive KernReturn where
  | success
  | noSpace
  | invalidTask
  | resourceShortage
  deriving DecidableEq

structure IpcSpace (ο : Type*) where
  isActive : Bool
  isGrowing : Bool
  isTable : List (IpcEntry ο)
  isTableNext : ℕ
  isTree : IpcSplayTree (IpcEntry ο)
  isTreeTotal : ℕ
  isTreeSmall : ℕ

variable {ο : Type*}

def IpcSplayTree.mapEntries {α : Type*} (f : MachPort → α → α) (t : IpcSplayTree α) :
    IpcSplayTree α :=
  ⟨t.istName, t.istRoot.mapEntries f, t.istLtree.map (OpenNode.mapEntries f),
    t.istRtree.map (OpenNode.mapEntries f)⟩

/-- A store through a pointer to a tree entry leaves the shape of the tree alone. -/
def IpcSplayTree.setEntry {α : Type*} (t : IpcSplayTree α) (name : MachPort) (e : α) :
    IpcSplayTree α :=
  t.mapEntries fun n e' => if n = name then e else e'

variable (table : List (IpcEntry ο))

def ieNext (i : ℕ) : ℕ := (table[i]?).elim 0 (·.index)

def setIeNext (i next : ℕ) : List (IpcEntry ο) :=
  table.modify i ({ · with index := next })

def IpcEntry.setCollision (e : IpcEntry ο) (collision : Bool) : IpcEntry ο :=
  { e with ieBits := { e.ieBits with collision := collision } }

namespace IpcSpace

def isTableSize (s : IpcSpace ο) : ℕ := s.isTable.length

def entry (s : IpcSpace ο) : IpcEntryPtr → Option (IpcEntry ο)
  | .table i => s.isTable[i]?
  | .tree name => find s.isTree.entries name

def setEntry (s : IpcSpace ο) (e : IpcEntry ο) : IpcEntryPtr → IpcSpace ο
  | .table i => { s with isTable := s.isTable.set i e }
  | .tree name => { s with isTree := s.isTree.setEntry name e }

end IpcSpace

/-! ## `ipc_space_create` -/

variable (its : IpcTableSizes)

def ipcSpaceCreate (initial : ℕ) : IpcSpace ο where
  isActive := true
  isGrowing := false
  isTable := (List.range (its.itsSize initial)).map fun index =>
    { ieBits := ieBitsGenMask
      index := if index + 1 = its.itsSize initial then 0 else index + 1 }
  isTableNext := initial + 1
  isTree := ipcSplayTreeInit
  isTreeTotal := 0
  isTreeSmall := 0

/-! ## Looking up -/

def ipcEntryTreeCollision (s : IpcSpace ο) (name : MachPort) : Bool × IpcSpace ο :=
  let res := ipcSplayTreeBounds s.isTree name
  let lower := res.1.1
  let upper := res.1.2
  let index := machPortIndex name
  (lower ≠ machPortLargest ∧ machPortIndex lower = index ∨
      upper ≠ machPortSmallest ∧ machPortIndex upper = index,
    { s with isTree := res.2 })

def treeLookup (s : IpcSpace ο) (name : MachPort) : Option IpcEntryPtr × IpcSpace ο :=
  let res := ipcSplayTreeLookup s.isTree name
  (res.1.map fun _ => .tree name, { s with isTree := res.2 })

def ipcEntryLookup (s : IpcSpace ο) (name : MachPort) : Option IpcEntryPtr × IpcSpace ο :=
  let index := machPortIndex name
  match s.isTable[index]? with
  | some entry =>
    if entry.ieBits.gen ≠ machPortGen name then
      if entry.ieBits.collision then treeLookup s name else (none, s)
    else if entry.ieBits.type = machPortTypeNone then (none, s)
    else (some (.table index), s)
  | none => if s.isTreeTotal = 0 then (none, s) else treeLookup s name

/-! ## Allocating -/

/-- The name and the new space, or nothing for `KERN_NO_SPACE`. The free entry keeps `ie_object`. -/
def ipcEntryGet (s : IpcSpace ο) : Option (MachPort × IpcSpace ο) :=
  let firstFree := ieNext s.isTable 0
  if firstFree = 0 then none
  else
    (s.isTable[firstFree]?).map fun freeEntry =>
      let gen := freeEntry.ieBits.gen + 1
      (machPortMake firstFree gen,
        { s with
          isTable := (setIeNext s.isTable 0 freeEntry.index).set firstFree
            { freeEntry with ieBits := { freeEntry.ieBits with gen := gen }, index := 0 } })

/-- Rips the entry out of the free list and gives it the name's generation number. -/
def ripOut (index : ℕ) (entry : IpcEntry ο) (gen : BitVec 8) : List (IpcEntry ο) :=
  let freeIndex := predecessor (ieNext table) index table.length 0
  (setIeNext table freeIndex entry.index).set index
    { entry with ieBits := { gen := gen }, index := 0 }

/-- What the table alone can answer: the entry is in use for the same name, or free. -/
def allocInTable (s : IpcSpace ο) (name : MachPort) : Option (IpcSpace ο) :=
  let index := machPortIndex name
  if 0 < index then
    match s.isTable[index]? with
    | none => none
    | some entry =>
      if entry.ieBits.type ≠ machPortTypeNone then
        if entry.ieBits.gen = machPortGen name then some s else none
      else some { s with isTable := ripOut s.isTable index entry (machPortGen name) }
  else none

def insertTreeEntry (s : IpcSpace ο) (name : MachPort) : IpcSpace ο :=
  let index := machPortIndex name
  let s1 : IpcSpace ο := { s with isTreeTotal := s.isTreeTotal + 1 }
  let s2 : IpcSpace ο := if index < s.isTableSize then
      { s1 with isTable := s.isTable.modify index (·.setCollision true) }
    else if index < its.itsSize s.isTableNext then
      let res := ipcEntryTreeCollision s1 name
      if res.1 then res.2 else { res.2 with isTreeSmall := s.isTreeSmall + 1 }
    else s1
  { s2 with isTree := ipcSplayTreeInsert s2.isTree name .zero }

/-! ## Deallocating -/

def IpcEntry.atName (tentry : IpcEntry ο) (name : MachPort) : IpcEntry ο :=
  { tentry with ieBits := { tentry.ieBits with gen := tentry.ieBits.gen ||| machPortGen name } }

/-- The tree cut around an index: the names beyond it, those of it and those below. -/
structure CollisionParts (ο : Type*) where
  tree : IpcSplayTree (IpcEntry ο)
  collisions : IpcSplayTree (IpcEntry ο)
  small : IpcSplayTree (IpcEntry ο)

def splitCollisions (tree : IpcSplayTree (IpcEntry ο)) (index : ℕ) : CollisionParts ο :=
  let upper := ipcSplayTreeSplit tree (machPortMake (index + 1) 0)
  let lower := ipcSplayTreeSplit upper.2 (machPortMake index 0)
  ⟨upper.1, lower.1, lower.2⟩

/-- Puts the tree back together; no collisions left means there is nothing to join. -/
def CollisionParts.join (p : CollisionParts ο) : IpcSplayTree (IpcEntry ο) :=
  let tree := if (ipcSplayTreePick p.collisions).isSome then
    (ipcSplayTreeJoin p.tree p.collisions).1 else p.tree
  (ipcSplayTreeJoin tree p.small).1

def deallocCollision (s : IpcSpace ο) (index : ℕ) : IpcSpace ο :=
  let parts := splitCollisions s.isTree index
  match ipcSplayTreePick parts.collisions with
  | none => s
  | some (tname, tentry) =>
    let entry := tentry.atName tname
    let collisions := ipcSplayTreeDelete parts.collisions tname
    -- check if collision bit should still be on
    let pick := (ipcSplayTreePick collisions).isSome
    { s with
      isTable := s.isTable.set index (if pick then entry.setCollision true else entry)
      isTree := { parts with collisions := collisions }.join
      isTreeTotal := s.isTreeTotal - 1 }

def deallocSlot (s : IpcSpace ο) (index : ℕ) (entry : IpcEntry ο) : IpcSpace ο :=
  let table := s.isTable.set index
    { entry with ieBits := { gen := entry.ieBits.gen }, index := ieNext s.isTable 0 }
  { s with isTable := setIeNext table 0 index }

def deallocTree (s : IpcSpace ο) (name : MachPort) : IpcSpace ο :=
  let index := machPortIndex name
  let s1 : IpcSpace ο :=
    { s with isTree := ipcSplayTreeDelete s.isTree name, isTreeTotal := s.isTreeTotal - 1 }
  if index < s.isTableSize then
    let res := ipcEntryTreeCollision s1 name
    if res.1 then res.2
    else { res.2 with isTable := s.isTable.modify index (·.setCollision false) }
  else if index < its.itsSize s.isTableNext then
    let res := ipcEntryTreeCollision s1 name
    if res.1 then res.2 else { res.2 with isTreeSmall := s.isTreeSmall - 1 }
  else s1

def ipcEntryDealloc (s : IpcSpace ο) (name : MachPort) :
    IpcEntryPtr → IpcSpace ο
  | .table index =>
    match s.isTable[index]? with
    | none => s
    | some entry => if entry.ieBits.collision then deallocCollision s index
      else deallocSlot s index entry
  | .tree _ => deallocTree its s name

/-! ## Growing the table -/

/-- Moves a tree entry into the new part of the table, or marks the collision with an entry
moved before it. -/
def moveEntry (st : List (IpcEntry ο) × ℕ) (name : MachPort) (tentry : IpcEntry ο) :
    (List (IpcEntry ο) × ℕ) × Bool :=
  let index := machPortIndex name
  match st.1[index]? with
  | none => (st, false)
  | some entry =>
    if entry.ieBits ≠ {} then
      ((st.1.set index (entry.setCollision true), st.2), false)
    else ((st.1.set index (tentry.atName name), st.2 - 1), true)

def countSmall (st : ℕ × ℕ) (name : MachPort) (_ : IpcEntry ο) : (ℕ × ℕ) × Bool :=
  let nindex := machPortIndex name
  (if nindex ≠ st.2 then (st.1 + 1, nindex) else st, false)

/-- Adds the unused entries among the first `n` from `osize` on to the free list, in reverse order.
-/
def threadFree (osize : ℕ) : ℕ → List (IpcEntry ο) → ℕ → List (IpcEntry ο) × ℕ
  | 0, table, freeIndex => (table, freeIndex)
  | n + 1, table, freeIndex =>
    match table[osize + n]? with
    | none => threadFree osize n table freeIndex
    | some entry =>
      if entry.ieBits = {} then
        threadFree osize n
          (table.set (osize + n) { entry with ieBits := ieBitsGenMask, index := freeIndex })
          (osize + n)
      else threadFree osize n table freeIndex

/-- Moves entries from the tree to a table grown to `size` and counts those that `nsize` would take.
-/
def growTree (s : IpcSpace ο) (table : List (IpcEntry ο)) (osize size nsize : ℕ) : IpcSpace ο :=
  let rest := ipcSplayTreeSplit s.isTree (machPortMake nsize 0)
  let small := ipcSplayTreeSplit rest.2 (machPortMake size 0)
  let move := ipcSplayTreeSplit small.2 (machPortMake osize 0)
  let moved := ipcSplayTraverse moveEntry (table, s.isTreeTotal) move.1
  let counted := ipcSplayTraverse countSmall (0, 0) small.1
  let tree := (ipcSplayTreeJoin rest.1 counted.2).1
  let tree' := (ipcSplayTreeJoin tree moved.2).1
  { s with
    isTable := moved.1.1
    isTreeTotal := moved.1.2
    isTreeSmall := counted.1.1
    isTree := (ipcSplayTreeJoin tree' move.2).1 }

def growTo (s : IpcSpace ο) (new : ℕ) : IpcSpace ο :=
  let osize := its.itsSize (s.isTableNext - 1)
  let size := its.itsSize new
  let table := s.isTable ++ List.replicate (size - osize) .zero
  let s1 : IpcSpace ο := { s with isTable := table, isTableNext := new + 1 }
  let s2 := if 0 < s.isTreeTotal then growTree s1 table osize size (its.itsSize (new + 1)) else s1
  let res := threadFree osize (size - osize) s2.isTable (ieNext s2.isTable 0)
  { s2 with isTable := setIeNext res.1 0 res.2 }

/-- The search for a size that holds `target`; returns `psize` and the element reached. -/
def seekTarget (its : IpcTableSizes) (target : ℕ) : ℕ → ℕ → ℕ → ℕ × ℕ
  | 0, psize, i => (psize, i)
  | fuel + 1, psize, i =>
    if psize ≠ its.itsSize i ∧ its.itsSize i < target then
      seekTarget its target fuel (its.itsSize i) (i + 1)
    else (psize, i)

def growChoice (s : IpcSpace ο) (target : Option ℕ) : Except KernReturn ℕ :=
  let osize := its.itsSize (s.isTableNext - 1)
  match target with
  | none =>
    if osize = its.itsSize s.isTableNext then .error .noSpace else .ok s.isTableNext
  | some target =>
    if target ≤ osize then .error .success
    else
      let res := seekTarget its target (its.last + 2) osize s.isTableNext
      if res.1 = its.itsSize res.2 then .error .noSpace
      else if osize = its.itsSize res.2 then .error .noSpace else .ok res.2

def growAgain (s : IpcSpace ο) : Prop :=
  0 < s.isTreeSmall ∧ (its.itsSize s.isTableNext - s.isTableSize) * sizeofIpcEntry <
      s.isTreeSmall * sizeofIpcTreeEntry

instance (its : IpcTableSizes) (s : IpcSpace ο) : Decidable (growAgain its s) :=
  inferInstanceAs (Decidable (_ ∧ _))

/-- The loop of `ipc_entry_grow_table`. `memory` tells for which sizes a table can be had; every
turn takes a later one. -/
def growLoop (its : IpcTableSizes) (memory : ℕ → Bool) (target : Option ℕ) :
    ℕ → IpcSpace ο → KernReturn × IpcSpace ο
  | 0, s => (.success, s)
  | fuel + 1, s =>
    if s.isGrowing then (.success, s)
    else match growChoice its s target with
    | .error kr => (kr, s)
    | .ok new =>
      if memory new then
        let s' := growTo its s new
        if growAgain its s' then growLoop its memory target fuel s' else (.success, s')
      else (.resourceShortage, s)

def ipcEntryGrowTable (memory : ℕ → Bool) (s : IpcSpace ο) (target : Option ℕ) :
    KernReturn × IpcSpace ο :=
  growLoop its memory target (its.last + 2) s

/-! ## Allocating a given name -/

def growInstead (s : IpcSpace ο) (index : ℕ) : Prop :=
  s.isTableSize ≤ index ∧ index < its.itsSize s.isTableNext ∧
    (its.itsSize s.isTableNext - s.isTableSize) * sizeofIpcEntry <
      (s.isTreeSmall + 1) * sizeofIpcTreeEntry

instance (its : IpcTableSizes) (s : IpcSpace ο) (index : ℕ) :
    Decidable (growInstead its s index) := inferInstanceAs (Decidable (_ ∧ _ ∧ _))

/-- Memory the allocation of a name may find: tables of each size, and a tree entry. -/
structure IpcMemory where
  table : ℕ → Bool
  treeEntry : Bool

/-- The loop of `ipc_entry_alloc_name`; `treeEntry` tells whether an earlier turn allocated a tree
entry. Nothing is returned when `fuel` runs out. -/
def allocNameLoop (its : IpcTableSizes) (memory : IpcMemory) (name : MachPort) :
    ℕ → Bool → IpcSpace ο → Option (Except KernReturn IpcEntryPtr × IpcSpace ο)
  | 0, _, _ => none
  | fuel + 1, treeEntry, s =>
    if s.isActive = false then some (.error .invalidTask, s)
    else match allocInTable s name with
    | some s' => some (.ok (.table (machPortIndex name)), s')
    | none =>
      -- check if the entry already exists in the tree
      let found := if 0 < s.isTreeTotal then treeLookup s name else (none, s)
      match found.1 with
      | some ptr => some (.ok ptr, found.2)
      | none =>
        let s := found.2
        if growInstead its s (machPortIndex name) then
          let grown := ipcEntryGrowTable its memory.table s none
          match grown.1 with
          | .success => allocNameLoop its memory name fuel treeEntry grown.2
          | kr => some (.error kr, grown.2)
        else if treeEntry then some (.ok (.tree name), insertTreeEntry its s name)
        else if memory.treeEntry then allocNameLoop its memory name fuel true s
        else some (.error .resourceShortage, s)

def ipcEntryAllocName (memory : IpcMemory) (s : IpcSpace ο) (name : MachPort) :
    Option (Except KernReturn IpcEntryPtr × IpcSpace ο) :=
  allocNameLoop its memory name 3 false s

end Rhapsody.Ipc
