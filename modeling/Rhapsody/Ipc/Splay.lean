import Rhapsody.Lib.OpenTree

/-! The splay tree of `ipc/ipc_splay.c`, kept in unassembled form. The middle tree hangs below
`istRoot`; the left and right trees are spines whose open child field is the one `ist_ltreep`
(`ist_rtreep`) points to, or `ist_ltree` (`ist_rtree`) itself. -/

namespace Rhapsody.Ipc
open Rhapsody.Lib

instance machPortNeZero : NeZero (2 ^ 32) := ⟨by decide⟩

abbrev MachPort := Fin (2 ^ 32)

def machPortSmallest : MachPort := 0

def machPortLargest : MachPort := ⟨2 ^ 32 - 1, by decide⟩

lemma machPortSmallest_le (name : MachPort) : machPortSmallest ≤ name := Fin.zero_le _

lemma le_machPortLargest (name : MachPort) : name ≤ machPortLargest := by
  rw [Fin.le_def]
  simp only [machPortLargest]
  omega

variable {α : Type*}

abbrev Spine (α : Type*) := List (OpenNode MachPort α)

structure Pieces (α : Type*) where
  tree : NameTree MachPort α
  ltree : Spine α
  rtree : Spine α
  deriving DecidableEq

def ipcSplayPrimLookup (name : MachPort) : NameTree MachPort α → Spine α → Spine α → Pieces α
  | .null, lt, rt => ⟨.null, lt, rt⟩
  | .node l n e r, lt, rt =>
    if name = n then ⟨.node l n e r, lt, rt⟩
    else if name < n then
      -- descend to left
      match l with
      | .null => ⟨.node .null n e r, lt, rt⟩
      | .node ll ln le lr =>
        if name < ln ∧ ll.isNull = false then
          -- rotate_right; link_right
          ipcSplayPrimLookup name ll lt (⟨ln, le, .node lr n e r⟩ :: rt)
        else if ln < name ∧ lr.isNull = false then
          -- link_right; link_left
          ipcSplayPrimLookup name lr (⟨ln, le, ll⟩ :: lt) (⟨n, e, r⟩ :: rt)
        else
          -- link_right
          ipcSplayPrimLookup name (.node ll ln le lr) lt (⟨n, e, r⟩ :: rt)
    else
      -- descend to right
      match r with
      | .null => ⟨.node l n e .null, lt, rt⟩
      | .node rl rn re rr =>
        if rn < name ∧ rr.isNull = false then
          -- rotate_left; link_left
          ipcSplayPrimLookup name rr (⟨rn, re, .node l n e rl⟩ :: lt) rt
        else if name < rn ∧ rl.isNull = false then
          -- link_left; link_right
          ipcSplayPrimLookup name rl (⟨n, e, l⟩ :: lt) (⟨rn, re, rr⟩ :: rt)
        else
          -- link_left
          ipcSplayPrimLookup name (.node rl rn re rr) (⟨n, e, l⟩ :: lt) rt

/-- Stores the children of the middle root through the two open fields, then
hangs both trees below the root. -/
def ipcSplayPrimAssemble (p : Pieces α) : NameTree MachPort α :=
  match p.tree with
  | .null => .null
  | .node l n e r => .node (plugLeft p.ltree l) n e (plugRight p.rtree r)

structure IpcSplayTree (α : Type*) where
  istName : MachPort
  istRoot : NameTree MachPort α
  istLtree : Spine α
  istRtree : Spine α

namespace IpcSplayTree

def pieces (t : IpcSplayTree α) : Pieces α := ⟨t.istRoot, t.istLtree, t.istRtree⟩

/-- A tree whose two open ends have been reset to the splay structure itself. -/
def ofRoot (name : MachPort) (root : NameTree MachPort α) : IpcSplayTree α := ⟨name, root, [], []⟩

/-- A splay tree made of an assembled tree; without a root it leaves `old` behind. -/
def ofAssembled (old : MachPort) (root : NameTree MachPort α) : IpcSplayTree α :=
  match root with
  | .null => ofRoot old .null
  | .node l n e r => ofRoot n (.node l n e r)

/-- What `if (ist_name != name)` does before every operation: assemble, then
splay for `name`. -/
def seek (t : IpcSplayTree α) (name : MachPort) : Pieces α :=
  if t.istName ≠ name then ipcSplayPrimLookup name (ipcSplayPrimAssemble t.pieces) [] []
  else t.pieces

end IpcSplayTree

open IpcSplayTree

def ipcSplayTreeInit : IpcSplayTree α := ofRoot 0 .null

def ipcSplayTreePick (t : IpcSplayTree α) : Option (MachPort × α) :=
  match t.istRoot with
  | .null => none
  | .node _ n e _ => some (n, e)

def ipcSplayTreeLookup (t : IpcSplayTree α) (name : MachPort) : Option α × IpcSplayTree α :=
  match t.istRoot with
  | .null => (none, t)
  | .node .. =>
    let p := t.seek name
    let t' : IpcSplayTree α := ⟨name, p.tree, p.ltree, p.rtree⟩
    match p.tree with
    | .null => (none, t')
    | .node _ n e _ => (if name ≠ n then none else some e, t')

def ipcSplayTreeInsert (t : IpcSplayTree α) (name : MachPort) (entry : α) : IpcSplayTree α :=
  match t.istRoot with
  | .null => ofRoot name (.node .null name entry .null)
  | .node .. =>
    let p := t.seek name
    match p.tree with
    | .null => t
    | .node l n e r =>
      if name < n then
        ofRoot name (.node (plugLeft p.ltree .null) name entry (plugRight p.rtree (.node l n e r)))
      else
        ofRoot name (.node (plugLeft p.ltree (.node l n e r)) name entry (plugRight p.rtree .null))

/-- Hangs `saved` below the largest entry of `root`, after splaying it to the top. -/
def splayLargest (root saved : NameTree MachPort α) : NameTree MachPort α :=
  match ipcSplayPrimAssemble (ipcSplayPrimLookup machPortLargest root [] []) with
  | .null => saved
  | .node l n e _ => .node l n e saved

def ipcSplayTreeDelete (t : IpcSplayTree α) (name : MachPort) : IpcSplayTree α :=
  let p := t.seek name
  let root := plugLeft p.ltree p.tree.lchild
  let saved := plugRight p.rtree p.tree.rchild
  let root' := if root.isNull then saved else if saved.isNull then root else splayLargest root saved
  ofAssembled t.istName root'

def ipcSplayTreeSplit (t : IpcSplayTree α) (name : MachPort) : IpcSplayTree α × IpcSplayTree α :=
  match t.istRoot with
  | .null => (t, ipcSplayTreeInit)
  | .node .. =>
    let p := t.seek name
    match p.tree with
    | .null => (t, ipcSplayTreeInit)
    | .node l n e r =>
      if n < name then
        -- root goes into small, rtree stays in splay
        (ofAssembled t.istName (plugRight p.rtree .null),
          ofRoot n (.node (plugLeft p.ltree l) n e r))
      else
        -- root stays in splay, ltree goes into small
        (⟨name, .node .null n e r, [], p.rtree⟩, ofAssembled 0 (plugLeft p.ltree l))

def ipcSplayTreeJoin (t small : IpcSplayTree α) : IpcSplayTree α × IpcSplayTree α :=
  match ipcSplayPrimAssemble small.pieces with
  | .null => (t, small)
  | .node sl sn se sr =>
    let small' : IpcSplayTree α := { small with istRoot := .null }
    match t.istRoot with
    | .null => (ofRoot sn (.node sl sn se sr), small')
    | .node .. =>
      match ipcSplayPrimAssemble (t.seek machPortSmallest) with
      | .null => (t, small')
      | .node _ n e r => (ofRoot n (.node (.node sl sn se sr) n e r), small')

def ipcSplayTreeBounds (t : IpcSplayTree α) (name : MachPort) :
    (MachPort × MachPort) × IpcSplayTree α :=
  match t.istRoot with
  | .null => ((machPortLargest, machPortSmallest), t)
  | .node .. =>
    let p := t.seek name
    let t' : IpcSplayTree α := ⟨name, p.tree, p.ltree, p.rtree⟩
    match p.tree with
    | .null => ((machPortLargest, machPortSmallest), t')
    | .node _ n _ _ =>
      let lower := if n ≤ name then n else match p.ltree with
        | [] => machPortLargest
        | x :: _ => x.name
      let upper := if name ≤ n then n else match p.rtree with
        | [] => machPortSmallest
        | x :: _ => x.name
      ((lower, upper), t')

/-! ## What a splay leaves behind -/

namespace Pieces

def entries (p : Pieces α) : List (MachPort × α) :=
  lspineList p.ltree ++ p.tree.toList ++ rspineList p.rtree

/-- The pieces are those of a splay for `name`: each lies on its own side, and a middle root other
than `name` has no child towards it. -/
structure Around (p : Pieces α) (name : MachPort) : Prop where
  ordered : Ordered p.entries
  left : ∀ a ∈ lspineList p.ltree, a.1 < name
  right : ∀ a ∈ rspineList p.rtree, name < a.1
  root : ∃ l n e r, p.tree = .node l n e r ∧ (name < n → l = .null) ∧ (n < name → r = .null)

end Pieces

lemma primLookup_entries (name : MachPort) (t : NameTree MachPort α) (lt rt : Spine α) :
    (ipcSplayPrimLookup name t lt rt).entries = lspineList lt ++ t.toList ++ rspineList rt := by
  fun_induction ipcSplayPrimLookup name t lt rt <;> simp_all [Pieces.entries]

variable {p : Pieces α}

lemma primAssemble_toList (h : p.tree ≠ .null) : (ipcSplayPrimAssemble p).toList = p.entries := by
  obtain ⟨_ | ⟨l, n, e, r⟩, lt, rt⟩ := p
  · exact absurd rfl h
  · simp [ipcSplayPrimAssemble, Pieces.entries]

lemma primAssemble_ne_null (h : p.tree ≠ .null) : ipcSplayPrimAssemble p ≠ .null := by
  obtain ⟨_ | ⟨l, n, e, r⟩, lt, rt⟩ := p
  · exact absurd rfl h
  · simp [ipcSplayPrimAssemble]

lemma primLookup_around (name : MachPort) {t : NameTree MachPort α} {lt rt : Spine α}
    (ht : t ≠ .null) (ho : Ordered (lspineList lt ++ t.toList ++ rspineList rt))
    (hl : ∀ a ∈ lspineList lt, a.1 < name) (hr : ∀ a ∈ rspineList rt, name < a.1) :
    (ipcSplayPrimLookup name t lt rt).Around name := by
  fun_induction ipcSplayPrimLookup name t lt rt with
  | case1 => exact absurd rfl ht
  | case2 l e r lt rt => exact ⟨ho, hl, hr, l, name, e, r, rfl, by simp, by simp⟩
  | case3 n e r lt rt hne hlt =>
    exact ⟨ho, hl, hr, .null, n, e, r, rfl, by simp, fun h => absurd h hlt.asymm⟩
  | case4 n e r lt rt hne hlt ll ln le lr hc ih =>
    have hmid : Ordered ((lspineList lt ++ ll.toList) ++
        (ln, le) :: (lr.toList ++ (n, e) :: r.toList ++ rspineList rt)) := by simpa using ho
    refine ih (by simpa using hc.2) (by simpa using ho) hl ?_
    simpa using hmid.above hc.1
  | case5 n e r lt rt hne hlt ll ln le lr hc1 hc ih =>
    have hlo : Ordered ((lspineList lt ++ ll.toList) ++
        (ln, le) :: (lr.toList ++ (n, e) :: r.toList ++ rspineList rt)) := by simpa using ho
    have hhi : Ordered ((lspineList lt ++ ll.toList ++ (ln, le) :: lr.toList) ++
        (n, e) :: (r.toList ++ rspineList rt)) := by simpa using ho
    refine ih (by simpa using hc.2) (by simpa using ho) ?_ ?_
    · simpa using hlo.below hc.1
    · simpa using hhi.above hlt
  | case6 n e r lt rt hne hlt ll ln le lr hc1 hc2 ih =>
    have hhi : Ordered ((lspineList lt ++ ll.toList ++ (ln, le) :: lr.toList) ++
        (n, e) :: (r.toList ++ rspineList rt)) := by simpa using ho
    refine ih (by simp) (by simpa using ho) hl ?_
    simpa using hhi.above hlt
  | case7 l n e lt rt hne hlt =>
    exact ⟨ho, hl, hr, l, n, e, .null, rfl, fun h => absurd h hlt, by simp⟩
  | case8 l n e lt rt hne hlt rl rn re rr hc ih =>
    have hmid : Ordered ((lspineList lt ++ l.toList ++ (n, e) :: rl.toList) ++
        (rn, re) :: (rr.toList ++ rspineList rt)) := by simpa using ho
    refine ih (by simpa using hc.2) (by simpa using ho) ?_ hr
    simpa using hmid.below hc.1
  | case9 l n e lt rt hne hlt rl rn re rr hc1 hc ih =>
    have hlo : Ordered ((lspineList lt ++ l.toList) ++
        (n, e) :: (rl.toList ++ (rn, re) :: rr.toList ++ rspineList rt)) := by simpa using ho
    have hhi : Ordered ((lspineList lt ++ l.toList ++ (n, e) :: rl.toList) ++
        (rn, re) :: (rr.toList ++ rspineList rt)) := by simpa using ho
    refine ih (by simpa using hc.2) (by simpa using ho) ?_ ?_
    · simpa using hlo.below (lt_of_le_of_ne (not_lt.1 hlt) (Ne.symm hne))
    · simpa using hhi.above hc.1
  | case10 l n e lt rt hne hlt rl rn re rr hc1 hc2 ih =>
    have hlo : Ordered ((lspineList lt ++ l.toList) ++
        (n, e) :: (rl.toList ++ (rn, re) :: rr.toList ++ rspineList rt)) := by simpa using ho
    refine ih (by simp) (by simpa using ho) ?_ hr
    simpa using hlo.below (lt_of_le_of_ne (not_lt.1 hlt) (Ne.symm hne))

namespace IpcSplayTree

def entries (t : IpcSplayTree α) : List (MachPort × α) := (ipcSplayPrimAssemble t.pieces).toList

def WellFormed (t : IpcSplayTree α) : Prop := t.istRoot ≠ .null → t.pieces.Around t.istName

variable {t : IpcSplayTree α} {name : MachPort}

lemma entries_of_null (h : t.istRoot = .null) : t.entries = [] := by
  simp [entries, ipcSplayPrimAssemble, pieces, h]

lemma entries_of_ne_null (h : t.istRoot ≠ .null) :
    t.entries = t.pieces.entries := primAssemble_toList h

lemma WellFormed.ordered (h : t.WellFormed) : Ordered t.entries := by
  by_cases hroot : t.istRoot = .null
  · rw [entries_of_null hroot]
    exact ordered_nil
  · rw [entries_of_ne_null hroot]
    exact (h hroot).ordered

lemma ofRoot_entries (name : MachPort) (root : NameTree MachPort α) :
    (ofRoot name root).entries = root.toList := by
  cases root <;> simp [entries, ofRoot, pieces, ipcSplayPrimAssemble, plugLeft, plugRight]

lemma ofRoot_wellFormed {l r : NameTree MachPort α} {n : MachPort} {e : α}
    (h : Ordered (NameTree.node l n e r).toList) : (ofRoot n (.node l n e r)).WellFormed := by
  intro _
  refine ⟨by simpa [Pieces.entries, pieces, ofRoot] using h, ?_, ?_, l, n, e, r, rfl, ?_, ?_⟩ <;>
    simp [pieces, ofRoot]

lemma ofAssembled_entries (old : MachPort) (root : NameTree MachPort α) :
    (ofAssembled old root).entries = root.toList := by
  cases root <;> exact ofRoot_entries _ _

lemma ofAssembled_wellFormed {old : MachPort} {root : NameTree MachPort α}
    (h : Ordered root.toList) : (ofAssembled old root).WellFormed := by
  cases root with
  | null => exact fun hne => absurd rfl hne
  | node l n e r => exact ofRoot_wellFormed h

lemma wellFormed_of_around (h : p.Around name) :
    (⟨name, p.tree, p.ltree, p.rtree⟩ : IpcSplayTree α).WellFormed := fun _ => h

lemma entries_of_around (h : p.Around name) :
    (⟨name, p.tree, p.ltree, p.rtree⟩ : IpcSplayTree α).entries = p.entries := by
  obtain ⟨l, n, e, r, htree, -⟩ := h.root
  exact primAssemble_toList (p := p) (by simp [htree])

lemma seek_spec (h : t.WellFormed) (hroot : t.istRoot ≠ .null) (name : MachPort) :
    (t.seek name).Around name ∧ (t.seek name).entries = t.entries := by
  have hentries : (ipcSplayPrimAssemble t.pieces).toList = t.pieces.entries :=
    primAssemble_toList hroot
  rw [entries_of_ne_null hroot, seek]
  split_ifs with hname
  · refine ⟨primLookup_around name (primAssemble_ne_null hroot) ?_ (by simp) (by simp), ?_⟩
    · simpa [hentries] using (h hroot).ordered
    · rw [primLookup_entries]
      simpa using hentries
  · rw [not_not] at hname
    exact ⟨hname ▸ h hroot, rfl⟩

end IpcSplayTree

end Rhapsody.Ipc
