import Rhapsody.Lib.PointerTree

/-! The AppleTalk routing table (`netat/ddp_rtmptable.c`, `netat/h/routing_tables.h`). Address 0
is `RT_table_start`, address `i + 1` is `RT_table[i]`. A result `none` stands for a loop that does
not end and for the use of a pointer never set. Zone bit maps and change flags are left out. -/

namespace Rhapsody.Netat

open PointerTree

structure RtEntry where
  left : Option ℕ
  right : Option ℕ
  netStop : ℕ
  netStart : ℕ
  nextIRNet : ℕ
  nextIRNode : ℕ
  netDist : ℕ
  netPort : ℕ
  entryState : ℕ
  deriving DecidableEq

namespace RtEntry

def zero : RtEntry := ⟨none, none, 0, 0, 0, 0, 0, 0, 0⟩

def lowEnd (e : RtEntry) : ℕ := if e.netStart ≠ 0 then e.netStart else e.netStop

def Contains (e : RtEntry) (net : ℕ) : Prop := e.lowEnd ≤ net ∧ net ≤ e.netStop

def Disjoint (e f : RtEntry) : Prop := e.netStop < f.lowEnd ∨ f.netStop < e.lowEnd

def Valid (e : RtEntry) : Prop := 0 < e.netStop ∧ e.netStart ≤ e.netStop

instance (e : RtEntry) (net : ℕ) : Decidable (e.Contains net) := inferInstanceAs (Decidable (_ ∧ _))

instance (e f : RtEntry) : Decidable (e.Disjoint f) := inferInstanceAs (Decidable (_ ∨ _))

end RtEntry

structure RtTable where
  mem : ℕ → RtEntry
  freelist : Option ℕ
  /-- `RT_MAXENTRY` -/
  maxEntry : ℕ

namespace RtTable

variable (t : RtTable)

def left (a : ℕ) : Option ℕ := (t.mem a).left

def right (a : ℕ) : Option ℕ := (t.mem a).right

def set (a : ℕ) (e : RtEntry) : RtTable := { t with mem := Function.update t.mem a e }

def rtTableInit (size : ℕ) : RtTable where
  mem a := { RtEntry.zero with right := if 0 < a ∧ a < size then some (a + 1) else none }
  freelist := some 1
  maxEntry := size

def fuel : ℕ := t.maxEntry + 1

def lookupFrom (net : ℕ) : ℕ → Option ℕ → Option (Option ℕ)
  | _, none => some none
  | 0, some _ => none
  | fuel + 1, some ptree =>
    if net > (t.mem ptree).netStop then lookupFrom net fuel (t.right ptree)
    else if net < (t.mem ptree).lowEnd then lookupFrom net fuel (t.left ptree)
    else some (some ptree)

def rtBlookup (net : ℕ) : Option (Option ℕ) := t.lookupFrom net t.fuel (some 0)

def insertFrom (new : ℕ) : ℕ → ℕ → Option RtTable
  | 0, _ => none
  | fuel + 1, ptree =>
    let e := t.mem ptree
    if (t.mem new).netStop > e.netStop then
      match e.right with
      | some next => insertFrom new fuel next
      | none => some (t.set ptree { e with right := some new })
    else
      match e.left with
      | some next => insertFrom new fuel next
      | none => some (t.set ptree { e with left := some new })

def rtBinsert (new : ℕ) : Option RtTable := t.insertFrom new t.fuel 0

/-- The fields other than the links are those of `e`. Without a free entry the table
stays as it is. -/
def rtInsert (e : RtEntry) : Option RtTable :=
  match t.freelist with
  | none => some t
  | some new =>
    let t := { t with freelist := t.right new }
    rtBinsert (t.set new { e with left := t.left new, right := none }) new

def deleteFrom (netStop : ℕ) : ℕ → Option ℕ → Option ℕ → Option (Option ℕ × Option ℕ)
  | _, pprevious, none => some (pprevious, none)
  | 0, _, some _ => none
  | fuel + 1, pprevious, some found =>
    if netStop > (t.mem found).netStop then
      deleteFrom netStop fuel (some found) (t.right found)
    else if netStop < (t.mem found).lowEnd then
      deleteFrom netStop fuel (some found) (t.left found)
    else some (pprevious, some found)

def prune (found : ℕ) : Option (Option ℕ × RtTable) :=
  match t.right found with
  | some pnext => do
    let psub ← leftEnd t.left t.fuel pnext
    return (some pnext, t.set psub { t.mem psub with left := t.left found })
  | none => some (t.left found, t)

def unlink (pprevious found : ℕ) : Option RtTable := do
  let (pnext, t) ← t.prune found
  let e := t.mem pprevious
  return t.set pprevious
    (if e.left = some found then { e with left := pnext } else { e with right := pnext })

def rtBdelete (netStop : ℕ) : Option (Option ℕ × RtTable) := do
  match ← t.deleteFrom netStop t.fuel none (some 0) with
  | (_, none) => return (none, t)
  | (none, some _) => none
  | (some pprevious, some found) => return (some found, ← t.unlink pprevious found)

def rtDelete (netStop : ℕ) : Option RtTable := do
  match ← t.rtBdelete netStop with
  | (none, t) => return t
  | (some found, t) =>
    return { t.set found { RtEntry.zero with right := t.freelist } with freelist := some found }

end RtTable

end Rhapsody.Netat
