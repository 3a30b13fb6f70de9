import Rhapsody.Ipc.SplaySpec

/-! The symmetric-order walk of `ipc/ipc_splay.c`. On the way down a child field is turned
round to point at the parent, so the way back is a list of open nodes. Nothing records
which of a parent's two fields was turned: the walk finds out by comparing names. -/

namespace Rhapsody.Ipc
open Rhapsody.Lib IpcSplayTree List

variable {α σ : Type*}

/-- The entry in `ist_ltree` with its subtrees, and in `ist_rtree` the parent from which the turned
fields lead back to the root. -/
structure Walk (α : Type*) where
  lchild : NameTree MachPort α
  name : MachPort
  entry : α
  rchild : NameTree MachPort α
  parent : Spine α

/-- Where a stretch of the walk ends: at the next entry, or with the root in `ist_root`. -/
inductive WalkStep (α : Type*) where
  | visit (w : Walk α)
  | done (root : NameTree MachPort α)

def traverseLeft : NameTree MachPort α → MachPort → α → NameTree MachPort α → Spine α → Walk α
  | .null, n, e, r, parent => ⟨.null, n, e, r, parent⟩
  | .node ll ln le lr, n, e, r, parent => traverseLeft ll ln le lr (⟨n, e, r⟩ :: parent)

/-- `name` is that of the root of `current` or, when its last entry has just been deleted, of that
entry. -/
def traverseBack (current : NameTree MachPort α) (name : MachPort) : Spine α → WalkStep α
  | [] => .done current
  | x :: parent =>
    if name < x.name then .visit ⟨current, x.name, x.entry, x.child, parent⟩
    else traverseBack (.node x.child x.name x.entry current) x.name parent

def traverseRight (l : NameTree MachPort α) (n : MachPort) (e : α) (r : NameTree MachPort α)
    (parent : Spine α) : WalkStep α :=
  match r with
  | .null => traverseBack (.node l n e .null) n parent
  | .node rl rn re rr => .visit (traverseLeft rl rn re rr (⟨n, e, l⟩ :: parent))

def ipcSplayTraverseStart (t : IpcSplayTree α) : WalkStep α :=
  match ipcSplayPrimAssemble t.pieces with
  | .null => .done .null
  | .node l n e r => .visit (traverseLeft l n e r [])

variable (w : Walk α)

def ipcSplayTraverseNext (delete : Bool) : WalkStep α :=
  if delete then
    match w.lchild, w.rchild with
    | .null, .null => traverseBack .null w.name w.parent
    | .null, .node l n e r => .visit (traverseLeft l n e r w.parent)
    | .node l n e r, .null => traverseBack (.node l n e r) n w.parent
    | .node l n e r, .node rl rn re rr =>
      -- replace current with largest of left children
      match splayLargest (.node l n e r) (.node rl rn re rr) with
      | .null => .done .null
      | .node l' n' e' r' => traverseRight l' n' e' r' w.parent
  else traverseRight w.lchild w.name w.entry w.rchild w.parent

def ipcSplayTraverseFinish (t : IpcSplayTree α) (root : NameTree MachPort α) : IpcSplayTree α :=
  ofAssembled t.istName root

/-- `visit` does something with an entry and says whether to delete it. Every turn visits another
entry, so `fuel` bounds their number. -/
def traverseLoop (visit : σ → MachPort → α → σ × Bool) :
    ℕ → σ → WalkStep α → σ × NameTree MachPort α
  | _, s, .done root => (s, root)
  | 0, s, .visit _ => (s, .null)
  | fuel + 1, s, .visit w =>
    let v := visit s w.name w.entry
    traverseLoop visit fuel v.1 (ipcSplayTraverseNext w v.2)

variable (visit : σ → MachPort → α → σ × Bool)

def ipcSplayTraverse (s : σ) (t : IpcSplayTree α) : σ × IpcSplayTree α :=
  let res := traverseLoop visit (ipcSplayPrimAssemble t.pieces).size s (ipcSplayTraverseStart t)
  (res.1, ipcSplayTraverseFinish t res.2)

/-! ## What has been passed and what lies ahead -/

def behind (name : MachPort) : Spine α → List (MachPort × α)
  | [] => []
  | x :: parent =>
    if name < x.name then behind x.name parent
    else behind x.name parent ++ x.child.toList ++ [(x.name, x.entry)]

def ahead (name : MachPort) : Spine α → List (MachPort × α)
  | [] => []
  | x :: parent =>
    if name < x.name then (x.name, x.entry) :: x.child.toList ++ ahead x.name parent
    else ahead x.name parent

def Walk.before : List (MachPort × α) := behind w.name w.parent ++ w.lchild.toList

def Walk.current : MachPort × α := (w.name, w.entry)

def Walk.after : List (MachPort × α) := w.rchild.toList ++ ahead w.name w.parent

def WalkStep.Splits (kept rest : List (MachPort × α)) : WalkStep α → Prop
  | .visit w => w.before = kept ∧ w.current :: w.after = rest
  | .done root => root.toList = kept ∧ rest = []

lemma behind_ahead_congr {name name' : MachPort} {parent : Spine α}
    {mid : List (MachPort × α)}
    (hord : Ordered (behind name parent ++ mid ++ ahead name parent))
    (hmem : ∃ a ∈ mid, a.1 = name) (hmem' : ∃ a ∈ mid, a.1 = name') :
    behind name' parent = behind name parent ∧ ahead name' parent = ahead name parent := by
  obtain ⟨a, -, rfl⟩ := hmem
  obtain ⟨b, hb, rfl⟩ := hmem'
  cases parent with
  | nil => exact ⟨rfl, rfl⟩
  | cons x parent =>
    by_cases hx : a.1 < x.name
    · have hbx : b.1 < x.name := by
        simp only [behind, ahead, if_pos hx, cons_append] at hord
        exact (ordered_append.1 hord).2.2 b (by simp [hb]) (x.name, x.entry) (by simp)
      simp [behind, ahead, hx, hbx]
    have hbx : ¬b.1 < x.name := by
      simp only [behind, ahead, if_neg hx] at hord
      have hmid := (ordered_append.1 (ordered_append.1 hord).1).2.2
      exact (hmid (x.name, x.entry) (by simp) b hb).asymm
    simp [behind, ahead, hx, hbx]

lemma traverseBack_splits (t : NameTree MachPort α) (name : MachPort) (parent : Spine α) :
    (traverseBack t name parent).Splits (behind name parent ++ t.toList) (ahead name parent) := by
  induction parent generalizing t name with
  | nil => simp [traverseBack, WalkStep.Splits, behind, ahead]
  | cons x parent ih =>
    by_cases hx : name < x.name
    · simp [traverseBack, hx, WalkStep.Splits, Walk.before, Walk.after, Walk.current, behind, ahead]
    · simpa [traverseBack, hx, behind, ahead] using ih (.node x.child x.name x.entry t) x.name

variable {e : α} {l r : NameTree MachPort α} {n : MachPort}

lemma traverseLeft_splits (parent : Spine α) (hord : Ordered (l.toList ++ (n, e) :: r.toList)) :
    (WalkStep.visit (traverseLeft l n e r parent)).Splits (behind n parent)
      (l.toList ++ (n, e) :: r.toList ++ ahead n parent) := by
  induction l generalizing n e r parent with
  | null => simp [traverseLeft, WalkStep.Splits, Walk.before, Walk.after, Walk.current]
  | node ll ln le lr ihl _ =>
    obtain ⟨hl, -, hbelow⟩ := ordered_append.1 hord
    have hlt : ln < n := hbelow (ln, le) (by simp) (n, e) (by simp)
    simpa [traverseLeft, behind, ahead, hlt] using ihl (⟨n, e, r⟩ :: parent) hl

lemma traverseRight_splits (parent : Spine α) (hord : Ordered ((n, e) :: r.toList)) :
    (traverseRight l n e r parent).Splits (behind n parent ++ l.toList ++ [(n, e)])
      (r.toList ++ ahead n parent) := by
  cases r with
  | null => simpa [traverseRight] using traverseBack_splits (.node l n e .null) n parent
  | node rl rn re rr =>
    obtain ⟨habove, hr⟩ := ordered_cons.1 hord
    have hlt : ¬rn < n := (habove (rn, re) (by simp)).asymm
    simpa [traverseRight, behind, ahead, hlt] using traverseLeft_splits (⟨n, e, l⟩ :: parent) hr

lemma splayLargest_node {root : NameTree MachPort α} (saved : NameTree MachPort α)
    (hroot : root ≠ .null) (hord : Ordered root.toList) :
    ∃ l n e, splayLargest root saved = .node l n e saved ∧ l.toList ++ [(n, e)] = root.toList := by
  have hlist : (splayLargest root saved).toList = root.toList ++ saved.toList :=
    splayLargest_toList hroot hord
  rw [splayLargest] at hlist ⊢
  cases hres : ipcSplayPrimAssemble (ipcSplayPrimLookup machPortLargest root [] []) with
  | null =>
    have hlookup : (ipcSplayPrimLookup machPortLargest root [] []).Around machPortLargest :=
      primLookup_around _ hroot (by simpa using hord) (by simp) (by simp)
    obtain ⟨l, n, e, r, htree, -⟩ := hlookup.root
    exact absurd hres (primAssemble_ne_null (by simp [htree]))
  | node l n e r =>
    refine ⟨l, n, e, rfl, ?_⟩
    rw [hres] at hlist
    exact append_cancel_right (by simpa using hlist)

lemma traverseNext_splits (delete : Bool) (hord : Ordered (w.before ++ w.current :: w.after)) :
    (ipcSplayTraverseNext w delete).Splits
      (w.before ++ if delete then [] else [w.current]) w.after := by
  obtain ⟨l, n, e, r, parent⟩ := w
  simp only [Walk.before, Walk.after, Walk.current] at hord ⊢
  have hmid : Ordered (behind n parent ++ (l.toList ++ (n, e) :: r.toList) ++ ahead n parent) := by
    simpa using hord
  have htree : Ordered (l.toList ++ (n, e) :: r.toList) :=
    (ordered_append.1 (ordered_append.1 hmid).1).2.1
  have hcongr : ∀ n', (∃ a ∈ l.toList ++ (n, e) :: r.toList, a.1 = n') →
      behind n' parent = behind n parent ∧ ahead n' parent = ahead n parent := fun n' hn' =>
    behind_ahead_congr hmid ⟨(n, e), by simp, rfl⟩ hn'
  cases delete with
  | false =>
    simpa [ipcSplayTraverseNext] using
      traverseRight_splits (l := l) parent (ordered_append.1 htree).2.1
  | true =>
    cases l with
    | null =>
      cases r with
      | null => simpa [ipcSplayTraverseNext] using traverseBack_splits .null n parent
      | node rl rn re rr =>
        obtain ⟨hbehind, hahead⟩ := hcongr rn ⟨(rn, re), by simp, rfl⟩
        have hr : Ordered (rl.toList ++ (rn, re) :: rr.toList) := (ordered_cons.1 htree).2
        simpa [ipcSplayTraverseNext, hbehind, hahead] using traverseLeft_splits parent hr
    | node ll ln le lr =>
      cases r with
      | null =>
        obtain ⟨hbehind, hahead⟩ := hcongr ln ⟨(ln, le), by simp, rfl⟩
        simpa [ipcSplayTraverseNext, hbehind, hahead] using
          traverseBack_splits (.node ll ln le lr) ln parent
      | node rl rn re rr =>
        obtain ⟨l', n', e', hsplay, hlist⟩ := splayLargest_node (.node rl rn re rr) (by simp)
          (ordered_append.1 htree).1
        have hmem : (n', e') ∈ (NameTree.node ll ln le lr).toList := by simp [← hlist]
        obtain ⟨hbehind, hahead⟩ := hcongr n' ⟨(n', e'), mem_append_left _ hmem, rfl⟩
        have hright : Ordered ((n', e') :: (NameTree.node rl rn re rr).toList) := by
          refine ordered_cons.2 ⟨fun b hb => ?_, ?_⟩
          · exact (ordered_append.1 htree).2.2 _ hmem b (mem_cons_of_mem _ hb)
          · exact (ordered_cons.1 (ordered_append.1 htree).2.1).2
        have hres := traverseRight_splits (l := l') parent hright
        rw [append_assoc, hlist, hbehind, hahead] at hres
        simpa [ipcSplayTraverseNext, hsplay] using hres

/-! ## The whole walk -/

/-- The walk as it looks from outside: the entries in order, each kept or dropped. -/
def sift (visit : σ → MachPort → α → σ × Bool) :
    σ → List (MachPort × α) → σ × List (MachPort × α)
  | s, [] => (s, [])
  | s, a :: rest =>
    let v := visit s a.1 a.2
    let res := sift visit v.1 rest
    (res.1, (if v.2 then [] else [a]) ++ res.2)

lemma sift_sublist (s : σ) (xs : List (MachPort × α)) : (sift visit s xs).2.Sublist xs := by
  induction xs generalizing s with
  | nil => exact List.Sublist.refl _
  | cons a rest ih =>
    simp only [sift]
    split
    · exact (ih _).cons a
    · exact (ih _).cons_cons a

lemma traverseLoop_eq_sift {fuel : ℕ} {s : σ} {step : WalkStep α}
    {kept rest : List (MachPort × α)} (hsplit : step.Splits kept rest)
    (hord : Ordered (kept ++ rest)) (hfuel : rest.length ≤ fuel) :
    (traverseLoop visit fuel s step).1 = (sift visit s rest).1 ∧
      (traverseLoop visit fuel s step).2.toList = kept ++ (sift visit s rest).2 := by
  induction fuel generalizing s step kept rest with
  | zero =>
    obtain rfl : rest = [] := by simpa using hfuel
    cases step with
    | visit w => simp [WalkStep.Splits] at hsplit
    | done root => simp [traverseLoop, sift, hsplit.1]
  | succ fuel ih =>
    cases step with
    | done root =>
      obtain ⟨hroot, rfl⟩ := hsplit
      simp [traverseLoop, sift, hroot]
    | visit w =>
      obtain ⟨rfl, rfl⟩ := hsplit
      have hnext := traverseNext_splits w (visit s w.name w.entry).2 hord
      have hkept : Ordered ((w.before ++ if (visit s w.name w.entry).2 then [] else [w.current]) ++
          w.after) := by
        split
        · simpa using hord.erase
        · simpa using hord
      obtain ⟨hstate, hlist⟩ := ih (s := (visit s w.name w.entry).1) hnext hkept
        (by simpa using hfuel)
      refine ⟨hstate, ?_⟩
      simp only [traverseLoop, hlist, sift, append_assoc]
      rfl

variable {t : IpcSplayTree α}

lemma traverseStart_splits (h : t.WellFormed) : (ipcSplayTraverseStart t).Splits [] t.entries := by
  rw [ipcSplayTraverseStart, entries]
  have hord : Ordered (ipcSplayPrimAssemble t.pieces).toList := h.ordered
  generalize ipcSplayPrimAssemble t.pieces = root at hord ⊢
  cases root with
  | null => exact ⟨rfl, rfl⟩
  | node l n e r => simpa [behind, ahead] using traverseLeft_splits [] hord

lemma traverse_spec (h : t.WellFormed) (visit : σ → MachPort → α → σ × Bool) (s : σ) :
    (ipcSplayTraverse visit s t).1 = (sift visit s t.entries).1 ∧
      (ipcSplayTraverse visit s t).2.entries = (sift visit s t.entries).2 ∧
      (ipcSplayTraverse visit s t).2.WellFormed := by
  obtain ⟨hstate, hlist⟩ := traverseLoop_eq_sift visit (s := s) (traverseStart_splits h) h.ordered
    (le_of_eq (NameTree.length_toList _))
  rw [nil_append] at hlist
  refine ⟨hstate, ?_, ?_⟩
  · rw [← hlist]
    exact ofAssembled_entries _ _
  apply ofAssembled_wellFormed
  rw [hlist]
  exact h.ordered.sublist (sift_sublist _ _ _)

/-! ## Any sequence of decisions -/

/-- The walk after its first `n` entries; `delete i` is what the caller decides about the
`i`-th. -/
def traverseAfter (t : IpcSplayTree α) (delete : ℕ → Bool) : ℕ → WalkStep α
  | 0 => ipcSplayTraverseStart t
  | n + 1 =>
    match traverseAfter t delete n with
    | .visit w => ipcSplayTraverseNext w (delete n)
    | .done root => .done root

def keptOf {β : Type*} (delete : ℕ → Bool) (xs : List β) : List β :=
  (xs.zipIdx.filter fun a => !delete a.2).map Prod.fst

lemma keptOf_concat {β : Type*} (delete : ℕ → Bool) (xs : List β) (a : β) :
    keptOf delete (xs ++ [a]) = keptOf delete xs ++ if delete xs.length then [] else [a] := by
  cases hd : delete xs.length <;> simp [keptOf, zipIdx_append, hd]

lemma keptOf_sublist {β : Type*} (delete : ℕ → Bool) (xs : List β) :
    (keptOf delete xs).Sublist xs := by
  simpa [keptOf] using (filter_sublist (l := xs.zipIdx)).map Prod.fst

lemma WalkStep.Splits.eq_visit {step : WalkStep α} {kept rest : List (MachPort × α)}
    {a : MachPort × α} (h : step.Splits kept (a :: rest)) :
    ∃ w, step = .visit w ∧ w.before = kept ∧ w.current = a ∧ w.after = rest := by
  cases step with
  | done root => exact absurd h.2 (cons_ne_nil _ _)
  | visit w =>
    obtain ⟨hbefore, hrest⟩ := h
    exact ⟨w, rfl, hbefore, cons.inj hrest⟩

lemma traverseAfter_splits (h : t.WellFormed) (delete : ℕ → Bool) {n : ℕ}
    (hn : n ≤ t.entries.length) :
    (traverseAfter t delete n).Splits (keptOf delete (t.entries.take n)) (t.entries.drop n) := by
  induction n with
  | zero => exact traverseStart_splits h
  | succ n ih =>
    have hsplit := ih (by omega)
    rw [drop_eq_getElem_cons hn] at hsplit
    obtain ⟨w, hstep, hbefore, hcurrent, hafter⟩ := hsplit.eq_visit
    have hord : Ordered (w.before ++ w.current :: w.after) := by
      rw [hbefore, hcurrent, hafter, ← drop_eq_getElem_cons hn]
      have hsub := (keptOf_sublist delete (t.entries.take n)).append_right (t.entries.drop n)
      rw [take_append_drop] at hsub
      exact h.ordered.sublist hsub
    have hnext := traverseNext_splits w (delete n) hord
    have htake : (t.entries.take n).length = n := length_take_of_le (by omega)
    rw [traverseAfter, hstep, ← take_append_getElem hn, keptOf_concat, htake, ← hbefore, ← hcurrent,
      ← hafter]
    exact hnext

/-- Whatever the caller decides, the walk visits every entry once, in the order of names, and leaves
a search tree of those kept. -/
theorem traverse_visits_each (h : t.WellFormed) (delete : ℕ → Bool) : Ordered t.entries ∧
    (∀ i (hi : i < t.entries.length), ∃ w,
      traverseAfter t delete i = .visit w ∧ w.current = t.entries[i]) ∧
    ∃ root, traverseAfter t delete t.entries.length = .done root ∧ root.IsSearch ∧
      (ipcSplayTraverseFinish t root).WellFormed ∧
      (ipcSplayTraverseFinish t root).entries = keptOf delete t.entries := by
  refine ⟨h.ordered, fun i hi => ?_, ?_⟩
  · have hsplit := traverseAfter_splits h delete hi.le
    rw [drop_eq_getElem_cons hi] at hsplit
    obtain ⟨w, hstep, -, hcurrent, -⟩ := hsplit.eq_visit
    exact ⟨w, hstep, hcurrent⟩
  have hsplit := traverseAfter_splits h delete le_rfl
  rw [take_length, drop_length] at hsplit
  cases hstep : traverseAfter t delete t.entries.length with
  | visit w =>
    rw [hstep] at hsplit
    exact absurd hsplit.2 (by simp)
  | done root =>
    rw [hstep] at hsplit
    have hord : Ordered root.toList := hsplit.1 ▸ h.ordered.sublist (keptOf_sublist _ _)
    exact ⟨root, rfl, NameTree.isSearch_iff.2 hord, ofAssembled_wellFormed hord,
      (ofAssembled_entries _ _).trans hsplit.1⟩

theorem traverse_visits_each_pair :
    ∃ root, traverseAfter (ipcSplayTreeInsert (ipcSplayTreeInsert ipcSplayTreeInit 7 'a') 3 'b')
      (· == 0) 2 = .done root ∧ root.toList = [(7, 'a')] := by
  have hone := @insert_spec _ ipcSplayTreeInit 7 init_wellFormed (by decide) 'a'
  have htwo := @insert_spec _ _ 3 hone.1 (by decide) 'b'
  obtain ⟨-, -, root, hroot, -, -, hentries⟩ := traverse_visits_each htwo.1 (· == 0)
  exact ⟨root, hroot, (ofAssembled_entries _ _).symm.trans hentries⟩

end Rhapsody.Ipc
