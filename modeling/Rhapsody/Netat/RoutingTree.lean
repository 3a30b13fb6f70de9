import Rhapsody.Netat.RoutingTable

/-! What the routines of the routing table do to the tree. The entries of a sub-tree are listed in
the order of their nets; each routine changes links of the sub-tree only. -/

namespace Rhapsody.Netat

open Function List

open PointerTree

def RtEntry.Before (e f : RtEntry) : Prop := e.netStop < f.lowEnd

def RtEntry.Ranged (e : RtEntry) : Prop := e.lowEnd ≤ e.netStop

variable {e : RtEntry}

lemma RtEntry.Before.trans {f g : RtEntry} (h : e.Before f) (hf : f.Ranged) (h' : f.Before g) :
    e.Before g := by
  rw [RtEntry.Before] at h h' ⊢
  rw [RtEntry.Ranged] at hf
  omega

lemma RtEntry.Valid.ranged (h : e.Valid) : e.Ranged := by
  rw [RtEntry.Ranged, RtEntry.lowEnd]
  split
  · exact h.2
  · exact le_refl _

lemma RtEntry.Valid.lowEnd_pos (h : e.Valid) : 0 < e.lowEnd := by
  rw [RtEntry.lowEnd]
  split
  · omega
  · exact h.1

namespace RtTable

variable {t t' : RtTable} {p : Option ℕ} {s : Shape ℕ} {a net fuel : ℕ}

structure Sub (t : RtTable) (p : Option ℕ) (s : Shape ℕ) : Prop where
  rep : Rep t.left t.right p s
  nodup : s.toList.Nodup
  ordered : s.toList.Pairwise fun i j => (t.mem i).Before (t.mem j)
  ranged : ∀ i ∈ s.toList, (t.mem i).Ranged

structure Parts (t : RtTable) (a : ℕ) (l r : Shape ℕ) : Prop where
  left : t.Sub (t.left a) l
  right : t.Sub (t.right a) r
  ranged : (t.mem a).Ranged
  notLeft : a ∉ l.toList
  notRight : a ∉ r.toList
  apart : ∀ b ∈ l.toList, b ∉ r.toList
  before : ∀ b ∈ l.toList, (t.mem b).Before (t.mem a)
  after : ∀ b ∈ r.toList, (t.mem a).Before (t.mem b)

lemma Sub.parts {l r : Shape ℕ} (h : t.Sub p (.node a l r)) : p = some a ∧ t.Parts a l r := by
  obtain ⟨hp, hl, hr⟩ := h.rep
  obtain ⟨hnl, hnr, hlr⟩ := nodup_append.1 h.nodup
  obtain ⟨har, hnr⟩ := nodup_cons.1 hnr
  obtain ⟨hol, hor, holr⟩ := pairwise_append.1 h.ordered
  obtain ⟨hoar, hor⟩ := pairwise_cons.1 hor
  have hmem (b) (hb : b ∈ l.toList ∨ b = a ∨ b ∈ r.toList) : b ∈ (Shape.node a l r).toList := by
    rw [Shape.toList, mem_append, mem_cons]
    exact hb
  exact ⟨hp, ⟨hl, hnl, hol, fun b hb => h.ranged b (hmem b (.inl hb))⟩,
    ⟨hr, hnr, hor, fun b hb => h.ranged b (hmem b (.inr (.inr hb)))⟩,
    h.ranged a (hmem a (.inr (.inl rfl))), fun ha => hlr a ha a mem_cons_self rfl, har,
    fun b hb hb' => hlr b hb b (mem_cons_of_mem a hb') rfl,
    fun b hb => holr b hb a mem_cons_self, hoar⟩

lemma length_node (l r : Shape ℕ) :
    (Shape.node a l r).toList.length = l.toList.length + (r.toList.length + 1) := by
  rw [Shape.toList, length_append, length_cons]

/-! ## Looking a net up -/

lemma lookupFrom_spec (h : t.Sub p s) (hfuel : s.toList.length ≤ fuel) :
    ∃ res, t.lookupFrom net fuel p = some res ∧
      ∀ i, res = some i ↔ i ∈ s.toList ∧ (t.mem i).Contains net := by
  induction s generalizing p fuel with
  | leaf =>
    obtain rfl : p = none := h.rep
    refine ⟨none, by cases fuel <;> rfl, fun i => ⟨nofun, fun hi => ?_⟩⟩
    cases hi.1
  | node a l r ihl ihr =>
    obtain ⟨rfl, hparts⟩ := h.parts
    rw [length_node] at hfuel
    obtain _ | fuel := fuel
    · omega
    have hmem (i) : i ∈ (Shape.node a l r).toList ↔ i ∈ l.toList ∨ i = a ∨ i ∈ r.toList := by
      rw [Shape.toList, mem_append, mem_cons]
    have hranged := hparts.ranged
    rw [RtEntry.Ranged] at hranged
    rw [lookupFrom]
    split
    · -- to the right: all before and at `a` end too early
      rename_i hgt
      obtain ⟨res, hres, hiff⟩ := ihr hparts.right (show r.toList.length ≤ fuel by omega)
      refine ⟨res, hres, fun i => (hiff i).trans ?_⟩
      rw [hmem]
      constructor
      · exact fun hi => ⟨.inr (.inr hi.1), hi.2⟩
      rintro ⟨hi | rfl | hi, hc⟩
      · have hb := hparts.before i hi
        rw [RtEntry.Before] at hb
        rw [RtEntry.Contains] at hc
        omega
      · rw [RtEntry.Contains] at hc
        omega
      · exact ⟨hi, hc⟩
    split
    next hle hlt =>
      obtain ⟨res, hres, hiff⟩ := ihl hparts.left (show l.toList.length ≤ fuel by omega)
      refine ⟨res, hres, fun i => (hiff i).trans ?_⟩
      rw [hmem]
      constructor
      · exact fun hi => ⟨.inl hi.1, hi.2⟩
      rintro ⟨hi | rfl | hi, hc⟩
      · exact ⟨hi, hc⟩
      · rw [RtEntry.Contains] at hc
        omega
      have hb := hparts.after i hi
      rw [RtEntry.Before] at hb
      rw [RtEntry.Contains] at hc
      omega
    next hle hge =>
      refine ⟨some a, rfl, fun i => ?_⟩
      rw [hmem]
      constructor
      · rintro hi
        cases hi
        exact ⟨.inr (.inl rfl), by omega, by omega⟩
      rintro ⟨hi | rfl | hi, hc⟩
      · have hb := hparts.before i hi
        rw [RtEntry.Before] at hb
        rw [RtEntry.Contains] at hc
        omega
      · rfl
      have hb := hparts.after i hi
      rw [RtEntry.Before] at hb
      rw [RtEntry.Contains] at hc
      omega

/-! ## Changes -/

structure Relinks (t t' : RtTable) (cells : List ℕ) : Prop where
  same : ∀ b, b ∉ cells → t'.mem b = t.mem b
  stop : ∀ b, (t'.mem b).netStop = (t.mem b).netStop
  start : ∀ b, (t'.mem b).netStart = (t.mem b).netStart
  freelist : t'.freelist = t.freelist
  maxEntry : t'.maxEntry = t.maxEntry

namespace Relinks

variable {cells : List ℕ}

section
variable (h : t.Relinks t' cells)
include h

lemma lowEnd (b : ℕ) : (t'.mem b).lowEnd = (t.mem b).lowEnd := by
  rw [RtEntry.lowEnd, RtEntry.lowEnd, h.start, h.stop]

lemma before (b c : ℕ) : (t'.mem b).Before (t'.mem c) ↔ (t.mem b).Before (t.mem c) := by
  rw [RtEntry.Before, RtEntry.Before, h.stop, h.lowEnd]

lemma valid (b : ℕ) : (t'.mem b).Valid ↔ (t.mem b).Valid := by
  rw [RtEntry.Valid, RtEntry.Valid, h.stop, h.start]

lemma mono {cells' : List ℕ} (hsub : ∀ b ∈ cells, b ∈ cells') : t.Relinks t' cells' :=
  ⟨fun b hb => h.same b fun hb' => hb (hsub b hb'), h.stop, h.start, h.freelist, h.maxEntry⟩

lemma trans {t'' : RtTable} (h' : t'.Relinks t'' cells) : t.Relinks t'' cells :=
  ⟨fun b hb => (h'.same b hb).trans (h.same b hb), fun b => (h'.stop b).trans (h.stop b),
    fun b => (h'.start b).trans (h.start b), h'.freelist.trans h.freelist,
    h'.maxEntry.trans h.maxEntry⟩

end

lemma set (hmem : a ∈ cells) (hstop : e.netStop = (t.mem a).netStop)
    (hstart : e.netStart = (t.mem a).netStart) : t.Relinks (t.set a e) cells := by
  have hne (b) (hb : b ∉ cells) : b ≠ a := fun hba => hb (hba ▸ hmem)
  refine ⟨fun b hb => update_of_ne (hne b hb) _ _, fun b => ?_, fun b => ?_, rfl, rfl⟩
  · rcases eq_or_ne b a with rfl | hba
    · exact (congrArg RtEntry.netStop (update_self _ _ _)).trans hstop
    · exact congrArg RtEntry.netStop (update_of_ne hba _ _)
  rcases eq_or_ne b a with rfl | hba
  · exact (congrArg RtEntry.netStart (update_self _ _ _)).trans hstart
  · exact congrArg RtEntry.netStart (update_of_ne hba _ _)

lemma rep (h : t.Relinks t' cells) (hr : Rep t.left t.right p s)
    (hout : ∀ b ∈ s.toList, b ∉ cells) : Rep t'.left t'.right p s :=
  hr.congr (fun b hb => congrArg RtEntry.left (h.same b (hout b hb)))
    fun b hb => congrArg RtEntry.right (h.same b (hout b hb))

end Relinks

lemma mem_set_self (e : RtEntry) : (t.set a e).mem a = e := by
  simp only [RtTable.set, update_self]

lemma mem_set_of_ne {b : ℕ} (hb : b ≠ a) (e : RtEntry) : (t.set a e).mem b = t.mem b := by
  simp only [RtTable.set, update_of_ne hb]

lemma mem_self {l r : Shape ℕ} : a ∈ (Shape.node a l r).toList := mem_append_right _ mem_cons_self

structure Edits (t t' : RtTable) (a : ℕ) (s s' : Shape ℕ) : Prop where
  relinks : t.Relinks t' s.toList
  rep : Rep t'.left t'.right (some a) s'

section
variable {new c i : ℕ} {l r s' : Shape ℕ}

lemma Edits.inRight (h : t.Edits t' c r s') (hparts : t.Parts a l r) (hc : t.right a = some c) :
    t.Edits t' a (.node a l r) (.node a l s') := by
  have hsame := h.relinks.same a hparts.notRight
  refine ⟨h.relinks.mono fun b hb => mem_append_right _ (mem_cons_of_mem a hb), rfl, ?_, ?_⟩
  · rw [RtTable.left, hsame]
    exact h.relinks.rep hparts.left.rep hparts.apart
  · rw [RtTable.right, hsame, ← RtTable.right, hc]
    exact h.rep

lemma Edits.inLeft (h : t.Edits t' c l s') (hparts : t.Parts a l r) (hc : t.left a = some c) :
    t.Edits t' a (.node a l r) (.node a s' r) := by
  have hsame := h.relinks.same a hparts.notLeft
  refine ⟨h.relinks.mono fun b hb => mem_append_left _ hb, rfl, ?_, ?_⟩
  · rw [RtTable.left, hsame, ← RtTable.left, hc]
    exact h.rep
  · rw [RtTable.right, hsame]
    exact h.relinks.rep hparts.right.rep fun b hb hb' => hparts.apart b hb' hb

lemma rep_set (h : Rep t.left t.right p s) (ha : a ∉ s.toList) (e : RtEntry) :
    Rep (t.set a e).left (t.set a e).right p s := by
  refine h.congr (fun b hb => congrArg RtEntry.left (mem_set_of_ne ?_ e))
    fun b hb => congrArg RtEntry.right (mem_set_of_ne ?_ e)
  all_goals
    rintro rfl
    exact ha hb

lemma rep_single (hne : new ≠ a) (hleft : t.left new = none) (hright : t.right new = none)
    (e : RtEntry) : Rep (t.set a e).left (t.set a e).right (some new) (.node new .leaf .leaf) :=
  ⟨rfl, (congrArg RtEntry.left (mem_set_of_ne hne e)).trans hleft,
    (congrArg RtEntry.right (mem_set_of_ne hne e)).trans hright⟩

/-! ## Inserting -/

structure Placed (t : RtTable) (new : ℕ) (s s' : Shape ℕ) : Prop where
  place : ∃ xs ys, s.toList = xs ++ ys ∧ s'.toList = xs ++ new :: ys ∧
    (∀ b ∈ xs, (t.mem b).Before (t.mem new)) ∧ ∀ b ∈ ys, (t.mem new).Before (t.mem b)

lemma Placed.inRight (h : t.Placed new r s') (hparts : t.Parts a l r)
    (hbefore : (t.mem a).Before (t.mem new)) :
    t.Placed new (.node a l r) (.node a l s') := by
  obtain ⟨xs, ys, hxs, hys, hlt, hgt⟩ := h.place
  refine ⟨l.toList ++ a :: xs, ys, ?_, ?_, ?_, hgt⟩
  · rw [Shape.toList, hxs, append_assoc, cons_append]
  · rw [Shape.toList, hys, append_assoc, cons_append]
  intro b hb
  rcases mem_append.1 hb with hb | hb
  · exact (hparts.before b hb).trans hparts.ranged hbefore
  rcases mem_cons.1 hb with rfl | hb
  · exact hbefore
  · exact hlt b hb

lemma Placed.inLeft (h : t.Placed new l s') (hparts : t.Parts a l r)
    (hafter : (t.mem new).Before (t.mem a)) :
    t.Placed new (.node a l r) (.node a s' r) := by
  obtain ⟨xs, ys, hxs, hys, hlt, hgt⟩ := h.place
  refine ⟨xs, ys ++ a :: r.toList, ?_, ?_, hlt, ?_⟩
  · rw [Shape.toList, hxs, append_assoc]
  · rw [Shape.toList, hys, append_assoc, cons_append]
  intro b hb
  rcases mem_append.1 hb with hb | hb
  · exact hgt b hb
  rcases mem_cons.1 hb with rfl | hb
  · exact hafter
  · exact hafter.trans hparts.ranged (hparts.after b hb)

lemma Placed.single : t.Placed new .leaf (.node new .leaf .leaf) := ⟨[], [], rfl, rfl, nofun, nofun⟩

lemma Edits.newRight (hparts : t.Parts a l .leaf) (hne : new ≠ a)
    (hleft : t.left new = none) (hright : t.right new = none) :
    t.Edits (t.set a { t.mem a with right := some new }) a (.node a l .leaf)
      (.node a l (.node new .leaf .leaf)) := by
  refine ⟨.set mem_self rfl rfl, rfl, ?_, ?_⟩
  · rw [RtTable.left, mem_set_self]
    exact rep_set hparts.left.rep hparts.notLeft _
  · rw [RtTable.right, mem_set_self]
    exact rep_single hne hleft hright _

lemma Edits.newLeft (hparts : t.Parts a .leaf r) (hne : new ≠ a)
    (hleft : t.left new = none) (hright : t.right new = none) :
    t.Edits (t.set a { t.mem a with left := some new }) a (.node a .leaf r)
      (.node a (.node new .leaf .leaf) r) := by
  refine ⟨.set mem_self rfl rfl, rfl, ?_, ?_⟩
  · rw [RtTable.left, mem_set_self]
    exact rep_single hne hleft hright _
  · rw [RtTable.right, mem_set_self]
    exact rep_set hparts.right.rep hparts.notRight _

lemma insertFrom_spec (h : t.Sub (some a) s) (hnew : new ∉ s.toList)
    (hleft : t.left new = none) (hright : t.right new = none) (hranged : (t.mem new).Ranged)
    (hdisjoint : ∀ b ∈ s.toList, (t.mem b).Disjoint (t.mem new))
    (hfuel : s.toList.length ≤ fuel) :
    ∃ t' s', t.insertFrom new fuel a = some t' ∧ t.Edits t' a s s' ∧ t.Placed new s s' := by
  induction s generalizing a fuel with
  | leaf => cases h.rep
  | node b l r ihl ihr =>
    obtain ⟨hab, hparts⟩ := h.parts
    obtain rfl : a = b := Option.some.inj hab
    rw [length_node] at hfuel
    obtain _ | fuel := fuel
    · omega
    have hne : new ≠ a := fun heq => hnew (heq ▸ mem_self)
    have hapart := hdisjoint a mem_self
    have hself := hparts.ranged
    rw [RtEntry.Ranged] at hranged hself
    rw [RtEntry.Disjoint] at hapart
    rw [insertFrom]
    split
    next hgt =>
      have hbefore : (t.mem a).Before (t.mem new) := by
        rw [RtEntry.Before]
        omega
      cases hr : t.right a with
      | none =>
        obtain rfl := Rep.leaf_of_none (hr ▸ hparts.right.rep)
        rw [show (t.mem a).right = none from hr]
        exact ⟨_, _, rfl, .newRight hparts hne hleft hright, Placed.single.inRight hparts hbefore⟩
      | some c =>
        rw [show (t.mem a).right = some c from hr]
        obtain ⟨t', s', hrun, hedits, hplaced⟩ := ihr (hr ▸ hparts.right)
          (fun hmem => hnew (mem_append_right _ (mem_cons_of_mem a hmem)))
          (fun b hb => hdisjoint b (mem_append_right _ (mem_cons_of_mem a hb)))
          (show r.toList.length ≤ fuel by omega)
        exact ⟨t', _, hrun, hedits.inRight hparts hr, hplaced.inRight hparts hbefore⟩
    next hle =>
      have hafter : (t.mem new).Before (t.mem a) := by
        rw [RtEntry.Before]
        omega
      cases hl : t.left a with
      | none =>
        obtain rfl := Rep.leaf_of_none (hl ▸ hparts.left.rep)
        rw [show (t.mem a).left = none from hl]
        exact ⟨_, _, rfl, .newLeft hparts hne hleft hright, Placed.single.inLeft hparts hafter⟩
      | some c =>
        rw [show (t.mem a).left = some c from hl]
        obtain ⟨t', s', hrun, hedits, hplaced⟩ := ihl (hl ▸ hparts.left)
          (fun hmem => hnew (mem_append_left _ hmem))
          (fun b hb => hdisjoint b (mem_append_left _ hb))
          (show l.toList.length ≤ fuel by omega)
        exact ⟨t', _, hrun, hedits.inLeft hparts hl, hplaced.inLeft hparts hafter⟩

/-! ## Deleting -/

lemma prune_spec (hparts : t.Parts i l r) (hfuel : r.toList.length ≤ t.fuel) :
    ∃ pnext t' u, t.prune i = some (pnext, t') ∧ t.Relinks t' r.toList ∧
      Rep t'.left t'.right pnext u ∧ u.toList = l.toList ++ r.toList := by
  rw [prune]
  cases hr : t.right i with
  | none =>
    obtain rfl := Rep.leaf_of_none (hr ▸ hparts.right.rep)
    exact ⟨t.left i, t, l, rfl, ⟨fun _ _ => rfl, fun _ => rfl, fun _ => rfl, rfl, rfl⟩,
      hparts.left.rep, (append_nil _).symm⟩
  | some c =>
    have hnodup : (l.toList ++ r.toList).Nodup :=
      nodup_append.2 ⟨hparts.left.nodup, hparts.right.nodup,
        fun x hx y hy hxy => hparts.apart x hx (hxy ▸ hy)⟩
    obtain ⟨e, he, hend, -, hrep⟩ := Rep.hang (hr ▸ hparts.right.rep) hnodup hparts.left.rep hfuel
    refine ⟨some c, t.set e { t.mem e with left := t.left i }, Shape.hang l r, ?_, .set he rfl rfl,
      ?_, Shape.toList_hang l r⟩
    · change (leftEnd t.left t.fuel c).bind _ = _
      rw [hend]
      rfl
    refine hrep.congr (fun b _ => ?_) fun b _ => ?_
    · rcases eq_or_ne b e with rfl | hbe
      · rw [RtTable.left, mem_set_self, update_self]
      · rw [RtTable.left, mem_set_of_ne hbe, update_of_ne hbe]
        rfl
    rcases eq_or_ne b e with rfl | hbe
    · rw [RtTable.right, mem_set_self]
      rfl
    · rw [RtTable.right, mem_set_of_ne hbe]
      rfl

variable {l₁ r₁ : Shape ℕ}

lemma prune_child (h : t.Sub p (.node i l₁ r₁)) (hfuel : r₁.toList.length ≤ t.fuel) :
    ∃ pnext t' u, t.prune i = some (pnext, t') ∧
      t.Relinks t' (Shape.node i l₁ r₁).toList ∧ Rep t'.left t'.right pnext u ∧
      u.toList = l₁.toList ++ r₁.toList ∧ ∀ b ∈ u.toList, b ∈ (Shape.node i l₁ r₁).toList := by
  obtain ⟨-, hparts⟩ := h.parts
  obtain ⟨pnext, t', u, hprune, hrelinks, hrep, hlist⟩ := prune_spec hparts hfuel
  refine ⟨pnext, t', u, hprune, hrelinks.mono fun b hb => ?_, hrep, hlist, fun b hb => ?_⟩
  · exact mem_append_right _ (mem_cons_of_mem i hb)
  rw [hlist] at hb
  rcases mem_append.1 hb with hb | hb
  · exact mem_append_left _ hb
  · exact mem_append_right _ (mem_cons_of_mem i hb)

lemma unlink_eq {pnext : Option ℕ} (hprune : t.prune i = some (pnext, t'))
    (hsame : t'.mem a = t.mem a) :
    t.unlink a i = some (t'.set a (if (t.mem a).left = some i then { t.mem a with left := pnext }
      else { t.mem a with right := pnext })) := by
  rw [unlink, hprune, ← hsame]
  rfl

lemma unlink_right (hparts : t.Parts a l (.node i l₁ r₁)) (hfuel : r₁.toList.length ≤ t.fuel) :
    ∃ t' u, t.unlink a i = some t' ∧ u.toList = l₁.toList ++ r₁.toList ∧
      t.Edits t' a (.node a l (.node i l₁ r₁)) (.node a l u) := by
  obtain ⟨pnext, t1, u, hprune, hrelinks, hrep, hlist, hu⟩ := prune_child hparts.right hfuel
  have hsame : t1.mem a = t.mem a := hrelinks.same a hparts.notRight
  -- the left child is another entry
  have hleft : (t.mem a).left ≠ some i := by
    intro hli
    have hl := hparts.left.rep
    rw [show t.left a = some i from hli] at hl
    cases l with
    | leaf => cases hl
    | node b _ _ =>
      obtain rfl : i = b := Option.some.inj hl.1
      exact hparts.apart i mem_self mem_self
  refine ⟨t1.set a { t.mem a with right := pnext }, u, ?_, hlist, ?_, rfl, ?_, ?_⟩
  · rw [unlink_eq hprune hsame, if_neg hleft]
  · refine (hrelinks.mono fun b hb => ?_).trans (.set mem_self (by rw [hsame]) (by rw [hsame]))
    exact mem_append_right _ (mem_cons_of_mem a hb)
  · rw [RtTable.left, mem_set_self]
    exact rep_set (hrelinks.rep hparts.left.rep hparts.apart) hparts.notLeft _
  · rw [RtTable.right, mem_set_self]
    exact rep_set hrep (fun ha => hparts.notRight (hu a ha)) _

lemma unlink_left (hparts : t.Parts a (.node i l₁ r₁) r) (hfuel : r₁.toList.length ≤ t.fuel) :
    ∃ t' u, t.unlink a i = some t' ∧ u.toList = l₁.toList ++ r₁.toList ∧
      t.Edits t' a (.node a (.node i l₁ r₁) r) (.node a u r) := by
  obtain ⟨pnext, t1, u, hprune, hrelinks, hrep, hlist, hu⟩ := prune_child hparts.left hfuel
  have hsame : t1.mem a = t.mem a := hrelinks.same a hparts.notLeft
  have hleft : (t.mem a).left = some i := hparts.left.rep.1
  refine ⟨t1.set a { t.mem a with left := pnext }, u, ?_, hlist, ?_, rfl, ?_, ?_⟩
  · rw [unlink_eq hprune hsame, if_pos hleft]
  · refine (hrelinks.mono fun b hb => ?_).trans (.set mem_self (by rw [hsame]) (by rw [hsame]))
    exact mem_append_left _ hb
  · rw [RtTable.left, mem_set_self]
    exact rep_set hrep (fun ha => hparts.notLeft (hu a ha)) _
  rw [RtTable.right, mem_set_self]
  refine rep_set (hrelinks.rep hparts.right.rep fun b hb hb' => ?_) hparts.notRight _
  exact hparts.apart b hb' hb

lemma deleteFrom_snd (prev : Option ℕ) :
    (t.deleteFrom net fuel prev p).map Prod.snd = t.lookupFrom net fuel p := by
  induction fuel generalizing prev p with
  | zero => cases p <;> rfl
  | succ fuel ih =>
    cases p with
    | none => rfl
    | some q =>
      rw [deleteFrom, lookupFrom]
      split
      · exact ih _
      split
      · exact ih _
      · rfl

def Dropped (i : ℕ) (s s' : Shape ℕ) : Prop :=
  ∃ xs ys, s.toList = xs ++ i :: ys ∧ s'.toList = xs ++ ys

lemma Dropped.inRight (h : Dropped i r s') : Dropped i (.node a l r) (.node a l s') := by
  obtain ⟨xs, ys, hxs, hys⟩ := h
  refine ⟨l.toList ++ a :: xs, ys, ?_, ?_⟩
  · rw [Shape.toList, hxs, append_assoc, cons_append]
  · rw [Shape.toList, hys, append_assoc, cons_append]

lemma Dropped.inLeft (h : Dropped i l s') : Dropped i (.node a l r) (.node a s' r) := by
  obtain ⟨xs, ys, hxs, hys⟩ := h
  refine ⟨xs, ys ++ a :: r.toList, ?_, ?_⟩
  · rw [Shape.toList, hxs, append_assoc, cons_append]
  · rw [Shape.toList, hys, append_assoc]

lemma deleteFrom_hit (hc : (t.mem i).Contains net) (hfuel : 0 < fuel) (prev : Option ℕ) :
    t.deleteFrom net fuel prev (some i) = some (prev, some i) := by
  obtain _ | fuel := fuel
  · omega
  rw [RtEntry.Contains] at hc
  rw [deleteFrom, if_neg (by omega), if_neg (by omega)]

lemma deleteFrom_spec (h : t.Sub (some a) s) (hi : i ∈ s.toList)
    (hc : (t.mem i).Contains net) (hne : i ≠ a) (prev : Option ℕ)
    (hfuel : s.toList.length ≤ fuel) (hfuel' : s.toList.length ≤ t.fuel) :
    ∃ q t' s', t.deleteFrom net fuel prev (some a) = some (some q, some i) ∧
      t.unlink q i = some t' ∧ t.Edits t' a s s' ∧ Dropped i s s' := by
  induction s generalizing a fuel prev with
  | leaf => cases h.rep
  | node b l r ihl ihr =>
    obtain ⟨hab, hparts⟩ := h.parts
    obtain rfl : a = b := Option.some.inj hab
    rw [length_node] at hfuel hfuel'
    obtain _ | fuel := fuel
    · omega
    have hself := hparts.ranged
    have hcontains := hc
    rw [RtEntry.Ranged] at hself
    rw [RtEntry.Contains] at hcontains
    rw [deleteFrom]
    rw [Shape.toList, mem_append, mem_cons] at hi
    rcases hi with hi | hi | hi
    · have hbefore := hparts.before i hi
      rw [RtEntry.Before] at hbefore
      rw [if_neg (by omega), if_pos (by omega)]
      cases l with
      | leaf => cases hi
      | node c l1 r1 =>
        have hchild : t.left a = some c := hparts.left.rep.1
        have hsize := length_node (a := c) l1 r1
        rw [hchild]
        rcases eq_or_ne i c with rfl | hic
        · obtain ⟨t', u, hunlink, hlist, hedits⟩ :=
            unlink_left hparts (show r1.toList.length ≤ t.fuel by omega)
          exact ⟨a, t', _, deleteFrom_hit hc (by omega) _, hunlink, hedits,
            Dropped.inLeft ⟨_, _, rfl, hlist⟩⟩
        obtain ⟨q, t', s', hrun, hunlink, hedits, hdrop⟩ := ihl (hchild ▸ hparts.left) hi hic
          (some a) (show _ ≤ fuel by omega) (by omega)
        exact ⟨q, t', _, hrun, hunlink, hedits.inLeft hparts hchild, hdrop.inLeft⟩
    · exact absurd hi hne
    have hafter := hparts.after i hi
    rw [RtEntry.Before] at hafter
    rw [if_pos (by omega)]
    cases r with
    | leaf => cases hi
    | node c l1 r1 =>
      have hchild : t.right a = some c := hparts.right.rep.1
      have hsize := length_node (a := c) l1 r1
      rw [hchild]
      rcases eq_or_ne i c with rfl | hic
      · obtain ⟨t', u, hunlink, hlist, hedits⟩ :=
          unlink_right hparts (show r1.toList.length ≤ t.fuel by omega)
        exact ⟨a, t', _, deleteFrom_hit hc (by omega) _, hunlink, hedits,
          Dropped.inRight ⟨_, _, rfl, hlist⟩⟩
      obtain ⟨q, t', s', hrun, hunlink, hedits, hdrop⟩ := ihr (hchild ▸ hparts.right) hi hic
        (some a) (show _ ≤ fuel by omega) (by omega)
      exact ⟨q, t', _, hrun, hunlink, hedits.inRight hparts hchild, hdrop.inRight⟩

end

lemma Sub.of_same (h : t.Sub p s) (hsame : ∀ b ∈ s.toList, t'.mem b = t.mem b) :
    t'.Sub p s := by
  refine ⟨h.rep.congr (fun b hb => congrArg RtEntry.left (hsame b hb))
    fun b hb => congrArg RtEntry.right (hsame b hb), h.nodup, ?_, fun i hi => ?_⟩
  · refine h.ordered.imp_of_mem fun hb hc hbc => ?_
    rw [hsame _ hb, hsame _ hc]
    exact hbc
  · rw [hsame i hi]
    exact h.ranged i hi

end RtTable

end Rhapsody.Netat
