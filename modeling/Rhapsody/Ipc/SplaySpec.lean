import Rhapsody.Ipc.Splay

/-! The splay-tree operations on the entry list they denote: each one cuts the
list at the name and rearranges the two parts. -/

namespace Rhapsody.Ipc
open Rhapsody.Lib IpcSplayTree List Function

variable {α : Type*} {t small : IpcSplayTree α} {name : MachPort}

namespace Pieces

/-- The pieces cut the entries at the middle root: what stands before it is below `name`, what
stands after it above. -/
structure Cut (p : Pieces α) (name : MachPort) (l : NameTree MachPort α) (n : MachPort) (e : α)
    (r : NameTree MachPort α) : Prop where
  tree : p.tree = .node l n e r
  entries : p.entries = lspineList p.ltree ++ l.toList ++ (n, e) :: (r.toList ++ rspineList p.rtree)
  below : ∀ a ∈ lspineList p.ltree ++ l.toList, a.1 < name
  above : ∀ a ∈ r.toList ++ rspineList p.rtree, name < a.1
  lnull : name < n → l = .null
  rnull : n < name → r = .null

variable {p : Pieces α} {l r : NameTree MachPort α} {n : MachPort} {e : α}

lemma Around.cut (h : p.Around name) : ∃ l n e r, p.Cut name l n e r := by
  obtain ⟨l, n, e, r, htree, hl, hr⟩ := h.root
  have hentries : p.entries =
      lspineList p.ltree ++ l.toList ++ (n, e) :: (r.toList ++ rspineList p.rtree) := by
    simp [entries, htree]
  have hord := h.ordered
  rw [hentries] at hord
  obtain ⟨-, hright, hleft⟩ := ordered_append.1 hord
  refine ⟨l, n, e, r, htree, hentries, fun a ha => ?_, fun a ha => ?_, hl, hr⟩
  · obtain hn | hn := lt_or_ge name n
    · rw [hl hn, NameTree.toList_null, append_nil] at ha
      exact h.left a ha
    · exact (hleft a ha (n, e) (mem_cons_self ..)).trans_le hn
  obtain hn | hn := lt_or_ge n name
  · rw [hr hn, NameTree.toList_null, nil_append] at ha
    exact h.right a ha
  · exact hn.trans_lt ((ordered_cons.1 hright).1 a ha)

lemma Cut.largest (h : p.Cut machPortLargest l n e r) : r.toList ++ rspineList p.rtree = [] :=
  eq_nil_iff_forall_not_mem.2 fun a ha =>
    absurd (h.above a ha) (le_machPortLargest _).not_gt

lemma Cut.smallest (h : p.Cut machPortSmallest l n e r) : lspineList p.ltree ++ l.toList = [] :=
  eq_nil_iff_forall_not_mem.2 fun a ha =>
    absurd (h.below a ha) (machPortSmallest_le _).not_gt

lemma Cut.assemble (h : p.Cut name l n e r) :
    ipcSplayPrimAssemble p = .node (plugLeft p.ltree l) n e (plugRight p.rtree r) := by
  simp [ipcSplayPrimAssemble, h.tree]

lemma Cut.find_entries (h : p.Cut name l n e r) :
    find p.entries name = if name = n then some e else none := by
  rw [h.entries, find_append, find_cons, find_eq_none_of_lt h.below, find_eq_none_of_gt h.above,
    Option.none_or]

end Pieces

lemma seek_cut (h : t.WellFormed) {l₀ r₀ : NameTree MachPort α} {n₀ : MachPort} {e₀ : α}
    (hroot : t.istRoot = .node l₀ n₀ e₀ r₀) (name : MachPort) :
    (t.seek name).Around name ∧ (t.seek name).entries = t.entries ∧
      ∃ l n e r, (t.seek name).Cut name l n e r := by
  obtain ⟨haround, hentries⟩ := seek_spec h (by simp [hroot]) name
  exact ⟨haround, hentries, haround.cut⟩

lemma lookup_spec (h : t.WellFormed) (name : MachPort) :
    (ipcSplayTreeLookup t name).1 = find t.entries name ∧
      (ipcSplayTreeLookup t name).2.entries = t.entries ∧
      (ipcSplayTreeLookup t name).2.WellFormed := by
  cases hroot : t.istRoot with
  | null =>
    have hlookup : ipcSplayTreeLookup t name = (none, t) := by simp [ipcSplayTreeLookup, hroot]
    rw [hlookup]
    exact ⟨by rw [entries_of_null hroot, find_nil], rfl, h⟩
  | node l0 n0 e0 r0 =>
    obtain ⟨haround, hentries, l, n, e, r, hcut⟩ := seek_cut h hroot name
    have hlookup : ipcSplayTreeLookup t name = (if name ≠ n then none else some e,
          ⟨name, (t.seek name).tree, (t.seek name).ltree, (t.seek name).rtree⟩) := by
      simp [ipcSplayTreeLookup, hroot, hcut.tree]
    rw [hlookup]
    refine ⟨?_, (entries_of_around haround).trans hentries, wellFormed_of_around haround⟩
    rw [← hentries, hcut.find_entries, ite_not]

lemma insert_shape (h : t.WellFormed) (habsent : find t.entries name = none) (entry : α) :
    ∃ l r xs ys, ipcSplayTreeInsert t name entry = ofRoot name (.node l name entry r) ∧
      (NameTree.node l name entry r).toList = xs ++ (name, entry) :: ys ∧
      t.entries = xs ++ ys ∧ (∀ a ∈ xs, a.1 < name) ∧ (∀ a ∈ ys, name < a.1) := by
  cases hroot : t.istRoot with
  | null =>
    refine ⟨.null, .null, [], [], ?_, by simp, entries_of_null hroot, by simp, by simp⟩
    simp [ipcSplayTreeInsert, hroot]
  | node l0 n0 e0 r0 =>
    obtain ⟨haround, hentries, l, n, e, r, hcut⟩ := seek_cut h hroot name
    have hne : name ≠ n := by
      rintro rfl
      rw [← hentries, hcut.find_entries, if_pos rfl] at habsent
      exact Option.some_ne_none _ habsent
    obtain hlt | hgt := hne.lt_or_gt
    · refine ⟨plugLeft (t.seek name).ltree .null, plugRight (t.seek name).rtree (.node l n e r),
        lspineList (t.seek name).ltree, (n, e) :: (r.toList ++ rspineList (t.seek name).rtree),
        ?_, by simp [hcut.lnull hlt], ?_, haround.left, ?_⟩
      · simp [ipcSplayTreeInsert, hroot, hcut.tree, hlt]
      · rw [← hentries, hcut.entries, hcut.lnull hlt, NameTree.toList_null, append_nil]
      · exact forall_mem_cons.2 ⟨hlt, hcut.above⟩
    refine ⟨plugLeft (t.seek name).ltree (.node l n e r), plugRight (t.seek name).rtree .null,
      lspineList (t.seek name).ltree ++ l.toList ++ [(n, e)], rspineList (t.seek name).rtree,
      ?_, by simp [hcut.rnull hgt], ?_, ?_, haround.right⟩
    · simp [ipcSplayTreeInsert, hroot, hcut.tree, hgt.not_gt]
    · rw [← hentries, hcut.entries, hcut.rnull hgt]
      simp
    · exact forall_mem_append.2 ⟨hcut.below, by simpa using hgt⟩

lemma insert_spec (h : t.WellFormed) (habsent : find t.entries name = none) (entry : α) :
    (ipcSplayTreeInsert t name entry).WellFormed ∧ find (ipcSplayTreeInsert t name entry).entries =
        update (find t.entries) name (some entry) := by
  obtain ⟨l, r, xs, ys, hinsert, htree, hcat, hx, hy⟩ := insert_shape h habsent entry
  have hord : Ordered (xs ++ ys) := hcat ▸ h.ordered
  rw [hinsert]
  constructor
  · refine ofRoot_wellFormed ?_
    rw [htree]
    exact hord.insert hx hy entry
  · funext k
    rw [ofRoot_entries, htree, find_mid hx, hcat, update_apply]

lemma splayLargest_toList {root saved : NameTree MachPort α} (hroot : root ≠ .null)
    (hord : Ordered root.toList) :
    (splayLargest root saved).toList = root.toList ++ saved.toList := by
  have haround : (ipcSplayPrimLookup machPortLargest root [] []).Around machPortLargest :=
    primLookup_around _ hroot (by simpa using hord) (by simp) (by simp)
  have hentries := primLookup_entries machPortLargest root [] []
  obtain ⟨l, n, e, r, hcut⟩ := haround.cut
  rw [hcut.entries, hcut.largest] at hentries
  simp only [lspineList_nil, rspineList_nil, nil_append, append_nil] at hentries
  rw [← hentries]
  simp [splayLargest, hcut.assemble]

lemma delete_shape (h : t.WellFormed) (hpresent : find t.entries name ≠ none) :
    ∃ xs e ys, t.entries = xs ++ (name, e) :: ys ∧ (∀ a ∈ xs, a.1 < name) ∧ (∀ a ∈ ys, name < a.1) ∧
      ∃ root, ipcSplayTreeDelete t name = ofAssembled t.istName root ∧ root.toList = xs ++ ys := by
  cases hroot : t.istRoot with
  | null => exact absurd (by rw [entries_of_null hroot, find_nil]) hpresent
  | node l0 n0 e0 r0 =>
    obtain ⟨haround, hentries, l, n, e, r, hcut⟩ := seek_cut h hroot name
    have hn : name = n := by
      by_contra hne
      rw [← hentries, hcut.find_entries, if_neg hne] at hpresent
      exact hpresent rfl
    subst hn
    have hord := haround.ordered
    rw [hcut.entries] at hord
    refine ⟨_, e, _, hentries.symm.trans hcut.entries, hcut.below, hcut.above, _, rfl, ?_⟩
    simp only [hcut.tree, NameTree.lchild_node, NameTree.rchild_node]
    have hleft := toList_plugLeft (t.seek name).ltree l
    have hright := toList_plugRight (t.seek name).rtree r
    rw [← hleft, ← hright]
    split_ifs with hl hr
    · rw [NameTree.isNull_iff.1 hl, NameTree.toList_null, nil_append]
    · rw [NameTree.isNull_iff.1 hr, NameTree.toList_null, append_nil]
    refine splayLargest_toList (by simpa using hl) ?_
    rw [hleft]
    exact (ordered_append.1 hord).1

lemma delete_spec (h : t.WellFormed) (hpresent : find t.entries name ≠ none) :
    (ipcSplayTreeDelete t name).WellFormed ∧
      find (ipcSplayTreeDelete t name).entries = update (find t.entries) name none := by
  obtain ⟨xs, e, ys, hcat, hx, hy, root, hdelete, hroot⟩ := delete_shape h hpresent
  have hord : Ordered (xs ++ (name, e) :: ys) := hcat ▸ h.ordered
  rw [hdelete]
  constructor
  · exact ofAssembled_wellFormed (hroot ▸ hord.erase)
  funext k
  rw [ofAssembled_entries, hroot, hcat, update_apply, find_mid hx]
  split_ifs with hk
  · rw [hk, find_append, find_eq_none_of_lt hx, find_eq_none_of_gt hy, Option.none_or]
  · rfl

lemma init_wellFormed : (ipcSplayTreeInit : IpcSplayTree α).WellFormed := fun h => absurd rfl h

lemma init_entries : (ipcSplayTreeInit : IpcSplayTree α).entries = [] := rfl

lemma split_shape (h : t.WellFormed) (name : MachPort) :
    (ipcSplayTreeSplit t name).1.WellFormed ∧ (ipcSplayTreeSplit t name).2.WellFormed ∧
      t.entries = (ipcSplayTreeSplit t name).2.entries ++ (ipcSplayTreeSplit t name).1.entries ∧
      (∀ a ∈ (ipcSplayTreeSplit t name).2.entries, a.1 < name) ∧
      (∀ a ∈ (ipcSplayTreeSplit t name).1.entries, name ≤ a.1) := by
  cases hroot : t.istRoot with
  | null =>
    have hsplit : ipcSplayTreeSplit t name = (t, ipcSplayTreeInit) := by
      simp [ipcSplayTreeSplit, hroot]
    rw [hsplit]
    refine ⟨h, init_wellFormed, by simp [init_entries], by simp [init_entries], ?_⟩
    simp [entries_of_null hroot]
  | node l0 n0 e0 r0 =>
    obtain ⟨haround, hentries, l, n, e, r, hcut⟩ := seek_cut h hroot name
    have hord := haround.ordered
    rw [hcut.entries] at hord
    rw [hcut.entries] at hentries
    by_cases hn : n < name
    · have hsplit : ipcSplayTreeSplit t name =
          (ofAssembled t.istName (plugRight (t.seek name).rtree .null),
            ofRoot n (.node (plugLeft (t.seek name).ltree l) n e r)) := by
        simp [ipcSplayTreeSplit, hroot, hcut.tree, hn]
      have hnull := hcut.rnull hn
      subst hnull
      have hcat : Ordered ((lspineList (t.seek name).ltree ++ l.toList ++ [(n, e)]) ++
          rspineList (t.seek name).rtree) := by simpa using hord
      obtain ⟨hol, hor, -⟩ := ordered_append.1 hcat
      rw [hsplit, ofAssembled_entries, ofRoot_entries, ← hentries]
      refine ⟨ofAssembled_wellFormed ?_, ofRoot_wellFormed ?_, by simp, ?_, ?_⟩
      · simpa using hor
      · simpa using hol
      · simpa [or_imp, forall_and, hn] using hcut.below
      · simpa using fun a b hab => (haround.right (a, b) hab).le
    have hsplit : ipcSplayTreeSplit t name = (⟨name, .node .null n e r, [], (t.seek name).rtree⟩,
          ofAssembled 0 (plugLeft (t.seek name).ltree l)) := by
      simp [ipcSplayTreeSplit, hroot, hcut.tree, hn]
    obtain ⟨hol, hor, -⟩ := ordered_append.1 hord
    have haround' : (⟨.node .null n e r, [], (t.seek name).rtree⟩ : Pieces α).Around name :=
      ⟨by simpa [Pieces.entries] using hor, by simp, haround.right,
        .null, n, e, r, rfl, fun _ => rfl, hcut.rnull⟩
    rw [hsplit, ofAssembled_entries, entries_of_around haround', ← hentries]
    refine ⟨wellFormed_of_around haround', ofAssembled_wellFormed (by simpa using hol), ?_, ?_, ?_⟩
    · simp [Pieces.entries]
    · simpa using hcut.below
    intro a ha
    have ha' : a ∈ (n, e) :: (r.toList ++ rspineList (t.seek name).rtree) := by
      simpa [Pieces.entries] using ha
    obtain rfl | ha' := mem_cons.1 ha'
    · exact not_lt.1 hn
    · exact (hcut.above a ha').le

lemma split_spec (h : t.WellFormed) (name : MachPort) : find (ipcSplayTreeSplit t name).1.entries =
        (fun k => if name ≤ k then find t.entries k else none) ∧
      find (ipcSplayTreeSplit t name).2.entries =
        (fun k => if k < name then find t.entries k else none) := by
  obtain ⟨-, -, hcat, hsmall, hbig⟩ := split_shape h name
  constructor <;> funext k <;> rw [hcat, find_append] <;> split_ifs with hk
  · rw [find_eq_none_of_lt fun a ha => (hsmall a ha).trans_le hk, Option.none_or]
  · exact find_eq_none_of_gt fun a ha => (not_le.1 hk).trans_le (hbig a ha)
  · rw [find_eq_none_of_gt fun a ha => hk.trans_le (hbig a ha), Option.or_none]
  · exact find_eq_none_of_lt fun a ha => (hsmall a ha).trans_le (not_lt.1 hk)

lemma join_shape (h : t.WellFormed) (hs : small.WellFormed)
    (hbelow : ∀ a ∈ small.entries, ∀ b ∈ t.entries, a.1 < b.1) :
    (ipcSplayTreeJoin t small).1.WellFormed ∧
      (ipcSplayTreeJoin t small).1.entries = small.entries ++ t.entries ∧
      (ipcSplayTreeJoin t small).2.WellFormed ∧ (ipcSplayTreeJoin t small).2.entries = [] := by
  have hord : Ordered (small.entries ++ t.entries) :=
    ordered_append.2 ⟨hs.ordered, h.ordered, hbelow⟩
  cases hsmall : ipcSplayPrimAssemble small.pieces with
  | null =>
    have hjoin : ipcSplayTreeJoin t small = (t, small) := by simp [ipcSplayTreeJoin, hsmall]
    have hnil : small.entries = [] := by simp [entries, hsmall]
    rw [hjoin, hnil]
    exact ⟨h, rfl, hs, rfl⟩
  | node sl sn se sr =>
    have hsentries : small.entries = (NameTree.node sl sn se sr).toList := by rw [entries, hsmall]
    have hempty : ({ small with istRoot := .null } : IpcSplayTree α).WellFormed ∧
        ({ small with istRoot := .null } : IpcSplayTree α).entries = [] :=
      ⟨fun hne => absurd rfl hne, entries_of_null rfl⟩
    rw [hsentries] at hord ⊢
    cases hroot : t.istRoot with
    | null =>
      have hjoin : ipcSplayTreeJoin t small =
          (ofRoot sn (.node sl sn se sr), { small with istRoot := .null }) := by
        simp [ipcSplayTreeJoin, hsmall, hroot]
      rw [hjoin, ofRoot_entries, entries_of_null hroot, append_nil]
      exact ⟨ofRoot_wellFormed (hsentries ▸ hs.ordered), rfl, hempty⟩
    | node l0 n0 e0 r0 =>
      obtain ⟨-, hentries, l, n, e, r, hcut⟩ := seek_cut h hroot machPortSmallest
      have hjoin : ipcSplayTreeJoin t small =
          (ofRoot n (.node (.node sl sn se sr) n e (plugRight (t.seek machPortSmallest).rtree r)),
            { small with istRoot := .null }) := by
        simp [ipcSplayTreeJoin, hsmall, hroot, hcut.assemble]
      rw [hcut.entries, hcut.smallest, nil_append] at hentries
      have htree : (NameTree.node (.node sl sn se sr) n e
          (plugRight (t.seek machPortSmallest).rtree r)).toList =
          (NameTree.node sl sn se sr).toList ++ t.entries := by
        rw [← hentries, NameTree.toList_node, toList_plugRight]
      rw [hjoin, ofRoot_entries, htree]
      exact ⟨ofRoot_wellFormed (htree ▸ hord), rfl, hempty⟩

lemma join_spec (h : t.WellFormed) (hs : small.WellFormed)
    (hbelow : ∀ j k, find small.entries j ≠ none → find t.entries k ≠ none → j < k) :
    (ipcSplayTreeJoin t small).1.WellFormed ∧ (ipcSplayTreeJoin t small).2.WellFormed ∧
      find (ipcSplayTreeJoin t small).1.entries =
        (fun k => (find small.entries k).or (find t.entries k)) ∧
      find (ipcSplayTreeJoin t small).2.entries = (fun _ => none) := by
  have hlists : ∀ a ∈ small.entries, ∀ b ∈ t.entries, a.1 < b.1 := fun a ha b hb =>
    hbelow a.1 b.1 (fun hn => find_eq_none_iff.1 hn a ha rfl)
      (fun hn => find_eq_none_iff.1 hn b hb rfl)
  obtain ⟨hwf, hcat, hwf', hnil⟩ := join_shape h hs hlists
  refine ⟨hwf, hwf', ?_, ?_⟩
  · funext k
    rw [hcat, find_append]
  · funext k
    rw [hnil, find_nil]

/-! ## Bounds -/

/-- The tight bounds of `name` in a map, with the sentinels `~0` and `0` where there is none. -/
structure TightBounds (m : MachPort → Option α) (name lower upper : MachPort) : Prop where
  lower : IsGreatest {k | m k ≠ none ∧ k ≤ name} lower ∨
    (∀ k, m k ≠ none → ¬k ≤ name) ∧ lower = machPortLargest
  upper : IsLeast {k | m k ≠ none ∧ name ≤ k} upper ∨
    (∀ k, m k ≠ none → ¬name ≤ k) ∧ upper = machPortSmallest

variable {k : MachPort}

lemma find_ne_none_iff {xs : List (MachPort × α)} : find xs k ≠ none ↔ ∃ a ∈ xs, a.1 = k := by
  simp [find_eq_none_iff]

section
variable {xs ys : List (MachPort × α)} {a : MachPort × α} (hord : Ordered (xs ++ a :: ys))
include hord

lemma isGreatest_find (ha : a.1 ≤ name) (hys : ∀ b ∈ ys, name < b.1) :
    IsGreatest {k | find (xs ++ a :: ys) k ≠ none ∧ k ≤ name} a.1 := by
  refine ⟨⟨find_ne_none_iff.2 ⟨a, by simp, rfl⟩, ha⟩, ?_⟩
  rintro k ⟨hk, hle⟩
  obtain ⟨b, hb, rfl⟩ := find_ne_none_iff.1 hk
  obtain hb | hb := mem_append.1 hb
  · exact ((ordered_append.1 hord).2.2 b hb a (mem_cons_self ..)).le
  obtain rfl | hb := mem_cons.1 hb
  · exact le_rfl
  · exact absurd (hys b hb) hle.not_gt

lemma isLeast_find (ha : name ≤ a.1) (hxs : ∀ b ∈ xs, b.1 < name) :
    IsLeast {k | find (xs ++ a :: ys) k ≠ none ∧ name ≤ k} a.1 := by
  refine ⟨⟨find_ne_none_iff.2 ⟨a, by simp, rfl⟩, ha⟩, ?_⟩
  rintro k ⟨hk, hle⟩
  obtain ⟨b, hb, rfl⟩ := find_ne_none_iff.1 hk
  obtain hb | hb := mem_append.1 hb
  · exact absurd (hxs b hb) hle.not_gt
  obtain rfl | hb := mem_cons.1 hb
  · exact le_rfl
  · exact ((ordered_cons.1 (ordered_append.1 hord).2.1).1 b hb).le

end

lemma bounds_spec (h : t.WellFormed) (name : MachPort) :
    TightBounds (find t.entries) name (ipcSplayTreeBounds t name).1.1
        (ipcSplayTreeBounds t name).1.2 ∧
      (ipcSplayTreeBounds t name).2.entries = t.entries ∧
      (ipcSplayTreeBounds t name).2.WellFormed := by
  cases hroot : t.istRoot with
  | null =>
    have hbounds : ipcSplayTreeBounds t name = ((machPortLargest, machPortSmallest), t) := by
      simp [ipcSplayTreeBounds, hroot]
    rw [hbounds, entries_of_null hroot]
    exact ⟨⟨.inr ⟨by simp, rfl⟩, .inr ⟨by simp, rfl⟩⟩, rfl, h⟩
  | node l0 n0 e0 r0 =>
    obtain ⟨haround, hentries, l, n, e, r, hcut⟩ := seek_cut h hroot name
    simp only [ipcSplayTreeBounds, hroot, hcut.tree]
    rw [← hcut.tree, ← hentries]
    have hord := haround.ordered
    refine ⟨⟨?_, ?_⟩, entries_of_around haround, wellFormed_of_around haround⟩
    · split_ifs with hn
      · rw [hcut.entries] at hord ⊢
        exact .inl (isGreatest_find hord hn hcut.above)
      have hlt := not_le.1 hn
      have hright : ∀ a ∈ (n, e) :: (r.toList ++ rspineList (t.seek name).rtree), name < a.1 :=
        forall_mem_cons.2 ⟨hlt, hcut.above⟩
      rw [hcut.entries, hcut.lnull hlt, NameTree.toList_null, append_nil] at hord ⊢
      cases hltree : (t.seek name).ltree with
      | nil =>
        refine .inr ⟨fun k hk hle => ?_, rfl⟩
        obtain ⟨a, ha, rfl⟩ := find_ne_none_iff.1 hk
        exact absurd (hright a ha) hle.not_gt
      | cons x s =>
        have hx := haround.left (x.name, x.entry) (by simp [hltree])
        rw [hltree, lspineList_cons, append_assoc] at hord
        rw [lspineList_cons, append_assoc]
        exact .inl (isGreatest_find hord hx.le hright)
    split_ifs with hn
    · rw [hcut.entries] at hord ⊢
      exact .inl (isLeast_find hord hn hcut.below)
    have hlt := not_le.1 hn
    have hleft : ∀ a ∈ lspineList (t.seek name).ltree ++ l.toList ++ [(n, e)], a.1 < name :=
      forall_mem_append.2 ⟨hcut.below, forall_mem_singleton.2 hlt⟩
    rw [hcut.entries, hcut.rnull hlt, NameTree.toList_null, nil_append, append_cons] at hord ⊢
    cases hrtree : (t.seek name).rtree with
    | nil =>
      refine .inr ⟨fun k hk hle => ?_, rfl⟩
      obtain ⟨a, ha, rfl⟩ := find_ne_none_iff.1 hk
      rw [rspineList_nil, append_nil] at ha
      exact absurd (hleft a ha) hle.not_gt
    | cons x s =>
      have hx := haround.right (x.name, x.entry) (by simp [hrtree])
      rw [hrtree, rspineList_cons, cons_append] at hord
      rw [rspineList_cons, cons_append]
      exact .inl (isLeast_find hord hx.le hleft)

/-! ## Runs -/

/-- The trees of a run, each with the map the operations so far describe. A split leaves two trees,
a join consumes two. -/
inductive SplayRun : IpcSplayTree α → (MachPort → Option α) → Prop
  | init : SplayRun ipcSplayTreeInit (fun _ => none)
  | insert {t m} (name : MachPort) (entry : α) : SplayRun t m → m name = none →
      SplayRun (ipcSplayTreeInsert t name entry) (update m name (some entry))
  | lookup {t m} (name : MachPort) : SplayRun t m → SplayRun (ipcSplayTreeLookup t name).2 m
  | delete {t m} (name : MachPort) : SplayRun t m → m name ≠ none →
      SplayRun (ipcSplayTreeDelete t name) (update m name none)
  | split {t m} (name : MachPort) : SplayRun t m →
      SplayRun (ipcSplayTreeSplit t name).1 (fun k => if name ≤ k then m k else none)
  | splitSmall {t m} (name : MachPort) : SplayRun t m →
      SplayRun (ipcSplayTreeSplit t name).2 (fun k => if k < name then m k else none)
  | join {t small m ms} : SplayRun t m → SplayRun small ms →
      (∀ j k, ms j ≠ none → m k ≠ none → j < k) →
      SplayRun (ipcSplayTreeJoin t small).1 (fun k => (ms k).or (m k))
  | joinSmall {t small m ms} : SplayRun t m → SplayRun small ms →
      (∀ j k, ms j ≠ none → m k ≠ none → j < k) →
      SplayRun (ipcSplayTreeJoin t small).2 (fun _ => none)
  | bounds {t m} (name : MachPort) : SplayRun t m → SplayRun (ipcSplayTreeBounds t name).2 m

lemma SplayRun.sound {m : MachPort → Option α} (h : SplayRun t m) :
    t.WellFormed ∧ find t.entries = m := by
  induction h with
  | init => exact ⟨init_wellFormed, rfl⟩
  | insert name entry _ habsent ih =>
    obtain ⟨hwf, rfl⟩ := ih
    exact insert_spec hwf habsent entry
  | lookup name _ ih =>
    obtain ⟨-, hentries, hwf⟩ := lookup_spec ih.1 name
    exact ⟨hwf, by rw [hentries, ih.2]⟩
  | delete name _ hpresent ih =>
    obtain ⟨hwf, rfl⟩ := ih
    exact delete_spec hwf hpresent
  | split name _ ih =>
    obtain ⟨hwf, rfl⟩ := ih
    exact ⟨(split_shape hwf name).1, (split_spec hwf name).1⟩
  | splitSmall name _ ih =>
    obtain ⟨hwf, rfl⟩ := ih
    exact ⟨(split_shape hwf name).2.1, (split_spec hwf name).2⟩
  | join _ _ hbelow ih ihs =>
    obtain ⟨hwf, rfl⟩ := ih
    obtain ⟨hwfs, rfl⟩ := ihs
    obtain ⟨hjoin, -, hfind, -⟩ := join_spec hwf hwfs hbelow
    exact ⟨hjoin, hfind⟩
  | joinSmall _ _ hbelow ih ihs =>
    obtain ⟨hwf, rfl⟩ := ih
    obtain ⟨hwfs, rfl⟩ := ihs
    obtain ⟨-, hsmall, -, hfind⟩ := join_spec hwf hwfs hbelow
    exact ⟨hsmall, hfind⟩
  | bounds name _ ih =>
    obtain ⟨-, hentries, hwf⟩ := bounds_spec ih.1 name
    exact ⟨hwf, by rw [hentries, ih.2]⟩

/-- A splay tree in any run is a search tree of the entries of its map, and every operation answers
as the map does. -/
theorem splayRun_refines {m : MachPort → Option α} (h : SplayRun t m) :
    (ipcSplayPrimAssemble t.pieces).IsSearch ∧
    find (ipcSplayPrimAssemble t.pieces).toList = m ∧
    (∀ name, (ipcSplayTreeLookup t name).1 = m name) ∧
    (∀ name, find (ipcSplayTreeSplit t name).2.entries = (fun k => if k < name then m k else none) ∧
      find (ipcSplayTreeSplit t name).1.entries = fun k => if name ≤ k then m k else none) ∧
    (∀ small ms, SplayRun small ms → (∀ j k, ms j ≠ none → m k ≠ none → j < k) →
      find (ipcSplayTreeJoin t small).1.entries = (fun k => (ms k).or (m k)) ∧
        find (ipcSplayTreeJoin t small).2.entries = fun _ => none) ∧
    (∀ name, TightBounds m name (ipcSplayTreeBounds t name).1.1
      (ipcSplayTreeBounds t name).1.2) := by
  obtain ⟨hwf, rfl⟩ := h.sound
  refine ⟨NameTree.isSearch_iff.2 hwf.ordered, rfl, fun name => (lookup_spec hwf name).1,
    fun name => (split_spec hwf name).symm, fun small ms hs hbelow => ?_,
    fun name => (bounds_spec hwf name).1⟩
  obtain ⟨hwfs, rfl⟩ := hs.sound
  obtain ⟨-, -, hfind, hnil⟩ := join_spec hwf hwfs hbelow
  exact ⟨hfind, hnil⟩

/-- Four names are inserted in order, which makes a spine; a lookup of the lowest turns it round,
and one name is deleted. -/
def rotatedTree : IpcSplayTree Char :=
  let t := ipcSplayTreeInsert (ipcSplayTreeInsert ipcSplayTreeInit 1 'a') 3 'b'
  let t := ipcSplayTreeInsert (ipcSplayTreeInsert t 5 'c') 7 'd'
  ipcSplayTreeDelete (ipcSplayTreeLookup t 1).2 5

def rotatedMap : MachPort → Option Char :=
  let m := update (update (fun _ => none) 1 (some 'a')) 3 (some 'b')
  update (update (update m 5 (some 'c')) 7 (some 'd')) 5 none

lemma rotatedTree_run : SplayRun rotatedTree rotatedMap := by
  have hfour := ((((SplayRun.init.insert 1 'a' rfl).insert 3 'b' (by decide)).insert 5 'c'
    (by decide)).insert 7 'd' (by decide))
  exact (hfour.lookup 1).delete 5 (by decide)

theorem splayRun_refines_rotated :
    let parts := ipcSplayTreeSplit rotatedTree 3
    ipcSplayPrimAssemble rotatedTree.pieces =
        .node (.node .null 1 'a' .null) 3 'b' (.node .null 7 'd' .null) ∧
      (ipcSplayPrimAssemble rotatedTree.pieces).IsSearch ∧
      (ipcSplayTreeLookup rotatedTree 7).1 = some 'd' ∧
      find parts.2.entries 1 = some 'a' ∧ find parts.2.entries 3 = none ∧
      find parts.1.entries 3 = some 'b' ∧
      find (ipcSplayTreeJoin parts.1 parts.2).1.entries 1 = some 'a' ∧
      find (ipcSplayTreeJoin parts.1 parts.2).1.entries 7 = some 'd' ∧
      TightBounds rotatedMap 4 3 7 := by
  obtain ⟨hsearch, -, hlookup, hsplit, -, hbounds⟩ := splayRun_refines rotatedTree_run
  obtain ⟨hsmall, hlarge⟩ := hsplit 3
  have hbelow : ∀ j k, (if j < 3 then rotatedMap j else none) ≠ none →
      (if 3 ≤ k then rotatedMap k else none) ≠ none → j < k := by
    intro j k hj hk
    by_contra hle
    by_cases h3 : j < 3
    · exact hk (if_neg fun h => hle (lt_of_lt_of_le h3 h))
    · exact hj (if_neg h3)
  obtain ⟨-, -, -, -, hjoin, -⟩ := splayRun_refines (rotatedTree_run.split 3)
  have hjoined := (hjoin _ _ (rotatedTree_run.splitSmall 3) hbelow).1
  have hfour : (ipcSplayTreeBounds rotatedTree 4).1 = (3, 7) := by decide
  have htight := hbounds 4
  rw [hfour] at htight
  refine ⟨by decide, hsearch, hlookup 7, ?_, ?_, ?_, ?_, ?_, htight⟩
  · exact congrFun hsmall 1
  · exact congrFun hsmall 3
  · exact congrFun hlarge 3
  · exact congrFun hjoined 1
  · exact congrFun hjoined 7

end Rhapsody.Ipc
