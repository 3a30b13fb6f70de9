import Rhapsody.Vm.MapSize

/-! The size of every map over runs with forks. `vm_map_fork` builds the new map from the entries
that are inherited; the sizes are right exactly if every entry of the old map was there to be
copied. -/

namespace Rhapsody.Vm
open Rhapsody.Lib List Option

variable {ο σ : Type}

@[simp] lemma mappedSize_nil : mappedSize ([] : List (VmMapEntry ο)) = 0 := rfl

@[simp] lemma mappedSize_cons (e : VmMapEntry ο) (es : List (VmMapEntry ο)) :
    mappedSize (e :: es) = e.vmeEnd - e.vmeStart + mappedSize es := by
  simp [mappedSize]

variable {es fs : List (VmMapEntry ο)}

lemma mappedSize_congr (h : spans es = spans fs) : mappedSize es = mappedSize fs := by
  have hspans : ∀ xs : List (VmMapEntry ο),
      mappedSize xs = ((spans xs).map fun r => r.stop - r.start).sum := by
    intro xs
    rw [spans, List.map_map]
    rfl
  rw [hspans, hspans, h]

lemma mappedSize_sublist (h : List.Sublist es fs) :
    mappedSize es ≤ mappedSize fs := (h.map _).sum_le_sum fun _ _ => Nat.zero_le _

lemma mappedSize_filter_eq_iff {p : VmMapEntry ο → Bool} (h : ∀ e ∈ es, e.vmeStart < e.vmeEnd) :
    mappedSize (es.filter p) = mappedSize es ↔ ∀ e ∈ es, p e = true := by
  induction es with
  | nil => simp
  | cons e es ih =>
    obtain ⟨he, hrest⟩ := forall_mem_cons.1 h
    have hle := mappedSize_sublist (filter_sublist (p := p) (l := es))
    rw [forall_mem_cons, ← ih hrest]
    cases hp : p e with
    | true => simp [hp]
    | false =>
      simp only [filter_cons, hp, mappedSize_cons, Bool.false_eq_true, if_false, false_and,
        iff_false]
      omega

/-! ## Entries by identity -/

variable {e : VmMapEntry ο} {xs ys : List (VmMapEntry ο)} {map : VmMap ο}

lemma cutAt_mid (h : ∀ x ∈ xs, x.id ≠ e.id) : cutAt e.id (xs ++ e :: ys) = some ⟨xs, e :: ys⟩ := by
  induction xs with
  | nil => simp [cutAt]
  | cons x xs ih =>
    obtain ⟨hx, hxs⟩ := forall_mem_cons.1 h
    rw [cons_append, cutAt, if_neg hx, ih hxs]
    rfl

lemma replace_mid {e' : VmMapEntry ο} (hid : e'.id = e.id) (hxs : ∀ x ∈ xs, x.id ≠ e.id)
    (hys : ∀ y ∈ ys, y.id ≠ e.id) :
    ((xs ++ e :: ys).map fun x => if x.id = e'.id then e' else x) = xs ++ e' :: ys := by
  have hsame : ∀ zs : List (VmMapEntry ο), (∀ z ∈ zs, z.id ≠ e.id) →
      (zs.map fun x => if x.id = e'.id then e' else x) = zs := by
    intro zs hzs
    refine (map_congr_left fun z hz => ?_).trans zs.map_id
    rw [hid, if_neg (hzs z hz)]
    rfl
  rw [map_append, map_cons, hsame xs hxs, hsame ys hys, if_pos hid.symm]

lemma VmMap.Wf.ids (h : map.Wf) (hes : map.entries = xs ++ e :: ys) :
    (∀ x ∈ xs, x.id ≠ e.id) ∧ ∀ y ∈ ys, y.id ≠ e.id := by
  have hids := h.shape.ids
  simp only [VmMap.shape, hes, spans, pairwise_map, pairwise_append, pairwise_cons] at hids
  obtain ⟨-, ⟨hys, -⟩, hxs⟩ := hids
  exact ⟨fun x hx => hxs x hx e (mem_cons_self ..), fun y hy => (hys y hy).symm⟩

namespace VmSystem

variable {sys : VmSystem ο σ} {m n : ℕ}
  {e' : VmMapEntry ο}

section
variable (hmap : sys.maps[m]? = some map) (hwf : map.Wf) (hes : map.entries = xs ++ e :: ys)
include hmap hwf hes

lemma entry_mid : sys.entry m e.id = some e := by
  simp [entry, hmap, hes, cutAt_mid (hwf.ids hes).1]

lemma next_mid : sys.next m e.id = some (firstPtr ys) := by
  simp [next, hmap, hes, cutAt_mid (hwf.ids hes).1]

lemma setEntry_mid (hid : e'.id = e.id) : sys.setEntry m e' =
      ⟨sys.maps.set m { map with entries := xs ++ e' :: ys }, sys.world⟩ := by
  obtain ⟨hxs, hys⟩ := hwf.ids hes
  rw [setEntry, modify_eq_set_getElem?, hmap]
  simp [hes, replace_mid hid hxs hys]

end

lemma copyEntries_mid (w : VmLayers ο σ) {map' : VmMap ο} {zs ts : List (VmMapEntry ο)}
    {de : VmMapEntry ο} (hsrc : sys.maps[m]? = some map) (hdst : sys.maps[n]? = some map')
    (hne : m ≠ n) (hwf : map.Wf) (hwf' : map'.Wf) (hes : map.entries = xs ++ e :: ys)
    (hes' : map'.entries = zs ++ de :: ts) (he : e.isAMap = false) (hde : de.isAMap = false) :
    ∃ se' de' s, se'.span = e.span ∧ de'.span = de.span ∧
      sys.copyEntries w m n e.id de.id = some ⟨(sys.maps.set m { map with
        entries := xs ++ se' :: ys }).set n { map' with entries := zs ++ de' :: ts }, s⟩ := by
  obtain ⟨hspan, hspan'⟩ := copyEntry_spans w map map' e de sys.world
  refine ⟨_, _, (vmMapCopyEntry w map map' e de sys.world).2.2, hspan, hspan', ?_⟩
  have hset := setEntry_mid hsrc hwf hes (congrArg Span.id hspan)
  have hdst' : (sys.setEntry m (vmMapCopyEntry w map map' e de sys.world).1).maps[n]? =
      some map' := by
    rw [hset, ← hdst]
    exact getElem?_set_ne hne
  have hset' := setEntry_mid hdst' hwf' hes' (congrArg Span.id hspan')
  rw [hset] at hset'
  simp only [copyEntries, hsrc, hdst, entry_mid hsrc hwf hes, entry_mid hdst hwf' hes', he, hde,
    bind_eq_bind, bind_some, Bool.or_self, Bool.false_eq_true, if_false, hset, hset']
  rfl

/-! ## The loop of the fork -/

def forkMaps (base : List (VmMap ο)) (m : ℕ) (old new : VmMap ο) (shares : List (VmMap ο)) :
    List (VmMap ο) := base.set m old ++ new :: shares

section
variable {base shares : List (VmMap ο)} {old old' new new' : VmMap ο} (hm : m < base.length)

include hm in
lemma forkMaps_old : (forkMaps base m old new shares)[m]? = some old := by
  rw [forkMaps, getElem?_append_left (by simpa using hm), getElem?_set_self hm]

lemma forkMaps_new : (forkMaps base m old new shares)[base.length]? = some new := by
  rw [forkMaps, getElem?_append_right (by simp)]
  simp

include hm in
lemma forkMaps_set_old : (forkMaps base m old new shares).set m old' =
    forkMaps base m old' new shares := by
  rw [forkMaps, set_append_left _ _ (by simpa using hm), set_set]
  rfl

lemma forkMaps_set_new : (forkMaps base m old new shares).set base.length new' =
    forkMaps base m old new' shares := by
  rw [forkMaps, set_append_right _ _ (by simp)]
  simp [forkMaps]

variable {share : VmMap ο}

lemma forkMaps_share : (forkMaps base m old new (shares ++ [share]))[
    base.length + (1 + shares.length)]? = some share := by
  rw [forkMaps, getElem?_append_right (by simp)]
  simp [add_comm 1]

lemma forkMaps_set_share {share' : VmMap ο} :
    (forkMaps base m old new (shares ++ [share])).set (base.length + (1 + shares.length)) share' =
      forkMaps base m old new (shares ++ [share']) := by
  rw [forkMaps, set_append_right _ _ (by simp)]
  simp [forkMaps, add_comm 1]

lemma forkMaps_length : (forkMaps base m old new shares).length =
    base.length + (1 + shares.length) := by
  simp [forkMaps, add_comm]

end

def ranges (es : List (VmMapEntry ο)) : List (ℕ × ℕ) := es.map fun e => (e.vmeStart, e.vmeEnd)

lemma mappedSize_ranges (h : ranges es = ranges fs) : mappedSize es = mappedSize fs := by
  have hranges : ∀ xs : List (VmMapEntry ο),
      mappedSize xs = ((ranges xs).map fun r => r.2 - r.1).sum := by
    intro xs
    rw [ranges, List.map_map]
    rfl
  rw [hranges, hranges, h]

def Plain (es : List (VmMapEntry ο)) : Prop := ∀ e ∈ es, e.isAMap = false ∧ e.isSubMap = false

instance (es : List (VmMapEntry ο)) : Decidable (Plain es) :=
  inferInstanceAs (Decidable (∀ e ∈ es, _))

structure Forking (oldMap : VmMap ο) (done rest : List (VmMapEntry ο)) (old new : VmMap ο)
    (shares : List (VmMap ο)) : Prop where
  oldWf : old.Wf
  oldSize : old.size = oldMap.size
  oldEntries : ∃ done', old.entries = done' ++ rest ∧ spans done' = spans done
  newWf : new.Wf
  newBounds : new.minOffset = old.minOffset ∧ new.maxOffset = old.maxOffset
  newRanges : ranges new.entries = ranges (done.filter fun e => e.inheritance ≠ .none)
  shareSizes : shares.map (fun map => (map.size, mappedSize map.entries)) =
    (done.filter fun e => e.inheritance = .share).map fun e => (0, e.vmeEnd - e.vmeStart)

variable {f : VmMapEntry ο}

namespace Forking

variable {shares : List (VmMap ο)} {oldMap old new : VmMap ο} {done rest : List (VmMapEntry ο)}

lemma link (h : Forking oldMap done (e :: rest) old new shares) (hid : f.id = new.created)
    (hstart : f.vmeStart = e.vmeStart) (hend : f.vmeEnd = e.vmeEnd) :
    { new.create with entries := new.entries ++ [f] }.Wf := by
  obtain ⟨done', hes, hdone⟩ := h.oldEntries
  have hwithin := h.oldWf.within (by simp [hes] : e ∈ old.entries)
  refine h.newWf.insertEntry (by simp) hid ?_ ?_ ?_ ?_ (by simp) (.inl rfl) (.inl rfl)
  · rw [h.newBounds.1, hstart]
    exact hwithin.1
  · rw [hstart, hend]
    exact hwithin.2.1
  · rw [h.newBounds.2, hend]
    exact hwithin.2.2
  intro g hg
  have hrange : (g.vmeStart, g.vmeEnd) ∈ ranges new.entries := mem_map_of_mem hg
  rw [h.newRanges] at hrange
  obtain ⟨d, hd, hdg⟩ := mem_map.1 hrange
  have hspan : d.span ∈ spans done' := hdone ▸ mem_map_of_mem (mem_of_mem_filter hd)
  obtain ⟨d', hd', hspan⟩ := mem_map.1 hspan
  have hbefore := (h.oldWf.sides hes).1 d' hd'
  have hdend : d'.vmeEnd = d.vmeEnd := congrArg Span.stop hspan
  have hgend : d.vmeEnd = g.vmeEnd := congrArg Prod.snd hdg
  omega

lemma passed (h : Forking oldMap done (e :: rest) old new shares) {done' : List (VmMapEntry ο)}
    (hes : old.entries = done' ++ e :: rest) (hdone : spans done' = spans done)
    (hspan : e'.span = e.span) {new' : VmMap ο} {shares' : List (VmMap ο)} (hnew : new'.Wf)
    (hbounds : new'.minOffset = new.minOffset ∧ new'.maxOffset = new.maxOffset)
    (hranges : ranges new'.entries = ranges ((done ++ [e]).filter fun e => e.inheritance ≠ .none))
    (hshares : shares'.map (fun map => (map.size, mappedSize map.entries)) =
      ((done ++ [e]).filter fun e => e.inheritance = .share).map
        fun e => (0, e.vmeEnd - e.vmeStart)) :
    Forking oldMap (done ++ [e]) rest { old with entries := done' ++ e' :: rest } new' shares' := by
  have hold : spans (done' ++ e' :: rest) = spans old.entries := by simp [hes, hspan]
  exact ⟨h.oldWf.congr hold, h.oldSize, ⟨done' ++ [e'], by simp, by simp [hdone, hspan]⟩, hnew,
    ⟨hbounds.1.trans h.newBounds.1, hbounds.2.trans h.newBounds.2⟩, hranges, hshares⟩

end Forking

lemma ranges_link {new : VmMap ο} {done : List (VmMapEntry ο)}
    (h : ranges new.entries = ranges (done.filter fun e => e.inheritance ≠ .none))
    (hinherit : e.inheritance ≠ .none) (hspan : f.vmeStart = e.vmeStart ∧ f.vmeEnd = e.vmeEnd) :
    ranges (new.entries ++ [f]) = ranges ((done ++ [e]).filter fun e => e.inheritance ≠ .none) := by
  simp only [ranges, filter_append, map_append] at h ⊢
  rw [h]
  simp [hinherit, hspan]

section
variable {base shares : List (VmMap ο)} {oldMap old new : VmMap ο}
  {done rest : List (VmMapEntry ο)} (w : VmLayers ο σ) (p : ShareMaps ο) {s : σ}

lemma linkLast_fork (f : VmMapEntry ο) :
    linkLast base.length f ⟨forkMaps base m old new shares, s⟩ = some (new.created,
      ⟨forkMaps base m old { new.create with entries := new.entries ++ [{ f with
        id := new.created }] } shares, s⟩) := by
  simp [linkLast, onMap, forkMaps_new, forkMaps_set_new]

variable (hm : m < base.length) (h : Forking oldMap done (e :: rest) old new shares)
  (hmap : e.isAMap = false)
include hm h hmap

lemma forkShare_step (hshare : e.inheritance = .share) :
    ∃ old' new' shares' s', forkShare w p m base.length e ⟨forkMaps base m old new shares, s⟩ =
      some ⟨forkMaps base m old' new' shares', s'⟩ ∧
      Forking oldMap (done ++ [e]) rest old' new' shares' := by
  obtain ⟨done', hes, hdone⟩ := h.oldEntries
  let k := base.length + (1 + shares.length)
  let e' := { e with isAMap := true, object := some (p.ofMap k), offset := e.vmeStart }
  let old' := { old with entries := done' ++ e' :: rest }
  let f := { e' with id := new.created }
  let new' := { new.create with entries := new.entries ++ [f] }
  let share := { newShareMap e with refCount := 2 }
  have hspan : e'.span = e.span := rfl
  have hnew' : new'.Wf := h.link (f := f) rfl rfl rfl
  have happend : forkMaps base m old new shares ++ [newShareMap e] =
      forkMaps base m old new (shares ++ [newShareMap e]) := by simp [forkMaps]
  have hmake : makeShareMap p m e (⟨forkMaps base m old new shares, s⟩ : VmSystem ο σ) =
      (e', ⟨forkMaps base m old' new (shares ++ [newShareMap e]), s⟩) := by
    unfold makeShareMap
    simp only [hmap, Bool.false_eq_true, if_false, forkMaps_length, happend]
    rw [setEntry_mid (forkMaps_old hm) h.oldWf hes (show e'.id = e.id from rfl),
      forkMaps_set_old hm]
  have hreference : referenceShareMap p e'
      (⟨forkMaps base m old' new' (shares ++ [newShareMap e]), s⟩ : VmSystem ο σ) =
        some ⟨forkMaps base m old' new' (shares ++ [share]), s⟩ := by
    simp only [referenceShareMap, e', k, p.toMap_ofMap, onMap, forkMaps_share, forkMaps_set_share,
      bind_eq_bind, bind_some]
    rfl
  refine ⟨old', new', shares ++ [share],
    w.call (.pmapCopy new'.pmap old'.pmap e'.vmeStart e'.size e'.vmeStart) s, ?_,
    h.passed hes hdone hspan hnew' ⟨rfl, rfl⟩
      (ranges_link h.newRanges (by simp [hshare]) ⟨rfl, rfl⟩) ?_⟩
  · simp only [forkShare, hmake, linkLast_fork, bind_eq_bind, bind_some]
    simp only [f, new'] at hreference
    simp only [hreference, forkMaps_old hm, forkMaps_new, bind_some]
    rfl
  · simp only [map_append, h.shareSizes, filter_append]
    simp [hshare, share, newShareMap, vmMapCreate, VmMap.create]

lemma forkCopy_step [DecidableEq ο] (mem : VmMapEntry ο) (hcopy : e.inheritance = .copy) :
    ∃ old' new' shares' s', forkCopy w p mem m base.length e ⟨forkMaps base m old new shares, s⟩ =
      some ⟨forkMaps base m old' new' shares', s'⟩ ∧
      Forking oldMap (done ++ [e]) rest old' new' shares' := by
  obtain ⟨done', hes, hdone⟩ := h.oldEntries
  let f : VmMapEntry ο :=
    { e with wiredCount := 0, object := none, isAMap := false, id := new.created }
  let new1 : VmMap ο := { new.create with entries := new.entries ++ [f] }
  have hnew1 : new1.Wf := h.link rfl rfl rfl
  let sys1 : VmSystem ο σ := ⟨forkMaps base m old new1 shares, s⟩
  obtain ⟨se', de', s', hse, hde, hentries⟩ := copyEntries_mid w
    (show sys1.maps[m]? = some old from forkMaps_old hm) forkMaps_new hm.ne h.oldWf hnew1 hes
    (show new1.entries = new.entries ++ f :: [] from rfl) hmap rfl
  rw [forkMaps_set_old hm, forkMaps_set_new] at hentries
  have hnew2 : { new1 with entries := new.entries ++ [de'] }.Wf := hnew1.congr (by simp [new1, hde])
  refine ⟨_, _, shares, s', ?_, h.passed hes hdone hse hnew2 ⟨rfl, rfl⟩
    (ranges_link h.newRanges (by simp [hcopy]) ?_) ?_⟩
  · simp only [forkCopy, linkLast_fork, hmap, bind_eq_bind, bind_some,
      Bool.false_eq_true, if_false]
    exact hentries
  · exact ⟨congrArg Span.start hde, congrArg Span.stop hde⟩
  · rw [h.shareSizes]
    simp [hcopy]

lemma forkEntry_step [DecidableEq ο] (mem : VmMapEntry ο) (hsub : e.isSubMap = false) :
    ∃ old' new' shares' s', forkEntry w p mem m base.length e.id
        ⟨forkMaps base m old new shares, s⟩ = some ⟨forkMaps base m old' new' shares', s'⟩ ∧
      Forking oldMap (done ++ [e]) rest old' new' shares' := by
  obtain ⟨done', hes, hdone⟩ := h.oldEntries
  have hentry : entry (⟨forkMaps base m old new shares, s⟩ : VmSystem ο σ) m e.id = some e :=
    entry_mid (forkMaps_old hm) h.oldWf hes
  simp only [forkEntry, hentry, hsub, bind_eq_bind, bind_some, Bool.false_eq_true,
    if_false]
  cases hinherit : e.inheritance with
  | share => exact forkShare_step w p hm h hmap hinherit
  | copy => exact forkCopy_step w p hm h hmap mem hinherit
  | none =>
    refine ⟨old, new, shares, s, rfl, h.oldWf, h.oldSize, ⟨done' ++ [e], by simp [hes],
      by simp [hdone]⟩, h.newWf, h.newBounds, ?_, ?_⟩
    · rw [h.newRanges]
      simp [hinherit]
    · rw [h.shareSizes]
      simp [hinherit]

omit h hmap

lemma forkLoop_spec [DecidableEq ο] (mem : VmMapEntry ο) (hrest : Plain rest)
    (h : Forking oldMap done rest old new shares) :
    ∃ old' new' shares' s', forkLoop w p mem m base.length rest.length (firstPtr rest)
        ⟨forkMaps base m old new shares, s⟩ = some ⟨forkMaps base m old' new' shares', s'⟩ ∧
      Forking oldMap (done ++ rest) [] old' new' shares' := by
  induction rest generalizing done old new shares s with
  | nil => exact ⟨old, new, shares, s, rfl, by rwa [append_nil]⟩
  | cons e rest ih =>
    obtain ⟨⟨hmap, hsub⟩, hrest⟩ := forall_mem_cons.1 hrest
    obtain ⟨old1, new1, shares1, s1, hentry, h1⟩ := forkEntry_step w p hm h hmap mem hsub (s := s)
    obtain ⟨old2, new2, shares2, s2, hloop, h2⟩ := ih hrest h1 (s := s1)
    refine ⟨old2, new2, shares2, s2, ?_, by simpa using h2⟩
    have hnext : next (⟨forkMaps base m old1 new1 shares1, s1⟩ : VmSystem ο σ) m e.id =
        some (firstPtr rest) := by
      -- the entry just passed is still in front of the rest
      obtain ⟨done', hes, hdone⟩ := h1.oldEntries
      rw [spans_append] at hdone
      obtain ⟨xs, ys, rfl, -, hys⟩ := map_eq_append_iff.1 hdone
      obtain ⟨e', rfl, hspan⟩ := map_eq_singleton_iff.1 hys
      rw [append_assoc] at hes
      rw [← show e'.id = e.id from congrArg Span.id hspan]
      exact next_mid (forkMaps_old hm) h1.oldWf hes
    simp only [firstPtr, head?_cons, map_some, length_cons, forkLoop, hentry,
      hnext, bind_eq_bind, bind_some]
    exact hloop

end

lemma fork_spec [DecidableEq ο] (w : VmLayers ο σ) (p : ShareMaps ο) (mem : VmMapEntry ο)
    (newPmap : ℕ) {oldMap : VmMap ο} (hmap : sys.maps[m]? = some oldMap) (hwf : oldMap.Wf)
    (hes : Plain oldMap.entries) :
    ∃ old new shares s, sys.vmMapFork w p mem newPmap m =
        some ⟨forkMaps sys.maps m old { new with size := oldMap.size } shares, s⟩ ∧
      Forking oldMap oldMap.entries [] old new shares := by
  obtain ⟨hm, hget⟩ := List.getElem?_eq_some_iff.1 hmap
  have hnew : (vmMapCreate ο newPmap oldMap.minOffset oldMap.maxOffset).Wf :=
    create_wf hwf.bounds.1 hwf.bounds.2
  have hstart : Forking oldMap [] oldMap.entries oldMap
      (vmMapCreate ο newPmap oldMap.minOffset oldMap.maxOffset) [] :=
    ⟨hwf, rfl, ⟨[], rfl, rfl⟩, hnew, ⟨rfl, rfl⟩, rfl, rfl⟩
  obtain ⟨old', new', shares', s', hloop, h⟩ := forkLoop_spec w p hm mem hes hstart (s := sys.world)
  have hmaps : forkMaps sys.maps m oldMap
      (vmMapCreate ο newPmap oldMap.minOffset oldMap.maxOffset) [] =
        sys.maps ++ [vmMapCreate ο newPmap oldMap.minOffset oldMap.maxOffset] := by
    rw [forkMaps, ← hget, set_getElem_self]
  rw [hmaps] at hloop
  refine ⟨old', new', shares', s', ?_, h⟩
  simp only [vmMapFork, hmap, hloop, forkMaps_old hm, bind_eq_bind, bind_some]
  rw [modify_eq_set_getElem?, forkMaps_new, ← h.oldSize]
  simp [forkMaps_set_new]

end VmSystem

/-! ## Runs -/

/-- The size is what the entries span, and deleting them one after the other cannot take more off
it. -/
structure VmMap.SizeOk (map : VmMap ο) : Prop where
  sum : map.size = mappedSize map.entries
  noWrap : ∀ es, List.Sublist es map.entries → (es.map VmMapEntry.size).sum ≤ map.size

lemma VmMap.Wf.sizeOk (h : map.Wf) (hsum : map.size = mappedSize map.entries) : map.SizeOk := by
  refine ⟨hsum, fun es hes => ?_⟩
  have hsize : es.map VmMapEntry.size = es.map fun e => e.vmeEnd - e.vmeStart := by
    refine map_congr_left fun e he => ?_
    have hwithin := h.within (hes.subset he)
    have hbounds := h.bounds.2
    exact sub32_of_le hwithin.2.1.le (by omega)
  rw [hsize, hsum]
  exact mappedSize_sublist hes

namespace VmSystem

variable {sys sys' : VmSystem ο σ} {m : ℕ} {oldMap old new : VmMap ο} {shares : List (VmMap ο)}

lemma Forking.sum_iff (h : Forking oldMap oldMap.entries [] old new shares) (hwf : oldMap.Wf)
    (hsum : oldMap.size = mappedSize oldMap.entries) :
    (oldMap.size = mappedSize new.entries ∧ ∀ map ∈ shares, map.size = mappedSize map.entries) ↔
      ∀ e ∈ oldMap.entries, e.inheritance = .copy := by
  have hnonempty : ∀ e ∈ oldMap.entries, e.vmeStart < e.vmeEnd := fun e he => (hwf.within he).2.1
  have hnew : oldMap.size = mappedSize new.entries ↔
      ∀ e ∈ oldMap.entries, e.inheritance ≠ .none := by
    rw [mappedSize_ranges h.newRanges, hsum, eq_comm, mappedSize_filter_eq_iff hnonempty]
    simp
  have hshares : (∀ map ∈ shares, map.size = mappedSize map.entries) ↔
      ∀ e ∈ oldMap.entries, e.inheritance ≠ .share := by
    have hpairs : (∀ map ∈ shares, map.size = mappedSize map.entries) ↔
        ∀ r ∈ shares.map fun map => (map.size, mappedSize map.entries), r.1 = r.2 := by simp
    rw [hpairs, h.shareSizes, List.forall_mem_map]
    simp only [mem_filter, decide_eq_true_eq, and_imp]
    refine forall₂_congr fun e he => forall_congr' fun hshare => ?_
    have hlt := hnonempty e he
    simp only [iff_false]
    omega
  rw [hnew, hshares]
  constructor
  · rintro ⟨hnone, hshare⟩ e he
    cases hinherit : e.inheritance with
    | share => exact absurd hinherit (hshare e he)
    | copy => rfl
    | none => exact absurd hinherit (hnone e he)
  · intro hcopy
    exact ⟨fun e he => by simp [hcopy e he], fun e he => by simp [hcopy e he]⟩

lemma mem_forkMaps {base : List (VmMap ο)} (hmap : map ∈ forkMaps base m old new shares) :
    map ∈ base ∨ map = old ∨ map = new ∨ map ∈ shares := by
  rcases mem_append.1 hmap with hmap | hmap
  · rcases mem_or_eq_of_mem_set hmap with hmap | hmap
    · exact .inl hmap
    · exact .inr (.inl hmap)
  rcases mem_cons.1 hmap with hmap | hmap
  · exact .inr (.inr (.inl hmap))
  · exact .inr (.inr (.inr hmap))

lemma fork_sizeOk_iff [DecidableEq ο] (w : VmLayers ο σ) (p : ShareMaps ο) (mem : VmMapEntry ο)
    (newPmap : ℕ) (hok : sys.Ok) (hsize : ∀ map ∈ sys.maps, map.SizeOk)
    (hmap : sys.maps[m]? = some oldMap) (hes : Plain oldMap.entries) :
    ∃ sys', sys.vmMapFork w p mem newPmap m = some sys' ∧
      ((∀ map ∈ sys'.maps, map.SizeOk) ↔ ∀ e ∈ oldMap.entries, e.inheritance = .copy) ∧
      ((∀ e ∈ oldMap.entries, e.inheritance = .copy) → sys'.Ok) := by
  have hmem := mem_of_getElem? hmap
  have hsum := (hsize oldMap hmem).sum
  obtain ⟨old, new, shares, s, hfork, h⟩ := fork_spec w p mem newPmap hmap (hok oldMap hmem) hes
  have hiff := h.sum_iff (hok oldMap hmem) hsum
  have hnew : { new with size := oldMap.size }.Wf :=
    ⟨h.newWf.shape, h.newWf.bounds, h.newWf.isMainMap⟩
  have hshares : (∀ e ∈ oldMap.entries, e.inheritance = .copy) → shares = [] := by
    intro hcopy
    have hlength := congrArg List.length h.shareSizes
    have hnone : (oldMap.entries.filter fun e => e.inheritance = .share) = [] :=
      filter_eq_nil_iff.2 fun e he => by simp [hcopy e he]
    rw [hnone] at hlength
    exact length_eq_zero_iff.1 (by simpa using hlength)
  refine ⟨_, hfork, ⟨fun hall => hiff.1 ⟨?_, fun map hmap => ?_⟩, fun hcopy map hmap => ?_⟩,
    fun hcopy map hmap => ?_⟩
  · refine (hall { new with size := oldMap.size } ?_).sum
    exact mem_append_right _ (mem_cons_self ..)
  · exact (hall map (mem_append_right _ (mem_cons_of_mem _ hmap))).sum
  · rcases mem_forkMaps hmap with hmap | rfl | rfl | hmap
    · exact hsize map hmap
    · refine h.oldWf.sizeOk ?_
      obtain ⟨done, hes, hdone⟩ := h.oldEntries
      rw [h.oldSize, hsum, hes, append_nil, mappedSize_congr hdone]
    · exact hnew.sizeOk (hiff.2 hcopy).1
    · rw [hshares hcopy] at hmap
      exact absurd hmap not_mem_nil
  rcases mem_forkMaps hmap with hmap | rfl | rfl | hmap
  · exact hok map hmap
  · exact h.oldWf
  · exact hnew
  · rw [hshares hcopy] at hmap
    exact absurd hmap not_mem_nil

end VmSystem

/-- Runs from no maps at all. No entry has size zero, and a map is forked only if its entries are
inherited as copies. -/
inductive VmForkRun [DecidableEq ο] (w : VmLayers ο σ) (p : ShareMaps ο) :
    VmSystem ο σ → Prop where
  | start (s : σ) : VmForkRun w p ⟨[], s⟩
  | step {sys sys' : VmSystem ο σ} {e : VmMapEvent ο} : VmForkRun w p sys →
    (∀ m mem object, e ≠ .findEntry m mem 0 object) → sys.step w e = some sys' →
    VmForkRun w p sys'
  | fork {sys sys' : VmSystem ο σ} {oldMap : VmMap ο} (mem : VmMapEntry ο) (newPmap m : ℕ) :
    VmForkRun w p sys → sys.maps[m]? = some oldMap → VmSystem.Plain oldMap.entries →
    (∀ e ∈ oldMap.entries, e.inheritance = .copy) →
    sys.vmMapFork w p mem newPmap m = some sys' → VmForkRun w p sys'

lemma VmForkRun.ok [DecidableEq ο] {w : VmLayers ο σ} {p : ShareMaps ο} {sys : VmSystem ο σ}
    (hrun : VmForkRun w p sys) : sys.Ok ∧ ∀ map ∈ sys.maps, map.SizeOk := by
  induction hrun with
  | start s => exact ⟨fun map hmap => absurd hmap not_mem_nil,
      fun map hmap => absurd hmap not_mem_nil⟩
  | @step sys sys' e _ hsize hstep ih =>
    obtain ⟨hok, hsizes⟩ := ih
    have hcount : sys.AllCount := fun map hmap =>
      (hok map hmap).counts_of_size (hsizes map hmap).sum
    have hok' := VmSystem.step_ok w hok hsize hstep
    have hcount' := hcount.step hok hstep
    refine ⟨hok', fun map hmap => ?_⟩
    exact (hok' map hmap).sizeOk ((hcount' map hmap).size_eq (hok' map hmap))
  | fork mem newPmap m _ hmap hplain hcopy hfork ih =>
    obtain ⟨sys1, hfork1, hiff, hok1⟩ :=
      VmSystem.fork_sizeOk_iff w p mem newPmap ih.1 ih.2 hmap hplain
    obtain rfl := some.inj (hfork1.symm.trans hfork)
    exact ⟨hok1 hcopy, hiff.2 hcopy⟩

/-- In every run whose forks find only entries to be copied, the size of a map is the sum over its
entries; from there a fork keeps it so exactly if it finds nothing else. -/
theorem vmForkRun_size [DecidableEq ο] {w : VmLayers ο σ} {p : ShareMaps ο} {sys : VmSystem ο σ}
    (hrun : VmForkRun w p sys) :
    (∀ map ∈ sys.maps, map.SizeOk) ∧
      ∀ m oldMap mem newPmap, sys.maps[m]? = some oldMap → VmSystem.Plain oldMap.entries →
        ∃ sys', sys.vmMapFork w p mem newPmap m = some sys' ∧
          ((∀ map ∈ sys'.maps, map.SizeOk) ↔ ∀ e ∈ oldMap.entries, e.inheritance = .copy) := by
  refine ⟨hrun.ok.2, fun m oldMap mem newPmap hmap hplain => ?_⟩
  obtain ⟨sys', hfork, hiff, -⟩ :=
    VmSystem.fork_sizeOk_iff w p mem newPmap hrun.ok.1 hrun.ok.2 hmap hplain
  exact ⟨sys', hfork, hiff⟩

def numberLayers : VmLayers ℕ Unit where
  call _ s := s
  kernelObject := 0
  objectAllocate _ s := (0, s)
  objectCoalesce _ _ _ _ s := (true, s)
  objectShadow object offset _ s := ((object, offset), s)
  objectCopy object offset _ s := ((object, offset, true), s)
  faultWire _ _ _ s := (false, s)

def numberMaps : ShareMaps ℕ where
  ofMap m := m
  toMap m := some m
  toMap_ofMap _ := rfl

def freshEntry : VmMapEntry ℕ := { clearEntry with object := none }

/-- One map of one page, which is to be inherited as `newInheritance` says. -/
def onePage (newInheritance : UInt32) : Option (VmSystem ℕ Unit) :=
  [VmMapEvent.create 0 0x1000 0x3000, .insert 0 freshEntry none 0 0x1000 0x2000,
    .inherit 0 0x1000 0x2000 newInheritance].foldlM (VmSystem.step numberLayers) ⟨[], ()⟩

/-- Of three pages with an object two stay, in two entries. -/
def twoPages : List (VmMapEvent ℕ) :=
  [.create 0 0x1000 0x8000, .insert 0 freshEntry (some 5) 0 0x1000 0x4000,
    .protect 0 0x2000 0x3000 vmProtRead false, .delete 0 0x3000 0x4000,
    .inherit 0 0x1000 0x3000 1]

/-- Copied pages are accounted for in both maps. -/
theorem vmForkRun_size_twoPages : ∃ sys sys',
      twoPages.foldlM (VmSystem.step numberLayers) ⟨[], ()⟩ = some sys ∧
      sys.vmMapFork numberLayers numberMaps freshEntry 1 0 = some sys' ∧
      sys'.maps.map (fun map => (map.nentries, map.size)) = [(2, 0x2000), (2, 0x2000)] ∧
      ∀ map ∈ sys'.maps, map.SizeOk := by
  have hrun : (twoPages.foldlM (VmSystem.step numberLayers) ⟨[], ()⟩).any (fun sys =>
      sys.maps[0]?.any (fun map => VmSystem.Plain map.entries ∧
        ∀ e ∈ map.entries, e.inheritance = .copy) ∧
      (sys.vmMapFork numberLayers numberMaps freshEntry 1 0).any fun sys' =>
        sys'.maps.map (fun map => (map.nentries, map.size)) = [(2, 0x2000), (2, 0x2000)]) =
      true := by
    decide +kernel
  obtain ⟨sys, hsys, hrun⟩ := (Option.any_eq_true _ _).1 hrun
  obtain ⟨hmap, hfork⟩ := of_decide_eq_true hrun
  obtain ⟨map, hmap, hcopy⟩ := (Option.any_eq_true _ _).1 hmap
  obtain ⟨hplain, hcopy⟩ := of_decide_eq_true hcopy
  obtain ⟨sys', hfork, hsizes⟩ := (Option.any_eq_true _ _).1 hfork
  refine ⟨sys, sys', hsys, hfork, of_decide_eq_true hsizes, ?_⟩
  have hsize : ∀ e ∈ twoPages, ∀ m mem object, e ≠ VmMapEvent.findEntry m mem 0 object := by
    simp [twoPages]
  have hsteps : VmForkRun numberLayers numberMaps sys :=
    run_of_foldlM VmForkRun.step (.start ()) hsize hsys
  exact (vmForkRun_size (hsteps.fork freshEntry 1 0 hmap hplain hcopy hfork)).1

/-- A page that is not inherited is counted in the new map. A page shared for the first time is not
counted in its sharing map, whose size wraps around when it is deleted. -/
theorem fork_size_differs :
    (((onePage 2).bind (VmSystem.vmMapFork numberLayers numberMaps freshEntry 1 0)).map
      fun sys => sys.maps.map fun map => (map.size, mappedSize map.entries)) =
        some [(0x1000, 0x1000), (0x1000, 0)] ∧
    (((onePage 0).bind (VmSystem.vmMapFork numberLayers numberMaps freshEntry 1 0)).map
      fun sys => sys.maps.map fun map => (map.size, mappedSize map.entries)) =
        some [(0x1000, 0x1000), (0x1000, 0x1000), (0, 0x1000)] ∧
    ((((onePage 0).bind (VmSystem.vmMapFork numberLayers numberMaps freshEntry 1 0)).bind
      fun sys => sys.step numberLayers (.delete 2 0x1000 0x2000)).map
        fun sys => sys.maps.map VmMap.size) = some [0x1000, 0x1000, 0xfffff000] := by
  decide +kernel

end Rhapsody.Vm
