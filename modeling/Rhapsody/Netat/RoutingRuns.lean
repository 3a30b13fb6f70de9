import Rhapsody.Netat.RoutingTree
import Rhapsody.Netat.Rtmp

/-! The routing table over whole runs. All entries stand in one list in the order of
their nets; an insert that fits between two of them keeps the list in order. -/

namespace Rhapsody.Netat

open PointerTree List

namespace RtTable

inductive Linked (t : RtTable) : ℕ → Prop where
  | start : Linked t 0
  | left {a b : ℕ} (ha : Linked t a) (hb : t.left a = some b) : Linked t b
  | right {a b : ℕ} (ha : Linked t a) (hb : t.right a = some b) : Linked t b

def Apart (t : RtTable) (e : RtEntry) : Prop :=
  ∀ i, t.Linked i → i ≠ 0 → (t.mem i).Disjoint e

structure Wf (t : RtTable) (r : Shape ℕ) (free : List ℕ) : Prop where
  rep : Rep t.left t.right (some 0) (.node 0 .leaf r)
  stop : (t.mem 0).netStop = 0
  start : (t.mem 0).netStart = 0
  ordered : r.toList.Pairwise fun i j => (t.mem i).Before (t.mem j)
  valid : ∀ i ∈ r.toList, (t.mem i).Valid
  threaded : Threaded t.right t.freelist free
  clean : ∀ i ∈ free, t.left i = none
  slots : (r.toList ++ free).Perm (List.range' 1 t.maxEntry)

variable {t t' : RtTable} {r : Shape ℕ} {free : List ℕ} {i net : ℕ} {e : RtEntry}

namespace Wf

lemma nodup (h : t.Wf r free) : (r.toList ++ free).Nodup := h.slots.nodup_iff.2 (nodup_range')

lemma zero_notMem (h : t.Wf r free) : 0 ∉ r.toList ++ free := by
  rw [h.slots.mem_iff, mem_range']
  rintro ⟨k, -, hk⟩
  omega

lemma sub (h : t.Wf r free) : t.Sub (some 0) (.node 0 .leaf r) := by
  have hlow : (t.mem 0).lowEnd = 0 := by rw [RtEntry.lowEnd, h.start, h.stop]; rfl
  refine ⟨h.rep, ?_, ?_, ?_⟩
  · exact nodup_cons.2 ⟨fun h0 => h.zero_notMem (mem_append_left _ h0), (nodup_append.1 h.nodup).1⟩
  · refine pairwise_cons.2 ⟨fun i hi => ?_, h.ordered⟩
    have hpos := (h.valid i hi).lowEnd_pos
    rw [RtEntry.Before, h.stop]
    exact hpos
  refine forall_mem_cons.2 ⟨?_, fun i hi => (h.valid i hi).ranged⟩
  rw [RtEntry.Ranged, hlow]
  exact Nat.zero_le _

lemma length_le (h : t.Wf r free) : (Shape.node 0 .leaf r).toList.length ≤ t.fuel := by
  have hlen := h.slots.length_eq
  rw [length_append, length_range'] at hlen
  change r.toList.length + 1 ≤ t.maxEntry + 1
  omega

lemma mem_node : i ∈ (Shape.node 0 .leaf r).toList ↔ i = 0 ∨ i ∈ r.toList := by
  rw [Shape.toList, mem_append, mem_cons]
  exact ⟨fun hi => hi.resolve_left not_mem_nil, .inr⟩

lemma notMem_free (h : t.Wf r free) (hi : i ∈ free) : i ∉ (Shape.node 0 .leaf r).toList := by
  intro hr
  rcases mem_node.1 hr with rfl | hr
  · exact h.zero_notMem (mem_append_right _ hi)
  · exact (nodup_append.1 h.nodup).2.2 i hr i hi rfl

lemma linked_iff (h : t.Wf r free) : t.Linked i ↔ i = 0 ∨ i ∈ r.toList := by
  rw [← mem_node]
  constructor
  · intro hi
    induction hi with
    | start => exact mem_self
    | left _ hb ih => exact h.rep.child_mem ih (.inl hb)
    | right _ hb ih => exact h.rep.child_mem ih (.inr hb)
  refine h.rep.reach (fun a ha => ?_) (fun _ _ => .left) (fun _ _ => .right) i
  cases ha
  exact .start

lemma disjoint_of_apart (h : t.Wf r free) (he : t.Apart e) (hi : i ∈ r.toList) :
    (t.mem i).Disjoint e := by
  refine he i (h.linked_iff.2 (.inr hi)) ?_
  rintro rfl
  exact h.zero_notMem (mem_append_left _ hi)

lemma lookup (h : t.Wf r free) (net : ℕ) : ∃ res, t.rtBlookup net = some res ∧
    ∀ i, res = some i ↔ (i = 0 ∨ i ∈ r.toList) ∧ (t.mem i).Contains net := by
  obtain ⟨res, hres, hiff⟩ : ∃ res, t.lookupFrom net t.fuel (some 0) = some res ∧ _ :=
    lookupFrom_spec h.sub h.length_le
  refine ⟨res, hres, fun i => (hiff i).trans ?_⟩
  rw [mem_node]

lemma set (h : t.Wf r free) (hleft : e.left = t.left i) (hright : e.right = t.right i)
    (hstop : e.netStop = (t.mem i).netStop) (hstart : e.netStart = (t.mem i).netStart) :
    (t.set i e).Wf r free := by
  have hset : t.Relinks (t.set i e) [i] := .set mem_cons_self hstop hstart
  have hl (b) : (t.set i e).left b = t.left b := by
    rcases eq_or_ne b i with rfl | hb
    · exact (congrArg RtEntry.left (mem_set_self e)).trans hleft
    · exact congrArg RtEntry.left (mem_set_of_ne hb e)
  have hr (b) : (t.set i e).right b = t.right b := by
    rcases eq_or_ne b i with rfl | hb
    · exact (congrArg RtEntry.right (mem_set_self e)).trans hright
    · exact congrArg RtEntry.right (mem_set_of_ne hb e)
  refine ⟨h.rep.congr (fun b _ => hl b) fun b _ => hr b, (hset.stop 0).trans h.stop,
    (hset.start 0).trans h.start, h.ordered.imp fun hab => (hset.before _ _).2 hab,
    fun b hb => (hset.valid b).2 (h.valid b hb), h.threaded.congr fun b _ => hr b,
    fun b hb => (hl b).trans (h.clean b hb), h.slots⟩

lemma binsert {t₁ : RtTable} {new : ℕ} {rest : List ℕ} (h : t.Wf r (new :: rest))
    (hsame : ∀ b, b ≠ new → t₁.mem b = t.mem b) (hfree : t₁.freelist = t.right new)
    (hmax : t₁.maxEntry = t.maxEntry) (hleft : t₁.left new = none) (hright : t₁.right new = none)
    (hvalid : (t₁.mem new).Valid) (hapart : t.Apart (t₁.mem new)) :
    ∃ t' r', t₁.rtBinsert new = some t' ∧ t'.Wf r' rest ∧ new ∈ r'.toList := by
  have hnew : new ∉ rest := (nodup_cons.1 (nodup_append.1 h.nodup).2.1).1
  have hne (b) (hb : b ∈ (Shape.node 0 .leaf r).toList) : b ≠ new := by
    rintro rfl
    exact h.notMem_free mem_cons_self hb
  have hsub : t₁.Sub (some 0) (.node 0 .leaf r) := h.sub.of_same fun b hb => hsame b (hne b hb)
  have hroot : t₁.mem 0 = t.mem 0 := hsame 0 (hne 0 mem_self)
  have hdisjoint (b) (hb : b ∈ (Shape.node 0 .leaf r).toList) :
      (t₁.mem b).Disjoint (t₁.mem new) := by
    rw [hsame b (hne b hb)]
    rcases mem_node.1 hb with rfl | hb
    · left
      rw [h.stop]
      exact hvalid.lowEnd_pos
    · exact h.disjoint_of_apart hapart hb
  have hlen : (Shape.node 0 .leaf r).toList.length ≤ t₁.fuel := by
    rw [fuel, hmax]
    exact h.length_le
  obtain ⟨t', s', hrun, hedits, hplaced⟩ := insertFrom_spec hsub
    (fun hb => hne new hb rfl) hleft hright hvalid.ranged hdisjoint hlen
  obtain ⟨xs, ys, hxs, hys, hlt, hgt⟩ := hplaced.place
  -- `RT_table_start` stays in front
  cases xs with
  | nil =>
    have h0 := hgt 0 (by rw [← nil_append ys, ← hxs]; exact mem_self)
    rw [RtEntry.Before, RtEntry.lowEnd, hroot, h.start, h.stop] at h0
    exact absurd h0 (Nat.not_lt_zero _)
  | cons x xs =>
    obtain ⟨rfl, hr⟩ : 0 = x ∧ r.toList = xs ++ ys := cons.inj hxs
    have hperm : (xs ++ new :: ys ++ rest).Perm (range' 1 t'.maxEntry) := by
      rw [hedits.relinks.maxEntry, hmax]
      refine List.Perm.trans ?_ h.slots
      rw [hr]
      refine ((perm_middle.append_right rest).trans ?_)
      exact perm_middle.symm
    have hnot : 0 ∉ xs ++ new :: ys := by
      intro h0
      have hmem := hperm.mem_iff.1 (mem_append_left rest h0)
      obtain ⟨k, -, hk⟩ := mem_range'.1 hmem
      omega
    obtain ⟨r', rfl, hlist⟩ : ∃ r', s' = .node 0 .leaf r' ∧ r'.toList = xs ++ new :: ys :=
      hedits.rep.of_head hys hnot
    have hcells (b) (hb : b ∈ rest) : t'.mem b = t.mem b := by
      have hbn : b ≠ new := fun hbn => hnew (hbn ▸ hb)
      have hout := h.notMem_free (mem_cons_of_mem new hb)
      exact (hedits.relinks.same b hout).trans (hsame b hbn)
    refine ⟨t', r', hrun, ⟨hedits.rep, ?_, ?_, ?_, ?_, ?_, ?_, ?_⟩, ?_⟩
    · rw [hedits.relinks.stop, hroot, h.stop]
    · rw [hedits.relinks.start, hroot, h.start]
    · have hord := (pairwise_cons.1 hsub.ordered).2
      have hord : (xs ++ ys).Pairwise fun i j => (t₁.mem i).Before (t₁.mem j) := hr ▸ hord
      obtain ⟨hox, hoy, hoxy⟩ := pairwise_append.1 hord
      rw [hlist]
      refine List.Pairwise.imp (fun hab => (hedits.relinks.before _ _).2 hab) ?_
      refine pairwise_append.2 ⟨hox, pairwise_cons.2 ⟨hgt, hoy⟩, fun a ha b hb => ?_⟩
      rcases mem_cons.1 hb with rfl | hb
      · exact hlt a (mem_cons_of_mem 0 ha)
      · exact hoxy a ha b hb
    · intro b hb
      rw [hedits.relinks.valid]
      rw [hlist, perm_middle.mem_iff, mem_cons, ← hr] at hb
      rcases hb with rfl | hb
      · exact hvalid
      · rw [hsame b (hne b (mem_node.2 (.inr hb)))]
        exact h.valid b hb
    · rw [hedits.relinks.freelist, hfree]
      exact h.threaded.2.congr fun b hb => congrArg RtEntry.right (hcells b hb)
    · intro b hb
      exact (congrArg RtEntry.left (hcells b hb)).trans (h.clean b (mem_cons_of_mem new hb))
    · rw [hlist]
      exact hperm
    · rw [hlist]
      exact mem_append_right _ mem_cons_self

lemma insert (h : t.Wf r free) (he : e.Valid) (hapart : t.Apart e) :
    ∃ t' r' free', t.rtInsert e = some t' ∧ t'.Wf r' free' := by
  cases free with
  | nil =>
    refine ⟨t, r, [], ?_, h⟩
    rw [rtInsert, show t.freelist = none from h.threaded]
  | cons new rest =>
    have hnone : t.left new = none := h.clean new mem_cons_self
    obtain ⟨t', r', hrun, hwf, -⟩ : ∃ t' r', (RtTable.set { t with freelist := t.right new } new
          { e with left := t.left new, right := none }).rtBinsert new = some t' ∧
          t'.Wf r' rest ∧ new ∈ r'.toList := by
      refine h.binsert (fun b hb => mem_set_of_ne hb _) rfl rfl
        ((congrArg RtEntry.left (mem_set_self _)).trans hnone)
        (congrArg RtEntry.right (mem_set_self _)) ?_ ?_
      · rw [mem_set_self]
        exact he
      · rw [mem_set_self]
        exact hapart
    refine ⟨t', r', rest, ?_, hwf⟩
    rw [rtInsert, h.threaded.1]
    exact hrun

lemma delete (h : t.Wf r free) (hi : i ∈ r.toList) (hc : (t.mem i).Contains net) :
    ∃ t' r', t.rtDelete net = some t' ∧ t'.Wf r' (i :: free) ∧ r'.toList = r.toList.erase i ∧
      ∀ b, b ∈ r'.toList → (t'.mem b).netStop = (t.mem b).netStop ∧
        (t'.mem b).netStart = (t.mem b).netStart := by
  have hi0 : i ≠ 0 := by
    rintro rfl
    exact h.zero_notMem (mem_append_left _ hi)
  obtain ⟨q, t1, s', hfind, hunlink, hedits, xs, ys, hxs, hys⟩ :=
    deleteFrom_spec h.sub (mem_node.2 (.inr hi)) hc hi0 none h.length_le h.length_le
  cases xs with
  | nil => exact absurd (cons.inj hxs).1.symm hi0
  | cons x xs =>
    obtain ⟨rfl, hr⟩ : 0 = x ∧ r.toList = xs ++ i :: ys := cons.inj hxs
    have hslots : r.toList.Perm (i :: (xs ++ ys)) := hr ▸ perm_middle
    have hout : i ∉ xs ++ ys :=
      (nodup_cons.1 (hslots.nodup_iff.1 (nodup_append.1 h.nodup).1)).1
    have hleft (b) (hb : b ∈ xs ++ ys) : b ∈ r.toList :=
      hslots.mem_iff.2 (mem_cons_of_mem i hb)
    have hnot : 0 ∉ xs ++ ys := fun h0 =>
      h.zero_notMem (mem_append_left _ (hleft 0 h0))
    obtain ⟨r', rfl, hlist⟩ : ∃ r', s' = .node 0 .leaf r' ∧ r'.toList = xs ++ ys :=
      hedits.rep.of_head hys hnot
    have hni (b) (hb : b ∈ xs ++ ys) : b ≠ i := fun hbi => hout (hbi ▸ hb)
    have hcells (b) (hb : b ∈ free) (e : RtEntry) : (t1.set i e).mem b = t.mem b := by
      have hfree := h.notMem_free hb
      have hbi : b ≠ i := by
        rintro rfl
        exact hfree (mem_node.2 (.inr hi))
      exact (mem_set_of_ne hbi e).trans (hedits.relinks.same b hfree)
    have hnets (b) (hb : b ≠ i) (e : RtEntry) : ((t1.set i e).mem b).netStop = (t.mem b).netStop ∧
          ((t1.set i e).mem b).netStart = (t.mem b).netStart := by
      rw [mem_set_of_ne hb]
      exact ⟨hedits.relinks.stop b, hedits.relinks.start b⟩
    refine ⟨{ t1.set i { RtEntry.zero with right := t1.freelist } with freelist := some i }, r', ?_,
      ⟨?_, ?_, ?_, ?_, ?_, ⟨rfl, ?_⟩, ?_, ?_⟩, ?_, ?_⟩
    · rw [rtDelete, rtBdelete, hfind]
      change (t.unlink q i).bind _ >>= _ = _
      rw [hunlink]
      rfl
    · refine rep_set hedits.rep (fun hm => ?_) _
      rcases mem_node.1 hm with hm | hm
      · exact hi0 hm
      · rw [hlist] at hm
        exact hni i hm rfl
    · exact (hnets 0 hi0.symm _).1.trans h.stop
    · exact (hnets 0 hi0.symm _).2.trans h.start
    · have hord : (xs ++ i :: ys).Pairwise fun a b => (t.mem a).Before (t.mem b) := hr ▸ h.ordered
      have hord := hord.sublist ((sublist_cons_self i ys).append_left xs)
      rw [hlist]
      refine hord.imp_of_mem fun {a b} ha hb hab => ?_
      rw [mem_set_of_ne (hni a ha), mem_set_of_ne (hni b hb)]
      exact (hedits.relinks.before a b).2 hab
    · intro b hb
      rw [hlist] at hb
      rw [mem_set_of_ne (hni b hb)]
      exact (hedits.relinks.valid b).2 (h.valid b (hleft b hb))
    · change Threaded _ ((t1.set i _).mem i).right free
      rw [mem_set_self]
      rw [hedits.relinks.freelist]
      exact h.threaded.congr fun b hb => congrArg RtEntry.right (hcells b hb _)
    · refine forall_mem_cons.2 ⟨congrArg RtEntry.left (mem_set_self _), fun b hb => ?_⟩
      exact (congrArg RtEntry.left (hcells b hb _)).trans (h.clean b hb)
    · change (r'.toList ++ i :: free).Perm (range' 1 t1.maxEntry)
      rw [hedits.relinks.maxEntry, hlist]
      exact (perm_middle.trans (hslots.append_right free).symm).trans h.slots
    · rw [hlist, hr, erase_append_right _ fun hix => hout (mem_append_left _ hix),
        erase_cons_head]
    · intro b hb
      rw [hlist] at hb
      exact hnets b (hni b hb) _

lemma delete_any (h : t.Wf r free) (hnet : 0 < net) :
    ∃ t' r' free', t.rtDelete net = some t' ∧ t'.Wf r' free' := by
  obtain ⟨res, hres, hiff⟩ := h.lookup net
  cases res with
  | some i =>
    obtain ⟨hi, hc⟩ := (hiff i).1 rfl
    have hi : i ∈ r.toList := by
      refine hi.resolve_left fun h0 => ?_
      rw [h0, RtEntry.Contains, h.stop] at hc
      omega
    obtain ⟨t', r', hrun, hwf, -⟩ := h.delete hi hc
    exact ⟨t', r', _, hrun, hwf⟩
  | none =>
    refine ⟨t, r, free, ?_, h⟩
    have hsnd : (t.deleteFrom net t.fuel none (some 0)).map Prod.snd = _ := deleteFrom_snd none
    rw [show t.lookupFrom net t.fuel (some 0) = some none from hres] at hsnd
    obtain ⟨⟨q, found⟩, hfind, hnone⟩ := Option.map_eq_some_iff.1 hsnd
    obtain rfl : found = none := hnone
    rw [rtDelete, rtBdelete, hfind]
    rfl

end Wf

end RtTable

/-! ## Packets -/

def RtEntry.Keeps (e f : RtEntry) : Prop :=
  f.left = e.left ∧ f.right = e.right ∧ f.netStop = e.netStop ∧ f.netStart = e.netStart

lemma updateRoute_keeps (route current : RtEntry) :
    current.Keeps (updateRoute route current).1 := by
  rw [updateRoute]
  repeat' split
  all_goals exact ⟨rfl, rfl, rfl, rfl⟩

lemma ageRoute_keeps (route current : RtEntry) : current.Keeps (ageRoute route current) := by
  unfold ageRoute
  dsimp only
  repeat' split
  all_goals exact ⟨rfl, rfl, rfl, rfl⟩

lemma tupleRoute_valid {ifID : AtIf} {rtmp : Rtmp} {k : ℕ} {route : RtEntry}
    (h : tupleRoute ifID rtmp k = some route) : route.Valid := by
  rw [tupleRoute] at h
  dsimp only at h
  split at h
  · split at h
    · cases h
    rename_i hno
    cases h
    simp only [not_or] at hno
    exact ⟨show 0 < (rtmp.tuple (k + 1)).net by omega,
      show (rtmp.tuple k).net ≤ (rtmp.tuple (k + 1)).net by omega⟩
  split at h
  · cases h
  rename_i hno
  cases h
  simp only [not_or] at hno
  exact ⟨show 0 < (rtmp.tuple k).net by omega, Nat.zero_le _⟩

variable {size : ℕ}

namespace RtTable

def RouteMeets (t : RtTable) (ifID : AtIf) (route : RtEntry) : Prop :=
  t.rtBlookup route.netStop = some none → isNewRoute ifID route → t.Apart route

def TupleMeets (t : RtTable) (ifID : AtIf) (rtmp : Rtmp) (k : ℕ) : Prop :=
  ∀ route, tupleRoute ifID rtmp k = some route → t.RouteMeets ifID route

def TuplesMeet (rtmp : Rtmp) : ℕ → ℕ → RtTable → AtIf → Prop
  | 0, _, _, _ => True
  | 1, k, t, ifID => t.TupleMeets ifID rtmp k
  | n + 2, k, t, ifID => t.TupleMeets ifID rtmp k ∧
    ∀ t' ifID', t.processTuple ifID rtmp k = some (t', ifID') →
      if (rtmp.tuple k).range then TuplesMeet rtmp n (k + 2) t' ifID'
      else TuplesMeet rtmp (n + 1) (k + 1) t' ifID'

def CableMeets (t : RtTable) (ifID : AtIf) (rtmp : Rtmp) : Prop :=
  (∀ i, t.rtBlookup (cableRoute ifID rtmp).netStop = some (some i) →
      (t.mem i).netStop = (cableRoute ifID rtmp).netStop →
      (t.mem i).netStart ≠ (cableRoute ifID rtmp).netStart) →
    t.Apart (cableRoute ifID rtmp)

def UpdateMeets (t : RtTable) (ifID : AtIf) (rtmp : Rtmp) (tupleNb : ℤ) : Prop :=
  ∀ ifID', (ifID.takeCable rtmp).bind (·.checkPacket rtmp tupleNb) = .ok ifID' →
    if ifID'.ifRoutingState = .activating then
      ifID'.seedPort = false → t.CableMeets ifID' rtmp
    else TuplesMeet rtmp tupleNb.toNat 0 t ifID'

namespace Wf

variable {t : RtTable} {r : Shape ℕ} {free : List ℕ} {ifID : AtIf} {rtmp : Rtmp}
  {route : RtEntry} {i k n : ℕ}

lemma keeps {e : RtEntry} (h : t.Wf r free) (hk : (t.mem i).Keeps e) : (t.set i e).Wf r free :=
  h.set hk.1 hk.2.1 hk.2.2.1 hk.2.2.2

lemma apart_congr {e f : RtEntry} (h : t.Apart e) (hstop : f.netStop = e.netStop)
    (hstart : f.netStart = e.netStart) : t.Apart f := by
  intro i hi hne
  have hd := h i hi hne
  rw [RtEntry.Disjoint, RtEntry.lowEnd, RtEntry.lowEnd] at hd ⊢
  rwa [hstop, hstart]

lemma processRoute (h : t.Wf r free) (hvalid : route.Valid) (hmeets : t.RouteMeets ifID route) :
    ∃ t' ifID' r' free', t.processRoute ifID route = some (t', ifID') ∧ t'.Wf r' free' := by
  obtain ⟨res, hres, hiff⟩ := h.lookup route.netStop
  rw [RtTable.processRoute, hres]
  cases res with
  | some i => exact ⟨_, _, r, free, rfl, h.keeps (updateRoute_keeps _ _)⟩
  | none =>
    split
    next hnew =>
      obtain ⟨t', r', free', hrun, hwf⟩ := h.insert
        (e := { route with entryState := rteStateGood ||| rteStateUpdated }) hvalid
        (apart_congr (hmeets hres hnew) rfl rfl)
      rw [hrun]
      exact ⟨t', _, r', free', rfl, hwf⟩
    · exact ⟨t, ifID, r, free, rfl, h⟩

lemma processTuple (h : t.Wf r free) (hmeets : t.TupleMeets ifID rtmp k) :
    ∃ t' ifID' r' free', t.processTuple ifID rtmp k = some (t', ifID') ∧ t'.Wf r' free' := by
  rw [RtTable.processTuple]
  cases hroute : tupleRoute ifID rtmp k with
  | none => exact ⟨t, ifID, r, free, rfl, h⟩
  | some route => exact h.processRoute (tupleRoute_valid hroute) (hmeets route hroute)

lemma processTuples {n k : ℕ} {t : RtTable} {ifID : AtIf} {r : Shape ℕ} {free : List ℕ}
    (h : t.Wf r free) (hmeets : TuplesMeet rtmp n k t ifID) :
    ∃ t' ifID' r' free', RtTable.processTuples rtmp n k t ifID = some (t', ifID') ∧
      t'.Wf r' free' := by
  match n with
  | 0 => exact ⟨t, ifID, r, free, rfl, h⟩
  | 1 => exact h.processTuple hmeets
  | n + 2 =>
    obtain ⟨t1, ifID1, r1, free1, hrun, hwf⟩ := h.processTuple hmeets.1
    have hnext := hmeets.2 t1 ifID1 hrun
    rw [RtTable.processTuples, hrun]
    split
    next hrange =>
      rw [if_pos hrange] at hnext
      exact processTuples hwf hnext
    next hrange =>
      rw [if_neg hrange] at hnext
      exact processTuples hwf hnext

lemma acquireCable (h : t.Wf r free) (hvalid : (cableRoute ifID rtmp).Valid ∨
      (cableRoute ifID rtmp).netStop = 0 ∧ (cableRoute ifID rtmp).netStart = 0)
    (hmeets : t.CableMeets ifID rtmp) :
    ∃ t' ifID' r' free', t.acquireCable ifID rtmp = some (t', ifID') ∧ t'.Wf r' free' := by
  obtain ⟨res, hres, hiff⟩ := h.lookup (cableRoute ifID rtmp).netStop
  have hinsert (hno : ∀ i, res = some i → ¬((t.mem i).netStop = (cableRoute ifID rtmp).netStop ∧
        (t.mem i).netStart = (cableRoute ifID rtmp).netStart)) :
      ∃ t' r' free', t.rtInsert { cableRoute ifID rtmp with
        nextIRNet := 0, nextIRNode := 0, netDist := 0
        entryState := rteStateGood ||| rteStateUpdated } = some t' ∧ t'.Wf r' free' := by
    have hapart : t.Apart (cableRoute ifID rtmp) := by
      refine hmeets fun i hi hstop hstart => ?_
      rw [hres] at hi
      exact hno i (Option.some.inj hi) ⟨hstop, hstart⟩
    rcases hvalid with hvalid | ⟨hstop, hstart⟩
    · exact h.insert hvalid (apart_congr hapart rfl rfl)
    have h0 : res = some 0 := by
      refine (hiff 0).2 ⟨.inl rfl, ?_, ?_⟩
      · rw [RtEntry.lowEnd, h.start, h.stop]
        exact Nat.zero_le _
      · rw [hstop]
        exact Nat.zero_le _
    exact absurd ⟨h.stop.trans hstop.symm, h.start.trans hstart.symm⟩ (hno 0 h0)
  rw [RtTable.acquireCable, hres]
  cases res with
  | some i =>
    change ∃ t' ifID' r' free', (if (t.mem i).netStop = _ ∧ (t.mem i).netStart = _ then _ else _) =
      _ ∧ _
    split
    · exact ⟨_, _, r, free, rfl, h.keeps (ageRoute_keeps _ _)⟩
    rename_i hno
    obtain ⟨t', r', free', hrun, hwf⟩ := hinsert fun j hj => by cases hj; exact hno
    rw [hrun]
    exact ⟨t', _, r', free', rfl, hwf⟩
  | none =>
    obtain ⟨t', r', free', hrun, hwf⟩ := hinsert fun j hj => absurd hj (by simp)
    rw [hrun]
    exact ⟨t', _, r', free', rfl, hwf⟩

variable {tupleNb : ℤ}

lemma cableRoute_valid {ifID' : AtIf} (h : ifID.checkPacket rtmp tupleNb = .ok ifID') :
    (cableRoute ifID' rtmp).Valid ∨
      (cableRoute ifID' rtmp).netStop = 0 ∧ (cableRoute ifID' rtmp).netStart = 0 := by
  rw [AtIf.checkPacket] at h
  rw [cableRoute]
  repeat' split at h
  all_goals cases h
  · rename_i hx _ _ hrange _ _
    rw [if_pos hx.1]
    simp only [not_or] at hrange
    exact .inl ⟨show 0 < (rtmp.tuple 1).net by omega,
      show (rtmp.tuple 0).net ≤ (rtmp.tuple 1).net by omega⟩
  rename_i hx _ _
  rw [if_neg hx]
  rcases Nat.eq_zero_or_pos rtmp.thisNet with hz | hz
  · exact .inr ⟨hz, rfl⟩
  · exact .inl ⟨hz, Nat.zero_le _⟩

lemma rtmpUpdate (h : t.Wf r free) (hmeets : t.UpdateMeets ifID rtmp tupleNb) :
    ∃ t' ifID' r' free', t.rtmpUpdate ifID rtmp tupleNb = some (t', ifID') ∧ t'.Wf r' free' := by
  rw [RtTable.rtmpUpdate]
  split
  · exact ⟨t, ifID, r, free, rfl, h⟩
  cases hcheck : (ifID.takeCable rtmp).bind (·.checkPacket rtmp tupleNb) with
  | error ifID' => exact ⟨t, ifID', r, free, rfl, h⟩
  | ok ifID' =>
    have hm := hmeets ifID' hcheck
    have hroute := by
      cases htake : ifID.takeCable rtmp with
      | error _ => rw [htake] at hcheck; cases hcheck
      | ok ifID1 =>
        rw [htake] at hcheck
        exact cableRoute_valid hcheck
    dsimp only
    split
    next hact =>
      rw [if_pos hact] at hm
      split
      · exact ⟨t, ifID', r, free, rfl, h⟩
      next hseed => exact h.acquireCable hroute (hm (eq_false_of_ne_true hseed))
    next hact =>
      rw [if_neg hact] at hm
      obtain ⟨t', ifID1, r', free', hrun, hwf⟩ := h.processTuples hm
      rw [hrun]
      exact ⟨t', _, r', free', rfl, hwf⟩

lemma threaded_init (a n : ℕ) (ha : 0 < a) (hn : a + n = size + 1) :
    Threaded (rtTableInit size).right (if a ≤ size then some a else none) (List.range' a n) := by
  induction n generalizing a with
  | zero =>
    rw [if_neg (by omega)]
    rfl
  | succ n ih =>
    rw [if_pos (by omega), range'_succ]
    refine ⟨rfl, ?_⟩
    have hnext : (rtTableInit size).right a = if a + 1 ≤ size then some (a + 1) else none := by
      exact if_congr ⟨fun h => h.2, fun h => ⟨ha, h⟩⟩ rfl rfl
    rw [hnext]
    exact ih (a + 1) (by omega) (by omega)

lemma init (hsize : 0 < size) : (rtTableInit size).Wf .leaf (List.range' 1 size) where
  rep := ⟨rfl, rfl,
    show (if 0 < 0 ∧ 0 < size then some (0 + 1) else none) = none from if_neg (by omega)⟩
  stop := rfl
  start := rfl
  ordered := .nil
  valid := nofun
  threaded := by
    have h := threaded_init 1 size (by decide) (add_comm 1 size)
    rwa [if_pos (show 1 ≤ size by omega)] at h
  clean _ _ := rfl
  slots := .refl _

end Wf

/-! ## Runs -/

inductive Step : RtTable → RtTable → Prop where
  | update {t t' : RtTable} {ifID' : AtIf} (ifID : AtIf) (rtmp : Rtmp) (tupleNb : ℤ)
      (hmeets : t.UpdateMeets ifID rtmp tupleNb)
      (h : t.rtmpUpdate ifID rtmp tupleNb = some (t', ifID')) : Step t t'
  | insert {t t' : RtTable} (e : RtEntry) (hvalid : e.Valid) (hapart : t.Apart e)
      (h : t.rtInsert e = some t') : Step t t'
  | delete {t t' : RtTable} (netStop : ℕ) (hnet : 0 < netStop) (h : t.rtDelete netStop = some t') :
      Step t t'

inductive Run : RtTable → Prop where
  | init (size : ℕ) (hsize : 0 < size) : Run (rtTableInit size)
  | step {t t' : RtTable} (run : Run t) (h : Step t t') : Run t'

structure Holds (t : RtTable) (r : Shape ℕ) (free : List ℕ) : Prop where
  tree : Rep t.left t.right (some 0) (.node 0 .leaf r)
  search : (Shape.node 0 .leaf r).Search fun i => (t.mem i).netStop
  disjoint : r.toList.Pairwise fun i j => (t.mem i).Disjoint (t.mem j)
  freelist : Threaded t.right t.freelist free
  slots : (r.toList ++ free).Perm (List.range' 1 t.maxEntry)
  lookup : ∀ net, 0 < net → ∃ res, t.rtBlookup net = some res ∧
    ∀ i, res = some i ↔ i ∈ r.toList ∧ (t.mem i).Contains net
  delete : ∀ i ∈ r.toList, ∃ t' r', t.rtDelete (t.mem i).netStop = some t' ∧
    Rep t'.left t'.right (some 0) (.node 0 .leaf r') ∧ r'.toList = r.toList.erase i
  updates : ∀ ifID rtmp tupleNb, t.UpdateMeets ifID rtmp tupleNb →
    (t.rtmpUpdate ifID rtmp tupleNb).isSome = true
  inserts : ∀ e, RtEntry.Valid e → t.Apart e → (t.rtInsert e).isSome = true

lemma Wf.step {t t' : RtTable} {r : Shape ℕ} {free : List ℕ} (h : t.Wf r free)
    (hs : t.Step t') : ∃ r' free', t'.Wf r' free' := by
  cases hs with
  | update ifID rtmp tupleNb hmeets hrun =>
    obtain ⟨t1, ifID1, r', free', hrun', hwf⟩ := h.rtmpUpdate hmeets
    rw [hrun] at hrun'
    cases hrun'
    exact ⟨r', free', hwf⟩
  | insert e hvalid hapart hrun =>
    obtain ⟨t1, r', free', hrun', hwf⟩ := h.insert hvalid hapart
    rw [hrun] at hrun'
    cases hrun'
    exact ⟨r', free', hwf⟩
  | delete netStop hnet hrun =>
    obtain ⟨t1, r', free', hrun', hwf⟩ := h.delete_any hnet
    rw [hrun] at hrun'
    cases hrun'
    exact ⟨r', free', hwf⟩

lemma Run.wf {t : RtTable} (run : Run t) : ∃ r free, t.Wf r free := by
  induction run with
  | init size hsize => exact ⟨_, _, .init hsize⟩
  | step _ hs ih =>
    obtain ⟨r, free, h⟩ := ih
    exact h.step hs

lemma Wf.holds {t : RtTable} {r : Shape ℕ} {free : List ℕ} (h : t.Wf r free) : t.Holds r free where
  tree := h.rep
  search := by
    refine Shape.search_of_pairwise (h.sub.ordered.imp_of_mem fun ha hb hab => ?_)
    have hr := h.sub.ranged _ hb
    rw [RtEntry.Before] at hab
    rw [RtEntry.Ranged] at hr
    omega
  disjoint := h.ordered.imp fun hab => .inl hab
  freelist := h.threaded
  slots := h.slots
  lookup net hnet := by
    obtain ⟨res, hres, hiff⟩ := h.lookup net
    refine ⟨res, hres, fun i => (hiff i).trans ⟨?_, fun hi => ⟨.inr hi.1, hi.2⟩⟩⟩
    rintro ⟨hi, hc⟩
    refine ⟨hi.resolve_left fun h0 => ?_, hc⟩
    rw [h0, RtEntry.Contains, h.stop] at hc
    omega
  delete i hi := by
    obtain ⟨t', r', hrun, hwf, hlist, -⟩ :=
      h.delete hi ⟨(h.valid i hi).ranged, le_refl (t.mem i).netStop⟩
    exact ⟨t', r', hrun, hwf.rep, hlist⟩
  updates ifID rtmp tupleNb hmeets := by
    obtain ⟨t', ifID', r', free', hrun, -⟩ := h.rtmpUpdate hmeets
    rw [hrun]
    rfl
  inserts e hvalid hapart := by
    obtain ⟨t', r', free', hrun, -⟩ := h.insert hvalid hapart
    rw [hrun]
    rfl

end RtTable

theorem routingRun_holds {t : RtTable} (run : RtTable.Run t) : ∃ r free, t.Holds r free := by
  obtain ⟨r, free, h⟩ := run.wf
  exact ⟨r, free, h.holds⟩

/-! ## Two packets -/

def samplePort : AtIf := ⟨true, false, .online, 1, 4, 0, false, 0⟩

def samplePacket (start stop : ℕ) : Rtmp where
  thisNet := 1
  idLength := 8
  senderNodeID := 9
  tuple
    | 0 => ⟨1, 0x80⟩
    | 1 => ⟨4, 0x82⟩
    | 2 => ⟨start, 0x80⟩
    | _ => ⟨stop, 0x82⟩

def sampleEntry (start stop : ℕ) : RtEntry :=
  { RtEntry.zero with netStart := start, netStop := stop }

/-- Entries are linked only inside a set of slots that their links do not leave. -/
lemma RtTable.apart_of_closed {t : RtTable} {e : RtEntry} (l : List ℕ) (hzero : 0 ∈ l)
    (hclosed : ∀ a ∈ l, (∀ b ∈ t.left a, b ∈ l) ∧ ∀ b ∈ t.right a, b ∈ l)
    (hl : ∀ i ∈ l, i ≠ 0 → (t.mem i).Disjoint e) : t.Apart e := by
  intro i hi
  suffices h : i ∈ l from hl i h
  induction hi with
  | start => exact hzero
  | left _ hb ih => exact (hclosed _ ih).1 _ hb
  | right _ hb ih => exact (hclosed _ ih).2 _ hb

/-- Nets 6-7 are known, a packet tells of the cable 1-4 and of 10-12, and then 6-7 is deleted. -/
theorem routingRun_holds_packet : ∃ t t' t'' : RtTable, ∃ ifID',
    (RtTable.rtTableInit 4).rtInsert (sampleEntry 6 7) = some t ∧
      t.rtmpUpdate samplePort (samplePacket 10 12) 4 = some (t', ifID') ∧
      t'.rtDelete 7 = some t'' ∧ t''.rtBlookup 2 = some (some 2) ∧ t''.rtBlookup 7 = some none ∧
      t''.rtBlookup 11 = some (some 3) ∧ RtTable.Run t'' ∧ ∃ r free, t''.Holds r free := by
  have hinsert := (RtTable.Run.init 4 (by decide)).step
    (.insert (sampleEntry 6 7) ⟨by decide, by decide⟩ (RtTable.apart_of_closed [0] (by decide)
      (by decide) (by decide)) rfl)
  refine ⟨_, _, _, _, rfl, rfl, rfl, rfl, rfl, rfl, ?_⟩
  have hupdate := hinsert.step (.update samplePort (samplePacket 10 12) 4 ?_ rfl)
  · have hdelete := hupdate.step (.delete 7 (by decide) rfl)
    exact ⟨hdelete, routingRun_holds hdelete⟩
  intro ifID' hcheck
  cases hcheck
  refine ⟨?_, ?_⟩
  · intro route hroute _ _
    cases hroute
    exact RtTable.apart_of_closed [0, 1] (by decide) (by decide) (by decide)
  intro t1 ifID1 htuple
  cases htuple
  refine ⟨?_, fun _ _ _ => trivial⟩
  intro route hroute _ _
  cases hroute
  exact RtTable.apart_of_closed [0, 1, 2] (by decide) (by decide) (by decide)

/-- Nets 6-7 are known when a packet tells of 5-10. Net 10 is not found, so the range is entered to
the right; net 5 is then looked for to the left. -/
theorem update_overlaps : ∃ t t' : RtTable, ∃ ifID',
    (RtTable.rtTableInit 4).rtInsert (sampleEntry 6 7) = some t ∧
      t.rtmpUpdate samplePort (samplePacket 5 10) 4 = some (t', ifID') ∧
      (∃ i j, t'.Linked i ∧ t'.Linked j ∧ i ≠ 0 ∧ j ≠ 0 ∧ i ≠ j ∧
        ¬(t'.mem i).Disjoint (t'.mem j) ∧ (t'.mem j).Contains 5) ∧
      t'.rtBlookup 5 = some none := by
  refine ⟨_, _, _, rfl, rfl, ⟨1, 3, ?_, ?_, by decide, by decide, by decide, ?_, ?_⟩, ?_⟩
  · exact .right .start rfl
  · exact .right (.right .start rfl) rfl
  · decide
  · decide
  · rfl

end Rhapsody.Netat
