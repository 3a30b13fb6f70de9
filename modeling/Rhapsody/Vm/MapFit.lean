import Rhapsody.Vm.MapClip

/-! First fit. `vm_map_find` searches from the free space hint, so nothing below the end of that
entry may be free. `vm_map_insert` takes the end of the header for that of the entry before the
first one, and `vm_map_find_entry` moves the hint past gaps that were too small. -/

namespace Rhapsody.Vm
open Rhapsody.Lib List Option

variable {ο σ : Type} {map map' : VmMap ο} {c : Cut ο}

lemma VmMap.mapped_iff {x : ℕ} : map.Mapped x ↔ map.shape.Mapped x := by
  simp [VmMap.Mapped, SpanMap.Mapped, VmMap.shape, spans, VmMapEntry.span, Span.Contains]

def VmMap.Packed (map : VmMap ο) : Prop := map.shape.Packed

/-- With the hint at the header and no entry below, an entry at `start` takes the hint past free
space. -/
def VmMap.Skips (map : VmMap ο) (start : ℕ) : Prop :=
  map.firstFree = none ∧ map.minOffset < start ∧ ∀ e ∈ map.entries, start < e.vmeEnd

def VmMap.Begins (map : VmMap ο) (start : ℕ) : Prop := ∃ c, firstFreeCut map = some (start, c)

/-! ## The free space hint -/

lemma Clipped.packed (h : Clipped map map') : map.Packed → map'.Packed := by
  induction h with
  | @rewrite map es hint hes =>
    intro hp
    refine SpanMap.Packed.grow (m := map.shape) rfl (fun x hx => ?_) hp.known fun r hr hfree => ?_
    · simpa [SpanMap.Mapped, VmMap.shape, hes] using hx
    · refine ⟨r.stop, hp.covers r ?_ hfree, SpanMap.covers_of_le le_rfl⟩
      simpa [VmMap.shape, hes] using hr
  | @split map es xs ys e a b hsplit =>
    intro hp
    refine SpanMap.Packed.split hp (VmMap.shape_spans hsplit.before) (a := a.span) (b := b.span)
      ?_ rfl rfl rfl hsplit.start hsplit.stop hsplit.mid hsplit.mid_le hsplit.ids
    simp [VmMap.shape, hsplit.after, spans]
  | trans _ _ ih ih' => exact fun hp => ih' (ih hp)

lemma VmMap.Packed.begins (hp : map.Packed) {start : ℕ} (h : map.Begins start) :
    map.shape.Covers map.minOffset start := by
  obtain ⟨c, hcut⟩ := h
  unfold firstFreeCut at hcut
  split at hcut
  · cases hcut
    exact SpanMap.covers_of_le le_rfl
  · next id hfree =>
    split at hcut
    · next before e rest hid =>
      cases hcut
      obtain ⟨hes, e', rest', heq, hid'⟩ := cutAt_eq_some hid
      obtain ⟨rfl, -⟩ := cons.inj heq
      refine hp.covers e.span ?_ (hfree.trans (congrArg some hid'.symm))
      simp [VmMap.shape, hes, Cut.entries]
    · cases hcut

variable {firstFree hint : Option ℕ} {size stop a : ℕ} {xs ys : List (VmMapEntry ο)}
  {e mem : VmMapEntry ο} {kr : KernReturn} {object : Option ο} {s s' : σ} {w : VmLayers ο σ}

lemma VmMap.Packed.insertEntry (hp : map.Packed) (hwf : map.Wf) {new : VmMapEntry ο}
    (hes : map.entries = xs ++ ys) (hid : new.id = map.created)
    (hfree : firstFree = map.firstFree ∨ firstFree = some new.id ∧
      map.shape.Covers map.minOffset new.vmeStart) :
    { map.create with
      entries := xs ++ new :: ys, size := size, hint := hint, firstFree := firstFree }.Packed := by
  exact SpanMap.Packed.insert hp hwf.shape (VmMap.shape_spans hes) (r := new.span)
    (spans_append ..) rfl rfl hid hfree

lemma VmMap.Packed.extendEntry (hp : map.Packed) (hwf : map.Wf)
    (hes : map.entries = xs ++ e :: ys) (hle : e.vmeEnd ≤ stop)
    (hfree : firstFree = map.firstFree ∨ firstFree = some e.id ∧
      map.shape.Covers map.minOffset e.vmeEnd) :
    { map with
      entries := xs ++ { e with vmeEnd := stop } :: ys
      size := size, hint := hint, firstFree := firstFree }.Packed := by
  exact SpanMap.Packed.extend hp hwf.shape (VmMap.shape_spans hes) (spans_append ..) rfl rfl hle
    hfree

lemma insert_packed {offset start : ℕ} (hwf : map.Wf) (hp : map.Packed)
    (hskips : kr = .success → ¬map.Skips start)
    (hinsert : vmMapInsert w mem map object offset start stop s = some (kr, map', s')) :
    map'.Packed := by
  have hpsaved : ∀ hint, (map.saveHint hint).Packed := fun hint =>
    (Clipped.saveHint map hint).packed hp
  cases inserts_of_eq hwf hinsert with
  | refuse hint _ _ => exact hpsaved hint
  | extend hint hsaved hgap hlt hprev hend =>
    exact (hpsaved hint).extendEntry hsaved (hgap.entries_dropLast hprev) (hend.trans_le hlt.le)
      (.inl rfl)
  | @insert c hint hsaved hgap hlt =>
    refine (hpsaved hint).insertEntry hsaved hgap.entries.symm rfl ?_
    split_ifs with hmoves
    · refine .inr ⟨rfl, ?_⟩
      obtain ⟨hfree, hend⟩ := hmoves
      cases hlast : c.before.getLast? with
      | some prev =>
        -- the entry before the new one is where the hint was, and they meet
        have hmem := mem_of_getLast? hlast
        simp only [hlast, map_some, getD_some] at hend
        have hstart : prev.vmeEnd = start := le_antisymm (hgap.before prev hmem) hend
        have hcov := (hpsaved hint).covers prev.span (mem_map_of_mem (by
          rw [show (map.saveHint hint).entries = map.entries from rfl, ← hgap.entries]
          exact mem_append_left _ hmem)) (by
          rw [show (map.saveHint hint).shape.free = map.firstFree from rfl]
          exact hfree.trans (by simp [lastPtr, hlast, VmMapEntry.span]))
        rw [show prev.span.stop = start from hstart] at hcov
        exact hcov
      | none =>
        have hnil : c.before = [] := getLast?_eq_none_iff.1 hlast
        refine SpanMap.covers_of_le (not_lt.1 fun hlow => hskips rfl ⟨?_, hlow, ?_⟩)
        · exact hfree.trans (by simp [lastPtr, hnil])
        intro e he
        have hmem : e ∈ c.rest := by
          rw [← hgap.entries, Cut.entries, hnil] at he
          exact he
        exact hlt.trans ((hgap.rest e hmem).trans_lt (hwf.within he).2.1)
    · exact .inl rfl

lemma findEntry_packed [DecidableEq ο] {a : Option ℕ} (hwf : map.Wf) (hp : map.Packed)
    (hbegins : ∀ start, a = some start → map.Begins start)
    (hfind : vmMapFindEntry mem map size 0 object = some (kr, a, map')) : map'.Packed := by
  cases findsEntry_of_eq hwf hfind with
  | noSpace => exact hp
  | @extend c start entry hgap hlast hend =>
    have hcov := hp.begins (hbegins start rfl)
    exact hp.extendEntry hwf (hgap.entries_dropLast hlast) (hend.trans_le hgap.le)
      (.inr ⟨rfl, hend ▸ hcov⟩)
  | @insert c start new hgap hid hstart hstop =>
    have hcov := hp.begins (hbegins start rfl)
    exact hp.insertEntry hwf hgap.entries.symm hid (.inr ⟨rfl, hstart ▸ hcov⟩)

lemma deleteLoop_packed [DecidableEq ο] (w : VmLayers ο σ) {start : ℕ} (stop : ℕ)
    (hentered : Entered start map c) (map₁ : VmMap ο) (hlo : map₁.minOffset = map.minOffset)
    (hpoint : PointsInto (spans c.before) map₁.firstFree)
    (hcov : ∀ r ∈ spans c.before, map₁.firstFree = some r.id →
      map.shape.Covers map.minOffset r.stop)
    (hmap' : map' = { (deleteLoop w stop c.rest map₁ s).2.1 with entries := c.before ++
      (deleteLoop w stop c.rest map₁ s).1 }) (hwf' : map'.Wf) : map'.Packed := by
  obtain ⟨old, mid, ys, -, -, -, hsame⟩ := deleteLoop_deleted w stop c.rest map₁ s
  have hfree : map'.firstFree = map₁.firstFree := by rw [hmap', hsame]
  have hlo' : map'.minOffset = map.minOffset := by rw [hmap', hsame, ← hlo]
  have hspans := VmMap.shape_spans hentered.entries.symm
  have hspans' : map'.shape.spans =
      spans c.before ++ spans (deleteLoop w stop c.rest map₁ s).1 := by
    rw [hmap']
    exact spans_append _ _
  have hbefore : ∀ r ∈ spans c.before, r.stop ≤ start := by
    simpa [spans, VmMapEntry.span] using hentered.before
  have hrest : ∀ r ∈ spans c.rest, start ≤ r.start := by
    simpa [spans, VmMapEntry.span] using hentered.rest
  have hpoint' : PointsInto (spans c.before) map'.firstFree := hfree ▸ hpoint
  exact SpanMap.Packed.cut hwf'.shape hspans hspans' hlo' hbefore hrest hpoint'
    fun r hr hrfree => hcov r hr (hfree.symm.trans hrfree)

lemma delete_packed [DecidableEq ο] {start : ℕ} (hwf : map.Wf) (hp : map.Packed)
    (hdelete : vmMapDelete w map start stop s = some (kr, map', s')) : map'.Packed := by
  obtain ⟨map0, s0, hspec, hwf'⟩ := delete_spec w hwf start stop s
  obtain ⟨-, rfl, -⟩ : _ ∧ map0 = map' ∧ _ := by simpa using hspec.symm.trans hdelete
  obtain ⟨c, map1, s1, henter, hentered, -⟩ := enter_spec w true hwf start s
  have hp1 := (enter_clipped hwf henter).packed hp
  obtain ⟨freeStart, hfreeStart, hfree⟩ := hentered.wf.firstFreeStart_spec
  simp only [vmMapDelete, henter, hfreeStart, bind_eq_bind, bind_some] at hdelete
  by_cases hge : freeStart ≥ start
  · rw [if_pos hge] at hdelete
    refine deleteLoop_packed w stop hentered { map1 with firstFree := lastPtr c.before } rfl
      (pointsInto_lastPtr fun _ he => he) (fun r hr _ => ?_) (by cases hdelete; rfl) hwf'
    obtain ⟨a, ha, rfl⟩ := mem_map.1 hr
    have hle : a.vmeEnd ≤ freeStart := (hentered.before a ha).trans hge
    cases hfree1 : map1.firstFree with
    | none =>
      simp only [firstFreeStart, hfree1, some.injEq] at hfreeStart
      exact SpanMap.covers_of_le (hle.trans_eq hfreeStart.symm)
    | some id =>
      -- everything below the end of the entry the hint leads to is mapped
      obtain ⟨e, he, rfl, hstart⟩ := hfree id hfree1
      have hcov := hp1.covers e.span (mem_map_of_mem he) hfree1
      exact hcov.anti ((hle.trans_eq hstart.symm).trans (hentered.wf.within he).2.1.le)
  rw [if_neg hge] at hdelete
  refine deleteLoop_packed w stop hentered map1 rfl ?_
    (fun r hr hrfree => hp1.covers r ?_ hrfree) (by cases hdelete; rfl) hwf'
  · intro id hid
    obtain ⟨e, he, rfl, hstart⟩ := hfree id hid
    rw [← hentered.entries] at he
    rcases mem_append.1 he with he | he
    · exact ⟨e.span, mem_map_of_mem he, rfl⟩
    · have := hentered.rest e he
      omega
  · rw [show map1.shape.spans = spans map1.entries from rfl, ← hentered.entries, Cut.entries,
      spans_append]
    exact mem_append_left _ hr

lemma packedInvariant [DecidableEq ο] (w : VmLayers ο σ) :
    MapInvariant w VmMap.Packed (fun map start => ¬map.Skips start) VmMap.Begins where
  create _ _ _ := ⟨nofun, nofun⟩
  clipped hp hclip := hclip.packed hp
  place h := h
  insert hwf hp := insert_packed hwf hp
  findEntry hwf hp := findEntry_packed hwf hp
  delete hwf hp := delete_packed hwf hp

/-! ## First fit -/

/-- A place for a region: the lower bound or the end of an entry, inside the map and clear of all
entries. -/
structure VmMap.Fits (map : VmMap ο) (start length a : ℕ) : Prop where
  le : max start map.minOffset ≤ a
  place : a = max start map.minOffset ∨ ∃ e ∈ map.entries, a = e.vmeEnd
  inside : a + length ≤ map.maxOffset
  clear : ∀ e ∈ map.entries, ∀ x, a ≤ x → x < a + length → ¬(e.vmeStart ≤ x ∧ x < e.vmeEnd)

variable {start length : ℕ}

lemma VmMap.Fits.not_mapped (h : map.Fits start length a) (hlength : 0 < length) :
    ¬map.Mapped a := by
  rintro ⟨e, he, hx⟩
  exact h.clear e he a le_rfl (by omega) hx

lemma VmMap.Fits.behind {b : ℕ} (h : map.Fits start length a) (he : e ∈ map.entries)
    (hlength : 0 < length) (hne : e.vmeStart < e.vmeEnd) (hb : b ≤ a)
    (hlt : e.vmeStart < b + length) : e.vmeEnd ≤ a := by
  by_contra hend
  exact h.clear e he (max a e.vmeStart) (le_max_left ..) (by omega) ⟨le_max_right .., by omega⟩

structure SearchFrom (map : VmMap ο) (start length a : ℕ) (c : Cut ο) : Prop where
  gap : GapFrom map a c
  after : ∀ e ∈ c.rest, a ≤ e.vmeStart
  bound : ∀ b, map.Fits start length b → a ≤ b
  le : max start map.minOffset ≤ a
  place : a = max start map.minOffset ∨ ∃ e ∈ map.entries, a = e.vmeEnd

lemma VmMap.Wf.searchFrom_end (hwf : map.Wf) (hes : map.entries = xs ++ e :: ys)
    (hle : max start map.minOffset ≤ e.vmeEnd)
    (hbound : ∀ b, map.Fits start length b → e.vmeEnd ≤ b) :
    SearchFrom map start length e.vmeEnd ⟨xs ++ [e], ys⟩ :=
  ⟨hwf.gapFrom_end hes, (hwf.sides hes).2, hbound, hle, .inr ⟨e, by simp [hes], rfl⟩⟩

lemma propose_eq {max : ℕ} (hstart : start < 2 ^ 32) (hmax : max < 2 ^ 32)
    (hsize : 0 < size ∧ size < 2 ^ 32) :
    propose max size 0 start = if start + size ≤ max then some (start, start + size) else none := by
  unfold propose
  dsimp only
  rw [alignUp_zero hstart]
  by_cases hfits : start + size ≤ max
  · rw [add32_of_lt (by omega), if_neg (by omega), if_pos hfits]
  rw [if_neg hfits, if_pos]
  unfold add32
  omega

lemma findSpace_first (hwf : map.Wf) (hlength : 0 < length ∧ length < 2 ^ 32)
    {before rest : List (VmMapEntry ο)} (h : SearchFrom map start length a ⟨before, rest⟩) :
    match findSpace map.maxOffset length 0 a before rest with
    | none => ∀ b, ¬map.Fits start length b
    | some (b, _) => map.Fits start length b ∧ ∀ b', map.Fits start length b' → b ≤ b' := by
  have hfull : ∀ a, (∀ b, map.Fits start length b → a ≤ b) → ¬a + length ≤ map.maxOffset →
      ∀ b, ¬map.Fits start length b := by
    intro a hbound hlt b hb
    have := hbound b hb
    have := hb.inside
    omega
  induction rest generalizing before a with
  | nil =>
    unfold findSpace
    rw [propose_eq h.gap.word hwf.bounds.2 hlength]
    by_cases hin : a + length ≤ map.maxOffset
    · rw [if_pos hin]
      refine ⟨⟨h.le, h.place, hin, fun e he x hlow _ hx => ?_⟩, h.bound⟩
      have hmem : e ∈ before := by simpa [← h.gap.entries, Cut.entries] using he
      have := h.gap.before e hmem
      omega
    · rw [if_neg hin]
      exact hfull a h.bound hin
  | cons next rest ih =>
    have hes := h.gap.entries.symm
    have hmem : next ∈ map.entries := by simp [hes, Cut.entries]
    unfold findSpace
    rw [propose_eq h.gap.word hwf.bounds.2 hlength]
    by_cases hin : a + length ≤ map.maxOffset
    · rw [if_pos hin]
      dsimp only
      by_cases hfits : next.vmeStart ≥ a + length
      · rw [if_pos hfits]
        have hrest := hwf.rest_of_head h.gap.entries fun e rest' hrest => by
          obtain ⟨rfl, -⟩ := cons.inj hrest
          exact hfits
        refine ⟨⟨h.le, h.place, hin, fun e he x hlow hhigh hx => ?_⟩, h.bound⟩
        rw [hes] at he
        rcases mem_append.1 he with he | he
        · have := h.gap.before e he
          omega
        · have := hrest e he
          omega
      rw [if_neg hfits]
      have hbound : ∀ b, map.Fits start length b → next.vmeEnd ≤ b := fun b hb =>
        hb.behind hmem hlength.1 (hwf.within hmem).2.1 (h.bound b hb) (by omega)
      have hle : max start map.minOffset ≤ next.vmeEnd := by
        have := h.after next (mem_cons_self ..)
        have := (hwf.within hmem).2.1
        have := h.le
        omega
      exact ih (hwf.searchFrom_end hes hle hbound)
    · rw [if_neg hin]
      exact hfull a h.bound hin

lemma VmMap.fits_saveHint : (map.saveHint hint).Fits start length a ↔ map.Fits start length a :=
  ⟨fun h => ⟨h.le, h.place, h.inside, h.clear⟩, fun h => ⟨h.le, h.place, h.inside, h.clear⟩⟩

lemma firstFreeCut_search (hwf : map.Wf) (hp : map.Packed) (hlength : 0 < length)
    (hmin : max start map.minOffset = map.minOffset) :
    ∃ a c, firstFreeCut map = some (a, c) ∧ SearchFrom map start length a c := by
  unfold firstFreeCut
  cases hfree : map.firstFree with
  | none =>
    refine ⟨_, _, rfl, ⟨rfl, by simp, le_rfl, hwf.bounds.1⟩, fun e he => (hwf.within he).1,
      fun b hb => ?_, hmin.le, .inl hmin.symm⟩
    exact (le_max_right ..).trans hb.le
  | some id =>
    have hpoint : PointsInto (spans map.entries) (some id) := hfree ▸ hwf.shape.free
    obtain ⟨before, e, rest, hcut, hes, hid⟩ := cutAt_of_pointsInto hpoint
    have hmem : e ∈ map.entries := by simp [hes]
    simp only [hcut]
    refine ⟨_, _, rfl, hwf.searchFrom_end hes ?_ fun b hb => ?_⟩
    · have := hwf.within hmem
      omega
    by_contra hlt
    have hcov := hp.covers e.span (mem_map_of_mem hmem) (hfree.trans (congrArg some hid.symm))
    have hlow : map.minOffset ≤ b := (le_max_right ..).trans hb.le
    exact hb.not_mapped hlength (VmMap.mapped_iff.2 (hcov b hlow (not_le.1 hlt)))

lemma findStart_search (hwf : map.Wf) (hp : map.Packed) (hlength : 0 < length)
    (hstart : start < 2 ^ 32) :
    ∃ a c hint, findStart map (max start map.minOffset) = some (a, c, map.saveHint hint) ∧
      (map.saveHint hint).Wf ∧ SearchFrom (map.saveHint hint) start length a c := by
  unfold findStart
  by_cases hmin : max start map.minOffset = map.minOffset
  · obtain ⟨a, c, hcut, hsearch⟩ := firstFreeCut_search hwf hp hlength hmin
    exact ⟨a, c, map.hint, by rw [if_pos hmin, hcut]; rfl, hwf, hsearch⟩
  rw [if_neg hmin]
  obtain ⟨found, c, hint, hlook, hlooked, hwf', -⟩ := lookup_spec hwf (max start map.minOffset)
  rw [hlook]
  cases found with
  | true =>
    obtain ⟨before, rest⟩ := c
    obtain ⟨e, rest', rfl : rest = e :: rest', hlow, hhigh⟩ := hlooked.found_spec rfl
    have hes : (map.saveHint hint).entries = before ++ e :: rest' := hlooked.entries.symm
    refine ⟨_, _, _, rfl, hwf', hwf'.searchFrom_end hes hhigh.le fun b hb => ?_⟩
    have hmem : e ∈ (map.saveHint hint).entries := by simp [hes]
    exact hb.behind hmem hlength (hwf'.within hmem).2.1 hb.le
      (hlow.trans_lt (Nat.lt_add_of_pos_right hlength))
  | false =>
    have hword : max start map.minOffset < 2 ^ 32 := max_lt hstart hwf.bounds.1
    exact ⟨_, _, _, rfl, hwf', ⟨hlooked.entries, hlooked.before, le_max_right .., hword⟩,
      hwf.rest_of_head hlooked.entries fun e rest hrest =>
        (hlooked.not_found rfl e rest hrest).le, fun b hb => hb.le, le_rfl, .inl rfl⟩

lemma insert_success (w : VmLayers ο σ) (mem : VmMapEntry ο) (hwf : map.Wf) (object : Option ο)
    (offset : ℕ) (hlength : 0 < length) (h : map.Fits start length a) (s : σ) :
    ∃ map' s', vmMapInsert w mem map object offset a (a + length) s =
      some (.success, map', s') := by
  have hlo : map.minOffset ≤ a := (le_max_right ..).trans h.le
  have hin := h.inside
  unfold vmMapInsert
  rw [if_neg (by omega)]
  obtain ⟨found, c, hint, hlook, hlooked, -, -⟩ := lookup_spec hwf a
  simp only [hlook, bind_eq_bind, bind_some]
  cases found with
  | true =>
    obtain ⟨e, rest, hrest, hlow, hhigh⟩ := hlooked.found_spec rfl
    have hmem : e ∈ map.entries := by simp [← hlooked.entries, Cut.entries, hrest]
    exact absurd ⟨e, hmem, hlow, hhigh⟩ (h.not_mapped hlength)
  | false =>
    have hnext : (c.rest.head?.any fun next => decide (next.vmeStart < a + length)) = false := by
      cases hrest : c.rest with
      | nil => rfl
      | cons next rest =>
        have hmem : next ∈ map.entries := by simp [← hlooked.entries, Cut.entries, hrest]
        have hlow := hlooked.not_found rfl next rest hrest
        have hne := (hwf.within hmem).2.1
        simp only [head?_cons, any_some, decide_eq_false_iff_not, not_lt]
        by_contra hlt
        have := h.behind hmem hlength hne le_rfl (not_le.1 hlt)
        omega
    simp only [hnext]
    cases insertExtend w object a (a + length) c s with
    | mk prev s' =>
      cases prev with
      | some prev => exact ⟨_, _, rfl⟩
      | none => exact ⟨_, _, rfl⟩

lemma find_first (w : VmLayers ο σ) (mem : VmMapEntry ο) (hwf : map.Wf) (hp : map.Packed)
    (object : Option ο) (offset : ℕ) (hstart : start < 2 ^ 32)
    (hlength : 0 < length ∧ length < 2 ^ 32) (s : σ) :
    (∃ a map' s', vmMapFind w mem map object offset start length true s =
        some (.success, a, map', s') ∧ map.Fits start length a ∧
          ∀ b, map.Fits start length b → a ≤ b) ∨
      ∃ a map' s', vmMapFind w mem map object offset start length true s =
        some (.noSpace, a, map', s') ∧ ∀ b, ¬map.Fits start length b := by
  unfold vmMapFind
  have hmax : (if start < map.minOffset then map.minOffset else start) =
      max start map.minOffset := by
    split_ifs <;> omega
  rw [if_pos rfl]
  rw [hmax]
  by_cases hhigh : max start map.minOffset > map.maxOffset
  · rw [if_pos hhigh]
    refine .inr ⟨_, _, _, rfl, fun b hb => ?_⟩
    have := hb.le
    have := hb.inside
    omega
  rw [if_neg hhigh]
  obtain ⟨a, ⟨before, rest⟩, hint, heq, hwf', hsearch⟩ := findStart_search hwf hp hlength.1 hstart
  simp only [heq, bind_eq_bind, bind_some]
  have hfirst := findSpace_first hwf' hlength hsearch
  cases hspace : findSpace (map.saveHint hint).maxOffset length 0 a before rest with
  | none =>
    rw [hspace] at hfirst
    exact .inr ⟨_, _, _, rfl, fun b hb => hfirst b (VmMap.fits_saveHint.2 hb)⟩
  | some r =>
    obtain ⟨b, c⟩ := r
    rw [hspace] at hfirst
    obtain ⟨hfits, hleast⟩ := hfirst
    have hgap := findSpace_gap hwf' hsearch.gap hspace
    obtain ⟨map', s', hinsert⟩ := insert_success w mem (hgap.saveHint hwf') object offset hlength.1
      (VmMap.fits_saveHint.2 hfits) s
    have hend : add32 b length = b + length := by
      have hin : b + length ≤ map.maxOffset := hfits.inside
      have := hwf.bounds.2
      exact add32_of_lt (by omega)
    simp only [hend, hinsert, bind_some]
    exact .inl ⟨b, map', s', rfl, VmMap.fits_saveHint.1 hfits, fun b' hb' =>
      hleast b' (VmMap.fits_saveHint.2 hb')⟩

/-! ## Runs -/

lemma insert_empty {offset : ℕ} (h : stop ≤ start) :
    ∃ map', vmMapInsert w mem map object offset start stop s =
      some (.invalidAddress, map', s) := by
  unfold vmMapInsert
  rw [if_pos (by omega)]
  exact ⟨_, rfl⟩

lemma find_place (hwf : map.Wf) (hp : map.Packed) {offset : ℕ} (hstart : start < 2 ^ 32)
    (hlength : length < 2 ^ 32) {anywhere : Bool}
    (h : vmMapFind w mem map object offset start length anywhere s =
      some (.success, a, map', s')) :
    if anywhere then map.Fits start length a ∧ ∀ b, map.Fits start length b → a ≤ b
    else a = start := by
  cases anywhere with
  | false =>
    obtain ⟨⟨kr, map1, s1⟩, -, heq⟩ := bind_eq_some_iff.1 h
    cases heq
    rfl
  | true =>
    rcases Nat.eq_zero_or_pos length with rfl | hpos
    · have hempty {start : ℕ} : add32 start 0 ≤ start := Nat.mod_le _ _
      unfold vmMapFind at h
      rw [if_pos rfl] at h
      dsimp only at h
      generalize (if start < map.minOffset then map.minOffset else start) = lower at h
      split at h
      · cases h
      obtain ⟨⟨start', c, map1⟩, -, h⟩ := bind_eq_some_iff.1 h
      dsimp only at h
      split at h
      · cases h
      next start' c hspace =>
        obtain ⟨map2, hinsert⟩ := @insert_empty _ _ (map1.saveHint (lastPtr c.before)) _ mem object
          s w start' offset hempty
        rw [hinsert] at h
        cases h
    · rcases find_first w mem hwf hp object offset hstart ⟨hpos, hlength⟩ s with
        ⟨b, map1, s1, hfind, hfits⟩ | ⟨b, map1, s1, hfind, -⟩
      · obtain ⟨rfl, -⟩ : b = a ∧ _ := by simpa using hfind.symm.trans h
        exact hfits
      · cases hfind.symm.trans h

lemma findEntry_begins [DecidableEq ο] {start : ℕ} (hwf : map.Wf) (hp : map.Packed)
    (hsize : 0 < size ∧ size < 2 ^ 32)
    (hfits : ∀ b c, firstFreeCut map = some (b, c) → (∃ d, map.Fits 0 size d) → map.Fits 0 size b)
    (h : vmMapFindEntry mem map size 0 object = some (kr, some start, map')) :
    map.Begins start := by
  obtain ⟨a, ⟨before, rest⟩, hcut, hsearch⟩ :=
    firstFreeCut_search hwf hp hsize.1 (Nat.max_eq_right (Nat.zero_le _))
  have hfirst := findSpace_first hwf hsize hsearch
  simp only [vmMapFindEntry, hcut, bind_eq_bind, bind_some] at h
  split at h
  · cases h
  next start' c hspace =>
    rw [hspace] at hfirst
    obtain rfl : start' = start := by
      split at h <;> cases h <;> rfl
    have hfit := hfits a _ hcut ⟨_, hfirst.1⟩
    obtain rfl : a = start' := le_antisymm (hsearch.bound _ hfirst.1) (hfirst.2 _ hfit)
    exact ⟨_, hcut⟩

/-- Nothing is inserted above the start of a map and below all entries while the hint is the
header, and a region for `vm_map_find_entry` is not empty and fits where its search begins, if it
fits at all. -/
def VmSystem.Proper (sys : VmSystem ο σ) : VmMapEvent ο → Prop
  | .insert m _ _ _ start _ => ∀ map, sys.maps[m]? = some map → ¬map.Skips start.toNat
  | .find m _ _ _ addr length anywhere => ∀ map, sys.maps[m]? = some map → ∀ a,
      (if anywhere then map.Fits addr.toNat length.toNat a ∧
        ∀ b, map.Fits addr.toNat length.toNat b → a ≤ b else a = addr.toNat) → ¬map.Skips a
  | .findEntry m _ size _ => size ≠ 0 ∧ ∀ map, sys.maps[m]? = some map →
      ∀ b c, firstFreeCut map = some (b, c) → (∃ d, map.Fits 0 size.toNat d) →
        map.Fits 0 size.toNat b
  | .copy _ dst _ dstAddr _ _ dstAlloc _ =>
      dstAlloc = true → ∀ map, sys.maps[dst]? = some map → ¬map.Skips dstAddr.toNat
  | _ => True

lemma VmSystem.Proper.places [DecidableEq ο] {sys : VmSystem ο σ} {e : VmMapEvent ο}
    (h : sys.Proper e) (hok : sys.Ok) (hp : sys.AllMaps VmMap.Packed) :
    sys.Places w (fun map start => ¬map.Skips start) VmMap.Begins e := by
  cases e with
  | insert | copy => exact h
  | find m mem object offset addr length anywhere =>
    intro map a map' s' hmap hfind
    exact h map hmap a (find_place (hok.map hmap) (hp map (mem_of_getElem? hmap)) addr.toNat_lt
      length.toNat_lt hfind)
  | findEntry m mem size object =>
    intro map kr a map' hmap hfind
    have hsize : 0 < size.toNat := Nat.pos_of_ne_zero fun hzero => h.1 (UInt32.toNat_inj.1 hzero)
    exact findEntry_begins (hok.map hmap) (hp map (mem_of_getElem? hmap))
      ⟨hsize, size.toNat_lt⟩ (h.2 map hmap) hfind
  | _ => trivial

/-- Runs from no maps at all. -/
inductive VmMapFitRun [DecidableEq ο] (w : VmLayers ο σ) : VmSystem ο σ → Prop where
  | start (s : σ) : VmMapFitRun w ⟨[], s⟩
  | step {sys sys' : VmSystem ο σ} {e : VmMapEvent ο} : VmMapFitRun w sys → sys.Proper e →
    sys.step w e = some sys' → VmMapFitRun w sys'

lemma VmMapFitRun.packed [DecidableEq ο] {sys : VmSystem ο σ} (hrun : VmMapFitRun w sys) :
    sys.Ok ∧ sys.AllMaps VmMap.Packed := by
  induction hrun with
  | start s => exact ⟨nofun, nofun⟩
  | step _ hproper hstep ih =>
    refine ⟨VmSystem.step_ok w ih.1 (fun m mem object heq => ?_) hstep,
      VmSystem.AllMaps.step (packedInvariant w) ih.1 ih.2 (hproper.places ih.1 ih.2) hstep⟩
    subst heq
    exact hproper.1 rfl

/-- In every such run `vm_map_find` returns the lowest address that fits, and no space only if there
is none. -/
theorem vmMapFind_firstFit [DecidableEq ο] {w : VmLayers ο σ} {sys : VmSystem ο σ}
    (hrun : VmMapFitRun w sys) {map : VmMap ο} (hmap : map ∈ sys.maps) (mem : VmMapEntry ο)
    (object : Option ο) (offset start length : UInt32) (hlength : 0 < length) (s : σ) :
    (∃ a map' s', vmMapFind w mem map object offset.toNat start.toNat length.toNat true s =
        some (.success, a, map', s') ∧ map.Fits start.toNat length.toNat a ∧
          ∀ b, map.Fits start.toNat length.toNat b → a ≤ b) ∨
      ∃ a map' s', vmMapFind w mem map object offset.toNat start.toNat length.toNat true s =
        some (.noSpace, a, map', s') ∧ ∀ b, ¬map.Fits start.toNat length.toNat b := by
  obtain ⟨hok, hpacked⟩ := hrun.packed
  exact find_first w mem (hok map hmap) (hpacked map hmap) object offset.toNat start.toNat_lt
    ⟨UInt32.lt_iff_toNat_lt.1 hlength, length.toNat_lt⟩ s

/-- Two pages with one between them free, which is found; then the first is removed. -/
def gapEvents : List (VmMapEvent Unit) :=
  [.insert 0 clearEntry none 0 0x1000 0x2000, .insert 0 clearEntry none 0 0x3000 0x4000,
    .find 0 clearEntry none 0 0x1000 0x1000 true, .remove 0 0x1000 0x2000]

lemma VmMap.not_skips {start : ℕ} (h : map.firstFree.isSome ∨ start ≤ map.minOffset) :
    ¬map.Skips start := by
  rintro ⟨hnone, hlow, -⟩
  rcases h with h | h
  · rw [hnone] at h
    cases h
  · omega

lemma gapEvents_run {sys : VmSystem Unit Unit} (h : gapEvents.foldlM (VmSystem.step nullLayers)
    ⟨[vmMapCreate Unit 0 0x1000 0x5000], ()⟩ = some sys) : VmMapFitRun nullLayers sys := by
  have hcreate : VmMapFitRun nullLayers ⟨[vmMapCreate Unit 0 0x1000 0x5000], ()⟩ :=
    .step (e := .create 0 0x1000 0x5000) (.start ()) trivial rfl
  -- after the first insertion the hint is an entry
  have hhints (k : ℕ) (hk : k < 2) : ((gapEvents.take (k + 1)).foldlM (VmSystem.step nullLayers)
      ⟨[vmMapCreate Unit 0 0x1000 0x5000], ()⟩).all (fun sys =>
        sys.maps.all fun map => map.firstFree.isSome) = true := by
    interval_cases k <;> decide +kernel
  simp only [gapEvents, foldlM_cons, foldlM_nil, bind_eq_bind, bind_eq_some_iff] at h
  obtain ⟨sys1, h1, sys2, h2, sys3, h3, sys4, h4, ⟨⟩⟩ := h
  have hhint1 := hhints 0 (by decide)
  have hhint2 := hhints 1 (by decide)
  simp only [gapEvents, take_succ_cons, take_zero, foldlM_cons, foldlM_nil, bind_eq_bind, h1, h2,
    bind_some, Option.pure_def, all_some, List.all_eq_true] at hhint1 hhint2
  have hfirst : VmMapFitRun nullLayers sys1 := by
    refine .step (e := .insert 0 clearEntry none 0 0x1000 0x2000) hcreate (fun map hmap => ?_) h1
    obtain rfl := some.inj hmap
    exact VmMap.not_skips (.inr (by decide))
  have hsecond : VmMapFitRun nullLayers sys2 :=
    .step (e := .insert 0 clearEntry none 0 0x3000 0x4000) hfirst
      (fun map hmap => VmMap.not_skips (.inl (hhint1 map (mem_of_getElem? hmap)))) h2
  have hfind : VmMapFitRun nullLayers sys3 :=
    .step (e := .find 0 clearEntry none 0 0x1000 0x1000 true) hsecond
      (fun map hmap a _ => VmMap.not_skips (.inl (hhint2 map (mem_of_getElem? hmap)))) h3
  exact .step (e := .remove 0 0x1000 0x2000) hfind trivial h4

theorem vmMapFind_firstFit_gap :
    ∃ sys, gapEvents.foldlM (VmSystem.step nullLayers)
        ⟨[vmMapCreate Unit 0 0x1000 0x5000], ()⟩ = some sys ∧ ∃ map ∈ sys.maps,
      map.entries.map (fun e => (e.vmeStart, e.vmeEnd)) = [(0x2000, 0x3000), (0x3000, 0x4000)] ∧
      ∃ map' s', vmMapFind nullLayers clearEntry map none 0 0x1000 0x1000 true () =
        some (.success, 0x1000, map', s') ∧ map.Fits 0x1000 0x1000 0x1000 := by
  have hrun : (gapEvents.foldlM (VmSystem.step nullLayers)
      ⟨[vmMapCreate Unit 0 0x1000 0x5000], ()⟩).any (fun sys => sys.maps.any fun map =>
        map.entries.map (fun e => (e.vmeStart, e.vmeEnd)) = [(0x2000, 0x3000), (0x3000, 0x4000)] ∧
        (vmMapFind nullLayers clearEntry map none 0 0x1000 0x1000 true ()).any fun r =>
          r.1 = .success ∧ r.2.1 = 0x1000) = true := by
    decide +kernel
  obtain ⟨sys, hsys, hany⟩ := (Option.any_eq_true _ _).1 hrun
  obtain ⟨map, hmem, hmap⟩ := List.any_eq_true.1 hany
  obtain ⟨hentries, hfound⟩ := of_decide_eq_true hmap
  obtain ⟨⟨kr, a, map', s'⟩, hfind, hres⟩ := (Option.any_eq_true _ _).1 hfound
  obtain ⟨rfl, rfl⟩ := of_decide_eq_true hres
  refine ⟨sys, hsys, map, hmem, hentries, map', s', hfind, ?_⟩
  rcases vmMapFind_firstFit (gapEvents_run hsys) hmem clearEntry none 0 0x1000 0x1000 (by decide) ()
    with ⟨b, map1, s1, hfind', hfits, -⟩ | ⟨b, map1, s1, hfind', -⟩
  · cases hfind.symm.trans hfind'
    exact hfits
  · cases hfind.symm.trans hfind'

/-- With an entry at its end only, a map has no space for a page although its first
page is free. -/
theorem find_misses_space :
    ∃ sys, [VmMapEvent.create 0 0x1000 0x3000, .insert 0 clearEntry none 0 0x2000 0x3000].foldlM
        (VmSystem.step nullLayers) ⟨[], ()⟩ = some sys ∧ ∃ map ∈ sys.maps,
      (∃ map', vmMapFind nullLayers clearEntry map none 0 0x1000 0x1000 true () =
        some (.noSpace, 0x1000, map', ())) ∧ map.Fits 0x1000 0x1000 0x1000 := by
  refine ⟨_, rfl, _, mem_cons_self .., ⟨_, rfl⟩, by decide, .inl (by decide), by decide, ?_⟩
  intro e he x hlow hhigh hx
  obtain rfl := mem_singleton.1 he
  have hstart : 0x2000 ≤ x := hx.1
  omega

end Rhapsody.Vm
