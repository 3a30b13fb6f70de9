import Rhapsody.Vm.MapSpec

/-! Well-formed maps over whole runs. The copy loop walks two regions that are mapped without
holes; clipping an entry of one leaves that of the other alone, also in one map. -/

namespace Rhapsody.Vm
open Rhapsody.Lib List

variable {ο σ : Type}

variable {r : Span} {id a b stop address : ℕ}

section
variable (w : VmLayers ο σ) {map : VmMap ο} (h : map.Wf)
include h

lemma VmMap.Wf.entry_of_id (hr : r ∈ spans map.entries) :
    ∃ before e rest, cutAt r.id map.entries = some ⟨before, e :: rest⟩ ∧
      map.entries = before ++ e :: rest ∧ e.span = r := by
  have hpoint : PointsInto (spans map.entries) (some r.id) := fun id hid =>
    ⟨r, hr, Option.some.inj hid⟩
  obtain ⟨before, e, rest, hcut, hes, hid⟩ := cutAt_of_pointsInto hpoint
  have hmem : e.span ∈ spans map.entries := by simp [hes]
  exact ⟨before, e, rest, hcut, hes, h.shape.eq_of_id hmem hr hid⟩

lemma clipEnd_spec (hr : ⟨id, a, b⟩ ∈ spans map.entries) (hlt : a < stop) (s : σ) :
    ∃ map' s', vmMapClipEnd w stop id map s = some (map', s') ∧ map'.Wf ∧
      (∀ x, map.Mapped x → map'.Mapped x) ∧ ⟨id, a, min b stop⟩ ∈ spans map'.entries ∧
      ∀ r ∈ spans map.entries, r.id ≠ id → r ∈ spans map'.entries := by
  obtain ⟨before, e, rest, hcut, hes, hspan⟩ := h.entry_of_id hr
  cases hspan
  unfold vmMapClipEnd
  simp only [hcut]
  split_ifs with hclip
  · refine ⟨_, _, rfl, h.splitEnd hes hlt hclip, ?_, ?_, ?_⟩
    · rintro x ⟨f, hf, hlow, hhigh⟩
      rw [hes] at hf
      obtain hf | rfl | hf : f ∈ before ∨ f = e ∨ f ∈ rest := by simpa using hf
      · exact ⟨f, by simp [hf], hlow, hhigh⟩
      · obtain hx | hx := lt_or_ge x stop
        · exact ⟨(splitEnd map f stop).1, by simp, hlow, hx⟩
        · exact ⟨(splitEnd map f stop).2, by simp, hx, hhigh⟩
      · exact ⟨f, by simp [hf], hlow, hhigh⟩
    · rw [min_eq_right hclip.le]
      simp [splitEnd, VmMapEntry.span]
    intro r hr hne
    simp only [hes, spans_append, spans_cons, mem_append, mem_cons] at hr ⊢
    obtain hr | rfl | hr := hr
    · exact .inl hr
    · exact absurd rfl hne
    · exact .inr (.inr (.inr hr))
  · refine ⟨_, _, rfl, h, fun _ hx => hx, ?_, fun r hr _ => hr⟩
    rw [min_eq_left (not_lt.1 hclip)]
    exact hr

lemma lookup_of_mapped (hmapped : map.Mapped address) :
    ∃ c hint, vmMapLookupEntry map address = some (true, c, map.saveHint hint) ∧
      Looked address map.entries true c ∧ (map.saveHint hint).Wf := by
  obtain ⟨found, c, hint, hlook, hlooked, hwf, -⟩ := lookup_spec h address
  cases found with
  | true => exact ⟨c, hint, hlook, hlooked, hwf⟩
  | false =>
    obtain ⟨e, he, hlow, hhigh⟩ := hmapped
    rw [← hlooked.entries] at he
    obtain he | he := mem_append.1 he
    · exact absurd hhigh (hlooked.before e he).not_gt
    have hrest : ∀ f ∈ c.rest, address + 1 ≤ f.vmeStart :=
      h.rest_of_head hlooked.entries (hlooked.not_found rfl)
    have := hrest e he
    omega

lemma next_of_mapped (hr : ⟨id, a, b⟩ ∈ spans map.entries) (hmapped : map.Mapped b) :
    ∃ before e rest, cutAt id map.entries = some ⟨before, e :: rest⟩ ∧
      ∃ id' b', firstPtr rest = some id' ∧ ⟨id', b, b'⟩ ∈ spans map.entries := by
  obtain ⟨before, e, rest, hcut, hes, hspan⟩ := h.entry_of_id hr
  cases hspan
  obtain ⟨hbefore, hrest⟩ := h.sides hes
  obtain ⟨f, hf, hlow, hhigh⟩ := hmapped
  have hne := (h.within (by simp [hes] : e ∈ map.entries)).2.1
  have hf' : f ∈ rest := by
    rw [hes] at hf
    obtain hf | rfl | hf : f ∈ before ∨ f = e ∨ f ∈ rest := by simpa using hf
    · have := hbefore f hf
      omega
    · omega
    · exact hf
  refine ⟨before, e, rest, hcut, ?_⟩
  cases rest with
  | nil => simp at hf'
  | cons g rest =>
    refine ⟨g.id, g.vmeEnd, rfl, ?_⟩
    have hg : e.vmeEnd ≤ g.vmeStart := hrest g (by simp)
    have hgf : g.vmeStart ≤ f.vmeStart := by
      obtain rfl | hf' := mem_cons.1 hf'
      · exact le_rfl
      have hes' : map.entries = (before ++ [e]) ++ g :: rest := by simp [hes]
      have hgne := (h.within (by simp [hes] : g ∈ map.entries)).2.1
      exact hgne.le.trans ((h.sides hes').2 f hf')
    have hstart : g.vmeStart = e.vmeEnd := by omega
    rw [← hstart]
    simp [hes, VmMapEntry.span]

omit h in
lemma clipStart_spans {c : Cut ο} (hlooked : Looked address map.entries true c) (s : σ) :
    ∃ e rest, c.rest = e :: rest ∧ e.vmeStart ≤ address ∧ e.span ∈ spans map.entries ∧
      ⟨e.id, address, e.vmeEnd⟩ ∈ spans (vmMapClipStart w address c map s).2.1.entries ∧
      (∀ x, map.Mapped x → (vmMapClipStart w address c map s).2.1.Mapped x) ∧
      (∀ r ∈ spans map.entries, r.id ≠ e.id →
        r ∈ spans (vmMapClipStart w address c map s).2.1.entries) ∧
      (e.vmeStart < address → ⟨map.created, e.vmeStart, address⟩ ∈
        spans (vmMapClipStart w address c map s).2.1.entries) := by
  obtain ⟨before, rest⟩ := c
  obtain ⟨hentries, -, hfound, -⟩ := hlooked
  obtain ⟨e, rest', rfl : rest = e :: rest', hlow, hhigh⟩ := hfound rfl
  have hes : map.entries = before ++ e :: rest' := hentries.symm
  refine ⟨e, rest', rfl, hlow, by simp [hes], ?_⟩
  unfold vmMapClipStart
  dsimp only
  split_ifs with hclip
  · refine ⟨by simp [Cut.entries, splitStart, VmMapEntry.span], ?_, ?_, fun _ => ?_⟩
    · rintro x ⟨f, hf, hx⟩
      rw [hes] at hf
      obtain hf | rfl | hf : f ∈ before ∨ f = e ∨ f ∈ rest' := by simpa using hf
      · exact ⟨f, by simp [Cut.entries, hf], hx⟩
      · obtain hlt | hge := lt_or_ge x address
        · exact ⟨(splitStart map f address).1, by simp [Cut.entries], hx.1, hlt⟩
        · exact ⟨(splitStart map f address).2, by simp [Cut.entries], hge, hx.2⟩
      · exact ⟨f, by simp [Cut.entries, hf], hx⟩
    · intro r hr hne
      simp only [hes, Cut.entries, spans_append, spans_cons, mem_append, mem_cons] at hr ⊢
      obtain hr | rfl | hr := hr
      · exact .inl (.inl hr)
      · exact absurd rfl hne
      · exact .inr (.inr hr)
    · simp [Cut.entries, splitStart, VmMapEntry.span]
  · have hstart : e.vmeStart = address := by omega
    refine ⟨by simp [hes, VmMapEntry.span, hstart], fun _ hx => hx, fun r hr _ => hr, ?_⟩
    intro hlt
    omega

end

/-! ## All maps -/

variable {map' : VmMap ο} {kr : KernReturn} {mem : VmMapEntry ο}

variable {w : VmLayers ο σ}

namespace VmSystem
open Option

variable {sys sys' : VmSystem ο σ} {m : ℕ}

def Ok (sys : VmSystem ο σ) : Prop := ∀ map ∈ sys.maps, map.Wf

def HasSpan (sys : VmSystem ο σ) (m : ℕ) (r : Span) : Prop :=
  ∃ map, sys.maps[m]? = some map ∧ r ∈ spans map.entries

def Mapped (sys : VmSystem ο σ) (m x : ℕ) : Prop := ∃ map, sys.maps[m]? = some map ∧ map.Mapped x

lemma Ok.map (h : sys.Ok) {map : VmMap ο} (hmap : sys.maps[m]? = some map) : map.Wf :=
  h map (mem_of_getElem? hmap)

lemma Ok.set (h : sys.Ok) {map : VmMap ο} (hwf : map.Wf) (s : σ) : Ok ⟨sys.maps.set m map, s⟩ := by
  intro map' hmap'
  obtain hmap' | rfl := mem_or_eq_of_mem_set hmap'
  · exact h map' hmap'
  · exact hwf

lemma getElem?_set_map {map : VmMap ο} (hmap : sys.maps[m]? = some map) :
    (sys.maps.set m map')[m]? = some map' :=
  List.getElem?_set_self (List.getElem?_eq_some_iff.1 hmap).1

variable {n x : ℕ}

lemma mapped_set {map : VmMap ο} (hmap : sys.maps[m]? = some map) (s : σ)
    (hmapped : ∀ x, map.Mapped x → map'.Mapped x) (hx : sys.Mapped n x) :
    Mapped ⟨sys.maps.set m map', s⟩ n x := by
  obtain ⟨map0, hmap0, hx⟩ := hx
  by_cases hmn : m = n
  · subst hmn
    obtain rfl := some.inj (hmap.symm.trans hmap0)
    exact ⟨map', getElem?_set_map hmap, hmapped x hx⟩
  · exact ⟨map0, by rw [getElem?_set_ne hmn, hmap0], hx⟩

lemma hasSpan_set {map : VmMap ο} (hmap : sys.maps[m]? = some map) (s : σ)
    (hspan : m = n → r ∈ spans map.entries → r ∈ spans map'.entries) (hr : sys.HasSpan n r) :
    HasSpan ⟨sys.maps.set m map', s⟩ n r := by
  obtain ⟨map0, hmap0, hr⟩ := hr
  by_cases hmn : m = n
  · subst hmn
    obtain rfl := some.inj (hmap.symm.trans hmap0)
    exact ⟨map', getElem?_set_map hmap, hspan rfl hr⟩
  · exact ⟨map0, by rw [getElem?_set_ne hmn, hmap0], hr⟩

variable {α : Type} {f : VmMap ο → σ → Option (α × VmMap ο × σ)}

lemma onMap_eq {map : VmMap ο} {a : α} {s : σ} (hmap : sys.maps[m]? = some map)
    (hf : f map sys.world = some (a, map', s)) :
    sys.onMap m f = some (a, ⟨sys.maps.set m map', s⟩) := by
  simp [onMap, hmap, hf]

lemma Ok.onMap (h : sys.Ok)
    (hf : ∀ map s, map.Wf → ∃ a map' s', f map s = some (a, map', s') ∧ map'.Wf)
    (hon : (sys.onMap m f).map Prod.snd = some sys') : sys'.Ok := by
  cases hmap : sys.maps[m]? with
  | none => simp [VmSystem.onMap, hmap] at hon
  | some map =>
    obtain ⟨a, map', s', heq, hwf⟩ := hf map sys.world (h.map hmap)
    rw [onMap_eq hmap heq] at hon
    obtain rfl := some.inj hon
    exact h.set hwf s'

variable {t : Span}

lemma Ok.span_eq (h : sys.Ok) (hr : sys.HasSpan m r) (ht : sys.HasSpan m t) (hid : r.id = t.id) :
    r = t := by
  obtain ⟨map, hmap, hr⟩ := hr
  obtain ⟨map', hmap', ht⟩ := ht
  obtain rfl := some.inj (hmap.symm.trans hmap')
  exact (h.map hmap).shape.eq_of_id hr ht hid

variable {c : ℕ}

lemma Ok.id_eq_of_start (h : sys.Ok) {i j : ℕ} (hi : sys.HasSpan m ⟨i, a, b⟩)
    (hj : sys.HasSpan m ⟨j, a, c⟩) : i = j := by
  obtain ⟨map, hmap, hi⟩ := hi
  obtain ⟨map', hmap', hj⟩ := hj
  obtain rfl := some.inj (hmap.symm.trans hmap')
  have hwf := (h.map hmap).shape
  have heq := hwf.eq_of_contains hi hj ⟨le_rfl, (hwf.within _ hi).nonempty⟩
    ⟨le_rfl, (hwf.within _ hj).nonempty⟩
  exact congrArg Span.id heq

lemma clipEnd_system (w : VmLayers ο σ) (h : sys.Ok) (hr : sys.HasSpan m ⟨id, a, b⟩)
    (hlt : a < stop) :
    ∃ sys', sys.clipEnd w m stop id = some sys' ∧ sys'.Ok ∧
      (∀ n x, sys.Mapped n x → sys'.Mapped n x) ∧ sys'.HasSpan m ⟨id, a, min b stop⟩ ∧
      ∀ n r, (m = n → r.id ≠ id) → sys.HasSpan n r → sys'.HasSpan n r := by
  obtain ⟨map, hmap, hr⟩ := hr
  obtain ⟨map', s', hclip, hwf, hmapped, hspan, hothers⟩ :=
    clipEnd_spec w (h.map hmap) hr hlt sys.world
  refine ⟨⟨sys.maps.set m map', s'⟩, ?_, h.set hwf s', fun n x => mapped_set hmap s' hmapped,
    ⟨map', getElem?_set_map hmap, hspan⟩, fun n r hne => hasSpan_set hmap s' fun hmn hr =>
      hothers r hr (hne hmn)⟩
  unfold clipEnd
  rw [onMap_eq hmap (by rw [hclip]; rfl)]
  rfl

lemma Ok.span_lt (h : sys.Ok) (hr : sys.HasSpan m ⟨id, a, b⟩) : a < b := by
  obtain ⟨map, hmap, hr⟩ := hr
  exact ((h.map hmap).shape.within _ hr).nonempty

lemma Ok.entry_eq (h : sys.Ok) (hr : sys.HasSpan m r) :
    ∃ e, sys.entry m r.id = some e ∧ e.span = r := by
  obtain ⟨map, hmap, hr⟩ := hr
  obtain ⟨before, e, rest, hcut, -, hspan⟩ := (h.map hmap).entry_of_id hr
  exact ⟨e, by simp [entry, hmap, hcut], hspan⟩

variable {src dst si di srcEnd dstEnd : ℕ}

lemma bounds_of_span {e : VmMapEntry ο} (h : e.span = ⟨si, a, b⟩) :
    e.vmeStart = a ∧ e.vmeEnd = b := ⟨congrArg Span.start h, congrArg Span.stop h⟩

lemma clipBoth_spec (w : VmLayers ο σ) (h : sys.Ok) {d : ℕ} (hs : sys.HasSpan src ⟨si, a, b⟩)
    (hd : sys.HasSpan dst ⟨di, c, d⟩) (hapart : src = dst → si ≠ di) (ha : a < srcEnd)
    (hlen : srcEnd + c = dstEnd + a) (hsrc : srcEnd < 2 ^ 32) (hdst : dstEnd < 2 ^ 32) :
    ∃ sys' b' d', sys.clipBoth w src dst srcEnd dstEnd si di = some sys' ∧ sys'.Ok ∧
      (∀ n x, sys.Mapped n x → sys'.Mapped n x) ∧ sys'.HasSpan src ⟨si, a, b'⟩ ∧
      sys'.HasSpan dst ⟨di, c, d'⟩ ∧ b' ≤ srcEnd ∧ b' + c = d' + a := by
  -- the ends of the regions
  obtain ⟨sys1, hclip1, hok1, hmap1, hs1, hother1⟩ := clipEnd_system w h hs ha
  have hd1 := hother1 dst ⟨di, c, d⟩ (fun heq => (hapart heq).symm) hd
  obtain ⟨sys2, hclip2, hok2, hmap2, hd2, hother2⟩ :=
    clipEnd_system w hok1 hd1 (show c < dstEnd by omega)
  have hs2 := hother2 src _ (fun heq => hapart heq.symm) hs1
  obtain ⟨se, hse, hsespan⟩ := hok2.entry_eq hs2
  obtain ⟨de, hde, hdespan⟩ := hok2.entry_eq hd2
  have hdlt := hok2.span_lt hd2
  obtain ⟨hsestart, hseend⟩ := bounds_of_span hsespan
  obtain ⟨hdestart, hdeend⟩ := bounds_of_span hdespan
  -- each other's size
  have hsrcClip : add32 se.vmeStart de.size = a + (min d dstEnd - c) := by
    rw [VmMapEntry.size, hsestart, hdestart, hdeend, sub32_of_le hdlt.le (by omega),
      add32_of_lt (by omega)]
  obtain ⟨sys3, hclip3, hok3, hmap3, hs3, hother3⟩ :=
    clipEnd_system w hok2 hs2 (show a < add32 se.vmeStart de.size by omega)
  have hd3 := hother3 dst _ (fun heq => (hapart heq).symm) hd2
  obtain ⟨se', hse', hsespan'⟩ := hok3.entry_eq hs3
  obtain ⟨de', hde', hdespan'⟩ := hok3.entry_eq hd3
  have hslt' := hok3.span_lt hs3
  obtain ⟨hsestart', hseend'⟩ := bounds_of_span hsespan'
  obtain ⟨hdestart', hdeend'⟩ := bounds_of_span hdespan'
  have hdstClip : add32 de'.vmeStart se'.size = c + (se'.vmeEnd - a) := by
    rw [VmMapEntry.size, hsestart', hdestart', sub32_of_le (by omega) (by omega),
      add32_of_lt (by omega)]
  obtain ⟨sys4, hclip4, hok4, hmap4, hd4, hother4⟩ :=
    clipEnd_system w hok3 hd3 (show c < add32 de'.vmeStart se'.size by omega)
  have hs4 := hother4 src _ (fun heq => hapart heq.symm) hs3
  refine ⟨sys4, _, _, ?_, hok4, fun n x hx => hmap4 n x (hmap3 n x (hmap2 n x (hmap1 n x hx))),
    hs4, hd4, by omega, by omega⟩
  simp [clipBoth, hclip1, hclip2, hse, hde, hclip3, hse', hde', hclip4]

structure SameSpans (sys sys' : VmSystem ο σ) : Prop where
  length : sys'.maps.length = sys.maps.length
  get : ∀ (n : ℕ) (map : VmMap ο), sys.maps[n]? = some map → ∃ es, spans es = spans map.entries ∧
    sys'.maps[n]? = some { map with entries := es }

lemma SameSpans.ok (h : SameSpans sys sys') (hok : sys.Ok) : sys'.Ok := by
  intro map' hmap'
  obtain ⟨n, hn, rfl⟩ := mem_iff_getElem.1 hmap'
  have hn' : n < sys.maps.length := h.length ▸ hn
  obtain ⟨es, hes, heq⟩ := h.get n _ (getElem?_eq_getElem hn')
  rw [getElem?_eq_getElem hn] at heq
  rw [some.inj heq]
  exact (hok _ (getElem_mem hn')).congr hes

lemma SameSpans.hasSpan (h : SameSpans sys sys') (hr : sys.HasSpan n r) : sys'.HasSpan n r := by
  obtain ⟨map, hmap, hr⟩ := hr
  obtain ⟨es, hes, heq⟩ := h.get n map hmap
  exact ⟨_, heq, by rwa [hes]⟩

lemma mapped_iff_hasSpan : sys.Mapped n x ↔ ∃ r, sys.HasSpan n r ∧ r.Contains x := by
  constructor
  · rintro ⟨map, hmap, e, he, hx⟩
    exact ⟨e.span, ⟨map, hmap, mem_map_of_mem he⟩, hx⟩
  rintro ⟨r, ⟨map, hmap, hr⟩, hx⟩
  obtain ⟨e, he, rfl⟩ := mem_map.1 hr
  exact ⟨map, hmap, e, he, hx⟩

lemma SameSpans.mapped (h : SameSpans sys sys') (hx : sys.Mapped n x) : sys'.Mapped n x := by
  obtain ⟨r, hr, hrx⟩ := mapped_iff_hasSpan.1 hx
  exact mapped_iff_hasSpan.2 ⟨r, h.hasSpan hr, hrx⟩

lemma SameSpans.trans {sys'' : VmSystem ο σ} (h : SameSpans sys sys')
    (h' : SameSpans sys' sys'') : SameSpans sys sys'' := by
  refine ⟨h'.length.trans h.length, fun n map hmap => ?_⟩
  obtain ⟨es, hes, heq⟩ := h.get n map hmap
  obtain ⟨es', hes', heq'⟩ := h'.get n _ heq
  exact ⟨es', hes'.trans hes, heq'⟩

lemma setEntry_sameSpans (h : sys.Ok) {e : VmMapEntry ο} (he : sys.HasSpan m e.span) :
    SameSpans sys (sys.setEntry m e) := by
  refine ⟨by simp [setEntry], fun n map hmap => ?_⟩
  by_cases hmn : m = n
  · subst hmn
    refine ⟨_, ?_, by rw [setEntry, getElem?_modify_eq, hmap]; rfl⟩
    refine (List.map_map ..).trans (map_congr_left fun x hx => ?_)
    simp only [Function.comp]
    split_ifs with hid
    · exact (h.span_eq he ⟨map, hmap, mem_map_of_mem hx⟩ hid.symm)
    · rfl
  · exact ⟨map.entries, rfl, by rw [setEntry, getElem?_modify_ne _ _ hmn, hmap]⟩

lemma copyEntry_spans (w : VmLayers ο σ) (srcMap dstMap : VmMap ο) (se de : VmMapEntry ο)
    (s : σ) : (vmMapCopyEntry w srcMap dstMap se de s).1.span = se.span ∧
      (vmMapCopyEntry w srcMap dstMap se de s).2.1.span = de.span := by
  unfold vmMapCopyEntry
  by_cases hsub : (se.isSubMap || de.isSubMap) = true
  · simp only [if_pos hsub, and_self]
  by_cases hwired : se.wiredCount = 0
  · simp only [if_neg hsub, if_pos hwired]
    refine ⟨rfl, ?_⟩
    by_cases hd : de.wiredCount ≠ 0
    · simp only [if_pos hd]
      rfl
    · simp only [if_neg hd]
      rfl
  simp only [if_neg hsub, if_neg hwired]
  refine ⟨trivial, ?_⟩
  by_cases hd : de.wiredCount ≠ 0
  · simp only [if_pos hd]
    rfl
  · simp only [if_neg hd]
    rfl

lemma copyEntries_sameSpans (w : VmLayers ο σ) (h : sys.Ok) (hs : sys.HasSpan src r)
    (hd : sys.HasSpan dst t) (hcopy : sys.copyEntries w src dst r.id t.id = some sys') :
    SameSpans sys sys' := by
  obtain ⟨se, hse, rfl⟩ := h.entry_eq hs
  obtain ⟨de, hde, rfl⟩ := h.entry_eq hd
  obtain ⟨srcMap, hsrc, -⟩ := id hs
  obtain ⟨dstMap, hdst, -⟩ := id hd
  have hse' : sys.entry src se.id = some se := hse
  have hde' : sys.entry dst de.id = some de := hde
  simp only [copyEntries, VmMapEntry.span, hsrc, hdst, hse', hde', bind_eq_bind,
    bind_some] at hcopy
  split_ifs at hcopy with hshare
  · simp at hcopy
  obtain ⟨hspan, hspan'⟩ := copyEntry_spans w srcMap dstMap se de sys.world
  generalize vmMapCopyEntry w srcMap dstMap se de sys.world = result at hcopy hspan hspan'
  obtain ⟨se', de', s'⟩ := result
  have hfirst := setEntry_sameSpans h (e := se') (by rwa [hspan])
  have hsecond := setEntry_sameSpans (hfirst.ok h) (e := de')
    (by rw [hspan']; exact hfirst.hasSpan hd)
  obtain rfl := some.inj hcopy
  have hboth := hfirst.trans hsecond
  exact ⟨hboth.length, hboth.get⟩

/-! ## The copy loop -/

/-- Two regions of one length, mapped from here on, and the entries where they
begin. -/
structure Copying (sys : VmSystem ο σ) (src dst srcStart srcEnd dstStart dstEnd : ℕ)
    (srcPtr dstPtr : Option ℕ) : Prop where
  ok : sys.Ok
  srcMapped : ∀ x, srcStart ≤ x → x < srcEnd → sys.Mapped src x
  dstMapped : ∀ x, dstStart ≤ x → x < dstEnd → sys.Mapped dst x
  srcEntry : srcStart < srcEnd → ∃ id b, srcPtr = some id ∧ sys.HasSpan src ⟨id, srcStart, b⟩
  dstEntry : dstStart < dstEnd → ∃ id b, dstPtr = some id ∧ sys.HasSpan dst ⟨id, dstStart, b⟩
  len : srcEnd + dstStart = dstEnd + srcStart
  apart : src = dst → srcStart ≠ dstStart

lemma Ok.next_eq (h : sys.Ok) (hr : sys.HasSpan m ⟨id, a, b⟩)
    (hmapped : b < stop → sys.Mapped m b) :
    ∃ p, sys.next m id = some p ∧
      (b < stop → ∃ id' b', p = some id' ∧ sys.HasSpan m ⟨id', b, b'⟩) := by
  obtain ⟨map, hmap, hr⟩ := hr
  by_cases hlt : b < stop
  · obtain ⟨map', hmap', hx⟩ := hmapped hlt
    obtain rfl := some.inj (hmap.symm.trans hmap')
    obtain ⟨before, e, rest, hcut, id', b', hptr, hspan⟩ := next_of_mapped (h.map hmap) hr hx
    exact ⟨firstPtr rest, by simp [next, hmap, hcut], fun _ => ⟨id', b', hptr, map, hmap, hspan⟩⟩
  · obtain ⟨before, e, rest, hcut, -⟩ := (h.map hmap).entry_of_id hr
    exact ⟨firstPtr rest, by simp [next, hmap, hcut], fun hlt' => absurd hlt' hlt⟩

structure Kept (w : VmLayers ο σ) (P : VmSystem ο σ → Prop) : Prop where
  clipEnd : ∀ {sys sys' m stop id}, P sys → sys.clipEnd w m stop id = some sys' → P sys'
  enter : ∀ {sys sys' m address id}, sys.Ok → P sys →
    sys.enterCopy w m address = some (id, sys') → P sys'
  reenter : ∀ {sys sys' m address id}, sys.Ok → P sys →
    sys.reenterCopy m address = some (id, sys') → P sys'
  write : ∀ {sys sys'}, P sys → SameSpans sys sys' → P sys'

variable {P : VmSystem ο σ → Prop}

lemma Kept.clipBoth (hP : Kept w P) (h : P sys)
    (hclip : sys.clipBoth w src dst srcEnd dstEnd si di = some sys') : P sys' := by
  obtain ⟨sys1, hclip1, hclip⟩ := bind_eq_some_iff.1 hclip
  obtain ⟨sys2, hclip2, hclip⟩ := bind_eq_some_iff.1 hclip
  obtain ⟨se, -, hclip⟩ := bind_eq_some_iff.1 hclip
  obtain ⟨de, -, hclip⟩ := bind_eq_some_iff.1 hclip
  obtain ⟨sys3, hclip3, hclip⟩ := bind_eq_some_iff.1 hclip
  obtain ⟨se', -, hclip⟩ := bind_eq_some_iff.1 hclip
  obtain ⟨de', -, hclip⟩ := bind_eq_some_iff.1 hclip
  exact hP.clipEnd (hP.clipEnd (hP.clipEnd (hP.clipEnd h hclip1) hclip2) hclip3) hclip

lemma copyLoop_ok (hP : Kept w P) {srcStart dstStart fuel : ℕ} {srcPtr dstPtr : Option ℕ}
    (hsrc : srcEnd < 2 ^ 32) (hdst : dstEnd < 2 ^ 32)
    (h : Copying sys src dst srcStart srcEnd dstStart dstEnd srcPtr dstPtr) (hsys : P sys)
    (hloop : sys.copyLoop w src dst srcEnd dstEnd fuel srcStart srcPtr dstPtr = some sys') :
    sys'.Ok ∧ P sys' := by
  induction fuel generalizing sys srcStart dstStart srcPtr dstPtr with
  | zero =>
    unfold copyLoop at hloop
    split_ifs at hloop
    obtain rfl := some.inj hloop
    exact ⟨h.ok, hsys⟩
  | succ fuel ih =>
    unfold copyLoop at hloop
    split_ifs at hloop with hlt
    · obtain ⟨hok, hsm, hdm, hse, hde, hlen, hapart⟩ := h
      obtain ⟨si, b, rfl, hs⟩ := hse hlt
      obtain ⟨di, d, rfl, hd⟩ := hde (by omega)
      have hne : src = dst → si ≠ di := by
        rintro rfl rfl
        have := hok.span_eq hs hd rfl
        exact hapart rfl (congrArg Span.start this)
      obtain ⟨sys1, b', d', hclip, hok1, hmapped, hs1, hd1, hb', hsize⟩ :=
        clipBoth_spec w hok hs hd hne hlt hlen hsrc hdst
      have hb'lt := hok1.span_lt hs1
      simp only [hclip, bind_eq_bind, bind_some] at hloop
      obtain ⟨sys2, hcopy, hloop⟩ := bind_eq_some_iff.1 hloop
      have hsame := copyEntries_sameSpans w hok1 hs1 hd1 hcopy
      have hok2 := hsame.ok hok1
      obtain ⟨se, hse, hspan⟩ := hok2.entry_eq (hsame.hasSpan hs1)
      have hend : se.vmeEnd = b' := congrArg Span.stop hspan
      have hsm2 : ∀ x, srcStart ≤ x → x < srcEnd → sys2.Mapped src x := fun x hx hx' =>
        hsame.mapped (hmapped _ _ (hsm x hx hx'))
      have hdm2 : ∀ x, dstStart ≤ x → x < dstEnd → sys2.Mapped dst x := fun x hx hx' =>
        hsame.mapped (hmapped _ _ (hdm x hx hx'))
      obtain ⟨srcNext, hsnext, hsptr⟩ := hok2.next_eq (hsame.hasSpan hs1) (hsm2 b' hb'lt.le)
      obtain ⟨dstNext, hdnext, hdptr⟩ := hok2.next_eq (hsame.hasSpan hd1) (hdm2 d' (by omega))
      simp only [hse, hsnext, hdnext, hend, bind_some] at hloop
      refine ih ⟨hok2, fun x hx => hsm2 x (by omega), fun x hx => hdm2 x (by omega), hsptr, hdptr,
        by omega, fun heq => ?_⟩ (hP.write (hP.clipBoth hsys hclip) hsame) hloop
      omega
    · obtain rfl := some.inj hloop
      exact ⟨h.ok, hsys⟩

/-! ## The whole copy -/

lemma enterCopy_spec (w : VmLayers ο σ) (h : sys.Ok) (hx : sys.Mapped m address) :
    ∃ id b sys', sys.enterCopy w m address = some (id, sys') ∧ sys'.Ok ∧
      (∀ n x, sys.Mapped n x → sys'.Mapped n x) ∧ sys'.HasSpan m ⟨id, address, b⟩ ∧
      (∀ n r, (m = n → r.id ≠ id) → sys.HasSpan n r → sys'.HasSpan n r) ∧
      ∃ a, sys.HasSpan m ⟨id, a, b⟩ ∧ a ≤ address ∧
        (a < address → ∃ k, sys'.HasSpan m ⟨k, a, address⟩) := by
  obtain ⟨map, hmap, hx⟩ := hx
  obtain ⟨c, hint, hlook, hlooked, hwf⟩ := lookup_of_mapped (h.map hmap) hx
  have hlooked' : Looked address (map.saveHint hint).entries true c := hlooked
  obtain ⟨e, rest, hrest, hle, hspan, hnew, hmapped, hother, hfront⟩ :=
    clipStart_spans w hlooked' sys.world
  have hentered := clipStart_entered w hwf hlooked' sys.world
  have henter : sys.enterCopy w m address = some (e.id,
      ⟨sys.maps.set m (vmMapClipStart w address c (map.saveHint hint) sys.world).2.1,
        (vmMapClipStart w address c (map.saveHint hint) sys.world).2.2⟩) :=
    onMap_eq hmap (by simp [hlook, hrest])
  refine ⟨e.id, e.vmeEnd, _, henter, h.set hentered.wf _, fun n x => mapped_set hmap _ hmapped,
    ⟨_, getElem?_set_map hmap, hnew⟩, fun n r hne => hasSpan_set hmap _ fun hmn hr =>
      hother r hr (hne hmn), e.vmeStart, ⟨map, hmap, hspan⟩, hle, fun hlt => ?_⟩
  exact ⟨map.created, _, getElem?_set_map hmap, hfront hlt⟩

lemma reenterCopy_spec (h : sys.Ok) {k : ℕ} (hr : sys.HasSpan m ⟨k, a, b⟩) :
    ∃ sys', sys.reenterCopy m a = some (k, sys') ∧ sys'.Ok ∧
      ∀ n r, sys.HasSpan n r → sys'.HasSpan n r := by
  have hlt := h.span_lt hr
  obtain ⟨map, hmap, hr⟩ := hr
  obtain ⟨e0, he0, hspan0⟩ := mem_map.1 hr
  obtain ⟨hstart, hend⟩ := bounds_of_span hspan0
  have hx : map.Mapped a := ⟨e0, he0, by omega, by omega⟩
  obtain ⟨c, hint, hlook, hlooked, hwf⟩ := lookup_of_mapped (h.map hmap) hx
  obtain ⟨e, rest, hrest, hlow, hhigh⟩ := hlooked.found_spec rfl
  have he : e.span ∈ spans map.entries := by
    rw [← hlooked.entries]
    simp [Cut.entries, hrest]
  have heq : e.span = ⟨k, a, b⟩ :=
    (h.map hmap).shape.eq_of_contains he hr ⟨hlow, hhigh⟩ ⟨le_rfl, hlt⟩
  have hid : e.id = k := congrArg Span.id heq
  refine ⟨⟨sys.maps.set m (map.saveHint hint), sys.world⟩, ?_, h.set hwf _, fun n r =>
    hasSpan_set hmap _ fun _ hr => hr⟩
  exact onMap_eq hmap (by simp [hlook, hrest, hid])

variable {srcAddr dstAddr : ℕ}

lemma copyRegion_ok (hP : Kept w P) (h : sys.Ok) (hsys : P sys) (hsrc : srcEnd < 2 ^ 32)
    (hdst : dstEnd < 2 ^ 32) (hlen : srcEnd + dstAddr = dstEnd + srcAddr)
    (hs : sys.Mapped src srcAddr) (hd : sys.Mapped dst dstAddr)
    (hsm : ∀ x, srcAddr ≤ x → x < srcEnd → sys.Mapped src x)
    (hdm : ∀ x, dstAddr ≤ x → x < dstEnd → sys.Mapped dst x)
    (hcopy : sys.copyRegion w src dst srcAddr srcEnd dstAddr dstEnd = some sys') :
    sys'.Ok ∧ P sys' := by
  obtain ⟨si, b, sys1, henter1, hok1, hmap1, hs1, -⟩ := enterCopy_spec w h hs
  obtain ⟨di, d, sys2, henter2, hok2, hmap2, hd2, hother, a, hfound, hle, hfront⟩ :=
    enterCopy_spec w hok1 (hmap1 _ _ hd)
  have hsys2 := hP.enter hok1 (hP.enter h hsys henter1) henter2
  simp only [copyRegion, henter1, henter2, bind_eq_bind, bind_some] at hcopy
  by_cases hsame : src = dst ∧ si = di
  · obtain ⟨rfl, rfl⟩ := hsame
    obtain rfl : srcAddr = a := congrArg Span.start (hok1.span_eq hs1 hfound rfl)
    simp only [and_self, if_true] at hcopy
    by_cases hlt : srcAddr < dstAddr
    · -- the destination was cut out of the entry of the source
      obtain ⟨k, hk⟩ := hfront hlt
      obtain ⟨sys3, hre, hok3, hspans⟩ := reenterCopy_spec hok2 hk
      have hne : k ≠ si := by
        rintro rfl
        have := congrArg Span.start (hok2.span_eq hk hd2 rfl)
        simp only at this
        omega
      simp only [hre, bind_some, hne, and_false, if_false] at hcopy
      have hmapped : ∀ x, sys2.Mapped src x → sys3.Mapped src x := fun x hx => by
        obtain ⟨r, hr, hrx⟩ := mapped_iff_hasSpan.1 hx
        exact mapped_iff_hasSpan.2 ⟨r, hspans _ _ hr, hrx⟩
      refine copyLoop_ok hP hsrc hdst ⟨hok3, fun x hx hx' => hmapped x (hmap2 _ _ (hmap1 _ _
        (hsm x hx hx'))), fun x hx hx' => hmapped x (hmap2 _ _ (hmap1 _ _ (hdm x hx hx'))),
        fun _ => ⟨k, _, rfl, hspans _ _ hk⟩, fun _ => ⟨si, _, rfl, hspans _ _ hd2⟩, hlen,
        fun _ => hlt.ne⟩ (hP.reenter hok2 hsys2 hre) hcopy
    · obtain rfl : srcAddr = dstAddr := le_antisymm hle (not_lt.1 hlt)
      obtain ⟨sys3, hre, hok3, -⟩ := reenterCopy_spec hok2 hd2
      simp only [hre, bind_some, and_self, if_true] at hcopy
      obtain rfl := some.inj hcopy
      exact ⟨hok3, hP.reenter hok2 hsys2 hre⟩
  · have hs2 : sys2.HasSpan src ⟨si, srcAddr, b⟩ :=
      hother src _ (fun heq hid => hsame ⟨heq.symm, hid⟩) hs1
    simp only [if_neg hsame] at hcopy
    refine copyLoop_ok hP hsrc hdst ⟨hok2, fun x hx hx' => hmap2 _ _ (hmap1 _ _ (hsm x hx hx')),
      fun x hx hx' => hmap2 _ _ (hmap1 _ _ (hdm x hx hx')), fun _ => ⟨si, b, rfl, hs2⟩,
      fun _ => ⟨di, d, rfl, hd2⟩, hlen, ?_⟩ hsys2 hcopy
    rintro rfl rfl
    exact hsame ⟨rfl, hok2.id_eq_of_start hs2 hd2⟩

lemma checkWalk_mapped {prot : VmProt} {es : List (VmMapEntry ο)} {start : ℕ}
    (h : checkWalk stop prot start es = true) (hx : start ≤ x) (hx' : x < stop) :
    ∃ e ∈ es, e.vmeStart ≤ x ∧ x < e.vmeEnd := by
  induction es generalizing start with
  | nil =>
    have : ¬start < stop := by simpa [checkWalk] using h
    omega
  | cons e es ih =>
    unfold checkWalk at h
    rw [if_pos (hx.trans_lt hx')] at h
    split_ifs at h with hhole hprot
    obtain hlt | hge := lt_or_ge x e.vmeEnd
    · exact ⟨e, mem_cons_self .., by omega, hlt⟩
    · obtain ⟨f, hf, hfx⟩ := ih h hge
      exact ⟨f, mem_cons_of_mem _ hf, hfx⟩

lemma checkProtection_spec (h : sys.Ok) {map : VmMap ο} (hmap : sys.maps[m]? = some map)
    (start stop : ℕ) (prot : VmProt) :
    ∃ ok sys', (sys.onMap m fun map s =>
        (vmMapCheckProtection map start stop prot).map fun r => (r.1, r.2, s)) = some (ok, sys') ∧
      sys'.Ok ∧ (∀ n x, sys.Mapped n x → sys'.Mapped n x) ∧
      (∀ n, n < sys.maps.length → n < sys'.maps.length) ∧
      (ok = true → sys'.Mapped m start ∧ ∀ x, start ≤ x → x < stop → sys'.Mapped m x) := by
  obtain ⟨found, c, hint, hlook, hlooked, hwf, -⟩ := lookup_spec (h.map hmap) start
  refine ⟨_, _, onMap_eq hmap (by simp only [vmMapCheckProtection, hlook]; rfl), h.set hwf _,
    fun n x => mapped_set hmap _ (show ∀ x, map.Mapped x → (map.saveHint hint).Mapped x from
      fun _ hx => hx), by simp, fun hok => ?_⟩
  obtain ⟨rfl, hwalk⟩ := Bool.and_eq_true_iff.1 hok
  have hrest : ∀ e ∈ c.rest, e ∈ map.entries := fun e he => by
    rw [← hlooked.entries]
    exact mem_append_right _ he
  obtain ⟨e, rest, hcons, hin⟩ := hlooked.found_spec rfl
  refine ⟨⟨_, getElem?_set_map hmap, e, hrest e (by simp [hcons]), hin⟩, fun x hx hx' => ?_⟩
  obtain ⟨f, hf, hfx⟩ := checkWalk_mapped hwalk hx hx'
  exact ⟨_, getElem?_set_map hmap, f, hrest f hf, hfx⟩

variable {dstAlloc : Bool}

lemma copyCheck_spec (w : VmLayers ο σ) (mem : VmMapEntry ο) (h : sys.Ok)
    (hcheck : sys.copyCheck w mem src dst srcAddr srcEnd dstAddr dstEnd dstAlloc =
      some (kr, sys')) :
    sys'.Ok ∧ (kr = .success → sys'.Mapped src srcAddr ∧ sys'.Mapped dst dstAddr ∧
      (∀ x, srcAddr ≤ x → x < srcEnd → sys'.Mapped src x) ∧
      ∀ x, dstAddr ≤ x → x < dstEnd → sys'.Mapped dst x) := by
  obtain ⟨srcMap, hsrc, hcheck⟩ := bind_eq_some_iff.1 hcheck
  obtain ⟨dstMap, hdst, hcheck⟩ := bind_eq_some_iff.1 hcheck
  obtain ⟨readable, sys1, hread, hok1, -, hlen1, hreadable⟩ :=
    checkProtection_spec h hsrc srcAddr srcEnd vmProtRead
  simp only [(h.map hsrc).isMainMap, (h.map hdst).isMainMap, Bool.and_self, if_true, hread,
    bind_eq_bind, bind_some] at hcheck
  cases readable with
  | false =>
    obtain ⟨rfl, rfl⟩ := Prod.mk.inj (some.inj hcheck)
    exact ⟨hok1, by simp⟩
  | true =>
    obtain ⟨hs, hsm⟩ := hreadable rfl
    obtain ⟨dstMap1, hdst1⟩ : ∃ map, sys1.maps[dst]? = some map :=
      ⟨_, List.getElem?_eq_getElem (hlen1 dst (List.getElem?_eq_some_iff.1 hdst).1)⟩
    cases dstAlloc with
    | true =>
      obtain ⟨kr', map', s', hinsert, hwf, hmapped, hnew⟩ :=
        insert_spec w mem (hok1.map hdst1) none 0 dstAddr dstEnd sys1.world
      have honMap : (sys1.onMap dst fun map s => vmMapInsert w mem map none 0 dstAddr dstEnd s) =
          some (kr', _) := onMap_eq hdst1 hinsert
      simp only [Bool.not_true, Bool.false_eq_true, if_false, if_true, honMap, some.injEq,
        Prod.mk.injEq] at hcheck
      obtain ⟨rfl, rfl⟩ := hcheck
      refine ⟨hok1.set hwf s', fun hkr => ?_⟩
      obtain ⟨hlt, hdm⟩ := hnew hkr
      exact ⟨mapped_set hdst1 s' hmapped hs, ⟨_, getElem?_set_map hdst1, hdm _ le_rfl hlt⟩,
        fun x hx hx' => mapped_set hdst1 s' hmapped (hsm x hx hx'),
        fun x hx hx' => ⟨_, getElem?_set_map hdst1, hdm x hx hx'⟩⟩
    | false =>
      obtain ⟨writable, sys2, hwrite, hok2, hmap2, -, hwritable⟩ :=
        checkProtection_spec hok1 hdst1 dstAddr dstEnd vmProtWrite
      simp only [Bool.not_true, Bool.false_eq_true, if_false, hwrite, bind_some,
        Option.pure_def, some.injEq, Prod.mk.injEq] at hcheck
      obtain ⟨rfl, rfl⟩ := hcheck
      refine ⟨hok2, fun hkr => ?_⟩
      cases writable with
      | false => simp at hkr
      | true =>
        obtain ⟨hd, hdm⟩ := hwritable rfl
        exact ⟨hmap2 _ _ hs, hd, fun x hx hx' => hmap2 _ _ (hsm x hx hx'), hdm⟩

variable {srcDestroy : Bool}

variable {len : ℕ}

lemma copy_kept [DecidableEq ο] (hP : Kept w P) (h : sys.Ok) (hsys : P sys)
    (hPcheck : ∀ {kr} {sys₁ : VmSystem ο σ}, sys.copyCheck w mem src dst srcAddr
      (add32 srcAddr len) dstAddr (add32 dstAddr len) dstAlloc = some (kr, sys₁) → P sys₁)
    (hPreturn : ∀ {src srcAddr srcEnd srcDestroy} {sys₁ sys₂ : VmSystem ο σ}, sys₁.Ok → P sys₁ →
      sys₁.copyReturn w src srcAddr srcEnd srcDestroy = some sys₂ → P sys₂)
    (hsrc : srcAddr < 2 ^ 32) (hdst : dstAddr < 2 ^ 32) (hlen : len < 2 ^ 32)
    (hcopy : sys.vmMapCopy w mem dst src dstAddr len srcAddr dstAlloc srcDestroy =
      some (kr, sys')) : sys'.Ok ∧ P sys' := by
  unfold vmMapCopy at hcopy
  by_cases hwrap : add32 dstAddr len < dstAddr ∨ add32 srcAddr len < srcAddr
  · rw [if_pos hwrap] at hcopy
    obtain ⟨-, rfl⟩ := Prod.mk.inj (some.inj hcopy)
    exact ⟨h, hsys⟩
  rw [if_neg hwrap] at hcopy
  simp only [not_or, not_lt] at hwrap
  obtain ⟨hdstEnd, hsrcEnd⟩ :
      add32 dstAddr len = dstAddr + len ∧ add32 srcAddr len = srcAddr + len := by
    simp only [add32] at hwrap ⊢
    omega
  obtain ⟨⟨result, sys₁⟩, hcheck, hcopy⟩ := bind_eq_some_iff.1 hcopy
  obtain ⟨sys3, hcopied, heq⟩ := map_eq_some_iff.1 hcopy
  obtain ⟨sys₂, hregion, hreturn⟩ := bind_eq_some_iff.1 hcopied
  obtain ⟨-, rfl⟩ := Prod.mk.inj heq
  obtain ⟨hok1, hmapped⟩ := copyCheck_spec w mem h hcheck
  obtain ⟨hok2, hsys2⟩ : sys₂.Ok ∧ P sys₂ := by
    split_ifs at hregion with hresult
    · obtain ⟨hs, hd, hsm, hdm⟩ := hmapped hresult
      refine copyRegion_ok hP hok1 (hPcheck hcheck) ?_ ?_ (by omega) hs hd hsm hdm hregion
      all_goals exact Nat.mod_lt _ (by norm_num)
    · obtain rfl := some.inj hregion
      exact ⟨hok1, hPcheck hcheck⟩
  refine ⟨?_, hPreturn hok2 hsys2 hreturn⟩
  unfold copyReturn at hreturn
  split_ifs at hreturn
  · refine hok2.onMap (fun map s hwf => ?_) hreturn
    obtain ⟨map', s', hspec, hwf'⟩ := delete_spec w hwf srcAddr _ s
    exact ⟨_, map', s', hspec, hwf'⟩
  · obtain rfl := some.inj hreturn
    exact hok2

lemma copy_ok [DecidableEq ο] (h : sys.Ok) (hsrc : srcAddr < 2 ^ 32) (hdst : dstAddr < 2 ^ 32)
    (hlen : len < 2 ^ 32)
    (hcopy : sys.vmMapCopy w mem dst src dstAddr len srcAddr dstAlloc srcDestroy =
      some (kr, sys')) : sys'.Ok := by
  refine (copy_kept (P := fun _ => True) ⟨?_, ?_, ?_, ?_⟩ h trivial ?_ ?_ hsrc hdst hlen hcopy).1
  all_goals
    intros
    trivial

end VmSystem

/-! ## Runs -/

/-- A call on one of the maps; addresses and sizes are words, `mem` is what a zone
element held before. -/
inductive VmMapEvent (ο : Type) where
  | create (pmap : ℕ) (min max : UInt32)
  | insert (m : ℕ) (mem : VmMapEntry ο) (object : Option ο) (offset start stop : UInt32)
  | find (m : ℕ) (mem : VmMapEntry ο) (object : Option ο) (offset addr length : UInt32)
      (anywhere : Bool)
  | findEntry (m : ℕ) (mem : VmMapEntry ο) (size : UInt32) (object : Option ο)
  | protect (m : ℕ) (start stop : UInt32) (newProt : VmProt) (setMax : Bool)
  | inherit (m : ℕ) (start stop newInheritance : UInt32)
  | pageable (m : ℕ) (start stop : UInt32) (newPageable : Bool)
  | reallocate (m : ℕ) (start stop : UInt32)
  | remove (m : ℕ) (start stop : UInt32)
  | delete (m : ℕ) (start stop : UInt32)
  | copy (mem : VmMapEntry ο) (dst src : ℕ) (dstAddr len srcAddr : UInt32)
      (dstAlloc srcDestroy : Bool)

namespace VmSystem

variable [DecidableEq ο]

def step (w : VmLayers ο σ) (sys : VmSystem ο σ) : VmMapEvent ο → Option (VmSystem ο σ)
  | .create pmap min max =>
    some { sys with maps := sys.maps ++ [vmMapCreate ο pmap min.toNat max.toNat] }
  | .insert m mem object offset start stop => (sys.onMap m fun map s =>
      vmMapInsert w mem map object offset.toNat start.toNat stop.toNat s).map Prod.snd
  | .find m mem object offset addr length anywhere => (sys.onMap m fun map s =>
      (vmMapFind w mem map object offset.toNat addr.toNat length.toNat anywhere s).map
        fun r => (r.1, r.2.2)).map Prod.snd
  | .findEntry m mem size object => (sys.onMap m fun map s =>
      (vmMapFindEntry mem map size.toNat 0 object).map fun r => (r.1, r.2.2, s)).map Prod.snd
  | .protect m start stop newProt setMax => (sys.onMap m fun map s =>
      vmMapProtect w map start.toNat stop.toNat newProt setMax s).map Prod.snd
  | .inherit m start stop newInheritance => (sys.onMap m fun map s =>
      vmMapInherit w map start.toNat stop.toNat newInheritance.toNat s).map Prod.snd
  | .pageable m start stop newPageable => (sys.onMap m fun map s =>
      vmMapPageable w map start.toNat stop.toNat newPageable s).map Prod.snd
  | .reallocate m start stop => (sys.onMap m fun map s =>
      vmMapReallocate w map start.toNat stop.toNat s).map Prod.snd
  | .remove m start stop => (sys.onMap m fun map s =>
      vmMapRemove w map start.toNat stop.toNat s).map Prod.snd
  | .delete m start stop => (sys.onMap m fun map s =>
      vmMapDelete w map start.toNat stop.toNat s).map Prod.snd
  | .copy mem dst src dstAddr len srcAddr dstAlloc srcDestroy =>
    (sys.vmMapCopy w mem dst src dstAddr.toNat len.toNat srcAddr.toNat dstAlloc srcDestroy).map
      Prod.snd

variable {sys sys' : VmSystem ο σ}

omit [DecidableEq ο] in
lemma create_wf {pmap min max : ℕ} (hmin : min < 2 ^ 32) (hmax : max < 2 ^ 32) :
    (vmMapCreate ο pmap min max).Wf := by
  refine ⟨⟨by simp [vmMapCreate, VmMap.shape, InOrder], by simp [vmMapCreate, VmMap.shape], rfl,
    by simp [vmMapCreate, VmMap.shape], by simp [vmMapCreate, VmMap.shape], ?_, ?_⟩,
    ⟨hmin, hmax⟩, rfl⟩
  all_goals
    intro id hid
    cases hid

lemma step_ok (w : VmLayers ο σ) (h : sys.Ok) {e : VmMapEvent ο}
    (hsize : ∀ m mem object, e ≠ .findEntry m mem 0 object) (hstep : sys.step w e = some sys') :
    sys'.Ok := by
  cases e with
  | create pmap min max =>
    obtain rfl := Option.some.inj hstep
    intro map hmap
    obtain hmap | hmap := mem_append.1 hmap
    · exact h map hmap
    · obtain rfl := mem_singleton.1 hmap
      exact create_wf min.toNat_lt max.toNat_lt
  | insert m mem object offset start stop =>
    refine h.onMap (fun map s hwf => ?_) hstep
    obtain ⟨kr, map', s', heq, hwf', -⟩ :=
      insert_spec w mem hwf object offset.toNat start.toNat stop.toNat s
    exact ⟨kr, map', s', heq, hwf'⟩
  | find m mem object offset addr length anywhere =>
    refine h.onMap (fun map s hwf => ?_) hstep
    obtain ⟨kr, a, map', s', heq, hwf'⟩ :=
      find_spec w mem hwf object offset.toNat length.toNat addr.toNat_lt anywhere s
    exact ⟨kr, map', s', by rw [heq]; rfl, hwf'⟩
  | findEntry m mem size object =>
    refine h.onMap (fun map s hwf => ?_) hstep
    have hpos : 0 < size.toNat := by
      rw [Nat.pos_iff_ne_zero]
      intro hzero
      exact hsize m mem object (by rw [UInt32.toNat_inj.1 (hzero.trans UInt32.toNat_zero.symm)])
    obtain ⟨kr, a, map', heq, hwf'⟩ := findEntry_spec mem hwf ⟨hpos, size.toNat_lt⟩ object
    exact ⟨kr, map', s, by rw [heq]; rfl, hwf'⟩
  | protect m start stop newProt setMax =>
    exact h.onMap (fun map s hwf => protect_spec w hwf _ _ s newProt setMax) hstep
  | inherit m start stop newInheritance =>
    exact h.onMap (fun map s hwf => inherit_spec w hwf _ _ s _) hstep
  | pageable m start stop newPageable =>
    exact h.onMap (fun map s hwf => pageable_spec w hwf _ _ s newPageable) hstep
  | reallocate m start stop =>
    exact h.onMap (fun map s hwf => reallocate_spec w hwf _ _ s) hstep
  | remove m start stop | delete m start stop =>
    exact h.onMap (fun map s hwf => ⟨_, delete_spec w hwf _ _ s⟩) hstep
  | copy mem dst src dstAddr len srcAddr dstAlloc srcDestroy =>
    obtain ⟨⟨kr, sys1⟩, hcopy, rfl⟩ := Option.map_eq_some_iff.1 hstep
    exact copy_ok h srcAddr.toNat_lt dstAddr.toNat_lt len.toNat_lt hcopy

end VmSystem

structure VmMap.WellFormed (map : VmMap ο) : Prop where
  sorted : map.entries.Pairwise fun a b => a.vmeStart < b.vmeStart
  nonempty : ∀ e ∈ map.entries, e.vmeStart < e.vmeEnd
  inside : ∀ e ∈ map.entries, map.minOffset ≤ e.vmeStart ∧ e.vmeEnd ≤ map.maxOffset
  disjoint : map.entries.Pairwise fun a b => a.vmeEnd ≤ b.vmeStart
  nentries : map.nentries = map.entries.length
  hint : ∀ id, map.hint = some id → ∃ e ∈ map.entries, e.id = id
  firstFree : ∀ id, map.firstFree = some id → ∃ e ∈ map.entries, e.id = id

lemma VmMap.Wf.wellFormed {map : VmMap ο} (h : map.Wf) : map.WellFormed := by
  have hdisjoint := h.disjoint
  have hpoints : ∀ p, PointsInto map.shape.spans p → ∀ id, p = some id →
      ∃ e ∈ map.entries, e.id = id := by
    intro p hp id hid
    obtain ⟨r, hr, rfl⟩ := hp id hid
    obtain ⟨e, he, rfl⟩ := mem_map.1 hr
    exact ⟨e, he, rfl⟩
  refine ⟨?_, fun e he => (h.within he).2.1, fun e he => ⟨(h.within he).1, (h.within he).2.2⟩,
    hdisjoint, ?_, hpoints _ h.shape.hint, hpoints _ h.shape.free⟩
  · exact hdisjoint.imp_of_mem fun ha _ hle => (h.within ha).2.1.trans_le hle
  · simpa [VmMap.shape, spans] using h.shape.count_eq

/-- Runs from no maps at all, in which no entry of size zero is asked for. -/
inductive VmMapRun [DecidableEq ο] (w : VmLayers ο σ) : VmSystem ο σ → Prop where
  | start (s : σ) : VmMapRun w ⟨[], s⟩
  | step {sys sys' : VmSystem ο σ} {e : VmMapEvent ο} : VmMapRun w sys →
    (∀ m mem object, e ≠ .findEntry m mem 0 object) → sys.step w e = some sys' → VmMapRun w sys'

lemma VmMapRun.ok [DecidableEq ο] {sys : VmSystem ο σ} (hrun : VmMapRun w sys) : sys.Ok := by
  induction hrun with
  | start s => exact fun map hmap => absurd hmap not_mem_nil
  | step _ hsize hstep ih => exact VmSystem.step_ok w ih hsize hstep

/-- What every step keeps, the run of a list of events keeps. -/
lemma run_of_foldlM {α ε : Type} {step : α → ε → Option α} {R : α → Prop} {P : ε → Prop}
    (hstep : ∀ {a a' : α} {e : ε}, R a → P e → step a e = some a' → R a') {es : List ε} {a a' : α}
    (ha : R a) (hes : ∀ e ∈ es, P e) (h : es.foldlM step a = some a') : R a' := by
  induction es generalizing a with
  | nil =>
    cases h
    exact ha
  | cons e es ih =>
    obtain ⟨hfirst, hrest⟩ := forall_mem_cons.1 hes
    obtain ⟨a1, hone, h⟩ := Option.bind_eq_some_iff.1 h
    exact ih (hstep ha hfirst hone) hrest h

lemma findEntry_zero [DecidableEq ο] {map : VmMap ο} (h : map.Wf) {object : Option ο}
    {a : Option ℕ} (hfind : vmMapFindEntry mem map 0 0 object = some (kr, a, map')) :
    map'.WellFormed ↔ map'.nentries = map.nentries := by
  cases findsEntry_of_eq h hfind with
  | noSpace => exact ⟨fun _ => rfl, fun _ => h.wellFormed⟩
  | extend hgap hlast hend =>
    exact ⟨fun _ => rfl, fun _ => (h.extendFound hgap hlast hend).wellFormed⟩
  | @insert c start new hgap hid hstart hstop =>
    constructor
    · intro hwf
      have hlt := hwf.nonempty new (mem_append_right _ (mem_cons_self ..))
      rw [hstop, ← hstart] at hlt
      exact absurd hlt (Nat.mod_le ..).not_gt
    intro hcount
    simp only [VmMap.create] at hcount
    omega

/-- In every run without requests of size zero all maps are well formed; such a request breaks the
map exactly if it makes an entry. -/
theorem vmMapRun_wellFormed [DecidableEq ο] {w : VmLayers ο σ} {sys : VmSystem ο σ}
    (hrun : VmMapRun w sys) :
    (∀ map ∈ sys.maps, map.WellFormed) ∧ ∀ map ∈ sys.maps, ∀ mem object kr a map',
        vmMapFindEntry mem map 0 0 object = some (kr, a, map') →
          (map'.WellFormed ↔ map'.nentries = map.nentries) :=
  ⟨fun map hmap => (hrun.ok map hmap).wellFormed,
    fun map hmap _ _ _ _ _ hfind => findEntry_zero (hrun.ok map hmap) hfind⟩

def nullLayers : VmLayers Unit Unit where
  call _ s := s
  kernelObject := ()
  objectAllocate _ s := ((), s)
  objectCoalesce _ _ _ _ s := (true, s)
  objectShadow object offset _ s := ((object, offset), s)
  objectCopy object offset _ s := ((object, offset, true), s)
  faultWire _ _ _ s := (false, s)

def clearEntry : VmMapEntry Unit where
  id := 0
  vmeStart := 0
  vmeEnd := 0
  object := none
  offset := 0
  isAMap := false
  isShared := false
  isSubMap := false
  copyOnWrite := false
  inTransition := false
  needsWakeup := false
  needsCopy := false
  protection := 0
  maxProtection := 0
  inheritance := .share
  wiredCount := 0
  userWiredCount := 0

/-- Three pages, clipped by a protection and a deletion; the two that stay are copied, and a page
is found between. -/
def clippedPages : List (VmMapEvent Unit) :=
  [.create 0 0x1000 0x8000, .insert 0 clearEntry (some ()) 0 0x1000 0x4000,
    .protect 0 0x2000 0x3000 vmProtRead false, .delete 0 0x3000 0x4000,
    .copy clearEntry 0 0 0x5000 0x2000 0x1000 true false, .findEntry 0 clearEntry 0x1000 none]

theorem vmMapRun_wellFormed_clipped :
    ∃ sys, clippedPages.foldlM (VmSystem.step nullLayers) ⟨[], ()⟩ = some sys ∧
      sys.maps.map (fun map => map.entries.map VmMapEntry.vmeStart) =
        [[0x1000, 0x2000, 0x3000, 0x5000, 0x6000]] ∧ ∀ map ∈ sys.maps, map.WellFormed := by
  have hrun : (clippedPages.foldlM (VmSystem.step nullLayers) ⟨[], ()⟩).any (fun sys =>
      sys.maps.map (fun map => map.entries.map VmMapEntry.vmeStart) =
        [[0x1000, 0x2000, 0x3000, 0x5000, 0x6000]]) = true := by
    decide +kernel
  obtain ⟨sys, hsys, hstarts⟩ := (Option.any_eq_true _ _).1 hrun
  refine ⟨sys, hsys, of_decide_eq_true hstarts, ?_⟩
  have hsize : ∀ e ∈ clippedPages, ∀ m mem object, e ≠ VmMapEvent.findEntry m mem 0 object := by
    simp [clippedPages]
  exact (vmMapRun_wellFormed (run_of_foldlM VmMapRun.step (.start ()) hsize hsys)).1

/-- Asked for an entry of size zero, a new map gets an empty one. -/
theorem findEntry_makes_empty :
    ∃ sys, [VmMapEvent.create 0 0x1000 0x3000, .findEntry 0 clearEntry 0 none].foldlM
        (VmSystem.step nullLayers) ⟨[], ()⟩ = some sys ∧
      ∃ map ∈ sys.maps, (∃ e ∈ map.entries, e.vmeStart = 0x1000 ∧ e.vmeEnd = 0x1000) ∧
        ¬map.WellFormed := by
  have hrun : ([VmMapEvent.create 0 0x1000 0x3000, .findEntry 0 clearEntry 0 none].foldlM
      (VmSystem.step nullLayers) ⟨[], ()⟩).map (fun sys => sys.maps.map fun map =>
        map.entries.map fun e => (e.vmeStart, e.vmeEnd)) = some [[(0x1000, 0x1000)]] := by
    decide +kernel
  obtain ⟨sys, hsys, hmaps⟩ := Option.map_eq_some_iff.1 hrun
  obtain ⟨map, hmap⟩ := map_eq_singleton_iff.1 hmaps
  obtain ⟨e, he⟩ := map_eq_singleton_iff.1 hmap.2
  have hmem : e ∈ map.entries := by simp [he.1]
  obtain ⟨hstart, hend⟩ := Prod.mk.inj he.2
  refine ⟨sys, hsys, map, by simp [hmap.1], ⟨e, hmem, hstart, hend⟩, fun hwf => ?_⟩
  have := hwf.nonempty e hmem
  omega

end Rhapsody.Vm
