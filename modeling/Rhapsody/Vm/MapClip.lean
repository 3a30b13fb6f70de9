import Rhapsody.Vm.MapRuns

/-! What operations on the entries of a range have in common: they split entries, rewrite them in
place and move the lookup hint. An invariant that survives this, mapping and unmapping survives
every call. -/

namespace Rhapsody.Vm
open Rhapsody.Lib List Option

variable {ο σ : Type} {map map' : VmMap ο} {c : Cut ο}

structure Splits (map : VmMap ο) (es : List (VmMapEntry ο)) (xs ys : List (VmMapEntry ο))
    (e a b : VmMapEntry ο) : Prop where
  before : map.entries = xs ++ e :: ys
  after : es = xs ++ a :: b :: ys
  start : a.vmeStart = e.vmeStart
  stop : b.vmeEnd = e.vmeEnd
  mid : a.vmeEnd = b.vmeStart
  mid_le : a.vmeEnd ≤ e.vmeEnd
  ids : a.id = map.created ∧ b.id = e.id ∨ a.id = e.id ∧ b.id = map.created

inductive Clipped : VmMap ο → VmMap ο → Prop where
  | rewrite {map : VmMap ο} {es : List (VmMapEntry ο)} (hint : Option ℕ) :
    spans es = spans map.entries → Clipped map { map with entries := es, hint := hint }
  | split {map : VmMap ο} {es xs ys : List (VmMapEntry ο)} {e a b : VmMapEntry ο} :
    Splits map es xs ys e a b → Clipped map { map.create with entries := es }
  | trans {map map' map'' : VmMap ο} : Clipped map map' → Clipped map' map'' → Clipped map map''

lemma Clipped.refl (map : VmMap ο) : Clipped map map := .rewrite map.hint rfl

lemma Clipped.saveHint (map : VmMap ο) (hint : Option ℕ) : Clipped map (map.saveHint hint) :=
  .rewrite hint rfl

/-! ## Operations on ranges -/

variable {start stop : ℕ} {s s' : σ} {w : VmLayers ο σ}

lemma clipStart_clipped (w : VmLayers ο σ) (hes : c.entries = map.entries)
    (hhead : ∀ e rest, c.rest = e :: rest → start ≤ e.vmeEnd) (s : σ) :
    Clipped map (vmMapClipStart w start c map s).2.1 := by
  obtain ⟨before, rest⟩ := c
  unfold vmMapClipStart
  cases rest with
  | nil => exact .refl map
  | cons e es =>
    dsimp only
    split_ifs
    · refine .split (a := (splitStart map e start).1) (b := (splitStart map e start).2)
        ⟨hes.symm, ?_, rfl, rfl, rfl, hhead e es rfl, .inl ⟨rfl, rfl⟩⟩
      simp [Cut.entries]
    · exact .refl map

lemma Looked.head_le {address : ℕ} {es : List (VmMapEntry ο)}
    (h : Looked address es true c) : ∀ e rest, c.rest = e :: rest → address ≤ e.vmeEnd := by
  intro e rest hrest
  obtain ⟨e', rest', hrest', -, hlt⟩ := h.found_spec rfl
  obtain ⟨rfl, -⟩ := cons.inj (hrest.symm.trans hrest')
  exact hlt.le

lemma enter_clipped {fixHint : Bool} (hwf : map.Wf)
    (henter : vmMapEnter w fixHint start map s = some (c, map', s')) : Clipped map map' := by
  obtain ⟨found, c1, hint, hlook, hlooked, -, -⟩ := lookup_spec hwf start
  simp only [vmMapEnter, hlook, bind_eq_bind, bind_some] at henter
  have hsaved := Clipped.saveHint map hint
  cases found with
  | false =>
    obtain ⟨-, rfl, -⟩ : _ ∧ _ = map' ∧ _ := by simpa using henter
    exact hsaved
  | true =>
    have hentries : c1.entries = (map.saveHint hint).entries := hlooked.entries
    have hclip := hsaved.trans (clipStart_clipped w hentries hlooked.head_le s)
    obtain ⟨-, rfl, -⟩ : _ ∧ _ = map' ∧ _ := by simpa using henter
    cases fixHint with
    | false => exact hclip
    | true => exact hclip.trans (.saveHint _ _)

lemma clipRange_clipped (w : VmLayers ο σ) (stop : ℕ)
    {f : VmMapEntry ο → σ → VmMapEntry ο × σ} (hf : ∀ e s, (f e s).1.span = e.span)
    (hes : c.entries = map.entries) (s : σ) : Clipped map (clipRange w stop f c map s).2.1 := by
  have hcut : Clipped map { map with entries := c.before ++ c.rest } := by
    rw [show c.before ++ c.rest = map.entries from hes]
    exact .refl map
  exact clipLoop_keeps (fun map _ _ hspans h => h.trans (.rewrite map.hint hspans))
    (fun _ _ _ _ _ _ hhigh h => h.trans
      (.split ⟨rfl, rfl, rfl, rfl, rfl, hhigh.le, .inr ⟨rfl, rfl⟩⟩)) w hf hcut

lemma clipEnd_clipped {id : ℕ} (h : vmMapClipEnd w stop id map s = some (map', s')) :
    Clipped map map' := by
  unfold vmMapClipEnd at h
  split at h
  · next before e rest hcut =>
    obtain ⟨hes, -⟩ := cutAt_eq_some hcut
    split_ifs at h with hstop
    · cases h
      exact .split (a := (splitEnd map e stop).1) (b := (splitEnd map e stop).2)
        ⟨hes, rfl, rfl, rfl, rfl, hstop.le, .inr ⟨rfl, rfl⟩⟩
    · cases h
      exact .refl _
  · cases h

section
variable {kr : KernReturn} (hwf : map.Wf)
include hwf

lemma protect_clipped {newProt : VmProt} {setMax : Bool}
    (h : vmMapProtect w map start stop newProt setMax s = some (kr, map', s')) :
    Clipped map map' := by
  obtain ⟨c, map1, s1, henter, hentered, -⟩ :=
    enter_spec w false hwf (vmMapRangeCheck map start stop).1 s
  refine (enter_clipped hwf henter).trans ?_
  simp only [vmMapProtect, henter, bind_eq_bind, bind_some] at h
  split at h
  · next first _ _ _ =>
    cases h
    exact clipRange_clipped w _ (protectEntry_span w map1.pmap first newProt setMax)
      hentered.entries s1
  · cases h
    exact .refl _

lemma inherit_clipped {newInheritance : ℕ}
    (h : vmMapInherit w map start stop newInheritance s = some (kr, map', s')) :
    Clipped map map' := by
  unfold vmMapInherit at h
  split at h
  · cases h
    exact .refl map
  next inheritance hcode =>
    obtain ⟨c, map1, s1, henter, hentered, -⟩ :=
      enter_spec w false hwf (vmMapRangeCheck map start stop).1 s
    simp only [henter, bind_eq_bind, bind_some] at h
    cases h
    exact (enter_clipped hwf henter).trans
      (clipRange_clipped w _ (fun _ _ => rfl) hentered.entries s1)

lemma pageable_clipped {newPageable : Bool}
    (h : vmMapPageable w map start stop newPageable s = some (kr, map', s')) :
    Clipped map map' := by
  obtain ⟨c, map1, s1, henter, hentered, -⟩ :=
    enter_spec w false hwf (vmMapRangeCheck map start stop).1 s
  refine (enter_clipped hwf henter).trans ?_
  simp only [vmMapPageable, henter, bind_eq_bind, bind_some] at h
  cases newPageable with
  | true =>
    simp only [if_true] at h
    split_ifs at h
    · cases h
      exact .refl _
    · cases h
      exact clipRange_clipped w _ (unwireEntry_span w map1.pmap) hentered.entries s1
  | false =>
    cases h
    have hclip := clipRange_clipped w (vmMapRangeCheck map start stop).2 (wireEntry_span w)
      hentered.entries s1
    refine wirePass_keeps w _ (fun _ _ _ h => h.trans (.saveHint _ _)) hclip fun e he => ?_
    exact mem_append_right _ (( takeWhile_prefix _).subset he)

lemma reallocate_clipped [DecidableEq ο]
    (h : vmMapReallocate w map start stop s = some (kr, map', s')) : Clipped map map' := by
  obtain ⟨c, map1, s1, henter, hentered, -⟩ :=
    enter_spec w true hwf (vmMapRangeCheck map start stop).1 s
  simp only [vmMapReallocate, henter, bind_eq_bind, bind_some] at h
  cases h
  exact (enter_clipped hwf henter).trans
    (clipRange_clipped w _ (reallocateEntry_span w map1) hentered.entries s1)

end

/-! ## Invariants of one map -/

/-- What a map has while entries are made at good places: `G` says where `vm_map_insert` may make
one, `F` where `vm_map_find_entry` may. -/
structure MapInvariant [DecidableEq ο] (w : VmLayers ο σ) (P : VmMap ο → Prop)
    (G F : VmMap ο → ℕ → Prop) : Prop where
  create : ∀ pmap min max, P (vmMapCreate ο pmap min max)
  clipped : ∀ {map map'}, P map → Clipped map map' → P map'
  place : ∀ {map start hint}, G map start → G (map.saveHint hint) start
  insert : ∀ {mem map object offset start stop s kr map' s'}, map.Wf → P map →
    (kr = .success → G map start) →
    vmMapInsert w mem map object offset start stop s = some (kr, map', s') → P map'
  findEntry : ∀ {mem map size object kr a map'}, map.Wf → P map →
    (∀ start, a = some start → F map start) →
    vmMapFindEntry mem map size 0 object = some (kr, a, map') → P map'
  delete : ∀ {map start stop s kr map' s'}, map.Wf → P map →
    vmMapDelete w map start stop s = some (kr, map', s') → P map'

section
variable [DecidableEq ο] {P : VmMap ο → Prop} {G F : VmMap ο → ℕ → Prop}

variable {mem : VmMapEntry ο}

variable {kr : KernReturn}

lemma MapInvariant.find (hP : MapInvariant w P G F) {object : Option ο} {offset addr length a : ℕ}
    {anywhere : Bool} (hwf : map.Wf) (h : P map) (haddr : addr < 2 ^ 32)
    (hplace : kr = .success → G map a)
    (hfind : vmMapFind w mem map object offset addr length anywhere s = some (kr, a, map', s')) :
    P map' := by
  obtain ⟨hint, hwf1, heq | ⟨a', heq⟩⟩ := find_cases w mem hwf object offset length haddr anywhere s
  · cases heq.symm.trans hfind
    exact hP.clipped h (.saveHint map hint)
  obtain ⟨⟨kr1, map1, s1⟩, hinsert, hr⟩ := map_eq_some_iff.1 (heq.symm.trans hfind)
  cases hr
  exact hP.insert hwf1 (hP.clipped h (.saveHint map hint)) (fun hkr => hP.place (hplace hkr))
    hinsert

/-! ## All maps -/

namespace VmSystem

variable {sys sys' : VmSystem ο σ} {m : ℕ}

def AllMaps (P : VmMap ο → Prop) (sys : VmSystem ο σ) : Prop := ∀ map ∈ sys.maps, P map

variable {α : Type} {a : α} {f : VmMap ο → σ → Option (α × VmMap ο × σ)} {ok : Bool}
  {prot : VmProt} {src srcAddr srcEnd : ℕ}

omit [DecidableEq ο] in
lemma AllMaps.onMap (h : sys.AllMaps P) (hf : ∀ map, sys.maps[m]? = some map → ∀ a map' s', P map →
      f map sys.world = some (a, map', s') → P map')
    (hon : (sys.onMap m f).map Prod.snd = some sys') : sys'.AllMaps P := by
  obtain ⟨r, hr, rfl⟩ := map_eq_some_iff.1 hon
  obtain ⟨map, hmap, hon⟩ := bind_eq_some_iff.1 hr
  obtain ⟨⟨a', map', s'⟩, heq, hon⟩ := bind_eq_some_iff.1 hon
  cases hon
  intro map1 hmap1
  rcases mem_or_eq_of_mem_set hmap1 with hmap1 | rfl
  · exact h map1 hmap1
  · exact hf map hmap _ _ _ (h map (mem_of_getElem? hmap)) heq

lemma AllMaps.clip (hP : MapInvariant w P G F) (hok : sys.Ok) (h : sys.AllMaps P)
    (hf : ∀ map, map.Wf → ∀ a map' s', f map sys.world = some (a, map', s') → Clipped map map')
    (hon : (sys.onMap m f).map Prod.snd = some sys') : sys'.AllMaps P :=
  h.onMap (fun map hmap a map' s' hmapP heq =>
    hP.clipped hmapP (hf map (hok.map hmap) a map' s' heq)) hon

lemma AllMaps.write (hP : MapInvariant w P G F) (h : sys.AllMaps P)
    (hsame : SameSpans sys sys') : sys'.AllMaps P := by
  intro map' hmap'
  obtain ⟨n, hn, rfl⟩ := mem_iff_getElem.1 hmap'
  have hn' : n < sys.maps.length := hsame.length ▸ hn
  obtain ⟨es, hes, heq⟩ := hsame.get n _ (getElem?_eq_getElem hn')
  rw [getElem?_eq_getElem hn] at heq
  rw [some.inj heq]
  exact hP.clipped (h _ (getElem_mem hn')) (.rewrite _ hes)

lemma AllMaps.kept (hP : MapInvariant w P G F) : Kept w (AllMaps (σ := σ) P) where
  clipEnd := by
    intro sys sys' m stop id h hclip
    refine h.onMap (fun map _ a map' s' hmapP heq => ?_) hclip
    obtain ⟨r, hclip, heq⟩ := map_eq_some_iff.1 heq
    cases heq
    exact hP.clipped hmapP (clipEnd_clipped hclip)
  enter := by
    intro sys sys' m address id hok h henter
    refine h.clip hP hok (fun map hwf a map' s' heq => ?_) (congrArg (Option.map Prod.snd) henter)
    obtain ⟨found, c, hint, hlook, hlooked, -⟩ := lookup_spec hwf address
    simp only [hlook, bind_eq_bind, bind_some] at heq
    cases found with
    | false => cases heq
    | true =>
      obtain ⟨e, -, heq⟩ := bind_eq_some_iff.1 heq
      cases heq
      have hentries : c.entries = (map.saveHint hint).entries := hlooked.entries
      exact (Clipped.saveHint map hint).trans
        (clipStart_clipped w hentries hlooked.head_le sys.world)
  reenter := by
    intro sys sys' m address id hok h henter
    refine h.clip hP hok (fun map hwf a map' s' heq => ?_) (congrArg (Option.map Prod.snd) henter)
    obtain ⟨found, c, hint, hlook, -⟩ := lookup_spec hwf address
    simp only [hlook, bind_eq_bind, bind_some] at heq
    cases found with
    | false => cases heq
    | true =>
      obtain ⟨e, -, heq⟩ := bind_eq_some_iff.1 heq
      cases heq
      exact .saveHint map hint
  write := AllMaps.write hP

omit [DecidableEq ο] in
lemma checkProtection_hint (hok : sys.Ok)
    (hcheck : (sys.onMap m fun map s => (vmMapCheckProtection map start stop prot).map fun r =>
      (r.1, r.2, s)) = some (ok, sys')) :
    ∃ map hint, sys.maps[m]? = some map ∧ sys'.maps = sys.maps.set m (map.saveHint hint) := by
  obtain ⟨map, hmap, hon⟩ := bind_eq_some_iff.1 hcheck
  obtain ⟨⟨a', map', s'⟩, heq, hon⟩ := bind_eq_some_iff.1 hon
  obtain ⟨found, c, hint, hlook, -⟩ := lookup_spec (hok.map hmap) start
  simp only [vmMapCheckProtection, hlook, bind_eq_bind, bind_some] at heq
  cases heq
  cases hon
  exact ⟨map, hint, hmap, rfl⟩

section
variable (hP : MapInvariant w P G F) (hok : sys.Ok) (h : sys.AllMaps P)
include hP hok h

lemma AllMaps.checkProtection
    (hcheck : (sys.onMap m fun map s => (vmMapCheckProtection map start stop prot).map fun r =>
      (r.1, r.2, s)) = some (ok, sys')) : sys'.AllMaps P := by
  obtain ⟨map, hint, hmap, hmaps⟩ := checkProtection_hint hok hcheck
  intro map1 hmap1
  rw [hmaps] at hmap1
  rcases mem_or_eq_of_mem_set hmap1 with hmap1 | rfl
  · exact h map1 hmap1
  · exact hP.clipped (h map (mem_of_getElem? hmap)) (.saveHint map hint)

lemma AllMaps.copyCheck {dst dstAddr dstEnd : ℕ} {dstAlloc : Bool}
    (hplace : dstAlloc = true → ∀ map, sys.maps[dst]? = some map → G map dstAddr)
    (hcheck : sys.copyCheck w mem src dst srcAddr srcEnd dstAddr dstEnd dstAlloc =
      some (kr, sys')) : sys'.AllMaps P := by
  obtain ⟨srcMap, hsrc, hcheck⟩ := bind_eq_some_iff.1 hcheck
  obtain ⟨dstMap, hdst, hcheck⟩ := bind_eq_some_iff.1 hcheck
  obtain ⟨readable, sys1, hread, hok1, -⟩ := checkProtection_spec hok hsrc srcAddr srcEnd vmProtRead
  have h1 := h.checkProtection hP hok hread
  simp only [(hok.map hsrc).isMainMap, (hok.map hdst).isMainMap, Bool.and_self, if_true, hread,
    bind_eq_bind, bind_some] at hcheck
  cases readable with
  | false =>
    cases hcheck
    exact h1
  | true =>
    cases dstAlloc with
    | true =>
      refine h1.onMap (fun map hmap a map' s' hmapP heq => ?_)
        (congrArg (Option.map Prod.snd) hcheck)
      refine hP.insert (hok1.map hmap) hmapP (fun _ => ?_) heq
      -- the destination as it was before the check, up to the hint
      obtain ⟨srcMap', hint, hsrc', hmaps⟩ := checkProtection_hint hok hread
      rw [hmaps] at hmap
      by_cases heq : src = dst
      · subst heq
        rw [List.getElem?_set_self (List.getElem?_eq_some_iff.1 hsrc).1] at hmap
        obtain rfl := some.inj hmap
        exact hP.place (hplace rfl srcMap' hsrc')
      · rw [getElem?_set_ne heq] at hmap
        exact hplace rfl map hmap
    | false =>
      obtain ⟨⟨writable, sys2⟩, hwrite, heq⟩ := bind_eq_some_iff.1 hcheck
      cases heq
      exact h1.checkProtection hP hok1 hwrite

lemma AllMaps.copyReturn {srcDestroy : Bool}
    (hreturn : sys.copyReturn w src srcAddr srcEnd srcDestroy = some sys') : sys'.AllMaps P := by
  unfold VmSystem.copyReturn at hreturn
  split_ifs at hreturn
  · exact h.onMap (fun _ hmap _ _ _ => hP.delete (hok.map hmap)) hreturn
  · cases hreturn
    exact h

def Places (w : VmLayers ο σ) (G F : VmMap ο → ℕ → Prop) (sys : VmSystem ο σ) :
    VmMapEvent ο → Prop
  | .insert m _ _ _ start _ => ∀ map, sys.maps[m]? = some map → G map start.toNat
  | .find m mem object offset addr length anywhere => ∀ map a map' s', sys.maps[m]? = some map →
      vmMapFind w mem map object offset.toNat addr.toNat length.toNat anywhere sys.world =
        some (.success, a, map', s') → G map a
  | .findEntry m mem size object => ∀ map kr a map', sys.maps[m]? = some map →
      vmMapFindEntry mem map size.toNat 0 object = some (kr, some a, map') → F map a
  | .copy _ dst _ dstAddr _ _ dstAlloc _ =>
      dstAlloc = true → ∀ map, sys.maps[dst]? = some map → G map dstAddr.toNat
  | _ => True

lemma AllMaps.step {e : VmMapEvent ο} (hplaces : sys.Places w G F e)
    (hstep : sys.step w e = some sys') : sys'.AllMaps P := by
  cases e with
  | create pmap min max =>
    cases hstep
    intro map hmap
    rcases mem_append.1 hmap with hmap | hmap
    · exact h map hmap
    · obtain rfl := mem_singleton.1 hmap
      exact hP.create _ _ _
  | insert m mem object offset start stop =>
    exact h.onMap (fun map hmap a map' s' hmapP heq =>
      hP.insert (hok.map hmap) hmapP (fun _ => hplaces map hmap) heq) hstep
  | find m mem object offset addr length anywhere =>
    refine h.onMap (fun map hmap a map' s' hmapP heq => ?_) hstep
    obtain ⟨⟨kr, a, map1, s1⟩, hfind, heq⟩ := map_eq_some_iff.1 heq
    cases heq
    refine hP.find (hok.map hmap) hmapP addr.toNat_lt (fun hkr => ?_) hfind
    subst hkr
    exact hplaces map a _ _ hmap hfind
  | findEntry m mem size object =>
    refine h.onMap (fun map hmap a map' s' hmapP heq => ?_) hstep
    obtain ⟨⟨kr, a, map1⟩, hfind, heq⟩ := map_eq_some_iff.1 heq
    cases heq
    refine hP.findEntry (hok.map hmap) hmapP (fun start ha => ?_) hfind
    subst ha
    exact hplaces map kr start _ hmap hfind
  | protect m start stop newProt setMax =>
    exact h.clip hP hok (fun _ hwf _ _ _ => protect_clipped hwf) hstep
  | inherit m start stop newInheritance =>
    exact h.clip hP hok (fun _ hwf _ _ _ => inherit_clipped hwf) hstep
  | pageable m start stop newPageable =>
    exact h.clip hP hok (fun _ hwf _ _ _ => pageable_clipped hwf) hstep
  | reallocate m start stop =>
    exact h.clip hP hok (fun _ hwf _ _ _ => reallocate_clipped hwf) hstep
  | remove m start stop | delete m start stop =>
    exact h.onMap (fun _ hmap _ _ _ => hP.delete (hok.map hmap)) hstep
  | copy mem dst src dstAddr len srcAddr dstAlloc srcDestroy =>
    obtain ⟨⟨kr, sys1⟩, hcopy, rfl⟩ := map_eq_some_iff.1 hstep
    exact (copy_kept (AllMaps.kept hP) hok h (fun hcheck => h.copyCheck hP hok hplaces hcheck)
      (fun hok1 h1 => h1.copyReturn hP hok1) srcAddr.toNat_lt dstAddr.toNat_lt len.toNat_lt
      hcopy).2

end

end VmSystem

end

end Rhapsody.Vm
