import Rhapsody.Kern.ZallocSpace

/-! Conservation of memory over whole runs of the allocator. A request that makes its space grow
conserves memory exactly when the new region fits the list of the space. -/

namespace Rhapsody.Kern
open Rhapsody.Lib ZoneFreeSpace List Option

variable {i size : ℕ}

namespace ZoneSystem

variable {s s' : ZoneSystem}

/-- Every list is in order, and the lists and what is handed out cover the memory of the system
without overlap. -/
structure Ok (s : ZoneSystem) : Prop where
  spaces : ∀ fs ∈ s.spaces, fs.Tidy
  zones : ∀ z ∈ s.zones, z.Tidy ∧ 0 < z.elemSize
  kinds : ∀ z ∈ s.zones, ∀ i fs, z.freeSpace = some i → s.spaces[i]? = some fs →
    fs.IsSize z.elemSize
  conserved : ∀ b, cover s.regions b = cover s.system b
  once : ∀ b, cover (⟨s.zdata, s.zdataSize⟩ :: s.system) b ≤ 1
  kernel : ∀ b, 0 < cover (⟨s.zdata, s.zdataSize⟩ :: s.system) b → 1 ≤ b ∧ b < 0x40000000

structure Boot (s : ZoneSystem) : Prop where
  spaces : ∀ fs ∈ s.spaces, fs.Geometry ∧ fs.entries = [] ∧ fs.numEntries = 0 ∧
    ∀ hash, fs.hints hash = none
  zones : ∀ z ∈ s.zones, z.freeElements = [] ∧ z.lastInsert = 0 ∧ 0 < z.elemSize
  kinds : ∀ z ∈ s.zones, ∀ i fs, z.freeSpace = some i → s.spaces[i]? = some fs →
    fs.IsSize z.elemSize
  handed : s.handed = []
  system : s.system = []
  zdata : InKernel ⟨s.zdata, s.zdataSize⟩

lemma cover_regions (s : ZoneSystem) (b : ℕ) : cover s.regions b = cover s.handed b +
      cover (s.zones.flatMap fun z => elementRegions z.elemSize z.freeElements) b +
      cover (s.spaces.flatMap entries) b := by
  simp only [regions, cover_append]
  rfl

lemma Boot.ok (h : s.Boot) : s.Ok := by
  obtain ⟨hspaces, hzones, hkinds, hhanded, hsystem, hstart, hend⟩ := h
  have hone : ∀ b, cover (⟨s.zdata, s.zdataSize⟩ :: s.system) b =
      if Region.Contains ⟨s.zdata, s.zdataSize⟩ b then 1 else 0 := fun b => by
    rw [hsystem, cover_singleton]
  refine ⟨fun fs hfs => ?_, fun z hz => ?_, hkinds, fun b => ?_, fun b => ?_, fun b hb => ?_⟩
  · obtain ⟨hgeometry, hentries, hnum, hhints⟩ := hspaces fs hfs
    refine ⟨hgeometry, ?_, ?_, ?_, by rw [hnum, hentries]; rfl⟩
    · simp [hentries, Ascending]
    · simp [hentries]
    · intro hash _ _
      rw [hhints, hentries, firstIn_nil]
  · obtain ⟨hfree, hlast, hpos⟩ := hzones z hz
    exact ⟨⟨by simp [hfree], .inl hlast⟩, hpos⟩
  · have hregions : s.regions = [] := by
      simp only [regions, hhanded, nil_append, append_eq_nil_iff,
        flatMap_eq_nil_iff, map_eq_nil_iff]
      exact ⟨fun z hz => (hzones z hz).1, fun fs hfs => (hspaces fs hfs).2.1⟩
    rw [hregions, hsystem]
  · rw [hone]
    split_ifs <;> omega
  rw [hone] at hb
  split_ifs at hb with hin
  · obtain ⟨hlow, hhigh⟩ := hin
    simp only at hstart hend hlow hhigh
    omega
  · omega

variable {fs : ZoneFreeSpace} {n : ℕ} {zone' : Zone}

namespace Ok

variable (h : s.Ok)
include h

lemma cover_le_one (b : ℕ) : cover s.regions b ≤ 1 := by
  have hone := h.once b
  rw [cover_cons] at hone
  rw [h.conserved]
  omega

lemma in_kernel {b : ℕ} (hb : 0 < cover s.regions b) : 1 ≤ b ∧ b < 0x40000000 := by
  rw [h.conserved] at hb
  refine h.kernel b ?_
  rw [cover_cons]
  omega

lemma separate_system : Separate s.system := by
  refine separate_iff.2 fun b => ?_
  have hone := h.once b
  rw [cover_cons] at hone
  omega

lemma tiles : Tiles s.regions s.system := (tiles_iff h.separate_system).2 h.conserved

lemma space_inKernel (hfs : s.spaces[i]? = some fs) : ∀ e ∈ fs.entries, InKernel e := by
  intro e he
  have hmem := mem_of_getElem? hfs
  refine inside_of_cover (fun b hb => h.in_kernel ?_) he ((h.spaces fs hmem).sizes e he).pos
  rw [cover_regions]
  have hle := cover_le_of_mem_flatMap entries hmem b
  omega

lemma tidy_space (hfs : s.spaces[i]? = some fs) : fs.Tidy := h.spaces fs (mem_of_getElem? hfs)

variable {fs' : ZoneFreeSpace}

lemma set_space (hfs : s.spaces[i]? = some fs) (htidy : fs'.Tidy) (hkind : SameKind fs fs') :
    (∀ g ∈ s.spaces.set i fs', g.Tidy) ∧ ∀ z ∈ s.zones, ∀ j g, z.freeSpace = some j →
      (s.spaces.set i fs')[j]? = some g → g.IsSize z.elemSize := by
  constructor
  · intro g hg
    obtain hg | rfl := mem_or_eq_of_mem_set hg
    · exact h.spaces g hg
    · exact htidy
  intro z hz j g hj hg
  by_cases hij : i = j
  · subst hij
    rw [List.getElem?_set_self (List.getElem?_eq_some_iff.1 hfs).1] at hg
    obtain rfl := some.inj hg
    exact hkind.isSize (h.kinds z hz i fs hj hfs)
  · rw [getElem?_set_ne hij] at hg
    exact h.kinds z hz j g hj hg

lemma set_zone {k : ℕ} {zone : Zone} (hzone : s.zones[k]? = some zone) (htidy : zone'.Tidy)
    (hsize : zone'.elemSize = zone.elemSize) (hspace : zone'.freeSpace = zone.freeSpace)
    {spaces : List ZoneFreeSpace}
    (hkinds : ∀ z ∈ s.zones, ∀ i fs, z.freeSpace = some i → spaces[i]? = some fs →
      fs.IsSize z.elemSize) :
    (∀ z ∈ s.zones.set k zone', z.Tidy ∧ 0 < z.elemSize) ∧
      ∀ z ∈ s.zones.set k zone', ∀ i fs, z.freeSpace = some i → spaces[i]? = some fs →
        fs.IsSize z.elemSize := by
  have hmem := mem_of_getElem? hzone
  constructor
  · intro z hz
    obtain hz | rfl := mem_or_eq_of_mem_set hz
    · exact h.zones z hz
    · exact ⟨htidy, by rw [hsize]; exact (h.zones zone hmem).2⟩
  intro z hz i fs hi hfs
  obtain hz | rfl := mem_or_eq_of_mem_set hz
  · exact hkinds z hz i fs hi hfs
  · rw [hsize]
    exact hkinds zone hmem i fs (hspace ▸ hi) hfs

lemma hand {p : Place} (hfs : s.spaces[i]? = some fs) (hsize : fs.IsSize size)
    (hlook : fs.zoneFreeSpaceLookup size = (some p, fs')) :
    (s.hand i (fs'.takeFront p size) p.cur.start size).Ok := by
  have hfound := (h.tidy_space hfs).lookup_found hsize hlook
  obtain ⟨htidy, hkind, hcover⟩ := (h.tidy_space hfs).takeFront hsize hfound (h.space_inKernel hfs)
  obtain ⟨hspaces, hkinds⟩ := h.set_space hfs htidy hkind
  refine ⟨hspaces, h.zones, hkinds, fun b => ?_, h.once, h.kernel⟩
  have hset := cover_flatMap_set entries hfs (fs'.takeFront p size) b
  have hb := hcover b
  have hold := h.conserved b
  rw [cover_regions] at hold ⊢
  rw [cover_singleton] at hb
  simp only [ZoneSystem.hand, cover_cons]
  omega

lemma shrink (hn : n ≤ s.zdataSize) : { s with zdataSize := n }.Ok := by
  have hle : ∀ b, cover (⟨s.zdata, n⟩ :: s.system) b ≤
      cover (⟨s.zdata, s.zdataSize⟩ :: s.system) b := fun b => by
    have hsplit := cover_split s.zdata n (s.zdataSize - n) b
    rw [Nat.add_sub_cancel' hn] at hsplit
    simp only [cover_cons, cover_nil] at hsplit ⊢
    omega
  exact ⟨h.spaces, h.zones, h.kinds, h.conserved, fun b => (hle b).trans (h.once b),
    fun b hb => h.kernel b (hb.trans_le (hle b))⟩

end Ok

structure Available (s : ZoneSystem) (r : Region) : Prop where
  inKernel : InKernel r
  apart : ∀ b, cover (⟨s.zdata, s.zdataSize⟩ :: s.system) b + cover [r] b ≤ 1

lemma Ok.available_of_fresh (h : s.Ok) {r : Region} (hr : s.Fresh r) : s.Available r := by
  obtain ⟨-, -, hstart, hend, hapart⟩ := hr
  refine ⟨⟨hstart, hend⟩, fun b => ?_⟩
  have hone := h.once b
  rw [cover_singleton]
  split_ifs with hb
  · obtain ⟨hlow, hhigh⟩ := hb
    have hzero : ¬0 < cover (⟨s.zdata, s.zdataSize⟩ :: s.system) b := by
      rw [cover_pos_iff]
      rintro ⟨t, ht, htlow, hthigh⟩
      have := hapart t ht
      omega
    omega
  · omega

lemma Ok.available_zdata (h : s.Ok) (hpos : 0 < n) (hn : n ≤ s.zdataSize) :
    add32 s.zdata (s.zdataSize - n) = s.zdata + (s.zdataSize - n) ∧
      { s with zdataSize := s.zdataSize - n }.Available ⟨s.zdata + (s.zdataSize - n), n⟩ := by
  obtain ⟨hstart, hend⟩ := inside_of_cover h.kernel (mem_cons_self ..)
    (show 0 < s.zdataSize by omega)
  simp only at hstart hend
  have hkernel : InKernel ⟨s.zdata + (s.zdataSize - n), n⟩ := by
    simp only [InKernel]
    omega
  refine ⟨add32_of_lt (by omega), hkernel, fun b => ?_⟩
  have hone := h.once b
  have hsplit := cover_split s.zdata (s.zdataSize - n) n b
  rw [Nat.sub_add_cancel hn] at hsplit
  simp only [cover_cons, cover_nil] at hone hsplit ⊢
  omega

lemma roundPage_spec (h : size < 2 ^ 31) : size ≤ roundPage size ∧ pageSize ∣ roundPage size := by
  unfold roundPage
  rw [add32_of_lt (by simp only [pageSize]; omega)]
  refine ⟨?_, Nat.dvd_mul_left ..⟩
  simp only [pageSize]
  omega

lemma cover_grow (hfs : s.spaces[i]? = some fs) (size newSpace b : ℕ) :
    cover (s.grow i fs size newSpace (roundPage size)).regions b + cover fs.entries b =
      cover s.regions b + cover [⟨(fs.zoneFreeSpaceAdd size newSpace (roundPage size)).1, size⟩] b +
        cover (fs.zoneFreeSpaceAdd size newSpace (roundPage size)).2.entries b := by
  have hset := cover_flatMap_set entries hfs
    (fs.zoneFreeSpaceAdd size newSpace (roundPage size)).2 b
  simp only [cover_regions, ZoneSystem.grow, ZoneSystem.hand, cover_cons, cover_nil]
  omega

section
variable {newSpace : ℕ} (h : s.Ok) (hfs : s.spaces[i]? = some fs)
  (hsize : fs.IsSize size) (hnew : s.Available ⟨newSpace, roundPage size⟩)
include h hfs hsize hnew

lemma addable_of_available : fs.Addable size newSpace (roundPage size) := by
  obtain ⟨hle, hdvd⟩ := roundPage_spec hsize.lt
  have htidy := h.tidy_space hfs
  have hpos := hsize.pos
  have hend : newSpace + roundPage size ≤ 0x40000000 := hnew.inKernel.2
  refine ⟨hsize, ⟨by omega, htidy.geometry.granule_dvd_page.trans hdvd, by omega⟩, hle,
    hnew.inKernel, fun e he => ?_⟩
  refine apart_of_cover (fun b => ?_) (mem_singleton_self (⟨newSpace, roundPage size⟩ : Region)) he
    (show 0 < roundPage size by omega) (htidy.sizes e he).pos
  have hapart := hnew.apart b
  have hsub := cover_le_of_mem_flatMap entries (mem_of_getElem? hfs) b
  have hcons := h.conserved b
  rw [cover_regions] at hcons
  rw [cover_cons] at hapart
  omega

lemma Ok.grow (hfits : fs.GrowthFits size newSpace (roundPage size)) :
    (s.grow i fs size newSpace (roundPage size)).Ok := by
  have hadd := addable_of_available h hfs hsize hnew
  obtain ⟨htidy, hkind, hcover, -⟩ := (h.tidy_space hfs).add (h.space_inKernel hfs) hadd
  obtain ⟨hspaces, hkinds⟩ := h.set_space hfs htidy hkind
  have hsystem : ∀ b, cover (⟨s.zdata, s.zdataSize⟩ :: ⟨newSpace, roundPage size⟩ :: s.system) b =
      cover (⟨s.zdata, s.zdataSize⟩ :: s.system) b + cover [⟨newSpace, roundPage size⟩] b :=
    fun b => by
      simp only [cover_cons, cover_nil]
      omega
  refine ⟨hspaces, h.zones, hkinds, fun b => ?_, fun b => ?_, fun b hb => ?_⟩
  · have hgrow := cover_grow hfs size newSpace b
    have hb := hcover hfits b
    have hold := h.conserved b
    have hnewSystem : cover (s.grow i fs size newSpace (roundPage size)).system b =
        cover s.system b + cover [⟨newSpace, roundPage size⟩] b := by
      simp only [ZoneSystem.grow, cover_cons, cover_nil]
      omega
    omega
  · exact (hsystem b).trans_le (hnew.apart b)
  have hpos : 0 < cover (⟨s.zdata, s.zdataSize⟩ :: s.system) b ∨
      0 < cover [⟨newSpace, roundPage size⟩] b := by
    have := (hsystem b).symm.trans_gt hb
    omega
  obtain hpos | hpos := hpos
  · exact h.kernel b hpos
  obtain ⟨r, hr, hlow, hhigh⟩ := cover_pos_iff.1 hpos
  obtain rfl := mem_singleton.1 hr
  have hin := hnew.inKernel
  simp only [InKernel] at hin hlow hhigh
  omega

lemma not_tiles_of_not_fits (hfits : ¬fs.GrowthFits size newSpace (roundPage size)) :
    ¬Tiles (s.grow i fs size newSpace (roundPage size)).regions
      (s.grow i fs size newSpace (roundPage size)).system := by
  have hadd := addable_of_available h hfs hsize hnew
  obtain ⟨-, -, -, hlost⟩ := (h.tidy_space hfs).add (h.space_inKernel hfs) hadd
  have hlt : size < roundPage size := lt_of_le_of_ne hadd.le fun heq => hfits (.inr (.inr heq))
  rintro ⟨-, hunion⟩
  have hbyte := Set.ext_iff.1 hunion (newSpace + size)
  rw [mem_iUnion_bytes, mem_iUnion_bytes] at hbyte
  have hgrow := cover_grow hfs size newSpace (newSpace + size)
  rw [hlost hfits] at hgrow
  have hold := h.conserved (newSpace + size)
  have hapart := hnew.apart (newSpace + size)
  have hin : Region.Contains ⟨newSpace, roundPage size⟩ (newSpace + size) :=
    ⟨by simp, by simpa using hlt⟩
  have hout : ¬Region.Contains ⟨newSpace, size⟩ (newSpace + size) := by simp [Region.Contains]
  simp only [cover_cons, cover_nil, if_pos hin, if_neg hout] at hgrow hapart
  have hsystem : 0 < cover (s.grow i fs size newSpace (roundPage size)).system (newSpace + size) :=
    cover_pos_of_mem (mem_cons_self ..) hin
  omega

end

/-! ## Zones -/

section
variable (h : s.Ok) {k : ℕ} {zone : Zone} (hzone : s.zones[k]? = some zone)
include h hzone

lemma Ok.zget {address : ℕ} (hrem : zone.removeFromZone = some (address, zone')) :
    { s with
      zones := s.zones.set k zone', handed := ⟨address, zone.elemSize⟩ :: s.handed }.Ok := by
  have hmem := mem_of_getElem? hzone
  obtain ⟨htidy, hfree, hsize, hspace⟩ := (h.zones zone hmem).1.removeFromZone hrem
  obtain ⟨hzones, hkinds⟩ := h.set_zone hzone htidy hsize hspace h.kinds
  refine ⟨h.spaces, hzones, hkinds, fun b => ?_, h.once, h.kernel⟩
  have hset := cover_flatMap_set (fun z => elementRegions z.elemSize z.freeElements) hzone zone' b
  have hold := h.conserved b
  rw [cover_regions] at hold ⊢
  simp only [hfree, hsize, elementRegions, map_cons, cover_cons] at hset hold ⊢
  omega

lemma Ok.zfree {elem : ℕ} (hheld : ⟨elem, zone.elemSize⟩ ∈ s.handed) :
    { s with
      zones := s.zones.set k (zone.addToZone elem)
      handed := s.handed.erase ⟨elem, zone.elemSize⟩ }.Ok := by
  have hmem := mem_of_getElem? hzone
  obtain ⟨htidy, hpos⟩ := h.zones zone hmem
  have helem : Region.Contains ⟨elem, zone.elemSize⟩ elem := ⟨le_rfl, by simpa using hpos⟩
  -- the caller has the element, so the zone does not
  have habsent : elem ∉ zone.freeElements := fun hfree => by
    have hone := h.cover_le_one elem
    have hhanded := cover_pos_of_mem hheld helem
    have hzones := cover_le_of_mem_flatMap (fun z => elementRegions z.elemSize z.freeElements)
      hmem elem
    have helems : 0 < cover (elementRegions zone.elemSize zone.freeElements) elem :=
      cover_pos_of_mem (mem_map_of_mem hfree) helem
    rw [cover_regions] at hone
    omega
  obtain ⟨htidy', hperm⟩ := htidy.addToZone habsent
  obtain ⟨hzones, hkinds⟩ := h.set_zone hzone htidy' rfl rfl h.kinds
  refine ⟨h.spaces, hzones, hkinds, fun b => ?_, h.once, h.kernel⟩
  have hset := cover_flatMap_set (fun z => elementRegions z.elemSize z.freeElements) hzone
    (zone.addToZone elem) b
  have hadded : cover (elementRegions zone.elemSize (zone.addToZone elem).freeElements) b =
      cover (elementRegions zone.elemSize (elem :: zone.freeElements)) b :=
    (cover_perm (hperm.map _) b)
  have hold := h.conserved b
  have hhanded := cover_perm (perm_cons_erase hheld) b
  rw [cover_regions] at hold ⊢
  rw [cover_cons] at hhanded
  simp only [elementRegions, map_cons, cover_cons] at hadded
  simp only [elementRegions] at hset hold ⊢
  simp only [Zone.addToZone] at hset hadded ⊢
  omega

lemma Ok.collect (hi : zone.freeSpace = some i) (hfs : s.spaces[i]? = some fs) :
    { s with
      zones := s.zones.set k (zoneCollect zone fs).1
      spaces := s.spaces.set i (zoneCollect zone fs).2 }.Ok := by
  have hmem := mem_of_getElem? hzone
  have hsub : ∀ b, cover fs.entries b + cover (elementRegions zone.elemSize zone.freeElements) b ≤
      cover s.regions b := fun b => by
    have hspaces := cover_le_of_mem_flatMap entries (mem_of_getElem? hfs) b
    have hzones := cover_le_of_mem_flatMap (fun z => elementRegions z.elemSize z.freeElements)
      hmem b
    rw [cover_regions]
    omega
  obtain ⟨htidy, hkind, hcover⟩ := collect_loop zone.freeElements
    (c := ⟨fs, [], fs.entries⟩) ⟨h.tidy_space hfs, rfl⟩ (h.kinds zone hmem i fs hi hfs)
    (h.zones zone hmem).1.sorted (by simp) (fun b => (hsub b).trans (h.cover_le_one b))
    (fun b hb => h.in_kernel (hb.trans_le (hsub b)))
  obtain ⟨hspaces, hspaceKinds⟩ := h.set_space hfs htidy hkind
  have hempty : (zoneCollect zone fs).1.Tidy := ⟨List.Pairwise.nil, .inl rfl⟩
  obtain ⟨hzones, hkinds⟩ := h.set_zone hzone hempty rfl rfl hspaceKinds
  refine ⟨hspaces, hzones, hkinds, fun b => ?_, h.once, h.kernel⟩
  have hsetZone := cover_flatMap_set (fun z => elementRegions z.elemSize z.freeElements) hzone
    (zoneCollect zone fs).1 b
  have hsetSpace := cover_flatMap_set entries hfs (zoneCollect zone fs).2 b
  have hb : cover (zoneCollect zone fs).2.entries b =
      cover fs.entries b + cover (elementRegions zone.elemSize zone.freeElements) b := hcover b
  have hnone : cover (elementRegions (zoneCollect zone fs).1.elemSize
      (zoneCollect zone fs).1.freeElements) b = 0 := rfl
  have hold := h.conserved b
  rw [cover_regions] at hold ⊢
  dsimp only
  omega

end

end ZoneSystem

/-! ## Runs -/

namespace ZoneEvent

/-- A size the space deals in: a positive multiple of 16 and, in a collectable space, of its unit.
-/
def Proper (s : ZoneSystem) : ZoneEvent → Prop
  | .getSpace i size | .getSpaceAgain i size _ =>
    ∀ fs, s.spaces[i]? = some fs → fs.IsSize (roundAlloc size)
  | _ => True

def Fits (s : ZoneSystem) : ZoneEvent → Prop
  | .getSpace i size =>
    let spaceToAdd := roundPage (roundAlloc size)
    ∀ fs, s.spaces[i]? = some fs → (fs.zoneFreeSpaceLookup (roundAlloc size)).1 = none →
      spaceToAdd ≤ s.zdataSize →
        fs.GrowthFits (roundAlloc size) (s.zdata + (s.zdataSize - spaceToAdd)) spaceToAdd
  | .getSpaceAgain i size newSpace =>
    ∀ fs, s.spaces[i]? = some fs → (fs.zoneFreeSpaceLookup (roundAlloc size)).1 = none →
      fs.GrowthFits (roundAlloc size) newSpace (roundPage (roundAlloc size))
  | _ => True

end ZoneEvent

namespace ZoneSystem

variable {s s' : ZoneSystem}

def Conserves (s s' : ZoneSystem) (e : ZoneEvent) : Prop :=
  (e.Fits s → s'.Ok) ∧ (¬e.Fits s → ¬Tiles s'.regions s'.system)

variable {e : ZoneEvent}

lemma conserves_of_ok (hok : s'.Ok) (hfits : e.Fits s) : Conserves s s' e :=
  ⟨fun _ => hok, fun h => absurd hfits h⟩

lemma getSpace_conserves (h : s.Ok) (hproper : ZoneEvent.Proper s (.getSpace i size))
    (hstep : s.step (.getSpace i size) = some s') : Conserves s s' (.getSpace i size) := by
  obtain ⟨fs, hfs, hstep⟩ := bind_eq_some_iff.1 hstep
  have hsize := hproper fs hfs
  dsimp only at hstep
  generalize hlook : fs.zoneFreeSpaceLookup (roundAlloc size) = out at hstep
  obtain ⟨found, fs'⟩ := out
  cases found with
  | some p =>
    obtain rfl := some.inj hstep
    refine conserves_of_ok (h.hand hfs hsize hlook) fun g hg hnone _ => ?_
    obtain rfl : fs = g := some.inj (hfs.symm.trans hg)
    rw [hlook] at hnone
    cases hnone
  | none =>
    obtain rfl := lookup_none hlook
    split_ifs at hstep with hroom
    · obtain rfl := some.inj hstep
      have hpos : 0 < roundPage (roundAlloc size) :=
        hsize.pos.trans_le (roundPage_spec hsize.lt).1
      obtain ⟨hadd, hnew⟩ := h.available_zdata hpos hroom
      have hshrink := h.shrink (Nat.sub_le s.zdataSize (roundPage (roundAlloc size)))
      rw [hadd]
      refine ⟨fun hfits => hshrink.grow hfs hsize hnew ?_,
        fun hfits => not_tiles_of_not_fits hshrink hfs hsize hnew fun hgrowth => hfits ?_⟩
      · exact hfits fs' hfs (by rw [hlook]) hroom
      intro g hg _ _
      obtain rfl : fs' = g := some.inj (hfs.symm.trans hg)
      exact hgrowth
    obtain rfl := some.inj hstep
    have hsame : s.spaces.set i fs' = s.spaces := by
      obtain ⟨hi, rfl⟩ := List.getElem?_eq_some_iff.1 hfs
      exact set_getElem_self hi
    refine conserves_of_ok (by rw [hsame]; exact h) fun g _ _ hle => absurd hle hroom

lemma getSpaceAgain_conserves (h : s.Ok) {newSpace : ℕ}
    (hproper : ZoneEvent.Proper s (.getSpaceAgain i size newSpace))
    (hstep : s.step (.getSpaceAgain i size newSpace) = some s') :
    Conserves s s' (.getSpaceAgain i size newSpace) := by
  obtain ⟨fs, hfs, hstep⟩ := bind_eq_some_iff.1 hstep
  have hsize := hproper fs hfs
  dsimp only at hstep
  split_ifs at hstep with hfresh
  generalize hlook : fs.zoneFreeSpaceLookup (roundAlloc size) = out at hstep
  obtain ⟨found, fs'⟩ := out
  cases found with
  | some p =>
    obtain rfl := some.inj hstep
    refine conserves_of_ok (h.hand hfs hsize hlook) fun g hg hnone => ?_
    obtain rfl : fs = g := some.inj (hfs.symm.trans hg)
    rw [hlook] at hnone
    cases hnone
  | none =>
    obtain rfl := lookup_none hlook
    obtain rfl := some.inj hstep
    have hnew := h.available_of_fresh hfresh
    refine ⟨fun hfits => h.grow hfs hsize hnew (hfits fs' hfs (by rw [hlook])),
      fun hfits => not_tiles_of_not_fits h hfs hsize hnew fun hgrowth => hfits ?_⟩
    intro g hg _
    obtain rfl : fs' = g := some.inj (hfs.symm.trans hg)
    exact hgrowth

lemma step_conserves (h : s.Ok) (hproper : e.Proper s) (hstep : s.step e = some s') :
    Conserves s s' e := by
  cases e with
  | getSpace i size => exact getSpace_conserves h hproper hstep
  | getSpaceAgain i size newSpace => exact getSpaceAgain_conserves h hproper hstep
  | zget k =>
    obtain ⟨zone, hzone, hstep⟩ := bind_eq_some_iff.1 hstep
    obtain ⟨⟨address, zone'⟩, hrem, hstep⟩ := bind_eq_some_iff.1 hstep
    obtain rfl := some.inj hstep
    exact conserves_of_ok (h.zget hzone hrem) trivial
  | zfree k elem =>
    obtain ⟨zone, hzone, hstep⟩ := bind_eq_some_iff.1 hstep
    split_ifs at hstep with hheld
    obtain rfl := some.inj hstep
    exact conserves_of_ok (h.zfree hzone hheld) trivial
  | collect k =>
    obtain ⟨zone, hzone, hstep⟩ := bind_eq_some_iff.1 hstep
    split_ifs at hstep with hcollectable
    · obtain ⟨i, hi, hstep⟩ := bind_eq_some_iff.1 hstep
      obtain ⟨fs, hfs, hstep⟩ := bind_eq_some_iff.1 hstep
      obtain rfl := some.inj hstep
      exact conserves_of_ok (h.collect hzone hi hfs) trivial
    · obtain rfl := some.inj hstep
      exact conserves_of_ok h trivial

end ZoneSystem

inductive ZoneRun (boot : ZoneSystem) : ZoneSystem → Prop where
  | start : ZoneRun boot boot
  | step {s s' : ZoneSystem} {e : ZoneEvent} : ZoneRun boot s → e.Proper s → e.Fits s →
    s.step e = some s' → ZoneRun boot s'

lemma ZoneRun.ok {boot s : ZoneSystem} (hboot : boot.Boot) (hrun : ZoneRun boot s) : s.Ok := by
  induction hrun with
  | start => exact hboot.ok
  | step _ hproper hfits hstep ih => exact (ZoneSystem.step_conserves ih hproper hstep).1 hfits

/-- Along such a run every byte is in one place, and the next request keeps it so exactly if its
growth fits. -/
theorem zoneRun_tiles_iff {boot s : ZoneSystem} (hboot : boot.Boot) (hrun : ZoneRun boot s) :
    Tiles s.regions s.system ∧ ∀ e s', e.Proper s → s.step e = some s' →
      (Tiles s'.regions s'.system ↔ e.Fits s) := by
  have hok := hrun.ok hboot
  refine ⟨hok.tiles, fun e s' hproper hstep => ?_⟩
  obtain ⟨hfits, hlost⟩ := ZoneSystem.step_conserves hok hproper hstep
  exact ⟨fun htiles => by_contra fun hnot => hlost hnot htiles, fun h => (hfits h).tiles⟩

def bootDefault : ZoneSystem where
  spaces := [⟨0, 0, [], 0, 0, fun _ => none, 1⟩]
  zones := []
  zdata := 0x100000
  zdataSize := 0x80000
  handed := []
  system := []

/-- With a zone of elements of 32 bytes that has a space of its own. -/
def bootZone : ZoneSystem :=
  { bootDefault with
    spaces := bootDefault.spaces ++ [⟨16, 128, [], 0, 4, fun _ => none, 8⟩]
    zones := [⟨[], 0, 32, 0, 0, some 1⟩] }

lemma bootZone_boot : bootZone.Boot := by
  refine ⟨fun fs hfs => ?_, fun z hz => ?_, fun z hz i fs hi hfs => ?_, rfl, rfl, by decide,
    by decide⟩
  · rcases mem_cons.1 hfs with rfl | hfs
    · exact ⟨⟨.inl ⟨rfl, rfl, rfl, rfl⟩, Nat.one_pos⟩, rfl, rfl, fun _ => rfl⟩
    · obtain rfl := mem_singleton.1 hfs
      exact ⟨⟨.inr ⟨rfl, rfl, by decide, by decide⟩, by decide⟩, rfl, rfl, fun _ => rfl⟩
  · obtain rfl := mem_singleton.1 hz
    exact ⟨rfl, rfl, by decide⟩
  · obtain rfl := mem_singleton.1 hz
    cases hi
    cases hfs
    exact ⟨by decide, by decide, by decide⟩

/-- An element is made, freed and collected; then the space grows behind the page of the element. -/
def collectEvents : List ZoneEvent :=
  [.getSpace 1 32, .zfree 0 0x17e000, .collect 0, .getSpaceAgain 1 8208 0x180000]

lemma collectEvents_run {s : ZoneSystem}
    (h : collectEvents.foldlM ZoneSystem.step bootZone = some s) : ZoneRun bootZone s := by
  have hspace : ((collectEvents.take 3).foldlM ZoneSystem.step bootZone).all (fun s =>
      s.spaces[1]?.all fun fs => fs.granule ∣ 8208 ∧
        ∃ e ∈ fs.entries, e.start + e.length = 0x180000) = true := by
    decide +kernel
  simp only [collectEvents, foldlM_cons, foldlM_nil, bind_eq_bind, bind_eq_some_iff] at h
  obtain ⟨s1, h1, s2, h2, s3, h3, s4, h4, ⟨⟩⟩ := h
  simp only [collectEvents, take_succ_cons, take_zero, foldlM_cons, foldlM_nil, bind_eq_bind, h1,
    h2, h3, bind_some, Option.pure_def, all_some] at hspace
  have hmade : ZoneRun bootZone s1 := by
    refine .step (e := .getSpace 1 32) .start (fun fs hfs => ?_) (fun fs hfs _ _ => ?_) h1
    all_goals cases hfs
    · exact ⟨by decide, by decide, by decide⟩
    · exact .inr (.inl nofun)
  have hfreed : ZoneRun bootZone s2 := .step (e := .zfree 0 0x17e000) hmade trivial trivial h2
  have hcollected : ZoneRun bootZone s3 := .step (e := .collect 0) hfreed trivial trivial h3
  have hfits : ∀ fs, s3.spaces[1]? = some fs → fs.granule ∣ 8208 ∧
      ∃ e ∈ fs.entries, e.start + e.length = 0x180000 := by
    intro fs hfs
    rw [hfs] at hspace
    exact of_decide_eq_true hspace
  exact .step (e := .getSpaceAgain 1 8208 0x180000) hcollected
    (fun fs hfs => ⟨by decide, (hfits fs hfs).1, by decide⟩)
    (fun fs hfs _ => .inl (hfits fs hfs).2) h4

theorem zoneRun_tiles_iff_collected :
    ∃ s, collectEvents.foldlM ZoneSystem.step bootZone = some s ∧
      s.handed = [⟨0x17e000, 8208⟩] ∧ s.system = [⟨0x180000, 0x4000⟩, ⟨0x17e000, 0x2000⟩] ∧
      Tiles s.regions s.system := by
  have hrun : (collectEvents.foldlM ZoneSystem.step bootZone).any (fun s =>
      s.handed = [⟨0x17e000, 8208⟩] ∧ s.system = [⟨0x180000, 0x4000⟩, ⟨0x17e000, 0x2000⟩]) =
        true := by
    decide +kernel
  obtain ⟨s, hs, hstate⟩ := (Option.any_eq_true _ _).1 hrun
  obtain ⟨hhanded, hsystem⟩ := of_decide_eq_true hstate
  exact ⟨s, hs, hhanded, hsystem, (zoneRun_tiles_iff bootZone_boot (collectEvents_run hs)).1⟩

/-- 16 bytes, then twice 4096. The third request takes the page below the first one, whose rest is
in no list. -/
theorem bootDefault_loses_space :
    ∃ s, [ZoneEvent.getSpace 0 16, .getSpace 0 4096, .getSpace 0 4096].foldlM ZoneSystem.step
        bootDefault = some s ∧
      (0x17d000 ∈ ⋃ r ∈ s.system, r.bytes) ∧ (0x17d000 ∉ ⋃ r ∈ s.regions, r.bytes) ∧
      ¬Tiles s.regions s.system := by
  have hrun : ([ZoneEvent.getSpace 0 16, .getSpace 0 4096, .getSpace 0 4096].foldlM
      ZoneSystem.step bootDefault).map (fun s => (cover s.system 0x17d000,
        cover s.regions 0x17d000)) = some (1, 0) := by decide +kernel
  obtain ⟨s, hs, hcover⟩ := map_eq_some_iff.1 hrun
  obtain ⟨hsystem, hregions⟩ := Prod.mk.inj hcover
  have hin : 0x17d000 ∈ ⋃ r ∈ s.system, r.bytes := by
    rw [mem_iUnion_bytes, hsystem]
    exact Nat.one_pos
  have hout : 0x17d000 ∉ ⋃ r ∈ s.regions, r.bytes := by
    rw [mem_iUnion_bytes, hregions]
    exact lt_irrefl 0
  exact ⟨s, hs, hin, hout, fun htiles => hout (htiles.2 ▸ hin)⟩

end Rhapsody.Kern
