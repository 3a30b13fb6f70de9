import Rhapsody.Vm.MapClip

/-! A map as a function of addresses. What an entry says about each address it
contains does not change when the entry is clipped; a loop over a range changes it
at the addresses of the range. -/

namespace Rhapsody.Vm
open Rhapsody.Lib List Option

variable {ο σ β : Type} {map map' : VmMap ο} {c : Cut ο}

def VmMapEntry.Contains (e : VmMapEntry ο) (x : ℕ) : Prop := e.vmeStart ≤ x ∧ x < e.vmeEnd

instance (e : VmMapEntry ο) (x : ℕ) : Decidable (e.Contains x) :=
  inferInstanceAs (Decidable (_ ∧ _))

def entryAt (es : List (VmMapEntry ο)) (x : ℕ) : Option (VmMapEntry ο) :=
  es.find? fun e => e.Contains x

/-- The last entry that ends at or before an address; `none` is the header. -/
def entryBefore (es : List (VmMapEntry ο)) (x : ℕ) : Option (VmMapEntry ο) :=
  (es.filter fun e => e.vmeEnd ≤ x).getLast?

def valueAt (g : VmMapEntry ο → ℕ → β) (es : List (VmMapEntry ο)) (x : ℕ) : Option β :=
  (entryAt es x).map (g · x)

section
variable {g : VmMapEntry ο → ℕ → β} {es fs : List (VmMapEntry ο)} {e : VmMapEntry ο} {x : ℕ}

@[simp] lemma valueAt_nil : valueAt g [] x = none := rfl

lemma valueAt_cons :
    valueAt g (e :: es) x = if e.Contains x then some (g e x) else valueAt g es x := by
  unfold valueAt entryAt
  by_cases hx : e.Contains x
  · rw [find?_cons_of_pos (by simpa using hx), if_pos hx]
    rfl
  · rw [find?_cons_of_neg (by simpa using hx), if_neg hx]

lemma valueAt_append : valueAt g (es ++ fs) x = (valueAt g es x).or (valueAt g fs x) := by
  unfold valueAt entryAt
  rw [find?_append]
  cases es.find? fun e => e.Contains x <;> rfl

lemma entryAt_eq_none (h : ∀ e ∈ es, ¬e.Contains x) : entryAt es x = none := by
  rw [entryAt, find?_eq_none]
  simpa using h

lemma valueAt_eq_none (h : ∀ e ∈ es, ¬e.Contains x) : valueAt g es x = none := by
  rw [valueAt, entryAt_eq_none h]
  rfl

lemma valueAt_of_end_le (h : ∀ e ∈ es, e.vmeEnd ≤ x) : valueAt g es x = none :=
  valueAt_eq_none fun e he hx => absurd hx.2 (h e he).not_gt

lemma valueAt_of_lt_start (h : ∀ e ∈ es, x < e.vmeStart) : valueAt g es x = none :=
  valueAt_eq_none fun e he hx => absurd hx.1 (h e he).not_ge

end

/-- What does not change at an address when the entry there is clipped. -/
structure ClipFree (g : VmMapEntry ο → ℕ → β) : Prop where
  front : ∀ e id stop x, g { e with id := id, vmeEnd := stop } x = g e x
  back : ∀ e id start x, e.vmeStart ≤ start → start < 2 ^ 32 → start ≤ x → g { e with
      id := id, vmeStart := start
      offset := add32 e.offset (sub32 start e.vmeStart) } x = g e x

/-! ## Lookup -/

def lookupResult (r : Bool × Cut ο × VmMap ο) : Bool × Option (VmMapEntry ο) :=
  (r.1, if r.1 then r.2.1.rest.head? else r.2.1.before.getLast?)

variable {e : VmMapEntry ο} {x start stop : ℕ} {es : List (VmMapEntry ο)} {g : VmMapEntry ο → ℕ → β}

lemma entryAt_eq_some_iff (h : map.WellFormed) :
    entryAt map.entries x = some e ↔ e ∈ map.entries ∧ e.Contains x := by
  constructor
  · intro hat
    exact ⟨mem_of_find?_eq_some hat, by simpa using find?_some hat⟩
  rintro ⟨he, hx⟩
  obtain ⟨xs, ys, hes⟩ := append_of_mem he
  have hdisjoint := h.disjoint
  rw [hes] at hdisjoint
  have hbefore : entryAt xs x = none := entryAt_eq_none fun a ha hax => by
    have hle := (pairwise_append.1 hdisjoint).2.2 a ha e (mem_cons_self ..)
    have := hx.1
    have := hax.2
    omega
  rw [hes, entryAt, find?_append, show xs.find? _ = none from hbefore, none_or,
    find?_cons_of_pos (by simpa using hx)]

variable {address : ℕ} {a b : VmMapEntry ο}

lemma Looked.after (hdisjoint : es.Pairwise fun a b => a.vmeEnd ≤ b.vmeStart)
    (hnonempty : ∀ e ∈ es, e.vmeStart < e.vmeEnd) (h : Looked address es false c) :
    ∀ e ∈ c.rest, address < e.vmeStart :=
  Cut.rest_of_head hdisjoint hnonempty h.entries (h.not_found rfl)

lemma Looked.result {found : Bool} (h : Looked address es found c)
    (hdisjoint : es.Pairwise fun a b => a.vmeEnd ≤ b.vmeStart)
    (hnonempty : ∀ e ∈ es, e.vmeStart < e.vmeEnd) :
    (found, if found then c.rest.head? else c.before.getLast?) = match entryAt es address with
      | some e => (true, some e)
      | none => (false, entryBefore es address) := by
  have hlooked := h
  obtain ⟨hes, hbefore, hfound, -⟩ := h
  have hno : entryAt c.before address = none :=
    entryAt_eq_none fun e he hx => absurd hx.2 (hbefore e he).not_gt
  have hat : entryAt es address = entryAt c.rest address := by
    rw [← hes, Cut.entries, entryAt, find?_append, show c.before.find? _ = none from hno]
    rfl
  cases found with
  | true =>
    obtain ⟨e, rest, hrest, hlow, hhigh⟩ := hfound rfl
    have hhere : entryAt c.rest address = some e := by
      rw [hrest]
      exact find?_cons_of_pos (by simp [VmMapEntry.Contains, hlow, hhigh])
    rw [hat, hhere, hrest]
    rfl
  | false =>
    have hafter := hlooked.after hdisjoint hnonempty
    have hnone : entryAt c.rest address = none :=
      entryAt_eq_none fun e he hx => absurd hx.1 (hafter e he).not_ge
    have hlast : entryBefore es address = c.before.getLast? := by
      have hall : c.before.filter (fun e => e.vmeEnd ≤ address) = c.before :=
        filter_eq_self.2 fun e he => by simpa using hbefore e he
      have hnil : c.rest.filter (fun e => e.vmeEnd ≤ address) = [] := by
        rw [filter_eq_nil_iff]
        intro e he
        have hlt := (hafter e he).trans (hnonempty e (hes ▸ mem_append_right _ he))
        simpa using hlt
      rw [← hes, Cut.entries, entryBefore, filter_append, hall, hnil, append_nil]
    rw [hat, hnone, hlast]
    rfl

lemma VmMap.WellFormed.pointsInto (h : map.WellFormed) :
    PointsInto (spans map.entries) map.hint := by
  intro id hid
  obtain ⟨e, he, rfl⟩ := h.hint id hid
  exact ⟨e.span, mem_map_of_mem he, rfl⟩

/-- Whatever the hint, a lookup returns the entry that contains the address or, without one, the
last that ends at or before it. -/
theorem vmMapLookupEntry_result (h : map.WellFormed) {hint : Option ℕ}
    (hhint : ∀ id, hint = some id → ∃ e ∈ map.entries, e.id = id) (address : ℕ) :
    (vmMapLookupEntry (map.saveHint hint) address).map lookupResult =
        some (match entryAt map.entries address with
          | some e => (true, some e)
          | none => (false, entryBefore map.entries address)) ∧
      ∀ e, entryAt map.entries address = some e ↔ e ∈ map.entries ∧ e.Contains address := by
  refine ⟨?_, fun e => entryAt_eq_some_iff h⟩
  have hsaved : (map.saveHint hint).WellFormed :=
    ⟨h.sorted, h.nonempty, h.inside, h.disjoint, h.nentries, hhint, h.firstFree⟩
  obtain ⟨found, c, hint', hlook, hlooked, -⟩ :=
    lookup_looked hsaved.disjoint hsaved.nonempty hsaved.pointsInto address
  rw [hlook, map_some]
  exact congrArg some (hlooked.result h.disjoint h.nonempty)

def pageAt (id start : ℕ) : VmMapEntry Unit :=
  { clearEntry with id := id, vmeStart := start, vmeEnd := start + 0x1000 }

/-- In a map with two pages the hole between them is found from the one behind it. -/
theorem vmMapLookupEntry_result_hole :
    ∃ map : VmMap Unit, map.entries = [pageAt 0 0x1000, pageAt 1 0x3000] ∧ map.WellFormed ∧
      (vmMapLookupEntry (map.saveHint (some 1)) 0x2800).map lookupResult =
        some (false, some (pageAt 0 0x1000)) := by
  have hwf : VmMap.WellFormed { vmMapCreate Unit 0 0x1000 0x5000 with
      entries := [pageAt 0 0x1000, pageAt 1 0x3000], nentries := 2, created := 2 } := by
    refine ⟨?_, ?_, ?_, ?_, rfl, ?_, ?_⟩ <;> simp [pageAt, vmMapCreate]
  exact ⟨_, rfl, hwf, (vmMapLookupEntry_result hwf (by simp [pageAt]) 0x2800).1⟩

/-! ## Clipping -/

/-- The part of well-formedness that loops over a range need and keep. -/
structure VmMap.Listed (map : VmMap ο) : Prop where
  inOrder : InOrder (spans map.entries)
  within : ∀ r ∈ spans map.entries, r.Within map.minOffset map.maxOffset
  hint : PointsInto (spans map.entries) map.hint

lemma VmMap.WellFormed.listed (h : map.WellFormed) : map.Listed := by
  refine ⟨pairwise_map.2 h.disjoint, fun r hr => ?_, h.pointsInto⟩
  obtain ⟨e, he, rfl⟩ := mem_map.1 hr
  exact ⟨(h.inside e he).1, h.nonempty e he, (h.inside e he).2⟩

lemma VmMap.Wf.listed (h : map.Wf) : map.Listed := ⟨h.shape.inOrder, h.shape.within, h.shape.hint⟩

lemma VmMap.Listed.disjoint (h : map.Listed) :
    map.entries.Pairwise fun a b => a.vmeEnd ≤ b.vmeStart := pairwise_map.1 h.inOrder

lemma VmMap.Listed.nonempty (h : map.Listed) (he : e ∈ map.entries) :
    e.vmeStart < e.vmeEnd := (h.within e.span (mem_map_of_mem he)).nonempty

theorem VmMap.Listed.split (h : map.Listed) {xs ys : List (VmMapEntry ο)}
    (hes : map.entries = xs ++ e :: ys) (ha : e.vmeStart = a.vmeStart ∧ a.vmeStart < a.vmeEnd)
    (hab : a.vmeEnd = b.vmeStart) (hb : b.vmeStart < b.vmeEnd ∧ b.vmeEnd = e.vmeEnd)
    (hid : a.id = e.id ∨ b.id = e.id) :
    { map.create with entries := xs ++ a :: b :: ys }.Listed := by
  obtain ⟨hord, hwithin, hhint⟩ := h
  rw [hes, spans_append, spans_cons] at hord hwithin hhint
  obtain ⟨hxs, hright, hcross⟩ := inOrder_append.1 hord
  obtain ⟨hys, hord'⟩ := inOrder_cons.1 hright
  obtain ⟨hlo, -, hhi⟩ := hwithin e.span (by simp)
  have hold : ∀ r ∈ spans xs ++ spans ys, r.Within map.minOffset map.maxOffset := by
    intro r hr
    apply hwithin
    simp only [mem_append, mem_cons] at hr ⊢
    tauto
  refine ⟨?_, ?_, ?_⟩
  · simp only [spans_append, spans_cons]
    refine inOrder_append.2 ⟨hxs, inOrder_cons.2 ⟨?_, inOrder_cons.2 ⟨?_, hord'⟩⟩, ?_⟩
    · exact forall_mem_cons.2 ⟨hab.le, fun r hr =>
        (hab.trans_lt hb.1).le.trans (hb.2.trans_le (hys r hr))⟩
    · exact fun r hr => hb.2.trans_le (hys r hr)
    intro r hr t ht
    have hle : r.stop ≤ a.vmeStart := (hcross r hr e.span (mem_cons_self ..)).trans ha.1.le
    obtain rfl | rfl | ht : t = a.span ∨ t = b.span ∨ t ∈ spans ys := by simpa using ht
    · exact hle
    · exact hle.trans (ha.2.trans_eq hab).le
    · exact hcross r hr t (mem_cons_of_mem _ ht)
  · intro r hr
    obtain hr | rfl | rfl | hr : r ∈ spans xs ∨ r = a.span ∨ r = b.span ∨ r ∈ spans ys := by
      simpa using hr
    · exact hold r (mem_append_left _ hr)
    · exact ⟨hlo.trans ha.1.le, ha.2, (hab.trans_lt hb.1).le.trans (hb.2.trans_le hhi)⟩
    · exact ⟨hlo.trans (ha.1.trans_lt (ha.2.trans_eq hab)).le, hb.1, hb.2.trans_le hhi⟩
    · exact hold r (mem_append_right _ hr)
  intro i hi
  obtain ⟨r, hr, rfl⟩ := hhint i hi
  simp only [spans_append, spans_cons]
  obtain hr | rfl | hr : r ∈ spans xs ∨ r = e.span ∨ r ∈ spans ys := by simpa using hr
  · exact ⟨r, by simp [hr], rfl⟩
  · obtain hid | hid := hid
    · exact ⟨a.span, by simp, hid⟩
    · exact ⟨b.span, by simp, hid⟩
  · exact ⟨r, by simp [hr], rfl⟩

lemma valueAt_pieces (hstart : a.vmeStart = e.vmeStart) (hmid : a.vmeEnd = b.vmeStart)
    (hstop : b.vmeEnd = e.vmeEnd) (hlow : e.vmeStart ≤ b.vmeStart) (hhigh : b.vmeStart ≤ e.vmeEnd)
    (ha : g a x = g e x) (hb : b.vmeStart ≤ x → g b x = g e x) (es : List (VmMapEntry ο)) :
    valueAt g (a :: b :: es) x = valueAt g (e :: es) x := by
  rw [valueAt_cons, valueAt_cons, valueAt_cons]
  by_cases hx : e.Contains x
  · rw [if_pos hx]
    rcases lt_or_ge x b.vmeStart with hlt | hge
    · rw [if_pos ⟨hstart.trans_le hx.1, hlt.trans_eq hmid.symm⟩, ha]
    · rw [if_neg fun h => (h.2.trans_eq hmid).not_ge hge, if_pos ⟨hge, hx.2.trans_eq hstop.symm⟩,
        hb hge]
  have ha' : ¬a.Contains x := fun h =>
    hx ⟨hstart.symm.trans_le h.1, (h.2.trans_eq hmid).trans_le hhigh⟩
  have hb' : ¬b.Contains x := fun h => hx ⟨hlow.trans h.1, h.2.trans_eq hstop⟩
  rw [if_neg hx, if_neg ha', if_neg hb']

section
variable (hg : ClipFree g)
include hg

lemma valueAt_splitEnd (hlow : e.vmeStart < stop) (hhigh : stop < e.vmeEnd)
    (hword : stop < 2 ^ 32) (map : VmMap ο) (es : List (VmMapEntry ο)) (x : ℕ) :
    valueAt g ((splitEnd map e stop).1 :: (splitEnd map e stop).2 :: es) x =
      valueAt g (e :: es) x :=
  valueAt_pieces (e := e) (a := (splitEnd map e stop).1) (b := (splitEnd map e stop).2)
    rfl rfl rfl hlow.le hhigh.le (hg.front e e.id stop x)
    (hg.back e map.created stop x hlow.le hword) es

lemma clipStart_listed (w : VmLayers ο σ) (h : map.Listed) (hes : c.entries = map.entries)
    (hhead : ∀ e rest, c.rest = e :: rest → start < e.vmeEnd) (hword : start < 2 ^ 32) (s : σ) :
    (vmMapClipStart w start c map s).2.1.Listed ∧
      ∀ x, valueAt g (vmMapClipStart w start c map s).2.1.entries x = valueAt g map.entries x := by
  obtain ⟨before, rest⟩ := c
  unfold vmMapClipStart
  cases rest with
  | nil => exact ⟨h, fun x => rfl⟩
  | cons e es =>
    dsimp only
    by_cases hclip : start > e.vmeStart
    · rw [if_pos hclip]
      have hend := hhead e es rfl
      have hsplit := h.split (a := (splitStart map e start).1) (b := (splitStart map e start).2)
        hes.symm ⟨rfl, hclip⟩ rfl ⟨hend, rfl⟩ (.inr rfl)
      simp only [Cut.entries, append_assoc, singleton_append]
      refine ⟨hsplit, fun x => ?_⟩
      rw [← hes, Cut.entries, valueAt_append, valueAt_append]
      refine congrArg _ (valueAt_pieces (b := (splitStart map e start).2) ?_ ?_ ?_ hclip.le hend.le
        (hg.front e _ start x) (hg.back e _ start x hclip.le hword) es) <;> rfl
    · rw [if_neg hclip]
      exact ⟨h, fun x => rfl⟩

lemma clipEnd_listed {w : VmLayers ο σ} {id : ℕ} {s s' : σ} (h : map.Listed)
    (hinside : ∀ e ∈ map.entries, e.id = id → e.vmeStart < stop) (hword : stop < 2 ^ 32)
    (hclip : vmMapClipEnd w stop id map s = some (map', s')) :
    map'.Listed ∧ ∀ x, valueAt g map'.entries x = valueAt g map.entries x := by
  unfold vmMapClipEnd at hclip
  split at hclip
  · next before e rest hcut =>
    obtain ⟨hes, e', rest', hrest, hid⟩ := cutAt_eq_some hcut
    obtain ⟨rfl, -⟩ := cons.inj hrest
    by_cases hend : stop < e.vmeEnd
    · rw [if_pos hend] at hclip
      obtain ⟨rfl, -⟩ := Prod.mk.inj (some.inj hclip)
      have hlow := hinside e (by simp [hes, Cut.entries]) hid
      refine ⟨h.split hes ⟨rfl, hlow⟩ rfl ⟨hend, rfl⟩ (.inl rfl), fun x => ?_⟩
      have hsame := valueAt_splitEnd hg hlow hend hword map rest x
      rw [hes, Cut.entries, valueAt_append, valueAt_append]
      exact congrArg _ hsame
    · rw [if_neg hend] at hclip
      obtain ⟨rfl, -⟩ := Prod.mk.inj (some.inj hclip)
      exact ⟨h, fun x => rfl⟩
  · cases hclip

end

/-! ## Ranges -/

/-- The way into a range keeps what the map says about addresses and ends at a cut at its start. -/
structure Reached (g : VmMapEntry ο → ℕ → β) (start : ℕ) (map map' : VmMap ο) (c : Cut ο) :
    Prop where
  listed : map'.Listed
  entries : c.entries = map'.entries
  before : ∀ e ∈ c.before, e.vmeEnd ≤ start
  rest : ∀ e ∈ c.rest, start ≤ e.vmeStart
  value : ∀ x, valueAt g map'.entries x = valueAt g map.entries x

lemma VmMap.Listed.enter (hg : ClipFree g) (h : map.Listed) (w : VmLayers ο σ) (fixHint : Bool)
    (hword : start < 2 ^ 32) (s : σ) :
    ∃ c map' s', vmMapEnter w fixHint start map s = some (c, map', s') ∧
      Reached g start map map' c := by
  obtain ⟨found, c, hint, hlook, hlooked, hhint, -⟩ :=
    lookup_looked h.disjoint (fun e he => h.nonempty he) h.hint start
  have hsaved : (map.saveHint hint).Listed := ⟨h.inOrder, h.within, hhint⟩
  unfold vmMapEnter
  simp only [hlook, bind_eq_bind, bind_some]
  cases found with
  | false =>
    have hafter := hlooked.after h.disjoint fun e he => h.nonempty he
    exact ⟨c, _, s, rfl, hsaved, hlooked.entries, hlooked.before, fun e he => (hafter e he).le,
      fun x => rfl⟩
  | true =>
    have hhead : ∀ e rest, c.rest = e :: rest → start < e.vmeEnd := by
      intro e rest hrest
      obtain ⟨e', rest', hrest', -, hlt⟩ := hlooked.found_spec rfl
      obtain ⟨rfl, -⟩ := cons.inj (hrest.symm.trans hrest')
      exact hlt
    have hclip := clipStart_listed hg w hsaved hlooked.entries hhead hword s
    have hcut := clipStart_cut w hsaved.disjoint hlooked s
    generalize vmMapClipStart w start c (map.saveHint hint) s = r at hclip hcut
    obtain ⟨c', map', s'⟩ := r
    obtain ⟨hentries, hbefore, hrest⟩ := hcut
    refine ⟨c', _, s', rfl, ?_, ?_, hbefore, hrest, ?_⟩
    all_goals cases fixHint
    · exact hclip.1
    · refine ⟨hclip.1.inOrder, hclip.1.within, ?_⟩
      show PointsInto (spans map'.entries) (lastPtr c'.before)
      rw [show map'.entries = c'.entries from hentries.symm]
      exact pointsInto_lastPtr fun e he => mem_append_left _ he
    · exact hentries
    · exact hentries
    all_goals exact hclip.2

section
variable (hg : ClipFree g) {w : VmLayers ο σ}
  {f : VmMapEntry ο → σ → VmMapEntry ο × σ}
include hg

variable {u : β → β} {map0 : VmMap ο}

omit hg in
lemma valueAt_update (hspan : ∀ e s, (f e s).1.span = e.span)
    (hf : ∀ e s x, g (f e s).1 x = u (g e x)) (e : VmMapEntry ο) (es : List (VmMapEntry ο)) (s : σ)
    (x : ℕ) : valueAt g ((f e s).1 :: es) x =
      if e.Contains x then some (u (g e x)) else valueAt g es x := by
  have hsame := hspan e s
  simp only [VmMapEntry.span, Span.mk.injEq] at hsame
  have hcontains : (f e s).1.Contains x ↔ e.Contains x := by
    simp only [VmMapEntry.Contains, hsame.2]
  rw [valueAt_cons, hf]
  exact if_congr hcontains rfl rfl

omit hg in
/-- Behind the entries that were visited there is nothing below the end of the range. -/
lemma valueAt_behind (F : Option β → Option β) (hF : F none = none)
    (hes : ∀ e ∈ es, stop ≤ e.vmeStart) :
    valueAt g es x = if x < stop then F (valueAt g es x) else valueAt g es x := by
  by_cases hlt : x < stop
  · have hnone : valueAt g es x = none := valueAt_of_lt_start fun e he => hlt.trans_le (hes e he)
    rw [if_pos hlt, hnone, hF]
  · rw [if_neg hlt]

theorem clipLoop_valueAt (hspan : ∀ e s, (f e s).1.span = e.span)
    (hf : ∀ e s x, g (f e s).1 x = u (g e x)) (hword : stop < 2 ^ 32)
    (hdisjoint : es.Pairwise fun a b => a.vmeEnd ≤ b.vmeStart)
    (hnonempty : ∀ e ∈ es, e.vmeStart < e.vmeEnd) (map : VmMap ο) (s : σ) (x : ℕ) :
    valueAt g (clipLoop w stop f es map s).1 x =
      if x < stop then (valueAt g es x).map u else valueAt g es x := by
  induction es generalizing map s with
  | nil => exact valueAt_behind (.map u) rfl (forall_mem_nil _)
  | cons e es ih =>
    obtain ⟨hnext, hdisjoint'⟩ := pairwise_cons.1 hdisjoint
    have hne := hnonempty e (mem_cons_self ..)
    unfold clipLoop
    by_cases hstart : e.vmeStart < stop
    · by_cases hstop : stop < e.vmeEnd
      · simp only [if_pos hstart, if_pos hstop]
        have htail : ∀ b ∈ (splitEnd map e stop).2 :: es, stop ≤ b.vmeStart :=
          forall_mem_cons.2 ⟨le_rfl, fun b hb => hstop.le.trans (hnext b hb)⟩
        rw [← valueAt_splitEnd hg hstart hstop hword map es x, valueAt_update hspan hf]
        generalize (splitEnd map e stop).2 :: es = tail at htail
        rw [valueAt_cons]
        by_cases hx : (splitEnd map e stop).1.Contains x
        · rw [if_pos hx, if_pos hx, if_pos (show x < stop from hx.2)]
          rfl
        · rw [if_neg hx, if_neg hx]
          exact valueAt_behind (.map u) rfl htail
      simp only [if_pos hstart, if_neg hstop]
      rw [valueAt_update hspan hf, valueAt_cons,
        ih hdisjoint' (fun b hb => hnonempty b (mem_cons_of_mem _ hb))]
      by_cases hx : e.Contains x
      · rw [if_pos hx, if_pos hx, if_pos (hx.2.trans_le (not_lt.1 hstop))]
        rfl
      · rw [if_neg hx, if_neg hx]
    · simp only [if_neg hstart]
      have hle := not_lt.1 hstart
      exact valueAt_behind (.map u) rfl
        (forall_mem_cons.2 ⟨hle, fun b hb => hle.trans (hne.le.trans (hnext b hb))⟩)

omit hg in
theorem Reached.valueAt_rest (h : Reached g start map0 map c) {v : β → Option β}
    (hes : valueAt g es x = if x < stop then (valueAt g c.rest x).bind v else valueAt g c.rest x) :
    valueAt g (c.before ++ es) x = if start ≤ x ∧ x < stop then (valueAt g map0.entries x).bind v
      else valueAt g map0.entries x := by
  have hsplit : valueAt g map0.entries x = (valueAt g c.before x).or (valueAt g c.rest x) := by
    rw [← h.value x, ← h.entries, Cut.entries, valueAt_append]
  rw [valueAt_append, hes, hsplit]
  rcases lt_or_ge x start with hx | hx
  · have hnone : valueAt g c.rest x = none :=
      valueAt_of_lt_start fun e he => hx.trans_le (h.rest e he)
    have hout : ¬(start ≤ x ∧ x < stop) := fun h => hx.not_ge h.1
    rw [if_neg hout, hnone, bind_none, ite_self]
  have hnone : valueAt g c.before x = none := valueAt_of_end_le fun e he => (h.before e he).trans hx
  rw [hnone, none_or, none_or]
  exact if_congr ⟨fun hlt => ⟨hx, hlt⟩, And.right⟩ rfl rfl

omit hg in
lemma Reached.rest_disjoint (h : Reached g start map0 map c) :
    (c.rest.Pairwise fun a b => a.vmeEnd ≤ b.vmeStart) ∧ ∀ e ∈ c.rest, e.vmeStart < e.vmeEnd := by
  have hdisjoint := h.listed.disjoint
  rw [← h.entries, Cut.entries] at hdisjoint
  exact ⟨(pairwise_append.1 hdisjoint).2.1,
    fun e he => h.listed.nonempty (h.entries ▸ mem_append_right _ he)⟩

theorem Reached.clipRange (h : Reached g start map0 map c) (hspan : ∀ e s, (f e s).1.span = e.span)
    (hf : ∀ e s x, g (f e s).1 x = u (g e x)) (hword : stop < 2 ^ 32) (s : σ) :
    (clipRange w stop f c map s).2.1.Listed ∧
      ∀ x, valueAt g (clipRange w stop f c map s).2.1.entries x =
        if start ≤ x ∧ x < stop then (valueAt g map0.entries x).map u
        else valueAt g map0.entries x := by
  obtain ⟨hdisjoint, hnonempty⟩ := h.rest_disjoint
  constructor
  · refine clipLoop_keeps (fun _ _ _ hspans h => ?_) (fun _ _ _ _ _ hlow hhigh h =>
      h.split rfl ⟨rfl, hlow⟩ rfl ⟨hhigh, rfl⟩ (.inl rfl)) w hspan ?_
    · obtain ⟨hord, hwithin, hhint⟩ := h
      exact ⟨hspans ▸ hord, hspans ▸ hwithin, hspans ▸ hhint⟩
    · rw [show c.before ++ c.rest = map.entries from h.entries]
      exact h.listed
  intro x
  have hloop := clipLoop_valueAt hg (w := w) hspan hf hword hdisjoint hnonempty map s x
  rw [map_eq_bind] at hloop ⊢
  exact h.valueAt_rest hloop

end

theorem VmMap.Listed.mem_rangeCheck (h : map.Listed) (he : e ∈ map.entries) (hx : e.Contains x) :
    (vmMapRangeCheck map start stop).1 ≤ x ∧ x < (vmMapRangeCheck map start stop).2 ↔
      start ≤ x ∧ x < stop := by
  obtain ⟨hlo, -, hhi⟩ := h.within e.span (mem_map_of_mem he)
  have hlow : map.minOffset ≤ x := hlo.trans hx.1
  have hhigh : x < map.maxOffset := hx.2.trans_le hhi
  unfold vmMapRangeCheck
  dsimp only
  split_ifs <;> omega

lemma VmMap.Listed.ite_rangeCheck (h : map.Listed) (g : VmMapEntry ο → ℕ → β)
    (v : β → Option β) (start stop x : ℕ) :
    (if (vmMapRangeCheck map start stop).1 ≤ x ∧ x < (vmMapRangeCheck map start stop).2 then
      (valueAt g map.entries x).bind v else valueAt g map.entries x) =
      if start ≤ x ∧ x < stop then (valueAt g map.entries x).bind v
      else valueAt g map.entries x := by
  cases hat : entryAt map.entries x with
  | none => simp [valueAt, hat]
  | some e =>
    have hx : e.Contains x := by simpa using find?_some hat
    exact if_congr (h.mem_rangeCheck (mem_of_find?_eq_some hat) hx) rfl rfl

lemma rangeCheck_lt (map : VmMap ο) (start : ℕ) (hstop : stop < 2 ^ 32) :
    (vmMapRangeCheck map start stop).1 < 2 ^ 32 ∧ (vmMapRangeCheck map start stop).2 < 2 ^ 32 := by
  unfold vmMapRangeCheck
  dsimp only
  constructor <;> split_ifs <;> omega

end Rhapsody.Vm
