import Rhapsody.Vm.MapCopy
import Rhapsody.Lib.SpanMap

/-! The operations on one map keep it well formed. A map is seen as a list of
spans with the two hints as pointers into it; clipping splits a span. -/

namespace Rhapsody.Vm
open Rhapsody.Lib List Option

variable {ο σ : Type}

def VmMapEntry.span (e : VmMapEntry ο) : Span := ⟨e.id, e.vmeStart, e.vmeEnd⟩

def spans (es : List (VmMapEntry ο)) : List Span := es.map VmMapEntry.span

@[simp] lemma spans_nil : spans ([] : List (VmMapEntry ο)) = [] := rfl

@[simp] lemma spans_cons (e : VmMapEntry ο) (es : List (VmMapEntry ο)) :
    spans (e :: es) = e.span :: spans es := rfl

@[simp] lemma spans_append (es fs : List (VmMapEntry ο)) :
    spans (es ++ fs) = spans es ++ spans fs := map_append

def VmMap.shape (map : VmMap ο) : SpanMap :=
  ⟨spans map.entries, map.nentries, map.minOffset, map.maxOffset, map.hint, map.firstFree,
    map.created⟩

structure VmMap.Wf (map : VmMap ο) : Prop where
  shape : map.shape.Wf
  bounds : map.minOffset < 2 ^ 32 ∧ map.maxOffset < 2 ^ 32
  isMainMap : map.isMainMap = true

variable {map map' : VmMap ο} {c : Cut ο}

/-! ## Pointers -/

variable {es fs before xs ys : List (VmMapEntry ο)} {id address size a addr : ℕ}
  {e prev mem : VmMapEntry ο} {firstFree hint : Option ℕ} {object : Option ο} {s' : σ}
  {kr : KernReturn} {P : VmMap ο → Prop} {f : VmMapEntry ο → σ → VmMapEntry ο × σ}

lemma cutAt_eq_some (h : cutAt id es = some c) :
    es = c.entries ∧ ∃ e rest, c.rest = e :: rest ∧ e.id = id := by
  induction es generalizing c with
  | nil => cases h
  | cons e es ih =>
    unfold cutAt at h
    split_ifs at h with hid
    · obtain rfl := some.inj h
      exact ⟨rfl, e, es, rfl, hid⟩
    obtain ⟨c', hc', rfl⟩ := map_eq_some_iff.1 h
    obtain ⟨hes, hrest⟩ := ih hc'
    exact ⟨congrArg (e :: ·) hes, hrest⟩

lemma cutAt_of_mem (h : ∃ e ∈ es, e.id = id) : ∃ c, cutAt id es = some c := by
  induction es with
  | nil => simp at h
  | cons e es ih =>
    unfold cutAt
    split_ifs with hid
    · exact ⟨_, rfl⟩
    obtain ⟨f, hf, hfid⟩ := h
    obtain rfl | hf := mem_cons.1 hf
    · exact absurd hfid hid
    · obtain ⟨c, hc⟩ := ih ⟨f, hf, hfid⟩
      exact ⟨_, by rw [hc]; rfl⟩

lemma cutAt_of_pointsInto (h : PointsInto (spans es) (some id)) :
    ∃ before e rest, cutAt id es = some ⟨before, e :: rest⟩ ∧ es = before ++ e :: rest ∧
      e.id = id := by
  obtain ⟨r, hr, hid⟩ := h id rfl
  obtain ⟨e, he, rfl⟩ := mem_map.1 hr
  obtain ⟨⟨before, rest⟩, hc⟩ := cutAt_of_mem ⟨e, he, hid⟩
  obtain ⟨hes, e', rest', hrest, hid'⟩ := cutAt_eq_some hc
  obtain rfl : rest = e' :: rest' := hrest
  exact ⟨before, e', rest', hc, hes, hid'⟩

lemma pointsInto_lastPtr (h : ∀ e ∈ fs, e ∈ es) : PointsInto (spans es) (lastPtr fs) := by
  intro id hid
  obtain ⟨e, he, rfl⟩ := map_eq_some_iff.1 hid
  exact ⟨e.span, mem_map_of_mem (h e (mem_of_getLast? he)), rfl⟩

lemma pointsInto_firstPtr (h : ∀ e ∈ fs, e ∈ es) : PointsInto (spans es) (firstPtr fs) := by
  intro id hid
  obtain ⟨e, he, rfl⟩ := map_eq_some_iff.1 hid
  exact ⟨e.span, mem_map_of_mem (h e (mem_of_head? he)), rfl⟩

/-! ## Lookup -/

structure Looked (address : ℕ) (es : List (VmMapEntry ο)) (found : Bool) (c : Cut ο) : Prop where
  entries : c.entries = es
  before : ∀ e ∈ c.before, e.vmeEnd ≤ address
  found_spec : found = true → ∃ e rest, c.rest = e :: rest ∧ e.vmeStart ≤ address ∧
    address < e.vmeEnd
  not_found : found = false → ∀ e rest, c.rest = e :: rest → address < e.vmeStart

lemma search_looked (hbefore : ∀ e ∈ before, e.vmeEnd ≤ address) :
    Looked address (before ++ es) (search address before es).1 (search address before es).2 := by
  induction es generalizing before with
  | nil => exact ⟨rfl, hbefore, by simp [search], by simp [search]⟩
  | cons cur rest ih =>
    unfold search
    split_ifs with hend
    · refine ⟨rfl, hbefore, fun hfound => ⟨cur, rest, rfl, by simpa using hfound, hend⟩, ?_⟩
      intro hfound e rest' heq
      obtain ⟨rfl, -⟩ := cons.inj heq
      simpa using hfound
    have hnext : ∀ e ∈ before ++ [cur], e.vmeEnd ≤ address := by
      intro e he
      obtain he | he := mem_append.1 he
      · exact hbefore e he
      · obtain rfl := mem_singleton.1 he
        exact not_lt.1 hend
    simpa using ih hnext

lemma Looked.append {found : Bool} (h : Looked address es found c)
    (hlast : ∃ e ∈ es, address < e.vmeEnd) :
    Looked address (es ++ fs) found { c with rest := c.rest ++ fs } := by
  obtain ⟨hes, hbefore, hfound, hnot⟩ := h
  have hrest : ∃ e rest, c.rest = e :: rest := by
    obtain ⟨e, he, hend⟩ := hlast
    rw [← hes] at he
    obtain he | he := mem_append.1 he
    · exact absurd hend (hbefore e he).not_gt
    · exact exists_cons_of_ne_nil (ne_nil_of_mem he)
  obtain ⟨e, rest, hcons⟩ := hrest
  refine ⟨by rw [← hes, Cut.entries, Cut.entries, append_assoc], hbefore, fun hf => ?_,
    fun hf e' rest' heq => ?_⟩
  · obtain ⟨e', rest', heq, hin⟩ := hfound hf
    exact ⟨e', rest' ++ fs, by simp [heq], hin⟩
  · simp only [hcons, cons_append, cons.injEq] at heq
    exact heq.1 ▸ hnot hf e rest hcons

lemma hint_cut (hhint : PointsInto (spans map.entries) map.hint) :
    ∃ before rest, hintCut map = some ⟨before, rest⟩ ∧
      map.entries = before ++ rest ∧ (rest = [] → map.entries = []) := by
  unfold hintCut
  cases hid : map.hint with
  | none => exact ⟨[], map.entries, rfl, rfl, id⟩
  | some id =>
    obtain ⟨before, e, rest, hcut, hes, -⟩ := cutAt_of_pointsInto (hid ▸ hhint)
    exact ⟨before, e :: rest, hcut, hes, fun hnil => absurd hnil (cons_ne_nil _ _)⟩

lemma VmMap.Wf.saveHint (h : map.Wf) {p : Option ℕ} (hp : PointsInto (spans map.entries) p) :
    (map.saveHint p).Wf := ⟨h.shape.point_hint hp, h.bounds, h.isMainMap⟩

lemma VmMap.shape_spans (hes : map.entries = xs ++ ys) :
    map.shape.spans = spans xs ++ spans ys := (congrArg spans hes).trans (spans_append ..)

lemma VmMap.Wf.sides (h : map.Wf) (hes : map.entries = xs ++ e :: ys) :
    (∀ a ∈ xs, a.vmeEnd ≤ e.vmeStart) ∧ ∀ b ∈ ys, e.vmeEnd ≤ b.vmeStart := by
  obtain ⟨hxs, hys⟩ := h.shape.sides (shape_spans hes)
  exact ⟨fun a ha => hxs a.span (mem_map_of_mem ha), fun b hb => hys b.span (mem_map_of_mem hb)⟩

lemma VmMap.Wf.within (h : map.Wf) (he : e ∈ map.entries) :
    map.minOffset ≤ e.vmeStart ∧ e.vmeStart < e.vmeEnd ∧ e.vmeEnd ≤ map.maxOffset := by
  obtain ⟨hlo, hne, hhi⟩ := h.shape.within e.span (mem_map_of_mem he)
  exact ⟨hlo, hne, hhi⟩

lemma lookup_looked (hdisjoint : map.entries.Pairwise fun a b => a.vmeEnd ≤ b.vmeStart)
    (hnonempty : ∀ e ∈ map.entries, e.vmeStart < e.vmeEnd)
    (hhint : PointsInto (spans map.entries) map.hint) (address : ℕ) :
    ∃ found c hint, vmMapLookupEntry map address = some (found, c, map.saveHint hint) ∧
      Looked address map.entries found c ∧ PointsInto (spans map.entries) hint ∧
      (found = false → hint = lastPtr c.before) := by
  have hsaved : ∀ found c, Looked address map.entries found c →
      PointsInto (spans map.entries) (if found then firstPtr c.rest else lastPtr c.before) := by
    intro found c hlooked
    rw [← hlooked.entries]
    split_ifs
    · exact pointsInto_firstPtr fun e he => mem_append_right _ he
    · exact pointsInto_lastPtr fun e he => mem_append_left _ he
  obtain ⟨before, rest, hcut, hes, hnil⟩ := hint_cut hhint
  unfold vmMapLookupEntry
  simp only [hcut]
  cases rest with
  | nil =>
    have hlooked : Looked address map.entries false ⟨[], []⟩ :=
      ⟨(hnil rfl).symm, by simp, by simp, by simp⟩
    exact ⟨_, _, _, rfl, hlooked, hsaved _ _ hlooked, fun _ => rfl⟩
  | cons cur rest =>
    have hbefore : ∀ e ∈ before, e.vmeEnd ≤ cur.vmeStart := by
      intro e he
      rw [hes] at hdisjoint
      exact (pairwise_append.1 hdisjoint).2.2 e he cur (mem_cons_self ..)
    by_cases hstart : address ≥ cur.vmeStart
    · by_cases hend : cur.vmeEnd > address
      · simp only [if_pos hstart, if_pos hend]
        refine ⟨true, ⟨before, cur :: rest⟩, map.hint, rfl, ⟨hes.symm, ?_, ?_, by simp⟩, hhint,
          by simp⟩
        · exact fun e he => (hbefore e he).trans hstart
        · exact fun _ => ⟨cur, rest, rfl, hstart, hend⟩
      simp only [if_pos hstart, if_neg hend]
      have hlooked : Looked address (before ++ cur :: rest) _ _ :=
        search_looked fun e he => (hbefore e he).trans hstart
      rw [← hes] at hlooked
      exact ⟨_, _, _, rfl, hlooked, hsaved _ _ hlooked, fun hf => by simp [hf]⟩
    simp only [if_neg hstart]
    have hfirst : Looked address ([] ++ (before ++ [cur])) _ _ := search_looked (by simp)
    have hcur := hnonempty cur (by simp [hes])
    have hlooked : Looked address ([] ++ (before ++ [cur]) ++ rest) _ _ :=
      hfirst.append ⟨cur, by simp, by omega⟩
    rw [nil_append, append_assoc, singleton_append, ← hes] at hlooked
    exact ⟨_, _, _, rfl, hlooked, hsaved _ _ hlooked, fun hf => by simp [hf]⟩

lemma VmMap.Wf.disjoint (h : map.Wf) : map.entries.Pairwise fun a b => a.vmeEnd ≤ b.vmeStart := by
  have := h.shape.inOrder
  rwa [VmMap.shape, spans, InOrder, pairwise_map] at this

lemma lookup_spec (h : map.Wf) (address : ℕ) :
    ∃ found c hint, vmMapLookupEntry map address = some (found, c, map.saveHint hint) ∧
      Looked address map.entries found c ∧ (map.saveHint hint).Wf ∧
      (found = false → hint = lastPtr c.before) := by
  obtain ⟨found, c, hint, hlook, hlooked, hhint, hlast⟩ :=
    lookup_looked h.disjoint (fun e he => (h.within he).2.1) h.shape.hint address
  exact ⟨found, c, hint, hlook, hlooked, h.saveHint hhint, hlast⟩

/-! ## Allocation -/

def VmMap.Mapped (map : VmMap ο) (x : ℕ) : Prop := ∃ e ∈ map.entries, e.vmeStart ≤ x ∧ x < e.vmeEnd

lemma VmMap.Wf.insertEntry (h : map.Wf) {new : VmMapEntry ο} (hes : map.entries = xs ++ ys)
    (hid : new.id = map.created) (hlo : map.minOffset ≤ new.vmeStart)
    (hnonempty : new.vmeStart < new.vmeEnd) (hhi : new.vmeEnd ≤ map.maxOffset)
    (hxs : ∀ a ∈ xs, a.vmeEnd ≤ new.vmeStart) (hys : ∀ b ∈ ys, new.vmeEnd ≤ b.vmeStart)
    (hhint : hint = map.hint ∨ hint = some new.id)
    (hfree : firstFree = map.firstFree ∨ firstFree = some new.id) :
    { map.create with
      entries := xs ++ new :: ys, size := size, hint := hint, firstFree := firstFree }.Wf := by
  refine ⟨h.shape.insert (shape_spans hes) (r := new.span) (spans_append ..) rfl hid
    ⟨hlo, hnonempty, hhi⟩ ?_ ?_ hhint hfree, h.bounds, h.isMainMap⟩
  · simpa [spans, VmMapEntry.span] using hxs
  · simpa [spans, VmMapEntry.span] using hys

variable {stop start : ℕ} {s : σ} {w : VmLayers ο σ}

lemma VmMap.Wf.extendEntry (h : map.Wf) (hes : map.entries = xs ++ e :: ys)
    (hle : e.vmeEnd ≤ stop) (hhi : stop ≤ map.maxOffset) (hys : ∀ b ∈ ys, stop ≤ b.vmeStart)
    (hhint : hint = map.hint ∨ hint = some e.id)
    (hfree : firstFree = map.firstFree ∨ firstFree = some e.id) :
    { map with
      entries := xs ++ { e with vmeEnd := stop } :: ys
      size := size, hint := hint, firstFree := firstFree }.Wf := by
  refine ⟨h.shape.extend (shape_spans hes) (spans_append ..) rfl hle hhi ?_ hhint hfree, h.bounds,
    h.isMainMap⟩
  simpa [spans, VmMapEntry.span] using hys

structure Gap (map : VmMap ο) (c : Cut ο) (start stop : ℕ) : Prop where
  entries : c.entries = map.entries
  before : ∀ e ∈ c.before, e.vmeEnd ≤ start
  rest : ∀ e ∈ c.rest, stop ≤ e.vmeStart
  lo : map.minOffset ≤ start
  le : start ≤ stop
  hi : stop ≤ map.maxOffset

lemma Cut.rest_of_head (hdisjoint : es.Pairwise fun a b => a.vmeEnd ≤ b.vmeStart)
    (hnonempty : ∀ e ∈ es, e.vmeStart < e.vmeEnd) (hes : c.entries = es)
    (hhead : ∀ e rest, c.rest = e :: rest → stop ≤ e.vmeStart) :
    ∀ e ∈ c.rest, stop ≤ e.vmeStart := by
  intro e he
  cases hrest : c.rest with
  | nil => simp [hrest] at he
  | cons a rest =>
    have hle := hhead a rest hrest
    rw [hrest] at he
    obtain rfl | he := mem_cons.1 he
    · exact hle
    rw [← hes, Cut.entries, hrest] at hdisjoint
    have hnext := (pairwise_cons.1 (pairwise_append.1 hdisjoint).2.1).1 e he
    have hne := hnonempty a (by simp [← hes, Cut.entries, hrest])
    omega

lemma VmMap.Wf.rest_of_head (h : map.Wf) (hes : c.entries = map.entries)
    (hhead : ∀ e rest, c.rest = e :: rest → stop ≤ e.vmeStart) : ∀ e ∈ c.rest, stop ≤ e.vmeStart :=
  Cut.rest_of_head h.disjoint (fun _ he => (h.within he).2.1) hes hhead

lemma dropLast_append_of_getLast? {α : Type*} {xs : List α} {x : α} (h : xs.getLast? = some x) :
    xs = xs.dropLast ++ [x] := (dropLast_append_getLast? x h).symm

lemma insertExtend_some (h : insertExtend w object start stop c s = (some prev, s')) :
    c.before.getLast? = some prev ∧ prev.vmeEnd = start := by
  unfold insertExtend at h
  cases hlast : c.before.getLast? with
  | none => simp [hlast] at h
  | some e =>
    simp only [hlast] at h
    split_ifs at h with hcond hcoalesce
    · obtain rfl : e = prev := by simpa using (Prod.mk.inj h).1
      exact ⟨rfl, hcond.2.1⟩
    all_goals simp at h

lemma Gap.entries_dropLast (h : Gap map c start stop) (hprev : c.before.getLast? = some prev) :
    map.entries = c.before.dropLast ++ prev :: c.rest := by
  rw [← h.entries, Cut.entries, dropLast_append_of_getLast? hprev]
  simp

lemma Gap.saveHint (h : Gap map c start stop) (hwf : map.Wf) :
    (map.saveHint (lastPtr c.before)).Wf := by
  refine hwf.saveHint ?_
  rw [← h.entries]
  exact pointsInto_lastPtr fun e he => mem_append_left _ he

inductive Inserts (mem : VmMapEntry ο) (map : VmMap ο) (object : Option ο)
    (offset start stop : ℕ) : KernReturn → VmMap ο → Prop where
  | refuse {kr : KernReturn} (hint : Option ℕ) (hwf : (map.saveHint hint).Wf)
    (hkr : kr ≠ .success) : Inserts mem map object offset start stop kr (map.saveHint hint)
  | extend {c : Cut ο} {prev : VmMapEntry ο} (hint : Option ℕ) (hwf : (map.saveHint hint).Wf)
    (hgap : Gap map c start stop) (hlt : start < stop) (hprev : c.before.getLast? = some prev)
    (hend : prev.vmeEnd = start) :
    Inserts mem map object offset start stop .success { map.saveHint hint with
      entries := c.before.dropLast ++ { prev with vmeEnd := stop } :: c.rest
      size := add32 map.size (sub32 stop prev.vmeEnd) }
  | insert {c : Cut ο} (hint : Option ℕ) (hwf : (map.saveHint hint).Wf)
    (hgap : Gap map c start stop) (hlt : start < stop) :
    Inserts mem map object offset start stop .success { (map.saveHint hint).create with
      entries := c.before ++ insertNew mem (map.saveHint hint) object offset start stop :: c.rest
      size := add32 map.size (sub32 stop start)
      firstFree := if map.firstFree = lastPtr c.before ∧
          (c.before.getLast?.map VmMapEntry.vmeEnd).getD map.maxOffset ≥ start then
        some map.created else map.firstFree }

lemma insert_inserts (w : VmLayers ο σ) (mem : VmMapEntry ο) (h : map.Wf) (object : Option ο)
    (offset start stop : ℕ) (s : σ) :
    ∃ kr map' s', vmMapInsert w mem map object offset start stop s = some (kr, map', s') ∧
      Inserts mem map object offset start stop kr map' := by
  unfold vmMapInsert
  by_cases hrange : start < map.minOffset ∨ stop > map.maxOffset ∨ start ≥ stop
  · rw [if_pos hrange]
    exact ⟨_, _, _, rfl, .refuse map.hint h (by simp)⟩
  rw [if_neg hrange]
  simp only [not_or, not_lt, not_le] at hrange
  obtain ⟨hlo, hhi, hlt⟩ := hrange
  obtain ⟨found, c, hint, hlook, hlooked, hwf, -⟩ := lookup_spec h start
  simp only [hlook, bind_eq_bind, bind_some]
  cases found with
  | true => exact ⟨_, _, _, rfl, .refuse hint hwf (by simp)⟩
  | false =>
    by_cases hnext : c.rest.head?.any fun next => next.vmeStart < stop
    · simp only [hnext]
      exact ⟨_, _, _, rfl, .refuse hint hwf (by simp)⟩
    have hrest : ∀ e ∈ c.rest, stop ≤ e.vmeStart := by
      refine h.rest_of_head hlooked.entries fun e rest hrest => ?_
      simpa [hrest] using hnext
    have hgap : Gap map c start stop := ⟨hlooked.entries, hlooked.before, hrest, hlo, hlt.le, hhi⟩
    simp only [hnext]
    cases hext : insertExtend w object start stop c s with
    | mk prev s' =>
      cases prev with
      | some prev =>
        obtain ⟨hprev, hend⟩ := insertExtend_some hext
        exact ⟨_, _, _, rfl, .extend hint hwf hgap hlt hprev hend⟩
      | none => exact ⟨_, _, _, rfl, .insert hint hwf hgap hlt⟩

lemma inserts_of_eq {offset : ℕ} (h : map.Wf)
    (heq : vmMapInsert w mem map object offset start stop s = some (kr, map', s')) :
    Inserts mem map object offset start stop kr map' := by
  obtain ⟨kr1, map1, s1, hspec, hinserts⟩ := insert_inserts w mem h object offset start stop s
  obtain ⟨rfl, rfl, -⟩ : kr1 = kr ∧ map1 = map' ∧ _ := by simpa using hspec.symm.trans heq
  exact hinserts

lemma insert_spec (w : VmLayers ο σ) (mem : VmMapEntry ο) (h : map.Wf) (object : Option ο)
    (offset start stop : ℕ) (s : σ) :
    ∃ kr map' s', vmMapInsert w mem map object offset start stop s = some (kr, map', s') ∧
      map'.Wf ∧ (∀ x, map.Mapped x → map'.Mapped x) ∧
      (kr = .success → start < stop ∧ ∀ x, start ≤ x → x < stop → map'.Mapped x) := by
  obtain ⟨kr, map', s', heq, hinserts⟩ := insert_inserts w mem h object offset start stop s
  refine ⟨kr, map', s', heq, ?_⟩
  cases hinserts with
  | refuse hint hwf hkr => exact ⟨hwf, fun _ hx => hx, fun hs => absurd hs hkr⟩
  | @extend c prev hint hwf hgap hlt hprev hend =>
    have hes := hgap.entries_dropLast hprev
    refine ⟨hwf.extendEntry hes (by omega) hgap.hi hgap.rest (.inl rfl) (.inl rfl), ?_, ?_⟩
    · rintro x ⟨e, he, hx⟩
      rw [hes] at he
      obtain he | rfl | he : e ∈ c.before.dropLast ∨ e = prev ∨ e ∈ c.rest := by simpa using he
      · exact ⟨e, by simp [he], hx⟩
      · exact ⟨{ e with vmeEnd := stop }, by simp, hx.1, hx.2.trans (by simp only; omega)⟩
      · exact ⟨e, by simp [he], hx⟩
    refine fun _ => ⟨hlt, fun x hlow hhigh => ?_⟩
    have hwithin := h.within (by simp [hes] : prev ∈ map.entries)
    exact ⟨{ prev with vmeEnd := stop }, by simp, by simp only; omega, hhigh⟩
  | @insert c hint hwf hgap hlt =>
    refine ⟨hwf.insertEntry hgap.entries.symm rfl hgap.lo hlt hgap.hi hgap.before hgap.rest
      (.inl rfl) ?_, ?_, ?_⟩
    · split_ifs
      · exact .inr rfl
      · exact .inl rfl
    · rintro x ⟨e, he, hx⟩
      rw [← hgap.entries, Cut.entries] at he
      refine ⟨e, ?_, hx⟩
      simp only [mem_append, mem_cons] at he ⊢
      tauto
    · refine fun _ => ⟨hlt, fun x hlow hhigh => ?_⟩
      exact ⟨insertNew mem (map.saveHint hint) object offset start stop, by simp, hlow, hhigh⟩

lemma alignUp_zero (hstart : start < 2 ^ 32) : alignUp 0 start = start := by
  rw [alignUp, add32_of_lt (by simpa using hstart), Nat.sub_zero, Nat.add_zero,
    Nat.and_two_pow_sub_one_eq_mod, Nat.mod_eq_of_lt hstart]

lemma propose_some {max : ℕ} (hstart : start < 2 ^ 32)
    (h : propose max size 0 start = some (a, stop)) :
    a = start ∧ stop = add32 start size ∧ stop ≤ max ∧ start ≤ stop := by
  unfold propose at h
  dsimp only at h
  rw [alignUp_zero hstart] at h
  split_ifs at h with hbad
  obtain ⟨rfl, rfl⟩ := Prod.mk.inj (some.inj h)
  simp only [not_or, not_lt] at hbad
  exact ⟨rfl, rfl, hbad.1, hbad.2⟩

structure GapFrom (map : VmMap ο) (start : ℕ) (c : Cut ο) : Prop where
  entries : c.entries = map.entries
  before : ∀ e ∈ c.before, e.vmeEnd ≤ start
  lo : map.minOffset ≤ start
  word : start < 2 ^ 32

lemma VmMap.Wf.gapFrom_end (h : map.Wf) (hes : map.entries = xs ++ e :: ys) :
    GapFrom map e.vmeEnd ⟨xs ++ [e], ys⟩ := by
  have hwithin := h.within (by simp [hes] : e ∈ map.entries)
  have hmax := h.bounds.2
  refine ⟨by simp [Cut.entries, hes], fun a ha => ?_, by omega, by omega⟩
  obtain ha | ha := mem_append.1 ha
  · have := (h.sides hes).1 a ha
    omega
  · obtain rfl := mem_singleton.1 ha
    exact le_rfl

lemma firstFreeCut_spec (h : map.Wf) :
    ∃ start c, firstFreeCut map = some (start, c) ∧ GapFrom map start c := by
  unfold firstFreeCut
  cases hfree : map.firstFree with
  | none => exact ⟨_, _, rfl, rfl, by simp, le_rfl, h.bounds.1⟩
  | some id =>
    have hpoint : PointsInto (spans map.entries) (some id) := hfree ▸ h.shape.free
    obtain ⟨before, e, rest, hcut, hes, -⟩ := cutAt_of_pointsInto hpoint
    simp only [hcut]
    exact ⟨_, _, rfl, h.gapFrom_end hes⟩

lemma findSpace_gap (h : map.Wf) {rest : List (VmMapEntry ο)}
    (hfrom : GapFrom map start ⟨before, rest⟩)
    (hfind : findSpace map.maxOffset size 0 start before rest = some (a, c)) :
    Gap map c a (add32 a size) := by
  induction rest generalizing before start with
  | nil =>
    obtain ⟨⟨a', stop⟩, hpropose, heq⟩ := map_eq_some_iff.1 hfind
    obtain ⟨rfl, rfl⟩ := Prod.mk.inj heq
    obtain ⟨rfl, rfl, hmax, hle⟩ := propose_some hfrom.word hpropose
    exact ⟨hfrom.entries, hfrom.before, by simp, hfrom.lo, hle, hmax⟩
  | cons next rest ih =>
    unfold findSpace at hfind
    cases hpropose : propose map.maxOffset size 0 start with
    | none => simp [hpropose] at hfind
    | some r =>
      obtain ⟨a', stop⟩ := r
      obtain ⟨rfl, rfl, hmax, hle⟩ := propose_some hfrom.word hpropose
      simp only [hpropose] at hfind
      split_ifs at hfind with hfits
      · obtain ⟨rfl, rfl⟩ := Prod.mk.inj (some.inj hfind)
        refine ⟨hfrom.entries, hfrom.before, h.rest_of_head hfrom.entries fun e rest' hrest => ?_,
          hfrom.lo, hle, hmax⟩
        obtain ⟨rfl, -⟩ := cons.inj hrest
        exact hfits
      · exact ih (h.gapFrom_end hfrom.entries.symm) hfind

inductive FindsEntry (map : VmMap ο) (size : ℕ) : KernReturn → Option ℕ → VmMap ο → Prop where
  | noSpace : FindsEntry map size .noSpace none map
  | extend {c : Cut ο} {start : ℕ} {entry : VmMapEntry ο}
    (hgap : Gap map c start (add32 start size)) (hlast : c.before.getLast? = some entry)
    (hend : entry.vmeEnd = start) :
    FindsEntry map size .success (some start) { map with
      entries := c.before.dropLast ++ { entry with vmeEnd := add32 start size } :: c.rest
      size := add32 map.size size, firstFree := some entry.id, hint := some entry.id }
  | insert {c : Cut ο} {start : ℕ} {new : VmMapEntry ο} (hgap : Gap map c start new.vmeEnd)
    (hid : new.id = map.created) (hstart : start = new.vmeStart)
    (hstop : new.vmeEnd = add32 start size) :
    FindsEntry map size .success (some start) { map.create with
      entries := c.before ++ new :: c.rest
      size := add32 map.size size, firstFree := some new.id, hint := some new.id }

lemma findEntry_finds [DecidableEq ο] (mem : VmMapEntry ο) (h : map.Wf) (size : ℕ)
    (object : Option ο) : ∃ kr a map', vmMapFindEntry mem map size 0 object = some (kr, a, map') ∧
        FindsEntry map size kr a map' := by
  obtain ⟨start, c, hcut, hfrom⟩ := firstFreeCut_spec h
  unfold vmMapFindEntry
  simp only [hcut, bind_eq_bind, bind_some]
  cases hfind : findSpace map.maxOffset size 0 start c.before c.rest with
  | none => exact ⟨_, _, _, rfl, .noSpace⟩
  | some r =>
    obtain ⟨a, c'⟩ := r
    have hgap := findSpace_gap h hfrom hfind
    dsimp only
    split
    · next entry hextend =>
      obtain ⟨hlast, hcond⟩ := filter_eq_some_iff.1 hextend
      simp only [Bool.decide_and, Bool.and_eq_true, decide_eq_true_eq] at hcond
      exact ⟨_, _, _, rfl, .extend hgap hlast hcond.2.1⟩
    · exact ⟨_, _, _, rfl, .insert hgap rfl rfl rfl⟩

lemma findsEntry_of_eq [DecidableEq ο] {a : Option ℕ} (h : map.Wf)
    (heq : vmMapFindEntry mem map size 0 object = some (kr, a, map')) :
    FindsEntry map size kr a map' := by
  obtain ⟨kr1, a1, map1, hspec, hfinds⟩ := findEntry_finds mem h size object
  obtain ⟨rfl, rfl, rfl⟩ : kr1 = kr ∧ a1 = a ∧ map1 = map' := by simpa using hspec.symm.trans heq
  exact hfinds

lemma VmMap.Wf.extendFound {entry : VmMapEntry ο} (h : map.Wf)
    (hgap : Gap map c start (add32 start size)) (hlast : c.before.getLast? = some entry)
    (hend : entry.vmeEnd = start) :
    { map with
      entries := c.before.dropLast ++ { entry with vmeEnd := add32 start size } :: c.rest
      size := add32 map.size size, firstFree := some entry.id, hint := some entry.id }.Wf :=
  h.extendEntry (hgap.entries_dropLast hlast) (hend.trans_le hgap.le) hgap.hi hgap.rest (.inr rfl)
    (.inr rfl)

lemma findEntry_spec [DecidableEq ο] (mem : VmMapEntry ο) (h : map.Wf)
    (hsize : 0 < size ∧ size < 2 ^ 32) (object : Option ο) :
    ∃ kr a map', vmMapFindEntry mem map size 0 object = some (kr, a, map') ∧ map'.Wf := by
  obtain ⟨kr, a, map', heq, hfinds⟩ := findEntry_finds mem h size object
  refine ⟨kr, a, map', heq, ?_⟩
  cases hfinds with
  | noSpace => exact h
  | extend hgap hlast hend => exact h.extendFound hgap hlast hend
  | @insert c start new hgap hid hstart hstop =>
    subst hstart
    obtain ⟨hes, hbefore, hrest, hlo, hle, hhi⟩ := hgap
    have hlt : new.vmeStart < new.vmeEnd := by
      unfold add32 at hstop
      omega
    exact h.insertEntry hes.symm hid hlo hlt hhi hbefore hrest (.inr rfl) (.inr rfl)

lemma findStart_spec (h : map.Wf) (start : ℕ) (hlo : map.minOffset ≤ start)
    (hword : start < 2 ^ 32) :
    ∃ a c hint, findStart map start = some (a, c, map.saveHint hint) ∧ (map.saveHint hint).Wf ∧
      GapFrom (map.saveHint hint) a c := by
  unfold findStart
  split_ifs with hmin
  · obtain ⟨a, c, hcut, hfrom⟩ := firstFreeCut_spec h
    exact ⟨a, c, map.hint, by rw [hcut]; rfl, h, hfrom⟩
  obtain ⟨found, c, hint, hlook, hlooked, hwf, -⟩ := lookup_spec h start
  rw [hlook]
  cases found with
  | true =>
    obtain ⟨before, rest⟩ := c
    obtain ⟨e, rest', rfl : rest = e :: rest', -⟩ := hlooked.found_spec rfl
    exact ⟨_, _, _, rfl, hwf, hwf.gapFrom_end hlooked.entries.symm⟩
  | false => exact ⟨_, _, _, rfl, hwf, hlooked.entries, hlooked.before, hlo, hword⟩

section
variable (w : VmLayers ο σ) (mem : VmMapEntry ο) (h : map.Wf) (object : Option ο)
  (offset length : ℕ) (haddr : addr < 2 ^ 32) (anywhere : Bool) (s : σ)
include h haddr

theorem find_cases : ∃ hint, (map.saveHint hint).Wf ∧
      (vmMapFind w mem map object offset addr length anywhere s =
          some (.noSpace, addr, map.saveHint hint, s) ∨
        ∃ a, vmMapFind w mem map object offset addr length anywhere s =
          (vmMapInsert w mem (map.saveHint hint) object offset a (add32 a length) s).map
            fun r => (r.1, a, r.2)) := by
  unfold vmMapFind
  cases anywhere with
  | false =>
    refine ⟨map.hint, h, .inr ⟨addr, ?_⟩⟩
    exact (map_eq_bind ..).symm
  | true =>
    by_cases hmax : (if addr < map.minOffset then map.minOffset else addr) > map.maxOffset
    · rw [if_pos hmax]
      exact ⟨map.hint, h, .inl rfl⟩
    rw [if_neg hmax]
    obtain ⟨a, c, hint, hstart, hwf, hfrom⟩ := findStart_spec h
      (if addr < map.minOffset then map.minOffset else addr) (by split_ifs <;> omega)
      (by have := h.bounds.1; split_ifs <;> omega)
    simp only [hstart, bind_eq_bind, bind_some]
    cases hfind : findSpace (map.saveHint hint).maxOffset length 0 a c.before c.rest with
    | none => exact ⟨hint, hwf, .inl rfl⟩
    | some r =>
      refine ⟨lastPtr r.2.before, (findSpace_gap hwf hfrom hfind).saveHint hwf, .inr ⟨r.1, ?_⟩⟩
      exact (map_eq_bind ..).symm

lemma find_spec : ∃ kr a map' s', vmMapFind w mem map object offset addr length anywhere s =
      some (kr, a, map', s') ∧ map'.Wf := by
  obtain ⟨hint, hwf, heq | ⟨a, heq⟩⟩ := find_cases w mem h object offset length haddr anywhere s
  · exact ⟨_, _, _, _, heq, hwf⟩
  obtain ⟨kr, map', s', hinsert, hwf', -⟩ :=
    insert_spec w mem hwf object offset a (add32 a length) s
  exact ⟨kr, a, map', s', by rw [heq, hinsert]; rfl, hwf'⟩

end

/-! ## Clipping -/

lemma VmMap.Wf.congr (h : map.Wf) (hes : spans es = spans map.entries) :
    { map with entries := es }.Wf := by
  refine ⟨?_, h.bounds, h.isMainMap⟩
  have hshape : { map with entries := es }.shape = map.shape := by simp [VmMap.shape, hes]
  rw [hshape]
  exact h.shape

lemma VmMap.Wf.splitStart (h : map.Wf) (hes : map.entries = xs ++ e :: ys)
    (hlow : e.vmeStart < start) (hhigh : start < e.vmeEnd) :
    { map.create with
      entries := xs ++ (splitStart map e start).1 :: (splitStart map e start).2 :: ys }.Wf := by
  exact ⟨h.shape.split (shape_spans hes) (spans_append ..) rfl rfl rfl rfl hlow hhigh
    (.inl ⟨rfl, rfl⟩), h.bounds, h.isMainMap⟩

lemma VmMap.Wf.splitEnd (h : map.Wf) (hes : map.entries = xs ++ e :: ys)
    (hlow : e.vmeStart < stop) (hhigh : stop < e.vmeEnd) :
    { map.create with
      entries := xs ++ (splitEnd map e stop).1 :: (splitEnd map e stop).2 :: ys }.Wf := by
  exact ⟨h.shape.split (shape_spans hes) (spans_append ..) rfl rfl rfl rfl hlow hhigh
    (.inr ⟨rfl, rfl⟩), h.bounds, h.isMainMap⟩

structure Entered (start : ℕ) (map : VmMap ο) (c : Cut ο) : Prop where
  wf : map.Wf
  entries : c.entries = map.entries
  before : ∀ e ∈ c.before, e.vmeEnd ≤ start
  rest : ∀ e ∈ c.rest, start ≤ e.vmeStart

lemma clipStart_cut (w : VmLayers ο σ)
    (hdisjoint : map.entries.Pairwise fun a b => a.vmeEnd ≤ b.vmeStart)
    (hlooked : Looked start map.entries true c) (s : σ) :
    (vmMapClipStart w start c map s).1.entries = (vmMapClipStart w start c map s).2.1.entries ∧
      (∀ e ∈ (vmMapClipStart w start c map s).1.before, e.vmeEnd ≤ start) ∧
      ∀ e ∈ (vmMapClipStart w start c map s).1.rest, start ≤ e.vmeStart := by
  obtain ⟨before, rest⟩ := c
  obtain ⟨hentries, hbefore, hfound, -⟩ := hlooked
  obtain ⟨e, rest', rfl : rest = e :: rest', hlow, hhigh⟩ := hfound rfl
  have hafter : ∀ b ∈ rest', start ≤ b.vmeStart := by
    intro b hb
    rw [← hentries, Cut.entries] at hdisjoint
    exact hhigh.le.trans ((pairwise_cons.1 (pairwise_append.1 hdisjoint).2.1).1 b hb)
  unfold vmMapClipStart
  dsimp only
  split_ifs with hclip
  · refine ⟨by simp [Cut.entries], fun a ha => ?_, fun b hb => ?_⟩
    · obtain ha | ha := mem_append.1 ha
      · exact hbefore a ha
      · obtain rfl := mem_singleton.1 ha
        exact le_rfl
    obtain rfl | hb := mem_cons.1 hb
    · exact le_rfl
    · exact hafter b hb
  exact ⟨hentries, hbefore, forall_mem_cons.2 ⟨not_lt.1 hclip, hafter⟩⟩

lemma clipStart_entered (w : VmLayers ο σ) (h : map.Wf)
    (hlooked : Looked start map.entries true c) (s : σ) :
    Entered start (vmMapClipStart w start c map s).2.1 (vmMapClipStart w start c map s).1 := by
  obtain ⟨hentries, hbefore, hrest⟩ := clipStart_cut w h.disjoint hlooked s
  refine ⟨?_, hentries, hbefore, hrest⟩
  obtain ⟨before, rest⟩ := c
  obtain ⟨hes, -, hfound, -⟩ := hlooked
  obtain ⟨e, rest', rfl : rest = e :: rest', -, hhigh⟩ := hfound rfl
  unfold vmMapClipStart
  dsimp only
  split_ifs with hclip
  · simpa [Cut.entries] using h.splitStart hes.symm hclip hhigh
  · exact h

lemma enter_spec (w : VmLayers ο σ) (fixHint : Bool) (h : map.Wf) (start : ℕ) (s : σ) :
    ∃ c map' s', vmMapEnter w fixHint start map s = some (c, map', s') ∧ Entered start map' c ∧
      (fixHint = true → map'.hint = lastPtr c.before) := by
  obtain ⟨found, c, hint, hlook, hlooked, hwf, hhint⟩ := lookup_spec h start
  unfold vmMapEnter
  simp only [hlook, bind_eq_bind, bind_some]
  cases found with
  | false =>
    refine ⟨c, _, s, rfl, ⟨hwf, hlooked.entries, hlooked.before, ?_⟩, fun _ => hhint rfl⟩
    exact h.rest_of_head hlooked.entries fun e rest hrest => (hlooked.not_found rfl e rest hrest).le
  | true =>
    have hentered := clipStart_entered w hwf hlooked s
    generalize vmMapClipStart w start c (map.saveHint hint) s = r at hentered
    obtain ⟨c', map', s'⟩ := r
    refine ⟨c', _, s', rfl, ?_, ?_⟩
    · cases fixHint with
      | false => exact hentered
      | true =>
        obtain ⟨hwf', hentries, hbefore, hrest⟩ := hentered
        refine ⟨hwf'.saveHint ?_, hentries, hbefore, hrest⟩
        rw [← hentries]
        exact pointsInto_lastPtr fun e he => mem_append_left _ he
    · rintro rfl
      rfl

theorem clipLoop_keeps
    (hcongr : ∀ (map : VmMap ο) es fs, spans fs = spans es → P { map with entries := es } →
      P { map with entries := fs })
    (hsplit : ∀ (map : VmMap ο) xs e ys stop, e.vmeStart < stop → stop < e.vmeEnd →
      P { map with entries := xs ++ e :: ys } →
      P { map.create with entries := xs ++ (splitEnd map e stop).1 ::
      (splitEnd map e stop).2 :: ys }) (w : VmLayers ο σ) (hf : ∀ e s, (f e s).1.span = e.span)
    (h : P { map with entries := xs ++ es }) :
    P { (clipLoop w stop f es map s).2.1 with
      entries := xs ++ (clipLoop w stop f es map s).1 } := by
  induction es generalizing xs map s with
  | nil => exact h
  | cons e es ih =>
    unfold clipLoop
    by_cases hstart : e.vmeStart < stop
    · by_cases hstop : stop < e.vmeEnd
      · simp only [if_pos hstart, if_pos hstop]
        refine hcongr map.create _ _ ?_ (hsplit map xs e es stop hstart hstop h)
        simp only [spans_append, spans_cons, hf]
      simp only [if_pos hstart, if_neg hstop]
      have hnext : P { map with entries := (xs ++ [(f e s).1]) ++ es } := by
        refine hcongr map _ _ ?_ h
        simp [hf]
      have hloop := ih (s := (f e s).2) hnext
      rw [append_assoc, singleton_append] at hloop
      exact hloop
    · simp only [if_neg hstart]
      exact h

lemma clipRange_wf (w : VmLayers ο σ) (stop : ℕ) (hf : ∀ e s, (f e s).1.span = e.span)
    (h : map.Wf) (hes : c.entries = map.entries) (s : σ) :
    (clipRange w stop f c map s).2.1.Wf ∧
      (clipRange w stop f c map s).1.entries = (clipRange w stop f c map s).2.1.entries := by
  have hcut : { map with entries := c.before ++ c.rest }.Wf := h.congr (by rw [← hes, Cut.entries])
  exact ⟨clipLoop_keeps (fun _ _ _ hspans h => h.congr hspans)
    (fun _ _ _ _ _ hlow hhigh h => h.splitEnd rfl hlow hhigh) w hf hcut, rfl⟩

/-! ## Operations on ranges -/

lemma protectEntry_span (w : VmLayers ο σ) (pmap : ℕ) (first : VmMapEntry ο) (newProt : VmProt)
    (setMax : Bool) (e : VmMapEntry ο) (s : σ) :
    (protectEntry w pmap first newProt setMax e s).1.span = e.span := by
  cases setMax <;> rfl

lemma wireEntry_span (w : VmLayers ο σ) (e : VmMapEntry ο) (s : σ) :
    (wireEntry w e s).1.span = e.span := by
  unfold wireEntry
  dsimp only
  split_ifs <;> rfl

lemma unwireEntry_span (w : VmLayers ο σ) (pmap : ℕ) (e : VmMapEntry ο) (s : σ) :
    (unwireEntry w pmap e s).1.span = e.span := by
  simp only [unwireEntry, VmMapEntry.span]

lemma reallocateEntry_span [DecidableEq ο] (w : VmLayers ο σ) (map : VmMap ο) (e : VmMapEntry ο)
    (s : σ) : (reallocateEntry w map e s).1.span = e.span := by
  unfold reallocateEntry detachEntry
  split_ifs <;> rfl

section
variable (w : VmLayers ο σ) (h : map.Wf) (start stop : ℕ) (s : σ)
include h

lemma protect_spec (newProt : VmProt) (setMax : Bool) :
    ∃ kr map' s', vmMapProtect w map start stop newProt setMax s = some (kr, map', s') ∧
      map'.Wf := by
  obtain ⟨c, map', s', henter, hentered, -⟩ :=
    enter_spec w false h (vmMapRangeCheck map start stop).1 s
  simp only [vmMapProtect, henter, bind_eq_bind, bind_some]
  split
  · exact ⟨_, _, _, rfl, (clipRange_wf w _ (protectEntry_span w _ _ _ _) hentered.wf
      hentered.entries s').1⟩
  · exact ⟨_, _, _, rfl, hentered.wf⟩

lemma inherit_spec (newInheritance : ℕ) :
    ∃ kr map' s', vmMapInherit w map start stop newInheritance s = some (kr, map', s') ∧
      map'.Wf := by
  unfold vmMapInherit
  cases VmInherit.ofCode newInheritance with
  | none => exact ⟨_, _, _, rfl, h⟩
  | some inheritance =>
    obtain ⟨c, map', s', henter, hentered, -⟩ :=
      enter_spec w false h (vmMapRangeCheck map start stop).1 s
    simp only [henter, bind_eq_bind, bind_some]
    exact ⟨_, _, _, rfl, (clipRange_wf w _ (fun _ _ => rfl) hentered.wf hentered.entries s').1⟩

omit h in
lemma wirePass_keeps (hP : ∀ map e, e ∈ map.entries → P map → P (map.saveHint (some e.id)))
    (h : P map) (hsub : ∀ e ∈ es, e ∈ map.entries) : P (wirePass w es map s).1 := by
  induction es generalizing map s with
  | nil => exact h
  | cons e es ih =>
    unfold wirePass
    have hrest : ∀ e ∈ es, e ∈ map.entries := fun e he => hsub e (mem_cons_of_mem _ he)
    by_cases hwired : e.wiredCount = 1
    · simp only [if_pos hwired]
      split_ifs
      · exact ih _ (hP map e (hsub e (mem_cons_self ..)) h) hrest
      · exact ih _ h hrest
    · simp only [if_neg hwired]
      exact ih _ h hrest

omit h in
lemma pointsInto_mem (he : e ∈ es) : PointsInto (spans es) (some e.id) :=
  fun _ hid => ⟨e.span, mem_map_of_mem he, some.inj hid⟩

lemma pageable_spec (newPageable : Bool) :
    ∃ kr map' s', vmMapPageable w map start stop newPageable s = some (kr, map', s') ∧
      map'.Wf := by
  obtain ⟨c, map', s', henter, hentered, -⟩ :=
    enter_spec w false h (vmMapRangeCheck map start stop).1 s
  simp only [vmMapPageable, henter, bind_eq_bind, bind_some]
  cases newPageable with
  | true =>
    simp only [if_true]
    split_ifs
    · exact ⟨_, _, _, rfl, hentered.wf⟩
    · exact ⟨_, _, _, rfl, (clipRange_wf w _ (unwireEntry_span w _) hentered.wf
        hentered.entries s').1⟩
  | false =>
    obtain ⟨hwf, hes⟩ := clipRange_wf w (vmMapRangeCheck map start stop).2 (wireEntry_span w)
      hentered.wf hentered.entries s'
    refine ⟨_, _, _, rfl, wirePass_keeps w _ (fun _ _ he h => h.saveHint (pointsInto_mem he)) hwf
      fun e he => ?_⟩
    rw [← hes]
    exact mem_append_right _ (( takeWhile_prefix _).subset he)

lemma reallocate_spec [DecidableEq ο] :
    ∃ kr map' s', vmMapReallocate w map start stop s = some (kr, map', s') ∧ map'.Wf := by
  obtain ⟨c, map', s', henter, hentered, -⟩ :=
    enter_spec w true h (vmMapRangeCheck map start stop).1 s
  simp only [vmMapReallocate, henter, bind_eq_bind, bind_some]
  exact ⟨_, _, _, rfl, (clipRange_wf w _ (reallocateEntry_span w map') hentered.wf
    hentered.entries s').1⟩

end

/-! ## Deletion -/

/-- `vm_map_delete` takes a stretch of spans out, up to the tail of the last one. -/
structure Deleted (es : List (VmMapEntry ο)) (map : VmMap ο) (es' : List (VmMapEntry ο))
    (map' : VmMap ο) (old mid ys : List Span) : Prop where
  before : spans es = old ++ ys
  after : spans es' = mid ++ ys
  tail : mid = [] ∨ ∃ r ∈ old, ∃ start, r.start < start ∧ start < r.stop ∧
    mid = [⟨map.created, start, r.stop⟩]
  rest : map' = { map with
    nentries := map.nentries + mid.length - old.length
    created := map.created + mid.length, size := map'.size }

lemma deleteLoop_deleted [DecidableEq ο] (w : VmLayers ο σ) (stop : ℕ)
    (es : List (VmMapEntry ο)) (map : VmMap ο) (s : σ) :
    ∃ old mid ys, Deleted es map (deleteLoop w stop es map s).1 (deleteLoop w stop es map s).2.1
      old mid ys := by
  induction es generalizing map s with
  | nil => exact ⟨[], [], [], rfl, rfl, .inl rfl, by simp [deleteLoop]⟩
  | cons e es ih =>
    unfold deleteLoop
    by_cases hstart : e.vmeStart < stop
    · by_cases hstop : stop < e.vmeEnd
      · simp only [if_pos hstart, if_pos hstop]
        refine ⟨[e.span], [⟨map.created, stop, e.vmeEnd⟩], spans es, rfl, rfl,
          .inr ⟨e.span, mem_singleton_self _, stop, hstart, hstop, rfl⟩, ?_⟩
        simp [vmMapEntryDelete, VmMap.create]
      simp only [if_pos hstart, if_neg hstop]
      set r := vmMapEntryDelete w map (detachEntry w map e s).1 (detachEntry w map e s).2 with hr
      obtain ⟨old, mid, ys, hbefore, hafter, htail, hrest⟩ := ih r.1 r.2
      refine ⟨e.span :: old, mid, ys, by rw [spans_cons, hbefore]; rfl, hafter, ?_, ?_⟩
      · obtain htail | ⟨t, ht, htail⟩ := htail
        · exact .inl htail
        · exact .inr ⟨t, mem_cons_of_mem _ ht, htail⟩
      rw [hrest]
      simp only [hr, vmMapEntryDelete, length_cons, Nat.cast_add, Nat.cast_one]
      congr 1
      omega
    · simp only [if_neg hstart]
      exact ⟨[], [], spans (e :: es), rfl, rfl, .inl rfl, by simp⟩

lemma VmMap.Wf.firstFreeStart_spec (h : map.Wf) : ∃ start, firstFreeStart map = some start ∧
      ∀ id, map.firstFree = some id → ∃ e ∈ map.entries, e.id = id ∧ e.vmeStart = start := by
  unfold firstFreeStart
  cases hfree : map.firstFree with
  | none => exact ⟨_, rfl, by simp⟩
  | some id =>
    have hpoint : PointsInto (spans map.entries) (some id) := hfree ▸ h.shape.free
    obtain ⟨before, e, rest, hcut, hes, hid⟩ := cutAt_of_pointsInto hpoint
    refine ⟨e.vmeStart, by simp [hcut], fun id' hid' => ⟨e, by simp [hes], ?_, rfl⟩⟩
    rw [hid, some.inj hid']

lemma deleteLoop_wf [DecidableEq ο] (w : VmLayers ο σ) (h : map.Wf)
    (hes : c.entries = map.entries) (hhint : PointsInto (spans c.before) map.hint)
    (hfree : PointsInto (spans c.before) map.firstFree) (stop : ℕ) (s : σ) :
    { (deleteLoop w stop c.rest map s).2.1 with
      entries := c.before ++ (deleteLoop w stop c.rest map s).1 }.Wf := by
  obtain ⟨old, mid, ys, hbefore, hafter, htail, hrest⟩ := deleteLoop_deleted w stop c.rest map s
  rw [hrest]
  have hspans : map.shape.spans = spans c.before ++ old ++ ys := by
    rw [append_assoc, ← hbefore]
    exact VmMap.shape_spans hes.symm
  refine ⟨h.shape.remove hspans ?_ rfl htail (.inl hhint) (.inl hfree), h.bounds, h.isMainMap⟩
  simp [VmMap.shape, hafter]

lemma delete_spec [DecidableEq ο] (w : VmLayers ο σ) (h : map.Wf) (start stop : ℕ) (s : σ) :
    ∃ map' s', vmMapDelete w map start stop s = some (.success, map', s') ∧ map'.Wf := by
  obtain ⟨c, map', s', henter, ⟨hwf, hes, -, hrest⟩, hhint⟩ := enter_spec w true h start s
  obtain ⟨freeStart, hfreeStart, hfree⟩ := hwf.firstFreeStart_spec
  have hlast : PointsInto (spans c.before) (lastPtr c.before) := pointsInto_lastPtr fun _ he => he
  have hhint' : PointsInto (spans c.before) map'.hint := by rwa [hhint rfl]
  simp only [vmMapDelete, henter, hfreeStart, bind_eq_bind, bind_some]
  split_ifs with hge
  · have hwf' : { map' with firstFree := lastPtr c.before }.Wf := by
      refine ⟨hwf.shape.point_free ?_, hwf.bounds, hwf.isMainMap⟩
      intro id hid
      obtain ⟨r, hr, rfl⟩ := hlast id hid
      exact ⟨r, by simp [VmMap.shape, ← hes, Cut.entries, hr], rfl⟩
    exact ⟨_, _, rfl, deleteLoop_wf w hwf' hes hhint' hlast stop s'⟩
  -- an entry that starts below the range is in front of the cut
  have hfree' : PointsInto (spans c.before) map'.firstFree := by
    intro id hid
    obtain ⟨e, he, rfl, hstart⟩ := hfree id hid
    rw [← hes] at he
    obtain he | he := mem_append.1 he
    · exact ⟨e.span, mem_map_of_mem he, rfl⟩
    · have := hrest e he
      omega
  exact ⟨_, _, rfl, deleteLoop_wf w hwf hes hhint' hfree' stop s'⟩

end Rhapsody.Vm
