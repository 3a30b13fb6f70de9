import Mathlib

/-! Address-ordered lists of disjoint spans with two pointers into them. Spans have identities,
handed out in order; splitting a span, moving its end, inserting, removing and pointing keep a map
well formed. -/

namespace Rhapsody.Lib

open List

structure Span where
  id : ℕ
  start : ℕ
  stop : ℕ
  deriving DecidableEq

namespace Span

def Contains (r : Span) (x : ℕ) : Prop := r.start ≤ x ∧ x < r.stop

structure Within (r : Span) (lo hi : ℕ) : Prop where
  lo_le : lo ≤ r.start
  nonempty : r.start < r.stop
  le_hi : r.stop ≤ hi

end Span

def PointsInto (spans : List Span) (p : Option ℕ) : Prop :=
  ∀ id, p = some id → ∃ r ∈ spans, r.id = id

variable {p : Option ℕ} {a : Span}

variable {xs ys : List Span} {r : Span}

lemma PointsInto.stay_or_go {p' : Option ℕ} (h : PointsInto xs p)
    (hsub : ∀ id, (∃ r ∈ xs, r.id = id) → ∃ t ∈ ys, t.id = id) (hr : r ∈ ys)
    (hp : p' = p ∨ p' = some r.id) : PointsInto ys p' := by
  obtain rfl | rfl := hp
  · exact fun id hid => hsub id (h id hid)
  · exact fun id hid => ⟨r, hr, Option.some.inj hid⟩

structure SpanMap where
  spans : List Span
  count : ℤ
  lo : ℕ
  hi : ℕ
  hint : Option ℕ
  free : Option ℕ
  created : ℕ

def Precedes (xs ys : List Span) : Prop := ∀ a ∈ xs, ∀ b ∈ ys, a.stop ≤ b.start

def InOrder (xs : List Span) : Prop := xs.Pairwise fun a b => a.stop ≤ b.start

lemma inOrder_append :
    InOrder (xs ++ ys) ↔ InOrder xs ∧ InOrder ys ∧ Precedes xs ys := pairwise_append

lemma inOrder_cons : InOrder (a :: xs) ↔ (∀ b ∈ xs, a.stop ≤ b.start) ∧ InOrder xs := pairwise_cons

namespace SpanMap

structure Wf (m : SpanMap) : Prop where
  inOrder : InOrder m.spans
  within : ∀ r ∈ m.spans, r.Within m.lo m.hi
  count_eq : m.count = m.spans.length
  ids : m.spans.Pairwise fun a b => a.id ≠ b.id
  fresh : ∀ r ∈ m.spans, r.id < m.created
  hint : PointsInto m.spans m.hint
  free : PointsInto m.spans m.free

variable {m : SpanMap}

lemma Wf.sides (h : m.Wf) (hm : m.spans = xs ++ r :: ys) :
    (∀ a ∈ xs, a.stop ≤ r.start) ∧ ∀ b ∈ ys, r.stop ≤ b.start := by
  have hord := h.inOrder
  rw [hm] at hord
  obtain ⟨-, hright, hcross⟩ := inOrder_append.1 hord
  exact ⟨fun a ha => hcross a ha r (mem_cons_self ..), (inOrder_cons.1 hright).1⟩

variable {b : Span} {stop c : ℕ}

lemma Wf.eq_of_id (h : m.Wf) (ha : a ∈ m.spans) (hb : b ∈ m.spans) (hid : a.id = b.id) : a = b := by
  have : Std.Symm fun a b : Span => a.id ≠ b.id := ⟨fun _ _ h => h.symm⟩
  by_contra hne
  exact h.ids.forall ha hb hne hid

lemma Wf.eq_of_contains (h : m.Wf) {x : ℕ} (ha : a ∈ m.spans) (hb : b ∈ m.spans)
    (hax : a.Contains x) (hbx : b.Contains x) : a = b := by
  have : Std.Symm fun a b : Span => a.stop ≤ b.start ∨ b.stop ≤ a.start := ⟨fun _ _ h => h.symm⟩
  have hapart : m.spans.Pairwise fun a b => a.stop ≤ b.start ∨ b.stop ≤ a.start :=
    h.inOrder.imp .inl
  obtain ⟨ha1, ha2⟩ := hax
  obtain ⟨hb1, hb2⟩ := hbx
  by_contra hne
  have := hapart.forall ha hb hne
  omega

variable {m' : SpanMap} {mid old : List Span}

lemma exists_mem_replace {P : Span → Prop} (hm : m.spans = xs ++ old ++ ys)
    (hm' : m'.spans = xs ++ mid ++ ys) (h : ∀ o ∈ old, P o → ∃ t ∈ mid, P t) :
    (∃ t ∈ m.spans, P t) → ∃ t ∈ m'.spans, P t := by
  rw [hm, hm']
  rintro ⟨t, ht, hP⟩
  obtain ht | ht | ht : t ∈ xs ∨ t ∈ old ∨ t ∈ ys := by simpa using ht
  · exact ⟨t, by simp [ht], hP⟩
  · obtain ⟨u, hu, hP⟩ := h t ht hP
    exact ⟨u, by simp [hu], hP⟩
  · exact ⟨t, by simp [ht], hP⟩

lemma Wf.replace (h : m.Wf) (hm : m.spans = xs ++ old ++ ys) (hm' : m'.spans = xs ++ mid ++ ys)
    (hlo : m'.lo = m.lo) (hhi : m'.hi = m.hi)
    (hcount : m'.count = m.count + mid.length - old.length) (hord : InOrder mid)
    (hwithin : ∀ r ∈ mid, r.Within m.lo m.hi) (hxs : Precedes xs mid) (hys : Precedes mid ys)
    (hids : mid.Pairwise fun a b => a.id ≠ b.id)
    (hknown : ∀ r ∈ mid, (∃ o ∈ old, o.id = r.id) ∨ m.created ≤ r.id)
    (hfresh : ∀ r ∈ mid, r.id < m'.created) (hcreated : m.created ≤ m'.created)
    (hhint : PointsInto m'.spans m'.hint) (hfree : PointsInto m'.spans m'.free) : m'.Wf := by
  obtain ⟨hord0, hwithin0, hcount0, hids0, hfresh0, -, -⟩ := h
  rw [hm] at hord0 hwithin0 hcount0 hids0 hfresh0
  obtain ⟨hleft, hordys, hcross⟩ := inOrder_append.1 hord0
  obtain ⟨hordxs, -, -⟩ := inOrder_append.1 hleft
  obtain ⟨hidleft, hidys, hidcross⟩ := pairwise_append.1 hids0
  obtain ⟨hidxs, -, hidxold⟩ := pairwise_append.1 hidleft
  -- a span kept outside differs from the ones put in
  have hother : ∀ r ∈ mid, ∀ t ∈ xs ++ ys, t.id ≠ r.id := by
    intro r hr t ht heq
    obtain ⟨o, ho, hor⟩ | hnew := hknown r hr
    · obtain ht | ht := mem_append.1 ht
      · exact hidxold t ht o ho (heq.trans hor.symm)
      · exact hidcross o (mem_append_right _ ho) t ht (hor.trans heq.symm)
    · have hlt := hfresh0 t (by simp only [mem_append] at ht ⊢; tauto)
      omega
  refine ⟨?_, ?_, ?_, ?_, ?_, hhint, hfree⟩
  · rw [hm']
    refine inOrder_append.2 ⟨inOrder_append.2 ⟨hordxs, hord, hxs⟩, hordys, ?_⟩
    intro a ha b hb
    obtain ha | ha := mem_append.1 ha
    · exact hcross a (mem_append_left _ ha) b hb
    · exact hys a ha b hb
  · rw [hm', hlo, hhi]
    intro r hr
    simp only [mem_append] at hr
    obtain (hr | hr) | hr := hr
    · exact hwithin0 r (by simp [hr])
    · exact hwithin r hr
    · exact hwithin0 r (by simp [hr])
  · rw [hm', hcount, hcount0]
    simp only [length_append, Nat.cast_add]
    omega
  · rw [hm']
    refine pairwise_append.2 ⟨pairwise_append.2 ⟨hidxs, hids, ?_⟩, hidys, ?_⟩
    · exact fun a ha r hr => hother r hr a (mem_append_left _ ha)
    intro a ha b hb
    obtain ha | ha := mem_append.1 ha
    · exact hidcross a (mem_append_left _ ha) b hb
    · exact (hother a ha b (mem_append_right _ hb)).symm
  · rw [hm']
    intro r hr
    simp only [mem_append] at hr
    obtain (hr | hr) | hr := hr
    · exact (hfresh0 r (by simp [hr])).trans_le hcreated
    · exact hfresh r hr
    · exact (hfresh0 r (by simp [hr])).trans_le hcreated

lemma Wf.split (h : m.Wf) (hm : m.spans = xs ++ r :: ys) (hm' : m'.spans = xs ++ a :: b :: ys)
    (hrest : m' = { m with spans := m'.spans, count := m.count + 1, created := m.created + 1 })
    (hstart : a.start = r.start) (hstop : b.stop = r.stop) (hmid : a.stop = b.start)
    (hleft : r.start < a.stop) (hright : a.stop < r.stop)
    (hids : a.id = m.created ∧ b.id = r.id ∨ a.id = r.id ∧ b.id = m.created) : m'.Wf := by
  obtain ⟨hxs, hys⟩ := h.sides hm
  have hr : r ∈ m.spans := by simp [hm]
  obtain ⟨hlo, -, hhi⟩ := h.within r hr
  have hrfresh := h.fresh r hr
  have hcreated : m'.created = m.created + 1 := by rw [hrest]
  have hold : m.spans = xs ++ [r] ++ ys := by simpa using hm
  have hnew : m'.spans = xs ++ [a, b] ++ ys := by simpa using hm'
  have hsub := fun id => exists_mem_replace (P := fun t => t.id = id) hold hnew (by grind)
  refine h.replace hold hnew (by rw [hrest]) (by rw [hrest]) ?_ ?_ ?_ ?_ ?_ ?_ ?_ ?_ (by omega)
    ?_ ?_
  · rw [hrest]
    simp only [length_cons, length_nil]
    omega
  · simpa [InOrder] using hmid.le
  · simp only [mem_cons, not_mem_nil, or_false, forall_eq_or_imp, forall_eq]
    exact ⟨⟨by omega, by omega, by omega⟩, ⟨by omega, by omega, by omega⟩⟩
  · intro t ht u hu
    have := hxs t ht
    obtain rfl | rfl : u = a ∨ u = b := by simpa using hu
    all_goals omega
  · intro t ht u hu
    have := hys u hu
    obtain rfl | rfl : t = a ∨ t = b := by simpa using ht
    all_goals omega
  · simp only [pairwise_cons, mem_cons, not_mem_nil, or_false, forall_eq,
      IsEmpty.forall_iff, implies_true, List.Pairwise.nil, and_true]
    omega
  · simp only [mem_cons, not_mem_nil, or_false, forall_eq_or_imp, forall_eq, exists_eq_left]
    omega
  · simp only [mem_cons, not_mem_nil, or_false, forall_eq_or_imp, forall_eq]
    omega
  · rw [show m'.hint = m.hint by rw [hrest]]
    exact fun id hid => hsub id (h.hint id hid)
  · rw [show m'.free = m.free by rw [hrest]]
    exact fun id hid => hsub id (h.free id hid)

lemma Wf.insert (h : m.Wf) (hm : m.spans = xs ++ ys) (hm' : m'.spans = xs ++ r :: ys)
    (hrest : m' = { m with
      spans := m'.spans, count := m.count + 1, created := m.created + 1
      hint := m'.hint, free := m'.free })
    (hid : r.id = m.created) (hwithin : r.Within m.lo m.hi) (hxs : ∀ a ∈ xs, a.stop ≤ r.start)
    (hys : ∀ b ∈ ys, r.stop ≤ b.start) (hhint : m'.hint = m.hint ∨ m'.hint = some r.id)
    (hfree : m'.free = m.free ∨ m'.free = some r.id) : m'.Wf := by
  have hcreated : m'.created = m.created + 1 := by rw [hrest]
  have hold : m.spans = xs ++ [] ++ ys := by simpa using hm
  have hnew : m'.spans = xs ++ [r] ++ ys := by simpa using hm'
  have hsub := fun id => exists_mem_replace (P := fun t => t.id = id) hold hnew (by simp)
  have hmem : r ∈ m'.spans := by simp [hm']
  refine h.replace hold hnew (by rw [hrest]) (by rw [hrest]) ?_ (by simp [InOrder])
    (by simpa using hwithin) ?_ ?_ (by simp) ?_ ?_ (by omega)
    (h.hint.stay_or_go hsub hmem hhint) (h.free.stay_or_go hsub hmem hfree)
  · rw [hrest]
    simp only [length_cons, length_nil]
    omega
  · simpa [Precedes] using hxs
  · simpa [Precedes] using hys
  · simp [hid]
  · simp [hid, hcreated]

lemma Wf.extend (h : m.Wf) (hm : m.spans = xs ++ r :: ys)
    (hm' : m'.spans = xs ++ { r with stop := stop } :: ys)
    (hrest : m' = { m with spans := m'.spans, hint := m'.hint, free := m'.free })
    (hle : r.stop ≤ stop) (hhi : stop ≤ m.hi) (hys : ∀ b ∈ ys, stop ≤ b.start)
    (hhint : m'.hint = m.hint ∨ m'.hint = some r.id)
    (hfree : m'.free = m.free ∨ m'.free = some r.id) : m'.Wf := by
  have hr : r ∈ m.spans := by simp [hm]
  obtain ⟨hlo, hnonempty, -⟩ := h.within r hr
  have hcreated : m'.created = m.created := by rw [hrest]
  have hold : m.spans = xs ++ [r] ++ ys := by simpa using hm
  have hnew : m'.spans = xs ++ [{ r with stop := stop }] ++ ys := by simpa using hm'
  have hsub := fun id => exists_mem_replace (P := fun t => t.id = id) hold hnew (by simp)
  have hmem : { r with stop := stop } ∈ m'.spans := by simp [hm']
  refine h.replace hold hnew (by rw [hrest]) (by rw [hrest]) ?_ (by simp [InOrder]) ?_ ?_ ?_
    (by simp) (by simp) ?_ (by omega)
    (h.hint.stay_or_go hsub hmem hhint) (h.free.stay_or_go hsub hmem hfree)
  · rw [hrest]
    simp only [length_cons, length_nil]
    omega
  · simpa using ⟨hlo, hnonempty.trans_le hle, hhi⟩
  · simpa [Precedes] using (h.sides hm).1
  · simpa [Precedes] using hys
  · simpa [hcreated] using h.fresh r hr

lemma Wf.remove (h : m.Wf) (hm : m.spans = xs ++ old ++ ys) (hm' : m'.spans = xs ++ mid ++ ys)
    (hrest : m' = { m with
      spans := m'.spans, count := m.count + mid.length - old.length
      created := m.created + mid.length })
    (hmid : mid = [] ∨ ∃ r ∈ old, ∃ start, r.start < start ∧ start < r.stop ∧
      mid = [⟨m.created, start, r.stop⟩])
    (hhint : PointsInto xs m.hint ∨ PointsInto ys m.hint)
    (hfree : PointsInto xs m.free ∨ PointsInto ys m.free) : m'.Wf := by
  have hord := h.inOrder
  rw [hm] at hord
  obtain ⟨hleft, -, hcross⟩ := inOrder_append.1 hord
  obtain ⟨-, -, hxold⟩ := inOrder_append.1 hleft
  have hpoints : ∀ p, PointsInto xs p ∨ PointsInto ys p → PointsInto m'.spans p := by
    rw [hm']
    rintro p (hp | hp)
    all_goals
      intro id hid
      obtain ⟨r, hr, hrid⟩ := hp id hid
      exact ⟨r, by simp [hr], hrid⟩
  have hcreated : m'.created = m.created + mid.length := by rw [hrest]
  have hhint' : PointsInto m'.spans m'.hint := by
    rw [show m'.hint = m.hint by rw [hrest]]
    exact hpoints _ hhint
  have hfree' : PointsInto m'.spans m'.free := by
    rw [show m'.free = m.free by rw [hrest]]
    exact hpoints _ hfree
  obtain rfl | ⟨r, hr, start, hlow, hhigh, rfl⟩ := hmid
  · exact h.replace hm hm' (by rw [hrest]) (by rw [hrest]) (by rw [hrest]) .nil nofun
      (by simp [Precedes]) nofun .nil nofun nofun (by omega) hhint' hfree'
  obtain ⟨hlo, -, hhi⟩ := h.within r (by simp [hm, hr])
  refine h.replace hm hm' (by rw [hrest]) (by rw [hrest]) (by rw [hrest]) (pairwise_singleton ..)
    (forall_mem_singleton.2 ⟨hlo.trans hlow.le, hhigh, hhi⟩) (fun a ha => ?_)
    (forall_mem_singleton.2 fun b hb => ?_) (pairwise_singleton ..) (by simp) (by simp [hcreated])
    (by omega) hhint' hfree'
  · exact forall_mem_singleton.2 ((hxold a ha r hr).trans hlow.le)
  · exact hcross r (mem_append_right _ hr) b hb

lemma Wf.point_hint (h : m.Wf) (hp : PointsInto m.spans p) :
    { m with hint := p }.Wf := { h with hint := hp }

lemma Wf.point_free (h : m.Wf) (hp : PointsInto m.spans p) :
    { m with free := p }.Wf := { h with free := hp }

/-! ## Mapped addresses -/

def Mapped (m : SpanMap) (x : ℕ) : Prop := ∃ r ∈ m.spans, r.Contains x

def Covers (m : SpanMap) (a b : ℕ) : Prop := ∀ x, a ≤ x → x < b → m.Mapped x

lemma covers_of_le {a b : ℕ} (h : b ≤ a) : m.Covers a b := fun _ ha hb => absurd hb (by omega)

lemma Covers.trans {a b : ℕ} (h : m.Covers a b) (h' : m.Covers b c) : m.Covers a c := by
  intro x ha hc
  rcases lt_or_ge x b with hb | hb
  · exact h x ha hb
  · exact h' x hb hc

lemma Covers.mono {a b : ℕ} (h : m.Covers a b) (hsub : ∀ x, m.Mapped x → m'.Mapped x) :
    m'.Covers a b := fun x ha hb => hsub x (h x ha hb)

lemma Covers.anti {a b : ℕ} (h : m.Covers a b) (hle : c ≤ b) : m.Covers a c :=
  fun x ha hc => h x ha (hc.trans_le hle)

structure Packed (m : SpanMap) : Prop where
  covers : ∀ r ∈ m.spans, m.free = some r.id → m.Covers m.lo r.stop
  known : ∀ id, m.free = some id → id < m.created

lemma Packed.grow (hlo : m'.lo = m.lo) (hsub : ∀ x, m.Mapped x → m'.Mapped x)
    (hknown : ∀ id, m'.free = some id → id < m'.created)
    (hfree : ∀ r ∈ m'.spans, m'.free = some r.id → ∃ b, m.Covers m.lo b ∧ m'.Covers b r.stop) :
    m'.Packed := by
  refine ⟨fun r hr hrfree => ?_, hknown⟩
  obtain ⟨b, hlow, hhigh⟩ := hfree r hr hrfree
  rw [hlo]
  exact (hlow.mono hsub).trans hhigh

lemma Packed.split (h : m.Packed) (hm : m.spans = xs ++ r :: ys)
    (hm' : m'.spans = xs ++ a :: b :: ys) (hlo : m'.lo = m.lo) (hfree : m'.free = m.free)
    (hcreated : m'.created = m.created + 1) (hstart : a.start = r.start) (hstop : b.stop = r.stop)
    (hmid : a.stop = b.start) (hle : a.stop ≤ r.stop)
    (hids : a.id = m.created ∧ b.id = r.id ∨ a.id = r.id ∧ b.id = m.created) : m'.Packed := by
  have hr : r ∈ m.spans := by simp [hm]
  refine Packed.grow hlo (fun x => exists_mem_replace (show m.spans = xs ++ [r] ++ ys by simpa)
    (show m'.spans = xs ++ [a, b] ++ ys by simpa) (forall_mem_singleton.2 fun hx => ?_))
    (fun id hid => ?_) fun t ht htfree => ?_
  · rcases lt_or_ge x a.stop with hlt | hge
    · exact ⟨a, by simp, hstart ▸ hx.1, hlt⟩
    · exact ⟨b, by simp, hmid ▸ hge, hstop ▸ hx.2⟩
  · rw [hfree] at hid
    have := h.known id hid
    omega
  rw [hfree] at htfree
  refine ⟨t.stop, ?_, covers_of_le le_rfl⟩
  rw [hm'] at ht
  have hold : ∀ u ∈ m.spans, u.id = t.id → t.stop ≤ u.stop → m.Covers m.lo t.stop :=
    fun u hu hid hstop => (h.covers u hu (hid ▸ htfree)).anti hstop
  have hnew : t.id ≠ m.created := (h.known t.id htfree).ne
  obtain ht | rfl | rfl | ht : t ∈ xs ∨ t = a ∨ t = b ∨ t ∈ ys := by simpa using ht
  · exact hold t (by simp [hm, ht]) rfl le_rfl
  · rcases hids with ⟨hid, -⟩ | ⟨hid, -⟩
    · exact absurd hid hnew
    · exact hold r hr hid.symm hle
  · rcases hids with ⟨-, hid⟩ | ⟨-, hid⟩
    · exact hold r hr hid.symm hstop.le
    · exact absurd hid hnew
  · exact hold t (by simp [hm, ht]) rfl le_rfl

lemma Packed.insert (h : m.Packed) (hwf : m.Wf) (hm : m.spans = xs ++ ys)
    (hm' : m'.spans = xs ++ r :: ys) (hlo : m'.lo = m.lo) (hcreated : m'.created = m.created + 1)
    (hid : r.id = m.created)
    (hfree : m'.free = m.free ∨ m'.free = some r.id ∧ m.Covers m.lo r.start) : m'.Packed := by
  have hmem : ∀ t, t ∈ m'.spans ↔ t = r ∨ t ∈ m.spans := by
    intro t
    rw [hm, hm']
    simp only [mem_append, mem_cons]
    tauto
  have hself : m'.Covers r.start r.stop :=
    fun x hlow hhigh => ⟨r, (hmem r).2 (.inl rfl), hlow, hhigh⟩
  refine Packed.grow hlo ?_ (fun id hidfree => ?_) fun t ht htfree => ?_
  · rintro x ⟨t, ht, hx⟩
    exact ⟨t, (hmem t).2 (.inr ht), hx⟩
  · rcases hfree with hfree | ⟨hfree, -⟩
    · have := h.known id (hfree ▸ hidfree)
      omega
    · have := Option.some.inj (hfree.symm.trans hidfree)
      omega
  rcases hfree with hfree | ⟨hfree, hcov⟩
  · rw [hfree] at htfree
    rcases (hmem t).1 ht with rfl | ht
    · exact absurd hid (h.known _ htfree).ne
    · exact ⟨t.stop, h.covers t ht htfree, covers_of_le le_rfl⟩
  have heq : r.id = t.id := Option.some.inj (hfree.symm.trans htfree)
  rcases (hmem t).1 ht with rfl | ht
  · exact ⟨t.start, hcov, hself⟩
  · exact absurd (heq.symm.trans hid) (hwf.fresh t ht).ne

lemma Packed.extend (h : m.Packed) (hwf : m.Wf) (hm : m.spans = xs ++ r :: ys)
    (hm' : m'.spans = xs ++ { r with stop := stop } :: ys) (hlo : m'.lo = m.lo)
    (hcreated : m'.created = m.created) (hle : r.stop ≤ stop)
    (hfree : m'.free = m.free ∨ m'.free = some r.id ∧ m.Covers m.lo r.stop) : m'.Packed := by
  have hr : r ∈ m.spans := by simp [hm]
  have hr' : { r with stop := stop } ∈ m'.spans := by simp [hm']
  have hself : m'.Covers r.stop stop := fun x hlow hhigh =>
    ⟨_, hr', (hwf.within r hr).nonempty.le.trans hlow, hhigh⟩
  have hmem : ∀ t ∈ m'.spans, t = { r with stop := stop } ∨ t ∈ m.spans ∧ t.id ≠ r.id := by
    intro t ht
    have hids := hwf.ids
    rw [hm] at hids
    obtain ⟨-, hright, hcross⟩ := pairwise_append.1 hids
    obtain ⟨hys, -⟩ := pairwise_cons.1 hright
    rw [hm'] at ht
    obtain ht | rfl | ht : t ∈ xs ∨ t = { r with stop := stop } ∨ t ∈ ys := by simpa using ht
    · exact .inr ⟨by simp [hm, ht], hcross t ht r (mem_cons_self ..)⟩
    · exact .inl rfl
    · exact .inr ⟨by simp [hm, ht], (hys t ht).symm⟩
  refine Packed.grow hlo (fun x => exists_mem_replace (show m.spans = xs ++ [r] ++ ys by simpa)
    (show m'.spans = xs ++ [{ r with stop := stop }] ++ ys by simpa) (forall_mem_singleton.2
      fun hx => ⟨_, mem_singleton_self _, hx.1, hx.2.trans_le hle⟩))
    (fun id hid => ?_) fun t ht htfree => ?_
  · rw [hcreated]
    rcases hfree with hfree | ⟨hfree, -⟩
    · exact h.known id (hfree ▸ hid)
    · exact Option.some.inj (hfree.symm.trans hid) ▸ hwf.fresh r hr
  rcases hmem t ht with rfl | ⟨ht, hne⟩
  · refine ⟨r.stop, ?_, hself⟩
    rcases hfree with hfree | ⟨-, hcov⟩
    · exact h.covers r hr (hfree ▸ htfree)
    · exact hcov
  rcases hfree with hfree | ⟨hfree, -⟩
  · exact ⟨t.stop, h.covers t ht (hfree ▸ htfree), covers_of_le le_rfl⟩
  · exact absurd (Option.some.inj (hfree.symm.trans htfree)).symm hne

lemma Packed.cut {zs zs' : List Span} {a : ℕ} (hwf' : m'.Wf) (hm : m.spans = xs ++ zs)
    (hm' : m'.spans = xs ++ zs') (hlo : m'.lo = m.lo) (hxs : ∀ t ∈ xs, t.stop ≤ a)
    (hzs : ∀ t ∈ zs, a ≤ t.start) (hpoint : PointsInto xs m'.free)
    (hcov : ∀ r ∈ xs, m'.free = some r.id → m.Covers m.lo r.stop) : m'.Packed := by
  refine ⟨fun r hr hrfree x hlow hhigh => ?_, fun id hid => ?_⟩
  · obtain ⟨r', hr', hid⟩ := hpoint r.id hrfree
    obtain rfl : r' = r := hwf'.eq_of_id (by simp [hm', hr']) hr hid
    obtain ⟨t, ht, hx⟩ := hcov r' hr' hrfree x (hlo ▸ hlow) hhigh
    rw [hm] at ht
    rcases mem_append.1 ht with ht | ht
    · exact ⟨t, by simp [hm', ht], hx⟩
    have := hxs r' hr'
    have := hzs t ht
    have := hx.1
    omega
  · obtain ⟨r, hr, rfl⟩ := hpoint id hid
    exact hwf'.fresh r (by simp [hm', hr])

end SpanMap

end Rhapsody.Lib
