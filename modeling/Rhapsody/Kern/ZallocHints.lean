import Rhapsody.Kern.Zalloc

/-! The hint table of a `zone_free_space`: at every size it names the lowest
entry of that size, and the last hint the lowest entry of at least `alloc_max`. -/

namespace Rhapsody.Kern
open Rhapsody.Lib List Option Function

lemma forall_mem_mid {α : Type*} {P : α → Prop} {xs ys : List α} {a : α} :
    (∀ x ∈ xs ++ a :: ys, P x) ↔ P a ∧ ∀ x ∈ xs ++ ys, P x := by
  simp only [forall_mem_append, forall_mem_cons]
  tauto

namespace ZoneFreeSpace

/-- The two kinds of spaces there are: the static default space, and those set up
by `zone_free_space_alloc`. -/
structure Geometry (fs : ZoneFreeSpace) : Prop where
  kind : fs.allocUnit = 0 ∧ fs.allocMax = 0 ∧ fs.hashShift = 0 ∧ fs.numHints = 1 ∨
    fs.allocUnit = 2 ^ fs.hashShift ∧ fs.allocMax = fs.numHints * fs.allocUnit ∧
      zoneMinAlloc ∣ fs.allocUnit ∧ fs.allocUnit ∣ pageSize
  numHints_pos : 0 < fs.numHints

def granule (fs : ZoneFreeSpace) : ℕ := max zoneMinAlloc fs.allocUnit

structure IsSize (fs : ZoneFreeSpace) (l : ℕ) : Prop where
  pos : 0 < l
  dvd : fs.granule ∣ l
  lt : l < 2 ^ 31

variable {fs : ZoneFreeSpace} {l l' : ℕ}

lemma hash_eq (h : l < 2 ^ 31) :
    fs.zoneFreeSpaceHash l = (min (l / 2 ^ fs.hashShift) fs.numHints : ℕ) := by
  have hle : l / 2 ^ fs.hashShift ≤ l := Nat.div_le_self _ _
  simp only [zoneFreeSpaceHash, Nat.shiftRight_eq_div_pow, toInteger,
    if_pos (show l / 2 ^ fs.hashShift < 2 ^ 31 by omega)]
  split_ifs <;> omega

lemma hash_le_numHints (h : l < 2 ^ 31) : fs.zoneFreeSpaceHash l ≤ fs.numHints := by
  rw [hash_eq h]
  omega

lemma hash_mono (h : l ≤ l') (hl : l' < 2 ^ 31) :
    fs.zoneFreeSpaceHash l ≤ fs.zoneFreeSpaceHash l' := by
  have hdiv : l / 2 ^ fs.hashShift ≤ l' / 2 ^ fs.hashShift := Nat.div_le_div_right h
  rw [hash_eq (h.trans_lt hl), hash_eq hl]
  omega

namespace Geometry

section
variable (hg : fs.Geometry) (hl : fs.IsSize l)
include hg hl

lemma hash_cases : fs.allocMax = 0 ∧ fs.numHints = 1 ∧ fs.zoneFreeSpaceHash l = 1 ∨
    ∃ q, 1 ≤ q ∧ l = q * fs.allocUnit ∧ fs.allocMax = fs.numHints * fs.allocUnit ∧
      0 < fs.allocUnit ∧ fs.zoneFreeSpaceHash l = (min q fs.numHints : ℕ) := by
  have hpos := hl.pos
  obtain ⟨-, hmax, hshift, hnum⟩ | ⟨hunit, hmax, hmin, -⟩ := hg.kind
  · refine .inl ⟨hmax, hnum, ?_⟩
    rw [hash_eq hl.lt, hshift, hnum, pow_zero, Nat.div_one]
    omega
  have hunit_pos : 0 < fs.allocUnit := by rw [hunit]; positivity
  have hgranule : fs.granule = fs.allocUnit := max_eq_right (Nat.le_of_dvd hunit_pos hmin)
  obtain ⟨q, hq⟩ := hgranule ▸ hl.dvd
  have hq_pos : q ≠ 0 := by
    rintro rfl
    omega
  refine .inr ⟨q, Nat.one_le_iff_ne_zero.2 hq_pos, by rw [hq, mul_comm], hmax, hunit_pos, ?_⟩
  rw [hash_eq hl.lt, ← hunit, hq, Nat.mul_div_cancel_left _ hunit_pos]

lemma one_le_hash : 1 ≤ fs.zoneFreeSpaceHash l := by
  have hpos := hg.numHints_pos
  obtain ⟨-, -, hhash⟩ | ⟨q, hq, -, -, -, hhash⟩ := hg.hash_cases hl
  all_goals omega

lemma hash_eq_iff (hl' : fs.IsSize l') (h : fs.zoneFreeSpaceHash l < fs.numHints) :
    fs.zoneFreeSpaceHash l' = fs.zoneFreeSpaceHash l ↔ l' = l := by
  constructor
  · intro heq
    obtain ⟨-, hnum, hhash⟩ | ⟨q, -, hlq, -, -, hhash⟩ := hg.hash_cases hl
    · omega
    obtain ⟨-, hnum, hhash'⟩ | ⟨q', -, hlq', -, -, hhash'⟩ := hg.hash_cases hl'
    · omega
    · have hqq : q' = q := by omega
      rw [hlq, hlq', hqq]
  · rintro rfl
    rfl

lemma hash_eq_numHints_iff : fs.zoneFreeSpaceHash l = fs.numHints ↔ ¬l < fs.allocMax := by
  obtain ⟨hmax, hnum, hhash⟩ | ⟨q, -, hlq, hmax, hunit, hhash⟩ := hg.hash_cases hl
  · omega
  · rw [hhash, hlq, hmax, not_lt, Nat.mul_le_mul_right_iff hunit]
    omega

lemma le_of_hash_le (hl' : fs.IsSize l') (h : fs.zoneFreeSpaceHash l ≤ fs.zoneFreeSpaceHash l')
    (hlt : fs.zoneFreeSpaceHash l < fs.numHints) : l ≤ l' := by
  by_contra hcon
  have hmono : fs.zoneFreeSpaceHash l' ≤ fs.zoneFreeSpaceHash l :=
    hash_mono (not_le.1 hcon).le hl.lt
  have heq := (hg.hash_eq_iff hl hl' hlt).1 (le_antisymm hmono h)
  omega

end

end Geometry

/-! ## The table -/

def firstIn (fs : ZoneFreeSpace) (hash : ℤ) (entries : List Region) : Option ℕ :=
  (entries.find? fun e => fs.zoneFreeSpaceHash e.length = hash).map Region.start

def HintsFor (fs : ZoneFreeSpace) (entries : List Region) : Prop :=
  ∀ hash : ℤ, 1 ≤ hash → hash ≤ fs.numHints → fs.hints hash = fs.firstIn hash entries

@[simp] lemma firstIn_nil (hash : ℤ) : fs.firstIn hash [] = none := rfl

lemma firstIn_append (hash : ℤ) (xs ys : List Region) :
    fs.firstIn hash (xs ++ ys) = (fs.firstIn hash xs).or (fs.firstIn hash ys) := by
  rw [firstIn, find?_append]
  cases h : xs.find? fun e => fs.zoneFreeSpaceHash e.length = hash <;> simp [firstIn, h]

lemma firstIn_cons (hash : ℤ) (e : Region) (es : List Region) : fs.firstIn hash (e :: es) =
      if fs.zoneFreeSpaceHash e.length = hash then some e.start else fs.firstIn hash es := by
  by_cases h : fs.zoneFreeSpaceHash e.length = hash <;> simp [firstIn, h]

variable {a size n : ℕ} {es : List Region} {hash : ℤ} {cond : Region → Bool} {p : Place}
  {fs' : ZoneFreeSpace}

lemma firstIn_mem (h : fs.firstIn hash es = some a) :
    ∃ e ∈ es, e.start = a ∧ fs.zoneFreeSpaceHash e.length = hash := by
  obtain ⟨e, he, rfl⟩ := map_eq_some_iff.1 h
  exact ⟨e, mem_of_find?_eq_some he, rfl, by simpa using find?_some he⟩

lemma lowerHint_apply (hints : ℤ → Option ℕ) (hash hash' : ℤ) (a : ℕ) :
    lowerHint hints hash a hash' = if hash' = hash then
      some (((hints hash).map (min a)).getD a) else hints hash' := by
  cases h : hints hash with
  | none => simp [lowerHint, h, update_apply]
  | some b =>
    by_cases hlt : a < b
    · simp [lowerHint, h, hlt, update_apply, min_eq_left hlt.le]
    by_cases heq : hash' = hash
    · simp [lowerHint, h, hlt, heq, min_eq_right (not_lt.1 hlt)]
    · simp [lowerHint, h, hlt, heq]

variable {xs ys : List Region} {e : Region}

lemma lowerHint_firstIn {hints : ℤ → Option ℕ} {hash' : ℤ} (a : ℕ)
    (h : hints hash' = fs.firstIn hash' (xs ++ ys)) (hx : ∀ b ∈ xs, b.start < a)
    (hy : ∀ b ∈ ys, a < b.start) :
    lowerHint hints hash a hash' = (fs.firstIn hash' xs).or
      (if hash' = hash then some a else fs.firstIn hash' ys) := by
  rw [lowerHint_apply]
  split_ifs with heq
  · subst heq
    rw [h, firstIn_append]
    cases hxs : fs.firstIn hash' xs with
    | some b =>
      obtain ⟨c, hc, rfl, -⟩ := firstIn_mem hxs
      simp [min_eq_right (hx c hc).le]
    | none =>
      cases hys : fs.firstIn hash' ys with
      | some b =>
        obtain ⟨c, hc, rfl, -⟩ := firstIn_mem hys
        simp [min_eq_left (hy c hc).le]
      | none => simp
  · rw [h, firstIn_append]

lemma HintsFor.insert (h : fs.HintsFor (xs ++ ys)) (hx : ∀ a ∈ xs, a.start < e.start)
    (hy : ∀ a ∈ ys, e.start < a.start) :
    (fs.zoneFreeSpaceHintInsert e).HintsFor (xs ++ e :: ys) := by
  intro hash h1 h2
  rw [firstIn_append, firstIn_cons]
  refine (lowerHint_firstIn e.start (h hash h1 h2) hx hy).trans ?_
  simp only [eq_comm (a := hash)]
  rfl

lemma nextHint_eq (hg : fs.Geometry) (he : fs.IsSize l) (hs : ∀ a ∈ ys, fs.IsSize a.length) :
    fs.nextHint (fs.zoneFreeSpaceHash l) l ys = fs.firstIn (fs.zoneFreeSpaceHash l) ys := by
  unfold nextHint firstIn
  split_ifs with hlt
  · congr 1
    refine find?_congr fun a ha => ?_
    simp [hg.hash_eq_iff he (hs a ha) hlt]
  have hlast : fs.zoneFreeSpaceHash l = fs.numHints :=
    le_antisymm (hash_le_numHints he.lt) (not_lt.1 hlt)
  congr 1
  refine find?_congr fun a ha => ?_
  rw [hlast]
  simp [hg.hash_eq_numHints_iff (hs a ha)]

section
variable (hg : fs.Geometry) (h : fs.HintsFor (xs ++ e :: ys)) (he : fs.IsSize e.length)
  (hs : ∀ a ∈ ys, fs.IsSize a.length)
include hg h he hs

lemma passHint_apply (hx : ∀ a ∈ xs, a.start < e.start) (h1 : 1 ≤ hash) (h2 : hash ≤ fs.numHints) :
    fs.passHint (fs.zoneFreeSpaceHash e.length) e.start e.length ys hash =
      fs.firstIn hash (xs ++ ys) := by
  have hhash := h hash h1 h2
  rw [firstIn_append, firstIn_cons] at hhash
  by_cases heq : fs.zoneFreeSpaceHash e.length = hash
  · subst heq
    rw [if_pos rfl] at hhash
    unfold passHint
    rw [hhash, firstIn_append]
    cases hxs : fs.firstIn (fs.zoneFreeSpaceHash e.length) xs with
    | none => simp [nextHint_eq hg he hs]
    | some b =>
      obtain ⟨c, hc, rfl, -⟩ := firstIn_mem hxs
      simp [hhash, hxs, (hx c hc).ne]
  rw [if_neg heq] at hhash
  rw [firstIn_append, ← hhash, passHint]
  split_ifs with hhint
  · rw [update_of_ne (Ne.symm heq)]
  · rfl

lemma HintsFor.delete (hx : ∀ a ∈ xs, a.start < e.start) :
    (fs.zoneFreeSpaceHintDelete e ys).HintsFor (xs ++ ys) :=
  fun _ h1 h2 => passHint_apply hg h he hs hx h1 h2

lemma HintsFor.replace {new : Region} (hx : ∀ a ∈ xs, a.start < new.start)
    (hnew : new.start ≤ e.start) (hy : ∀ a ∈ ys, e.start < a.start) :
    (fs.zoneFreeSpaceHintPrepend new e.length e.start ys).HintsFor (xs ++ new :: ys) := by
  intro hash h1 h2
  change (fs.zoneFreeSpaceHintPrepend new e.length e.start ys).hints hash =
    fs.firstIn hash (xs ++ new :: ys)
  have hxe : ∀ a ∈ xs, a.start < e.start := fun a ha => (hx a ha).trans_le hnew
  rw [firstIn_append, firstIn_cons]
  unfold zoneFreeSpaceHintPrepend
  dsimp only
  by_cases hclass : fs.zoneFreeSpaceHash e.length = fs.zoneFreeSpaceHash new.length
  · rw [if_neg (not_not.2 hclass)]
    have hhash := h hash h1 h2
    rw [firstIn_append, firstIn_cons] at hhash
    by_cases heq : fs.zoneFreeSpaceHash e.length = hash
    · subst heq
      rw [if_pos rfl] at hhash
      rw [if_pos hclass.symm, hhash]
      cases hxs : fs.firstIn (fs.zoneFreeSpaceHash e.length) xs with
      | none => simp
      | some b =>
        obtain ⟨c, hc, rfl, -⟩ := firstIn_mem hxs
        simp [hhash, hxs, (hxe c hc).ne]
    rw [if_neg heq] at hhash
    have hne : fs.zoneFreeSpaceHash new.length ≠ hash := hclass ▸ heq
    rw [if_neg hne, ← hhash]
    split_ifs with hhint
    · rw [update_of_ne (Ne.symm heq)]
    · rfl
  · rw [if_pos hclass]
    have hpass := passHint_apply hg h he hs hxe h1 h2
    rw [lowerHint_firstIn new.start hpass hx fun a ha => hnew.trans_lt (hy a ha)]
    simp only [eq_comm (a := hash)]

end

lemma zoneFreeSpaceHintAppend_eq (fs : ZoneFreeSpace) (new : Region) (oldLength : ℕ)
    (ys : List Region) :
    fs.zoneFreeSpaceHintAppend new oldLength ys =
      fs.zoneFreeSpaceHintPrepend new oldLength new.start ys := by
  unfold zoneFreeSpaceHintAppend zoneFreeSpaceHintPrepend
  dsimp only
  split_ifs with hclass hhint
  · rfl
  · rw [← hhint, update_eq_self]
  · rfl

/-! ## Lookup -/

lemma placeOf_spec (h : placeOf cond es = some p) :
    p.entries = es ∧ cond p.cur = true ∧ ∀ a ∈ p.before, cond a = false := by
  induction es generalizing p with
  | nil => simp [placeOf] at h
  | cons e es ih =>
    unfold placeOf at h
    split_ifs at h with hc
    · obtain rfl := some.inj h
      exact ⟨rfl, hc, by simp⟩
    obtain ⟨q, hq, rfl⟩ := map_eq_some_iff.1 h
    obtain ⟨hes, hcur, hbefore⟩ := ih hq
    refine ⟨?_, hcur, ?_⟩
    · rw [← hes]
      rfl
    · exact forall_mem_cons.2 ⟨by simpa using hc, hbefore⟩

lemma placeOf_eq_none (h : placeOf cond es = none) : ∀ a ∈ es, cond a = false := by
  induction es with
  | nil => simp
  | cons e es ih =>
    unfold placeOf at h
    split_ifs at h with hc
    exact forall_mem_cons.2 ⟨by simpa using hc, ih (map_eq_none_iff.1 h)⟩

lemma placeOf_append (hx : ∀ a ∈ xs, cond a = false) (he : cond e = true) :
    placeOf cond (xs ++ e :: ys) = some ⟨xs, e, ys⟩ := by
  induction xs with
  | nil => simp [placeOf, he]
  | cons a xs ih =>
    obtain ⟨ha, hxs⟩ := forall_mem_cons.1 hx
    simp [placeOf, ha, ih hxs]

lemma start_lt_of_ascending (h : Ascending (xs ++ e :: ys)) (hs : ∀ a ∈ xs, 0 < a.length)
    (he : 0 < e.length) : (∀ a ∈ xs, a.start < e.start) ∧ ∀ a ∈ ys, e.start < a.start := by
  obtain ⟨hbelow, habove⟩ := h.sides
  constructor
  · intro a ha
    have hle := hbelow a ha
    have hpos := hs a ha
    omega
  intro a ha
  have hle := habove a ha
  omega

lemma locate_hint (hasc : Ascending es) (hs : ∀ b ∈ es, fs.IsSize b.length)
    (h : fs.firstIn hash es = some a) :
    ∃ p, locate a es = some p ∧ p.entries = es ∧ fs.zoneFreeSpaceHash p.cur.length = hash ∧
      fs.firstIn hash p.before = none := by
  obtain ⟨e, he, rfl⟩ := map_eq_some_iff.1 h
  obtain ⟨hbucket, xs, ys, rfl, hxs⟩ := find?_eq_some_iff_append.1 he
  have hpos : ∀ b ∈ xs ++ e :: ys, 0 < b.length := fun b hb => (hs b hb).pos
  obtain ⟨hlt, -⟩ := start_lt_of_ascending hasc
    (fun b hb => hpos b (mem_append_left _ hb)) (hpos e (by simp))
  refine ⟨⟨xs, e, ys⟩, placeOf_append (fun b hb => ?_) (by simp), rfl, by simpa using hbucket, ?_⟩
  · simpa using (hlt b hb).ne
  · rw [firstIn, map_eq_none_iff, find?_eq_none]
    exact fun b hb => by simpa using hxs b hb

/-- The entry `zone_free_space_lookup` returns is in the list and long enough, and the table no
longer knows it. -/
structure Found (fs : ZoneFreeSpace) (size : ℕ) (p : Place) (fs' : ZoneFreeSpace) : Prop where
  entries : p.entries = fs.entries
  size_le : size ≤ p.cur.length
  hints : fs'.HintsFor (p.before ++ p.after)
  rest : fs' = { fs with hints := fs'.hints }

structure Tidy (fs : ZoneFreeSpace) : Prop where
  geometry : fs.Geometry
  ascending : Ascending fs.entries
  sizes : ∀ e ∈ fs.entries, fs.IsSize e.length
  hints : fs.HintsFor fs.entries
  numEntries : fs.numEntries = fs.entries.length

lemma Tidy.at_mid (h : fs.Tidy) (hes : fs.entries = xs ++ e :: ys) :
    Ascending (xs ++ e :: ys) ∧ fs.HintsFor (xs ++ e :: ys) ∧ fs.IsSize e.length ∧
      (∀ a ∈ xs ++ ys, fs.IsSize a.length) ∧ (∀ a ∈ xs, a.start < e.start) ∧
      ∀ a ∈ ys, e.start < a.start := by
  have hsizes := h.sizes
  have hasc := h.ascending
  have hhints := h.hints
  rw [hes] at hsizes hasc hhints
  obtain ⟨he, hkept⟩ := forall_mem_mid.1 hsizes
  exact ⟨hasc, hhints, he, hkept, start_lt_of_ascending hasc
    (fun a ha => (hkept a (mem_append_left _ ha)).pos) he.pos⟩

lemma Tidy.found_of_first (h : fs.Tidy) (hp : p.entries = fs.entries) (hsize : size ≤ p.cur.length)
    (hfirst : fs.firstIn (fs.zoneFreeSpaceHash p.cur.length) p.before = none) :
    fs.Found size p { fs with
      hints := update fs.hints (fs.zoneFreeSpaceHash p.cur.length)
        (fs.nextHint (fs.zoneFreeSpaceHash p.cur.length) p.cur.length p.after) } := by
  obtain ⟨-, hhints, hcur, hkept, hlt, -⟩ := h.at_mid hp.symm
  refine ⟨hp, hsize, ?_, rfl⟩
  have hdelete := hhints.delete h.geometry hcur (fun a ha => hkept a (mem_append_right _ ha)) hlt
  have hhint : fs.hints (fs.zoneFreeSpaceHash p.cur.length) = some p.cur.start := by
    rw [hhints _ (h.geometry.one_le_hash hcur) (hash_le_numHints hcur.lt), firstIn_append,
      firstIn_cons, hfirst, if_pos rfl, none_or]
  simpa only [zoneFreeSpaceHintDelete, passHint, if_pos hhint] using hdelete

lemma Tidy.found_of_not_first (h : fs.Tidy) (hp : p.entries = fs.entries)
    (hsize : size ≤ p.cur.length)
    (hfirst : fs.firstIn (fs.zoneFreeSpaceHash p.cur.length) p.before = some a) :
    fs.Found size p fs := by
  refine ⟨hp, hsize, fun hash h1 h2 => ?_, rfl⟩
  rw [h.hints hash h1 h2, ← hp, Place.entries, firstIn_append, firstIn_append, firstIn_cons]
  split_ifs with heq
  · subst heq
    simp [hfirst]
  · rfl

lemma Tidy.lookupLast_found (h : fs.Tidy) (hlook : fs.lookupLast size = (some p, fs')) :
    fs.Found size p fs' := by
  have hpos := h.geometry.numHints_pos
  have hhint := h.hints fs.numHints (by omega) le_rfl
  unfold lookupLast at hlook
  cases hfirst : fs.firstIn fs.numHints fs.entries with
  | none => simp [hhint, hfirst] at hlook
  | some a =>
    obtain ⟨q, hq, hqe, hhash, hbefore⟩ := locate_hint h.ascending h.sizes hfirst
    simp only [hhint, hfirst, bind_some, hq] at hlook
    split_ifs at hlook with hlt
    · -- the hint is too short: a later entry that is long enough, hint untouched
      obtain ⟨hmap, rfl⟩ := Prod.mk.inj hlook
      obtain ⟨r, hr, rfl⟩ := map_eq_some_iff.1 hmap
      obtain ⟨hrafter, hrsize, -⟩ := placeOf_spec hr
      have hre : q.before ++ q.cur :: r.before ++ r.cur :: r.after = fs.entries := by
        rw [← hqe, Place.entries, ← hrafter]
        simp [Place.entries]
      have hlen : ¬r.cur.length < size := by simpa using hrsize
      have hrcur : fs.IsSize r.cur.length := h.sizes _ (by simp [← hre])
      have hclass : fs.zoneFreeSpaceHash r.cur.length = fs.numHints :=
        le_antisymm (hash_le_numHints hrcur.lt)
          (hhash ▸ hash_mono (by omega : q.cur.length ≤ r.cur.length) hrcur.lt)
      refine h.found_of_not_first (a := q.cur.start) hre (not_lt.1 hlen) ?_
      rw [hclass, firstIn_append, firstIn_cons, hbefore, if_pos hhash, none_or]
    · obtain ⟨hqp, rfl⟩ := Prod.mk.inj hlook
      obtain rfl := some.inj hqp
      have hfound := h.found_of_first hqe (not_lt.1 hlt) (hhash ▸ hbefore)
      simpa only [nextHint, hhash, lt_irrefl, if_false] using hfound

lemma Tidy.lookupExact_found (h : fs.Tidy) (hsize : fs.IsSize size)
    (hlow : fs.zoneFreeSpaceHash size ≤ hash) (hn : hash + n = fs.numHints)
    (hlook : fs.lookupExact size n hash = (some p, fs')) : fs.Found size p fs' := by
  have hone := h.geometry.one_le_hash hsize
  induction n generalizing hash with
  | zero => exact h.lookupLast_found hlook
  | succ n ih =>
    unfold lookupExact at hlook
    have hhint := h.hints hash (by omega) (by omega)
    cases hfirst : fs.firstIn hash fs.entries with
    | none =>
      simp only [hhint, hfirst] at hlook
      exact ih (by omega) (by omega) hlook
    | some a =>
      obtain ⟨q, hq, hqe, hhash, hbefore⟩ := locate_hint h.ascending h.sizes hfirst
      simp only [hhint, hfirst, hq] at hlook
      obtain ⟨hqp, rfl⟩ := Prod.mk.inj hlook
      obtain rfl := some.inj hqp
      have hqcur : fs.IsSize q.cur.length := h.sizes _ (by simp [← hqe, Place.entries])
      have hlen : size ≤ q.cur.length := h.geometry.le_of_hash_le hsize hqcur (by omega) (by omega)
      have hfound := h.found_of_first hqe hlen (hhash ▸ hbefore)
      simpa only [nextHint, hhash, if_pos (show hash < fs.numHints by omega)] using hfound

lemma Tidy.lookup_found (h : fs.Tidy) (hsize : fs.IsSize size)
    (hlook : fs.zoneFreeSpaceLookup size = (some p, fs')) : fs.Found size p fs' := by
  unfold zoneFreeSpaceLookup at hlook
  split at hlook
  · simp at hlook
  · next entry after hentries =>
    split_ifs at hlook with hlen
    · obtain ⟨hp, rfl⟩ := Prod.mk.inj hlook
      obtain rfl := some.inj hp
      have hhints := h.hints
      have hsizes := h.sizes
      rw [hentries] at hhints hsizes
      refine ⟨hentries.symm, hlen, ?_, rfl⟩
      exact @HintsFor.delete fs [] after entry h.geometry hhints (hsizes entry (by simp))
        (fun a ha => hsizes a (by simp [ha])) (by simp)
    · have hle : fs.zoneFreeSpaceHash size ≤ fs.numHints := hash_le_numHints hsize.lt
      exact h.lookupExact_found hsize le_rfl (by omega) hlook

lemma lookupLast_none (h : (fs.lookupLast size).1 = none) : (fs.lookupLast size).2 = fs := by
  unfold lookupLast at h ⊢
  split
  · rfl
  · next p hp =>
    simp only [hp] at h
    split_ifs at h ⊢ with hlt
    rfl

lemma lookupExact_none (h : (fs.lookupExact size n hash).1 = none) :
    (fs.lookupExact size n hash).2 = fs := by
  induction n generalizing hash with
  | zero => exact lookupLast_none h
  | succ n ih =>
    unfold lookupExact at h ⊢
    cases hhint : fs.hints hash with
    | none =>
      simp only [hhint] at h ⊢
      exact ih h
    | some a =>
      cases hloc : locate a fs.entries <;> simp [hhint, hloc] at h ⊢

lemma lookup_none (hlook : fs.zoneFreeSpaceLookup size = (none, fs')) : fs' = fs := by
  unfold zoneFreeSpaceLookup at hlook
  split at hlook
  · exact (Prod.mk.inj hlook).2.symm
  split_ifs at hlook with hlen
  · simp at hlook
  have hnone := lookupExact_none (congrArg Prod.fst hlook)
  rw [hlook] at hnone
  exact hnone

end ZoneFreeSpace

end Rhapsody.Kern
