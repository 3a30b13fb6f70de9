import Rhapsody.Hfs.Lockf

/-! What the walks of `hfs_setlock` and `hfs_clearlock` over a lock list do to the
bytes each owner holds. -/

namespace Rhapsody.Hfs

variable {lf lock l block : Hfslockf} {rest locks : List Hfslockf} {owner : ℕ}

def offMax : ℤ := 2 ^ 63 - 1

namespace Hfslockf

def Contains (l : Hfslockf) (b : ℤ) : Prop := l.lfStart ≤ b ∧ (l.lfEnd = -1 ∨ b ≤ l.lfEnd)

instance (l : Hfslockf) (b : ℤ) : Decidable (l.Contains b) := inferInstanceAs (Decidable (_ ∧ _))

def Before (l l' : Hfslockf) : Prop := l.lfEnd ≠ -1 ∧ l.lfEnd < l'.lfStart

/-- The range has a byte, and one byte past its end is still an `off_t`. -/
structure Valid (l : Hfslockf) : Prop where
  start_nonneg : 0 ≤ l.lfStart
  start_le : l.lfStart ≤ offMax
  end_bound : l.lfEnd = -1 ∨ (l.lfStart ≤ l.lfEnd ∧ l.lfEnd < offMax)

def InOrder (l l' : Hfslockf) : Prop := l.lfId = l'.lfId → l.Before l'

structure SameRange (l l' : Hfslockf) : Prop where
  start_eq : l.lfStart = l'.lfStart
  end_eq : l.lfEnd = l'.lfEnd
  id_eq : l.lfId = l'.lfId
  type_eq : l.lfType = l'.lfType

lemma SameRange.refl (l : Hfslockf) : l.SameRange l := ⟨rfl, rfl, rfl, rfl⟩

lemma SameRange.valid {l' : Hfslockf} (h : l.SameRange l') (hv : l.Valid) : l'.Valid := by
  obtain ⟨hstart, hend, -, -⟩ := h
  obtain ⟨h1, h2, h3⟩ := hv
  exact ⟨by omega, by omega, by omega⟩

lemma SameRange.symm {l' : Hfslockf} (h : l.SameRange l') : l'.SameRange l :=
  ⟨h.1.symm, h.2.symm, h.3.symm, h.4.symm⟩

lemma SameRange.contains {l' : Hfslockf} (h : l.SameRange l') (b : ℤ) :
    l.Contains b ↔ l'.Contains b := by
  rw [Contains, Contains, h.start_eq, h.end_eq]

lemma SameRange.trans {l1 l2 l3 : Hfslockf} (h : l1.SameRange l2) (h' : l2.SameRange l3) :
    l1.SameRange l3 :=
  ⟨h.1.trans h'.1, h.2.trans h'.2, h.3.trans h'.3, h.4.trans h'.4⟩

end Hfslockf

open Hfslockf List

def Holds (locks : List Hfslockf) (owner : ℕ) (b : ℤ) (type : LockType) : Prop :=
  ∃ l ∈ locks, l.lfId = owner ∧ l.Contains b ∧ l.lfType = type

lemma holds_cons {b : ℤ} {type : LockType} : Holds (lf :: rest) owner b type ↔
      (lf.lfId = owner ∧ lf.Contains b ∧ lf.lfType = type) ∨ Holds rest owner b type := by
  simp [Holds]

lemma offT_eq {n : ℤ} (hlow : 0 ≤ n) (hhigh : n ≤ offMax) : offT n = n := by
  unfold offT
  unfold offMax at hhigh
  omega

/-! ### The six cases -/

def OvCase.Means (lf lock : Hfslockf) : OvCase → Prop
  | .noOverlap => lf.Before lock ∨ lock.Before lf
  | .same => lf.lfStart = lock.lfStart ∧ lf.lfEnd = lock.lfEnd
  | .overlapContains => lf.lfStart ≤ lock.lfStart ∧ lock.lfEnd ≠ -1 ∧
      (lf.lfEnd = -1 ∨ lock.lfEnd ≤ lf.lfEnd) ∧
      ¬(lf.lfStart = lock.lfStart ∧ lf.lfEnd = lock.lfEnd)
  | .lockContains => lock.lfStart ≤ lf.lfStart ∧
      (lock.lfEnd = -1 ∨ (lf.lfEnd ≠ -1 ∧ lf.lfEnd ≤ lock.lfEnd))
  | .startsBefore => lf.lfStart < lock.lfStart ∧ (lf.lfEnd = -1 ∧ lock.lfEnd = -1 ∨
        lock.lfStart ≤ lf.lfEnd ∧ (lock.lfEnd = -1 ∨ lf.lfEnd < lock.lfEnd))
  | .endsAfter => lock.lfStart < lf.lfStart ∧ lock.lfEnd ≠ -1 ∧ lf.lfStart ≤ lock.lfEnd ∧
      (lf.lfEnd = -1 ∨ lock.lfEnd < lf.lfEnd)

lemma overlapCase_spec (hlf : lf.Valid) (lock : Hfslockf) :
    ∃ case, overlapCase lf lock = some case ∧ case.Means lf lock := by
  have hstart := hlf.start_nonneg
  unfold overlapCase
  dsimp only
  split_ifs
  all_goals first
    | exact ⟨_, rfl, by simp only [OvCase.Means, Before]; omega⟩
    | omega

/-! ### Finding an overlap of one's own -/

/-- Locks of others, and own locks that end before the range starts, are passed over. -/
def Passed (lf lock : Hfslockf) : Prop := lf.lfId ≠ lock.lfId ∨ lf.Before lock

lemma findoverlap_passed (hlf : lf.Valid) (hlock : lock.Valid) (h : Passed lf lock) :
    hfsFindoverlap lock .self (lf :: rest) = (hfsFindoverlap lock .self rest).map
      fun (skipped, found) => (lf :: skipped, found) := by
  rw [hfsFindoverlap]
  by_cases hid : lf.lfId = lock.lfId
  · have hbefore : lf.Before lock := h.resolve_left (not_not_intro hid)
    obtain ⟨hend, hlt⟩ := hbefore
    have hcase : overlapCase lf lock = some .noOverlap := if_pos (.inl ⟨hend, hlt⟩)
    have hstop : ¬(Who.self = .self ∧ lock.lfEnd ≠ -1 ∧ lf.lfStart > lock.lfEnd) := by
      have := hlf.end_bound
      have := hlock.end_bound
      omega
    rw [if_neg (by simpa [Who.skips] using hid), hcase]
    exact if_neg hstop
  · rw [if_pos (by simpa [Who.skips] using hid)]

lemma findoverlap_after (hid : lf.lfId = lock.lfId) (h : lock.Before lf) :
    hfsFindoverlap lock .self (lf :: rest) = some ([], .noOverlap, lf :: rest) := by
  have hcase : overlapCase lf lock = some .noOverlap := if_pos (.inr ⟨h.1, h.2⟩)
  rw [hfsFindoverlap]
  rw [if_neg (by simpa [Who.skips] using hid), hcase]
  exact if_pos ⟨rfl, h.1, h.2⟩

lemma findoverlap_found {case : OvCase} {who : Who} (hskips : ¬who.skips lf lock)
    (hcase : overlapCase lf lock = some case) (hne : case ≠ .noOverlap) :
    hfsFindoverlap lock who (lf :: rest) = some ([], case, lf :: rest) := by
  rw [hfsFindoverlap]
  rw [if_neg hskips, hcase]
  cases case with
  | noOverlap => exact absurd rfl hne
  | same | overlapContains | lockContains | startsBefore | endsAfter => rfl

lemma setlockFrom_passed (node n : ℕ) (needtolink : Bool) (hlf : lf.Valid) (hlock : lock.Valid)
    (h : Passed lf lock) :
    setlockFrom node (n + 1) lock needtolink (lf :: rest) =
      (setlockFrom node (n + 1) lock needtolink rest).map (Walked.push [lf]) := by
  rw [setlockFrom, setlockFrom, findoverlap_passed hlf hlock h]
  rcases hfsFindoverlap lock .self rest with _ | ⟨skipped, case, _ | ⟨overlap, next⟩⟩
  · rfl
  · cases case <;> rfl
  cases case with
  | noOverlap | same | endsAfter => rfl
  | overlapContains =>
    dsimp only [Option.map_some]
    split_ifs <;> rfl
  | lockContains | startsBefore =>
    rw [Option.map_map]
    rfl

lemma clearlockFrom_passed (node n : ℕ) (hlf : lf.Valid) (hlock : lock.Valid) (h : Passed lf lock) :
    clearlockFrom lock node (n + 1) (lf :: rest) =
      (clearlockFrom lock node (n + 1) rest).map fun (locks, woken) => (lf :: locks, woken) := by
  rw [clearlockFrom, clearlockFrom, findoverlap_passed hlf hlock h]
  rcases hfsFindoverlap lock .self rest with _ | ⟨skipped, case, _ | ⟨overlap, next⟩⟩
  · rfl
  · cases case <;> rfl
  cases case with
  | noOverlap | same | endsAfter => rfl
  | overlapContains =>
    dsimp only [Option.map_some]
    split_ifs <;> rfl
  | lockContains | startsBefore =>
    rw [Option.map_map]
    rfl

/-! ### Taking a range away from its owner -/

structure Tidy (locks : List Hfslockf) : Prop where
  sorted : locks.Pairwise InOrder
  valid : ∀ l ∈ locks, l.Valid

lemma tidy_nil : Tidy [] := ⟨.nil, by simp⟩

lemma tidy_cons : Tidy (lf :: rest) ↔ lf.Valid ∧ (∀ l ∈ rest, lf.InOrder l) ∧ Tidy rest := by
  constructor
  · rintro ⟨hsorted, hvalid⟩
    obtain ⟨horder, hsorted⟩ := pairwise_cons.1 hsorted
    obtain ⟨hlf, hvalid⟩ := forall_mem_cons.1 hvalid
    exact ⟨hlf, horder, hsorted, hvalid⟩
  · rintro ⟨hlf, horder, hsorted, hvalid⟩
    exact ⟨pairwise_cons.2 ⟨horder, hsorted⟩, forall_mem_cons.2 ⟨hlf, hvalid⟩⟩

structure Carved (lock : Hfslockf) (rest locks : List Hfslockf) : Prop where
  sorted : locks.Pairwise InOrder
  valid : ∀ l ∈ locks, l.Valid
  others : ∀ l, l.lfId ≠ lock.lfId → (l ∈ locks ↔ l ∈ rest)
  own : ∀ l ∈ locks, l.lfId = lock.lfId → ∃ l₀ ∈ rest, l₀.lfId = lock.lfId ∧ l₀.lfStart ≤ l.lfStart
  holds : ∀ b type, Holds locks lock.lfId b type ↔ ¬lock.Contains b ∧ Holds rest lock.lfId b type

lemma Carved.of_sameRange {lock' : Hfslockf} (h : Carved lock rest locks)
    (hsame : lock.SameRange lock') : Carved lock' rest locks where
  sorted := h.sorted
  valid := h.valid
  others := hsame.id_eq ▸ h.others
  own := hsame.id_eq ▸ h.own
  holds b type := by
    rw [← hsame.id_eq, ← hsame.contains b]
    exact h.holds b type

/-- What is left of an own lock outside the range of `lock`. -/
structure Pieces (lf lock : Hfslockf) (ps : List Hfslockf) : Prop where
  valid : ∀ p ∈ ps, p.Valid
  id_eq : ∀ p ∈ ps, p.lfId = lf.lfId
  type_eq : ∀ p ∈ ps, p.lfType = lf.lfType
  inside : ∀ p ∈ ps, lf.lfStart ≤ p.lfStart ∧ (lf.lfEnd = -1 ∨ (p.lfEnd ≠ -1 ∧ p.lfEnd ≤ lf.lfEnd))
  apart : ps.Pairwise Before
  cover : ∀ b, (∃ p ∈ ps, p.Contains b) ↔ lf.Contains b ∧ ¬lock.Contains b

lemma Carved.self (h : Tidy rest)
    (hafter : ∀ l ∈ rest, l.lfId = lock.lfId → lock.Before l) : Carved lock rest rest where
  sorted := h.sorted
  valid := h.valid
  others _ _ := Iff.rfl
  own l hl hid := ⟨l, hl, hid, le_rfl⟩
  holds b type := by
    refine ⟨fun h => ⟨?_, h⟩, And.right⟩
    rintro ⟨-, hhigh⟩
    obtain ⟨l, hl, hid, ⟨hb, -⟩, -⟩ := h
    obtain ⟨hend, hlt⟩ := hafter l hl hid
    omega

section

variable (hlf : lf.Valid) (horder : ∀ l ∈ rest, lf.InOrder l)

include hlf horder in
lemma Carved.pass (hpass : Passed lf lock) (h : Carved lock rest locks) :
    Carved lock (lf :: rest) (lf :: locks) where
  sorted := by
    refine pairwise_cons.2 ⟨fun l hl hid => ?_, h.sorted⟩
    by_cases hown : l.lfId = lock.lfId
    · obtain ⟨l0, hl0, hid0, hle⟩ := h.own l hl hown
      obtain ⟨hend, hlt⟩ := horder l0 hl0 (hid.trans (hown.trans hid0.symm))
      exact ⟨hend, hlt.trans_le hle⟩
    · exact horder l ((h.others l hown).1 hl) hid
  valid := forall_mem_cons.2 ⟨hlf, h.valid⟩
  others l hid := by
    rw [mem_cons, mem_cons, h.others l hid]
  own l hl hid := by
    rcases mem_cons.1 hl with rfl | hl
    · exact ⟨l, mem_cons_self, hid, le_rfl⟩
    · obtain ⟨l0, hl0, hid0, hle⟩ := h.own l hl hid
      exact ⟨l0, mem_cons_of_mem lf hl0, hid0, hle⟩
  holds b type := by
    rw [holds_cons, holds_cons, h.holds]
    have hout : lf.lfId = lock.lfId → lf.Contains b → ¬lock.Contains b := by
      rintro hid ⟨-, hhigh⟩ ⟨hlow, -⟩
      obtain ⟨hend, hlt⟩ := hpass.resolve_left (not_not_intro hid)
      omega
    constructor
    · rintro (⟨hid, hb, htype⟩ | ⟨hb, hholds⟩)
      · exact ⟨hout hid hb, .inl ⟨hid, hb, htype⟩⟩
      · exact ⟨hb, .inr hholds⟩
    rintro ⟨hb, hlf | hholds⟩
    · exact .inl hlf
    · exact .inr ⟨hb, hholds⟩

include horder in
lemma Carved.pieces (h : Carved lock rest locks) (hid : lf.lfId = lock.lfId)
    {ps : List Hfslockf} (hps : Pieces lf lock ps) : Carved lock (lf :: rest) (ps ++ locks) where
  sorted := by
    refine pairwise_append.2 ⟨?_, h.sorted, fun p hp l hl hpl => ?_⟩
    · refine List.Pairwise.imp ?_ hps.apart
      exact fun hbefore _ => hbefore
    have hown : l.lfId = lock.lfId := hpl.symm.trans ((hps.id_eq p hp).trans hid)
    obtain ⟨l0, hl0, hid0, hle⟩ := h.own l hl hown
    obtain ⟨hend, hlt⟩ := horder l0 hl0 (hid.trans hid0.symm)
    obtain ⟨-, hinside⟩ := hps.inside p hp
    exact ⟨by omega, by omega⟩
  valid := forall_mem_append.2 ⟨hps.valid, h.valid⟩
  others l hne := by
    have hp : l ∉ ps := fun hp => hne ((hps.id_eq l hp).trans hid)
    have hl : l ≠ lf := fun hl => hne (hl ▸ hid)
    rw [mem_append, mem_cons, h.others l hne]
    simp [hp, hl]
  own l hl hown := by
    rcases mem_append.1 hl with hl | hl
    · exact ⟨lf, mem_cons_self, hid, (hps.inside l hl).1⟩
    · obtain ⟨l0, hl0, hid0, hle⟩ := h.own l hl hown
      exact ⟨l0, mem_cons_of_mem lf hl0, hid0, hle⟩
  holds b type := by
    have hsplit : Holds (ps ++ locks) lock.lfId b type ↔
        Holds ps lock.lfId b type ∨ Holds locks lock.lfId b type := by
      simp [Holds, or_and_right, exists_or]
    have hpieces : Holds ps lock.lfId b type ↔
        ¬lock.Contains b ∧ lf.Contains b ∧ lf.lfType = type := by
      constructor
      · rintro ⟨p, hp, -, hb, rfl⟩
        obtain ⟨hlf, hlock⟩ := (hps.cover b).1 ⟨p, hp, hb⟩
        exact ⟨hlock, hlf, (hps.type_eq p hp).symm⟩
      rintro ⟨hlock, hlf, rfl⟩
      obtain ⟨p, hp, hb⟩ := (hps.cover b).2 ⟨hlf, hlock⟩
      exact ⟨p, hp, (hps.id_eq p hp).trans hid, hb, hps.type_eq p hp⟩
    rw [hsplit, hpieces, h.holds, holds_cons]
    constructor
    · rintro (⟨hb, hlf⟩ | ⟨hb, hholds⟩)
      · exact ⟨hb, .inl ⟨hid, hlf⟩⟩
      · exact ⟨hb, .inr hholds⟩
    rintro ⟨hb, ⟨-, hlf⟩ | hholds⟩
    · exact .inl ⟨hb, hlf⟩
    · exact .inr ⟨hb, hholds⟩

end

/-! ### What is left of one lock -/

def rightOf (lf lock : Hfslockf) : Hfslockf :=
  { lf.woken with lfStart := offT (lock.lfEnd + 1) }

def leftOf (lf lock : Hfslockf) : Hfslockf :=
  { lf.woken with lfEnd := offT (lock.lfStart - 1) }

def splitOf (lf lock : Hfslockf) (node : ℕ) : Hfslockf := { rightOf lf lock with node := node }

lemma rightOf_start (lf : Hfslockf) (hlock : lock.Valid) (hend : lock.lfEnd ≠ -1) :
    (rightOf lf lock).lfStart = lock.lfEnd + 1 := by
  obtain ⟨h1, -, h2⟩ := hlock
  exact offT_eq (by omega) (by omega)

lemma rightOf_after (lf : Hfslockf) (hlock : lock.Valid) (hend : lock.lfEnd ≠ -1) :
    lock.Before (rightOf lf lock) := by
  have hstart := rightOf_start lf hlock hend
  exact ⟨hend, by omega⟩

lemma leftOf_end (hlf : lf.Valid) (hlock : lock.Valid) (hstart : lf.lfStart < lock.lfStart) :
    (leftOf lf lock).lfEnd = lock.lfStart - 1 := by
  obtain ⟨h1, -, -⟩ := hlf
  obtain ⟨-, h2, -⟩ := hlock
  exact offT_eq (by omega) (by omega)

lemma leftOf_before (hlf : lf.Valid) (hlock : lock.Valid) (hstart : lf.lfStart < lock.lfStart) :
    (leftOf lf lock).Before lock := by
  have hend := leftOf_end hlf hlock hstart
  have := hlf.start_nonneg
  exact ⟨by omega, by omega⟩

lemma Pieces.single {p : Hfslockf} (hvalid : p.Valid) (hid : p.lfId = lf.lfId)
    (htype : p.lfType = lf.lfType)
    (hinside : lf.lfStart ≤ p.lfStart ∧ (lf.lfEnd = -1 ∨ (p.lfEnd ≠ -1 ∧ p.lfEnd ≤ lf.lfEnd)))
    (hcover : ∀ b, p.Contains b ↔ lf.Contains b ∧ ¬lock.Contains b) : Pieces lf lock [p] where
  valid := forall_mem_singleton.2 hvalid
  id_eq := forall_mem_singleton.2 hid
  type_eq := forall_mem_singleton.2 htype
  inside := forall_mem_singleton.2 hinside
  apart := pairwise_singleton _ _
  cover b := by simpa using hcover b

lemma Pieces.nil (h : OvCase.Means lf lock .lockContains) : Pieces lf lock [] where
  valid _ hp := absurd hp not_mem_nil
  id_eq _ hp := absurd hp not_mem_nil
  type_eq _ hp := absurd hp not_mem_nil
  inside _ hp := absurd hp not_mem_nil
  apart := .nil
  cover b := by
    obtain ⟨hstart, hend⟩ := h
    refine iff_of_false (by simp) fun ⟨⟨hlow, hhigh⟩, hout⟩ => hout ⟨by omega, by omega⟩

section

variable (hlf : lf.Valid) (hlock : lock.Valid)
include hlf hlock

lemma rightOf_valid (hend : lock.lfEnd ≠ -1) (hafter : lf.lfEnd = -1 ∨ lock.lfEnd < lf.lfEnd) :
    (rightOf lf lock).Valid := by
  have hstart := rightOf_start lf hlock hend
  have hrange : (rightOf lf lock).lfEnd = lf.lfEnd := rfl
  obtain ⟨h1, h2, h3⟩ := hlf
  obtain ⟨h4, -, h6⟩ := hlock
  exact ⟨by omega, by omega, by omega⟩

lemma leftOf_valid (hstart : lf.lfStart < lock.lfStart) : (leftOf lf lock).Valid := by
  have hend := leftOf_end hlf hlock hstart
  have hrange : (leftOf lf lock).lfStart = lf.lfStart := rfl
  obtain ⟨h1, h2, -⟩ := hlf
  obtain ⟨-, h5, -⟩ := hlock
  exact ⟨by omega, by omega, by omega⟩

lemma Pieces.right (hstart : lock.lfStart ≤ lf.lfStart) (hend : lock.lfEnd ≠ -1)
    (hmeet : lf.lfStart ≤ lock.lfEnd) (hafter : lf.lfEnd = -1 ∨ lock.lfEnd < lf.lfEnd) :
    Pieces lf lock [rightOf lf lock] := by
  have hright := rightOf_start lf hlock hend
  have hrange : (rightOf lf lock).lfEnd = lf.lfEnd := rfl
  have hvalid := rightOf_valid hlf hlock hend hafter
  refine .single hvalid rfl rfl ⟨by omega, by omega⟩ fun b => ?_
  simp only [Contains]
  omega

lemma Pieces.left (hstart : lf.lfStart < lock.lfStart)
    (hmeet : lf.lfEnd = -1 ∨ lock.lfStart ≤ lf.lfEnd)
    (hinside : lock.lfEnd = -1 ∨ (lf.lfEnd ≠ -1 ∧ lf.lfEnd ≤ lock.lfEnd)) :
    Pieces lf lock [leftOf lf lock] := by
  have hleft := leftOf_end hlf hlock hstart
  have hrange : (leftOf lf lock).lfStart = lf.lfStart := rfl
  have hvalid := leftOf_valid hlf hlock hstart
  have hlow := hlf.start_nonneg
  refine .single hvalid rfl rfl ⟨by omega, by omega⟩ fun b => ?_
  simp only [Contains]
  omega

lemma Pieces.ofStart (h : OvCase.Means lf lock .overlapContains)
    (hstart : lf.lfStart = lock.lfStart) : Pieces lf lock [rightOf lf lock] := by
  obtain ⟨-, hend, hreach, hnot⟩ := h
  have := hlock.end_bound
  exact .right hlf hlock (by omega) hend (by omega) (by omega)

lemma Pieces.ofBefore (h : OvCase.Means lf lock .startsBefore) :
    Pieces lf lock [leftOf lf lock] := by
  obtain ⟨hstart, hreach⟩ := h
  have := hlock.start_nonneg
  exact .left hlf hlock hstart (by omega) (by omega)

lemma Pieces.both (node : ℕ) (hstart : lf.lfStart < lock.lfStart) (hend : lock.lfEnd ≠ -1)
    (hafter : lf.lfEnd = -1 ∨ lock.lfEnd < lf.lfEnd) :
    Pieces lf lock [leftOf lf lock, splitOf lf lock node] := by
  have hright : (splitOf lf lock node).lfStart = lock.lfEnd + 1 := rightOf_start lf hlock hend
  have hrange : (splitOf lf lock node).lfEnd = lf.lfEnd := rfl
  have hleft := leftOf_end hlf hlock hstart
  have hrange' : (leftOf lf lock).lfStart = lf.lfStart := rfl
  have hlow := hlf.start_nonneg
  have hbound := hlock.end_bound
  constructor
  case valid =>
    obtain ⟨h1, h2, h3⟩ := rightOf_valid hlf hlock hend hafter
    exact forall_mem_cons.2 ⟨leftOf_valid hlf hlock hstart, forall_mem_singleton.2 ⟨h1, h2, h3⟩⟩
  case id_eq => simp [leftOf, splitOf, rightOf, woken]
  case type_eq => simp [leftOf, splitOf, rightOf, woken]
  case inside =>
    exact forall_mem_cons.2 ⟨by omega, forall_mem_singleton.2 (by omega)⟩
  case apart =>
    refine pairwise_pair.2 ⟨?_, ?_⟩ <;> omega
  case cover =>
    intro b
    simp only [mem_cons, not_mem_nil, or_false, exists_eq_or_imp, exists_eq_left, Contains]
    omega

lemma hfsSplit_spec (node : ℕ) (h : OvCase.Means lf lock .overlapContains)
    (hne : lf.lfStart ≠ lock.lfStart) :
    ∃ left right, hfsSplit lf.woken lock node = (left, right) ∧
      Pieces lf lock (left ++ right) ∧ (∀ p ∈ left, p.Before lock) ∧
      ∀ p ∈ right, lock.Before p := by
  obtain ⟨hle, hend, hafter, -⟩ := h
  have hstart : lf.lfStart < lock.lfStart := lt_of_le_of_ne hle hne
  have hbound := hlock.end_bound
  have hbefore := leftOf_before hlf hlock hstart
  by_cases hends : lf.lfEnd = lock.lfEnd
  · refine ⟨[leftOf lf lock], [], ?_, Pieces.left hlf hlock hstart ?_ ?_, ?_, ?_⟩
    · exact (if_neg hne).trans (if_pos hends)
    · omega
    · omega
    · simpa using hbefore
    · simp
  have hright : (splitOf lf lock node).lfStart = lock.lfEnd + 1 :=
  rightOf_start lf hlock hend
  refine ⟨[leftOf lf lock], [splitOf lf lock node], (if_neg hne).trans (if_neg hends),
    Pieces.both hlf hlock node hstart hend ?_, ?_, ?_⟩
  · omega
  · simpa using hbefore
  intro p hp
  rw [mem_singleton.1 hp]
  exact ⟨hend, by omega⟩

end

lemma after_rightOf (lf : Hfslockf) (hlock : lock.Valid) (hend : lock.lfEnd ≠ -1)
    (hall : ∀ l ∈ rest, l.lfId = lock.lfId → lock.Before l) :
    ∀ l ∈ rightOf lf lock :: rest, l.lfId = lock.lfId → lock.Before l :=
  forall_mem_cons.2 ⟨fun _ => rightOf_after lf hlock hend, hall⟩

/-! ### The walk of `hfs_clearlock` -/

lemma own_cases (hlf : lf.Valid) (hpass : ¬Passed lf lock) :
    lf.lfId = lock.lfId ∧ (lock.Before lf ∨
      ∃ case, overlapCase lf lock = some case ∧ case ≠ .noOverlap ∧ case.Means lf lock) := by
  obtain ⟨hid, hbefore⟩ := not_or.1 hpass
  refine ⟨not_not.1 hid, ?_⟩
  obtain ⟨case, hcase, hmeans⟩ := overlapCase_spec hlf lock
  by_cases hno : case = .noOverlap
  · subst hno
    exact .inl (hmeans.resolve_left hbefore)
  · exact .inr ⟨case, hcase, hno, hmeans⟩

lemma after_of_order (hid : lf.lfId = lock.lfId) (horder : ∀ l ∈ rest, lf.InOrder l)
    (hreach : lf.lfEnd = -1 ∨ (lock.lfEnd ≠ -1 ∧ lock.lfEnd ≤ lf.lfEnd)) :
    ∀ l ∈ rest, l.lfId = lock.lfId → lock.Before l := by
  intro l hl hown
  obtain ⟨hne, hlt⟩ := horder l hl (hid.trans hown.symm)
  exact ⟨by omega, by omega⟩

lemma after_of_after (hlf : lf.Valid) (hid : lf.lfId = lock.lfId)
    (horder : ∀ l ∈ rest, lf.InOrder l) (hafter : lock.Before lf) :
    ∀ l ∈ lf :: rest, l.lfId = lock.lfId → lock.Before l := by
  intro l hl hown
  rcases mem_cons.1 hl with rfl | hl
  · exact hafter
  obtain ⟨hend, hlt⟩ := horder l hl (hid.trans hown.symm)
  have := hlf.end_bound
  have := hafter.2
  exact ⟨hafter.1, by omega⟩

lemma clearlockFrom_spec (node n : ℕ) (hlock : lock.Valid) (htidy : Tidy rest)
    (hfuel : rest.length < n) :
    ∃ locks woken, clearlockFrom lock node n rest = some (locks, woken) ∧
      Carved lock rest locks := by
  induction rest generalizing n with
  | nil =>
    obtain _ | n := n
    · cases hfuel
    exact ⟨[], [], rfl, .self tidy_nil (by simp)⟩
  | cons lf rest ih =>
    obtain _ | n := n
    · cases hfuel
    obtain ⟨hlf, horder, htidy'⟩ := tidy_cons.1 htidy
    rw [length_cons] at hfuel
    by_cases hpass : Passed lf lock
    · obtain ⟨locks, woken, hwalk, hcarved⟩ := ih (n + 1) htidy' (by omega)
      refine ⟨lf :: locks, woken, ?_, hcarved.pass hlf horder hpass⟩
      rw [clearlockFrom_passed node n hlf hlock hpass, hwalk]
      rfl
    obtain ⟨hid, hafter | ⟨case, hcase, hne, hmeans⟩⟩ := own_cases hlf hpass
    · refine ⟨lf :: rest, [], ?_, .self htidy (after_of_after hlf hid horder hafter)⟩
      rw [clearlockFrom, findoverlap_after hid hafter]
      rfl
    -- The walk stops at a lock that reaches to the end of the range or past it.
    have hstop : lf.lfEnd = -1 ∨ (lock.lfEnd ≠ -1 ∧ lock.lfEnd ≤ lf.lfEnd) →
        Carved lock rest rest := fun hreach =>
      .self htidy' (after_of_order hid horder hreach)
    rw [clearlockFrom, findoverlap_found (by simpa [Who.skips] using hid) hcase hne]
    cases case with
    | noOverlap => exact absurd rfl hne
    | same =>
      obtain ⟨hstart, hend⟩ := hmeans
      have hrest : Carved lock rest rest := hstop (by omega)
      exact ⟨rest, _, rfl, hrest.pieces horder hid (.nil ⟨by omega, by omega⟩)⟩
    | overlapContains =>
      have hrest : Carved lock rest rest := hstop (by have := hmeans.2; omega)
      by_cases hstart : lf.lfStart = lock.lfStart
      · have hright : Pieces lf lock [rightOf lf lock] := .ofStart hlf hlock hmeans hstart
        exact ⟨rightOf lf lock :: rest, _, if_pos hstart, hrest.pieces horder hid hright⟩
      obtain ⟨left, right, hsplit, hpieces, -⟩ := hfsSplit_spec hlf hlock node hmeans hstart
      refine ⟨left ++ right ++ rest, lf.blkhd, ?_, hrest.pieces horder hid hpieces⟩
      dsimp only
      rw [if_neg hstart, hsplit]
      rfl
    | lockContains =>
      obtain ⟨locks, woken, hwalk, hcarved⟩ := ih n htidy' (by omega)
      refine ⟨locks, lf.blkhd ++ woken, ?_, hcarved.pieces horder hid (.nil hmeans)⟩
      dsimp only
      rw [hwalk]
      rfl
    | startsBefore =>
      obtain ⟨locks, woken, hwalk, hcarved⟩ := ih n htidy' (by omega)
      have hleft : Pieces lf lock [leftOf lf lock] := .ofBefore hlf hlock hmeans
      refine ⟨leftOf lf lock :: locks, lf.blkhd ++ woken, ?_, hcarved.pieces horder hid hleft⟩
      dsimp only
      rw [hwalk]
      rfl
    | endsAfter =>
      obtain ⟨hstart, hend, hmeet, hreach⟩ := hmeans
      have hrest : Carved lock rest rest := hstop (by omega)
      have hright : Pieces lf lock [rightOf lf lock] :=
        .right hlf hlock (by omega) hend hmeet hreach
      exact ⟨rightOf lf lock :: rest, _, rfl, hrest.pieces horder hid hright⟩

/-! ### The walk of `hfs_setlock` -/

/-- The locks are those of `rest` with the range of `lock` given to its owner. -/
structure Placed (lock : Hfslockf) (rest locks : List Hfslockf) : Prop where
  sorted : locks.Pairwise InOrder
  valid : ∀ l ∈ locks, l.Valid
  others : ∀ l, l.lfId ≠ lock.lfId → (l ∈ locks ↔ l ∈ rest)
  own : ∀ l ∈ locks, l.lfId = lock.lfId → lock.lfStart ≤ l.lfStart ∨
    ∃ l₀ ∈ rest, l₀.lfId = lock.lfId ∧ l₀.lfStart ≤ l.lfStart
  holds : ∀ b type, Holds locks lock.lfId b type ↔
    if lock.Contains b then lock.lfType = type else Holds rest lock.lfId b type

lemma Carved.place {left right : List Hfslockf} {lock' : Hfslockf}
    (h : Carved lock rest (left ++ right)) (hlock : lock.Valid) (hsame : lock'.SameRange lock)
    (hleft : ∀ l ∈ left, l.lfId = lock.lfId → l.Before lock)
    (hright : ∀ l ∈ right, l.lfId = lock.lfId → lock.Before l) :
    Placed lock rest (left ++ lock' :: right) := by
  have hcontains := hsame.contains
  have hvalid := hsame.symm.valid hlock
  obtain ⟨hstart, hend, hid, htype⟩ := hsame
  have hmem : ∀ l, l ∈ left ++ lock' :: right ↔ l = lock' ∨ l ∈ left ++ right := by
    intro l
    simp only [mem_append, mem_cons]
    exact or_left_comm
  constructor
  case sorted =>
    obtain ⟨hl, hr, hlr⟩ := pairwise_append.1 h.sorted
    refine pairwise_append.2 ⟨hl, pairwise_cons.2 ⟨fun l hmem heq => ?_, hr⟩, ?_⟩
    · obtain ⟨hne, hlt⟩ := hright l hmem (heq.symm.trans hid)
      exact ⟨hend ▸ hne, hend ▸ hlt⟩
    intro l hl l' hl' heq
    rcases mem_cons.1 hl' with rfl | hl'
    · obtain ⟨hne, hlt⟩ := hleft l hl (heq.trans hid)
      exact ⟨hne, hstart ▸ hlt⟩
    · exact hlr l hl l' hl' heq
  case valid =>
    intro l hl
    rcases (hmem l).1 hl with rfl | hl
    · exact hvalid
    · exact h.valid l hl
  case others =>
    intro l hne
    rw [hmem, ← h.others l hne]
    refine or_iff_right ?_
    rintro rfl
    exact hne hid
  case own =>
    intro l hl hown
    rcases (hmem l).1 hl with rfl | hl
    · exact .inl hstart.ge
    · exact .inr (h.own l hl hown)
  case holds =>
    intro b type
    have hnew : Holds (left ++ lock' :: right) lock.lfId b type ↔
        (lock.Contains b ∧ lock.lfType = type) ∨ Holds (left ++ right) lock.lfId b type := by
      simp only [Holds, hmem, or_and_right, exists_or, exists_eq_left, hid, hcontains, htype,
        true_and]
    rw [hnew, h.holds]
    split
    next hb => simp [hb]
    next hb => simp [hb]

lemma Placed.pass (hlf : lf.Valid) (horder : ∀ l ∈ rest, lf.InOrder l)
    (hpass : Passed lf lock) (h : Placed lock rest locks) :
    Placed lock (lf :: rest) (lf :: locks) where
  sorted := by
    refine pairwise_cons.2 ⟨fun l hl hid => ?_, h.sorted⟩
    by_cases hown : l.lfId = lock.lfId
    · rcases h.own l hl hown with hle | ⟨l0, hl0, hid0, hle⟩
      · obtain ⟨hend, hlt⟩ := hpass.resolve_left (not_not_intro (hid.trans hown))
        exact ⟨hend, hlt.trans_le hle⟩
      · obtain ⟨hend, hlt⟩ := horder l0 hl0 (hid.trans (hown.trans hid0.symm))
        exact ⟨hend, hlt.trans_le hle⟩
    · exact horder l ((h.others l hown).1 hl) hid
  valid := forall_mem_cons.2 ⟨hlf, h.valid⟩
  others l hid := by
    rw [mem_cons, mem_cons, h.others l hid]
  own l hl hid := by
    rcases mem_cons.1 hl with rfl | hl
    · exact .inr ⟨l, mem_cons_self, hid, le_rfl⟩
    refine (h.own l hl hid).imp_right ?_
    rintro ⟨l0, hl0, hid0, hle⟩
    exact ⟨l0, mem_cons_of_mem lf hl0, hid0, hle⟩
  holds b type := by
    rw [holds_cons, holds_cons, h.holds]
    split
    next hb =>
      refine or_iff_right ?_
      rintro ⟨hid, ⟨-, hhigh⟩, -⟩
      obtain ⟨hend, hlt⟩ := hpass.resolve_left (not_not_intro hid)
      obtain ⟨hlow, -⟩ := hb
      omega
    · rfl

lemma Placed.of_contains (htidy : Tidy (lf :: rest)) (hid : lf.lfId = lock.lfId)
    (htype : lf.lfType = lock.lfType) (hmeans : OvCase.Means lf lock .overlapContains) :
    Placed lock (lf :: rest) (lf :: rest) where
  sorted := htidy.sorted
  valid := htidy.valid
  others _ _ := Iff.rfl
  own l hl hown := .inr ⟨l, hl, hown, le_rfl⟩
  holds b type := by
    split
    next hb =>
      obtain ⟨hle, hend, hreach, -⟩ := hmeans
      have hlf : lf.Contains b := by
        obtain ⟨hlow, hhigh⟩ := hb
        exact ⟨by omega, by omega⟩
      constructor
      · rintro ⟨l, hl, hown, ⟨hlow, -⟩, rfl⟩
        rcases mem_cons.1 hl with rfl | hl
        · exact htype.symm
        obtain ⟨hne, hlt⟩ := (tidy_cons.1 htidy).2.1 l hl (hid.trans hown.symm)
        obtain ⟨-, hhigh⟩ := hlf
        omega
      · rintro rfl
        exact ⟨lf, mem_cons_self, hid, hlf, htype⟩
    · rfl

structure Linked (lock : Hfslockf) (rest : List Hfslockf) (w : Walked) : Prop where
  same : w.lock.SameRange lock
  carved : Carved lock rest w.locks
  after : ∀ l ∈ w.locks, l.lfId = lock.lfId → lock.Before l

lemma Linked.of_sameRange {lock' : Hfslockf} {w : Walked} (h : Linked lock rest w)
    (hsame : lock.SameRange lock') : Linked lock' rest w where
  same := h.same.trans hsame
  carved := h.carved.of_sameRange hsame
  after l hl hid := by
    obtain ⟨hne, hlt⟩ := h.after l hl (hid.trans hsame.id_eq.symm)
    exact ⟨hsame.end_eq ▸ hne, hsame.end_eq ▸ hlt⟩

lemma swallow_sameRange (lock lf : Hfslockf) : (lock.swallow lf).SameRange lock := by
  unfold swallow
  split
  · exact .refl lock
  · exact ⟨rfl, rfl, rfl, rfl⟩

lemma setlockFrom_linked (node n : ℕ) (hlock : lock.Valid) (htidy : Tidy rest)
    (hfuel : rest.length < n) (hstart : ∀ l ∈ rest, l.lfId = lock.lfId → lock.lfStart < l.lfStart) :
    ∃ w, setlockFrom node n lock false rest = some w ∧ Linked lock rest w := by
  induction rest generalizing n lock with
  | nil =>
    obtain _ | n := n
    · cases hfuel
    exact ⟨_, rfl, .refl lock, .self tidy_nil (by simp), by simp⟩
  | cons lf rest ih =>
    obtain _ | n := n
    · cases hfuel
    obtain ⟨hlf, horder, htidy'⟩ := tidy_cons.1 htidy
    have hstart' : ∀ l ∈ rest, l.lfId = lock.lfId → lock.lfStart < l.lfStart :=
      fun l hl => hstart l (mem_cons_of_mem lf hl)
    rw [length_cons] at hfuel
    by_cases hpass : Passed lf lock
    · obtain ⟨w, hwalk, hlinked⟩ := ih (n + 1) hlock htidy' (by omega) hstart'
      refine ⟨w.push [lf], ?_, hlinked.same, hlinked.carved.pass hlf horder hpass,
        fun l hl hown => ?_⟩
      · rw [setlockFrom_passed node n false hlf hlock hpass, hwalk]
        rfl
      rcases mem_cons.1 hl with rfl | hl
      · -- An own lock cannot end before the range: it starts after the range does.
        obtain ⟨hne, hbefore⟩ := hpass.resolve_left (not_not_intro hown)
        have := hstart l mem_cons_self hown
        have := hlf.end_bound
        omega
      · exact hlinked.after l hl hown
    obtain ⟨hid, hafter | ⟨case, hcase, hne, hmeans⟩⟩ := own_cases hlf hpass
    · have hall := after_of_after hlf hid horder hafter
      refine ⟨⟨lock, lf :: rest, []⟩, ?_, .refl lock, .self htidy hall, hall⟩
      rw [setlockFrom, findoverlap_after hid hafter]
      rfl
    have hlt := hstart lf mem_cons_self hid
    rw [setlockFrom, findoverlap_found (by simpa [Who.skips] using hid) hcase hne]
    cases case with
    | noOverlap => exact absurd rfl hne
    | same => exact absurd hmeans.1 hlt.ne'
    | overlapContains => exact absurd hmeans.1 hlt.not_ge
    | startsBefore => exact absurd hmeans.1 hlt.not_gt
    | lockContains =>
      have hsame := swallow_sameRange lock lf
      obtain ⟨w, hwalk, hlinked⟩ := ih n (hsame.symm.valid hlock) htidy' (by omega)
        (by rw [hsame.id_eq, hsame.start_eq]; exact hstart')
      have hlinked := hlinked.of_sameRange hsame
      dsimp only
      rw [hwalk]
      exact ⟨_, rfl, hlinked.same, hlinked.carved.pieces horder hid (.nil hmeans), hlinked.after⟩
    | endsAfter =>
      obtain ⟨-, hend, hmeet, hreach⟩ := hmeans
      have hall : ∀ l ∈ rest, l.lfId = lock.lfId → lock.Before l :=
        after_of_order hid horder (by omega)
      have hrest : Carved lock rest rest := .self htidy' hall
      have hright : Pieces lf lock [rightOf lf lock] := .right hlf hlock hlt.le hend hmeet hreach
      exact ⟨_, rfl, .refl lock, hrest.pieces horder hid hright, after_rightOf lf hlock hend hall⟩

lemma setlockFrom_spec (node n : ℕ) (hlock : lock.Valid) (htidy : Tidy rest)
    (hfuel : rest.length < n) :
    ∃ w, setlockFrom node n lock true rest = some w ∧ Placed lock rest w.locks := by
  induction rest generalizing n with
  | nil =>
    obtain _ | n := n
    · cases hfuel
    have hnil : Carved lock [] ([] ++ []) := .self tidy_nil (by simp)
    exact ⟨_, rfl, hnil.place hlock (.refl lock) (by simp) (by simp)⟩
  | cons lf rest ih =>
    obtain _ | n := n
    · cases hfuel
    obtain ⟨hlf, horder, htidy'⟩ := tidy_cons.1 htidy
    rw [length_cons] at hfuel
    by_cases hpass : Passed lf lock
    · obtain ⟨w, hwalk, hplaced⟩ := ih (n + 1) htidy' (by omega)
      refine ⟨w.push [lf], ?_, hplaced.pass hlf horder hpass⟩
      rw [setlockFrom_passed node n true hlf hlock hpass, hwalk]
      rfl
    obtain ⟨hid, hafter | ⟨case, hcase, hne, hmeans⟩⟩ := own_cases hlf hpass
    · have hall := after_of_after hlf hid horder hafter
      have hcarved : Carved lock (lf :: rest) ([] ++ lf :: rest) := .self htidy hall
      refine ⟨⟨lock, lock :: lf :: rest, []⟩, ?_, hcarved.place hlock (.refl lock) (by simp) hall⟩
      rw [setlockFrom, findoverlap_after hid hafter]
      rfl
    have hstop : lf.lfEnd = -1 ∨ (lock.lfEnd ≠ -1 ∧ lock.lfEnd ≤ lf.lfEnd) →
        Carved lock rest rest ∧ ∀ l ∈ rest, l.lfId = lock.lfId → lock.Before l := fun hreach =>
      have hall := after_of_order hid horder hreach
      ⟨.self htidy' hall, hall⟩
    -- The locks that follow an own lock that meets the range start after the range does.
    have hlater : lf.lfEnd = -1 ∨ lock.lfStart ≤ lf.lfEnd →
        ∀ l ∈ rest, l.lfId = lock.lfId → lock.lfStart < l.lfStart := by
      intro hmeet l hl hown
      obtain ⟨hend, hlt⟩ := horder l hl (hid.trans hown.symm)
      omega
    rw [setlockFrom, findoverlap_found (by simpa [Who.skips] using hid) hcase hne]
    cases case with
    | noOverlap => exact absurd rfl hne
    | same =>
      obtain ⟨hstart, hend⟩ := hmeans
      obtain ⟨hrest, hall⟩ := hstop (by omega)
      have hcarved : Carved lock (lf :: rest) ([] ++ rest) :=
        hrest.pieces horder hid (.nil ⟨by omega, by omega⟩)
      refine ⟨_, rfl, hcarved.place hlock ?_ (by simp) hall⟩
      split <;> exact ⟨hstart, hend, hid, rfl⟩
    | overlapContains =>
      obtain ⟨hrest, hall⟩ := hstop (by have := hmeans.2; omega)
      dsimp only
      by_cases htype : lf.lfType = lock.lfType
      · rw [if_pos htype]
        exact ⟨_, rfl, .of_contains htidy hid htype hmeans⟩
      rw [if_neg htype]
      by_cases hstart : lf.lfStart = lock.lfStart
      · have hcarved : Carved lock (lf :: rest) ([] ++ rightOf lf lock :: rest) :=
          hrest.pieces horder hid (.ofStart hlf hlock hmeans hstart)
        rw [if_pos hstart]
        exact ⟨_, rfl, hcarved.place hlock (.refl lock) (by simp)
          (after_rightOf lf hlock hmeans.2.1 hall)⟩
      obtain ⟨left, right, hsplit, hpieces, hleft, hright⟩ :=
        hfsSplit_spec hlf hlock node hmeans hstart
      have hcarved : Carved lock (lf :: rest) (left ++ (right ++ rest)) := by
        rw [← append_assoc]
        exact hrest.pieces horder hid hpieces
      rw [if_neg hstart, hsplit]
      refine ⟨_, rfl, hcarved.place hlock (.refl lock) (fun l hl _ => hleft l hl) ?_⟩
      intro l hl hown
      rcases mem_append.1 hl with hl | hl
      · exact hright l hl
      · exact hall l hl hown
    | lockContains =>
      have hsame := swallow_sameRange lock lf
      have hmeet := hlf.end_bound
      obtain ⟨w, hwalk, hlinked⟩ := setlockFrom_linked node n (hsame.symm.valid hlock) htidy'
        (by omega) (by
          rw [hsame.id_eq, hsame.start_eq]
          exact hlater (by have := hmeans.1; omega))
      have hlinked := hlinked.of_sameRange hsame
      have hcarved : Carved lock (lf :: rest) ([] ++ w.locks) :=
        hlinked.carved.pieces horder hid (.nil hmeans)
      dsimp only
      rw [hwalk]
      exact ⟨_, rfl, hcarved.place hlock hlinked.same (by simp) hlinked.after⟩
    | startsBefore =>
      obtain ⟨w, hwalk, hlinked⟩ := setlockFrom_linked node n hlock htidy' (by omega)
        (hlater (by have := hmeans.2; omega))
      have hcarved : Carved lock (lf :: rest) ([leftOf lf lock] ++ w.locks) :=
        hlinked.carved.pieces horder hid (.ofBefore hlf hlock hmeans)
      dsimp only
      rw [hwalk]
      refine ⟨_, rfl, hcarved.place hlock hlinked.same ?_ hlinked.after⟩
      intro l hl _
      rw [mem_singleton.1 hl]
      exact leftOf_before hlf hlock hmeans.1
    | endsAfter =>
      obtain ⟨hstart, hend, hmeet, hreach⟩ := hmeans
      obtain ⟨hrest, hall⟩ := hstop (by omega)
      have hright : Pieces lf lock [rightOf lf lock] := .right hlf hlock hstart.le hend hmeet hreach
      have hcarved : Carved lock (lf :: rest) ([] ++ rightOf lf lock :: rest) :=
        hrest.pieces horder hid hright
      exact ⟨_, rfl, hcarved.place hlock (.refl lock) (by simp) (after_rightOf lf hlock hend hall)⟩

/-! ### The lock that blocks a request -/

def Hfslockf.Meets (l l' : Hfslockf) : Prop := ¬l.Before l' ∧ ¬l'.Before l

lemma Hfslockf.Meets.of_contains {b : ℤ} (h : l.Contains b) (h' : lock.Contains b) :
    l.Meets lock := by
  obtain ⟨hlow, hhigh⟩ := h
  obtain ⟨hlow', hhigh'⟩ := h'
  exact ⟨fun ⟨hne, hlt⟩ => by omega, fun ⟨hne, hlt⟩ => by omega⟩

/-- A lock of another owner that overlaps the request, when one of them is exclusive. -/
structure Blocks (l lock : Hfslockf) : Prop where
  other : l.lfId ≠ lock.lfId
  meets : l.Meets lock
  exclusive : lock.lfType = .wrlck ∨ l.lfType = .wrlck

lemma getblockFrom_passed (n : ℕ) (hlf : lf.Valid) (hlock : lock.Valid)
    (h : lf.lfId = lock.lfId ∨ ¬lf.Meets lock) :
    getblockFrom lock (n + 1) (lf :: rest) = getblockFrom lock (n + 1) rest := by
  have hfind : hfsFindoverlap lock .others (lf :: rest) = (hfsFindoverlap lock .others rest).map
      fun (skipped, found) => (lf :: skipped, found) := by
    rw [hfsFindoverlap]
    by_cases hid : lf.lfId = lock.lfId
    · rw [if_pos (by simpa [Who.skips] using hid)]
    obtain ⟨case, hcase, hmeans⟩ := overlapCase_spec hlf lock
    have hno : case = .noOverlap := by
      by_contra hne
      refine absurd (h.resolve_left hid) (not_not_intro ?_)
      have := hlf.end_bound
      have := hlock.end_bound
      cases case <;> simp only [OvCase.Means] at hmeans <;> first
        | exact absurd rfl hne
        | exact ⟨fun ⟨hend, hlt⟩ => by omega, fun ⟨hend, hlt⟩ => by omega⟩
    rw [if_neg (by simpa [Who.skips] using hid), hcase, hno]
    exact if_neg (by simp)
  rw [getblockFrom, getblockFrom, hfind]
  rcases hfsFindoverlap lock .others rest with _ | ⟨skipped, case, _ | ⟨overlap, next⟩⟩
  · rfl
  all_goals cases case <;> rfl

lemma getblockFrom_found (rest : List Hfslockf) (n : ℕ) (hlf : lf.Valid)
    (hid : lf.lfId ≠ lock.lfId) (hmeets : lf.Meets lock) :
    getblockFrom lock (n + 1) (lf :: rest) =
      if lock.lfType = .wrlck ∨ lf.lfType = .wrlck then some (some lf)
      else getblockFrom lock n rest := by
  obtain ⟨case, hcase, hmeans⟩ := overlapCase_spec hlf lock
  have hno : case ≠ .noOverlap := by
    rintro rfl
    exact hmeans.elim hmeets.1 hmeets.2
  rw [getblockFrom, findoverlap_found (by simpa [Who.skips] using hid) hcase hno]
  cases case with
  | noOverlap => exact absurd rfl hno
  | same | overlapContains | lockContains | startsBefore | endsAfter => rfl

lemma hfsGetblock_spec (hlock : lock.Valid) (hvalid : ∀ l ∈ rest, l.Valid) :
    (hfsGetblock lock rest = some none ∧ ∀ l ∈ rest, ¬Blocks l lock) ∨
      ∃ block ∈ rest, hfsGetblock lock rest = some (some block) ∧ Blocks block lock := by
  have key : ∀ n, rest.length < n →
      (getblockFrom lock n rest = some none ∧ ∀ l ∈ rest, ¬Blocks l lock) ∨
        ∃ block ∈ rest, getblockFrom lock n rest = some (some block) ∧ Blocks block lock := by
    induction rest with
    | nil =>
      intro n hn
      obtain _ | n := n
      · cases hn
      exact .inl ⟨rfl, by simp⟩
    | cons lf rest ih =>
      intro n hn
      obtain _ | n := n
      · cases hn
      have hlf : lf.Valid := hvalid lf mem_cons_self
      have hvalid' : ∀ l ∈ rest, l.Valid := fun l hl => hvalid l (mem_cons_of_mem lf hl)
      rw [length_cons] at hn
      -- A lock that does not block leaves the answer to the rest of the list.
      have hskip : ∀ m, rest.length < m → ¬Blocks lf lock →
          getblockFrom lock (n + 1) (lf :: rest) = getblockFrom lock m rest →
          (getblockFrom lock (n + 1) (lf :: rest) = some none ∧ ∀ l ∈ lf :: rest, ¬Blocks l lock) ∨
          ∃ block ∈ lf :: rest, getblockFrom lock (n + 1) (lf :: rest) = some (some block) ∧
            Blocks block lock := by
        intro m hm hnot heq
        rw [heq]
        rcases ih hvalid' m hm with ⟨hnone, hall⟩ | ⟨block, hmem, hblock⟩
        · exact .inl ⟨hnone, forall_mem_cons.mpr ⟨hnot, hall⟩⟩
        · exact .inr ⟨block, mem_cons_of_mem lf hmem, hblock⟩
      by_cases hpass : lf.lfId = lock.lfId ∨ ¬lf.Meets lock
      · refine hskip (n + 1) (by omega) ?_ (getblockFrom_passed n hlf hlock hpass)
        rintro ⟨hid, hmeets, -⟩
        exact hpass.elim hid (not_not_intro hmeets)
      obtain ⟨hid, hmeets⟩ := not_or.mp hpass
      have hfound := getblockFrom_found rest n hlf hid (not_not.mp hmeets)
      by_cases hex : lock.lfType = .wrlck ∨ lf.lfType = .wrlck
      · rw [if_pos hex] at hfound
        exact .inr ⟨lf, mem_cons_self, hfound, hid, not_not.mp hmeets, hex⟩
      · rw [if_neg hex] at hfound
        exact hskip n (by omega) (fun h => hex h.exclusive) hfound
  exact key _ (Nat.lt_succ_self _)

end Rhapsody.Hfs
