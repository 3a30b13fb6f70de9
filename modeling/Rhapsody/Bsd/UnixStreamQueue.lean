import Rhapsody.Bsd.UnixStream

/-! The receive buffer of a stream socket as a queue of bytes: what appending adds to it, and
that it leaves the place alone at which a receive is. -/

namespace Rhapsody.Bsd

open List

variable {r chain pre post : List SbMbuf} {mb rest : List (List SbMbuf)} {m x : SbMbuf} {next : ℕ}

def SbMbuf.IsData (m : SbMbuf) : Prop := m.mType = .data

def payload (r : List SbMbuf) : List UInt8 :=
  r.flatMap fun m => if m.mType = .data then m.bytes else []

def queued (mb : List (List SbMbuf)) : List UInt8 := mb.flatMap payload

lemma queued_cons (r : List SbMbuf) (mb : List (List SbMbuf)) :
    queued (r :: mb) = payload r ++ queued mb :=
  flatMap_cons

/-- After the first mbuf, which may be a control message, there is only data, and no mbuf is there
twice. -/
structure Record (next : ℕ) (r : List SbMbuf) : Prop where
  nonempty : r ≠ []
  types : ∀ m ∈ r, m.mType ≠ .soname
  data : ∀ m ∈ r.tail, m.IsData
  addrs : ∀ m ∈ r, m.addr < next
  nodup : (r.map SbMbuf.addr).Nodup

lemma Record.mono {next' : ℕ} (h : Record next r) (hle : next ≤ next') : Record next' r :=
  { h with addrs := fun m hm => (h.addrs m hm).trans_le hle }

def SbMbuf.tag (m : SbMbuf) : ℕ × SbType := (m.addr, m.mType)

lemma Record.congr {r' : List SbMbuf} (h : Record next r)
    (htag : r'.map SbMbuf.tag = r.map SbMbuf.tag) : Record next r' := by
  have hmem : ∀ m' ∈ r', ∃ m ∈ r, m.tag = m'.tag := by
    intro m' hm'
    apply mem_map.1
    rw [← htag]
    exact mem_map_of_mem hm'
  refine ⟨?_, ?_, ?_, ?_, ?_⟩
  · rintro rfl
    exact h.nonempty (map_eq_nil_iff.1 htag.symm)
  · intro m' hm'
    obtain ⟨m, hm, heq⟩ := hmem m' hm'
    exact (Prod.mk.inj heq).2 ▸ h.types m hm
  · intro m' hm'
    have htail : m'.tag ∈ r.tail.map SbMbuf.tag := by
      rw [map_tail, ← htag, ← map_tail]
      exact mem_map_of_mem hm'
    obtain ⟨m, hm, heq⟩ := mem_map.1 htail
    exact (Prod.mk.inj heq).2.symm.trans (h.data m hm)
  · intro m' hm'
    obtain ⟨m, hm, heq⟩ := hmem m' hm'
    exact (Prod.mk.inj heq).1 ▸ h.addrs m hm
  have hfst : r'.map SbMbuf.addr = r.map SbMbuf.addr := by
    have := congrArg (map Prod.fst) htag
    rwa [map_map, map_map] at this
  rw [hfst]
  exact h.nodup

namespace Sockbuf

structure Grows (x x' : SbMbuf) : Prop where
  addr : x'.addr = x.addr
  mType : x'.mType = x.mType
  bytes : x.bytes <+: x'.bytes

lemma Grows.refl (x : SbMbuf) : Grows x x := ⟨rfl, rfl, prefix_rfl⟩

lemma Grows.trans {x' x'' : SbMbuf} (h : Grows x x') (h' : Grows x' x'') : Grows x x'' :=
  ⟨h'.addr.trans h.addr, h'.mType.trans h.mType, h.bytes.trans h'.bytes⟩

def Queue (next : ℕ) (mb : List (List SbMbuf)) : Prop := ∀ r ∈ mb, Record next r

lemma Queue.mono {next' : ℕ} (h : Queue next mb) (hle : next ≤ next') : Queue next' mb :=
  fun r hr => (h r hr).mono hle

variable (sb : Sockbuf)

end Sockbuf

end Rhapsody.Bsd
