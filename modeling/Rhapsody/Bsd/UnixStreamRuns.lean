import Rhapsody.Bsd.UnixStreamQueue

/-! A connected pair of Unix stream sockets is two byte streams. What was sent is what was
returned, then what a receive has copied and not yet returned, then what is queued. -/

namespace Rhapsody.Bsd

open Function List Option

open Sockbuf

variable (mb : List (List SbMbuf))

def PeekAt (out : List UInt8) (m moff len : ℕ) : Prop :=
  ∃ pre x post rest, mb = (pre ++ x :: post) :: rest ∧ x.addr = m ∧
    (∀ y ∈ x :: post, y.IsData) ∧ out = payload pre ++ x.bytes.take moff ∧ moff + len ≤ x.mLen

def ReadAt (m len : ℕ) : Prop :=
  ∃ x post rest, mb = (x :: post) :: rest ∧ x.addr = m ∧ (∀ y ∈ x :: post, y.IsData) ∧ len ≤ x.mLen

def ReadPhase.Ok (rd : Reader) : ReadPhase → Prop
  | .copying m moff len => len ≤ rd.resid ∧
    if rd.call.peek then PeekAt mb rd.out m moff len else ReadAt mb m len
  | .waiting => rd.call.peek = false
  | .lost => False

structure Reader.Counts (rd : Reader) : Prop where
  total : rd.out.length + rd.resid = rd.call.resid
  orig : rd.origResid = rd.call.resid ∨ rd.origResid = 0
  mode : rd.call.peek = true → rd.call.waitall = false

variable {rd : Reader}

lemma Reader.Counts.phase (h : rd.Counts) (phase : ReadPhase) :
    Reader.Counts { rd with phase := phase } :=
  ⟨h.total, h.orig, h.mode⟩

variable {len : ℕ} {p p' : SockPair}

lemma Reader.Counts.copy {bytes : List UInt8} (h : rd.Counts) (hbytes : bytes.length = len)
    (hlen : len ≤ rd.resid) :
    Reader.Counts { rd with out := rd.out ++ bytes, resid := rd.resid - len } := by
  refine ⟨?_, h.orig, h.mode⟩
  have htotal := h.total
  dsimp only
  rw [length_append]
  omega

lemma Reader.Counts.next (h : rd.Counts) (next : Bool) :
    Reader.Counts { rd with nextrecord := next } :=
  ⟨h.total, h.orig, h.mode⟩

def Reader.Ok (mb : List (List SbMbuf)) (rd : Reader) : Prop := rd.Counts ∧ rd.phase.Ok mb rd

def pending (readers : List Reader) : List UInt8 :=
  readers.flatMap fun rd => if rd.call.peek then [] else rd.out

namespace StreamDir

def Reading (s : StreamDir) : Prop :=
  (s.readers = [] ∧ s.locked = false) ∨ ∃ rd, s.readers = [rd] ∧ s.locked = true ∧ rd.Ok s.rcv.mb

structure Inv (s : StreamDir) : Prop where
  queue : Queue s.next s.rcv.mb
  tops : ∀ sd ∈ s.senders, ∀ top, sd.top = some top → ∀ m ∈ top, m.IsData
  reading : s.Reading
  books : s.sent = s.got ++ pending s.readers ++ queued s.rcv.mb

/-- The steps that keep the streams apart: a message with rights fits, no receive both peeks and
waits for all, one that goes on finds no control message first, and while another has the lock none
starts with `MSG_DONTWAIT` and none that sleeps for it is interrupted. -/
def Proper (s : StreamDir) : StreamOp → Prop
  | .hand i _ => ∀ sd ∈ s.senders[i]?, ∀ c ∈ sd.control, ∀ top ∈ sd.top,
    (s.rcv.sbappendcontrol (number (s.next + 1) top)
      ⟨s.next, .control, false, 0, c.bytes, c.rights⟩).isSome
  | .recv call _ intr => (s.locked = true → call.dontwait = false ∧ intr = false) ∧
    (call.peek = true → call.waitall = false)
  | .wake _ => ∀ r ∈ s.rcv.mb.head?, ∀ m ∈ r.head?, m.mType ≠ .control
  | _ => True

variable {s s' : StreamDir} {r : List SbMbuf} {rest : List (List SbMbuf)}

lemma Inv.idle (hqueue : Queue s.next s.rcv.mb)
    (htops : ∀ sd ∈ s.senders, ∀ top, sd.top = some top → ∀ m ∈ top, m.IsData)
    (hreaders : s.readers = []) (hlocked : s.locked = false)
    (hbooks : s.sent = s.got ++ queued s.rcv.mb) : s.Inv := by
  refine ⟨hqueue, htops, .inl ⟨hreaders, hlocked⟩, ?_⟩
  rw [hreaders]
  exact hbooks.trans (congrArg (· ++ _) (append_nil _).symm)

/-! ### A receive that takes data -/

structure Taken (s : StreamDir) (rd : Reader) (r : List SbMbuf) (rest : List (List SbMbuf)) :
    Prop where
  peek : rd.call.peek = false
  counts : rd.Counts
  readers : s.readers = []
  locked : s.locked = true
  tops : ∀ sd ∈ s.senders, ∀ top, sd.top = some top → ∀ m ∈ top, m.IsData
  mb : s.rcv.mb = r :: rest ∨ s.rcv.mb = rest ∧ r = []
  record : r ≠ [] → Record s.next r
  queue : Queue s.next rest
  data : ∀ m ∈ r, m.IsData
  books : s.sent = s.got ++ rd.out ++ (payload r ++ queued rest)

lemma Taken.advance (h : Taken s rd r rest) :
    s.advance.rcv.mb = (if r = [] then rest else r :: rest) := by
  unfold StreamDir.advance
  rcases h.mb with hmb | ⟨hmb, hr⟩
  · rw [hmb]
    cases r with
    | nil => rfl
    | cons m r => exact hmb
  rw [if_pos hr]
  split
  next rest' hcons =>
    -- no record is empty
    rw [hmb] at hcons
    exact absurd rfl (h.queue [] (hcons ▸ mem_cons_self)).nonempty
  · exact hmb

lemma advance_frame (s : StreamDir) :
    s.advance = { s with rcv := { s.rcv with mb := s.advance.rcv.mb } } := by
  unfold advance
  split <;> rfl

lemma Taken.queued (h : Taken s rd r rest) :
    s.sent = s.got ++ rd.out ++ queued (if r = [] then rest else r :: rest) := by
  rw [h.books]
  split
  next hr =>
    rw [hr]
    rfl
  · rw [queued_cons]

variable {moff next i m : ℕ} {suf post pre : List SbMbuf} {res : StreamDir × Option Receipt}
  {x : SbMbuf} {cl : List Bool}

section
variable (h : s.Inv)
include h

lemma Inv.senders {senders : List Sender}
    (htops : ∀ sd ∈ senders, ∀ top, sd.top = some top → ∀ m ∈ top, m.IsData) :
    Inv { s with senders := senders } :=
  ⟨h.queue, htops, h.reading, h.books⟩

end

end StreamDir

open StreamDir

/-! ### Runs -/

structure SockPair where
  dir : Bool → StreamDir

def SockPair.Step (p p' : SockPair) : Prop :=
  ∃ d op s' receipt, (p.dir d).Proper op ∧ (p.dir d).step op = some (s', receipt) ∧
    p' = ⟨Function.update p.dir d s'⟩

def SockPair.Run : SockPair → SockPair → Prop := Relation.ReflTransGen SockPair.Step

instance StreamDir.decidableProper (s : StreamDir) (op : StreamOp) : Decidable (s.Proper op) := by
  unfold StreamDir.Proper
  split <;> infer_instance

end Rhapsody.Bsd
