import Rhapsody.Ipc.HandOff

/-! Whether a message and the trailer asked for fit into the buffer of the receiver
that gets it. -/

namespace Rhapsody.Ipc

variable {τ π : Type*}

/-- A receiver of the old format gets no trailer, and the table is not looked at for it. -/
structure TrailerFits (mem : Memory) (option size : Word) (kmsg : IpcKmsg π) : Prop where
  index : hasBits option machRcvOldFormat = false → (getRcvElements option).toNat < 3
  room : kmsg.msghSize.toNat + (if hasBits option machRcvOldFormat then 0
    else (requestedTrailerSize mem option).toNat) ≤ size.toNat

/-- The buffer has room for the trailer alone, whose size is in the table. -/
def TrailerRoom (mem : Memory) (option size : Word) : Prop :=
  hasBits option machRcvOldFormat = false →
    (getRcvElements option).toNat < 3 ∧ requestedTrailerSize mem option ≤ size

def Admits (mem : Memory) (option size : Word) (kmsg : IpcKmsg π) : Prop :=
  if hasBits option machRcvOldFormat then
    kmsg.msghSize ≤ sizeofMachMsgHeader ∧ sizeofMachMsgHeader ≤ size
  else kmsg.msghSize ≤ size - requestedTrailerSize mem option

variable {kmsg : IpcKmsg π} {mem : τ → Memory} {th' : IpcThread τ π}

lemma Admits.fits_iff {mem : Memory} {option size : Word} (h : Admits mem option size kmsg) :
    TrailerFits mem option size kmsg ↔ TrailerRoom mem option size := by
  unfold Admits at h
  constructor
  · intro hfits hold
    have hroom := hfits.room
    rw [hold, if_neg nofun] at hroom
    exact ⟨hfits.index hold, BitVec.le_def.2 ((Nat.le_add_left ..).trans hroom)⟩
  intro hroom
  refine ⟨fun hold => (hroom hold).1, ?_⟩
  cases hold : hasBits option machRcvOldFormat with
  | true =>
    rw [hold, if_pos rfl] at h
    exact BitVec.le_def.1 (BitVec.le_trans h.1 h.2)
  | false =>
    rw [hold, if_neg nofun] at h
    have hle := BitVec.le_def.1 h
    rw [BitVec.toNat_sub_of_le (hroom hold).2] at hle
    rw [if_neg nofun]
    exact (Nat.le_sub_iff_add_le (BitVec.le_def.1 (hroom hold).2)).1 hle

theorem receiveFirst_admits {call : ReceiveCall τ π} {list : Option (IpcKmsg π)}
    (hnew : kmsg.isOldFormat = false) (h : receiveFirst mem call kmsg = .take .success list) :
    Admits (mem call.self) call.option call.maxSize kmsg := by
  unfold receiveFirst at h
  unfold Admits
  rw [hnew, if_neg nofun] at h
  by_cases hold : hasBits call.option machRcvOldFormat = true
  · rw [if_pos hold] at h ⊢
    split at h
    · cases h
    · next hhdr =>
      obtain ⟨hmsg, hbuf⟩ := not_or.1 (not_or.1 hhdr).2
      exact ⟨BitVec.not_lt.1 hmsg, BitVec.not_lt.1 hbuf⟩
  rw [if_neg hold] at h ⊢
  refine BitVec.not_lt.1 fun hsize => ?_
  rw [if_pos hsize] at h
  split at h <;> cases h

theorem sendOffer_admits {seqno : Word} {th : IpcThread τ π} (hnew : kmsg.isOldFormat = false)
    (h : sendOffer mem kmsg seqno th = .taken th' ∨ sendOffer mem kmsg seqno th = .refused th')
    (hstate : th'.ithState = .success) :
    Admits (mem th'.self) th'.ithRcvOption th'.ithMsize kmsg := by
  unfold sendOffer at h
  rw [hnew, if_neg nofun] at h
  by_cases hold : hasBits th.ithRcvOption machRcvOldFormat = true
  · rw [if_pos hold] at h
    split at h
    · rcases h with h | h <;> cases h
      cases hstate
    · next hhdr =>
      rcases h with h | h <;> cases h
      obtain ⟨hmsg, hbuf⟩ := not_or.1 (not_or.1 hhdr).2
      exact (if_pos hold).mpr ⟨BitVec.not_lt.1 hmsg, BitVec.not_lt.1 hbuf⟩
  rw [if_neg hold] at h
  have hadmits : ¬kmsg.msghSize > th.ithMsize - requestedTrailerSize (mem th.self) th.ithRcvOption →
        Admits (mem th.self) th.ithRcvOption th.ithMsize kmsg := fun hsize =>
    (if_neg hold).mpr (BitVec.not_lt.1 hsize)
  split at h
  · split at h <;> rcases h with h | h <;> cases h <;> cases hstate
  · next hsize =>
    split at h
    · dsimp only at h
      split_ifs at h with hok hbad hlarge
      · rcases h with h | h <;> cases h
        exact absurd hstate hok
      · rcases h with h | h <;> cases h
        exact absurd hstate hok
      · rcases h with h | h <;> cases h
        exact absurd hstate hok
      · rcases h with h | h <;> cases h
        exact hadmits hsize
    · rcases h with h | h <;> cases h
      exact hadmits hsize

lemma mem_woken {offer : IpcThread τ π → Offer τ π} {ths : List (IpcThread τ π)}
    (h : th' ∈ (offerLoop offer ths).woken) :
    ∃ th ∈ ths, offer th = .taken th' ∨ offer th = .refused th' := by
  induction ths with
  | nil => cases h
  | cons th ths ih =>
    unfold offerLoop at h
    split at h
    next th1 hoffer =>
      obtain rfl := List.mem_singleton.1 h
      exact ⟨th, List.mem_cons_self, .inl hoffer⟩
    next th1 hoffer =>
      rcases List.mem_cons.1 h with rfl | h
      · exact ⟨th, List.mem_cons_self, .inr hoffer⟩
      · obtain ⟨th2, hth2, hor⟩ := ih h
        exact ⟨th2, List.mem_cons_of_mem th hth2, hor⟩

/-- A new-format message that is received, off the queue or from its sender, fits into the buffer
with its trailer exactly if there is room for the trailer. -/
theorem delivered_trailerFits [DecidableEq π] (mem : τ → Memory) (mqueue : IpcMqueue τ π)
    (seqno : π → Word) :
    (∀ call mqueue' seqno' kmsg n list, ipcMqueueReceive mem mqueue seqno call =
        (mqueue', seqno', some (.returned .success (.kmsg (some kmsg) n) list)) →
      kmsg.isOldFormat = false →
      (TrailerFits (mem call.self) call.option call.maxSize kmsg ↔
        TrailerRoom (mem call.self) call.option call.maxSize)) ∧
    ∀ kmsg, kmsg.isOldFormat = false →
      ∀ th ∈ (ipcMqueueSend mem mqueue seqno kmsg).woken, th.ithState = .success →
        (TrailerFits (mem th.self) th.ithRcvOption th.ithMsize kmsg ↔
          TrailerRoom (mem th.self) th.ithRcvOption th.ithMsize) := by
  constructor
  · intro call mqueue' seqno' kmsg n list h hnew
    unfold ipcMqueueReceive at h
    split at h
    · dsimp only at h
      split at h
      next mr out list' hfirst =>
        cases h
        exact absurd rfl (receiveFirst_leave_out hfirst (some kmsg) n)
      next state list' hfirst =>
        cases h
        exact (receiveFirst_admits hnew hfirst).fits_iff
    · split at h <;> cases h
  intro kmsg hnew th hth hstate
  have hwoken : th ∈ (offerLoop (sendOffer mem kmsg (seqno kmsg.msghRemotePort))
      mqueue.imqThreads).woken := by
    unfold ipcMqueueSend deliver at hth
    dsimp only at hth
    split at hth <;> exact hth
  obtain ⟨th0, -, hoffer⟩ := mem_woken hwoken
  exact (sendOffer_admits hnew hoffer hstate).fits_iff

def zeroMemory : Unit → Memory := fun _ => ⟨fun _ => 0, fun _ => none⟩

def headerMessage : IpcKmsg Unit := ⟨0, 24, (), []⟩

def receiveWith (option maxSize : Word) : ReceiveCall Unit Unit :=
  ⟨(), option, maxSize, 0, none, none, 0⟩

/-- A header with the smallest trailer, in a buffer of just that size. -/
theorem delivered_trailerFits_header :
    (ipcMqueueReceive zeroMemory ⟨[headerMessage], []⟩ (fun _ => 0) (receiveWith 0 32)).2.2 =
      some (.returned .success (.kmsg (some headerMessage) 0) none) ∧
    TrailerFits (zeroMemory ()) 0 32 headerMessage :=
  ⟨rfl, ((delivered_trailerFits zeroMemory ⟨[headerMessage], []⟩ fun _ => 0).1 (receiveWith 0 32)
    _ _ headerMessage 0 none rfl rfl).2 fun _ => ⟨by decide, by decide⟩⟩

/-- In a buffer of four bytes the room is computed as almost 2³² bytes, and with the elements `15`
the table is read past its end. -/
theorem delivered_without_room :
    (ipcMqueueReceive zeroMemory ⟨[headerMessage], []⟩ (fun _ => 0) (receiveWith 0 4)).2.2 =
      some (.returned .success (.kmsg (some headerMessage) 0) none) ∧
    (ipcMqueueSend zeroMemory ⟨[], [(receiveWith 0xf000000 24).block]⟩ (fun _ => 0)
      headerMessage).woken.map (fun th => (th.ithState, th.ithKmsg)) =
        [(.success, some headerMessage)] ∧
    ¬TrailerFits (zeroMemory ()) 0 4 headerMessage ∧
    ¬TrailerFits (zeroMemory ()) 0xf000000 24 headerMessage :=
  ⟨rfl, rfl, fun h => absurd h.room (by decide), fun h => absurd (h.index rfl) (by decide)⟩

end Rhapsody.Ipc
