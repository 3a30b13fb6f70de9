import Rhapsody.Lib.Chain
import Rhapsody.Ipc.Splay

/-! Receive rights in messages (`ipc_port_check_circularity` of `ipc/ipc_port.c`,
and what `ipc/ipc_right.c` does to `ip_destination`). A port is dead, in a space, in
limbo or in transit to the port whose queue its message goes to. -/

namespace Rhapsody.Ipc

open Lib Function

variable {π σ : Type*}

inductive PortData (π σ : Type*) where
  | receiver (space : σ)
  | destination (dest : Option π)
  | timestamp (time : ℕ)
  deriving DecidableEq

structure IpcPort (π σ : Type*) where
  ipActive : Bool
  ipReceiverName : MachPort
  data : PortData π σ
  deriving DecidableEq

def machPortNull : MachPort := 0

namespace IpcPort

/-- Reads the union as `ip_destination`; the other members are no port pointers. -/
def ipDestination (port : IpcPort π σ) : Option (Option π) :=
  match port.data with
  | .destination dest => some dest
  | _ => none

def Placed (port : IpcPort π σ) : Prop := ¬port.ipActive ∨ port.ipReceiverName ≠ machPortNull

instance (port : IpcPort π σ) : Decidable port.Placed := inferInstanceAs (Decidable (_ ∨ _))

def InLimbo (port : IpcPort π σ) : Prop :=
  port.ipActive ∧ port.ipReceiverName = machPortNull ∧ port.data = .destination none

end IpcPort

abbrev PortHeap (π σ : Type*) := π → IpcPort π σ

section
variable (s : PortHeap π σ)

/-- The search for the end of the chain, with the ports locked, if it ends within `fuel` turns and
reads no garbage. -/
def lockChain : ℕ → π → Option (List π)
  | 0, _ => none
  | fuel + 1, base =>
    if (s base).Placed then some [base]
    else
      match (s base).ipDestination with
      | none => none
      | some none => some [base]
      | some (some next) => (lockChain fuel next).map (base :: ·)

def unlockCircle : ℕ → Option π → Option (List π)
  | 0, _ => none
  | _ + 1, none => some []
  | fuel + 1, some dest =>
    match (s dest).ipDestination with
    | none => none
    | some next => (unlockCircle fuel next).map (dest :: ·)

variable [DecidableEq π]

def unlockChain (base : π) : ℕ → π → Option (List π)
  | 0, _ => none
  | fuel + 1, port =>
    if port = base then some [base]
    else
      match (s port).ipDestination with
      | some (some next) => (unlockChain base fuel next).map (port :: ·)
      | _ => none

def link (port dest : π) : PortHeap π σ :=
  update s port { s port with data := .destination (some dest) }

end

/-- The answer, the ports afterwards, and the ports that were locked and unlocked. -/
structure Circularity (π σ : Type*) where
  circular : Bool
  ports : PortHeap π σ
  locked : List π
  unlocked : List π

section
variable [DecidableEq π] (s : PortHeap π σ)

/-- From `not_circular` on, with `locked` held and `base` at the end of the chain. -/
def notCircular (fuel : ℕ) (port dest base : π) (locked : List π) : Option (Circularity π σ) :=
  (unlockChain (link s port dest) base fuel port).map fun unlocked =>
    ⟨false, link s port dest, locked, unlocked⟩

def checkChain (fuel : ℕ) (port dest : π) : Option (Circularity π σ) :=
  match lockChain s fuel dest with
  | none => none
  | some locked =>
    match locked.getLast? with
    | none => none
    | some base =>
      if port = base then
        (unlockCircle s fuel (some dest)).map fun unlocked => ⟨true, s, locked, unlocked⟩
      else notCircular s fuel port dest base (port :: locked)

/-- `lockTry` is what `ip_lock_try(dest)` answers; every loop gets `fuel` turns. -/
def ipcPortCheckCircularity (fuel : ℕ) (lockTry : Bool) (port dest : π) :
    Option (Circularity π σ) :=
  if port = dest then some ⟨true, s, [], []⟩
  else if lockTry ∧ ((s dest).Placed ∨ (s dest).ipDestination = some none) then
    notCircular s fuel port dest dest [port, dest]
  else checkChain s fuel port dest

def CheckReturns (lockTry : Bool) (port dest : π) (r : Circularity π σ) : Prop :=
  ∃ turns, ∀ fuel ≥ turns, ipcPortCheckCircularity s fuel lockTry port dest = some r

def copyinReceive (port : π) : PortHeap π σ :=
  update s port
    { s port with ipReceiverName := machPortNull, data := .destination none }

def copyoutReceive (port : π) (space : σ) (name : MachPort) : PortHeap π σ :=
  update s port { s port with ipReceiverName := name, data := .receiver space }

def portInit (port : π) (space : σ) (name : MachPort) : PortHeap π σ :=
  update s port ⟨true, name, .receiver space⟩

def portDestroy (port : π) (time : ℕ) : PortHeap π σ :=
  update s port { s port with ipActive := false, data := .timestamp time }

end

/-! ## Runs -/

section
variable [DecidableEq π]

/-- The states that follow on `s0` when receive rights are moved out of spaces into messages, queued
there, received and destroyed. -/
inductive TransitRun (s0 : PortHeap π σ) : PortHeap π σ → Prop
  | start : TransitRun s0 s0
  | copyin {s port} (run : TransitRun s0 s) (hactive : (s port).ipActive)
      (hspace : (s port).ipReceiverName ≠ machPortNull) : TransitRun s0 (copyinReceive s port)
  | check {s lockTry port dest r} (run : TransitRun s0 s) (hport : (s port).InLimbo)
      (hr : CheckReturns s lockTry port dest r) : TransitRun s0 r.ports
  | copyout {s port space name} (run : TransitRun s0 s) (hactive : (s port).ipActive)
      (hmoved : (s port).ipReceiverName = machPortNull) (hname : name ≠ machPortNull) :
      TransitRun s0 (copyoutReceive s port space name)
  | alloc {s port space name} (run : TransitRun s0 s) (hdead : ¬(s port).ipActive)
      (hname : name ≠ machPortNull) : TransitRun s0 (portInit s port space name)
  | toLimbo {s port} (run : TransitRun s0 s) (hactive : (s port).ipActive) :
      TransitRun s0 (copyinReceive s port)
  | destroy {s port time} (run : TransitRun s0 s) (hactive : (s port).ipActive) :
      TransitRun s0 (portDestroy s port time)

end

/-! ## The ports in transit -/

def IpcPort.transit (port : IpcPort π σ) : Option π :=
  if port.Placed then none else port.ipDestination.join

def transit (s : PortHeap π σ) (port : π) : Option π := (s port).transit

def IpcPort.Tagged (port : IpcPort π σ) : Prop :=
  ¬port.Placed → ∃ dest, port.data = .destination dest

lemma IpcPort.transit_eq_some {port : IpcPort π σ} {dest : π} (h : port.transit = some dest) :
    ¬port.Placed ∧ port.ipDestination = some (some dest) := by
  unfold transit at h
  split_ifs at h with hplaced
  exact ⟨hplaced, Option.join_eq_some_iff.1 h⟩

lemma IpcPort.InLimbo.notPlaced {port : IpcPort π σ} (h : port.InLimbo) : ¬port.Placed := by
  rintro (hdead | hname)
  · exact hdead h.1
  · exact hname h.2.1

lemma IpcPort.InLimbo.transit {port : IpcPort π σ} (h : port.InLimbo) : port.transit = none := by
  rw [IpcPort.transit, if_neg h.notPlaced, ipDestination, h.2.2]
  rfl

structure TransitOk (s : PortHeap π σ) : Prop where
  tagged : ∀ port, (s port).Tagged
  terminating : Terminating (transit s)

variable {s : PortHeap π σ} {port dest base : π} {xs : List π}

lemma lockChain_eq_walk (htag : ∀ port, (s port).Tagged) (fuel : ℕ) (base : π) :
    lockChain s fuel base = walk (transit s) fuel base := by
  induction fuel generalizing base with
  | zero => rfl
  | succ fuel ih =>
    by_cases hplaced : (s base).Placed
    · simp [lockChain, walk, transit, IpcPort.transit, hplaced]
    obtain ⟨dest, hdest⟩ := htag base hplaced
    cases dest with
    | none => simp [lockChain, walk, transit, IpcPort.transit, hplaced, IpcPort.ipDestination,
        hdest]
    | some next => simp [lockChain, walk, transit, IpcPort.transit, hplaced,
        IpcPort.ipDestination, hdest, ih]

variable {fuel : ℕ} {p : IpcPort π σ}

lemma unlockCircle_eq (h : Chain (transit s) dest xs)
    (hlast : ∀ port, xs.getLast? = some port → (s port).InLimbo) (hfuel : xs.length < fuel) :
    unlockCircle s fuel (some dest) = some xs := by
  induction h generalizing fuel with
  | @stop a ha =>
    obtain ⟨fuel, rfl⟩ : ∃ f, fuel = f + 2 := ⟨fuel - 2, by simp at hfuel; omega⟩
    have hlimbo := hlast a rfl
    simp [unlockCircle, IpcPort.ipDestination, hlimbo.2.2]
  | @step a b xs ha _ ih =>
    obtain _ | fuel := fuel
    · omega
    have hrest := ih (fun port hport => hlast port (by rw [List.getLast?_cons, hport]; rfl))
      (by simpa using hfuel)
    rw [unlockCircle, (IpcPort.transit_eq_some ha).2]
    simp [hrest]

variable [DecidableEq π]

lemma unlockChain_eq (h : Chain (transit s) port xs) (hlast : xs.getLast? = some base)
    (hfuel : xs.length ≤ fuel) : unlockChain s base fuel port = some xs := by
  induction h generalizing fuel with
  | @stop a ha =>
    obtain _ | fuel := fuel
    · simp at hfuel
    obtain rfl : a = base := by simpa using hlast
    simp [unlockChain]
  | @step a b xs ha rest ih =>
    obtain _ | fuel := fuel
    · simp at hfuel
    obtain ⟨c, hc, hclast, -⟩ := rest.exists_getLast?
    obtain rfl : c = base := by simpa [List.getLast?_cons, hclast] using hlast
    have hne : a ≠ c := by
      rintro rfl
      exact rest.notMem_of_step ha hc
    rw [unlockChain, if_neg hne, (IpcPort.transit_eq_some ha).2]
    simp [ih hclast (by simpa using hfuel)]

lemma transit_update (port : π) (p : IpcPort π σ) :
    transit (update s port p) = update (transit s) port p.transit := by
  funext q
  by_cases hq : q = port
  · subst hq
    simp [transit]
  · simp [transit, update_of_ne hq]

lemma transit_link (h : (s port).InLimbo) (dest : π) :
    transit (link s port dest) = update (transit s) port (some dest) := by
  have hplaced : ¬({ s port with data := .destination (some dest) } : IpcPort π σ).Placed :=
    h.notPlaced
  rw [link, transit_update, IpcPort.transit, if_neg hplaced]
  rfl

lemma notCircular_eq (hport : (s port).InLimbo) (h : Chain (transit s) dest xs) (hxs : port ∉ xs)
    (hlast : xs.getLast? = some base) (locked : List π) (hfuel : xs.length < fuel) :
    notCircular s fuel port dest base locked =
      some ⟨false, link s port dest, locked, port :: xs⟩ := by
  have hlinked : Chain (transit (link s port dest)) port (port :: xs) := by
    rw [transit_link hport]
    exact .step (update_self ..) (h.update hxs _)
  have hunlock : unlockChain (link s port dest) base fuel port = some (port :: xs) :=
    unlockChain_eq hlinked (by rw [List.getLast?_cons, hlast]; rfl) hfuel
  rw [notCircular, hunlock]
  rfl

/-- What a call ends with: the port is on the chain `xs` from `dest` exactly if it is its end. -/
def checkResult (s : PortHeap π σ) (port dest : π) (xs : List π) : Circularity π σ :=
  if port = dest then ⟨true, s, [], []⟩
  else if port ∈ xs then ⟨true, s, xs, xs⟩
  else ⟨false, link s port dest, port :: xs, port :: xs⟩

lemma checkCircularity_eq (h : TransitOk s) (hport : (s port).InLimbo)
    (hchain : Chain (transit s) dest xs) (hfuel : xs.length < fuel) (lockTry : Bool) :
    ipcPortCheckCircularity s fuel lockTry port dest = some (checkResult s port dest xs) := by
  unfold ipcPortCheckCircularity checkResult
  by_cases hself : port = dest
  · rw [if_pos hself, if_pos hself]
  rw [if_neg hself, if_neg hself]
  by_cases hquick : lockTry ∧ ((s dest).Placed ∨ (s dest).ipDestination = some none)
  · -- the chain of `dest` is `dest` alone
    have hnone : transit s dest = none := by
      rw [transit, IpcPort.transit]
      split_ifs with hplaced
      · rfl
      · rw [hquick.2.resolve_left hplaced]
        rfl
    obtain rfl : xs = [dest] := hchain.unique (.stop hnone)
    have hnotMem : port ∉ [dest] := by simpa using hself
    have hlast : [dest].getLast? = some dest := rfl
    rw [if_pos hquick, if_neg hnotMem, notCircular_eq hport hchain hnotMem hlast _ hfuel]
  obtain ⟨base, hbase, hlast, -⟩ := hchain.exists_getLast?
  rw [if_neg hquick, checkChain, lockChain_eq_walk h.tagged, hchain.walk hfuel.le]
  simp only [hlast]
  by_cases hcircle : port = base
  · subst hcircle
    have hunlock : unlockCircle s fuel (some dest) = some xs := by
      refine unlockCircle_eq hchain (fun p hp => ?_) hfuel
      rw [hlast] at hp
      rwa [← Option.some.inj hp]
    rw [if_pos rfl, if_pos hbase, hunlock]
    rfl
  have hnotMem : port ∉ xs := by
    intro hmem
    rw [hchain.getLast?_eq hmem hport.transit] at hlast
    exact hcircle (Option.some.inj hlast)
  rw [if_neg hcircle, if_neg hnotMem, notCircular_eq hport hchain hnotMem hlast _ hfuel]

lemma checkResult_circular_iff (hchain : Chain (transit s) dest xs) :
    (checkResult s port dest xs).circular = true ↔ port ∈ xs := by
  unfold checkResult
  split_ifs with hself hmem
  · simpa [hself] using hchain.head_mem
  all_goals simpa using hmem

/-! ## Whole runs -/

lemma TransitOk.unlink (h : TransitOk s) (htag : p.Tagged) (hp : p.transit = none) :
    TransitOk (update s port p) where
  tagged q := by
    by_cases hq : q = port
    · subst hq
      rwa [update_self]
    · rw [update_of_ne hq]
      exact h.tagged q
  terminating := by
    rw [transit_update, hp]
    exact h.terminating.cut port

lemma TransitOk.placed (h : TransitOk s) (hp : p.Placed) : TransitOk (update s port p) :=
  h.unlink (fun hn => absurd hp hn) (if_pos hp)

lemma TransitOk.copyin (h : TransitOk s) (port : π) : TransitOk (copyinReceive s port) := by
  refine h.unlink (fun _ => ⟨none, rfl⟩) ?_
  unfold IpcPort.transit
  split_ifs <;> rfl

lemma TransitOk.link (h : TransitOk s) (hport : (s port).InLimbo)
    (hchain : Chain (transit s) dest xs) (hxs : port ∉ xs) : TransitOk (link s port dest) where
  tagged q := by
    by_cases hq : q = port
    · subst hq
      intro _
      exact ⟨some dest, by rw [Ipc.link, update_self]⟩
    · rw [Ipc.link, update_of_ne hq]
      exact h.tagged q
  terminating := by
    rw [transit_link hport]
    exact h.terminating.link hchain hxs

lemma CheckReturns.unique {lockTry : Bool} {r r' : Circularity π σ}
    (h : CheckReturns s lockTry port dest r) (h' : CheckReturns s lockTry port dest r') :
    r = r' := by
  obtain ⟨n, hn⟩ := h
  obtain ⟨n', hn'⟩ := h'
  have hboth := (hn (max n n') (le_max_left ..)).symm.trans (hn' (max n n') (le_max_right ..))
  exact Option.some.inj hboth

lemma TransitOk.checkReturns (h : TransitOk s) (hport : (s port).InLimbo)
    (hchain : Chain (transit s) dest xs) (lockTry : Bool) :
    CheckReturns s lockTry port dest (checkResult s port dest xs) :=
  ⟨xs.length + 1, fun _ hfuel => checkCircularity_eq h hport hchain hfuel lockTry⟩

lemma TransitOk.check (h : TransitOk s) (hport : (s port).InLimbo)
    (hchain : Chain (transit s) dest xs) : TransitOk (checkResult s port dest xs).ports := by
  unfold checkResult
  split_ifs with hself hmem
  · exact h
  · exact h
  · exact h.link hport hchain hmem

lemma TransitRun.ok {s0 : PortHeap π σ} (h0 : ∀ port, (s0 port).Placed)
    (run : TransitRun s0 s) : TransitOk s := by
  induction run with
  | start =>
    refine ⟨fun port hn => absurd (h0 port) hn, fun port => ⟨[port], .stop ?_⟩⟩
    exact if_pos (h0 port)
  | copyin _ _ _ ih => exact ih.copyin _
  | check _ hport hr ih =>
    obtain ⟨xs, hchain⟩ := ih.terminating _
    rw [hr.unique (ih.checkReturns hport hchain _)]
    exact ih.check hport hchain
  | copyout _ _ _ hname ih | alloc _ _ hname ih => exact ih.placed (.inr hname)
  | toLimbo _ _ ih => exact ih.copyin _
  | destroy _ _ ih => exact ih.placed (.inl (by simp))

/-- In every state reached from ports in spaces the ports in transit form no circle, and a call for
a port in limbo ends: it answers `TRUE` exactly if the link would close a circle, makes it
otherwise, and drops the locks it took once each. -/
theorem transitRun_acyclic {s0 : PortHeap π σ} (h0 : ∀ port, (s0 port).Placed)
    (run : TransitRun s0 s) :
    ¬Cyclic (transit s) ∧ ∀ port dest lockTry, (s port).InLimbo →
        ∃ r, CheckReturns s lockTry port dest r ∧
          (r.circular = true ↔ Cyclic (transit (link s port dest))) ∧
          r.ports = (if r.circular then s else link s port dest) ∧
          r.locked.Nodup ∧ r.unlocked = r.locked := by
  have hok := run.ok h0
  refine ⟨hok.terminating.not_cyclic, fun port dest lockTry hport => ?_⟩
  obtain ⟨xs, hchain⟩ := hok.terminating dest
  refine ⟨_, hok.checkReturns hport hchain lockTry, ?_, ?_, ?_⟩
  · rw [checkResult_circular_iff hchain, transit_link hport, hok.terminating.cyclic_link_iff hchain]
  · unfold checkResult
    by_cases hself : port = dest
    · rw [if_pos hself]
      rfl
    rw [if_neg hself]
    by_cases hmem : port ∈ xs
    · rw [if_pos hmem]
      rfl
    · rw [if_neg hmem]
      rfl
  unfold checkResult
  split_ifs with hself hmem
  · exact ⟨List.nodup_nil, rfl⟩
  · exact ⟨hchain.nodup, rfl⟩
  · exact ⟨List.nodup_cons.2 ⟨hmem, hchain.nodup⟩, rfl⟩

def pairOfPorts : PortHeap Bool Unit := fun _ => ⟨true, 3, .receiver ()⟩

/-- Both rights are moved into messages. The first call makes the link, and the call the other way
round finds the circle. -/
theorem transitRun_acyclic_pair : ∃ s r, TransitRun pairOfPorts s ∧
      transit s true = some false ∧ ¬Cyclic (transit s) ∧
      CheckReturns s true false true r ∧ r.circular = true ∧ r.ports = s := by
  let s1 := copyinReceive (copyinReceive pairOfPorts true) false
  have hplaced : ∀ port, (pairOfPorts port).Placed := by decide
  have hone : TransitRun pairOfPorts (copyinReceive pairOfPorts true) :=
    .copyin .start (by decide) (by decide)
  have hrun : TransitRun pairOfPorts s1 := hone.copyin (by decide) (by decide)
  have hlimbo : (s1 true).InLimbo := ⟨by decide, by decide, by decide⟩
  obtain ⟨r, hr, hcircle, hports, -⟩ := (transitRun_acyclic hplaced hrun).2 true false true hlimbo
  have hopen : r.circular = false := by
    refine Bool.eq_false_iff.2 fun h => ?_
    have hend : Terminating (transit (link s1 true false)) := by
      have hstop : Chain (transit (link s1 true false)) false [false] := .stop (by decide)
      rintro (_ | _)
      · exact ⟨_, hstop⟩
      · exact ⟨_, .step (by decide) hstop⟩
    exact hend.not_cyclic (hcircle.1 h)
  rw [hopen, if_neg Bool.false_ne_true] at hports
  have hrun' : TransitRun pairOfPorts (link s1 true false) := hports ▸ hrun.check hlimbo hr
  have hlimbo' : (link s1 true false false).InLimbo := ⟨by decide, by decide, by decide⟩
  obtain ⟨hacyclic, hcheck⟩ := transitRun_acyclic hplaced hrun'
  obtain ⟨r', hr', hcircle', hports', -⟩ := hcheck false true true hlimbo'
  have hclosed : r'.circular = true :=
    hcircle'.2 ⟨true, .tail (.single (b := false) (by decide)) (by decide)⟩
  rw [hclosed, if_pos rfl] at hports'
  exact ⟨_, r', hrun', by decide, hacyclic, hr', hclosed, hports'⟩

end Rhapsody.Ipc
