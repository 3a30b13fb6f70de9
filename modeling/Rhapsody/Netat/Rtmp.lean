import Rhapsody.Netat.RoutingTable

/-! RTMP data packets (`rtmp_update` of `netat/ddp_r_rtmp.c`). The tuples of a packet are
read as they lie in memory, also behind its end. Messages to the console, ZIP queries
and the calls into AURP are left out. -/

namespace Rhapsody.Netat

inductive PortState where
  | offline | onError | errSeed | errCabler | errStartup | errBadrtmp | errNozone | activating
  | seeding | online
  deriving DecidableEq

structure AtIf where
  /-- `RTR_XNET_PORT` and `RTR_SEED_PORT` -/
  xnetPort : Bool
  seedPort : Bool
  ifRoutingState : PortState
  ifThisCableStart : ℕ
  ifThisCableEnd : ℕ
  ifPort : ℕ
  ifZipNeedQueries : Bool
  ifRouterState : ℕ
  deriving DecidableEq

structure RtmpTuple where
  net : ℕ
  data : ℕ
  deriving DecidableEq

structure Rtmp where
  thisNet : ℕ
  idLength : ℕ
  /-- `at_rtmp_id[0]` -/
  senderNodeID : ℕ
  /-- Tuple `k` is at `at_rtmp_id[3 * k + 1]`. -/
  tuple : ℕ → RtmpTuple

def ddpStartupLow : ℕ := 0xff00
def rtmpVersionNumber : ℕ := 0x82
def notifyNDist : ℕ := 31
def rteStateBad : ℕ := 2
def rteStateSuspect : ℕ := 4
def rteStateGood : ℕ := 8
def rteStateZknown : ℕ := 16
def rteStateUpdated : ℕ := 32
def routerUpdated : ℕ := 4

namespace RtmpTuple

def dist (u : RtmpTuple) : ℕ := u.data &&& 0x0f

def range (u : RtmpTuple) : Bool := u.data &&& 0x80 ≠ 0

end RtmpTuple

/-! ## The checks of a packet -/

namespace AtIf

variable (ifID : AtIf) (rtmp : Rtmp)

/-- A port that is activating takes its cable range from the packet. An error is where `rtmp_update`
returns. -/
def takeCable : Except AtIf AtIf :=
  if ifID.ifRoutingState ≠ .activating then .ok ifID
  else if ifID.xnetPort then
    if ifID.seedPort ∧ (ifID.ifThisCableStart ≠ (rtmp.tuple 0).net ∨
        ifID.ifThisCableEnd ≠ (rtmp.tuple 1).net) then
      .error { ifID with ifRoutingState := .errSeed }
    else
      .ok { ifID with
        ifThisCableStart := (rtmp.tuple 0).net, ifThisCableEnd := (rtmp.tuple 1).net }
  else if ifID.seedPort ∧ ifID.ifThisCableEnd ≠ rtmp.thisNet then
    .error { ifID with ifRoutingState := .errSeed }
  else .ok { ifID with ifThisCableStart := 0, ifThisCableEnd := rtmp.thisNet }

/-- The sanity checks; `at_rtmp_id[6]` and `at_rtmp_id[3]` are the last bytes of the
first two tuples. -/
def checkPacket (tupleNb : ℤ) : Except AtIf AtIf :=
  let first := rtmp.tuple 0
  let second := rtmp.tuple 1
  if ifID.xnetPort ∧ tupleNb ≥ 2 then
    if ¬first.range then .error ifID
    else if ifID.seedPort ∧ (first.net ≠ ifID.ifThisCableStart ∨
        second.net ≠ ifID.ifThisCableEnd) then
      .error { ifID with ifRoutingState := .errCabler }
    else if second.net < first.net ∨ first.net = 0 ∨ first.net ≥ ddpStartupLow ∨
        second.net = 0 ∨ second.net ≥ ddpStartupLow then
      .error { ifID with ifRoutingState := .errStartup }
    else if first.dist ≠ 0 then .error ifID
    else if second.data ≠ rtmpVersionNumber then .error ifID
    else .ok ifID
  else if ifID.xnetPort then .error ifID
  else if first.net = 0 then
    if first.data > rtmpVersionNumber then .error ifID else .ok ifID
  else .error { ifID with ifRoutingState := .errBadrtmp }

end AtIf

/-! ## Routes -/

def newRoute (ifID : AtIf) (rtmp : Rtmp) : RtEntry :=
  { RtEntry.zero with
    nextIRNet := rtmp.thisNet, nextIRNode := rtmp.senderNodeID, netPort := ifID.ifPort }

def cableRoute (ifID : AtIf) (rtmp : Rtmp) : RtEntry :=
  if ifID.xnetPort then
    { newRoute ifID rtmp with netStart := (rtmp.tuple 0).net, netStop := (rtmp.tuple 1).net }
  else { newRoute ifID rtmp with netStart := 0, netStop := rtmp.thisNet }

def ageRoute (route current : RtEntry) : RtEntry :=
  if route.netPort ≠ current.netPort then
    let state := current.entryState &&& 0x0f
    if state ≠ 0 then
      if current.entryState &&& rteStateUpdated ≠ 0 then
        let cleared := current.entryState - rteStateUpdated
        { current with entryState := (cleared &&& 0xf0) ||| state }
      else { current with entryState := (current.entryState &&& 0xf0) ||| (state >>> 1) }
    else { current with entryState := (current.entryState &&& 0xf0) ||| state }
  else current

/-- What a packet that tells of a known net does to its entry, and whether zones have to
be asked for. -/
def updateRoute (route current : RtEntry) : RtEntry × Bool :=
  let changed := route.netStop ≠ current.netStop ∨ route.netStart ≠ current.netStart
  let single := route.netStop = current.netStop ∧ route.netStop = current.netStart ∧
    route.netStart = 0
  let single' := route.netStop = current.netStop ∧ route.netStart = route.netStop ∧
    current.netStart = 0
  let shorter := if route.netDist ≤ current.netDist ∧ route.netDist < 16 then
      { current with
        netDist := route.netDist, netPort := route.netPort, nextIRNode := route.nextIRNode,
        nextIRNet := route.nextIRNet, entryState := current.entryState ||| rteStateUpdated }
    else current
  if route.netDist < 16 ∨ route.netDist = notifyNDist then
    if changed ∧ ¬single ∧ ¬single' then
      ({ current with entryState := (current.entryState &&& 0xf0) ||| rteStateBad }, false)
    else if current.entryState &&& rteStateZknown = 0 then (current, true)
    else if current.entryState &&& 0x0f ≤ rteStateSuspect ∧ route.netDist ≠ notifyNDist then
      if route.netDist ≤ current.netDist then
        ({ current with
          netDist := route.netDist, netPort := route.netPort, nextIRNode := route.nextIRNode,
          nextIRNet := route.nextIRNet
          entryState := (current.entryState &&& 0xf0) ||| (rteStateGood ||| rteStateUpdated) },
          false)
      else (current, false)
    else if route.netDist = notifyNDist then
      ({ current with
        entryState := (current.entryState &&& 0xf0) ||| rteStateSuspect
        netDist := notifyNDist }, false)
    else (shorter, false)
  else (shorter, false)

def withDist (route : RtEntry) (u : RtmpTuple) : RtEntry :=
  if u.dist = notifyNDist then { route with netDist := notifyNDist, entryState := rteStateBad }
  else { route with netDist := u.dist + 1, entryState := rteStateGood ||| rteStateUpdated }

def tupleRoute (ifID : AtIf) (rtmp : Rtmp) (k : ℕ) : Option RtEntry :=
  let u := rtmp.tuple k
  let route := withDist (newRoute ifID rtmp) u
  if u.range then
    let stop := (rtmp.tuple (k + 1)).net
    if route.netDist = 0 ∨ u.net = 0 ∨ stop = 0 ∨ stop < u.net ∨ u.net ≥ ddpStartupLow ∨
        stop ≥ ddpStartupLow then none
    else some { route with netStart := u.net, netStop := stop }
  else if route.netDist = 0 ∨ u.net = 0 ∨ u.net ≥ ddpStartupLow then none
  else some { route with netStart := 0, netStop := u.net }

def isNewRoute (ifID : AtIf) (route : RtEntry) : Prop :=
  route.netDist < 16 ∧ route.netDist ≠ notifyNDist ∧
    route.nextIRNet ≥ ifID.ifThisCableStart ∧ route.nextIRNet ≤ ifID.ifThisCableEnd

instance (ifID : AtIf) (route : RtEntry) : Decidable (isNewRoute ifID route) :=
  inferInstanceAs (Decidable (_ ∧ _))

namespace RtTable

def processRoute (t : RtTable) (ifID : AtIf) (route : RtEntry) : Option (RtTable × AtIf) := do
  match ← t.rtBlookup route.netStop with
  | some i =>
    let (current, needQueries) := updateRoute route (t.mem i)
    return (t.set i current,
      { ifID with ifZipNeedQueries := ifID.ifZipNeedQueries || needQueries })
  | none =>
    if isNewRoute ifID route then
      let t ← t.rtInsert { route with entryState := rteStateGood ||| rteStateUpdated }
      return (t, { ifID with ifZipNeedQueries := true })
    else return (t, ifID)

def processTuple (t : RtTable) (ifID : AtIf) (rtmp : Rtmp) (k : ℕ) : Option (RtTable × AtIf) :=
  match tupleRoute ifID rtmp k with
  | none => some (t, ifID)
  | some route => t.processRoute ifID route

/-- The main loop, from tuple `k` on with so many to go. An extended tuple is two. -/
def processTuples (rtmp : Rtmp) : ℕ → ℕ → RtTable → AtIf → Option (RtTable × AtIf)
  | 0, _, t, ifID => some (t, ifID)
  | 1, k, t, ifID => t.processTuple ifID rtmp k
  | n + 2, k, t, ifID => do
    let (t, ifID) ← t.processTuple ifID rtmp k
    if (rtmp.tuple k).range then processTuples rtmp n (k + 2) t ifID
    else processTuples rtmp (n + 1) (k + 1) t ifID

def acquireCable (t : RtTable) (ifID : AtIf) (rtmp : Rtmp) : Option (RtTable × AtIf) := do
  let route := cableRoute ifID rtmp
  let ifID := if ifID.xnetPort then
      { ifID with
        ifThisCableStart := (rtmp.tuple 0).net, ifThisCableEnd := (rtmp.tuple 1).net }
    else { ifID with ifThisCableStart := rtmp.thisNet, ifThisCableEnd := rtmp.thisNet }
  let new := { route with
    nextIRNet := 0, nextIRNode := 0, netDist := 0
    entryState := rteStateGood ||| rteStateUpdated }
  match ← t.rtBlookup route.netStop with
  | some i =>
    let current := t.mem i
    if current.netStop = route.netStop ∧ current.netStart = route.netStart then
      return (t.set i (ageRoute route current), ifID)
    else return (← t.rtInsert new, ifID)
  | none => return (← t.rtInsert new, ifID)

def rtmpUpdate (t : RtTable) (ifID : AtIf) (rtmp : Rtmp) (tupleNb : ℤ) :
    Option (RtTable × AtIf) :=
  if rtmp.idLength ≠ 8 then some (t, ifID)
  else match (ifID.takeCable rtmp).bind (·.checkPacket rtmp tupleNb) with
  | .error ifID => some (t, ifID)
  | .ok ifID =>
    if ifID.ifRoutingState = .activating then
      if ifID.seedPort then some (t, ifID) else t.acquireCable ifID rtmp
    else do
      let (t, ifID) ← processTuples rtmp tupleNb.toNat 0 t ifID
      return (t, { ifID with ifRouterState := routerUpdated })

end RtTable

/-! ## The tuples that are read -/

/-- The number of tuples, a `short`; thirteen bytes are the header and four precede the tuples. -/
def tupleCount (len : ℕ) : Option ℤ :=
  let tuples := ((len : ℤ) - 17).bmod 65536
  if tuples ≤ 0 ∨ tuples % 3 ≠ 0 then none else some (tuples / 3)

def loopReads (rtmp : Rtmp) : ℕ → ℕ → ℕ
  | 0, k => k
  | 1, k => if (rtmp.tuple k).range then k + 2 else k + 1
  | n + 2, k =>
    if (rtmp.tuple k).range then loopReads rtmp n (k + 2) else loopReads rtmp (n + 1) (k + 1)

/-- How many tuples are read up to the end of `checkPacket`. A packet of version one is
reported with `at_rtmp_id[6]`. -/
def checkReads (ifID : AtIf) (rtmp : Rtmp) (tupleNb : ℤ) : ℕ :=
  if ifID.xnetPort then
    if ifID.ifRoutingState = .activating then 2
    else if tupleNb < 2 then 0 else if (rtmp.tuple 0).range then 2 else 1
  else if (rtmp.tuple 0).net = 0 then 1 else 2

def rtmpUpdateReads (ifID : AtIf) (rtmp : Rtmp) (tupleNb : ℤ) : ℕ :=
  if rtmp.idLength ≠ 8 then 0
  else match ifID.takeCable rtmp with
  | .error _ => if ifID.xnetPort then 2 else 0
  | .ok port =>
    match port.checkPacket rtmp tupleNb with
    | .error _ => checkReads ifID rtmp tupleNb
    | .ok port =>
      if port.ifRoutingState = .activating then checkReads ifID rtmp tupleNb
      else max (checkReads ifID rtmp tupleNb) (loopReads rtmp tupleNb.toNat 0)

/-- From tuple `k` on there are `n` that make up whole ones. -/
inductive WholeTuples (rtmp : Rtmp) : ℕ → ℕ → Prop
  | done (k : ℕ) : WholeTuples rtmp 0 k
  | single {n k : ℕ} : (rtmp.tuple k).range = false → WholeTuples rtmp n (k + 1) →
      WholeTuples rtmp (n + 1) k
  | extended {n k : ℕ} : (rtmp.tuple k).range = true → WholeTuples rtmp n (k + 2) →
      WholeTuples rtmp (n + 2) k

lemma le_loopReads (rtmp : Rtmp) (n k : ℕ) :
    k + n ≤ loopReads rtmp n k ∧ loopReads rtmp n k ≤ k + n + 1 := by
  fun_induction loopReads rtmp n k <;> omega

lemma wholeTuples_iff {rtmp : Rtmp} {n k : ℕ} :
    WholeTuples rtmp n k ↔ loopReads rtmp n k = k + n := by
  constructor
  · intro h
    induction h with
    | done => rfl
    | @single n k hrange _ ih =>
      cases n with
      | zero => rw [loopReads, hrange, if_neg Bool.false_ne_true]
      | succ n =>
        rw [loopReads, hrange, if_neg Bool.false_ne_true, ih]
        omega
    | extended hrange _ ih =>
      rw [loopReads, if_pos hrange, ih]
      omega
  · intro h
    fun_induction loopReads rtmp n k with
    | case1 k => exact .done k
    | case2 k hrange => omega
    | case3 k hrange => exact .single (eq_false_of_ne_true hrange) (.done _)
    | case4 k n hrange ih => exact .extended hrange (ih (by omega))
    | case5 k n hrange ih => exact .single (eq_false_of_ne_true hrange) (ih (by omega))

lemma tupleCount_spec {len : ℕ} {n : ℤ} (h : tupleCount len = some n) :
    0 < n ∧ (len < 32785 → 17 + 3 * n = len) ∧ (32785 ≤ len → 23 + 3 * n ≤ len) := by
  rw [tupleCount] at h
  split at h
  · cases h
  next hpos =>
    have hmod := Int.bmod_def ((len : ℤ) - 17) 65536
    generalize ((len : ℤ) - 17).bmod 65536 = tuples at h hpos hmod
    cases h
    split at hmod <;> omega

/-- What a packet has to be for the routes in it to be looked at. -/
structure Valid (ifID : AtIf) (rtmp : Rtmp) (n : ℤ) : Prop where
  extended : ifID.xnetPort → 2 ≤ n ∧ (rtmp.tuple 0).range ∧ (rtmp.tuple 0).dist = 0 ∧
    (rtmp.tuple 1).data = rtmpVersionNumber
  seed : ifID.xnetPort → ifID.seedPort →
    (rtmp.tuple 0).net = ifID.ifThisCableStart ∧ (rtmp.tuple 1).net = ifID.ifThisCableEnd
  cable : ifID.xnetPort → 0 < (rtmp.tuple 0).net ∧ (rtmp.tuple 0).net ≤ (rtmp.tuple 1).net ∧
    (rtmp.tuple 1).net < ddpStartupLow
  simple : ¬ifID.xnetPort → (rtmp.tuple 0).net = 0 ∧ (rtmp.tuple 0).data ≤ rtmpVersionNumber

lemma checkPacket_ok_iff {ifID port : AtIf} {rtmp : Rtmp} {n : ℤ} :
    ifID.checkPacket rtmp n = .ok port ↔ port = ifID ∧ Valid ifID rtmp n := by
  constructor
  · intro h
    simp only [AtIf.checkPacket] at h
    split_ifs at h <;> cases h <;> refine ⟨rfl, ?_, ?_, ?_, ?_⟩ <;> grind
  · rintro ⟨rfl, hextended, hseed, hcable, hsimple⟩
    simp only [AtIf.checkPacket]
    split_ifs <;> grind

/-- The tuples that are asked for are in the packet: the end of the cable, what is reported of
version one, and the second half of each range. -/
structure ReadsInside (ifID : AtIf) (rtmp : Rtmp) (n : ℤ) : Prop where
  cable : ifID.ifRoutingState = .activating → ifID.xnetPort → 2 ≤ n
  version : ¬ifID.xnetPort → (rtmp.tuple 0).net ≠ 0 →
    (ifID.ifRoutingState = .activating → ifID.seedPort → ifID.ifThisCableEnd = rtmp.thisNet) →
    2 ≤ n
  whole : ifID.ifRoutingState ≠ .activating → Valid ifID rtmp n → WholeTuples rtmp n.toNat 0

variable {ifID : AtIf} {rtmp : Rtmp} {n : ℤ}

lemma takeCable_state {port : AtIf} (h : ifID.takeCable rtmp = .ok port) :
    port.ifRoutingState = ifID.ifRoutingState := by
  unfold AtIf.takeCable at h
  split_ifs at h <;> cases h <;> rfl

lemma rtmpUpdateReads_activating (hid : rtmp.idLength = 8)
    (hactive : ifID.ifRoutingState = .activating) : rtmpUpdateReads ifID rtmp n =
      if ifID.xnetPort then 2
      else if ifID.seedPort ∧ ifID.ifThisCableEnd ≠ rtmp.thisNet then 0
      else if (rtmp.tuple 0).net = 0 then 1 else 2 := by
  have hchecked {port : AtIf} (hport : port.ifRoutingState = .activating) :
      (match port.checkPacket rtmp n with
        | .error _ => checkReads ifID rtmp n
        | .ok port => if port.ifRoutingState = .activating then checkReads ifID rtmp n
          else max (checkReads ifID rtmp n) (loopReads rtmp n.toNat 0)) =
        checkReads ifID rtmp n := by
    split
    · rfl
    next hok =>
      obtain ⟨rfl, -⟩ := checkPacket_ok_iff.1 hok
      exact if_pos hport
  rw [rtmpUpdateReads, if_neg (not_not.2 hid)]
  cases htake : ifID.takeCable rtmp with
  | error e =>
    simp only [AtIf.takeCable, hactive] at htake
    grind
  | ok port =>
    refine (hchecked ((takeCable_state htake).trans hactive)).trans ?_
    simp only [AtIf.takeCable, hactive] at htake
    simp only [checkReads, hactive]
    grind

lemma rtmpUpdateReads_of_ne (hid : rtmp.idLength = 8) (hne : ifID.ifRoutingState ≠ .activating) :
    (Valid ifID rtmp n → rtmpUpdateReads ifID rtmp n =
      max (checkReads ifID rtmp n) (loopReads rtmp n.toNat 0)) ∧
    (¬Valid ifID rtmp n → rtmpUpdateReads ifID rtmp n = checkReads ifID rtmp n) := by
  have htake : ifID.takeCable rtmp = .ok ifID := if_pos hne
  rw [rtmpUpdateReads, if_neg (not_not.2 hid), htake]
  refine ⟨fun hvalid => ?_, fun hvalid => ?_⟩
  · dsimp only
    rw [checkPacket_ok_iff.2 ⟨rfl, hvalid⟩]
    exact if_neg hne
  · dsimp only
    split
    · rfl
    next hok => exact absurd (checkPacket_ok_iff.1 hok).2 hvalid

lemma checkReads_le_iff (rtmp : Rtmp) (hpos : 0 < n) (hne : ifID.ifRoutingState ≠ .activating) :
    (checkReads ifID rtmp n : ℤ) ≤ n ↔
      (¬ifID.xnetPort → (rtmp.tuple 0).net ≠ 0 → 2 ≤ n) := by
  unfold checkReads
  grind

lemma rtmpUpdateReads_le_iff (hid : rtmp.idLength = 8) (hpos : 0 < n) :
    (rtmpUpdateReads ifID rtmp n : ℤ) ≤ n ↔ ReadsInside ifID rtmp n := by
  by_cases hactive : ifID.ifRoutingState = .activating
  · have hcases : (rtmpUpdateReads ifID rtmp n : ℤ) ≤ n ↔
        (ifID.xnetPort → 2 ≤ n) ∧ (¬ifID.xnetPort → (rtmp.tuple 0).net ≠ 0 →
          (ifID.seedPort → ifID.ifThisCableEnd = rtmp.thisNet) → 2 ≤ n) := by
      rw [rtmpUpdateReads_activating hid hactive]
      grind
    rw [hcases]
    exact ⟨fun h => ⟨fun _ => h.1, fun hxnet hnet hseed => h.2 hxnet hnet (hseed hactive),
      fun hne => absurd hactive hne⟩,
      fun h => ⟨h.cable hactive, fun hxnet hnet hseed => h.version hxnet hnet fun _ => hseed⟩⟩
  obtain ⟨hvalid, hinvalid⟩ := rtmpUpdateReads_of_ne (n := n) hid hactive
  have hcheck := checkReads_le_iff rtmp hpos hactive
  have hloop := le_loopReads rtmp n.toNat 0
  have hle : (rtmpUpdateReads ifID rtmp n : ℤ) ≤ n ↔ (checkReads ifID rtmp n : ℤ) ≤ n ∧
      (Valid ifID rtmp n → WholeTuples rtmp n.toNat 0) := by
    rw [wholeTuples_iff]
    by_cases h : Valid ifID rtmp n
    · rw [hvalid h]
      have := h
      simp only [this, true_imp_iff]
      omega
    · rw [hinvalid h]
      simp only [h, false_imp_iff, and_true]
  rw [hle, hcheck]
  exact ⟨fun h => ⟨fun h => absurd h hactive, fun hxnet hnet _ => h.1 hxnet hnet, fun _ => h.2⟩,
    fun h => ⟨fun hxnet hnet => h.version hxnet hnet fun h => absurd h hactive,
      h.whole hactive⟩⟩

lemma rtmpUpdateReads_le (hpos : 0 < n) : (rtmpUpdateReads ifID rtmp n : ℤ) ≤ n + 1 := by
  have hloop := le_loopReads rtmp n.toNat 0
  have hcheck : checkReads ifID rtmp n ≤ 2 := by
    unfold checkReads
    split_ifs <;> omega
  unfold rtmpUpdateReads
  split
  · omega
  split
  · split <;> omega
  split
  · omega
  · split <;> omega

/-- A packet is not read behind its end exactly if it is not looked at, or is so long that the
number of tuples wraps round, or has the tuples that are asked for. -/
theorem rtmpUpdate_reads (len : ℕ) (ifID : AtIf) (rtmp : Rtmp) (n : ℤ)
    (hn : tupleCount len = some n) : 17 + 3 * rtmpUpdateReads ifID rtmp n ≤ len ↔
      rtmp.idLength ≠ 8 ∨ 32785 ≤ len ∨ ReadsInside ifID rtmp n := by
  obtain ⟨hpos, hexact, hlong⟩ := tupleCount_spec hn
  by_cases hid : rtmp.idLength = 8
  · rw [← rtmpUpdateReads_le_iff hid hpos]
    have hle := @rtmpUpdateReads_le ifID rtmp n hpos
    omega
  · have hnone : rtmpUpdateReads ifID rtmp n = 0 := if_pos hid
    rw [hnone]
    omega

def onePort : AtIf := ⟨true, false, .activating, 0, 0, 1, false, 0⟩

def pairPacket : Rtmp := ⟨3, 8, 1, fun k => ⟨3 + k, if k = 0 then 0x80 else 0x82⟩⟩

/-- The cable range, a net and a range, on a port that is online. -/
def routesPacket : Rtmp :=
  ⟨3, 8, 1, fun k => ⟨3 + k, if k = 0 then 0x80 else if k = 1 then 0x82 else if k = 3 then 0x81
    else 1⟩⟩

theorem rtmpUpdate_reads_routes :
    rtmpUpdateReads { onePort with ifRoutingState := .online } routesPacket 5 = 5 ∧
      17 + 3 * rtmpUpdateReads { onePort with ifRoutingState := .online } routesPacket 5 ≤ 32 := by
  have hwhole : WholeTuples routesPacket 5 0 :=
    .extended rfl (.single rfl (.extended rfl (.done 5)))
  exact ⟨by decide, (rtmpUpdate_reads 32 _ routesPacket 5 (by decide)).2
    (.inr (.inr ⟨nofun, fun h => absurd rfl h, fun _ _ => hwhole⟩))⟩

/-- Of a packet with one tuple a port takes the end of its cable from behind the packet, or reports
what is there; so is a range that is the last tuple. -/
theorem rtmpUpdate_reads_behind : tupleCount 20 = some 1 ∧
    rtmpUpdateReads onePort pairPacket 1 = 2 ∧
    onePort.takeCable pairPacket = .ok { onePort with ifThisCableStart := 3, ifThisCableEnd := 4 } ∧
    rtmpUpdateReads { onePort with xnetPort := false, ifRoutingState := .online } pairPacket 1 = 2 ∧
    tupleCount 26 = some 3 ∧
    rtmpUpdateReads { onePort with ifRoutingState := .online } pairPacket 3 = 4 :=
  ⟨by decide, by decide, rfl, by decide, by decide, by decide⟩

end Rhapsody.Netat
