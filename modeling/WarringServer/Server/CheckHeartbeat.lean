import WarringServer.Server.Heartbeat

/-!
# The heartbeat checks

`LoginHeartbeatOp`, `GameHeartbeatOp` and `GatewayHeartbeatOp` look up the connection they
were made for and close it if `now - lastTimestamp` has reached the time-out. Both times
are `time_t`, the time-out is a `size_t`: the signed difference is converted, and a stamp
ahead of `now` counts as one from the distant past.

* `timedOut_iff` — the comparison, as one of integers;
* `checkHeartbeat_closes_iff` — a check closes the connections it should exactly if
  the stamp is not ahead;
* `timedOut_ofNat` — for times that are natural numbers, this is the condition of the
  model with clocks.
-/

namespace WarringServer.Server

open Message

/-- The calls that a check makes, `activeClose(false)` among them. -/
inductive HeartbeatCall where
  | removeScene (address : Bytes)
  | activeClose (connID : String) (force : Bool)
  deriving DecidableEq, Repr

/-- What a check reads of a `TcpConnection`. -/
structure HeartbeatConnection where
  getIPPort : Bytes
  /-- A `time_t`. -/
  mCommunicationTimestamp : BitVec 64
  deriving DecidableEq, Repr

/-- The members of the three classes: the one value of `mConf` that is used, and the
connection that the check is for. -/
structure HeartbeatOp where
  /-- A `size_t`. -/
  HEARTBEAT_TIMEOUT_IN_SECONDS : BitVec 64
  mConnID : String
  deriving DecidableEq, Repr

/-- `(now - lastTimestamp) >= (mConf.HEARTBEAT_TIMEOUT_IN_SECONDS * 1000)`: the difference
is converted to the type of the product. -/
def timedOut (timeoutInSeconds now lastTimestamp : BitVec 64) : Bool :=
  (timeoutInSeconds * 1000#64).ule (now - lastTimestamp)

/-- The common body. `getConnPtrRef` finds the connection under its id; the calls of
`beforeClose` come first. -/
def checkHeartbeatWith (beforeClose : HeartbeatConnection → List HeartbeatCall)
    (op : HeartbeatOp) (getConnPtrRef : String → Option HeartbeatConnection) (now : BitVec 64) :
    List HeartbeatCall :=
  match getConnPtrRef op.mConnID with
  | none => []
  | some tcpConnPtr =>
      if timedOut op.HEARTBEAT_TIMEOUT_IN_SECONDS now tcpConnPtr.mCommunicationTimestamp then
        beforeClose tcpConnPtr ++ [.activeClose op.mConnID false]
      else []

def LoginHeartbeatOp.checkHeartbeat := checkHeartbeatWith fun _ => []

def GameHeartbeatOp.checkHeartbeat :=
  checkHeartbeatWith fun tcpConnPtr => [.removeScene tcpConnPtr.getIPPort]

def GatewayHeartbeatOp.checkHeartbeat := checkHeartbeatWith fun _ => []

/-- The check that the server registers for its connections. -/
def ServerKind.checkHeartbeat : ServerKind → HeartbeatOp →
    (String → Option HeartbeatConnection) → BitVec 64 → List HeartbeatCall
  | .loginServer => LoginHeartbeatOp.checkHeartbeat
  | .gameServer => GameHeartbeatOp.checkHeartbeat
  | .gatewayServer => GatewayHeartbeatOp.checkHeartbeat

-- ---------------------------------------------------------------------------
-- The comparison
-- ---------------------------------------------------------------------------

/-- The signed subtraction has a result. -/
def NoOverflow (now lastTimestamp : BitVec 64) : Prop :=
  -2 ^ 63 ≤ now.toInt - lastTimestamp.toInt ∧ now.toInt - lastTimestamp.toInt < 2 ^ 63

instance (now lastTimestamp : BitVec 64) : Decidable (NoOverflow now lastTimestamp) :=
  inferInstanceAs (Decidable (_ ∧ _))

/-- Conversion to `size_t` is modulo 2 ^ 64. -/
theorem toNat_eq_emod (t : BitVec 64) : (t.toNat : Int) = t.toInt % 2 ^ 64 := by
  have hBound := t.isLt
  rw [BitVec.toInt_eq_toNat_cond]
  split <;> omega

theorem toNat_sub_eq_emod (now lastTimestamp : BitVec 64) :
    ((now - lastTimestamp).toNat : Int) = (now.toInt - lastTimestamp.toInt) % 2 ^ 64 := by
  have hNow := toNat_eq_emod now
  have hLast := toNat_eq_emod lastTimestamp
  have hBound := lastTimestamp.isLt
  rw [BitVec.toNat_sub]
  omega

section

variable {timeoutInSeconds now lastTimestamp : BitVec 64}

/-- **The comparison**, without overflows: a stamp from the past is compared with the
time-out, and one that is ahead has always timed out. -/
theorem timedOut_iff (hOverflow : NoOverflow now lastTimestamp)
    (hTimeout : timeoutInSeconds.toNat * 1000 < 2 ^ 63) :
    timedOut timeoutInSeconds now lastTimestamp = true ↔
      (timeoutInSeconds.toNat * 1000 : Int) ≤ now.toInt - lastTimestamp.toInt ∨
        now.toInt < lastTimestamp.toInt := by
  obtain ⟨hBelow, hAbove⟩ := hOverflow
  have hElapsed := toNat_sub_eq_emod now lastTimestamp
  have hProduct : (timeoutInSeconds * 1000#64).toNat = timeoutInSeconds.toNat * 1000 := by
    rw [BitVec.toNat_mul, BitVec.toNat_ofNat]
    omega
  unfold timedOut
  rw [BitVec.ule_iff_toNat_le, hProduct]
  by_cases hAhead : now.toInt < lastTimestamp.toInt
  · -- the difference is negative, its conversion at least 2 ^ 63
    exact ⟨fun _ => Or.inr hAhead, fun _ => by omega⟩
  · omega

/-- The condition of the model with clocks. -/
theorem timedOut_ofNat (server : ServerKind) (now lastTimestamp : Nat) :
    timedOut (BitVec.ofNat 64 server.HEARTBEAT_TIMEOUT_IN_SECONDS) (BitVec.ofNat 64 now)
      (BitVec.ofNat 64 lastTimestamp) = true ↔ TimedOut server now lastTimestamp := by
  have hProduct : (BitVec.ofNat 64 server.HEARTBEAT_TIMEOUT_IN_SECONDS * 1000#64).toNat =
      server.timeout := by
    cases server <;> rfl
  unfold timedOut TimedOut elapsed
  rw [BitVec.ule_iff_toNat_le, hProduct, BitVec.toNat_sub, BitVec.toNat_ofNat,
    BitVec.toNat_ofNat, Nat.add_comm, Nat.add_sub_assoc]
  exact (Nat.mod_lt _ (by decide)).le

end

-- ---------------------------------------------------------------------------
-- The checks
-- ---------------------------------------------------------------------------

section

variable (server : ServerKind) {op : HeartbeatOp}
  {getConnPtrRef : String → Option HeartbeatConnection} {now : BitVec 64}

theorem activeClose_mem_with (beforeClose : HeartbeatConnection → List HeartbeatCall) :
    .activeClose op.mConnID false ∈ checkHeartbeatWith beforeClose op getConnPtrRef now ↔
      ∃ tcpConnPtr, getConnPtrRef op.mConnID = some tcpConnPtr ∧
        timedOut op.HEARTBEAT_TIMEOUT_IN_SECONDS now tcpConnPtr.mCommunicationTimestamp = true := by
  unfold checkHeartbeatWith
  cases getConnPtrRef op.mConnID with
  | none =>
    refine ⟨fun hClosed => absurd hClosed List.not_mem_nil, ?_⟩
    rintro ⟨_, hFound, -⟩
    cases hFound
  | some tcpConnPtr =>
    dsimp only
    split
    next hTimedOut =>
      refine ⟨fun _ => ⟨tcpConnPtr, rfl, hTimedOut⟩, fun _ => ?_⟩
      exact List.mem_append_right _ (List.mem_singleton_self _)
    next hInTime =>
      refine ⟨fun hClosed => absurd hClosed List.not_mem_nil, ?_⟩
      rintro ⟨_, hFound, hTimedOut⟩
      cases hFound
      exact absurd hTimedOut hInTime

/-- All three servers close a connection that is there and has timed out, and no other. -/
theorem activeClose_mem_checkHeartbeat :
    .activeClose op.mConnID false ∈ server.checkHeartbeat op getConnPtrRef now ↔
      ∃ tcpConnPtr, getConnPtrRef op.mConnID = some tcpConnPtr ∧
        timedOut op.HEARTBEAT_TIMEOUT_IN_SECONDS now tcpConnPtr.mCommunicationTimestamp = true := by
  cases server <;> exact activeClose_mem_with _

/-- The check closes the connection if and only if the time-out has passed, as a relation
between integers. -/
def ClosesInTime (server : ServerKind) (op : HeartbeatOp)
    (getConnPtrRef : String → Option HeartbeatConnection) (now lastTimestamp : BitVec 64) : Prop :=
  .activeClose op.mConnID false ∈ server.checkHeartbeat op getConnPtrRef now ↔
    (op.HEARTBEAT_TIMEOUT_IN_SECONDS.toNat * 1000 : Int) ≤ now.toInt - lastTimestamp.toInt

/-- **Heartbeat checks** close the right connections exactly if the stamp is not ahead of
the clock of the server. -/
theorem checkHeartbeat_closes_iff (tcpConnPtr : HeartbeatConnection)
    (hFound : getConnPtrRef op.mConnID = some tcpConnPtr)
    (hOverflow : NoOverflow now tcpConnPtr.mCommunicationTimestamp)
    (hTimeout : op.HEARTBEAT_TIMEOUT_IN_SECONDS.toNat * 1000 < 2 ^ 63) :
    ClosesInTime server op getConnPtrRef now tcpConnPtr.mCommunicationTimestamp ↔
      tcpConnPtr.mCommunicationTimestamp.toInt ≤ now.toInt := by
  have hCloses : .activeClose op.mConnID false ∈ server.checkHeartbeat op getConnPtrRef now ↔
      timedOut op.HEARTBEAT_TIMEOUT_IN_SECONDS now tcpConnPtr.mCommunicationTimestamp = true := by
    rw [activeClose_mem_checkHeartbeat]
    constructor
    · rintro ⟨other, hOther, hTimedOut⟩
      rw [hFound, Option.some.injEq] at hOther
      exact hOther ▸ hTimedOut
    · intro hTimedOut
      exact ⟨tcpConnPtr, hFound, hTimedOut⟩
  unfold ClosesInTime
  rw [hCloses, timedOut_iff hOverflow hTimeout]
  constructor
  · -- a negative difference is below every time-out
    intro hIff
    by_contra hAhead
    have hPassed := hIff.mp (Or.inr (by omega))
    omega
  · omega

end

/-- A check of a login server. -/
def loginCheck : HeartbeatOp := ⟨3600#64, "c"⟩

theorem checkHeartbeat_closes_hour :
    ClosesInTime .loginServer loginCheck (fun _ => some ⟨[], 0#64⟩) 3600000#64 0#64 ↔
      (0#64).toInt ≤ (3600000#64).toInt :=
  checkHeartbeat_closes_iff .loginServer ⟨[], 0#64⟩ rfl (by decide) (by decide)

/-- A client whose clock is one millisecond ahead is closed, though its time-out is an
hour. -/
theorem not_closes_ahead :
    ¬ ∀ (server : ServerKind) (op : HeartbeatOp)
      (getConnPtrRef : String → Option HeartbeatConnection) (now : BitVec 64)
      (tcpConnPtr : HeartbeatConnection), getConnPtrRef op.mConnID = some tcpConnPtr →
      NoOverflow now tcpConnPtr.mCommunicationTimestamp →
      op.HEARTBEAT_TIMEOUT_IN_SECONDS.toNat * 1000 < 2 ^ 63 →
        ClosesInTime server op getConnPtrRef now tcpConnPtr.mCommunicationTimestamp := by
  intro h
  have hClient := h .loginServer loginCheck (fun _ => some ⟨[], 1001#64⟩) 1000#64 ⟨[], 1001#64⟩ rfl
    (by decide) (by decide)
  have hClosed : .activeClose loginCheck.mConnID false ∈
      ServerKind.checkHeartbeat .loginServer loginCheck (fun _ => some ⟨[], 1001#64⟩) 1000#64 :=
    by decide
  exact absurd (hClient.mp hClosed) (by decide)

end WarringServer.Server
