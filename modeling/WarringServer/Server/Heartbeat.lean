import WarringServer.Server.Reuse

/-!
# Heartbeats

Every connection has a time stamp, `mCommunicationTimestamp`. `messageFunc` sets it to
the `MILLISECONDS_SINCE_EPOCH` of the prototype that has decoded the message, and
`checkHeartbeat` closes a connection whose stamp is older than the time-out.

Only the heartbeat has this member on the wire (and the bare `TimestampMessage`, which
does not set the stamp). All other classes inherit the member but leave it out of
`popMembers`: their prototypes keep the time at which they have been constructed, so
that every login, character or game message sets the stamp back to the start of the
server.

* `alive_handle_iff` — what one message does to its connection;
* `active_alive_iff` — for clients that follow the protocol, activity keeps all
  connections alive exactly if no message leaves a stamp older than the last
  activity of its connection.
-/

namespace WarringServer.Server

open Message Run

/-- `HEARTBEAT_TIMEOUT_IN_SECONDS` of the three configurations. -/
def ServerKind.HEARTBEAT_TIMEOUT_IN_SECONDS : ServerKind → Nat
  | .loginServer => 3600
  | .gameServer => 600
  | .gatewayServer => 60

/-- The time-out in milliseconds. -/
def ServerKind.timeout (server : ServerKind) : Nat := server.HEARTBEAT_TIMEOUT_IN_SECONDS * 1000

/-- `now - lastTimestamp`, compared as a `size_t`. -/
def elapsed (now lastTimestamp : Nat) : Nat :=
  (now % 2 ^ 64 + 2 ^ 64 - lastTimestamp % 2 ^ 64) % 2 ^ 64

/-- The condition of `checkHeartbeat`. -/
def TimedOut (server : ServerKind) (now lastTimestamp : Nat) : Prop :=
  elapsed now lastTimestamp ≥ server.timeout

instance (server : ServerKind) (now lastTimestamp : Nat) :
    Decidable (TimedOut server now lastTimestamp) :=
  inferInstanceAs (Decidable (_ ≥ _))

/-- `GET_MILLISECONDS_SINCE_EPOCH` of a prototype that has been constructed at
`constructed`: only `TimestampMessage::deserialize` reads the member. -/
def millisecondsSinceEpoch (constructed : Nat) (p : Prototype) : Nat :=
  match p.type, p.object.members with
  | .timestampMessage, [.scalar _ ms] => ms.toNat
  | .heartBeatPacket, [.scalar _ ms] => ms.toNat
  | _, _ => constructed

/-- The threads of the event loops; each has a table of its own. -/
abbrev LoopId := Nat

/-- A connection: its event loop, its time stamp, and the time of its last activity,
which is when a message was handled at the very time of its creation. -/
structure Watch where
  tid : LoopId
  mCommunicationTimestamp : Nat
  active : Option Nat
  deriving DecidableEq, Repr

/-- A server and its clock. `constructed` is when the prototypes were made. -/
structure Monitor where
  now : Nat
  constructed : LoopId → Bytes → Nat
  mMessageTypes : LoopId → MessageTypes
  mTcpConnections : Bytes → Option Watch

namespace Monitor

/-- Behind the constructor of the server. -/
def init (server : ServerKind) (now : Nat) (constructed : LoopId → Bytes → Nat) : Monitor :=
  { now := now
    constructed := constructed
    mMessageTypes := fun _ => server.messageTypes
    mTcpConnections := fun _ => none }

inductive MonitorEvent where
  /-- Time passes, as far as a `time_t` goes. -/
  | pass (ms : Nat)
  | connect (connName : Bytes) (tid : LoopId)
  /-- `messageFunc` takes a frame off the connection. Its message was created at
  `created`, by the clock of the client. -/
  | handle (connName : Bytes) (frame : Bytes) (created : Nat)
  | checkHeartbeat (connName : Bytes)
  | close (connName : Bytes)
  deriving DecidableEq, Repr

/-- `messageFunc`, as far as the time stamp is concerned. All branches set it but the
one of the bare `TimestampMessage`. -/
def messageFunc (s : Monitor) (connName : Bytes) (w : Watch) (frame : Bytes) (created : Nat) :
    Monitor :=
  match dispatch (s.mMessageTypes w.tid) frame with
  | .error _ => s
  | .ok (d, types) =>
      let s := { s with mMessageTypes := Function.update s.mMessageTypes w.tid types }
      match d.prototype with
      | none => s
      | some p =>
          if p.type = .timestampMessage then s
          else
            let w := { w with
              mCommunicationTimestamp := millisecondsSinceEpoch (s.constructed w.tid d.msgType) p
              active := if created = s.now then some s.now else w.active }
            { s with mTcpConnections := Function.update s.mTcpConnections connName (some w) }

def step (server : ServerKind) (s : Monitor) : MonitorEvent → Monitor
  | .pass ms => if s.now + ms < 2 ^ 63 then { s with now := s.now + ms } else s
  | .connect connName tid =>
      { s with mTcpConnections :=
          Function.update s.mTcpConnections connName (some ⟨tid, 0, none⟩) }
  | .handle connName frame created =>
      match s.mTcpConnections connName with
      | none => s
      | some w => s.messageFunc connName w frame created
  | .checkHeartbeat connName =>
      match s.mTcpConnections connName with
      | none => s
      | some w =>
          if TimedOut server s.now w.mCommunicationTimestamp then
            { s with mTcpConnections := Function.update s.mTcpConnections connName none }
          else s
  | .close connName =>
      { s with mTcpConnections := Function.update s.mTcpConnections connName none }

/-- A check of the connection that runs now or later, but within the time-out from the
last activity, does not close it. -/
def KeptAlive (server : ServerKind) (now : Nat) (w : Watch) : Prop :=
  ∀ t, w.active = some t → ∀ u, now ≤ u → u < t + server.timeout →
    ¬ TimedOut server u w.mCommunicationTimestamp

/-- Activity keeps all connections alive. -/
def Alive (server : ServerKind) (s : Monitor) : Prop :=
  ∀ connName w, s.mTcpConnections connName = some w → KeptAlive server s.now w

-- ---------------------------------------------------------------------------
-- Conditions
-- ---------------------------------------------------------------------------

/-- The clients follow the protocol, and all clocks are equal: the frame is a message of
a registered class, created by now, and stamped with the time of its creation where
the class has a stamp. -/
def Honest (server : ServerKind) (s : Monitor) : MonitorEvent → Prop
  | .handle _ frame created =>
      created ≤ s.now ∧ ∃ m : HonestMessage server, m.Encodes frame ∧
        (m.type = .timestampMessage ∨ m.type = .heartBeatPacket →
          ∃ ms, m.members = [.scalar 8 ms] ∧ ms.toNat = created)
  | _ => True

/-- The stamp that an honest message leaves: its own one if it is a heartbeat, the time
its prototype was made otherwise. -/
def stampLeft (s : Monitor) (w : Watch) (type : MessageType) (msgName : Bytes) (created : Nat) :
    Nat :=
  if type = .heartBeatPacket then created else s.constructed w.tid msgName

/-- The last activity, with the message included. -/
def activity (s : Monitor) (w : Watch) (created : Nat) : Option Nat :=
  if created = s.now then some s.now else w.active

/-- The message leaves a stamp that is no older than the last activity of its
connection, if that is recent enough to count. -/
def LeavesFreshStamp (server : ServerKind) (s : Monitor) : MonitorEvent → Prop
  | .handle connName frame created =>
      ∀ w, s.mTcpConnections connName = some w → ∀ m : HonestMessage server, m.Encodes frame →
        m.type ≠ .timestampMessage → ∀ t, s.activity w created = some t →
          s.now < t + server.timeout → t ≤ s.stampLeft w m.type m.msgName created
  | _ => True

-- ---------------------------------------------------------------------------
-- One message
-- ---------------------------------------------------------------------------

/-- A frame has one message: the name is on the wire, and the class is the one that is
registered under it. -/
theorem encodes_unique {server : ServerKind} {m m' : HonestMessage server} {frame : Bytes}
    (h : m.Encodes frame) (h' : m'.Encodes frame) :
    m'.type = m.type ∧ m'.msgName = m.msgName := by
  have hName : m'.msgName = m.msgName := by
    rw [← m'.wireName_frame, ← m'.encodes_iff.mp h', m.encodes_iff.mp h, m.wireName_frame]
  obtain ⟨p, hp, hType, -⟩ := serves_messageTypes server _ m.registered
  obtain ⟨p', hp', hType', -⟩ := serves_messageTypes server _ m'.registered
  dsimp only at hp hp'
  rw [hName, hp, Option.some.injEq] at hp'
  exact ⟨(hType'.symm.trans (congrArg Prototype.type hp'.symm)).trans hType, hName⟩

section

variable {server : ServerKind} {s : Monitor} {now : Nat} {w : Watch}

theorem elapsed_of_le {last : Nat} (h : last ≤ now) (hNear : now - last < 2 ^ 64) :
    elapsed now last = now - last := by
  unfold elapsed
  omega

theorem timeout_pos (server : ServerKind) : 0 < server.timeout := by
  cases server <;> decide

theorem timeout_lt (server : ServerKind) : server.timeout < 2 ^ 63 := by
  cases server <;> decide

/-- With a stamp from the past, checks within the time-out spare the connection exactly
if the stamp is no older than its last activity, as long as that counts. -/
theorem keptAlive_iff (hClock : now < 2 ^ 63) (hStamp : w.mCommunicationTimestamp ≤ now)
    (hActive : ∀ t, w.active = some t → t ≤ now) :
    KeptAlive server now w ↔ ∀ t, w.active = some t → now < t + server.timeout →
      t ≤ w.mCommunicationTimestamp := by
  have hPos := timeout_pos server
  have hSmall := timeout_lt server
  refine forall_congr' fun t => forall_congr' fun ht => ?_
  have hPast : t ≤ now := hActive t ht
  constructor
  · -- the last moment before the time-out shows an older stamp
    intro h hCounts
    by_contra hOlder
    refine h (t + server.timeout - 1) (by omega) (by omega) ?_
    unfold TimedOut
    rw [elapsed_of_le (by omega) (by omega)]
    omega
  · intro h u hNow hBefore
    have hFresh := h (by omega)
    unfold TimedOut
    rw [elapsed_of_le (by omega) (by omega)]
    omega

theorem millisecondsSinceEpoch_heartBeat {constructed created : Nat} {p : Prototype}
    (hType : p.type = .heartBeatPacket)
    (hMembers : ∃ ms, p.object.members = [.scalar 8 ms] ∧ ms.toNat = created) :
    millisecondsSinceEpoch constructed p = created := by
  obtain ⟨ms, hMembers, hStamp⟩ := hMembers
  unfold millisecondsSinceEpoch
  rw [hType, hMembers]
  exact hStamp

theorem millisecondsSinceEpoch_other {constructed : Nat} {p : Prototype}
    (hTimestamp : p.type ≠ .timestampMessage) (hHeartBeat : p.type ≠ .heartBeatPacket) :
    millisecondsSinceEpoch constructed p = constructed := by
  unfold millisecondsSinceEpoch
  cases hType : p.type with
  | timestampMessage => exact absurd hType hTimestamp
  | heartBeatPacket => exact absurd hType hHeartBeat
  | _ => rfl

/-- The connection behind an honest message other than a bare `TimestampMessage`. -/
def watchAfter (s : Monitor) (w : Watch) (type : MessageType) (msgName : Bytes) (created : Nat) :
    Watch :=
  { w with
    mCommunicationTimestamp := s.stampLeft w type msgName created
    active := s.activity w created }

/-- An honest message: the tables go on serving, and the connection gets its stamp. -/
theorem messageFunc_honest (connName : Bytes) {frame : Bytes} {created : Nat} {m : HonestMessage server}
    (hServes : Serves server (s.mMessageTypes w.tid)) (hFrame : m.Encodes frame)
    (hStamp : m.type = .timestampMessage ∨ m.type = .heartBeatPacket →
      ∃ ms, m.members = [.scalar 8 ms] ∧ ms.toNat = created) :
    ∃ types, Serves server types ∧
      s.messageFunc connName w frame created =
        { s with
          mMessageTypes := Function.update s.mMessageTypes w.tid types
          mTcpConnections :=
            if m.type = .timestampMessage then s.mTcpConnections
            else Function.update s.mTcpConnections connName
              (some (s.watchAfter w m.type m.msgName created)) } := by
  obtain rfl := m.encodes_iff.mp hFrame
  obtain ⟨d, types, hDispatch, ⟨hName, p, hPrototype, hType, -, hMembers⟩, hAfter⟩ :=
    dispatch_honest hServes m
  refine ⟨types, hAfter, ?_⟩
  unfold messageFunc
  rw [hDispatch]
  dsimp only
  rw [hPrototype]
  dsimp only
  rw [hType]
  by_cases hBare : m.type = .timestampMessage
  · rw [if_pos hBare, if_pos hBare]
  · rw [if_neg hBare, if_neg hBare]
    -- the stamp is on the wire of a heartbeat only
    have hLeft : millisecondsSinceEpoch (s.constructed w.tid d.msgType) p =
        s.stampLeft w m.type m.msgName created := by
      by_cases hBeat : m.type = .heartBeatPacket
      · rw [stampLeft, if_pos hBeat]
        refine millisecondsSinceEpoch_heartBeat (hType.trans hBeat) ?_
        rw [hMembers]
        exact hStamp (Or.inr hBeat)
      · rw [stampLeft, if_neg hBeat, hName]
        exact millisecondsSinceEpoch_other (hType ▸ hBare) (hType ▸ hBeat)
    rw [hLeft]
    rfl

end

-- ---------------------------------------------------------------------------
-- Runs
-- ---------------------------------------------------------------------------

/-- What holds at every point of a run of honest clients: stamps and activities lie in
the past, and the tables serve. -/
structure Sound (server : ServerKind) (s : Monitor) : Prop where
  clock : s.now < 2 ^ 63
  constructed : ∀ tid msgName, s.constructed tid msgName ≤ s.now
  serves : ∀ tid, Serves server (s.mMessageTypes tid)
  stamps : ∀ connName w, s.mTcpConnections connName = some w →
    w.mCommunicationTimestamp ≤ s.now ∧ ∀ t, w.active = some t → t ≤ s.now

section

variable {server : ServerKind} {s : Monitor}

/-- The other connections do not notice a change of one. -/
theorem alive_update_iff (tables : LoopId → MessageTypes) (connName : Bytes) (w' : Option Watch)
    (h : s.Alive server) :
    Alive server { s with
      mMessageTypes := tables
      mTcpConnections := Function.update s.mTcpConnections connName w' } ↔
        ∀ w, w' = some w → KeptAlive server s.now w := by
  constructor
  · intro hAlive w hw
    refine hAlive connName w ?_
    dsimp only
    rw [Function.update_self, hw]
  · intro hOne other w hw
    dsimp only at hw
    by_cases hSame : other = connName
    · rw [hSame, Function.update_self] at hw
      exact hOne w hw
    · rw [Function.update_of_ne hSame] at hw
      exact h other w hw

theorem watchAfter_past {w : Watch} (type : MessageType) (msgName : Bytes) {created : Nat}
    (hSound : s.Sound server) (hCreated : created ≤ s.now)
    (hActive : ∀ t, w.active = some t → t ≤ s.now) :
    (s.watchAfter w type msgName created).mCommunicationTimestamp ≤ s.now ∧
      ∀ t, (s.watchAfter w type msgName created).active = some t → t ≤ s.now := by
  constructor
  · show (if _ then created else s.constructed w.tid msgName) ≤ s.now
    split
    · exact hCreated
    · exact hSound.constructed w.tid msgName
  · intro t ht
    change (if created = s.now then some s.now else w.active) = some t at ht
    split at ht
    · cases ht
      exact Nat.le_refl _
    · exact hActive t ht

/-- **One message** keeps the connections alive exactly if it leaves a stamp that is
fresh enough. -/
theorem alive_handle_iff {connName frame : Bytes} {created : Nat} (hSound : s.Sound server)
    (h : s.Alive server) (hHonest : s.Honest server (.handle connName frame created)) :
    (s.step server (.handle connName frame created)).Alive server ↔
      s.LeavesFreshStamp server (.handle connName frame created) := by
  obtain ⟨hCreated, m, hFrame, hStamp⟩ := hHonest
  cases hConn : s.mTcpConnections connName with
  | none =>
    have hStep : s.step server (.handle connName frame created) = s := by
      rw [step, hConn]
    rw [hStep]
    refine ⟨fun _ w hw => ?_, fun _ => h⟩
    rw [hConn] at hw
    cases hw
  | some w =>
    obtain ⟨types, -, hRun⟩ :=
      messageFunc_honest connName (hSound.serves w.tid) hFrame hStamp
    have hStep : s.step server (.handle connName frame created) =
        s.messageFunc connName w frame created := by
      rw [step, hConn]
    rw [hStep, hRun]
    by_cases hBare : m.type = .timestampMessage
    · -- a bare message leaves the stamp as it is
      rw [if_pos hBare]
      refine ⟨fun _ w' _ m' hFrame' hNot => ?_, fun _ => h⟩
      exact absurd ((encodes_unique hFrame hFrame').1.trans hBare) hNot
    · rw [if_neg hBare]
      obtain ⟨-, hActive⟩ := hSound.stamps connName w hConn
      obtain ⟨hPast, hPastActive⟩ :=
        watchAfter_past (m.type) (m.msgName) hSound hCreated hActive
      refine (alive_update_iff _ connName _ h).trans ?_
      constructor
      · intro hKept w' hw' m' hFrame' _ t ht hCounts
        rw [hConn, Option.some.injEq] at hw'
        subst hw'
        obtain ⟨hType, hName⟩ := encodes_unique hFrame hFrame'
        rw [hType, hName]
        exact (keptAlive_iff hSound.clock hPast hPastActive).mp (hKept _ rfl) t ht hCounts
      · intro hFresh w' hw'
        rw [Option.some.injEq] at hw'
        subst hw'
        exact (keptAlive_iff hSound.clock hPast hPastActive).mpr fun t ht hCounts =>
          hFresh w hConn m hFrame hBare t ht hCounts

/-- The other events never put a connection at risk. -/
theorem alive_step_iff (hSound : s.Sound server) (h : s.Alive server) {e : MonitorEvent}
    (hHonest : s.Honest server e) :
    (s.step server e).Alive server ↔ s.LeavesFreshStamp server e := by
  cases e with
  | handle connName frame created => exact alive_handle_iff hSound h hHonest
  | pass ms =>
    refine ⟨fun _ => trivial, fun _ => ?_⟩
    show Alive server (if _ then _ else _)
    split
    · -- later checks are among those that spare it now
      intro connName w hw t ht u hNow hBefore
      exact h connName w hw t ht u (Nat.le_trans (Nat.le_add_right _ _) hNow) hBefore
    · exact h
  | connect connName tid =>
    refine ⟨fun _ => trivial, fun _ => ?_⟩
    refine (alive_update_iff s.mMessageTypes connName _ h).mpr ?_
    intro w hw t ht
    cases hw
    cases ht
  | checkHeartbeat connName =>
    refine ⟨fun _ => trivial, fun _ => ?_⟩
    rw [step]
    split
    · exact h
    · split
      · refine (alive_update_iff s.mMessageTypes connName none h).mpr ?_
        intro w hw
        cases hw
      · exact h
  | close connName =>
    refine ⟨fun _ => trivial, fun _ => ?_⟩
    refine (alive_update_iff s.mMessageTypes connName none h).mpr ?_
    intro w hw
    cases hw

/-- What is sound stays sound under one changed connection. -/
theorem Sound.update (hSound : s.Sound server) (connName : Bytes) {w' : Option Watch}
    {tables : LoopId → MessageTypes} (hServes : ∀ tid, Serves server (tables tid))
    (hPast : ∀ w, w' = some w → w.mCommunicationTimestamp ≤ s.now ∧
      ∀ t, w.active = some t → t ≤ s.now) :
    Sound server { s with
      mMessageTypes := tables
      mTcpConnections := Function.update s.mTcpConnections connName w' } := by
  refine ⟨hSound.clock, hSound.constructed, hServes, fun other w hw => ?_⟩
  dsimp only at hw ⊢
  by_cases hSame : other = connName
  · rw [hSame, Function.update_self] at hw
    exact hPast w hw
  · rw [Function.update_of_ne hSame] at hw
    exact hSound.stamps other w hw

theorem Sound.step (hSound : s.Sound server) {e : MonitorEvent} (hHonest : s.Honest server e) :
    (s.step server e).Sound server := by
  cases e with
  | pass ms =>
    show Sound server (if _ then _ else _)
    split
    next hClock =>
      have hLater : s.now ≤ s.now + ms := Nat.le_add_right _ _
      refine ⟨hClock, fun tid msgName => (hSound.constructed tid msgName).trans hLater,
        hSound.serves, fun connName w hw => ?_⟩
      obtain ⟨hStamp, hActive⟩ := hSound.stamps connName w hw
      exact ⟨hStamp.trans hLater, fun t ht => (hActive t ht).trans hLater⟩
    next => exact hSound
  | connect connName tid =>
    refine hSound.update connName hSound.serves ?_
    intro w hw
    cases hw
    refine ⟨Nat.zero_le _, fun t ht => ?_⟩
    cases ht
  | handle connName frame created =>
    obtain ⟨hCreated, m, hFrame, hStamp⟩ := hHonest
    rw [Monitor.step]
    split
    next => exact hSound
    next w hConn =>
      obtain ⟨types, hServes, hRun⟩ :=
        messageFunc_honest connName (hSound.serves w.tid) hFrame hStamp
      have hTables : ∀ tid, Serves server (Function.update s.mMessageTypes w.tid types tid) := by
        intro tid
        by_cases hSame : tid = w.tid
        · rw [hSame, Function.update_self]
          exact hServes
        · rw [Function.update_of_ne hSame]
          exact hSound.serves tid
      rw [hRun]
      by_cases hBare : m.type = .timestampMessage
      · rw [if_pos hBare]
        exact ⟨hSound.clock, hSound.constructed, hTables, hSound.stamps⟩
      · rw [if_neg hBare]
        refine hSound.update connName hTables ?_
        intro w' hw'
        rw [Option.some.injEq] at hw'
        subst hw'
        exact watchAfter_past m.type m.msgName hSound hCreated (hSound.stamps connName w hConn).2
  | checkHeartbeat connName =>
    rw [Monitor.step]
    split
    · exact hSound
    · split
      · exact hSound.update connName hSound.serves fun w hw => by cases hw
      · exact hSound
  | close connName => exact hSound.update connName hSound.serves fun w hw => by cases hw

/-- **Checks.** In a state that keeps its connections alive, a check within the time-out
from the last activity leaves the connection open. -/
theorem checkHeartbeat_spares {connName : Bytes} {w : Watch} {t : Nat} (h : s.Alive server)
    (hConn : s.mTcpConnections connName = some w) (hActive : w.active = some t)
    (hCounts : s.now < t + server.timeout) :
    s.step server (.checkHeartbeat connName) = s := by
  have hSpared := h connName w hConn t hActive s.now (Nat.le_refl _) hCounts
  rw [Monitor.step, hConn]
  dsimp only
  rw [if_neg hSpared]

end

theorem init_sound (server : ServerKind) {now : Nat} {constructed : LoopId → Bytes → Nat}
    (hClock : now < 2 ^ 63) (hMade : ∀ tid msgName, constructed tid msgName ≤ now) :
    (init server now constructed).Sound server :=
  { clock := hClock
    constructed := hMade
    serves := fun _ => serves_messageTypes server
    stamps := fun _ _ hConn => by cases hConn }

theorem init_alive (server : ServerKind) (now : Nat) (constructed : LoopId → Bytes → Nat) :
    (init server now constructed).Alive server := fun _ _ hConn => by cases hConn

/-- **Activity keeps alive.** For every run of a server whose clients follow the
protocol, no check within the time-out from the last activity of a connection would close
it, exactly if every message leaves a stamp that is no older than that activity. `Alive` is
about any check that might run, so that it says more than that no check of the run has
closed an active connection: for that the condition is enough, and a late stamp does no
harm where no check comes before the next one. -/
theorem active_alive_iff (server : ServerKind) (now : Nat) (constructed : LoopId → Bytes → Nat)
    (hClock : now < 2 ^ 63) (hMade : ∀ tid msgName, constructed tid msgName ≤ now)
    (es : List MonitorEvent) (hHonest : Each (step server) (Honest server)
      (init server now constructed) es) :
    Always (step server) (Alive server) (init server now constructed) es ↔
      Each (step server) (LeavesFreshStamp server) (init server now constructed) es :=
  always_iff_each (fun s es => s.Sound server ∧ Each (step server) (Honest server) s es)
    (fun _ _ _ hJ _ _ => ⟨hJ.1.step hJ.2.1, hJ.2.2⟩)
    (fun _ _ _ hJ h => alive_step_iff hJ.1 h hJ.2.1)
    (init_alive server now constructed) ⟨init_sound server hClock hMade, hHonest⟩

/-- A login request of the account "a". -/
def loginRequest : HonestMessage .loginServer where
  msgName := literal "LOGIN_LOGIN_MSG"
  type := .loginRequestMessage
  members := [.scalar 8 110, .string [97], .string [97]]
  registered := registered_login
  typed := by decide
  size_lt := by decide

/-- An hour after the start of a login server a client connects. -/
def lateClient : List MonitorEvent := [.pass 3600000, .connect [] 0]

/-- It logs in at once. -/
def lateLogin : List MonitorEvent :=
  [.handle [] (wire loginRequest.msgName loginRequest.members) 3600000]

/-- The next check closes the connection, though its message is not a millisecond old:
the stamp is that of the start. -/
theorem login_timed_out :
    ¬ Always (step .loginServer) (Alive .loginServer) (init .loginServer 0 fun _ _ => 0)
      (lateClient ++ lateLogin) := by
  intro h
  have hFinal := h.final
  rw [final_append] at hFinal
  obtain ⟨s, hs⟩ : ∃ s, final (step .loginServer) (init .loginServer 0 fun _ _ => 0)
    lateClient = s := ⟨_, rfl⟩
  have hNow : s.now = 3600000 := hs ▸ rfl
  have hConn : s.mTcpConnections [] = some ⟨0, 0, none⟩ := hs ▸ rfl
  have hMade : s.constructed 0 loginRequest.msgName = 0 := hs ▸ rfl
  have hServes : Serves .loginServer (s.mMessageTypes 0) := hs ▸ serves_messageTypes .loginServer
  rw [hs, lateLogin, final_cons, final_nil, step, hConn] at hFinal
  dsimp only at hFinal
  obtain ⟨types, -, hRun⟩ := messageFunc_honest (w := ⟨0, 0, none⟩) [] hServes
    loginRequest.encodes_wire fun hStamped => by rcases hStamped with hBare | hBeat <;> contradiction
  rw [hRun] at hFinal
  -- the stamp is 0, the activity the present moment
  have hAfter : s.watchAfter ⟨0, 0, none⟩ loginRequest.type loginRequest.msgName 3600000 =
      ⟨0, 0, some 3600000⟩ := by
    rw [watchAfter, stampLeft, activity, hNow, if_pos rfl, if_neg (by decide), hMade]
  rw [hAfter] at hFinal
  have hKept := hFinal [] ⟨0, 0, some 3600000⟩ rfl 3600000 rfl 3600000
  dsimp only at hKept
  rw [hNow] at hKept
  exact hKept (Nat.le_refl _) (by decide) (by decide)

/-- A heartbeat of the time 5. -/
def heartbeat : HonestMessage .loginServer where
  msgName := literal "HEARTBEAT_MSG"
  type := .heartBeatPacket
  members := [.scalar 8 5]
  registered := registered_heartbeat
  typed := by decide
  size_lt := by decide

/-- A connection that sends heartbeats. -/
theorem active_alive_heartbeat :
    Always (step .loginServer) (Alive .loginServer) (init .loginServer 0 fun _ _ => 0)
      [.pass 5, .connect [] 0, .handle [] (wire heartbeat.msgName heartbeat.members) 5] := by
  refine (active_alive_iff .loginServer 0 (fun _ _ => 0) (by decide)
    (fun _ _ => Nat.le_refl _) _ ?_).mpr ?_
  · refine ⟨trivial, trivial, ⟨Nat.le_refl _, heartbeat, heartbeat.encodes_wire, fun _ => ?_⟩,
      trivial⟩
    exact ⟨5, rfl, rfl⟩
  · refine ⟨trivial, trivial, fun w _ m hFrame _ t ht _ => ?_, trivial⟩
    obtain ⟨hType, -⟩ := encodes_unique heartbeat.encodes_wire hFrame
    have hBeat : m.type = .heartBeatPacket := hType
    rw [stampLeft, if_pos hBeat]
    cases ht
    exact Nat.le_refl _

end Monitor

end WarringServer.Server
