import CantayaOS.Net.Ping

/-!
# How deep polls nest

Answering an echo request polls the driver while the address of the next hop is
awaited, and that poll may find another echo request.  Nothing limits how often
this repeats, so the depth of nested polls is bounded exactly if no echo request
has to wait for an address.
-/

namespace CantayaOS.Net

open Lib Lib.Checked List NetState

/-- Poll, where a call that is nested under `depth` others does `deeper` instead. -/
def pollCut (env : NetEnv) (deeper : NetM Unit) : Nat → Nat → NetM Unit
  | 0, _ => throw .outOfFuel
  | _ + 1, 0 => deeper
  | fuel + 1, depth + 1 => do
      if !(← get).up then return
      pollRx env
      drain (processFrameWith env (pollCut env deeper fuel depth) fuel) fuel

/-- At most `bound` calls of poll are active at a time: whatever calls below them would do, the run
is the same. -/
def NestsAtMost (bound : Nat) (env : NetEnv) (state : NetState) : Prop :=
  ∀ deeper fuel, pollCut env deeper fuel bound state = poll env fuel state

variable {fuel depth : Nat} {other after now : NetState}

variable {state : NetState}

variable {env : NetEnv} {deeper : NetM Unit} {before : NetState} {message : Bytes}
  {lessons : List Bytes}

theorem pollCut_of_up (up : state.up = true) : pollCut env deeper (fuel + 1) (depth + 1) state =
      drain (processFrameWith env (pollCut env deeper fuel depth) fuel) fuel (state.arrive env) := by
  rw [pollCut, bind_get, up]
  rfl

theorem pollCut_of_down (down : state.up = false) :
    pollCut env deeper (fuel + 1) (depth + 1) state = .ok ((), state) := by
  rw [pollCut, bind_get, down]
  rfl

def Teaches (config : NetConfig) (frame : Bytes) : Prop :=
  ∃ senderIp senderMac, traffic config frame = .arp senderIp senderMac

def NetState.learn (config : NetConfig) (state : NetState) (frame : Bytes) : NetState :=
  match traffic config frame with
  | .arp senderIp senderMac => state.insert senderIp senderMac
  | _ => state

/-- Whatever the frames teach, each echo request among them has a next hop with a cached address. -/
def Resolves (state : NetState) (frames : Bytes → Prop) : Prop :=
  ∀ lessons : List Bytes, (∀ frame ∈ lessons, frames frame ∧ Teaches state.config frame) →
    ∀ frame srcIp message, frames frame →
      traffic state.config frame = .echoRequest srcIp message →
      (lessons.foldl (NetState.learn state.config) state).lookup (nextHop state.config srcIp) ≠ none

theorem lookup_congr (same : state.arpCache = other.arpCache) (ip : Ip) :
    state.lookup ip = other.lookup ip := by
  rw [NetState.lookup, NetState.lookup, same]

theorem insert_congr (same : state.arpCache = other.arpCache) (ip : Ip)
    (mac : Mac) : (state.insert ip mac).arpCache = (other.insert ip mac).arpCache := by
  rw [NetState.insert, NetState.insert, same]

/-! ## Requests that need not wait -/

section Bounded

variable {env : NetEnv} {state : NetState} {frames : Bytes → Prop}

/-- The state has the configuration, and the cache that some of the frames teach. -/
structure Taught (state : NetState) (frames : Bytes → Prop) (now : NetState) : Prop where
  config : now.config = state.config
  queued : ∀ frame ∈ now.rxQueue, frames frame
  cache : ∃ lessons : List Bytes, (∀ frame ∈ lessons, frames frame ∧ Teaches state.config frame) ∧
    now.arpCache = (lessons.foldl (NetState.learn state.config) state).arpCache

theorem Taught.of_alike (taught : Taught state frames before)
    (alike : Alike before after) : Taught state frames after := by
  refine ⟨alike.config.trans taught.config, ?_, ?_⟩
  · rw [alike.rxQueue]
    exact taught.queued
  · rw [alike.arpCache]
    exact taught.cache

theorem Taught.insert (taught : Taught state frames now) {frame : Bytes}
    (received : frames frame) {ip : Ip} {mac : Mac} (kind : traffic state.config frame = .arp ip mac) :
    Taught state frames (now.insert ip mac) := by
  obtain ⟨lessons, valid, cache⟩ := taught.cache
  refine ⟨taught.config, taught.queued, lessons ++ [frame], fun other listed => ?_, ?_⟩
  · rcases mem_append.mp listed with old | new
    · exact valid other old
    · rw [mem_singleton.mp new]
      exact ⟨received, ip, mac, kind⟩
  · rw [foldl_append, foldl_cons, NetState.learn, kind]
    exact insert_congr cache ip mac

theorem sendEchoReply_alike (env : NetEnv) {srcIp : Ip}
    (long : 8 ≤ message.length) (cached : state.lookup (nextHop state.config srcIp) ≠ none) :
    ∃ after, Alike state after ∧
      ∀ poll fuel, sendEchoReply env poll fuel srcIp message state = .ok ((), after) := by
  obtain ⟨mac, isMac⟩ := Option.ne_none_iff_exists'.mp cached
  obtain ⟨cksum, -, sends⟩ := sendEchoReply_eq env state srcIp long
  have counted : Alike state state.sendIcmp := Alike.count _ state
  rw [lookup_congr counted.arpCache.symm] at isMac
  obtain ⟨after, alike, sent⟩ := ipv4Send_alike env protoIcmp (echoReply message cksum) isMac
  exact ⟨after, counted.trans alike, fun poll fuel => (sends poll fuel).trans (sent poll fuel)⟩

/-- A program ends the same however the driver is polled, and what was taught still holds. -/
def EndsTaught (state : NetState) (frames : Bytes → Prop)
    (outcome : NetM Unit → Nat → Except Fault (Unit × NetState)) : Prop :=
  ∃ ended : Except Fault (Unit × NetState), (∀ poll fuel, outcome poll fuel = ended) ∧
    ∀ after, ended = .ok ((), after) → Taught state frames after

theorem EndsTaught.of_ok {outcome : NetM Unit → Nat → Except Fault (Unit × NetState)}
    (ends : ∀ poll fuel, outcome poll fuel = .ok ((), after))
    (taught : Taught state frames after) : EndsTaught state frames outcome := by
  refine ⟨.ok ((), after), ends, fun other same => ?_⟩
  rw [← (Prod.mk.inj (Except.ok.inj same)).2]
  exact taught

section

variable (resolves : Resolves state frames)
include resolves

/-- Processing a frame does not poll if every echo request has a resolved next hop. -/
theorem processFrameWith_taught (taught : Taught state frames now) {data : Bytes}
    (received : frames data) :
    EndsTaught state frames fun poll fuel => processFrameWith env poll fuel data now := by
  have digests := processFrameWith_digests env now data
  rw [taught.config] at digests
  cases kind : traffic state.config data with
  | arp senderIp senderMac =>
    rw [kind] at digests
    obtain ⟨after, alike, ends⟩ := digests
    exact EndsTaught.of_ok ends ((taught.insert received kind).of_alike alike)
  | echoRequest srcIp message =>
    rw [kind] at digests
    obtain ⟨long, answers⟩ := digests
    obtain ⟨lessons, valid, cache⟩ := taught.cache
    have cached : now.receiveIcmp.lookup (nextHop now.receiveIcmp.config srcIp) ≠ none := by
      have same : now.receiveIcmp.config = state.config := taught.config
      rw [same, lookup_congr (show now.receiveIcmp.arpCache = _ from cache)]
      exact resolves lessons valid data srcIp message received kind
    obtain ⟨after, alike, sent⟩ := sendEchoReply_alike env long cached
    exact EndsTaught.of_ok (fun poll fuel => (answers poll fuel).trans (sent poll fuel))
      ((taught.of_alike (Alike.count _ _)).of_alike alike)
  | echoReply reply =>
    rw [kind] at digests
    obtain ⟨after, alike, ends⟩ := digests
    have stored : Taught state frames { now with pingReply := some reply } :=
      ⟨taught.config, taught.queued, taught.cache⟩
    exact EndsTaught.of_ok ends (stored.of_alike alike)
  | fatal =>
    rw [kind] at digests
    exact ⟨.error .panic, digests, nofun⟩
  | other =>
    rw [kind] at digests
    obtain ⟨after, alike, ends⟩ := digests
    exact EndsTaught.of_ok ends (taught.of_alike alike)

theorem drain_taught (poll poll' : NetM Unit) (inner fuel : Nat)
    (taught : Taught state frames now) :
    drain (processFrameWith env poll inner) fuel now =
      drain (processFrameWith env poll' inner) fuel now := by
  induction fuel generalizing now with
  | zero => rw [drain, drain]
  | succ fuel ih =>
    cases queue : now.rxQueue with
    | nil => rw [drain_nil queue, drain_nil queue]
    | cons frame rest =>
      have received : frames frame := taught.queued frame (by simp [queue])
      have taken : Taught state frames
          (NetState.statRx frame.length { now with rxQueue := rest }) :=
        ⟨taught.config, fun other queued => taught.queued other (by
          rw [queue]
          exact mem_cons_of_mem _ queued), taught.cache⟩
      obtain ⟨outcome, ends, keeps⟩ := processFrameWith_taught resolves taken received
      rw [drain_cons queue, drain_cons queue]
      cases outcome with
      | error fault => rw [bind_of_error (ends _ _), bind_of_error (ends _ _)]
      | ok result =>
        rw [bind_of_ok (ends _ _), bind_of_ok (ends _ _)]
        exact ih (keeps _ rfl)

/-- If every echo request has a resolved next hop, no poll is nested in another. -/
theorem nestsAtMost_one (sameConfig : other.config = state.config)
    (sameCache : other.arpCache = state.arpCache) (receives : Receives env other frames) :
    NestsAtMost 1 env other := by
  intro deeper fuel
  cases fuel with
  | zero => rw [pollCut, poll]
  | succ fuel =>
    cases up : other.up with
    | false => rw [pollCut_of_down up, poll_of_down up]
    | true =>
      rw [pollCut_of_up up, poll_of_up up]
      refine drain_taught resolves _ _ fuel fuel ⟨sameConfig, fun frame queued => ?_, [], ?_, ?_⟩
      · rcases mem_append.mp queued with old | new
        · exact receives.queued frame old
        · exact receives.arriving _ frame new
      · exact fun _ listed => absurd listed not_mem_nil
      · exact sameCache

end

end Bounded

/-! ## Requests that wait -/

section Unbounded

/-- The network is up and the address is not cached. -/
structure Exposed (config : NetConfig) (hop : Ip) (state : NetState) : Prop where
  config : state.config = config
  up : state.up = true
  unknown : state.lookup hop = none

theorem Exposed.of_alike {config : NetConfig} {hop : Ip}
    (exposed : Exposed config hop before) (alike : Alike before after) : Exposed config hop after :=
  ⟨alike.config.trans exposed.config, alike.up.trans exposed.up,
    (lookup_congr alike.arpCache hop).trans exposed.unknown⟩

variable {env : NetEnv} {config : NetConfig} {poll : NetM Unit} {srcIp : Ip} {state : NetState}

/-- Answering a request whose next hop is not cached polls at once. -/
theorem sendEchoReply_polls (long : 8 ≤ message.length)
    (exposed : Exposed config (nextHop config srcIp) state) (empty : state.rxQueue = [])
    (panics : ∀ now, Exposed config (nextHop config srcIp) now → now.rxQueue = [] →
      poll now = .error .panic) (fuel : Nat) :
    sendEchoReply env poll (fuel + 1) srcIp message state = .error .panic := by
  obtain ⟨cksum, -, sends⟩ := sendEchoReply_eq env state srcIp long
  have counted : Alike state state.sendIcmp := Alike.count _ state
  generalize state.sendIcmp = sending at counted sends
  obtain ⟨packet, built⟩ :=
    buildPacket_total sending.config.ip srcIp sending.ipId protoIcmp (echoReply message cksum)
  rw [sends, ipv4Send_of_built _ built]
  have begun : Alike state { sending with ipId := sending.ipId + 1 } :=
    counted.trans ⟨rfl, rfl, rfl, rfl, rfl, rfl, rfl⟩
  generalize { sending with ipId := sending.ipId + 1 } = asking at begun ⊢
  have hop : nextHop sending.config srcIp = nextHop config srcIp := by
    rw [counted.config, exposed.config]
  obtain ⟨asked, requested, alike⟩ : ∃ asked,
      sendRequest (nextHop config srcIp) asking = .ok ((), asked) ∧ Alike asking asked := by
    rw [sendRequest]
    exact sendRaw_alike _ _
  have waiting := exposed.of_alike (begun.trans alike)
  have polled := panics asked waiting ((begun.trans alike).rxQueue.trans empty)
  have resolving : resolveBlocking env poll (fuel + 1) (nextHop config srcIp) asking =
      .error .panic := by
    rw [resolveBlocking, bind_get, (exposed.of_alike begun).unknown]
    dsimp only
    rw [resolveAttempts, bind_of_ok requested, awaitReply, bind_of_error (bind_of_error polled _)]
  rw [hop, bind_of_error resolving]

variable {frame message : Bytes} (kind : traffic config frame = .echoRequest srcIp message)
include kind

/-- Processing such a request polls at once. -/
theorem processFrameWith_polls (exposed : Exposed config (nextHop config srcIp) state)
    (empty : state.rxQueue = [])
    (panics : ∀ now, Exposed config (nextHop config srcIp) now → now.rxQueue = [] →
      poll now = .error .panic) (fuel : Nat) :
    processFrameWith env poll (fuel + 1) frame state = .error .panic := by
  have digests := processFrameWith_digests env state frame
  rw [exposed.config, kind] at digests
  obtain ⟨long, answers⟩ := digests
  have counted : Alike state state.receiveIcmp := Alike.count _ _
  exact (answers poll (fuel + 1)).trans
    (sendEchoReply_polls long (exposed.of_alike counted) (counted.rxQueue.trans empty) panics fuel)

/-- While the request is delivered at every poll, every depth is reached. -/
theorem pollCut_panics (enough : depth < fuel)
    (exposed : Exposed config (nextHop config srcIp) state) (empty : state.rxQueue = []) :
    pollCut (repeatingEnv frame) (throw .panic) fuel depth state = .error .panic := by
  induction depth generalizing fuel state with
  | zero =>
    obtain ⟨fuel, rfl⟩ : ∃ less, fuel = less + 1 := ⟨fuel - 1, by omega⟩
    rfl
  | succ depth ih =>
    obtain ⟨fuel, rfl⟩ : ∃ less, fuel = less + 2 := ⟨fuel - 2, by omega⟩
    have queue : (state.arrive (repeatingEnv frame)).rxQueue = [frame] :=
      congrArg (· ++ [frame]) empty
    have taken : Exposed config (nextHop config srcIp) (NetState.statRx frame.length
        { state.arrive (repeatingEnv frame) with rxQueue := [] }) :=
      ⟨exposed.config, exposed.up, exposed.unknown⟩
    rw [pollCut_of_up exposed.up, drain_cons queue]
    exact bind_of_error (processFrameWith_polls kind taken rfl (fun now => ih (by omega)) fuel) _

omit kind in
theorem foldl_learn_congr (config : NetConfig) (lessons : List Bytes) {first second : NetState}
    (same : first.arpCache = second.arpCache) :
    (lessons.foldl (NetState.learn config) first).arpCache =
      (lessons.foldl (NetState.learn config) second).arpCache := by
  induction lessons generalizing first second with
  | nil => exact same
  | cons lesson lessons ih =>
    refine ih ?_
    rw [learn, learn]
    cases traffic config lesson with
    | arp ip mac => exact insert_congr same ip mac
    | _ => exact same

omit kind in
/-- Draining a queue that starts with lessons learns them first. -/
theorem drain_learns (env : NetEnv) (poll : NetM Unit) (inner fuel : Nat) {rest : List Bytes}
    (teaching : ∀ lesson ∈ lessons, Teaches config lesson) (configured : state.config = config)
    (queue : state.rxQueue = lessons ++ rest) :
    ∃ after, drain (processFrameWith env poll inner) (lessons.length + fuel) state =
        drain (processFrameWith env poll inner) fuel after ∧
      after.config = config ∧ after.up = state.up ∧ after.rxQueue = rest ∧
      after.arpCache = (lessons.foldl (NetState.learn config) state).arpCache := by
  induction lessons generalizing state with
  | nil => exact ⟨state, by rw [length_nil, zero_add], configured, rfl, queue, rfl⟩
  | cons lesson lessons ih =>
    obtain ⟨ip, mac, isArp⟩ := teaching lesson (.head _)
    generalize isTaken : NetState.statRx lesson.length
      { state with rxQueue := lessons ++ rest } = taken
    have front : state.rxQueue = lesson :: (lessons ++ rest) := queue
    have digests := processFrameWith_digests env taken lesson
    have sameConfig : taken.config = config := by
      rw [← isTaken]
      exact configured
    have sameQueue : taken.rxQueue = lessons ++ rest := by
      rw [← isTaken]
      rfl
    have sameUp : taken.up = state.up := by
      rw [← isTaken]
      rfl
    have sameCache : taken.arpCache = state.arpCache := by
      rw [← isTaken]
      rfl
    rw [sameConfig, isArp] at digests
    obtain ⟨learned, alike, processed⟩ := digests
    obtain ⟨after, drains, afterConfig, afterUp, afterQueue, afterCache⟩ := ih
      (fun other listed => teaching other (mem_cons_of_mem _ listed))
      (alike.config.trans sameConfig) (alike.rxQueue.trans sameQueue)
    refine ⟨after, ?_, afterConfig, afterUp.trans (alike.up.trans sameUp), afterQueue, ?_⟩
    · rw [length_cons, add_right_comm, drain_cons front, isTaken,
        bind_of_ok (processed _ _), drains]
    · rw [afterCache]
      refine foldl_learn_congr config lessons ?_
      rw [alike.arpCache, learn, isArp]
      exact insert_congr sameCache ip mac

/-- A request whose next hop the lessons leave uncached nests polls beyond every bound. -/
theorem not_nestsAtMost
    (teaching : ∀ lesson ∈ lessons, Teaches config lesson) (configured : state.config = config)
    (up : state.up = true) (queue : state.rxQueue = lessons)
    (unknown : (lessons.foldl (NetState.learn config) state).lookup (nextHop config srcIp) = none)
    (bound : Nat) : ¬ NestsAtMost bound (repeatingEnv frame) state := by
  intro nests
  have safe : ∀ fuel, Net.poll (repeatingEnv frame) fuel state ≠ .error .panic := by
    intro fuel panicked
    let regime : Regime := ⟨config, fun other => other ∈ lessons ∨ other = frame, fun _ => True, False⟩
    have sound : regime.Sound := by
      refine ⟨fun other received fatal => ?_, fun _ _ _ _ => trivial⟩
      rcases received with lesson | same
      · obtain ⟨ip, mac, isArp⟩ := teaching other lesson
        rw [show traffic config other = .fatal from fatal] at isArp
        exact Traffic.noConfusion isArp
      · subst same
        rw [show traffic config other = .fatal from fatal] at kind
        exact Traffic.noConfusion kind
    have holds : regime.Holds state :=
      ⟨configured, fun other queued => .inl (queue ▸ queued), fun _ _ => trivial⟩
    have arriving : ∀ n, ∀ other ∈ (repeatingEnv frame).arrivals n, regime.frames other :=
      fun _ _ arrived => .inr (mem_singleton.mp arrived)
    exact (Regime.poll_maintains arriving sound fuel state holds).2 panicked
  cases bound with
  | zero =>
    have cut : pollCut (repeatingEnv frame) (throw .panic) 1 0 state = .error .panic := rfl
    exact safe 1 ((nests (throw .panic) 1).symm.trans cut)
  | succ depth =>
    have arrived : (state.arrive (repeatingEnv frame)).rxQueue = lessons ++ [frame] :=
      congrArg (· ++ [frame]) queue
    refine safe (lessons.length + (depth + 1) + 1) ((nests (throw .panic) _).symm.trans ?_)
    obtain ⟨after, drains, afterConfig, afterUp, afterQueue, afterCache⟩ :=
      drain_learns (repeatingEnv frame)
        (pollCut (repeatingEnv frame) (throw .panic) (lessons.length + (depth + 1)) depth)
        (lessons.length + (depth + 1)) (depth + 1) teaching
        (show (state.arrive (repeatingEnv frame)).config = config from configured) arrived
    have cache : after.arpCache = (lessons.foldl (NetState.learn config) state).arpCache :=
      afterCache.trans (foldl_learn_congr config lessons rfl)
    have taken : Exposed config (nextHop config srcIp)
        (statRx frame.length { after with rxQueue := [] }) :=
      ⟨afterConfig, afterUp.trans up, (lookup_congr cache _).trans unknown⟩
    rw [pollCut_of_up up, drains, drain_cons afterQueue]
    exact bind_of_error (processFrameWith_polls kind taken rfl
      (fun now => pollCut_panics kind (by omega)) (lessons.length + depth)) _

end Unbounded

/-- The depth of nested polls is bounded exactly if, whatever the received frames teach, each echo
request among them has a next hop with a cached address. -/
theorem nesting_bounded_iff (state : NetState) (frames : Bytes → Prop) :
    (∃ bound, ∀ env other, other.config = state.config → other.arpCache = state.arpCache →
        Receives env other frames → NestsAtMost bound env other) ↔
      Resolves state frames := by
  constructor
  · rintro ⟨bound, nests⟩ lessons valid frame srcIp message received kind unknown
    -- The lessons are queued when the first poll delivers the request.
    obtain ⟨other, isOther⟩ :
        ∃ other : NetState, other = { state with up := true, rxQueue := lessons } := ⟨_, rfl⟩
    have sameConfig : other.config = state.config := by rw [isOther]
    have sameCache : other.arpCache = state.arpCache := by rw [isOther]
    have up : other.up = true := by rw [isOther]
    have queue : other.rxQueue = lessons := by rw [isOther]
    have receives : Receives (repeatingEnv frame) other frames := by
      refine ⟨fun lesson listed => (valid lesson (queue ▸ listed)).1, fun _ next arrived => ?_⟩
      rw [mem_singleton.mp arrived]
      exact received
    rw [lookup_congr (foldl_learn_congr state.config lessons sameCache.symm)] at unknown
    exact not_nestsAtMost kind (fun lesson listed => (valid lesson listed).2) sameConfig up queue
      unknown bound (nests _ other sameConfig sameCache receives)
  · intro resolves
    exact ⟨1, fun env other sameConfig sameCache receives =>
      nestsAtMost_one resolves sameConfig sameCache receives⟩

/-- An echo request of 10.0.2.3. -/
def pingOfHost : Bytes :=
  buildFrame exampleMac broadcastMac .ipv4
    ([0x45, 0x00, 0x00, 0x1C, 0, 0, 0, 0, 64, 1, 0x62, 0xD0, 10, 0, 2, 3, 10, 0, 2, 15] ++
      [8, 0, 0xF7, 0xF1, 0, 7, 0, 7])

/-- Echo requests of a single host nest polls beyond every bound. -/
theorem nesting_unbounded : ¬ ∃ bound, ∀ env state, NestsAtMost bound env state := by
  rintro ⟨bound, nests⟩
  have kind : traffic (NetConfig.new exampleMac) pingOfHost =
      .echoRequest ⟨[10, 0, 2, 3], rfl⟩ [8, 0, 0xF7, 0xF1, 0, 7, 0, 7] := by rfl
  have unknown : (NetState.init exampleMac).lookup
      (nextHop (NetConfig.new exampleMac) ⟨[10, 0, 2, 3], rfl⟩) = none := by
    decide +kernel
  have nothing : ∀ lesson ∈ ([] : List Bytes), Teaches (NetConfig.new exampleMac) lesson :=
    fun _ listed => absurd listed not_mem_nil
  exact not_nestsAtMost kind nothing rfl rfl rfl unknown bound
    (nests (repeatingEnv pingOfHost) (NetState.init exampleMac))

end CantayaOS.Net
