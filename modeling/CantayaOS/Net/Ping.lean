import CantayaOS.Net.PanicFree

/-!
# Pings

A ping sends an echo request and polls until an echo reply is waiting.  It does
not compare the reply with the request, so any echo reply that is received
during the call is taken for its answer.
-/

namespace CantayaOS.Net

open Lib Lib.Checked List

/-- The identifier of the echo requests of this host. -/
def pingId : UInt16 := 0xCA05

/-- An echo request with its checksum still zero. -/
def echoRequest (seq : UInt16) : Bytes :=
  [icmpEchoRequest, 0, 0, 0] ++ toBeBytes pingId ++ toBeBytes seq ++
    (List.range 56).map UInt8.ofNat

def sendEchoRequest (env : NetEnv) (fuel : Nat) (dstIp : Ip) : NetM UInt16 := do
  let seq := (← get).icmpSeq
  modify fun state => { state with icmpSeq := seq + 1 }
  let cksum ← checksum (echoRequest seq)
  let icmp ← overwrite (echoRequest seq) 2 (toBeBytes cksum)
  modify fun state => { state with pingReply := none }
  modify (NetState.count fun stats => { stats with icmpSent := stats.icmpSent + 1 })
  ipv4Send env (poll env fuel) fuel dstIp protoIcmp icmp
  return seq

def takePingReply : NetM (Option PingReply) := do
  let reply := (← get).pingReply
  modify fun state => { state with pingReply := none }
  return reply

/-- The tick counter at each reading during a ping, and its rate. -/
structure PingClock where
  ticks : Nat → UInt64
  rateHz : UInt32

def ticksToMs (clock : PingClock) (ticks : UInt64) : UInt64 :=
  if clock.rateHz.toUInt64 = 0 then 0 else ticks * 1000 / clock.rateHz.toUInt64

section Command

variable (env : NetEnv) (clock : PingClock)

/-- Poll until an echo reply is waiting or the time is up. -/
def awaitEcho (fuel : Nat) (timeoutMs start : UInt64) :
    Nat → Nat → NetM (Option (UInt64 × PingReply))
  | _, 0 => throw .outOfFuel
  | reading, rounds + 1 => do
      poll env fuel
      let elapsed := clock.ticks reading - start
      match ← takePingReply with
      | some reply => return some (ticksToMs clock elapsed, reply)
      | none =>
        if ticksToMs clock elapsed > timeoutMs then return none
        else awaitEcho fuel timeoutMs start (reading + 1) rounds

def ping (fuel : Nat) (dstIp : Ip) (timeoutMs : UInt64) : NetM (Option (UInt64 × PingReply)) := do
  let _seq ← sendEchoRequest env fuel dstIp
  awaitEcho env clock fuel timeoutMs (clock.ticks 0) 1 fuel

end Command

/-- The reply comes from the host and answers the echo request with the sequence number. -/
structure Answers (dstIp : Ip) (seq : UInt16) (reply : PingReply) : Prop where
  source : reply.srcIp = dstIp
  identifier : reply.id = pingId
  sequence : reply.seq = seq

/-- Every frame that is queued or arrives is one of the frames. -/
structure Receives (env : NetEnv) (state : NetState) (frames : Bytes → Prop) : Prop where
  queued : ∀ frame ∈ state.rxQueue, frames frame
  arriving : ∀ n, ∀ frame ∈ env.arrivals n, frames frame

/-- Only replies that answer the request may be waiting. -/
def expecting (config : NetConfig) (frames : Bytes → Prop) (dstIp : Ip) (seq : UInt16) :
    Regime where
  config := config
  frames := frames
  replies := Answers dstIp seq
  panics := True

variable {state : NetState} {reply : PingReply}

/-- The reply to an echo request repeats its identifier, sequence number and data, and the host that
gets it takes it for the answer. -/
theorem sendEchoReply_accepted (env requesting : NetEnv) (state requester : NetState)
    (dstIp srcIp : Ip) {request : Bytes} (long : 8 ≤ request.length) :
    ∃ reply sending accepted,
      (∀ poll fuel, sendEchoReply env poll fuel dstIp request state =
        ipv4Send env poll fuel dstIp protoIcmp reply sending) ∧
      reply.take 2 = [0, 0] ∧ reply.drop 4 = request.drop 4 ∧
      (∀ poll fuel,
        processIcmp requesting poll fuel reply srcIp requester = .ok ((), accepted)) ∧
      accepted.pingReply = some {
        srcIp
        seq := be16 (request.getD 6 0) (request.getD 7 0)
        id := be16 (request.getD 4 0) (request.getD 5 0)
        dataLen := request.length - 8
        ttl := 0 } := by
  obtain ⟨cksum, checks, sends⟩ := sendEchoReply_eq env state dstIp long
  have length : (echoReply request cksum).length = request.length := by
    simp only [echoReply, length_append, length_toBeBytes, length_drop, length_cons, length_nil]
    omega
  have digests := processIcmp_digests requesting requester srcIp (echoReply request cksum)
  have type : (echoReply request cksum).getD 0 0 = icmpEchoReply := rfl
  rw [icmpTraffic, length, type, if_neg (not_or.mpr ⟨by omega, not_not.mpr checks⟩), if_neg (by
    decide)] at digests
  obtain ⟨accepted, alike, ends⟩ := digests
  refine ⟨_, _, accepted, sends, rfl, rfl, ends, alike.pingReply.trans ?_⟩
  simp [echoReply, toBeBytes]

/-- An echo request with one byte of data. -/
def shortRequest : Bytes := [8, 0, 0x53, 0xBD, 0x43, 0x41, 0, 1, 0x61]

theorem sendEchoReply_accepted_short :
    shortRequest.length = 9 ∧ checksum shortRequest = .ok 0 ∧ ∃ reply accepted,
      reply.drop 4 = shortRequest.drop 4 ∧ ∀ poll fuel,
        processIcmp silentEnv poll fuel reply broadcastIp (NetState.init exampleMac) =
          .ok ((), accepted) := by
  obtain ⟨reply, sending, accepted, -, -, same, ends, -⟩ :=
    sendEchoReply_accepted silentEnv silentEnv (NetState.init exampleMac)
      (NetState.init exampleMac) broadcastIp broadcastIp (show 8 ≤ shortRequest.length by decide)
  exact ⟨rfl, by decide, reply, accepted, same, ends⟩

theorem echoRequest_checked (seq : UInt16) :
    ∃ cksum message, checksum (echoRequest seq) = .ok cksum ∧
      overwrite (echoRequest seq) 2 (toBeBytes cksum) = .ok message := by
  obtain ⟨cksum, computed⟩ := checksum_total (echoRequest seq)
  refine ⟨cksum, _, computed, overwrite_ok ?_⟩
  simp [echoRequest]

def NetState.beginPing (state : NetState) : NetState :=
  ({ state with icmpSeq := state.icmpSeq + 1, pingReply := none } : NetState).count fun stats =>
    { stats with icmpSent := stats.icmpSent + 1 }

theorem sendEchoRequest_eq (env : NetEnv) (fuel : Nat) (dstIp : Ip) (state : NetState) :
    ∃ message, sendEchoRequest env fuel dstIp state =
      (ipv4Send env (poll env fuel) fuel dstIp protoIcmp message >>= fun _ =>
        pure state.icmpSeq) state.beginPing := by
  obtain ⟨cksum, message, computed, written⟩ := echoRequest_checked state.icmpSeq
  refine ⟨message, ?_⟩
  rw [sendEchoRequest, bind_get, bind_modify, bind_lift_ok computed, bind_lift_ok written,
    bind_modify, bind_modify]
  rfl

variable {fuel : Nat} {rtt timeoutMs : UInt64} {after : NetState} {frame : Bytes}

section Expecting

variable {env : NetEnv} {clock : PingClock} {regime : Regime} (sound : regime.Sound)
  (arriving : ∀ n, ∀ frame ∈ env.arrivals n, regime.frames frame)
include sound arriving

/-- A wait that starts in the regime returns only a reply that may be waiting. -/
theorem awaitEcho_returns {start : UInt64} {reading rounds : Nat} (holds : regime.Holds state)
    (returned : awaitEcho env clock fuel timeoutMs start reading rounds state =
      .ok (some (rtt, reply), after)) : regime.replies reply := by
  induction rounds generalizing reading state with
  | zero => nomatch returned
  | succ rounds ih =>
    cases polled : poll env fuel state with
    | error fault =>
      rw [awaitEcho, bind_of_error polled] at returned
      nomatch returned
    | ok result =>
      obtain ⟨_, later⟩ := result
      have laterHolds := (Regime.poll_maintains arriving sound fuel state holds).1 _ later polled
      have taken : takePingReply later =
          .ok (later.pingReply, { later with pingReply := none }) := rfl
      rw [awaitEcho, bind_of_ok polled, bind_of_ok taken] at returned
      cases waiting : later.pingReply with
      | some other =>
        rw [waiting] at returned
        have same : other = reply :=
          (Prod.mk.inj (Option.some.inj (Prod.mk.inj (Except.ok.inj returned)).1)).2
        rw [← same]
        exact laterHolds.reply other waiting
      | none =>
        rw [waiting] at returned
        dsimp only at returned
        split at returned
        · nomatch returned
        · have cleared : regime.Holds { later with pingReply := none } :=
            ⟨laterHolds.config, laterHolds.queued, nofun⟩
          exact ih cleared returned

theorem ping_returns {dstIp : Ip} (configured : state.config = regime.config)
    (queued : ∀ frame ∈ state.rxQueue, regime.frames frame)
    (returned : ping env clock fuel dstIp timeoutMs state = .ok (some (rtt, reply), after)) :
    regime.replies reply := by
  have begun : regime.Holds state.beginPing := ⟨configured, queued, nofun⟩
  obtain ⟨message, sending⟩ := sendEchoRequest_eq env fuel dstIp state
  have sends : regime.Maintains (ipv4Send env (poll env fuel) fuel dstIp protoIcmp message) :=
    Regime.ipv4Send_maintains (Regime.poll_maintains arriving sound fuel) fuel dstIp _ message
  cases sent : sendEchoRequest env fuel dstIp state with
  | error fault =>
    rw [ping, bind_of_error sent] at returned
    nomatch returned
  | ok result =>
    obtain ⟨seq, later⟩ := result
    rw [ping, bind_of_ok sent] at returned
    rw [sending] at sent
    have ends := sends.andThen (fun _ => Regime.Maintains.done state.icmpSeq) _ begun
    exact awaitEcho_returns sound arriving (ends.1 seq later sent) returned

end Expecting

/-- A host that has the address of the next hop to another host in its cache. -/
def acquainted (config : NetConfig) (dstIp : Ip) (seq : UInt16) : NetState :=
  { NetState.init config.mac with
    config := config
    icmpSeq := seq
    arpCache := fun _ => ⟨nextHop config dstIp, broadcastMac, true⟩ }

theorem lookup_acquainted (config : NetConfig) (dstIp : Ip) (seq : UInt16) :
    (acquainted config dstIp seq).lookup (nextHop config dstIp) = some broadcastMac := by
  rw [NetState.lookup]
  cases found : (List.finRange arpCacheSize).find? fun i =>
      ((acquainted config dstIp seq).arpCache i).valid &&
        ((acquainted config dstIp seq).arpCache i).ip == nextHop config dstIp with
  | some slot => rfl
  | none =>
    have missed := find?_eq_none.mp found ⟨0, by decide⟩ (mem_finRange _)
    exact absurd (by simp [acquainted]) missed

/-- A driver that delivers one frame at every poll. -/
def repeatingEnv (frame : Bytes) : NetEnv := ⟨fun _ => [frame], fun _ => true⟩

theorem poll_echoReply (fuel : Nat) (up : state.up = true)
    (empty : state.rxQueue = []) (kind : traffic state.config frame = .echoReply reply) :
    ∃ after, poll (repeatingEnv frame) (fuel + 3) state = .ok ((), after) ∧
      after.pingReply = some reply := by
  have queue : (state.arrive (repeatingEnv frame)).rxQueue = [frame] :=
    congrArg (· ++ [frame]) empty
  generalize isTaken : NetState.statRx frame.length
    { state.arrive (repeatingEnv frame) with rxQueue := [] } = taken
  have digests := processFrameWith_digests (repeatingEnv frame) taken frame
  have sameConfig : taken.config = state.config := by rw [← isTaken]; rfl
  rw [sameConfig, kind] at digests
  obtain ⟨after, alike, processed⟩ := digests
  have drained : after.rxQueue = [] := by
    rw [alike.rxQueue, ← isTaken]
    rfl
  refine ⟨after, ?_, alike.pingReply⟩
  rw [poll_of_up up, drain_cons queue, isTaken, bind_of_ok (processed _ _), drain_nil drained]

theorem ping_any_reply {config : NetConfig}
    (kind : traffic config frame = .echoReply reply) (clock : PingClock) (dstIp : Ip)
    (seq : UInt16) (timeoutMs : UInt64) :
    ∃ rtt after, ping (repeatingEnv frame) clock 3 dstIp timeoutMs (acquainted config dstIp seq) =
      .ok (some (rtt, reply), after) := by
  obtain ⟨message, sending⟩ :=
    sendEchoRequest_eq (repeatingEnv frame) 3 dstIp (acquainted config dstIp seq)
  have cached : (acquainted config dstIp seq).beginPing.lookup (nextHop config dstIp) =
      some broadcastMac := lookup_acquainted config dstIp seq
  obtain ⟨later, alike, sent⟩ := ipv4Send_alike (repeatingEnv frame) protoIcmp message cached
  have laterKind : traffic later.config frame = .echoReply reply := by
    rw [alike.config]
    exact kind
  obtain ⟨after, polled, waiting⟩ := poll_echoReply 0 alike.up alike.rxQueue laterKind
  have taken : takePingReply after = .ok (some reply, { after with pingReply := none }) := by
    rw [← waiting]
    rfl
  rw [bind_of_ok (sent _ _)] at sending
  refine ⟨ticksToMs clock (clock.ticks 1 - clock.ticks 0), { after with pingReply := none }, ?_⟩
  rw [ping, bind_of_ok sending, awaitEcho, bind_of_ok polled, bind_of_ok taken]
  rfl

/-- A ping of a host returns only replies of that host to its own request exactly if no other echo
reply for this host is among the frames that are received. -/
theorem ping_answered_iff (config : NetConfig) (dstIp : Ip) (seq : UInt16) (frames : Bytes → Prop) :
    (∀ env clock state fuel timeoutMs rtt reply after, state.config = config →
        state.icmpSeq = seq → Receives env state frames →
        ping env clock fuel dstIp timeoutMs state = .ok (some (rtt, reply), after) →
        Answers dstIp seq reply) ↔
      ∀ frame reply, frames frame → traffic config frame = .echoReply reply →
        Answers dstIp seq reply := by
  constructor
  · intro answered frame reply received kind
    obtain ⟨rtt, after, returned⟩ := ping_any_reply kind ⟨fun _ => 0, 0⟩ dstIp seq 0
    have receives : Receives (repeatingEnv frame) (acquainted config dstIp seq) frames := by
      refine ⟨fun _ queued => absurd queued not_mem_nil, fun n other arrived => ?_⟩
      rw [mem_singleton.mp arrived]
      exact received
    exact answered _ _ _ _ _ rtt reply after rfl rfl receives returned
  · intro matching env clock state fuel timeoutMs rtt reply after configured _ receives returned
    have sound : (expecting config frames dstIp seq).Sound := ⟨fun _ _ _ => trivial, matching⟩
    exact ping_returns sound receives.arriving configured receives.queued returned

/-- An echo reply of 10.0.2.3 with identifier and sequence number 7. -/
def strayReply : Bytes :=
  buildFrame exampleMac broadcastMac .ipv4
    ([0x45, 0x00, 0x00, 0x1C, 0, 0, 0, 0, 64, 1, 0x62, 0xD0, 10, 0, 2, 3, 10, 0, 2, 15] ++
      [0, 0, 0xFF, 0xF1, 0, 7, 0, 7])

/-- The first ping of the gateway returns a reply of another host to another request. -/
theorem ping_returns_stray_reply :
    ∃ rtt reply after,
      ping (repeatingEnv strayReply) ⟨fun _ => 0, 1000⟩ 3 ⟨[10, 0, 2, 2], rfl⟩ 1000
          (acquainted (NetConfig.new exampleMac) ⟨[10, 0, 2, 2], rfl⟩ 1) =
        .ok (some (rtt, reply), after) ∧
      ¬ Answers ⟨[10, 0, 2, 2], rfl⟩ 1 reply := by
  have kind : traffic (NetConfig.new exampleMac) strayReply =
      .echoReply ⟨⟨[10, 0, 2, 3], rfl⟩, 7, 7, 0, 0⟩ := by rfl
  obtain ⟨rtt, after, returned⟩ :=
    ping_any_reply kind ⟨fun _ => 0, 1000⟩ ⟨[10, 0, 2, 2], rfl⟩ 1 1000
  exact ⟨rtt, _, after, returned, fun answers => absurd answers.sequence (by decide)⟩

end CantayaOS.Net
