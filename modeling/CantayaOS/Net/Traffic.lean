import CantayaOS.Net.Codec
import CantayaOS.Net.Stack

/-!
# What a received frame is to the stack

Every length is checked before it is used, except that an IPv4 header may give
a total length below its own header length.  A frame with such a header panics
the kernel; any other one teaches an address, asks for an echo, answers one, or
changes nothing but counters and sockets.
-/

namespace CantayaOS.Net

open Lib Lib.Checked List Ipv4Packet EthernetFrame

/-! ## IPv4 headers -/

/-- The header length that the first byte of a packet gives. -/
def headerLenField (data : Bytes) : Nat := (data.getD 0 0 &&& 0x0F).toNat * 4

/-- The total length that a packet's header gives. -/
def totalLenField (data : Bytes) : Nat := (be16 (data.getD 2 0) (data.getD 3 0)).toNat

/-- A complete IPv4 header with a correct checksum whose total length ends inside the header. -/
structure EndsInHeader (data : Bytes) : Prop where
  long : 20 ≤ data.length
  version : data.getD 0 0 >>> 4 = 4
  minimal : 20 ≤ headerLenField data
  complete : headerLenField data ≤ data.length
  checked : checksum (data.take (headerLenField data)) = .ok 0
  short : totalLenField data < headerLenField data

variable {data : Bytes} {poll : NetM Unit} {dstIp : Ip}

variable {headerLen totalLen : Nat} {env : NetEnv} {protocol : UInt8} {packet payload : Bytes}
  {dstMac : Mac} {config : NetConfig}

/-- Behind a header of 20 bytes only the slice of the payload can fail. -/
theorem Ipv4Packet.readFields_eq (long : 20 ≤ data.length) (headerLen totalLen : Nat) :
    ∃ packet : Bytes → Ipv4Packet, readFields data headerLen totalLen =
      slice data headerLen totalLen >>= fun payload => .ok (packet payload) := by
  obtain ⟨srcIp, -, source⟩ :=
    octets_slice_ok (show 12 + 4 = 16 from rfl) (show 16 ≤ data.length by omega)
  obtain ⟨dstIp, -, destination⟩ := octets_slice_ok (show 16 + 4 = 20 from rfl) long
  rw [readFields, readU16_ok (by omega), index_ok (by omega), index_ok (by omega), source,
    destination]
  exact ⟨_, rfl⟩

theorem Ipv4Packet.readFields_ok
    (long : 20 ≤ data.length) (ordered : headerLen ≤ totalLen) (inside : totalLen ≤ data.length) :
    ∃ packet, readFields data headerLen totalLen = .ok packet := by
  obtain ⟨packet, read⟩ := readFields_eq long headerLen totalLen
  exact ⟨_, read.trans (by rw [slice_ok ordered inside, ok_bind])⟩

theorem Ipv4Packet.readFields_panics (long : 20 ≤ data.length) (reversed : totalLen < headerLen) :
    readFields data headerLen totalLen = .error .panic := by
  obtain ⟨packet, read⟩ := readFields_eq long headerLen totalLen
  rw [read, slice_panic reversed]
  rfl

theorem Ipv4Packet.parse_of_long (long : 20 ≤ data.length) :
    parse data =
      if data.getD 0 0 >>> 4 ≠ 4 then .ok none
      else if headerLenField data < 20 ∨ data.length < headerLenField data then .ok none
      else if data.length < totalLenField data then .ok none
      else do
        let cksum ← slice data 0 (headerLenField data) >>= checksum
        if cksum ≠ 0 then return none
        return some (← readFields data (headerLenField data) (totalLenField data)) := by
  rw [parse, if_neg (by omega), index_ok (by omega), readU16_ok (by omega)]
  rfl

theorem Ipv4Packet.parse_panics (ends : EndsInHeader data) : parse data = .error .panic := by
  have long := ends.long
  have minimal := ends.minimal
  have complete := ends.complete
  have short := ends.short
  rw [parse_of_long long, if_neg (not_not.mpr ends.version), if_neg (by omega), if_neg (by omega),
    slice_ok (by omega) complete, ok_bind, drop_zero, ends.checked, ok_bind, readFields_panics
    long short]
  rfl

theorem Ipv4Packet.parse_total (sound : ¬ EndsInHeader data) :
    ∃ packet, parse data = .ok packet := by
  by_cases long : 20 ≤ data.length
  case neg =>
    rw [parse, if_pos (by omega)]
    exact ⟨none, rfl⟩
  rw [parse_of_long long]
  split
  · exact ⟨none, rfl⟩
  split
  · exact ⟨none, rfl⟩
  split
  · exact ⟨none, rfl⟩
  next version header total =>
  obtain ⟨value, computed⟩ := checksum_total (data.take (headerLenField data))
  rw [slice_ok (by omega) (by omega), ok_bind, drop_zero, computed, ok_bind]
  split
  · exact ⟨none, rfl⟩
  next zero =>
  have ordered : headerLenField data ≤ totalLenField data := by
    by_contra reversed
    rw [not_not.mp zero] at computed
    exact sound ⟨long, not_not.mp version, by omega, by omega, computed, by omega⟩
  obtain ⟨packet, read⟩ := readFields_ok long ordered (by omega)
  rw [read]
  exact ⟨some packet, rfl⟩

/-- A frame for this host that carries an IPv4 header that ends in itself. -/
structure Crashing (config : NetConfig) (frame : Bytes) : Prop where
  long : 14 ≤ frame.length
  addressed : frame.take 6 = config.mac.val ∨ frame.take 6 = broadcastMac.val
  ipv4 : be16 (frame.getD 12 0) (frame.getD 13 0) = 0x0800
  packet : EndsInHeader (frame.drop 14)

theorem EthernetFrame.parse_of_long (long : 14 ≤ data.length) :
    ∃ frame, parse data = .ok (some frame) ∧ frame.dstMac.val = data.take 6 ∧
      frame.ethertype = EtherType.fromU16 (be16 (data.getD 12 0) (data.getD 13 0)) ∧
      frame.payload = data.drop 14 := by
  obtain ⟨dstMac, isDst, destination⟩ :=
    octets_slice_ok (show 0 + 6 = 6 from rfl) (show 6 ≤ data.length by omega)
  obtain ⟨srcMac, -, source⟩ :=
    octets_slice_ok (show 6 + 6 = 12 from rfl) (show 12 ≤ data.length by omega)
  rw [parse, if_neg (by omega), destination, source, readU16_ok (by omega),
    slice_ok long le_rfl, take_length]
  exact ⟨_, rfl, isDst, rfl, rfl⟩

theorem EtherType.fromU16_eq_ipv4_iff (value : UInt16) :
    EtherType.fromU16 value = .ipv4 ↔ value = 0x0800 := by
  rw [fromU16]
  split
  next isIpv4 => simp [isIpv4]
  next notIpv4 => split <;> simp [notIpv4]

variable {state : NetState}

/-- A crashing frame panics the kernel at once, whatever its state. -/
theorem processFrameWith_panics (env : NetEnv) (poll : NetM Unit) (fuel : Nat)
    (crashing : Crashing state.config data) :
    processFrameWith env poll fuel data state = .error .panic := by
  obtain ⟨frame, parsed, isDst, isType, isPayload⟩ := parse_of_long crashing.long
  have isIpv4 : frame.ethertype = .ipv4 := by
    rw [isType, EtherType.fromU16_eq_ipv4_iff]
    exact crashing.ipv4
  have forUs : ¬ (frame.dstMac ≠ state.config.mac ∧ frame.dstMac ≠ broadcastMac) := by
    rintro ⟨notOurs, notAll⟩
    rcases crashing.addressed with ours | all
    · exact notOurs (Subtype.ext (isDst.trans ours))
    · exact notAll (Subtype.ext (isDst.trans all))
  have panics := parse_panics crashing.packet
  rw [← isPayload] at panics
  rw [processFrameWith, bind_lift_ok parsed]
  dsimp only
  rw [bind_get, if_neg forUs, isIpv4]
  exact bind_lift_error panics _ state

inductive Traffic where
  | arp (senderIp : Ip) (senderMac : Mac)
  | echoRequest (srcIp : Ip) (message : Bytes)
  | echoReply (reply : PingReply)
  | fatal
  | other

/-- An ARP packet teaches the address of its sender. -/
def arpTraffic (payload : Bytes) : Traffic :=
  if payload.length < 28 ∨ be16 (payload.getD 0 0) (payload.getD 1 0) ≠ arpHwEthernet ∨
      be16 (payload.getD 2 0) (payload.getD 3 0) ≠ arpProtoIpv4 ∨
      payload.getD 4 0 ≠ 6 ∨ payload.getD 5 0 ≠ 4 then .other
  else
    match octets 6 ((payload.take 14).drop 8), octets 4 ((payload.take 18).drop 14) with
    | .ok senderMac, .ok senderIp => .arp senderIp senderMac
    | _, _ => .other

/-- An ICMP message with a correct checksum asks for an echo or answers one. -/
def icmpTraffic (srcIp : Ip) (message : Bytes) : Traffic :=
  if message.length < 8 ∨ checksum message ≠ .ok 0 then .other
  else if message.getD 0 0 = icmpEchoRequest then .echoRequest srcIp message
  else if message.getD 0 0 = icmpEchoReply then
    .echoReply {
      srcIp
      seq := be16 (message.getD 6 0) (message.getD 7 0)
      id := be16 (message.getD 4 0) (message.getD 5 0)
      dataLen := message.length - 8
      ttl := 0 }
  else .other

def ipv4Traffic (config : NetConfig) (data : Bytes) : Traffic :=
  match Ipv4Packet.parse data with
  | .error _ => .fatal
  | .ok none => .other
  | .ok (some packet) =>
    if packet.dstIp ≠ config.ip ∧ packet.dstIp ≠ broadcastIp then .other
    else if packet.protocol = protoIcmp then icmpTraffic packet.srcIp packet.payload
    else .other

def traffic (config : NetConfig) (data : Bytes) : Traffic :=
  match EthernetFrame.parse data with
  | .ok (some frame) =>
    if frame.dstMac ≠ config.mac ∧ frame.dstMac ≠ broadcastMac then .other
    else
      match frame.ethertype with
      | .arp => arpTraffic frame.payload
      | .ipv4 => ipv4Traffic config frame.payload
      | .unknown _ => .other
  | _ => .other

/-! ## What each kind does -/

/-- The states differ at most in counters, sockets and the frames sent. -/
structure Alike (before after : NetState) : Prop where
  config : after.config = before.config
  up : after.up = before.up
  arpCache : after.arpCache = before.arpCache
  icmpSeq : after.icmpSeq = before.icmpSeq
  pingReply : after.pingReply = before.pingReply
  rxQueue : after.rxQueue = before.rxQueue
  polls : after.polls = before.polls

theorem Alike.refl (state : NetState) : Alike state state := ⟨rfl, rfl, rfl, rfl, rfl, rfl, rfl⟩

theorem Alike.trans {first second third : NetState} (one : Alike first second)
    (two : Alike second third) : Alike first third :=
  ⟨two.config.trans one.config, two.up.trans one.up, two.arpCache.trans one.arpCache,
    two.icmpSeq.trans one.icmpSeq, two.pingReply.trans one.pingReply,
    two.rxQueue.trans one.rxQueue, two.polls.trans one.polls⟩

theorem Alike.count (change : NetStats → NetStats) (state : NetState) :
    Alike state (state.count change) := ⟨rfl, rfl, rfl, rfl, rfl, rfl, rfl⟩

theorem Alike.deliver (datagram : UdpDatagram) (state : NetState) :
    Alike state (state.deliver datagram) := by
  rw [NetState.deliver]
  cases state.sockets datagram.dstPort with
  | none => exact Alike.refl state
  | some queue =>
    dsimp only
    split <;> exact ⟨rfl, rfl, rfl, rfl, rfl, rfl, rfl⟩

theorem sendRaw_alike (frame : Bytes) (state : NetState) :
    ∃ after, sendRaw frame state = .ok ((), after) ∧ Alike state after := by
  rw [sendRaw, bind_get]
  cases state.up with
  | false => exact ⟨state, rfl, Alike.refl state⟩
  | true =>
    refine ⟨_, rfl, ?_⟩
    have counted : Alike state (state.statTx frame.length) := Alike.count _ state
    refine counted.trans ?_
    rw [NetState.sendFrame]
    split <;> exact ⟨rfl, rfl, rfl, rfl, rfl, rfl, rfl⟩

theorem buildPacket_total (srcIp dstIp : Ip) (id : UInt16) (protocol : UInt8) (payload : Bytes) :
    ∃ packet, buildPacket srcIp dstIp id protocol payload = .ok packet := by
  obtain ⟨cksum, built, -⟩ := buildPacket_eq srcIp dstIp id protocol payload
  exact ⟨_, built⟩

/-- The host on this subnet to which a packet for an address is handed. -/
def nextHop (config : NetConfig) (dstIp : Ip) : Ip :=
  if isSameSubnet config.ip dstIp config.netmask then dstIp else config.gateway

theorem resolveBlocking_of_cached {ip : Ip}
    {mac : Mac} (fuel : Nat) (cached : state.lookup ip = some mac) :
    resolveBlocking env poll fuel ip state = .ok (some mac, state) := by
  rw [resolveBlocking, bind_get, cached]
  rfl

theorem ipv4Send_of_built (fuel : Nat)
    (built : buildPacket state.config.ip dstIp state.ipId protocol payload = .ok packet) :
    ipv4Send env poll fuel dstIp protocol payload state =
      (resolveBlocking env poll fuel (nextHop state.config dstIp) >>= fun reply =>
        match reply with
        | none => pure ()
        | some dstMac => sendRaw (buildFrame dstMac state.config.mac .ipv4 packet))
        { state with ipId := state.ipId + 1 } := by
  rw [ipv4Send, bind_get, bind_get, bind_modify, bind_lift_ok built]
  rfl

theorem ipv4Send_of_resolved (fuel : Nat)
    (cached : state.lookup (nextHop state.config dstIp) = some dstMac)
    (built : buildPacket state.config.ip dstIp state.ipId protocol payload = .ok packet) :
    ipv4Send env poll fuel dstIp protocol payload state =
      sendRaw (buildFrame dstMac state.config.mac .ipv4 packet)
        { state with ipId := state.ipId + 1 } := by
  have known : NetState.lookup { state with ipId := state.ipId + 1 }
      (nextHop state.config dstIp) = some dstMac := cached
  rw [ipv4Send_of_built fuel built, bind_of_ok (resolveBlocking_of_cached fuel known)]

theorem ipv4Send_alike (env : NetEnv) (protocol : UInt8)
    (payload : Bytes) (cached : state.lookup (nextHop state.config dstIp) = some dstMac) :
    ∃ after, Alike state after ∧
      ∀ poll fuel, ipv4Send env poll fuel dstIp protocol payload state = .ok ((), after) := by
  obtain ⟨packet, built⟩ := buildPacket_total state.config.ip dstIp state.ipId protocol payload
  obtain ⟨after, sent, alike⟩ := sendRaw_alike (buildFrame dstMac state.config.mac .ipv4 packet)
    { state with ipId := state.ipId + 1 }
  have moved : Alike state { state with ipId := state.ipId + 1 } :=
    ⟨rfl, rfl, rfl, rfl, rfl, rfl, rfl⟩
  refine ⟨after, moved.trans alike, fun poll fuel => ?_⟩
  rw [ipv4Send_of_resolved fuel cached built, sent]

namespace NetState

def receiveIcmp : NetState → NetState :=
  count fun stats => { stats with icmpReceived := stats.icmpReceived + 1 }

def sendIcmp : NetState → NetState :=
  count fun stats => { stats with icmpSent := stats.icmpSent + 1 }

end NetState

/-- The message that answers an echo request. -/
def echoReply (request : Bytes) (cksum : UInt16) : Bytes :=
  [icmpEchoReply, 0] ++ (toBeBytes cksum ++ request.drop 4)

/-- Answering an echo request sends a reply with a correct checksum. -/
theorem sendEchoReply_eq (env : NetEnv) (state : NetState) (dstIp : Ip) {request : Bytes}
    (long : 8 ≤ request.length) :
    ∃ cksum, checksum (echoReply request cksum) = .ok 0 ∧ ∀ poll fuel,
      sendEchoReply env poll fuel dstIp request state =
        ipv4Send env poll fuel dstIp protoIcmp (echoReply request cksum) state.sendIcmp := by
  obtain ⟨cksum, computed⟩ := checksum_total ([icmpEchoReply, 0] ++ ([0, 0] ++ request.drop 4))
  have written : overwrite ([icmpEchoReply, 0, 0, 0] ++ request.drop 4) 2 (toBeBytes cksum) = _ :=
    overwrite_append [icmpEchoReply, 0] (request.drop 4) [0, 0] (toBeBytes cksum) rfl rfl
  refine ⟨cksum, checksum_filled (by simp) computed, fun poll fuel => ?_⟩
  rw [sendEchoReply, bind_lift_ok (slice_ok (by omega) le_rfl), take_length,
    bind_lift_ok (show checksum ([icmpEchoReply, 0, 0, 0] ++ _) = _ from computed),
    bind_lift_ok written, bind_modify]
  rfl

/-- The outcome of a program, given what it does to poll the driver, is what the kind of a frame
says of the state. -/
def Digests (env : NetEnv) (state : NetState)
    (outcome : NetM Unit → Nat → Except Fault (Unit × NetState)) : Traffic → Prop
  | .arp senderIp senderMac =>
    ∃ after, Alike (state.insert senderIp senderMac) after ∧
      ∀ poll fuel, outcome poll fuel = .ok ((), after)
  | .echoRequest srcIp message =>
    8 ≤ message.length ∧ ∀ poll fuel, outcome poll fuel =
      sendEchoReply env poll fuel srcIp message state.receiveIcmp
  | .echoReply reply =>
    ∃ after, Alike { state with pingReply := some reply } after ∧
      ∀ poll fuel, outcome poll fuel = .ok ((), after)
  | .fatal => ∀ poll fuel, outcome poll fuel = .error .panic
  | .other => ∃ after, Alike state after ∧ ∀ poll fuel, outcome poll fuel = .ok ((), after)

section Layers

variable {env : NetEnv} {state : NetState}

theorem Digests.congr {outcome other : NetM Unit → Nat → Except Fault (Unit × NetState)}
    {kind : Traffic} (digests : Digests env state other kind)
    (same : ∀ poll fuel, outcome poll fuel = other poll fuel) : Digests env state outcome kind := by
  have equal : outcome = other := funext fun poll => funext fun fuel => same poll fuel
  rwa [equal]

theorem Digests.dropped : Digests env state (fun _ _ => .ok ((), state)) .other :=
  ⟨state, Alike.refl state, fun _ _ => rfl⟩

variable (env state)

theorem processArp_digests (payload : Bytes) :
    Digests env state (fun _ _ => processArp payload state) (arpTraffic payload) := by
  by_cases short : payload.length < 28
  case pos =>
    rw [arpTraffic, if_pos (.inl short)]
    refine Digests.dropped.congr fun _ _ => ?_
    rw [processArp, if_pos short]
    rfl
  have header : ∀ state, processArp payload state = _ := fun state => by
    rw [processArp, if_neg short, bind_lift_ok (readU16_ok (by omega)),
      bind_lift_ok (readU16_ok (by omega)), bind_lift_ok (index_ok (by omega)),
      bind_lift_ok (index_ok (by omega)), bind_lift_ok (readU16_ok (by omega))]
  replace header := header state
  by_cases foreign : be16 (payload.getD 0 0) (payload.getD 1 0) ≠ arpHwEthernet ∨
      be16 (payload.getD 2 0) (payload.getD 3 0) ≠ arpProtoIpv4 ∨
      payload.getD 4 0 ≠ 6 ∨ payload.getD 5 0 ≠ 4
  case pos =>
    rw [arpTraffic, if_pos (.inr foreign)]
    refine Digests.dropped.congr fun _ _ => ?_
    rw [header, if_pos foreign]
    rfl
  have inside : 28 ≤ payload.length := not_lt.mp short
  obtain ⟨senderMac, -, sender⟩ :=
    octets_slice_ok (show 8 + 6 = 14 from rfl) (show 14 ≤ payload.length by omega)
  obtain ⟨senderIp, -, senderAddress⟩ :=
    octets_slice_ok (show 14 + 4 = 18 from rfl) (show 18 ≤ payload.length by omega)
  obtain ⟨targetMac, -, target⟩ :=
    octets_slice_ok (show 18 + 6 = 24 from rfl) (show 24 ≤ payload.length by omega)
  obtain ⟨targetIp, -, targetAddress⟩ := octets_slice_ok (show 24 + 4 = 28 from rfl) inside
  have mac : octets 6 ((payload.take 14).drop 8) = .ok senderMac := by
    rwa [slice_ok (by omega) (by omega)] at sender
  have ip : octets 4 ((payload.take 18).drop 14) = .ok senderIp := by
    rwa [slice_ok (by omega) (by omega)] at senderAddress
  rw [if_neg foreign, bind_lift_ok sender, bind_lift_ok senderAddress, bind_lift_ok target,
    bind_lift_ok targetAddress, bind_modify, bind_get] at header
  rw [arpTraffic, if_neg (not_or.mpr ⟨short, foreign⟩), mac, ip]
  -- After the insertion the packet is counted and may be answered.
  by_cases request : be16 (payload.getD 6 0) (payload.getD 7 0) = arpOpRequest
  case pos =>
    rw [if_pos request] at header
    by_cases ours : targetIp = (state.insert senderIp senderMac).config.ip
    case pos =>
      rw [if_pos ours] at header
      obtain ⟨after, sent, alike⟩ := sendRaw_alike _ _
      exact ⟨after, (Alike.count _ _).trans alike, fun _ _ => header.trans sent⟩
    case neg =>
      rw [if_neg ours] at header
      exact ⟨_, Alike.count _ _, fun _ _ => header⟩
  rw [if_neg request] at header
  by_cases answer : be16 (payload.getD 6 0) (payload.getD 7 0) = arpOpReply
  case pos =>
    rw [if_pos answer] at header
    exact ⟨_, Alike.count _ _, fun _ _ => header⟩
  case neg =>
    rw [if_neg answer] at header
    exact ⟨_, Alike.refl _, fun _ _ => header⟩

theorem processIcmp_digests (srcIp : Ip) (data : Bytes) :
    Digests env state (fun poll fuel => processIcmp env poll fuel data srcIp state)
      (icmpTraffic srcIp data) := by
  by_cases short : data.length < 8
  case pos =>
    rw [icmpTraffic, if_pos (.inl short)]
    refine Digests.dropped.congr fun _ _ => ?_
    rw [processIcmp, if_pos short]
    rfl
  obtain ⟨cksum, computed⟩ := checksum_total data
  have started : ∀ poll fuel, processIcmp env poll fuel data srcIp state = _ := fun poll fuel => by
    rw [processIcmp, if_neg short, bind_lift_ok (index_ok (by omega)),
      bind_lift_ok (index_ok (by omega)), bind_lift_ok computed]
  by_cases zero : cksum = 0
  case neg =>
    have wrong : checksum data ≠ .ok 0 := by
      rw [computed]
      exact fun same => zero (Except.ok.inj same)
    rw [icmpTraffic, if_pos (.inr wrong)]
    refine Digests.dropped.congr fun poll fuel => ?_
    rw [started, if_pos zero]
    rfl
  subst zero
  rw [icmpTraffic, if_neg (not_or.mpr ⟨short, not_not.mpr computed⟩)]
  by_cases request : data.getD 0 0 = icmpEchoRequest
  case pos =>
    rw [if_pos request]
    refine ⟨not_lt.mp short, fun poll fuel => (started poll fuel).trans ?_⟩
    rw [if_neg (not_not.mpr rfl), if_pos request]
    rfl
  rw [if_neg request]
  by_cases reply : data.getD 0 0 = icmpEchoReply
  case pos =>
    rw [if_pos reply]
    refine ⟨_, Alike.count (fun stats => { stats with icmpReceived := stats.icmpReceived + 1 }) _,
      fun poll fuel => (started poll fuel).trans ?_⟩
    rw [if_neg (not_not.mpr rfl), if_neg request, if_pos reply, bind_modify,
      bind_lift_ok (readU16_ok (by omega)), bind_lift_ok (readU16_ok (by omega)),
      bind_lift_ok (subtract_ok (by omega))]
    rfl
  rw [if_neg reply]
  refine Digests.dropped.congr fun poll fuel => ?_
  rw [started, if_neg request, if_neg reply]
  rfl

theorem processUdp_digests (srcIp : Ip) (data : Bytes) :
    Digests env state (fun _ _ => processUdp data srcIp state) .other := by
  by_cases short : data.length < 8
  case pos =>
    refine Digests.dropped.congr fun _ _ => ?_
    rw [processUdp, if_pos short]
    rfl
  have started : ∀ state, processUdp data srcIp state = _ := fun state => by
    rw [processUdp, if_neg short, bind_lift_ok (readU16_ok (by omega)),
      bind_lift_ok (readU16_ok (by omega)), bind_lift_ok (readU16_ok (by omega))]
  replace started := started state
  generalize be16 (data.getD 4 0) (data.getD 5 0) = length at started
  by_cases wrong : length.toNat < 8 ∨ data.length < length.toNat
  case pos =>
    refine Digests.dropped.congr fun _ _ => ?_
    rw [started, if_pos wrong]
    rfl
  have past : 8 ≤ length.toNat := by omega
  have inside : length.toNat ≤ data.length := by omega
  rw [if_neg wrong, bind_lift_ok (slice_ok past inside)] at started
  exact ⟨_, (Alike.count _ state).trans (Alike.deliver _ _), fun _ _ => started⟩

theorem processIpv4_digests (data : Bytes) :
    Digests env state (fun poll fuel => processIpv4 env poll fuel data state)
      (ipv4Traffic state.config data) := by
  by_cases ends : EndsInHeader data
  case pos =>
    have panics := parse_panics ends
    rw [ipv4Traffic, panics]
    exact fun poll fuel => bind_lift_error panics _ state
  obtain ⟨parsed, isParsed⟩ := parse_total ends
  have started : ∀ poll fuel, processIpv4 env poll fuel data state = _ := fun poll fuel => by
    rw [processIpv4, bind_lift_ok isParsed]
  rw [ipv4Traffic, isParsed]
  cases parsed with
  | none => exact Digests.dropped.congr started
  | some packet =>
    dsimp only at started ⊢
    by_cases foreign : packet.dstIp ≠ state.config.ip ∧ packet.dstIp ≠ broadcastIp
    case pos =>
      rw [if_pos foreign]
      refine Digests.dropped.congr fun poll fuel => ?_
      rw [started, bind_get, if_pos foreign]
      rfl
    rw [if_neg foreign]
    by_cases icmp : packet.protocol = protoIcmp
    case pos =>
      rw [if_pos icmp]
      refine (processIcmp_digests env state packet.srcIp packet.payload).congr fun poll fuel => ?_
      rw [started, bind_get, if_neg foreign, if_pos icmp]
    rw [if_neg icmp]
    by_cases udp : packet.protocol = protoUdp
    case pos =>
      refine (processUdp_digests env state packet.srcIp packet.payload).congr fun poll fuel => ?_
      rw [started, bind_get, if_neg foreign, if_neg icmp, if_pos udp]
    refine Digests.dropped.congr fun poll fuel => ?_
    rw [started, bind_get, if_neg foreign, if_neg icmp, if_neg udp]
    rfl

/-- Processing a frame does what its kind says, however the driver is polled meanwhile. -/
theorem processFrameWith_digests (data : Bytes) :
    Digests env state (fun poll fuel => processFrameWith env poll fuel data state)
      (traffic state.config data) := by
  by_cases long : 14 ≤ data.length
  case neg =>
    have tooShort : EthernetFrame.parse data = .ok none := by
      rw [EthernetFrame.parse, if_pos (by omega)]
      rfl
    rw [traffic, tooShort]
    refine Digests.dropped.congr fun poll fuel => ?_
    rw [processFrameWith, bind_lift_ok tooShort]
    rfl
  obtain ⟨frame, parsed, -⟩ := parse_of_long long
  have started : ∀ poll fuel, processFrameWith env poll fuel data state = _ := fun poll fuel => by
    rw [processFrameWith, bind_lift_ok parsed]
  rw [traffic, parsed]
  dsimp only at started ⊢
  by_cases foreign : frame.dstMac ≠ state.config.mac ∧ frame.dstMac ≠ broadcastMac
  case pos =>
    rw [if_pos foreign]
    refine Digests.dropped.congr fun poll fuel => ?_
    rw [started, bind_get, if_pos foreign]
    rfl
  rw [if_neg foreign]
  have accepted : ∀ poll fuel, processFrameWith env poll fuel data state = _ := fun poll fuel => by
    rw [started, bind_get, if_neg foreign]
  cases ethertype : frame.ethertype with
  | arp =>
    refine (processArp_digests env state frame.payload).congr fun poll fuel => ?_
    rw [accepted, ethertype]
  | ipv4 =>
    refine (processIpv4_digests env state frame.payload).congr fun poll fuel => ?_
    rw [accepted, ethertype]
  | unknown value =>
    refine Digests.dropped.congr fun poll fuel => ?_
    rw [accepted, ethertype]
    rfl

end Layers

theorem arpTraffic_ne_fatal (payload : Bytes) : arpTraffic payload ≠ .fatal := by
  rw [arpTraffic]
  split
  · exact Traffic.noConfusion
  split <;> exact Traffic.noConfusion

theorem icmpTraffic_ne_fatal (srcIp : Ip) (message : Bytes) :
    icmpTraffic srcIp message ≠ .fatal := by
  rw [icmpTraffic]
  split
  · exact Traffic.noConfusion
  split
  · exact Traffic.noConfusion
  split <;> exact Traffic.noConfusion

theorem endsInHeader_of_fatal (fatal : ipv4Traffic config data = .fatal) : EndsInHeader data := by
  by_contra sound
  obtain ⟨parsed, isParsed⟩ := parse_total sound
  rw [ipv4Traffic, isParsed] at fatal
  cases parsed with
  | none => exact Traffic.noConfusion fatal
  | some packet =>
    dsimp only at fatal
    split at fatal
    · exact Traffic.noConfusion fatal
    split at fatal
    · exact icmpTraffic_ne_fatal _ _ fatal
    · exact Traffic.noConfusion fatal

/-- Only crashing frames are fatal. -/
theorem crashing_of_fatal (fatal : traffic config data = .fatal) : Crashing config data := by
  by_cases long : 14 ≤ data.length
  case neg =>
    rw [traffic, EthernetFrame.parse, if_pos (by omega)] at fatal
    exact Traffic.noConfusion fatal
  obtain ⟨frame, parsed, isDst, isType, isPayload⟩ := parse_of_long long
  rw [traffic, parsed] at fatal
  dsimp only at fatal
  by_cases foreign : frame.dstMac ≠ config.mac ∧ frame.dstMac ≠ broadcastMac
  case pos =>
    rw [if_pos foreign] at fatal
    exact Traffic.noConfusion fatal
  rw [if_neg foreign] at fatal
  have addressed : data.take 6 = config.mac.val ∨ data.take 6 = broadcastMac.val := by
    rw [← isDst]
    by_contra others
    rw [not_or] at others
    exact foreign ⟨fun same => others.1 (congrArg _ same), fun same => others.2 (congrArg _ same)⟩
  cases ethertype : frame.ethertype with
  | arp =>
    rw [ethertype] at fatal
    exact absurd fatal (arpTraffic_ne_fatal _)
  | unknown value =>
    rw [ethertype] at fatal
    exact Traffic.noConfusion fatal
  | ipv4 =>
    rw [ethertype] at fatal
    refine ⟨long, addressed, ?_, isPayload ▸ endsInHeader_of_fatal fatal⟩
    rwa [isType, EtherType.fromU16_eq_ipv4_iff] at ethertype

end CantayaOS.Net
