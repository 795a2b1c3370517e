import CantayaOS.Net.Packet

/-!
# The network stack

How a received frame is processed.  Answering a ping sends a packet, which may
have to wait for an ARP reply and polls the driver meanwhile, so frames are
processed while another one is.  What the driver delivers at each poll and when
the wait is over are given by an environment.
-/

namespace CantayaOS.Net

open Lib

structure NetConfig where
  ip : Ip
  netmask : Ip
  gateway : Ip
  mac : Mac

structure NetStats where
  txPackets : UInt64
  rxPackets : UInt64
  txBytes : UInt64
  rxBytes : UInt64
  arpRequests : UInt64
  arpReplies : UInt64
  icmpSent : UInt64
  icmpReceived : UInt64
  udpSent : UInt64
  udpReceived : UInt64

structure ArpEntry where
  ip : Ip
  mac : Mac
  valid : Bool

def arpCacheSize : Nat := 64

structure PingReply where
  srcIp : Ip
  seq : UInt16
  id : UInt16
  dataLen : Nat
  ttl : UInt8

structure UdpDatagram where
  srcIp : Ip
  srcPort : UInt16
  dstPort : UInt16
  data : Bytes

def maxBuffered : Nat := 16

def maxFrameSize : Nat := 1514

/-- What the driver delivers at each poll, and at which checks the wait for a reply is over. -/
structure NetEnv where
  arrivals : Nat → List Bytes
  timedOut : Nat → Bool

/-- The protocol state, the driver's queues, and the numbers of polls and time checks so far. -/
structure NetState where
  config : NetConfig
  up : Bool
  stats : NetStats
  arpCache : Fin arpCacheSize → ArpEntry
  ipId : UInt16
  icmpSeq : UInt16
  pingReply : Option PingReply
  sockets : UInt16 → Option (List UdpDatagram)
  rxQueue : List Bytes
  sent : List Bytes
  polls : Nat
  checks : Nat

abbrev NetM : Type → Type := Checked NetState

namespace NetState

def count (change : NetStats → NetStats) (state : NetState) : NetState :=
  { state with stats := change state.stats }

def statTx (bytes : Nat) : NetState → NetState :=
  count fun stats => { stats with
    txPackets := stats.txPackets + 1, txBytes := stats.txBytes + UInt64.ofNat bytes }

def statRx (bytes : Nat) : NetState → NetState :=
  count fun stats => { stats with
    rxPackets := stats.rxPackets + 1, rxBytes := stats.rxBytes + UInt64.ofNat bytes }

/-- Hand a frame to the driver, which refuses one that is too long. -/
def sendFrame (frame : Bytes) (state : NetState) : NetState :=
  if frame.length > maxFrameSize then state else { state with sent := state.sent ++ [frame] }

def lookup (state : NetState) (ip : Ip) : Option Mac :=
  ((List.finRange arpCacheSize).find? fun i =>
    (state.arpCache i).valid && (state.arpCache i).ip == ip).map fun i => (state.arpCache i).mac

/-- Cache an address: in its own entry, else in a free one, else in the first. -/
def insert (ip : Ip) (mac : Mac) (state : NetState) : NetState :=
  let known := (List.finRange arpCacheSize).find? fun i =>
    (state.arpCache i).valid && (state.arpCache i).ip == ip
  let free := (List.finRange arpCacheSize).find? fun i => !(state.arpCache i).valid
  let slot := (known.or free).getD ⟨0, by decide⟩
  { state with arpCache := Function.update state.arpCache slot ⟨ip, mac, true⟩ }

/-- Queue a datagram for its socket unless the socket's queue is full. -/
def deliver (datagram : UdpDatagram) (state : NetState) : NetState :=
  match state.sockets datagram.dstPort with
  | some queue =>
    if queue.length < maxBuffered then
      { state with
        sockets := Function.update state.sockets datagram.dstPort (some (queue ++ [datagram])) }
    else state
  | none => state

end NetState

def sendRaw (frame : Bytes) : NetM Unit := do
  if !(← get).up then return
  modify (NetState.statTx frame.length)
  modify (NetState.sendFrame frame)

def sendReply (dstMac : Mac) (dstIp : Ip) (srcMac : Mac) (srcIp : Ip) : NetM Unit :=
  sendRaw (buildFrame dstMac srcMac .arp (buildArp arpOpReply srcMac srcIp dstMac dstIp))

def sendRequest (targetIp : Ip) : NetM Unit := do
  let config := (← get).config
  let unknownMac : Mac := ⟨List.replicate 6 0, rfl⟩
  sendRaw (buildFrame broadcastMac config.mac .arp
    (buildArp arpOpRequest config.mac config.ip unknownMac targetIp))

def timeIsUp (env : NetEnv) : NetM Bool := do
  let check := (← get).checks
  modify fun state => { state with checks := check + 1 }
  return env.timedOut check

section Waiting

variable (env : NetEnv) (poll : NetM Unit)

/-- Poll until the address is known or the time is up. -/
def awaitReply (ip : Ip) : Nat → NetM (Option Mac)
  | 0 => throw .outOfFuel
  | fuel + 1 => do
      poll
      match (← get).lookup ip with
      | some mac => return some mac
      | none => if ← timeIsUp env then return none else awaitReply ip fuel

def resolveAttempts (fuel : Nat) (ip : Ip) : Nat → NetM (Option Mac)
  | 0 => return none
  | attempts + 1 => do
      sendRequest ip
      match ← awaitReply env poll ip fuel with
      | some mac => return some mac
      | none => resolveAttempts fuel ip attempts

def resolveBlocking (fuel : Nat) (ip : Ip) : NetM (Option Mac) := do
  match (← get).lookup ip with
  | some mac => return some mac
  | none => resolveAttempts env poll fuel ip 4

/-- Send an IPv4 packet, through the gateway if the destination is not local. -/
def ipv4Send (fuel : Nat) (dstIp : Ip) (protocol : UInt8) (payload : Bytes) : NetM Unit := do
  let config := (← get).config
  let id := (← get).ipId
  modify fun state => { state with ipId := id + 1 }
  let packet ← buildPacket config.ip dstIp id protocol payload
  let nextHop := if isSameSubnet config.ip dstIp config.netmask then dstIp else config.gateway
  match ← resolveBlocking env poll fuel nextHop with
  | none => return
  | some dstMac => sendRaw (buildFrame dstMac config.mac .ipv4 packet)

/-! ## Receiving -/

def icmpEchoReply : UInt8 := 0

def icmpEchoRequest : UInt8 := 8

def sendEchoReply (fuel : Nat) (dstIp : Ip) (request : Bytes) : NetM Unit := do
  let reply := [icmpEchoReply, 0, 0, 0] ++ (← slice request 4 request.length)
  let cksum ← checksum reply
  let reply ← overwrite reply 2 (toBeBytes cksum)
  modify (NetState.count fun stats => { stats with icmpSent := stats.icmpSent + 1 })
  ipv4Send env poll fuel dstIp protoIcmp reply

def processIcmp (fuel : Nat) (data : Bytes) (srcIp : Ip) : NetM Unit := do
  if data.length < 8 then return
  let icmpType ← index data 0
  let _code ← index data 1
  if (← checksum data) ≠ 0 then return
  if icmpType = icmpEchoRequest then
    modify (NetState.count fun stats => { stats with icmpReceived := stats.icmpReceived + 1 })
    sendEchoReply env poll fuel srcIp data
  else if icmpType = icmpEchoReply then
    modify (NetState.count fun stats => { stats with icmpReceived := stats.icmpReceived + 1 })
    let id ← readU16 data 4
    let seq ← readU16 data 6
    let dataLen ← subtract data.length 8
    modify fun state => { state with pingReply := some { srcIp, seq, id, dataLen, ttl := 0 } }

end Waiting

def processUdp (data : Bytes) (srcIp : Ip) : NetM Unit := do
  if data.length < 8 then return
  let srcPort ← readU16 data 0
  let dstPort ← readU16 data 2
  let length := (← readU16 data 4).toNat
  if length < 8 ∨ data.length < length then return
  let payload ← slice data 8 length
  modify (NetState.count fun stats => { stats with udpReceived := stats.udpReceived + 1 })
  modify (NetState.deliver { srcIp, srcPort, dstPort, data := payload })

def processArp (payload : Bytes) : NetM Unit := do
  if payload.length < 28 then return
  let hwType ← readU16 payload 0
  let protoType ← readU16 payload 2
  let hwLen ← index payload 4
  let protoLen ← index payload 5
  let operation ← readU16 payload 6
  if hwType ≠ arpHwEthernet ∨ protoType ≠ arpProtoIpv4 ∨ hwLen ≠ 6 ∨ protoLen ≠ 4 then return
  let senderMac ← (slice payload 8 14 >>= octets 6 : Except Fault _)
  let senderIp ← (slice payload 14 18 >>= octets 4 : Except Fault _)
  let _targetMac ← (slice payload 18 24 >>= octets 6 : Except Fault _)
  let targetIp ← (slice payload 24 28 >>= octets 4 : Except Fault _)
  modify (NetState.insert senderIp senderMac)
  let config := (← get).config
  if operation = arpOpRequest then
    modify (NetState.count fun stats => { stats with arpRequests := stats.arpRequests + 1 })
    if targetIp = config.ip then
      sendReply senderMac senderIp config.mac config.ip
  else if operation = arpOpReply then
    modify (NetState.count fun stats => { stats with arpReplies := stats.arpReplies + 1 })

def broadcastIp : Ip := ⟨[255, 255, 255, 255], rfl⟩

section Polling

variable (env : NetEnv)

def processIpv4 (poll : NetM Unit) (fuel : Nat) (data : Bytes) : NetM Unit := do
  match ← Ipv4Packet.parse data with
  | none => return
  | some packet =>
    let config := (← get).config
    if packet.dstIp ≠ config.ip ∧ packet.dstIp ≠ broadcastIp then return
    if packet.protocol = protoIcmp then
      processIcmp env poll fuel packet.payload packet.srcIp
    else if packet.protocol = protoUdp then processUdp packet.payload packet.srcIp

/-- Process a frame; `poll` is what a nested wait for an ARP reply does. -/
def processFrameWith (poll : NetM Unit) (fuel : Nat) (data : Bytes) : NetM Unit := do
  match ← EthernetFrame.parse data with
  | none => return
  | some frame =>
    let config := (← get).config
    if frame.dstMac ≠ config.mac ∧ frame.dstMac ≠ broadcastMac then return
    match frame.ethertype with
    | .arp => processArp frame.payload
    | .ipv4 => processIpv4 env poll fuel frame.payload
    | .unknown _ => return

def recvFrame : NetM (Option Bytes) := do
  match (← get).rxQueue with
  | [] => return none
  | frame :: rest =>
    modify fun state => { state with rxQueue := rest }
    return some frame

/-- The driver moves the frames that have arrived into its queue. -/
def pollRx : NetM Unit :=
  modify fun state =>
    { state with rxQueue := state.rxQueue ++ env.arrivals state.polls, polls := state.polls + 1 }

/-- Process queued frames until the queue is empty. -/
def drain (process : Bytes → NetM Unit) : Nat → NetM Unit
  | 0 => throw .outOfFuel
  | fuel + 1 => do
      match ← recvFrame with
      | none => return
      | some frame =>
        modify (NetState.statRx frame.length)
        process frame
        drain process fuel

def poll : Nat → NetM Unit
  | 0 => throw .outOfFuel
  | fuel + 1 => do
      if !(← get).up then return
      pollRx env
      drain (processFrameWith env (poll fuel) fuel) fuel

def processFrame (fuel : Nat) (data : Bytes) : NetM Unit :=
  processFrameWith env (poll env fuel) fuel data

/-- Send a UDP datagram; its checksum is left zero. -/
def udpSend (fuel : Nat) (dstIp : Ip) (dstPort srcPort : UInt16) (data : Bytes) : NetM Unit := do
  let udpLen := 8 + data.length
  let udp := toBeBytes srcPort ++ toBeBytes dstPort ++ toBeBytes (UInt16.ofNat udpLen) ++
    [0, 0] ++ data
  modify (NetState.count fun stats => { stats with udpSent := stats.udpSent + 1 })
  ipv4Send env (poll env fuel) fuel dstIp protoUdp udp

end Polling

end CantayaOS.Net
