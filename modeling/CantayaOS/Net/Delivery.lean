import CantayaOS.Net.PanicFree

/-!
# Delivery of datagrams

A datagram that one host sends to another on its subnet crosses three layers
on each side: UDP, IPv4 and Ethernet.  Each layer hands the one above exactly
what was given to its counterpart, so the addressed socket gets the datagram.
-/

namespace CantayaOS.Net

open Lib Lib.Checked List

def udpMessage (srcPort dstPort : UInt16) (data : Bytes) : Bytes :=
  toBeBytes srcPort ++ toBeBytes dstPort ++ toBeBytes (UInt16.ofNat (8 + data.length)) ++
    [0, 0] ++ data

variable {state : NetState} {dstIp srcIp : Ip} {packet data : Bytes} {dstPort srcPort : UInt16}

@[simp] theorem length_udpMessage (srcPort dstPort : UInt16) (data : Bytes) :
    (udpMessage srcPort dstPort data).length = 8 + data.length := by
  simp only [udpMessage, length_append, length_toBeBytes, length_cons, length_nil]

theorem sendRaw_of_up {frame : Bytes} (up : state.up = true) (fits : frame.length ≤ maxFrameSize) :
    sendRaw frame state =
      .ok ((), { state.statTx frame.length with sent := state.sent ++ [frame] }) := by
  have accepted : NetState.sendFrame frame (state.statTx frame.length) =
      { state.statTx frame.length with sent := state.sent ++ [frame] } :=
    if_neg (not_lt.mpr fits)
  rw [sendRaw, bind_get, up, ← accepted]
  rfl

/-- The state in which a datagram's frame is handed to the driver. -/
def NetState.countSend (state : NetState) : NetState :=
  { state.count fun stats => { stats with udpSent := stats.udpSent + 1 } with
    ipId := state.ipId + 1 }

theorem udpSend_of_cached (env : NetEnv) {dstMac : Mac} (fuel : Nat)
    (near : isSameSubnet state.config.ip dstIp state.config.netmask = true)
    (cached : state.lookup dstIp = some dstMac)
    (built : buildPacket state.config.ip dstIp state.ipId protoUdp
      (udpMessage srcPort dstPort data) = .ok packet) :
    udpSend env fuel dstIp dstPort srcPort data state =
      sendRaw (buildFrame dstMac state.config.mac .ipv4 packet) state.countSend := by
  have hop : nextHop state.config dstIp = dstIp := if_pos near
  rw [← hop] at cached
  rw [udpSend, bind_modify]
  exact ipv4Send_of_resolved fuel cached built

/-! ## Receiving -/

def NetState.receive (state : NetState) (datagram : UdpDatagram) : NetState :=
  (state.count fun stats => { stats with udpReceived := stats.udpReceived + 1 }).deliver datagram

theorem processUdp_udpMessage (short : data.length ≤ 1472) (state : NetState) :
    processUdp (udpMessage srcPort dstPort data) srcIp state =
      .ok ((), state.receive ⟨srcIp, srcPort, dstPort, data⟩) := by
  have length := length_udpMessage srcPort dstPort data
  generalize isLen : UInt16.ofNat (8 + data.length) = udpLen
  have udpLen_toNat : udpLen.toNat = 8 + data.length := by
    rw [← isLen]
    exact UInt16.toNat_ofNat_of_lt' (show 8 + data.length < 2 ^ 16 by omega)
  have source := readU16_append [] (toBeBytes dstPort ++ (toBeBytes udpLen ++ ([0, 0] ++ data)))
    srcPort (show _ = 0 from rfl)
  have destination := readU16_append (toBeBytes srcPort) (toBeBytes udpLen ++ ([0, 0] ++ data))
    dstPort (show _ = 2 from rfl)
  have size := readU16_append (toBeBytes srcPort ++ toBeBytes dstPort) ([0, 0] ++ data) udpLen
    (show _ = 4 from rfl)
  have body := slice_append (toBeBytes srcPort ++ toBeBytes dstPort ++ toBeBytes udpLen ++ [0, 0])
    [] data (show _ = 8 from rfl) rfl
  have shape : toBeBytes srcPort ++ (toBeBytes dstPort ++ (toBeBytes udpLen ++ ([0, 0] ++ data))) =
      udpMessage srcPort dstPort data := by
    simp only [udpMessage, isLen, append_assoc]
  simp only [nil_append, append_nil, append_assoc, shape]
    at source destination size body
  rw [processUdp, if_neg (by omega), bind_lift_ok source, bind_lift_ok destination,
    bind_lift_ok size, udpLen_toNat, if_neg (by omega), bind_lift_ok body]
  rfl

theorem processIpv4_of_parse (env : NetEnv) (poll : NetM Unit) (fuel : Nat) {packet : Ipv4Packet}
    (parsed : Ipv4Packet.parse data = .ok (some packet))
    (addressed : packet.dstIp = state.config.ip) (udp : packet.protocol = protoUdp) :
    processIpv4 env poll fuel data state = processUdp packet.payload packet.srcIp state := by
  have notIcmp : packet.protocol ≠ protoIcmp := by
    rw [udp]
    decide
  rw [processIpv4, bind_lift_ok parsed]
  dsimp only
  rw [bind_get, if_neg (fun foreign => foreign.1 addressed), if_neg notIcmp, if_pos udp]

/-- An IPv4 frame for this host is passed on to IPv4. -/
theorem processFrame_buildFrame (env : NetEnv) (fuel : Nat) (srcMac : Mac) (payload : Bytes) :
    processFrame env fuel (buildFrame state.config.mac srcMac .ipv4 payload) state =
      processIpv4 env (poll env fuel) fuel payload state := by
  rw [processFrame, processFrameWith,
    bind_lift_ok (EthernetFrame.parse_buildFrame state.config.mac srcMac payload)]
  dsimp only
  rw [bind_get, if_neg (fun foreign => foreign.1 rfl)]

theorem NetState.receive_sockets {datagram : UdpDatagram} {queue : List UdpDatagram}
    (bound : state.sockets datagram.dstPort = some queue) (room : queue.length < maxBuffered) :
    (state.receive datagram).sockets =
      Function.update state.sockets datagram.dstPort (some (queue ++ [datagram])) := by
  have counted : (state.count fun stats =>
      { stats with udpReceived := stats.udpReceived + 1 }).sockets datagram.dstPort =
        some queue := bound
  rw [receive, deliver, counted]
  dsimp only
  rw [if_pos room]
  rfl

/-- The packet of a datagram, with any bytes after it, reaches the datagram's socket. -/
theorem processIpv4_delivers (env : NetEnv) (poll : NetM Unit) (fuel : Nat) {id : UInt16}
    (short : data.length ≤ 1472)
    (built : buildPacket srcIp state.config.ip id protoUdp (udpMessage srcPort dstPort data) =
      .ok packet) (padding : Bytes) :
    processIpv4 env poll fuel (packet ++ padding) state =
      .ok ((), state.receive ⟨srcIp, srcPort, dstPort, data⟩) := by
  obtain ⟨cksum, isPacket, checked⟩ :=
    buildPacket_eq srcIp state.config.ip id protoUdp (udpMessage srcPort dstPort data)
  have total : (UInt16.ofNat (20 + (udpMessage srcPort dstPort data).length)).toNat =
      20 + (udpMessage srcPort dstPort data).length := by
    rw [length_udpMessage]
    exact UInt16.toNat_ofNat_of_lt' (show 20 + (8 + data.length) < 2 ^ 16 by omega)
  rw [built] at isPacket
  injection isPacket with isPacket
  have parsed := Ipv4Packet.parse_header _ _ _ _ _ _ padding total checked
  rw [← append_assoc, ← isPacket] at parsed
  rw [processIpv4_of_parse env poll fuel parsed rfl rfl]
  exact processUdp_udpMessage short state

theorem length_buildPacket {id : UInt16} {protocol : UInt8}
    {payload : Bytes} (built : buildPacket srcIp dstIp id protocol payload = .ok packet) :
    packet.length = 20 + payload.length := by
  obtain ⟨cksum, isPacket, -⟩ := buildPacket_eq srcIp dstIp id protocol payload
  rw [built] at isPacket
  injection isPacket with isPacket
  rw [isPacket, length_append, length_ipv4Header]

/-- Sending a datagram to a local host whose hardware address is cached builds one frame, which
the driver takes if the interface is up.  That frame, with any padding, adds the datagram to the
queue of the addressed socket of that host and changes no other socket. -/
theorem udpSend_delivers (sendEnv recvEnv : NetEnv) (sendFuel recvFuel : Nat)
    (sender receiver : NetState) (srcPort dstPort : UInt16) (data padding : Bytes)
    (queue : List UdpDatagram)
    (near : isSameSubnet sender.config.ip receiver.config.ip sender.config.netmask = true)
    (cached : sender.lookup receiver.config.ip = some receiver.config.mac)
    (short : data.length ≤ 1472) (bound : receiver.sockets dstPort = some queue)
    (room : queue.length < 16) :
    ∃ frame after,
      udpSend sendEnv sendFuel receiver.config.ip dstPort srcPort data sender =
        sendRaw frame sender.countSend ∧
      (sender.up = true → ∃ sent, sendRaw frame sender.countSend = .ok ((), sent) ∧
        sent.sent = sender.sent ++ [frame]) ∧
      processFrame recvEnv recvFuel (frame ++ padding) receiver = .ok ((), after) ∧
      after.sockets = Function.update receiver.sockets dstPort
        (some (queue ++ [⟨sender.config.ip, srcPort, dstPort, data⟩])) := by
  obtain ⟨packet, built⟩ := buildPacket_total sender.config.ip receiver.config.ip sender.ipId
    protoUdp (udpMessage srcPort dstPort data)
  have packetLength := length_buildPacket built
  rw [length_udpMessage] at packetLength
  refine ⟨buildFrame receiver.config.mac sender.config.mac .ipv4 packet,
    receiver.receive ⟨sender.config.ip, srcPort, dstPort, data⟩,
    udpSend_of_cached sendEnv sendFuel near cached built, ?_, ?_,
    NetState.receive_sockets bound room⟩
  · intro up
    refine ⟨_, sendRaw_of_up up ?_, rfl⟩
    simp only [buildFrame, length_append, receiver.config.mac.property,
      sender.config.mac.property, length_toBeBytes, maxFrameSize]
    omega
  · have padded : buildFrame receiver.config.mac sender.config.mac .ipv4 packet ++ padding =
        buildFrame receiver.config.mac sender.config.mac .ipv4 (packet ++ padding) := by
      simp only [buildFrame, append_assoc]
    rw [padded, processFrame_buildFrame]
    exact processIpv4_delivers recvEnv _ recvFuel short built padding

/-- A host with the given last byte of its address and an empty socket on port 7. -/
def listeningHost (last : UInt8) : NetState :=
  { NetState.init exampleMac with
    config := { NetConfig.new ⟨[0x52, 0x54, 0x00, 0x12, 0x34, last], rfl⟩ with
      ip := ⟨[10, 0, 2, last], rfl⟩ }
    sockets := fun port => if port = 7 then some [] else none }

/-- A host that knows the hardware address of `other`. -/
def acquaintedHost (last : UInt8) (other : NetState) : NetState :=
  (listeningHost last).insert other.config.ip other.config.mac

theorem udpSend_delivers_between_hosts :
    (acquaintedHost 15 (listeningHost 16)).config.ip ≠ (listeningHost 16).config.ip ∧
      ∃ frame after,
        udpSend silentEnv 0 (listeningHost 16).config.ip 7 4000 [104, 105]
            (acquaintedHost 15 (listeningHost 16)) =
          sendRaw frame (acquaintedHost 15 (listeningHost 16)).countSend ∧
        processFrame silentEnv 0 (frame ++ List.replicate 16 0) (listeningHost 16) =
          .ok ((), after) ∧
        after.sockets 7 =
          some [⟨(acquaintedHost 15 (listeningHost 16)).config.ip, 4000, 7, [104, 105]⟩] := by
  obtain ⟨frame, after, sends, -, receives, sockets⟩ :=
    udpSend_delivers silentEnv silentEnv 0 0 (acquaintedHost 15 (listeningHost 16))
      (listeningHost 16) 4000 7 [104, 105] (List.replicate 16 0) [] (by decide) (by decide)
      (by decide) rfl (by decide)
  refine ⟨by decide, frame, after, sends, receives, ?_⟩
  rw [sockets]
  rfl

end CantayaOS.Net
