import CantayaOS.Lib.Checked

/-!
# Packets on the wire

Parsing and building of Ethernet, ARP, IPv4 and ICMP packets.  Reading a byte
or a slice out of range panics, as it does in the source.
-/

namespace CantayaOS.Net

open Lib Nat

abbrev Bytes : Type := List UInt8

abbrev Octets (n : Nat) : Type := { bytes : Bytes // bytes.length = n }

abbrev Mac : Type := Octets 6

abbrev Ip : Type := Octets 4

def index (data : Bytes) (i : Nat) : Except Fault UInt8 :=
  match data[i]? with
  | some byte => .ok byte
  | none => .error .panic

def slice (data : Bytes) (first last : Nat) : Except Fault Bytes :=
  if first ≤ last ∧ last ≤ data.length then .ok ((data.take last).drop first)
  else .error .panic

def octets (n : Nat) (data : Bytes) : Except Fault (Octets n) :=
  if fits : data.length = n then .ok ⟨data, fits⟩ else .error .panic

def overwrite (data : Bytes) (first : Nat) (bytes : Bytes) : Except Fault Bytes :=
  if first + bytes.length ≤ data.length then
    .ok (data.take first ++ bytes ++ data.drop (first + bytes.length))
  else .error .panic

/-- The difference of two lengths; an underflow counts as a panic. -/
def subtract (a b : Nat) : Except Fault Nat :=
  if b ≤ a then .ok (a - b) else .error .panic

def be16 (high low : UInt8) : UInt16 := high.toUInt16 <<< 8 ||| low.toUInt16

def readU16 (data : Bytes) (i : Nat) : Except Fault UInt16 := do
  return be16 (← index data i) (← index data (i + 1))

def toBeBytes (value : UInt16) : Bytes := [(value >>> 8).toUInt8, value.toUInt8]

variable {first last sum : Nat}

variable {i n : Nat}

section InRange

variable {data : Bytes}

theorem index_ok (inside : i < data.length) : index data i = .ok (data.getD i 0) := by
  simp [index, List.getElem?_eq_getElem inside]

theorem readU16_ok (inside : i + 1 < data.length) :
    readU16 data i = .ok (be16 (data.getD i 0) (data.getD (i + 1) 0)) := by
  rw [readU16, index_ok (by omega : i < data.length), index_ok inside]
  rfl

theorem slice_ok (ordered : first ≤ last) (inside : last ≤ data.length) :
    slice data first last = .ok ((data.take last).drop first) :=
  if_pos ⟨ordered, inside⟩

theorem slice_panic (reversed : last < first) : slice data first last = .error .panic :=
  if_neg fun inside => absurd inside.1 (by omega)

theorem octets_ok (fits : data.length = n) : octets n data = .ok ⟨data, fits⟩ :=
  dif_pos fits

theorem overwrite_ok {bytes : Bytes} (fits : first + bytes.length ≤ data.length) :
    overwrite data first bytes =
      .ok (data.take first ++ bytes ++ data.drop (first + bytes.length)) :=
  if_pos fits

theorem subtract_ok {a b : Nat} (ordered : b ≤ a) : subtract a b = .ok (a - b) :=
  if_pos ordered

theorem octets_slice_ok (size : first + n = last) (inside : last ≤ data.length) :
    ∃ bytes : Octets n, bytes.val = (data.take last).drop first ∧
      (slice data first last >>= octets n) = .ok bytes := by
  have length : ((data.take last).drop first).length = n := by
    rw [List.length_drop, List.length_take]
    omega
  refine ⟨⟨_, length⟩, rfl, ?_⟩
  rw [slice_ok (by omega) inside]
  exact octets_ok length

end InRange

/-! ## Checksums -/

/-- Add up the 16-bit words from index `i` on; also returns where a single last byte remains. -/
def sumWords (data : Bytes) : Nat → Nat → Nat → Except Fault (Nat × Nat)
  | 0, _, _ => .error .outOfFuel
  | fuel + 1, i, sum =>
    if i + 1 < data.length then do
      let word ← readU16 data i
      sumWords data fuel (i + 2) ((sum + word.toNat) % 2 ^ 32)
    else .ok (i, sum)

/-- Add a single last byte at index `i` as the high half of a word. -/
def addLastByte (data : Bytes) (i sum : Nat) : Except Fault Nat :=
  if i < data.length then do
    let byte ← index data i
    return (sum + byte.toNat <<< 8) % 2 ^ 32
  else .ok sum

def foldCarries : Nat → Nat → Except Fault Nat
  | 0, _ => .error .outOfFuel
  | fuel + 1, sum =>
    if sum >>> 16 ≠ 0 then foldCarries fuel ((sum &&& 0xFFFF) + (sum >>> 16)) else .ok sum

def checksum (data : Bytes) : Except Fault UInt16 := do
  let (i, sum) ← sumWords data (data.length + 1) 0 0
  let sum ← addLastByte data i sum
  let folded ← foldCarries 3 sum
  return ~~~(UInt16.ofNat folded)

theorem foldCarries_low (fuel : Nat) (low : sum < 2 ^ 16) :
    foldCarries (fuel + 1) sum = .ok sum := by
  have folded : sum >>> 16 = 0 := by
    rw [shiftRight_eq_div_pow]
    exact div_eq_of_lt low
  rw [foldCarries, if_neg (by simp [folded])]

theorem foldCarries_high (fuel : Nat) (high : 2 ^ 16 ≤ sum) :
    foldCarries (fuel + 1) sum = foldCarries fuel (sum % 2 ^ 16 + sum / 2 ^ 16) := by
  have carries : sum >>> 16 ≠ 0 := by
    rw [shiftRight_eq_div_pow]
    exact ne_of_gt (Nat.div_pos high (by decide))
  have mask : sum &&& 0xFFFF = sum % 2 ^ 16 := and_two_pow_sub_one_eq_mod sum 16
  rw [foldCarries, if_pos carries, mask, shiftRight_eq_div_pow]

inductive EtherType where
  | ipv4
  | arp
  | unknown (value : UInt16)
  deriving DecidableEq, Repr

namespace EtherType

def fromU16 (value : UInt16) : EtherType :=
  if value = 0x0800 then ipv4 else if value = 0x0806 then arp else unknown value

def toU16 : EtherType → UInt16
  | ipv4 => 0x0800
  | arp => 0x0806
  | unknown value => value

end EtherType

structure EthernetFrame where
  dstMac : Mac
  srcMac : Mac
  ethertype : EtherType
  payload : Bytes

def EthernetFrame.parse (data : Bytes) : Except Fault (Option EthernetFrame) := do
  if data.length < 14 then return none
  let dstMac ← slice data 0 6 >>= octets 6
  let srcMac ← slice data 6 12 >>= octets 6
  let ethertype := EtherType.fromU16 (← readU16 data 12)
  let payload ← slice data 14 data.length
  return some { dstMac, srcMac, ethertype, payload }

def buildFrame (dstMac srcMac : Mac) (ethertype : EtherType) (payload : Bytes) : Bytes :=
  dstMac.val ++ srcMac.val ++ toBeBytes ethertype.toU16 ++ payload

def broadcastMac : Mac := ⟨List.replicate 6 0xFF, rfl⟩

def arpHwEthernet : UInt16 := 1

def arpProtoIpv4 : UInt16 := 0x0800

def arpOpRequest : UInt16 := 1

def arpOpReply : UInt16 := 2

/-- An ARP message for IPv4 over Ethernet. -/
def buildArp (operation : UInt16) (srcMac : Mac) (srcIp : Ip) (dstMac : Mac) (dstIp : Ip) : Bytes :=
  toBeBytes arpHwEthernet ++ toBeBytes arpProtoIpv4 ++ [6, 4] ++ toBeBytes operation ++
    srcMac.val ++ srcIp.val ++ dstMac.val ++ dstIp.val

def protoIcmp : UInt8 := 1

def protoUdp : UInt8 := 17

structure Ipv4Packet where
  srcIp : Ip
  dstIp : Ip
  protocol : UInt8
  ttl : UInt8
  id : UInt16
  headerLen : Nat
  totalLen : Nat
  payload : Bytes

def Ipv4Packet.readFields (data : Bytes) (headerLen totalLen : Nat) : Except Fault Ipv4Packet := do
  let id ← readU16 data 4
  let ttl ← index data 8
  let protocol ← index data 9
  let srcIp ← slice data 12 16 >>= octets 4
  let dstIp ← slice data 16 20 >>= octets 4
  let payload ← slice data headerLen totalLen
  return { srcIp, dstIp, protocol, ttl, id, headerLen, totalLen, payload }

def Ipv4Packet.parse (data : Bytes) : Except Fault (Option Ipv4Packet) := do
  if data.length < 20 then return none
  let version := (← index data 0) >>> 4
  if version ≠ 4 then return none
  let ihl := ((← index data 0) &&& 0x0F).toNat
  let headerLen := ihl * 4
  if headerLen < 20 ∨ data.length < headerLen then return none
  let totalLen := (← readU16 data 2).toNat
  if data.length < totalLen then return none
  let cksum ← slice data 0 headerLen >>= checksum
  if cksum ≠ 0 then return none
  return some (← Ipv4Packet.readFields data headerLen totalLen)

/-- An IPv4 packet without options; the checksum is filled in last. -/
def buildPacket (srcIp dstIp : Ip) (id : UInt16) (protocol : UInt8) (payload : Bytes) :
    Except Fault Bytes := do
  let totalLen := 20 + payload.length
  let packet := [0x45, 0x00] ++ toBeBytes (UInt16.ofNat totalLen) ++ toBeBytes id ++
    [0x40, 0x00, 64, protocol, 0, 0] ++ srcIp.val ++ dstIp.val ++ payload
  let cksum ← slice packet 0 20 >>= checksum
  overwrite packet 10 (toBeBytes cksum)

def isSameSubnet (a b mask : Ip) : Bool :=
  (a.val.zipWith (· &&& ·) mask.val) == (b.val.zipWith (· &&& ·) mask.val)

end CantayaOS.Net
