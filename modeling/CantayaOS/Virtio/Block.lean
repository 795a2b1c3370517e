import CantayaOS.Lib.Bytes
import CantayaOS.Lib.Checked
import CantayaOS.Virtio.Queue

/-!
# The block driver and its device

The driver moves one sector a request through a page of its own: the header, the
status byte and a staging area for the data lie there, and a chain of three
descriptors shows them to the device.  The device may take any finite time for a
request and may fail it; a failed transfer can leave anything in its target.
-/

namespace CantayaOS.Virtio

open Lib Lib.Bytes

def virtioBlkTIn : Nat := 0

def virtioBlkTOut : Nat := 1

def virtioBlkSOk : UInt8 := 0

def virtioBlkSIoerr : UInt8 := 1

def virtioBlkSUnsupp : UInt8 := 2

def sectorSize : Nat := 512

inductive BlkError where
  | ioerr
  | unsupp
  deriving DecidableEq, Repr

def BlkError.status : BlkError → UInt8
  | .ioerr => virtioBlkSIoerr
  | .unsupp => virtioBlkSUnsupp

/-- How the device behaves at its n-th request: how many polls find it still working, whether it
fails the request, and what it leaves in the target of a failed transfer.  Also whether the kernel
was built to panic on overflow. -/
structure BlkEnv where
  delay : Nat → Nat
  error : Nat → Option BlkError
  residue : Nat → Nat → UInt8
  overflowChecks : Bool

/-- The device: its sectors, where it stands in the available ring, how many requests it has served
and how often it has been polled during the current one. -/
structure BlkDevice where
  capacity : Nat
  bytes : Nat → UInt8
  lastAvailIdx : UInt16
  served : Nat
  waited : Nat

/-- What a request asks for: `data` is what follows its header, `room` the number of bytes it has
room for before the status. -/
structure BlkRequest where
  reqType : Nat
  sector : Nat
  data : List UInt8
  room : Nat

/-- The bytes for the driver, the status, and the contents of the device afterwards. -/
structure BlkResult where
  reply : List UInt8
  status : UInt8
  bytes : Nat → UInt8

section Device

variable (env : BlkEnv)

def BlkDevice.handle (device : BlkDevice) (request : BlkRequest) : BlkResult :=
  let leftover (len : Nat) := window (env.residue device.served) 0 len
  let start := request.sector * sectorSize
  if request.reqType = virtioBlkTIn then
    if start + request.room ≤ device.capacity * sectorSize then
      match env.error device.served with
      | none => ⟨window device.bytes start request.room, virtioBlkSOk, device.bytes⟩
      | some error => ⟨leftover request.room, error.status, device.bytes⟩
    else ⟨leftover request.room, virtioBlkSIoerr, device.bytes⟩
  else if request.reqType = virtioBlkTOut then
    if start + request.data.length ≤ device.capacity * sectorSize then
      match env.error device.served with
      | none => ⟨leftover request.room, virtioBlkSOk, overlay device.bytes start request.data⟩
      | some error => ⟨leftover request.room, error.status,
          overlay device.bytes start (leftover request.data.length)⟩
    else ⟨leftover request.room, virtioBlkSIoerr, device.bytes⟩
  else ⟨leftover request.room, virtioBlkSUnsupp, device.bytes⟩

def gather (memory : Nat → UInt8) (buffers : List VirtqDesc) : List UInt8 :=
  buffers.flatMap fun buffer => window memory buffer.addr buffer.len

def scatter : List VirtqDesc → List UInt8 → (Nat → UInt8) → Nat → UInt8
  | [], _, memory => memory
  | buffer :: rest, bytes, memory =>
    scatter rest (bytes.drop buffer.len) (overlay memory buffer.addr (bytes.take buffer.len))

def VirtqDesc.writable (buffer : VirtqDesc) : Bool :=
  !decide (buffer.flags &&& vringDescFWrite = 0)

/-- The request that a chain of buffers carries; the last writable byte is for the status. -/
def requestOf (memory : Nat → UInt8) (buffers : List VirtqDesc) : BlkRequest :=
  let input := gather memory (buffers.filter fun buffer => !buffer.writable)
  let space := ((buffers.filter VirtqDesc.writable).map VirtqDesc.len).sum
  { reqType := fromLe (input.take 4)
    sector := fromLe ((input.drop 8).take 8)
    data := input.drop 16
    room := space - 1 }

end Device

/-! ## The driver -/

structure VirtioBlkDevice where
  vq : Virtqueue
  capacity : UInt64
  reqPagePhys : Nat

/-- The driver, the memory behind the addresses in its descriptors, and the device. -/
structure BlkState where
  dev : VirtioBlkDevice
  memory : Nat → UInt8
  device : BlkDevice

abbrev BlkM : Type → Type := Checked BlkState

namespace BlkState

def setQueue (state : BlkState) (vq : Virtqueue) : BlkState :=
  { state with dev := { state.dev with vq } }

/-- The device serves the chain with the given head and puts it into the used ring. -/
def serve (env : BlkEnv) (state : BlkState) (head : UInt16) (nodes : List UInt16) : BlkState :=
  let vq := state.dev.vq
  let buffers := nodes.map vq.desc
  let result := state.device.handle env (requestOf state.memory buffers)
  let output := result.reply ++ [result.status]
  let slot := (vq.usedIdx % vq.queueSize).toNat
  { dev := { state.dev with vq := { vq with
      usedRing := Function.update vq.usedRing slot ⟨head.toUInt32, UInt32.ofNat output.length⟩
      usedIdx := vq.usedIdx + 1 } }
    memory := scatter (buffers.filter VirtqDesc.writable) output state.memory
    device := { state.device with
      bytes := result.bytes
      lastAvailIdx := state.device.lastAvailIdx + 1
      served := state.device.served + 1
      waited := 0 } }

/-- The device's turn between two polls: it goes on working, or it serves the next request. -/
def deviceTurn (env : BlkEnv) (state : BlkState) : BlkState :=
  let vq := state.dev.vq
  if state.device.lastAvailIdx = vq.availIdx then state
  else if state.device.waited < env.delay state.device.served then
    { state with device := { state.device with waited := state.device.waited + 1 } }
  else
    let head := vq.availRing (state.device.lastAvailIdx % vq.queueSize).toNat
    match vq.chain head with
    | none => state
    | some nodes => state.serve env head nodes

end BlkState

def onQueue {α : Type} (change : Virtqueue → α × Virtqueue) : BlkM α := do
  let state ← get
  let (result, vq) := change state.dev.vq
  set (state.setQueue vq)
  return result

def freeDesc (idx : UInt16) : BlkM Unit := onQueue fun vq => ((), vq.freeDesc idx)

def freeChain (fuel : Nat) (head : UInt16) : BlkM Unit := do
  let state ← get
  match Virtqueue.freeChain fuel state.dev.vq head with
  | none => throw .outOfFuel
  | some vq => set (state.setQueue vq)

def waitUsed (env : BlkEnv) : Nat → BlkM (UInt16 × UInt32)
  | 0 => throw .outOfFuel
  | fuel + 1 => do
      modify (BlkState.deviceTurn env)
      match ← onQueue Virtqueue.pollUsed with
      | some result => return result
      | none => waitUsed env fuel

/-- The header of a request, and a status that no device returns. -/
def writeHeader (reqType : Nat) (sector : UInt64) : BlkM Unit :=
  modify fun state =>
    let page := state.dev.reqPagePhys
    let header := toLe 4 reqType ++ toLe 4 0 ++ toLe 8 sector.toNat
    { state with memory := overlay (overlay state.memory page header) (page + 128) [0xFF] }

/-- Link three descriptors for header, data and status. -/
def linkRequest (dataPhys : Nat) (dataFlags d0 d1 d2 : UInt16) : BlkM Unit :=
  modify fun state =>
    let page := state.dev.reqPagePhys
    let vq := state.dev.vq.setDesc d0 ⟨page, 16, vringDescFNext, d1⟩
    let vq := vq.setDesc d1 ⟨dataPhys, sectorSize, dataFlags, d2⟩
    state.setQueue (vq.setDesc d2 ⟨page + 128, 1, vringDescFWrite, 0⟩)

/-- Write the header and set up the chain; `none` if the queue has no three free descriptors. -/
def prepare (reqType : Nat) (sector : UInt64) (dataPhys : Nat) (dataFlags : UInt16) :
    BlkM (Option UInt16) := do
  writeHeader reqType sector
  match ← onQueue Virtqueue.allocDesc with
  | none => return none
  | some d0 =>
    match ← onQueue Virtqueue.allocDesc with
    | none =>
      freeDesc d0
      return none
    | some d1 =>
      match ← onQueue Virtqueue.allocDesc with
      | none =>
        freeDesc d0
        freeDesc d1
        return none
      | some d2 =>
        linkRequest dataPhys dataFlags d0 d1 d2
        return some d0

section Transfers

variable (env : BlkEnv) (fuel : Nat)

/-- Take the status and, from the staging area, the sector that was read; then free the chain. -/
def finishRead (page : Nat) (d0 : UInt16) (buf : List UInt8) : BlkM (Bool × List UInt8) := do
  let memory := (← get).memory
  let status := memory (page + 128)
  let buf := if status = virtioBlkSOk then window memory (page + 512) sectorSize else buf
  freeChain fuel d0
  return (decide (status = virtioBlkSOk), buf)

/-- Take the status of a write; then free the chain. -/
def finishWrite (page : Nat) (d0 : UInt16) : BlkM Bool := do
  let status := (← get).memory (page + 128)
  freeChain fuel d0
  return decide (status = virtioBlkSOk)

def doRequest (reqType : Nat) (sector : UInt64) (buf : List UInt8) : BlkM (Bool × List UInt8) := do
  let page := (← get).dev.reqPagePhys
  match ← prepare reqType sector (page + 512) (vringDescFNext ||| vringDescFWrite) with
  | none => return (false, buf)
  | some d0 =>
    onQueue fun vq => ((), vq.submit d0)
    let _ ← waitUsed env fuel
    finishRead fuel page d0 buf

def doRequestRaw (reqType : Nat) (sector : UInt64) : BlkM Bool := do
  let page := (← get).dev.reqPagePhys
  match ← prepare reqType sector (page + 256) vringDescFNext with
  | none => return false
  | some d0 =>
    onQueue fun vq => ((), vq.submit d0)
    let _ ← waitUsed env fuel
    finishWrite fuel page d0

def fit64 (value : Nat) : Except Fault Nat :=
  if value < 2 ^ 64 then .ok value
  else if env.overflowChecks then .error .panic
  else .ok (value % 2 ^ 64)

/-- The checks before the first request: the buffer is long enough, the range within capacity. -/
def rangeFits (lba count : UInt64) (length : Nat) : BlkM Bool := do
  if length < (← fit64 env (count.toNat * sectorSize)) then return false
  let last ← fit64 env (lba.toNat + count.toNat)
  return !decide (last > (← get).dev.capacity.toNat)

def sectorSlice (buf : List UInt8) (i : Nat) : Except Fault (List UInt8) :=
  if (i + 1) * sectorSize ≤ buf.length then .ok ((buf.drop (i * sectorSize)).take sectorSize)
  else .error .panic

def putSector (buf : List UInt8) (i : Nat) (bytes : List UInt8) : List UInt8 :=
  buf.take (i * sectorSize) ++ bytes ++ buf.drop ((i + 1) * sectorSize)

def readLoop (lba : UInt64) : Nat → Nat → List UInt8 → BlkM (Bool × List UInt8)
  | 0, _, buf => return (true, buf)
  | remaining + 1, i, buf => do
      let part ← sectorSlice buf i
      let (ok, part) ← doRequest env fuel virtioBlkTIn (lba + UInt64.ofNat i) part
      let buf := putSector buf i part
      if ok then readLoop lba remaining (i + 1) buf else return (false, buf)

def readSectors (lba count : UInt64) (buf : List UInt8) : BlkM (Bool × List UInt8) := do
  if ← rangeFits env lba count buf.length then readLoop env fuel lba count.toNat 0 buf
  else return (false, buf)

def stage (bytes : List UInt8) : BlkM Unit :=
  modify fun state => { state with memory := overlay state.memory (state.dev.reqPagePhys + 256) bytes }

def writeLoop (lba : UInt64) (buf : List UInt8) : Nat → Nat → BlkM Bool
  | 0, _ => return true
  | remaining + 1, i => do
      stage (← sectorSlice buf i)
      if ← doRequestRaw env fuel virtioBlkTOut (lba + UInt64.ofNat i) then
        writeLoop lba buf remaining (i + 1)
      else return false

def writeSectors (lba count : UInt64) (buf : List UInt8) : BlkM Bool := do
  if ← rangeFits env lba count buf.length then writeLoop env fuel lba buf count.toNat 0
  else return false

end Transfers

end CantayaOS.Virtio
