import CantayaOS.Lib.Bytes

/-!
# The block device

A device holds the bytes of its sectors.  A transfer of one sector can fail;
which sectors can be read and which can be written does not change.
-/

namespace CantayaOS.Storage

/-- The bytes of the device and the sectors for which a transfer succeeds. -/
structure Disk where
  bytes : Nat → UInt8
  readable : Nat → Bool
  writable : Nat → Bool

/-- The contents of a sector buffer; offsets below 512 matter. -/
abbrev Sector : Type := Nat → UInt8

namespace Disk

def readBlock (disk : Disk) (lba : Nat) : Option Sector :=
  if disk.readable lba then some fun i => disk.bytes (lba * 512 + i) else none

def writeBlock (disk : Disk) (lba : Nat) (sector : Sector) : Bool × Disk :=
  if disk.writable lba then
    (true, { disk with
      bytes := fun addr => if addr / 512 = lba then sector (addr % 512) else disk.bytes addr })
  else
    (false, disk)

end Disk

end CantayaOS.Storage
