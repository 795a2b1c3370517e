import CantayaOS.Storage.Block

/-!
# The FAT32 driver

The driver's functions as the source computes them: the allocation table with
its copies, cluster chains, directory scans with long names, the 8.3 name
codec, and the file operations.  Names are lists of characters; the Unicode
tables behind case mapping and whitespace are a parameter.  Freeing a chain
follows links until it meets an end, so it takes a bound on the number of
steps.  The volume label and the sector size, which no function reads, are
left out of the state.
-/

namespace CantayaOS.Storage

open Lib

/-- Case mapping and whitespace, with the facts about dots and spaces that the driver relies on. -/
structure Unicode where
  toLowercase : List Char → List Char
  toUppercase : List Char → List Char
  isWhitespace : Char → Bool
  lower_dot : toLowercase ['.'] = ['.']
  lower_dotdot : toLowercase ['.', '.'] = ['.', '.']
  lower_only : ∀ name, toLowercase name = ['.'] ∨ toLowercase name = ['.', '.'] →
    toLowercase name = name
  space : isWhitespace ' ' = true
  dot : isWhitespace '.' = false

structure Fat32State where
  sectorsPerCluster : Nat
  reservedSectors : Nat
  numFats : Nat
  sectorsPerFat : Nat
  rootCluster : Nat
  dataStartSector : Nat
  totalClusters : Nat

/-- A parsed directory entry with the place of its slot on disk. -/
structure DirEntry where
  name : List Char
  isDir : Bool
  size : Nat
  cluster : Nat
  entrySector : Nat
  entryOffset : Nat
  deriving DecidableEq, Repr

def fatFree : Nat := 0x00000000

def fatEoc : Nat := 0x0FFFFFF8

def fatBad : Nat := 0x0FFFFFF7

def fatMask : Nat := 0x0FFFFFFF

def attrVolumeId : UInt8 := 0x08

def attrDirectory : UInt8 := 0x10

def attrArchive : UInt8 := 0x20

def attrLfn : UInt8 := 0x0F

namespace Fat32State

variable (st : Fat32State)

/-- The first sector of a cluster; every caller passes a cluster number of at least 2. -/
def clusterToSector (cluster : Nat) : Nat :=
  st.dataStartSector + (cluster - 2) * st.sectorsPerCluster

def fatRead (disk : Disk) (cluster : Nat) : Nat :=
  let fatOffset := cluster * 4 % 2 ^ 32
  match disk.readBlock (st.reservedSectors + fatOffset / 512) with
  | none => fatBad
  | some sector => Bytes.fromLe (Bytes.window sector (fatOffset % 512) 4) &&& fatMask

/-- Write the entry in the given copies of the table; the upper four bits stay. -/
def fatWriteCopies (disk : Disk) (cluster value : Nat) : List Nat → Bool × Disk
  | [] => (true, disk)
  | fatIdx :: rest =>
    let fatOffset := cluster * 4 % 2 ^ 32
    let fatSector := st.reservedSectors + fatIdx * st.sectorsPerFat + fatOffset / 512
    match disk.readBlock fatSector with
    | none => (false, disk)
    | some sector =>
      let existing := Bytes.fromLe (Bytes.window sector (fatOffset % 512) 4)
      let newValue := (existing &&& 0xF0000000) ||| (value &&& fatMask)
      match disk.writeBlock fatSector
          (Bytes.overlay sector (fatOffset % 512) (Bytes.toLe 4 newValue)) with
      | (false, disk) => (false, disk)
      | (true, disk) => fatWriteCopies disk cluster value rest

def fatWrite (disk : Disk) (cluster value : Nat) : Bool × Disk :=
  st.fatWriteCopies disk cluster value (List.range st.numFats)

/-- The linear scan for a free cluster over the given candidates. -/
def fatAllocFrom (disk : Disk) : List Nat → Option Nat × Disk
  | [] => (none, disk)
  | cluster :: rest =>
    if st.fatRead disk cluster = fatFree then
      match st.fatWrite disk cluster 0x0FFFFFFF with
      | (true, disk) => (some cluster, disk)
      | (false, disk) => fatAllocFrom disk rest
    else
      fatAllocFrom disk rest

def fatAlloc (disk : Disk) : Option Nat × Disk :=
  st.fatAllocFrom disk (List.range' 2 st.totalClusters)

/-- Free a chain; `none` when the bound on the number of steps is reached. -/
def fatFreeChain (disk : Disk) : Nat → Nat → Option Disk
  | 0, _ => none
  | fuel + 1, cluster =>
    let next := st.fatRead disk cluster
    let disk := (st.fatWrite disk cluster fatFree).2
    if next ≥ fatEoc ∨ next = fatFree ∨ next = fatBad then
      some disk
    else
      fatFreeChain disk fuel next

/-- The chain loop with the number of clusters that may still be collected. -/
def clusterChainFrom (disk : Disk) : Nat → Nat → List Nat
  | 0, _ => []
  | left + 1, cluster =>
    if cluster < 2 ∨ cluster ≥ fatEoc then
      []
    else
      cluster :: clusterChainFrom disk left (st.fatRead disk cluster)

def clusterChain (disk : Disk) (start : Nat) : List Nat :=
  st.clusterChainFrom disk (st.totalClusters + 1) start

end Fat32State

/-- The scalar value is a character: no surrogate and not beyond the last plane. -/
def isScalar (code : Nat) : Bool := decide (code < 0xD800 ∨ (0xDFFF < code ∧ code < 0x110000))

def continuation (byte : UInt8) : Option Nat :=
  if 0x80 ≤ byte ∧ byte < 0xC0 then some (byte.toNat - 0x80) else none

/-- Strict decoding of UTF-8: shortest forms only. -/
def fromUtf8 : List UInt8 → Option (List Char)
  | [] => some []
  | first :: rest =>
    if first < 0x80 then
      (fromUtf8 rest).map (Char.ofNat first.toNat :: ·)
    else
      match rest with
      | [] => none
      | second :: rest =>
        if 0xC0 ≤ first ∧ first < 0xE0 then
          (continuation second).bind fun low =>
            let code := (first.toNat - 0xC0) * 64 + low
            if 0x80 ≤ code then (fromUtf8 rest).map (Char.ofNat code :: ·) else none
        else
          match rest with
          | [] => none
          | third :: rest =>
            if 0xE0 ≤ first ∧ first < 0xF0 then
              (continuation second).bind fun middle => (continuation third).bind fun low =>
                let code := (first.toNat - 0xE0) * 4096 + middle * 64 + low
                if 0x800 ≤ code ∧ isScalar code then
                  (fromUtf8 rest).map (Char.ofNat code :: ·)
                else none
            else
              match rest with
              | [] => none
              | fourth :: rest =>
                if 0xF0 ≤ first ∧ first < 0xF8 then
                  (continuation second).bind fun high =>
                    (continuation third).bind fun middle =>
                      (continuation fourth).bind fun low =>
                        let code := (first.toNat - 0xF0) * 262144 + high * 4096 +
                          middle * 64 + low
                        if 0x10000 ≤ code ∧ isScalar code then
                          (fromUtf8 rest).map (Char.ofNat code :: ·)
                        else none
                else none

def toUtf8 (name : List Char) : List UInt8 := name.flatMap String.utf8EncodeChar

section

open Option Nat UInt8 List

theorem continuation_ofNat {low : Nat} (small : low < 64) :
    continuation (ofNat (low + 128)) = some low := by
  have value : (ofNat (low + 128)).toNat = low + 128 :=
    toNat_ofNat_of_lt' (show low + 128 < 256 by omega)
  have lower : (0x80 : UInt8) ≤ ofNat (low + 128) := by
    rw [le_iff_toNat_le, value]
    exact le_add_left _ _
  have upper : ofNat (low + 128) < 0xC0 := by
    rw [lt_iff_toNat_lt, value]
    show low + 128 < 192
    omega
  rw [continuation, if_pos ⟨lower, upper⟩, value, Nat.add_sub_cancel]

theorem isScalar_of_char (char : Char) : isScalar char.toNat = true := by
  refine decide_eq_true ?_
  rcases char.valid with low | ⟨high, bounded⟩
  · exact .inl low
  · exact .inr ⟨high, bounded⟩

/-- A character is read back from its encoding. -/
theorem fromUtf8_encode_append (char : Char) (rest : List UInt8) :
    fromUtf8 (String.utf8EncodeChar char ++ rest) = (fromUtf8 rest).map (char :: ·) := by
  have scalar := isScalar_of_char char
  have small : char.toNat < 0x110000 := by
    rcases char.valid with low | ⟨-, bounded⟩
    · exact low.trans (by decide)
    · exact bounded
  have back : Char.ofNat char.toNat = char := char.ofNat_toNat
  have isValue : char.val.toNat = char.toNat := rfl
  unfold String.utf8EncodeChar
  rw [isValue]
  generalize char.toNat = value at scalar small back
  -- the value of a byte that is given as a number below 256
  have byte : ∀ n < 256, (ofNat n).toNat = n := fun n below => toNat_ofNat_of_lt' below
  by_cases one : value ≤ 127
  · rw [if_pos one, singleton_append, fromUtf8.eq_def]
    simp only [lt_iff_toNat_lt, byte value (by omega), reduceToNat]
    rw [if_pos (by omega), back]
  rw [if_neg one]
  by_cases two : value ≤ 2047
  · rw [if_pos two, cons_append, singleton_append, fromUtf8.eq_def]
    simp only [lt_iff_toNat_lt, le_iff_toNat_le, reduceToNat,
      byte (value / 64 % 32 + 192) (by omega)]
    rw [if_neg (by omega), if_pos (by omega), continuation_ofNat (mod_lt _ (by decide)), bind_some]
    have code : (value / 64 % 32 + 192 - 192) * 64 + value % 64 = value := by omega
    rw [code, if_pos (by omega), back]
  rw [if_neg two]
  by_cases three : value ≤ 65535
  · rw [if_pos three, cons_append, cons_append, singleton_append, fromUtf8.eq_def]
    simp only [lt_iff_toNat_lt, le_iff_toNat_le, reduceToNat,
      byte (value / 4096 % 16 + 224) (by omega)]
    rw [if_neg (by omega), if_neg (by omega), if_pos (by omega),
      continuation_ofNat (mod_lt _ (by decide)), bind_some,
      continuation_ofNat (mod_lt _ (by decide)), bind_some]
    have code : (value / 4096 % 16 + 224 - 224) * 4096 + value / 64 % 64 * 64 + value % 64 =
        value := by omega
    rw [code, if_pos ⟨by omega, scalar⟩, back]
  · rw [if_neg three, cons_append, cons_append, cons_append, singleton_append,
      fromUtf8.eq_def]
    simp only [lt_iff_toNat_lt, le_iff_toNat_le, reduceToNat,
      byte (value / 262144 % 8 + 240) (by omega)]
    rw [if_neg (by omega), if_neg (by omega), if_neg (by omega), if_pos (by omega),
      continuation_ofNat (mod_lt _ (by decide)), bind_some,
      continuation_ofNat (mod_lt _ (by decide)), bind_some,
      continuation_ofNat (mod_lt _ (by decide)), bind_some]
    have code : (value / 262144 % 8 + 240 - 240) * 262144 + value / 4096 % 64 * 4096 +
        value / 64 % 64 * 64 + value % 64 = value := by omega
    rw [code, if_pos ⟨by omega, scalar⟩, back]

theorem fromUtf8_toUtf8 (text : List Char) : fromUtf8 (toUtf8 text) = some text := by
  induction text with
  | nil => rfl
  | cons char rest ih =>
    rw [toUtf8, flatMap_cons, fromUtf8_encode_append]
    rw [toUtf8] at ih
    rw [ih, map_some]

theorem toUtf8_injective : Function.Injective toUtf8 := fun text other same =>
  Option.some.inj (by rw [← fromUtf8_toUtf8 text, same, fromUtf8_toUtf8])

end

namespace Unicode

variable (unicode : Unicode)

def trim (name : List Char) : List Char :=
  ((name.dropWhile unicode.isWhitespace).reverse.dropWhile unicode.isWhitespace).reverse

/-- Decode an 8.3 filename from its eleven raw bytes. -/
def decode83Name (raw : List UInt8) : List Char :=
  let base := unicode.trim ((fromUtf8 (raw.take 8)).getD [])
  let ext := unicode.trim ((fromUtf8 ((raw.drop 8).take 3)).getD [])
  if ext = [] then
    unicode.toLowercase base
  else
    unicode.toLowercase base ++ '.' :: unicode.toLowercase ext

/-- Fill the field of the given width with spaces. -/
def padded (width : Nat) (bytes : List UInt8) : List UInt8 :=
  bytes ++ List.replicate (width - bytes.length) 0x20

/-- Encode a filename to 8.3 format, or `none` if it does not fit. -/
def encode83Name (name : List Char) : Option (List UInt8) :=
  let upper := unicode.toUppercase name
  let base := toUtf8 (upper.takeWhile (· ≠ '.'))
  if base = [] ∨ base.length > 8 then
    none
  else
    match upper.dropWhile (· ≠ '.') with
    | [] => some (padded 8 base ++ padded 3 [])
    | _ :: ext =>
      if (toUtf8 ext).length > 3 then none else some (padded 8 base ++ padded 3 (toUtf8 ext))

def sameName (first second : List Char) : Bool :=
  decide (unicode.toLowercase first = unicode.toLowercase second)

end Unicode

/-! ## Directories -/

/-- A directory slot: where it is on disk, and its 32 bytes. -/
structure Slot where
  sector : Nat
  offset : Nat
  raw : List UInt8
  deriving DecidableEq

/-- The characters of a long name entry at the given byte positions, up to the terminator. -/
def lfnChars (raw : List UInt8) : List Nat → List Char
  | [] => []
  | pos :: rest =>
    let ch := Bytes.fromLe [raw.getD pos 0, raw.getD (pos + 1) 0]
    if ch = 0x0000 ∨ ch = 0xFFFF then
      []
    else
      (if ch < 0x80 then Char.ofNat ch else '?') :: lfnChars raw rest

/-- The part of a long name that one entry holds; a terminator only ends its own group. -/
def lfnPart (raw : List UInt8) : List Char :=
  lfnChars raw [1, 3, 5, 7, 9] ++ lfnChars raw [14, 16, 18, 20, 22, 24] ++ lfnChars raw [28, 30]

/-- Insert a part behind all parts whose sequence number is not larger. -/
def insertPart (part : UInt8 × List Char) : List (UInt8 × List Char) → List (UInt8 × List Char)
  | [] => [part]
  | other :: rest => if other.1 ≤ part.1 then other :: insertPart part rest else part :: other :: rest

/-- Sort the parts by sequence number, keeping equal ones in order, and concatenate them. -/
def longName (parts : List (UInt8 × List Char)) : List Char :=
  (parts.foldl (fun sorted part => insertPart part sorted) []).flatMap Prod.snd

namespace Slot

variable (slot : Slot)

def first : UInt8 := slot.raw.getD 0 0

def attr : UInt8 := slot.raw.getD 11 0

def cluster : Nat :=
  Bytes.fromLe [slot.raw.getD 26 0, slot.raw.getD 27 0, slot.raw.getD 20 0, slot.raw.getD 21 0]

def size : Nat :=
  Bytes.fromLe [slot.raw.getD 28 0, slot.raw.getD 29 0, slot.raw.getD 30 0, slot.raw.getD 31 0]

def isDir : Bool := decide (slot.attr &&& attrDirectory ≠ 0)

/-- The slot can take a new entry: end of directory or deleted. -/
def isVacant : Bool := decide (slot.first = 0x00 ∨ slot.first = 0xE5)

/-- The entry of a slot that is listed under the name. -/
def entry (name : List Char) : DirEntry where
  name := name
  isDir := slot.isDir
  size := slot.size
  cluster := slot.cluster
  entrySector := slot.sector
  entryOffset := slot.offset

end Slot

inductive Sight where
  | endOfDir
  | passed (parts : List (UInt8 × List Char))
  | entry (found : DirEntry)

namespace Unicode

variable (unicode : Unicode)

/-- Look at one slot, with the long name parts collected before it. -/
def look (parts : List (UInt8 × List Char)) (slot : Slot) : Sight :=
  if slot.first = 0x00 then
    .endOfDir
  else if slot.first = 0xE5 then
    .passed []
  else if slot.attr = attrLfn then
    .passed (parts ++ [(slot.first &&& 0x3F, lfnPart slot.raw)])
  else if slot.attr &&& attrVolumeId ≠ 0 then
    .passed []
  else
    let name := if parts ≠ [] then longName parts else unicode.decode83Name (slot.raw.take 11)
    if name = ['.'] ∨ name = ['.', '.'] then .passed [] else .entry (slot.entry name)

def scan : List (UInt8 × List Char) → List Slot → List DirEntry
  | _, [] => []
  | parts, slot :: rest =>
    match unicode.look parts slot with
    | .endOfDir => []
    | .passed parts => scan parts rest
    | .entry found => found :: scan [] rest

end Unicode

namespace Fat32State

variable (st : Fat32State)

def clusterSectors (cluster : Nat) : List Nat :=
  List.range' (st.clusterToSector cluster) st.sectorsPerCluster

/-- The sixteen slots of a directory sector; a sector that cannot be read is passed over. -/
def sectorSlots (disk : Disk) (lba : Nat) : List Slot :=
  match disk.readBlock lba with
  | none => []
  | some sector => (List.range 16).map fun i => ⟨lba, i * 32, Bytes.window sector (i * 32) 32⟩

def dirSlots (disk : Disk) (chain : List Nat) : List Slot :=
  (chain.flatMap st.clusterSectors).flatMap (sectorSlots disk)

def readDir (unicode : Unicode) (disk : Disk) (dirCluster : Nat) : List DirEntry :=
  unicode.scan [] (st.dirSlots disk (st.clusterChain disk dirCluster))

def findEntry (unicode : Unicode) (disk : Disk) (dirCluster : Nat) (name : List Char) :
    Option DirEntry :=
  (st.readDir unicode disk dirCluster).find? fun entry => unicode.sameName entry.name name

/-! ## Files -/

def readSectors (disk : Disk) : List Nat → Nat → List UInt8
  | [], _ => []
  | lba :: rest, remaining =>
    if remaining = 0 then
      []
    else
      match disk.readBlock lba with
      | none => []
      | some sector =>
        let chunk := min remaining 512
        Bytes.window sector 0 chunk ++ readSectors disk rest (remaining - chunk)

def readFile (disk : Disk) (entry : DirEntry) : List UInt8 :=
  if entry.cluster < 2 then
    []
  else
    readSectors disk ((st.clusterChain disk entry.cluster).flatMap st.clusterSectors) entry.size

/-- Allocate a number of clusters; `false` when the table is exhausted. -/
def allocClusters (disk : Disk) : Nat → List Nat → Bool × List Nat × Disk
  | 0, clusters => (true, clusters, disk)
  | count + 1, clusters =>
    match st.fatAlloc disk with
    | (some cluster, disk) => allocClusters disk count (clusters ++ [cluster])
    | (none, disk) => (false, clusters, disk)

def releaseClusters (disk : Disk) (clusters : List Nat) : Disk :=
  clusters.foldl (fun disk cluster => (st.fatWrite disk cluster fatFree).2) disk

def linkClusters (disk : Disk) : List Nat → Disk
  | first :: second :: rest =>
    linkClusters (st.fatWrite disk first second).2 (second :: rest)
  | _ => disk

def zeroSector : Sector := fun _ => 0

/-- Write the data sector by sector and zero what is left; `false` when a data write fails. -/
def writeSectors (disk : Disk) : List Nat → List UInt8 → Bool × Disk
  | [], _ => (true, disk)
  | lba :: rest, [] => writeSectors (disk.writeBlock lba zeroSector).2 rest []
  | lba :: rest, byte :: bytes =>
    let data := byte :: bytes
    match disk.writeBlock lba (Bytes.overlay zeroSector 0 (data.take 512)) with
    | (false, disk) => (false, disk)
    | (true, disk) => writeSectors disk rest (data.drop 512)

/-- Write data into newly allocated clusters; the first cluster, or `none`. -/
def writeDataClusters (disk : Disk) (data : List UInt8) : Option Nat × Disk :=
  if data = [] then
    (some 0, disk)
  else
    let clusterSize := st.sectorsPerCluster * 512
    let numClusters := (data.length + clusterSize - 1) / clusterSize
    match st.allocClusters disk numClusters [] with
    | (false, clusters, disk) => (none, st.releaseClusters disk clusters)
    | (true, clusters, disk) =>
      let disk := st.linkClusters disk clusters
      match writeSectors disk (clusters.flatMap st.clusterSectors) data with
      | (false, disk) => (none, disk)
      | (true, disk) => (clusters.head?, disk)

/-- The bytes of an entry that hold cluster and size replaced. -/
def patchClusterSize (raw : List UInt8) (cluster size : Nat) : List UInt8 :=
  let bytes := Bytes.toLe 4 cluster
  raw.take 20 ++ bytes.drop 2 ++ (raw.drop 22).take 4 ++ bytes.take 2 ++ Bytes.toLe 4 size

def updateDirEntryClusterSize (disk : Disk) (entrySector entryOffset cluster size : Nat) :
    Bool × Disk :=
  match disk.readBlock entrySector with
  | none => (false, disk)
  | some sector =>
    disk.writeBlock entrySector (Bytes.overlay sector entryOffset
      (patchClusterSize (Bytes.window sector entryOffset 32) cluster size))

def rawEntry (shortName : List UInt8) (attr : UInt8) (cluster size : Nat) : List UInt8 :=
  let bytes := Bytes.toLe 4 cluster
  shortName ++ [attr] ++ List.replicate 8 0 ++ bytes.drop 2 ++ List.replicate 4 0 ++
    bytes.take 2 ++ Bytes.toLe 4 size

def entryAttr (isDir : Bool) : UInt8 := if isDir then attrDirectory ||| attrArchive else attrArchive

/-- Zero the sectors of a cluster; a write that fails is ignored. -/
def zeroCluster (disk : Disk) (cluster : Nat) : Disk :=
  (st.clusterSectors cluster).foldl (fun disk lba => (disk.writeBlock lba zeroSector).2) disk

/-- Create a new directory entry in a directory, extending the directory if it is full. -/
def createDirEntry (unicode : Unicode) (disk : Disk) (dirCluster : Nat) (name : List Char)
    (isDir : Bool) (cluster size : Nat) : Bool × Disk :=
  match unicode.encode83Name name with
  | none => (false, disk)
  | some shortName =>
    let chain := st.clusterChain disk dirCluster
    let entry := rawEntry shortName (entryAttr isDir) cluster size
    match (st.dirSlots disk chain).find? Slot.isVacant with
    | some slot =>
      match disk.readBlock slot.sector with
      | none => (false, disk)
      | some sector => disk.writeBlock slot.sector (Bytes.overlay sector slot.offset entry)
    | none =>
      match st.fatAlloc disk with
      | (none, disk) => (false, disk)
      | (some newCluster, disk) =>
        let disk := (st.fatWrite disk (chain.getLast?.getD dirCluster) newCluster).2
        let disk := st.zeroCluster disk newCluster
        disk.writeBlock (st.clusterToSector newCluster) (Bytes.overlay zeroSector 0 entry)

/--
Write data to a file, creating or overwriting it.  The result is `none` only
if the old chain is longer than the bound on the number of steps.
-/
def writeFile (unicode : Unicode) (fuel : Nat) (disk : Disk) (dirCluster : Nat)
    (name : List Char) (data : List UInt8) : Option (Bool × Disk) :=
  match st.findEntry unicode disk dirCluster name with
  | some entry => do
      let disk ← if entry.cluster ≥ 2 then st.fatFreeChain disk fuel entry.cluster else some disk
      let (newCluster, disk) := st.writeDataClusters disk data
      let (_, disk) := updateDirEntryClusterSize disk entry.entrySector entry.entryOffset
        (newCluster.getD 0) (data.length % 2 ^ 32)
      some (true, disk)
  | none =>
    let (newCluster, disk) := if data ≠ [] then st.writeDataClusters disk data else (some 0, disk)
    some (st.createDirEntry unicode disk dirCluster name false (newCluster.getD 0)
      (data.length % 2 ^ 32))

/-- The name field of the two entries that every subdirectory starts with. -/
def dotName (dots : Nat) : List UInt8 := List.replicate dots 0x2E ++ List.replicate (11 - dots) 0x20

def mkdir (unicode : Unicode) (disk : Disk) (parentCluster : Nat) (name : List Char) :
    Bool × Disk :=
  if (st.findEntry unicode disk parentCluster name).isSome then
    (false, disk)
  else
    match st.fatAlloc disk with
    | (none, disk) => (false, disk)
    | (some dirCluster, disk) =>
      let disk := st.zeroCluster disk dirCluster
      let dots := rawEntry (dotName 1) attrDirectory dirCluster 0 ++
        rawEntry (dotName 2) attrDirectory parentCluster 0
      match disk.writeBlock (st.clusterToSector dirCluster) (Bytes.overlay zeroSector 0 dots) with
      | (false, disk) => (false, disk)
      | (true, disk) => st.createDirEntry unicode disk parentCluster name true dirCluster 0

def delete (unicode : Unicode) (fuel : Nat) (disk : Disk) (dirCluster : Nat) (name : List Char) :
    Option (Bool × Disk) :=
  match st.findEntry unicode disk dirCluster name with
  | none => some (false, disk)
  | some entry =>
    if entry.isDir ∧ st.readDir unicode disk entry.cluster ≠ [] then
      some (false, disk)
    else do
      let disk ← if entry.cluster ≥ 2 then st.fatFreeChain disk fuel entry.cluster else some disk
      match disk.readBlock entry.entrySector with
      | none => some (false, disk)
      | some sector =>
        some (disk.writeBlock entry.entrySector (Bytes.overlay sector entry.entryOffset [0xE5]))

end Fat32State

end CantayaOS.Storage
