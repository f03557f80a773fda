import Chimera.Lib.Bytes
import Chimera.Vfs.Model

/-!
# The FAT32 driver

`fat32.c` keeps the geometry of the mounted volume, a bitmap of free clusters, one cached sector of the FAT
and a table of nodes, one for each file or directory; the rest is on the disk. A cluster is used if its
entry in the FAT is not zero, and the entry leads to the next cluster of the chain.

The disk is a memory of bytes, of which sectors are read and written. Each access to a sector may fail, as
`fault` says; a write may also fail after the sector has been stored. A call that takes `s_fat_lock` while
it holds it never returns (`Stop.deadlock`). A walk along a chain need not end, and has a bound
(`Stop.fuel`).
-/

namespace Chimera

open Lib

/-! ## State -/

/-- What happens at an access to a sector. -/
inductive Fault where
  | none
  | refused
  | late
  deriving DecidableEq, Repr

/-- Why a call does not return. -/
inductive Stop where
  | deadlock
  | fuel
  deriving DecidableEq, Repr

inductive FatErr where
  | generic
  | noResource
  | invalid
  | overflow
  | notFound
  | notSupported
  deriving DecidableEq, Repr

/-- `g_fat32`. -/
structure Volume where
  sectorsPerCluster : ℕ
  reservedSectors : ℕ
  numFats : ℕ
  totalSectors : ℕ
  sectorsPerFat : ℕ
  rootCluster : ℕ
  dataStartLba : ℕ
  clusterSizeBytes : ℕ
  mounted : Bool
  deriving DecidableEq, Repr

/-- `fat32_node_data_t`. -/
structure FatNode where
  startCluster : ℕ
  fileSize : ℕ
  isDir : Bool
  path : PathName
  parentDirCluster : ℕ
  dirEntryOffset : ℕ
  deriving DecidableEq, Repr

/-- The driver, the drive and the name space. Bit `i` of the bitmap is set if cluster `i + 2` is free. -/
structure Fat where
  vol : Volume
  disk : Bytes
  sectorCount : ℕ
  fault : ℕ → Fault
  clock : ℕ
  locked : Bool
  bitmap : Option (ℕ → Bool)
  bitmapClusters : ℕ
  freeHint : ℕ
  cached : Option (ℕ × Bytes)
  node : ℕ → FatNode
  nodeCount : ℕ
  vfs : Vfs

def sectorSize : ℕ := 512

/-- Arithmetic of 32 bits. -/
def word32 (x : ℕ) : ℕ := x % 2 ^ 32

def sub32 (x y : ℕ) : ℕ := if y ≤ x then x - y else x + 2 ^ 32 - y

namespace Fat

def setNode (s : Fat) (n : ℕ) (nd : FatNode) : Fat := { s with node := Function.update s.node n nd }

def lock (s : Fat) : Except Stop Fat := if s.locked then .error .deadlock else .ok { s with locked := true }

def unlock (s : Fat) : Fat := { s with locked := false }

def stored (s : Fat) (disk : Bytes) (clock : ℕ) : Fat := { s with disk := disk, clock := clock }

def dropCache (s : Fat) : Fat := { s with cached := none }

def setCache (s : Fat) (sec : ℕ) (buf : Bytes) : Fat := { s with cached := some (sec, buf) }

def raiseHint (s : Fat) (c : ℕ) : Fat := { s with freeHint := if s.freeHint < c then c else s.freeHint }

end Fat

/-! ## The drive -/

def ataReadSectors (s : Fat) (lba count : ℕ) : Option Bytes × Fat :=
  if s.sectorCount < lba + count then (none, s)
  else
    (if ∀ i < count, s.fault (s.clock + i) = .none then some (fun b => s.disk (sectorSize * lba + b))
      else none, { s with clock := s.clock + count })

/-- Sectors `i`, `i + 1`, … of a buffer, as many as are left. -/
def writeSectorsFrom (s : Fat) (lba : ℕ) (buf : Bytes) : ℕ → ℕ → Bool × Fat
  | 0, _ => (true, s)
  | n + 1, i =>
      let disk := overlay s.disk (sectorSize * (lba + i)) sectorSize fun b => buf (sectorSize * i + b)
      match s.fault s.clock with
      | .none => writeSectorsFrom (s.stored disk (s.clock + 1)) lba buf n (i + 1)
      | .refused => (false, s.stored s.disk (s.clock + 1))
      | .late => (false, s.stored disk (s.clock + 1))

def ataWriteSectors (s : Fat) (lba count : ℕ) (buf : Bytes) : Bool × Fat :=
  if s.sectorCount < lba + count then (false, s) else writeSectorsFrom s lba buf count 0

/-! ## The FAT -/

def clusterToLba (v : Volume) (cluster : ℕ) : ℕ :=
  word32 (v.dataStartLba + sub32 cluster 2 * v.sectorsPerCluster)

def endOfChain : ℕ := 0x0FFFFFFF

/-- A number that names a cluster: not the end of a chain, and no reserved one. -/
def isCluster (c : ℕ) : Prop := 2 ≤ c ∧ c < 0x0FFFFFF8

instance (c : ℕ) : Decidable (isCluster c) := inferInstanceAs (Decidable (_ ∧ _))

/-- A sector of the FAT is read into the cache, for the entry at `off`. -/
def loadFatSector (s : Fat) (sec off : ℕ) : ℕ × Fat :=
  match ataReadSectors s sec 1 with
  | (none, s) => (endOfChain, s)
  | (some buf, s) => (readLE buf off 4 % 2 ^ 28, s.setCache sec buf)

def getNextClusterUnlocked (s : Fat) (cluster : ℕ) : ℕ × Fat :=
  if isCluster cluster then
    let fatSector := word32 (s.vol.reservedSectors + cluster * 4 / sectorSize)
    let entryOffset := cluster * 4 % sectorSize
    match s.cached with
    | some (sec, buf) =>
        if sec = fatSector then (readLE buf entryOffset 4 % 2 ^ 28, s) else loadFatSector s fatSector entryOffset
    | none => loadFatSector s fatSector entryOffset
  else (endOfChain, s)

def getNextCluster (s : Fat) (cluster : ℕ) : Except Stop (ℕ × Fat) := do
  let s ← s.lock
  let (next, s) := getNextClusterUnlocked s cluster
  return (next, s.unlock)

def bitmapMarkUsed (s : Fat) (bits : ℕ → Bool) (cluster : ℕ) : Fat :=
  { s with bitmap := some (Function.update bits (cluster - 2) false) }

def bitmapMarkFree (s : Fat) (bits : ℕ → Bool) (cluster : ℕ) : Fat :=
  { s with
    bitmap := some (Function.update bits (cluster - 2) true)
    freeHint := if cluster < s.freeHint then cluster else s.freeHint }

/-- The first part of `fat32_set_fat_entry`. -/
def syncBitmap (s : Fat) (cluster val : ℕ) : Fat :=
  match s.bitmap with
  | none => s
  | some bits =>
      if cluster - 2 < s.bitmapClusters then
        if val % 2 ^ 28 = 0 then (if bits (cluster - 2) then s else bitmapMarkFree s bits cluster)
        else if bits (cluster - 2) then bitmapMarkUsed s bits cluster else s
      else s

/-- The second part: the entry is changed in the first FAT, and its sector is stored in both. -/
def storeFatEntry (s : Fat) (cluster val : ℕ) : Bool × Fat :=
  let sectorIdx := cluster * 4 / sectorSize
  let entryOffset := cluster * 4 % sectorSize
  match ataReadSectors s (word32 (s.vol.reservedSectors + sectorIdx)) 1 with
  | (none, s) => (false, s)
  | (some buf, s) =>
      let orig := readLE buf entryOffset 4
      let buf := writeLE buf entryOffset 4 (val % 2 ^ 28 + orig / 2 ^ 28 * 2 ^ 28)
      match ataWriteSectors s (word32 (s.vol.reservedSectors + sectorIdx)) 1 buf with
      | (false, s) => (false, s)
      | (true, s) => ataWriteSectors s (word32 (s.vol.reservedSectors + s.vol.sectorsPerFat + sectorIdx)) 1 buf

def setFatEntry (s : Fat) (cluster val : ℕ) : Bool × Fat :=
  if isCluster cluster then storeFatEntry (syncBitmap s cluster val).dropCache cluster val else (false, s)

/-- The first set bit from `lo` on. -/
def firstFree (bits : ℕ → Bool) (lo hi : ℕ) : Option ℕ := (List.range' lo (hi - lo)).find? fun i => bits i

/-- From the hint to the end, then from the start to the hint. -/
def findFree (s : Fat) (bits : ℕ → Bool) : Option ℕ :=
  let start := if 2 ≤ s.freeHint then s.freeHint - 2 else 0
  match firstFree bits start s.bitmapClusters with
  | some i => some i
  | none => firstFree bits 0 (min start s.bitmapClusters)

/-- The first free cluster in a sector of the FAT. -/
def freeInSector (buf : Bytes) (sec total : ℕ) : Option ℕ :=
  (List.range (sectorSize / 4)).findSome? fun i =>
    let c := word32 (sec * sectorSize + 4 * i) / 4
    if 2 ≤ c ∧ c < total + 2 ∧ readLE buf (4 * i) 4 % 2 ^ 28 = 0 then some c else none

/-- The search without a bitmap: `n` sectors are left, from `sec` on. -/
def scanFat (s : Fat) (total : ℕ) : ℕ → ℕ → ℕ × Fat
  | 0, _ => (0, s)
  | n + 1, sec =>
      match ataReadSectors s (word32 (s.vol.reservedSectors + sec)) 1 with
      | (none, s) => (0, s)
      | (some buf, s) =>
          match freeInSector buf sec total with
          | some c => (c, s)
          | none => scanFat s total n (sec + 1)

def zeroSectors (s : Fat) (lba : ℕ) : ℕ → ℕ → Fat
  | 0, _ => s
  | n + 1, i => zeroSectors (ataWriteSectors s (word32 (lba + i)) 1 fun _ => 0).2 lba n (i + 1)

/-- The number of data clusters that the driver computes. -/
def totalClusters (v : Volume) : ℕ := sub32 v.totalSectors v.dataStartLba / v.sectorsPerCluster

/-- A cluster that was found is entered in the FAT and cleared on the disk. -/
def takeCluster (s : Fat) (cluster : ℕ) : ℕ × Fat :=
  let s := (setFatEntry s cluster endOfChain).2
  let s := zeroSectors s (clusterToLba s.vol cluster) s.vol.sectorsPerCluster 0
  (cluster, s.raiseHint (cluster + 1))

/-- A new cluster, or 0. -/
def allocCluster (s : Fat) : ℕ × Fat :=
  match s.bitmap with
  | some bits =>
      match findFree s bits with
      | none => (0, s)
      | some i => takeCluster (bitmapMarkUsed s bits (i + 2)) (i + 2)
  | none =>
      match scanFat s (totalClusters s.vol) s.vol.sectorsPerFat 0 with
      | (0, s) => (0, s)
      | (c + 1, s) => takeCluster s (c + 1)

def freeClusterChainUnlocked : ℕ → Fat → ℕ → Except Stop Fat
  | 0, s, cluster => if isCluster cluster then .error .fuel else .ok s
  | fuel + 1, s, cluster =>
      if isCluster cluster then
        let (next, s) := getNextClusterUnlocked s cluster
        freeClusterChainUnlocked fuel (setFatEntry s cluster 0).2 next
      else .ok s

/-! ## Names -/

def upperChar (c : Char) : Char := if 'a' ≤ c ∧ c ≤ 'z' then Char.ofNat (c.toNat - 32) else c

/-- Eight characters and three, filled up with blanks. -/
def pad83 (name ext : PathName) : PathName :=
  (name.take 8 ++ List.replicate (8 - name.length) ' ') ++ (ext.take 3 ++ List.replicate (3 - ext.length) ' ')

/-- The part before the last dot, if there is a dot, and the part after it. -/
def splitLastDot (name : PathName) : Option (PathName × PathName) :=
  match name.reverse.dropWhile (· ≠ '.') with
  | [] => none
  | _ :: before => some (before.reverse, (name.reverse.takeWhile (· ≠ '.')).reverse)

def make83Name (name : PathName) : PathName :=
  let upper := (name.take 63).map upperChar
  match splitLastDot upper with
  | some (base, ext) => pad83 base ext
  | none => pad83 upper []

/-! ## Directory entries -/

/-- The byte of a character. -/
def charByte (c : Char) : BitVec 8 := BitVec.ofNat 8 c.toNat

/-- The fields that `fat32_update_dir_entry` writes: the first cluster in two halves, and the size. -/
def putStartAndSize (sec : Bytes) (off start size : ℕ) : Bytes :=
  writeLE (writeLE (writeLE sec (off + 20) 2 (start / 2 ^ 16 % 2 ^ 16)) (off + 26) 2 (start % 2 ^ 16))
    (off + 28) 4 size

/-- A new entry of 32 bytes. -/
def putDirEntry (sec : Bytes) (off : ℕ) (name : PathName) (attr : BitVec 8) (start : ℕ) : Bytes :=
  putStartAndSize (putBytes (putBytes (fill sec off 32 0) off (name.map charByte)) (off + 11) [attr]) off start 0

/-- Where an entry of a directory is: the cluster, `n` clusters behind the first. Each step takes the
lock. -/
def walkDirLocking (s : Fat) (cluster : ℕ) : ℕ → Except Stop (ℕ × Fat)
  | 0 => .ok (cluster, s)
  | n + 1 =>
      if isCluster cluster then do
        let (next, s) ← getNextCluster s cluster
        walkDirLocking s next n
      else .ok (cluster, s)

/-- The same walk without the lock. -/
def walkDir (s : Fat) (cluster : ℕ) : ℕ → ℕ × Fat
  | 0 => (cluster, s)
  | n + 1 =>
      if isCluster cluster then
        let (next, s) := getNextClusterUnlocked s cluster
        walkDir s next n
      else (cluster, s)

/-- The first cluster and the size of a node are put into its entry, in this cluster of the directory. -/
def storeStartAndSize (s : Fat) (nd : FatNode) (cluster : ℕ) : Bool × Fat :=
  let offset := nd.dirEntryOffset % s.vol.clusterSizeBytes
  if isCluster cluster then
    let lba := word32 (clusterToLba s.vol cluster + offset / sectorSize)
    match ataReadSectors s lba 1 with
    | (none, s) => (false, s)
    | (some sec, s) =>
        ataWriteSectors s lba 1 (putStartAndSize sec (offset % sectorSize) nd.startCluster nd.fileSize)
  else (false, s)

def updateDirEntry (s : Fat) (nd : FatNode) : Except Stop (Bool × Fat) :=
  if nd.parentDirCluster < 2 then .ok (true, s)
  else do
    let (cluster, s) ← walkDirLocking s nd.parentDirCluster (nd.dirEntryOffset / s.vol.clusterSizeBytes)
    return storeStartAndSize s nd cluster

/-! ## Reading -/

/-- The sectors of a cluster that fit the buffer of 4096 bytes. -/
def bufSectors (v : Volume) : ℕ := min v.sectorsPerCluster 8

/-- The loop over the clusters before the offset. -/
def skipClusters (s : Fat) (cluster : ℕ) : ℕ → Except Stop (Except FatErr ℕ × Fat)
  | 0 => .ok (.ok cluster, s)
  | n + 1 => do
      let (next, s) ← getNextCluster s cluster
      if isCluster next then skipClusters s next n else .ok (.error .generic, s)

/-- The loop that reads, with what has been read. -/
def readLoop : ℕ → Fat → ℕ → ℕ → ℕ → List (BitVec 8) → Except Stop (Except FatErr (List (BitVec 8)) × Fat)
  | 0, _, _, _, _, _ => .error .fuel
  | fuel + 1, s, cluster, clusterOffset, left, acc =>
      if 0 < left ∧ isCluster cluster then
        match ataReadSectors s (clusterToLba s.vol cluster) (bufSectors s.vol) with
        | (none, s) => .ok (.error .generic, s)
        | (some buf, s) => do
            let chunk := min left (bufSectors s.vol * sectorSize - clusterOffset)
            let acc := acc ++ bytesAt buf clusterOffset chunk
            if 0 < left - chunk then
              let (next, s) ← getNextCluster s cluster
              readLoop fuel s next 0 (left - chunk) acc
            else .ok (.ok acc, s)
      else .ok (.ok acc, s)

/-- What is read, without the bytes of a call that fails. -/
def readFile (s : Fat) (start size offset len : ℕ) : Except Stop (Except FatErr (List (BitVec 8)) × Fat) :=
  if ¬s.vol.mounted ∨ start < 2 ∨ size ≤ offset ∨ len = 0 then .ok (.ok [], s)
  else do
    let toRead := if size < word32 (offset + len) then size - offset else len
    let (r, s) ← skipClusters s start (offset / s.vol.clusterSizeBytes)
    match r with
    | .error e => return (.error e, s)
    | .ok cluster => readLoop (toRead + 2) s cluster (offset % s.vol.clusterSizeBytes) toRead []

/-! ## Writing -/

/-- The next cluster of a chain; a new one is linked to it where it ends. -/
def nextOrAlloc (s : Fat) (cluster : ℕ) : Option ℕ × Fat :=
  match getNextClusterUnlocked s cluster with
  | (next, s) =>
      if isCluster next then (some next, s)
      else
        match allocCluster s with
        | (new, s) => if new < 2 then (none, s) else (some new, (setFatEntry s cluster new).2)

def advanceAlloc (s : Fat) (cluster : ℕ) : ℕ → Option ℕ × Fat
  | 0 => (some cluster, s)
  | n + 1 =>
      match nextOrAlloc s cluster with
      | (none, s) => (none, s)
      | (some next, s) => advanceAlloc s next n

/-- What the buffer holds before a cluster is changed: the cluster, unless all of it is to be written. A
read that fails leaves the buffer as it was. -/
def loadCluster (s : Fat) (cluster clusterOffset len : ℕ) (buf : Bytes) : Bytes × Fat :=
  if clusterOffset ≠ 0 ∨ len < bufSectors s.vol * sectorSize then
    match ataReadSectors s (clusterToLba s.vol cluster) (bufSectors s.vol) with
    | (some old, s) => (old, s)
    | (none, s) => (buf, s)
  else (buf, s)

/-- One cluster is changed and written. The buffer is kept from one cluster to the next. -/
def writeCluster (s : Fat) (cluster clusterOffset : ℕ) (data : List (BitVec 8)) (buf : Bytes) :
    Bool × Bytes × Fat :=
  match loadCluster s cluster clusterOffset data.length buf with
  | (buf, s) =>
      let chunk := min data.length (bufSectors s.vol * sectorSize - clusterOffset)
      let buf := putBytes buf clusterOffset (data.take chunk)
      match ataWriteSectors s (clusterToLba s.vol cluster) (bufSectors s.vol) buf with
      | (ok, s) => (ok, buf, s)

/-- The loop that writes, with the number of bytes written. -/
def writeLoop : ℕ → Fat → ℕ → ℕ → List (BitVec 8) → Bytes → ℕ → Except Stop (Except FatErr ℕ × Fat)
  | 0, _, _, _, _, _, _ => .error .fuel
  | fuel + 1, s, cluster, clusterOffset, data, buf, written =>
      if data = [] then .ok (.ok written, s)
      else
        match writeCluster s cluster clusterOffset data buf with
        | (false, _, s) => .ok (.error .generic, s)
        | (true, buf, s) =>
            let chunk := min data.length (bufSectors s.vol * sectorSize - clusterOffset)
            if data.length ≤ chunk then .ok (.ok (written + chunk), s)
            else
              match nextOrAlloc s cluster with
              | (none, s) => .ok (.ok (written + chunk), s)
              | (some next, s) => writeLoop fuel s next 0 (data.drop chunk) buf (written + chunk)

/-- The first cluster of an empty file. -/
def ensureStart (s : Fat) (n : ℕ) : Except Stop (Bool × Fat) :=
  if 2 ≤ (s.node n).startCluster then .ok (true, s)
  else
    match allocCluster s with
    | (new, s) =>
        let nd := { s.node n with startCluster := new }
        let s := s.setNode n nd
        if new < 2 then .ok (false, s)
        else do
          let (_, s) ← updateDirEntry s nd
          return (true, s)

/-- The end of `fat32_write_node`: the file may have grown. -/
def finishWrite (s : Fat) (n size : ℕ) : Except Stop Fat :=
  if (s.node n).fileSize < size then do
    let nd := { s.node n with fileSize := size }
    let (_, s) ← updateDirEntry (s.setNode n nd) nd
    return s
  else .ok s

def writeNode (s : Fat) (n offset : ℕ) (data : List (BitVec 8)) : Except Stop (Except FatErr ℕ × Fat) :=
  if ¬s.vol.mounted ∨ data = [] then .ok (.ok 0, s)
  else do
    let s ← s.lock
    let (ok, s) ← ensureStart s n
    if ok then
      match advanceAlloc s (s.node n).startCluster (offset / s.vol.clusterSizeBytes) with
      | (none, s) => return (.error .noResource, s.unlock)
      | (some cluster, s) =>
          let (r, s) ← writeLoop (data.length + 2) s cluster (offset % s.vol.clusterSizeBytes) data
            (fun _ => 0) 0
          match r with
          | .error e => return (.error e, s.unlock)
          | .ok written =>
              let s ← finishWrite s n (word32 (offset + written))
              return (.ok written, s.unlock)
    else return (.error .noResource, s.unlock)

/-! ## Changing the size -/

/-- Up to `n` steps along a chain, not beyond its end. -/
def walkChain (s : Fat) (cluster : ℕ) : ℕ → (ℕ × ℕ) × Fat
  | 0 => ((cluster, 0), s)
  | n + 1 =>
      match getNextClusterUnlocked s cluster with
      | (next, s) =>
          if isCluster next then
            match walkChain s next n with
            | ((last, steps), s) => ((last, steps + 1), s)
          else ((cluster, 0), s)

/-- `n` new clusters at the end of a chain. -/
def growChain (s : Fat) (cluster : ℕ) : ℕ → Bool × Fat
  | 0 => (true, s)
  | n + 1 =>
      match allocCluster s with
      | (new, s) => if new < 2 then (false, s) else growChain (setFatEntry s cluster new).2 new n

/-- `n` sectors are left. -/
def zeroTailFrom (s : Fat) (lba off : ℕ) : ℕ → Bool × Fat
  | 0 => (true, s)
  | n + 1 =>
      if off < s.vol.clusterSizeBytes then
        let secLba := word32 (lba + off / sectorSize)
        let secOff := off % sectorSize
        match ataReadSectors s secLba 1 with
        | (none, s) => (false, s)
        | (some sec, s) =>
            match ataWriteSectors s secLba 1 (fill sec secOff (sectorSize - secOff) 0) with
            | (false, s) => (false, s)
            | (true, s) => zeroTailFrom s lba (off + (sectorSize - secOff)) n
      else (true, s)

def zeroClusterTail (s : Fat) (cluster fromOff : ℕ) : Bool × Fat :=
  zeroTailFrom s (clusterToLba s.vol cluster) fromOff (s.vol.sectorsPerCluster + 1)

/-- The number of clusters for a size. -/
def clustersFor (v : Volume) (size : ℕ) : ℕ := word32 ((size + v.clusterSizeBytes - 1) / v.clusterSizeBytes)

/-- Growing from empty: the file gets a first cluster, and the entry of the directory is left as it is. -/
def resizeStart (s : Fat) (n needed : ℕ) : Bool × Fat :=
  if 0 < needed ∧ (s.node n).startCluster < 2 then
    match allocCluster s with
    | (new, s) =>
        if new < 2 then (false, s) else (true, s.setNode n { s.node n with startCluster := new })
  else (true, s)

/-- New clusters for a file that grows. -/
def resizeGrow (s : Fat) (n needed oldClusters : ℕ) : Bool × Fat :=
  if oldClusters < needed ∧ 2 ≤ (s.node n).startCluster then
    match walkChain s (s.node n).startCluster (oldClusters - 1) with
    | ((last, steps), s) => growChain s last (needed - (1 + steps))
  else (true, s)

/-- The rest of the last cluster of a file that grows is cleared. -/
def resizeZeroTail (s : Fat) (n newSize : ℕ) : Bool × Fat :=
  let oldSize := (s.node n).fileSize
  let clusterSize := s.vol.clusterSizeBytes
  if oldSize < newSize ∧ 0 < oldSize ∧ oldSize % clusterSize ≠ 0 ∧ 2 ≤ (s.node n).startCluster then
    match walkChain s (s.node n).startCluster ((oldSize - 1) / clusterSize) with
    | ((last, _), s) => zeroClusterTail s last (oldSize % clusterSize)
  else (true, s)

/-- The clusters that a file no longer needs are freed. -/
def resizeShrink (fuel : ℕ) (s : Fat) (n needed oldClusters : ℕ) : Except Stop Fat :=
  if needed < oldClusters ∧ 2 ≤ (s.node n).startCluster then
    if needed = 0 then do
      let s ← freeClusterChainUnlocked fuel s (s.node n).startCluster
      return s.setNode n { s.node n with startCluster := 0 }
    else
      match walkChain s (s.node n).startCluster (needed - 1) with
      | ((last, _), s) =>
          match getNextClusterUnlocked s last with
          | (tail, s) =>
              let s := (setFatEntry s last endOfChain).2
              if isCluster tail then freeClusterChainUnlocked fuel s tail else .ok s
  else .ok s

def resizeNode (fuel : ℕ) (s : Fat) (n newSize : ℕ) : Except Stop (Except FatErr Unit × Fat) :=
  if ¬s.vol.mounted then .ok (.error .invalid, s)
  else if 0xFFFFFFFF < newSize then .ok (.error .overflow, s)
  else do
    let s ← s.lock
    let oldClusters := clustersFor s.vol (s.node n).fileSize
    let needed := clustersFor s.vol newSize
    match resizeStart s n needed with
    | (false, s) => return (.error .noResource, s.unlock)
    | (true, s) =>
        match resizeGrow s n needed oldClusters with
        | (false, s) => return (.error .noResource, s.unlock)
        | (true, s) =>
            match resizeZeroTail s n newSize with
            | (false, s) => return (.error .generic, s.unlock)
            | (true, s) =>
                let s ← resizeShrink fuel s n needed oldClusters
                let nd := { s.node n with fileSize := newSize }
                let (ok, s) ← updateDirEntry (s.setNode n nd) nd
                return (if ok then .ok () else .error .generic, s.unlock)

/-! ## Creating and removing -/

/-- The directory and the name of a path. -/
def splitParentChild (path : PathName) : PathName × PathName :=
  (if '/' ∈ path then parentDir path else ['/'], (baseName path).take 63)

/-- The first cluster of a directory: `v_data` is the node of a FAT32 vnode, and null for another. -/
def dirCluster (s : Fat) : VnodeRef → ℕ
  | .other i => (s.node i).startCluster
  | _ => s.vol.rootCluster

/-- The first entry of a cluster that was never used or is deleted. -/
def freeSlotIn (buf : Bytes) (size : ℕ) : Option ℕ :=
  ((List.range (size / 32)).find? fun i => buf (32 * i) = 0 ∨ buf (32 * i) = 0xE5).map (32 * ·)

/-- A place for an entry: sector, offset in the sector, offset in the directory. Files extend a directory
that is full. -/
def findSlot (extend : Bool) : ℕ → Fat → ℕ → ℕ → Except Stop (Except FatErr (ℕ × ℕ × ℕ) × Fat)
  | 0, _, _, _ => .error .fuel
  | fuel + 1, s, cluster, base =>
      if isCluster cluster then
        let lba := clusterToLba s.vol cluster
        match ataReadSectors s lba (bufSectors s.vol) with
        | (none, s) => .ok (.error .noResource, s)
        | (some buf, s) =>
            match freeSlotIn buf s.vol.clusterSizeBytes with
            | some i => .ok (.ok (word32 (lba + i / sectorSize), i % sectorSize, base + i), s)
            | none =>
                match getNextClusterUnlocked s cluster with
                | (next, s) =>
                    if isCluster next ∨ ¬extend then
                      findSlot extend fuel s next (base + s.vol.clusterSizeBytes)
                    else
                      match allocCluster s with
                      | (new, s) =>
                          if new < 2 then .ok (.error .noResource, s)
                          else
                            .ok (.ok (clusterToLba s.vol new, 0, base + s.vol.clusterSizeBytes),
                              (setFatEntry s cluster new).2)
      else .ok (.error .noResource, s)

def maxFatVnodes : ℕ := 4096

/-- The vnode and the node of a new entry, and its registration. -/
def addNode (cwd : Option CwdNode) (fuel : ℕ) (s : Fat) (path child : PathName) (nd : FatNode) :
    Except Stop (Except FatErr VnodeRef × Fat) :=
  if maxFatVnodes ≤ s.nodeCount then .ok (.error .noResource, s)
  else
    let vp : VnodeRef := .other s.nodeCount
    let s := { s.setNode s.nodeCount nd with
      nodeCount := s.nodeCount + 1
      vfs := s.vfs.setVnode vp ⟨child, none, none, none⟩ }
    match vfsRegister cwd fuel s.vfs path vp with
    | none => .error .fuel
    | some (_, vfs) => .ok (.ok vp, { s with vfs := vfs })

/-- The entry of a new file is put into a slot. -/
def enterFile (cwd : Option CwdNode) (fuel : ℕ) (s : Fat) (path child : PathName) (parentCluster : ℕ)
    (slot : ℕ × ℕ × ℕ) : Except Stop (Except FatErr VnodeRef × Fat) :=
  let (lba, secOff, entryOffset) := slot
  match ataReadSectors s lba 1 with
  | (none, s) => .ok (.error .generic, s)
  | (some sec, s) =>
      match ataWriteSectors s lba 1 (putDirEntry sec secOff (make83Name child) 0x20 0) with
      | (false, s) => .ok (.error .generic, s)
      | (true, s) => addNode cwd fuel s path child ⟨0, 0, false, path.take 255, parentCluster, entryOffset⟩

def createFileLocked (cwd : Option CwdNode) (fuel : ℕ) (s : Fat) (path : PathName) :
    Except Stop (Except FatErr VnodeRef × Fat) :=
  match vfsLookup cwd s.vfs path with
  | some vp => .ok (.ok vp, s)
  | none =>
      match vfsLookup cwd s.vfs (splitParentChild path).1 with
      | none => .ok (.error .notFound, s)
      | some dvp => do
          let parentCluster := dirCluster s dvp
          let (slot, s) ← findSlot true fuel s parentCluster 0
          match slot with
          | .error e => return (.error e, s)
          | .ok slot => enterFile cwd fuel s path (splitParentChild path).2 parentCluster slot

def createFile (cwd : Option CwdNode) (fuel : ℕ) (s : Fat) (path : PathName) :
    Except Stop (Except FatErr VnodeRef × Fat) := do
  let s ← s.lock
  let (r, s) ← createFileLocked cwd fuel s path
  return (r, s.unlock)

/-- The first sector of a new directory: the entries `.` and `..`. -/
def dotEntries (new parent : ℕ) : Bytes :=
  putDirEntry (putDirEntry (fun _ => 0) 0 (pad83 ".".toList []) 0x10 new) 32 (pad83 "..".toList []) 0x10 parent

/-- The entry of a new directory is put into a slot. -/
def enterDir (cwd : Option CwdNode) (fuel : ℕ) (s : Fat) (path child : PathName) (parentCluster new : ℕ)
    (slot : ℕ × ℕ × ℕ) : Except Stop (Except FatErr VnodeRef × Fat) :=
  let (lba, secOff, entryOffset) := slot
  let (sec, s) := ataReadSectors s lba 1
  let s := (ataWriteSectors s lba 1
    (putDirEntry (sec.getD fun _ => 0) secOff (make83Name child) 0x10 new)).2
  addNode cwd fuel s path child ⟨new, 0, true, path.take 255, parentCluster, entryOffset⟩

/-- What `..` of a new directory leads to. -/
def dotdotCluster (v : Volume) (parentCluster : ℕ) : ℕ := if parentCluster ≠ v.rootCluster then parentCluster else 0

/-- A new directory in the cluster `new`. -/
def makeDir (cwd : Option CwdNode) (fuel : ℕ) (s : Fat) (path : PathName) (parentCluster new : ℕ) :
    Except Stop (Except FatErr VnodeRef × Fat) := do
  let s := (ataWriteSectors s (clusterToLba s.vol new) 1
    (dotEntries new (dotdotCluster s.vol parentCluster))).2
  let (slot, s) ← findSlot false fuel s parentCluster 0
  match slot with
  | .error e => return (.error e, s)
  | .ok slot => enterDir cwd fuel s path (splitParentChild path).2 parentCluster new slot

def createDirLocked (cwd : Option CwdNode) (fuel : ℕ) (s : Fat) (path : PathName) :
    Except Stop (Except FatErr VnodeRef × Fat) :=
  match vfsLookup cwd s.vfs (splitParentChild path).1 with
  | none => .ok (.error .notFound, s)
  | some dvp =>
      match allocCluster s with
      | (new, s₁) =>
          if new < 2 then .ok (.error .noResource, s₁) else makeDir cwd fuel s₁ path (dirCluster s dvp) new

def createDir (cwd : Option CwdNode) (fuel : ℕ) (s : Fat) (path : PathName) :
    Except Stop (Except FatErr VnodeRef × Fat) := do
  let s ← s.lock
  let (r, s) ← createDirLocked cwd fuel s path
  return (r, s.unlock)

/-- The first byte of a sector's entry becomes 0xE5. -/
def markDeleted (s : Fat) (lba secOff : ℕ) : Fat :=
  match ataReadSectors s lba 1 with
  | (none, s) => s
  | (some sec, s) => (ataWriteSectors s lba 1 (putBytes sec secOff [0xE5])).2

/-- The entry of a node in its directory is marked as deleted. -/
def deleteDirEntry (s : Fat) (nd : FatNode) : Fat :=
  match walkDir s nd.parentDirCluster (nd.dirEntryOffset / s.vol.clusterSizeBytes) with
  | (cluster, s) =>
      if isCluster cluster then
        let offset := nd.dirEntryOffset % s.vol.clusterSizeBytes
        markDeleted s (word32 (clusterToLba s.vol cluster + offset / sectorSize)) (offset % sectorSize)
      else s

/-- The chain of a removed node is freed, and the node is empty. -/
def emptyNode (fuel : ℕ) (s : Fat) (n : ℕ) : Except Stop Fat :=
  if 2 ≤ (s.node n).startCluster then do
    let s ← freeClusterChainUnlocked fuel s (s.node n).startCluster
    return s.setNode n { s.node n with startCluster := 0, fileSize := 0 }
  else .ok (s.setNode n { s.node n with fileSize := 0 })

/-- The vnode stays registered. -/
def unlinkFileLocked (cwd : Option CwdNode) (fuel : ℕ) (s : Fat) (path : PathName) :
    Except Stop (Except FatErr Unit × Fat) :=
  match vfsLookup cwd s.vfs path with
  | none => .ok (.error .notFound, s)
  | some (.other n) =>
      if (s.node n).parentDirCluster < 2 then .ok (.error .invalid, s)
      else do
        let s ← emptyNode fuel (deleteDirEntry s (s.node n)) n
        return (.ok (), s)
  | some _ => .ok (.error .invalid, s)

def unlinkFile (cwd : Option CwdNode) (fuel : ℕ) (s : Fat) (path : PathName) :
    Except Stop (Except FatErr Unit × Fat) := do
  let s ← s.lock
  let (r, s) ← unlinkFileLocked cwd fuel s path
  return (r, s.unlock)

end Chimera
