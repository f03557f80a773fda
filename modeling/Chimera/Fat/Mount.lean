import Chimera.Fat.Model

/-!
# Mounting a volume

`fat32_init` reads the geometry from the boot sector, builds the bitmap of free clusters in one pass over
the FAT, and scans the directories, with a node and a registration for each entry.
-/

namespace Chimera

open Lib

/-! ## The boot sector -/

def parseBoot (boot : Bytes) : Except FatErr Volume :=
  if boot 510 ≠ 0x55 ∨ boot 511 ≠ 0xAA then .error .invalid
  else
    let spc := (boot 13).toNat
    let reserved := readLE boot 14 2
    let fats := (boot 16).toNat
    let spf := readLE boot 36 4
    if readLE boot 11 2 ≠ 512 ∨ spc = 0 ∨ 64 < spc ∨ spf = 0 then .error .notSupported
    else
      .ok ⟨spc, reserved, fats, readLE boot 32 4, spf, readLE boot 44 4, word32 (reserved + fats * spf),
        spc * sectorSize, true⟩

/-- `g_fat32` after `memset`. -/
def noVolume : Volume := ⟨0, 0, 0, 0, 0, 0, 0, 0, false⟩

/-! ## The bitmap -/

/-- The entries of one sector of the FAT. -/
def clearUsed (buf : Bytes) (sec clusters : ℕ) (bits : ℕ → Bool) : ℕ → Bool := fun b =>
  bits b && !(decide (∃ i < sectorSize / 4, word32 (sec * sectorSize + 4 * i) / 4 = b + 2 ∧
    b < clusters ∧ readLE buf (4 * i) 4 % 2 ^ 28 ≠ 0))

/-- The pass over the FAT: `n` sectors are left, from `sec` on. It stops at the first that cannot be
read. -/
def bitmapPass (s : Fat) (clusters : ℕ) (bits : ℕ → Bool) : ℕ → ℕ → (ℕ → Bool) × Fat
  | 0, _ => (bits, s)
  | n + 1, sec =>
      match ataReadSectors s (word32 (s.vol.reservedSectors + sec)) 1 with
      | (none, s) => (bits, s)
      | (some buf, s) => bitmapPass s clusters (clearUsed buf sec clusters bits) n (sec + 1)

def bitmapMaxBytes : ℕ := 8 * 2 ^ 20

/-- `kallocOk` says whether there is memory for the bitmap. -/
def buildBitmap (kallocOk : Bool) (s : Fat) : Fat :=
  let clusters := totalClusters s.vol
  let s := { s with bitmapClusters := clusters }
  if 2 ≤ clusters ∧ word32 (clusters + 7) / 8 ≤ bitmapMaxBytes then
    if kallocOk then
      let (bits, s) := bitmapPass s clusters (fun _ => true) s.vol.sectorsPerFat 0
      { s with bitmap := some bits, freeHint := 2 }
    else { s with bitmap := none }
  else s

/-! ## Names of entries -/

def byteChar (b : BitVec 8) : Char := Char.ofNat b.toNat

/-- The characters of an entry from `off` on that are not blanks, in small letters. -/
def nameChars (entry : Bytes) (off n : ℕ) : PathName :=
  (((bytesAt entry off n).filter (· ≠ 0x20)).map byteChar).map lowerChar

def formatName (entry : Bytes) : PathName :=
  let ext := nameChars entry 8 3
  if ext = [] then nameChars entry 0 8 else nameChars entry 0 8 ++ '.' :: ext

/-- The names that short names stand for. -/
def canonicalDirs : List (String × String) :=
  [("applicat", "Applications"), ("library", "Library"), ("system", "System"), ("users", "Users"),
    ("volumes", "Volumes"), ("network", "Network"), ("coreserv", "CoreServices"),
    ("framewor", "Frameworks"), ("preferen", "Preferences"), ("shared", "Shared"), ("fonts", "Fonts")]

def canonicalFiles : List (String × String) :=
  [("sysver.pli", "SysVer.plist"), ("sysver", "SysVer.plist"), ("systemve.pli", "SystemVersion.plist"),
    ("systemve", "SystemVersion.plist")]

def mapCanonicalName (name : PathName) (isDir : Bool) : PathName :=
  match (if isDir then canonicalDirs else canonicalFiles).find? fun a => a.1.toList = name with
  | some a => a.2.toList
  | none => name

/-- `fat32_lfn_parser_t`. -/
structure Lfn where
  name : Bytes
  checksum : BitVec 8
  valid : Bool

def noLfn : Lfn := ⟨fun _ => 0, 0, false⟩

/-- Characters of two bytes each, up to the end mark. -/
def lfnChars (name entry : Bytes) (src dst : ℕ) : ℕ → Bytes
  | 0 => name
  | n + 1 =>
      let wc := readLE entry src 2
      if wc = 0 ∨ wc = 0xFFFF then name
      else
        lfnChars (if dst < 255 then Function.update name dst (BitVec.ofNat 8 wc) else name) entry (src + 2)
          (dst + 1) n

/-- An entry with a part of a long name. -/
def scanLfn (lfn : Lfn) (entry : Bytes) : Lfn :=
  let seq := (entry 0).toNat % 32
  let isLast := (entry 0).toNat / 64 % 2 = 1
  let lfn := if isLast then ⟨fun _ => 0, entry 13, true⟩ else lfn
  if lfn.valid ∧ lfn.checksum = entry 13 then
    if 1 ≤ seq ∧ seq ≤ 20 then
      let base := (seq - 1) * 13
      let name := lfnChars lfn.name entry 1 base 5
      let name := lfnChars name entry 14 (base + 5) 6
      { lfn with name := lfnChars name entry 28 (base + 11) 2 }
    else lfn
  else { lfn with valid := false }

/-- The sum of a short name that its long name carries. -/
def shortChecksum (entry : Bytes) : BitVec 8 :=
  (bytesAt entry 0 11).foldl (fun sum b => sum.rotateRight 1 + b) 0

/-- The long name, up to its terminator. -/
def Lfn.string (lfn : Lfn) : PathName := ((bytesAt lfn.name 0 255).takeWhile (· ≠ 0)).map byteChar

/-- The name of an entry. -/
def entryName (lfn : Lfn) (entry : Bytes) (isDir : Bool) : PathName :=
  if lfn.valid ∧ lfn.checksum = shortChecksum entry ∧ lfn.string ≠ [] then lfn.string
  else mapCanonicalName (formatName entry) isDir

def fullPath (parent name : PathName) : PathName :=
  if parent = [] ∨ parent = ['/'] then '/' :: name.take 250
  else parent.take 200 ++ '/' :: name.take (253 - parent.length)

/-! ## Scanning -/

/-- The entries that name a file or directory. -/
def isFileEntry (entry : Bytes) : Prop :=
  entry 0 ≠ 0x2E ∧ (entry 11).toNat / 8 % 2 = 0 ∧ 0x20 ≤ (entry 0).toNat ∧ (entry 0).toNat ≤ 0x7E

instance (entry : Bytes) : Decidable (isFileEntry entry) := inferInstanceAs (Decidable (_ ∧ _))

def printable (name : PathName) : Prop := ∀ c ∈ name, 0x20 ≤ c.toNat ∧ c.toNat ≤ 0x7E

instance (name : PathName) : Decidable (printable name) := inferInstanceAs (Decidable (∀ _ ∈ _, _))

def entryStart (entry : Bytes) : ℕ := readLE entry 20 2 * 2 ^ 16 + readLE entry 26 2

/-- The node and the registration of a scanned entry, if there is room for a node. -/
def scanNode (cwd : Option CwdNode) (fuel : ℕ) (s : Fat) (name : PathName) (nd : FatNode) :
    Except Stop Fat := do
  let (_, s) ← addNode cwd fuel s nd.path name nd
  return s

/-- A scanned directory is scanned in its turn, by `scan`. -/
def scanBelow (scan : Fat → ℕ → PathName → Except Stop Fat) (depth : ℕ) (s : Fat) (nd : FatNode) :
    Except Stop Fat :=
  if nd.isDir ∧ 2 ≤ nd.startCluster ∧ nd.startCluster ≠ nd.parentDirCluster ∧
      nd.startCluster ≠ s.vol.rootCluster ∧ depth < 8 ∧ ¬"/usr/include/c++".toList <+: nd.path then
    scan s nd.startCluster nd.path
  else .ok s

/-- One entry of a directory. Whether the directory ends here, the state and the long name so far. -/
def scanEntry (cwd : Option CwdNode) (fuel : ℕ) (scan : Fat → ℕ → PathName → Except Stop Fat)
    (dirCluster : ℕ) (parent : PathName) (depth : ℕ) (s : Fat) (lfn : Lfn) (entry : Bytes) (offset : ℕ) :
    Except Stop (Bool × Fat × Lfn) :=
  if entry 0 = 0 then .ok (true, s, lfn)
  else if entry 0 = 0xE5 then .ok (false, s, { lfn with valid := false })
  else if entry 11 = 0x0F then .ok (false, s, scanLfn lfn entry)
  else if ¬isFileEntry entry then .ok (false, s, { lfn with valid := false })
  else
    let isDir : Bool := (entry 11).toNat / 16 % 2 = 1
    let name := entryName lfn entry isDir
    let nd : FatNode :=
      ⟨entryStart entry, readLE entry 28 4, isDir, fullPath parent name, dirCluster, offset⟩
    if name = [] ∨ ¬printable name then .ok (false, s, { lfn with valid := false })
    else do
      let s ← scanNode cwd fuel s name nd
      let s ← scanBelow scan depth s nd
      return (false, s, { lfn with valid := false })

/-- The entries of a buffer that are left. -/
def scanEntries (step : Fat → Lfn → Bytes → ℕ → Except Stop (Bool × Fat × Lfn)) (buf : Bytes) (base : ℕ) :
    List ℕ → Fat → Lfn → Except Stop (Bool × Fat × Lfn)
  | [], s, lfn => .ok (false, s, lfn)
  | i :: is, s, lfn => do
      let (stop, s, lfn) ← step s lfn (fun b => buf (32 * i + b)) (base + 32 * i)
      if stop then return (true, s, lfn) else scanEntries step buf base is s lfn

/-- The clusters of a directory. -/
def scanClusters (step : Fat → Lfn → Bytes → ℕ → Except Stop (Bool × Fat × Lfn)) :
    ℕ → Fat → Lfn → ℕ → ℕ → Except Stop Fat
  | 0, s, _, cluster, _ => if isCluster cluster then .error .fuel else .ok s
  | fuel + 1, s, lfn, cluster, base =>
      if isCluster cluster then
        match ataReadSectors s (clusterToLba s.vol cluster) (bufSectors s.vol) with
        | (none, s) => .ok s
        | (some buf, s) => do
            let (stop, s, lfn) ← scanEntries step buf base
              (List.range (bufSectors s.vol * sectorSize / 32)) s lfn
            if stop then return s
            else
              let (next, s) ← getNextCluster s cluster
              scanClusters step fuel s lfn next (base + s.vol.clusterSizeBytes)
      else .ok s

/-- `depth` counts down from 13, so that no directory is scanned with a depth over 12. -/
def scanDirectory (cwd : Option CwdNode) (fuel : ℕ) : ℕ → Fat → ℕ → PathName → Except Stop Fat
  | 0, s, _, _ => .ok s
  | left + 1, s, cluster, parent =>
      scanClusters (scanEntry cwd fuel (scanDirectory cwd fuel left) cluster parent (12 - left)) fuel s noLfn
        cluster 0

/-! ## Mounting -/

/-- The part of `fat32_init` under the lock. -/
def readVolume (s : Fat) : Except FatErr Unit × Fat :=
  let s := { s with vol := noVolume }
  match ataReadSectors s 0 1 with
  | (none, s) => (.error .generic, s)
  | (some boot, s) =>
      match parseBoot boot with
      | .error e => (.error e, s)
      | .ok v => (.ok (), { s with vol := v })

def fatInit (cwd : Option CwdNode) (fuel : ℕ) (kallocOk : Bool) (s : Fat) :
    Except Stop (Except FatErr Unit × Fat) := do
  let s ← s.lock
  match readVolume s with
  | (.error e, s) => return (.error e, s.unlock)
  | (.ok (), s) =>
      let s := buildBitmap kallocOk s.unlock
      let s ← scanDirectory cwd fuel 13 s s.vol.rootCluster []
      return (.ok (), s)

end Chimera
