import Chimera.Fat.Mount
import Chimera.Lib.Outcome

/-!
# What the helpers of the driver leave alone

Below the calls that make or change nodes, the driver changes only the disk, the bitmap, the cached sector
and its counters. `Fat.rest` is everything else, and each helper keeps it.
-/

namespace Chimera

open Lib

/-- What is neither on the disk nor kept about it. -/
structure FatRest where
  vol : Volume
  sectorCount : ℕ
  fault : ℕ → Fault
  locked : Bool
  bitmapClusters : ℕ
  node : ℕ → FatNode
  nodeCount : ℕ
  vfs : Vfs

def Fat.rest (s : Fat) : FatRest :=
  ⟨s.vol, s.sectorCount, s.fault, s.locked, s.bitmapClusters, s.node, s.nodeCount, s.vfs⟩

variable {s s' : Fat}

lemma Fat.vol_eq (h : s'.rest = s.rest) : s'.vol = s.vol := congrArg FatRest.vol h

lemma Fat.locked_eq (h : s'.rest = s.rest) : s'.locked = s.locked := congrArg FatRest.locked h

lemma Fat.node_eq (h : s'.rest = s.rest) : s'.node = s.node := congrArg FatRest.node h

@[simp] lemma Fat.setNode_self {n : ℕ} {nd : FatNode} : (s.setNode n nd).node n = nd := Function.update_self ..

@[simp] lemma Fat.raiseHint_rest {c : ℕ} : (s.raiseHint c).rest = s.rest := rfl

section Helpers

variable {lba count sec off c v n i : ℕ} {buf : Bytes}

lemma ataReadSectors_rest {r : Option Bytes} (h : ataReadSectors s lba count = (r, s')) : s'.rest = s.rest := by
  rw [ataReadSectors] at h
  split_ifs at h
  · rw [← (Prod.mk.inj h).2]
  · rw [← (Prod.mk.inj h).2]
    rfl
  · rw [← (Prod.mk.inj h).2]
    rfl

lemma writeSectorsFrom_rest (s : Fat) : (writeSectorsFrom s lba buf n i).2.rest = s.rest := by
  induction n generalizing i s with
  | zero => rfl
  | succ n ih =>
    rw [writeSectorsFrom]
    split
    · exact ih _
    · rfl
    · rfl

lemma ataWriteSectors_rest (s : Fat) (lba count : ℕ) (buf : Bytes) :
    (ataWriteSectors s lba count buf).2.rest = s.rest := by
  rw [ataWriteSectors]
  split_ifs
  · rfl
  · exact writeSectorsFrom_rest s

lemma ataWriteSectors_rest' {ok : Bool} (h : ataWriteSectors s lba count buf = (ok, s')) : s'.rest = s.rest := by
  have := ataWriteSectors_rest s lba count buf
  rwa [h] at this

lemma loadFatSector_rest (s : Fat) : (loadFatSector s sec off).2.rest = s.rest := by
  rw [loadFatSector]
  rcases hread : ataReadSectors s sec 1 with ⟨_ | buf, s1⟩
  · exact ataReadSectors_rest hread
  · have h1 := ataReadSectors_rest hread
    exact h1

lemma getNextClusterUnlocked_rest (s : Fat) : (getNextClusterUnlocked s c).2.rest = s.rest := by
  rw [getNextClusterUnlocked]
  split_ifs
  · dsimp only
    split
    · split_ifs
      · rfl
      · exact loadFatSector_rest s
    · exact loadFatSector_rest s
  · rfl

lemma syncBitmap_rest (s : Fat) : (syncBitmap s c v).rest = s.rest := by
  rw [syncBitmap]
  split
  · rfl
  · split_ifs <;> rfl

lemma storeFatEntry_rest (s : Fat) : (storeFatEntry s c v).2.rest = s.rest := by
  rw [storeFatEntry]
  rcases hread : ataReadSectors s (word32 (s.vol.reservedSectors + c * 4 / sectorSize)) 1 with ⟨_ | buf, s1⟩
  · exact ataReadSectors_rest hread
  · have h1 := ataReadSectors_rest hread
    dsimp only
    split
    · rename_i hwrite
      exact (ataWriteSectors_rest' hwrite).trans h1
    · rename_i hwrite
      exact (ataWriteSectors_rest ..).trans ((ataWriteSectors_rest' hwrite).trans h1)

lemma setFatEntry_rest (s : Fat) : (setFatEntry s c v).2.rest = s.rest := by
  rw [setFatEntry]
  split_ifs
  · exact (storeFatEntry_rest _).trans (syncBitmap_rest s)
  · rfl

lemma getNextClusterUnlocked_rest' {x : ℕ} (h : getNextClusterUnlocked s c = (x, s')) : s'.rest = s.rest := by
  have := getNextClusterUnlocked_rest (c := c) s
  rwa [h] at this

/-! ## Allocation -/

lemma scanFat_rest (s : Fat) : (scanFat s c n i).2.rest = s.rest := by
  induction n generalizing i s with
  | zero => rfl
  | succ n ih =>
    rw [scanFat]
    rcases hread : ataReadSectors s (word32 (s.vol.reservedSectors + i)) 1 with ⟨_ | buf, s1⟩
    · exact ataReadSectors_rest hread
    · dsimp only
      split
      · exact ataReadSectors_rest hread
      · exact (ih s1).trans (ataReadSectors_rest hread)

lemma zeroSectors_rest (s : Fat) : (zeroSectors s lba n i).rest = s.rest := by
  induction n generalizing i s with
  | zero => rfl
  | succ n ih =>
    rw [zeroSectors, ih]
    exact ataWriteSectors_rest ..

lemma takeCluster_rest (s : Fat) : (takeCluster s c).2.rest = s.rest := by
  rw [takeCluster, Fat.raiseHint_rest, zeroSectors_rest, setFatEntry_rest]

lemma allocCluster_rest (s : Fat) : (allocCluster s).2.rest = s.rest := by
  rw [allocCluster]
  split
  · split
    · rfl
    · exact takeCluster_rest _
  · have hscan := scanFat_rest (c := totalClusters s.vol) (n := s.vol.sectorsPerFat) (i := 0) s
    split
    · rename_i h
      rwa [h] at hscan
    · rename_i h
      rw [h] at hscan
      exact (takeCluster_rest _).trans hscan

lemma allocCluster_rest' {x : ℕ} (h : allocCluster s = (x, s')) : s'.rest = s.rest := by
  have := allocCluster_rest s
  rwa [h] at this

end Helpers

end Chimera
