import Chimera.Fat.Frame

/-!
# Where things are on a volume

A volume is laid out as reserved sectors, copies of the FAT, and clusters of data. `Geometry` says that the
numbers of the boot sector agree: nothing wraps, the volume fits on the drive, and the FAT has an entry for
each cluster. The driver does not check it. On such a volume a cluster of data (`DataCluster`) lies behind
all FATs and on the drive, and its entry lies in the first FAT.

The second half says what an access to the drive does to the bytes of the disk, with and without faults.
-/

namespace Chimera

open Lib

/-! ## Geometry -/

structure Geometry (v : Volume) (sectors : ℕ) : Prop where
  spc : 0 < v.sectorsPerCluster
  bytes : v.clusterSizeBytes = v.sectorsPerCluster * sectorSize
  fats : 1 ≤ v.numFats
  start : v.dataStartLba = v.reservedSectors + v.numFats * v.sectorsPerFat
  start_le : v.dataStartLba ≤ v.totalSectors
  fits : v.totalSectors ≤ sectors
  word : v.totalSectors < 2 ^ 32
  long : 4 * (totalClusters v + 2) ≤ sectorSize * v.sectorsPerFat
  few : totalClusters v + 2 ≤ 0x0FFFFFF8
  short : v.sectorsPerFat ≤ 2 ^ 23
  reserved : v.reservedSectors < 2 ^ 16

/-- The number of a cluster of the data area. -/
def DataCluster (v : Volume) (c : ℕ) : Prop := 2 ≤ c ∧ c < totalClusters v + 2

instance (v : Volume) (c : ℕ) : Decidable (DataCluster v c) := inferInstanceAs (Decidable (_ ∧ _))

variable {v : Volume} {sectors c : ℕ}

lemma word32_eq {x : ℕ} (h : x < 2 ^ 32) : word32 x = x := Nat.mod_eq_of_lt h

namespace Geometry

section

variable (g : Geometry v sectors)
include g

lemma isCluster (hc : DataCluster v c) : isCluster c := by
  have := g.few
  exact ⟨hc.1, by have := hc.2; omega⟩

/-- The first FAT ends before the data. -/
lemma fat_le : v.reservedSectors + v.sectorsPerFat ≤ v.dataStartLba := by
  rw [g.start]
  have := Nat.mul_le_mul_right v.sectorsPerFat g.fats
  omega

lemma clusters_le :
    v.dataStartLba + totalClusters v * v.sectorsPerCluster ≤ v.totalSectors := by
  have hle := g.start_le
  have := Nat.div_mul_le_self (v.totalSectors - v.dataStartLba) v.sectorsPerCluster
  rw [totalClusters, sub32, if_pos hle]
  omega

/-- A cluster ends before the volume does. -/
lemma cluster_le (hc : DataCluster v c) :
    v.dataStartLba + (c - 2) * v.sectorsPerCluster + v.sectorsPerCluster ≤ v.totalSectors := by
  have hle := g.clusters_le
  have hlt : c - 2 + 1 ≤ totalClusters v := by
    have := hc.1
    have := hc.2
    omega
  have := Nat.mul_le_mul_right v.sectorsPerCluster hlt
  rw [Nat.add_mul, Nat.one_mul] at this
  omega

lemma lba (hc : DataCluster v c) :
    clusterToLba v c = v.dataStartLba + (c - 2) * v.sectorsPerCluster := by
  have hle := g.cluster_le hc
  have hw := g.word
  rw [clusterToLba, sub32, if_pos hc.1, word32_eq (by omega)]

lemma lba_le (hc : DataCluster v c) :
    clusterToLba v c + v.sectorsPerCluster ≤ v.totalSectors := by
  rw [g.lba hc]
  exact g.cluster_le hc

lemma start_le_lba (hc : DataCluster v c) : v.dataStartLba ≤ clusterToLba v c := by
  rw [g.lba hc]
  exact Nat.le_add_right _ _

lemma lba_add (hc : DataCluster v c) {i : ℕ} (hi : i < v.sectorsPerCluster) :
    word32 (clusterToLba v c + i) = clusterToLba v c + i := by
  have hle := g.lba_le hc
  have hw := g.word
  exact word32_eq (by omega)

/-- The sector of an offset in a cluster. -/
lemma offset_lt {off : ℕ} (h : off < v.clusterSizeBytes) :
    off / sectorSize < v.sectorsPerCluster := by
  rw [g.bytes] at h
  exact (Nat.div_lt_iff_lt_mul (by decide)).mpr h

/-- The sector of an entry is one of the FAT. -/
lemma entry_lt (hc : DataCluster v c) : c * 4 / sectorSize < v.sectorsPerFat := by
  have hlong := g.long
  have := hc.2
  rw [Nat.div_lt_iff_lt_mul (by decide), Nat.mul_comm v.sectorsPerFat]
  omega

lemma fatSector (hc : DataCluster v c) :
    word32 (v.reservedSectors + c * 4 / sectorSize) = v.reservedSectors + c * 4 / sectorSize := by
  have hlt := g.entry_lt hc
  have hfat := g.fat_le
  have hle := g.start_le
  have hw := g.word
  exact word32_eq (by omega)

lemma secondFatSector (hc : DataCluster v c) :
    word32 (v.reservedSectors + v.sectorsPerFat + c * 4 / sectorSize) =
      v.reservedSectors + v.sectorsPerFat + c * 4 / sectorSize := by
  have hlt := g.entry_lt hc
  have hshort := g.short
  have hres := g.reserved
  exact word32_eq (by omega)

end

end Geometry

/-- The byte of an entry, from its sector. -/
lemma entry_address (r c : ℕ) :
    sectorSize * (r + c * 4 / sectorSize) + c * 4 % sectorSize = sectorSize * r + 4 * c := by
  have := Nat.div_add_mod (c * 4) sectorSize
  rw [Nat.mul_add]
  omega

lemma entry_in_sector (c : ℕ) : c * 4 % sectorSize + 4 ≤ sectorSize := by
  rw [sectorSize]
  omega

/-! ## Accesses to the drive -/

variable {s s' : Fat} {lba k : ℕ} {buf : Bytes}

@[simp] lemma Fat.stored_disk {d : Bytes} {t : ℕ} : (s.stored d t).disk = d := rfl

@[simp] lemma Fat.stored_stored {d d' : Bytes} {t t' : ℕ} : (s.stored d t).stored d' t' = s.stored d' t' := rfl

/-- A read changes the clock only. -/
lemma ataReadSectors_clock {r : Option Bytes} (h : ataReadSectors s lba k = (r, s')) :
    ∃ t, s' = s.stored s.disk t := by
  rw [ataReadSectors] at h
  split_ifs at h
  · exact ⟨s.clock, (Prod.mk.inj h).2.symm⟩
  · exact ⟨_, (Prod.mk.inj h).2.symm⟩
  · exact ⟨_, (Prod.mk.inj h).2.symm⟩

/-- What a read gives is on the disk. -/
lemma ataReadSectors_some (h : ataReadSectors s lba k = (some buf, s')) :
    buf = fun b => s.disk (sectorSize * lba + b) := by
  rw [ataReadSectors] at h
  split_ifs at h
  · cases h
  · exact (Option.some.inj (Prod.mk.inj h).1).symm
  · cases h

/-- A read without faults succeeds on the drive. -/
lemma ataReadSectors_reliable (hf : ∀ t, s.fault t = .none) (hle : lba + k ≤ s.sectorCount) : ataReadSectors s lba k =
      (some fun b => s.disk (sectorSize * lba + b), s.stored s.disk (s.clock + k)) := by
  rw [ataReadSectors, if_neg (Nat.not_lt.mpr hle), if_pos fun i _ => hf _]
  rfl

/-- What a write leaves on the disk: nothing else changes, and the bytes outside the sectors stay. -/
structure WroteOnly (lo hi : ℕ) (s s' : Fat) : Prop where
  stored : ∃ disk clock, s' = s.stored disk clock
  outside : ∀ b, b < lo ∨ hi ≤ b → s'.disk b = s.disk b

lemma WroteOnly.refl {lo hi : ℕ} (s : Fat) : WroteOnly lo hi s s := ⟨⟨s.disk, s.clock, rfl⟩, fun _ _ => rfl⟩

lemma WroteOnly.trans {lo hi : ℕ} {s1 s2 : Fat} (h : WroteOnly lo hi s s1) (h' : WroteOnly lo hi s1 s2) :
    WroteOnly lo hi s s2 := by
  obtain ⟨d, t, rfl⟩ := h.stored
  obtain ⟨d', t', rfl⟩ := h'.stored
  exact ⟨⟨d', t', rfl⟩, fun b hb => (h'.outside b hb).trans (h.outside b hb)⟩

lemma WroteOnly.mono {lo hi lo' hi' : ℕ} (h : WroteOnly lo hi s s') (hlo : lo' ≤ lo) (hhi : hi ≤ hi') :
    WroteOnly lo' hi' s s' := ⟨h.stored, fun b hb => h.outside b (by omega)⟩

lemma writeSectorsFrom_only (s : Fat) (lba : ℕ) (buf : Bytes) (n i : ℕ) :
    WroteOnly (sectorSize * (lba + i)) (sectorSize * (lba + i + n)) s (writeSectorsFrom s lba buf n i).2 := by
  induction n generalizing i s with
  | zero => exact .refl s
  | succ n ih =>
    have hstore : WroteOnly (sectorSize * (lba + i)) (sectorSize * (lba + i + (n + 1))) s
        (s.stored (overlay s.disk (sectorSize * (lba + i)) sectorSize fun b => buf (sectorSize * i + b))
          (s.clock + 1)) := by
      refine ⟨⟨_, _, rfl⟩, fun b hb => ?_⟩
      rw [Fat.stored_disk, overlay_of_outside]
      rw [Nat.mul_add sectorSize (lba + i), Nat.mul_add sectorSize n] at hb
      omega
    rw [writeSectorsFrom]
    split
    · apply hstore.trans
      apply (ih ..).mono
      · exact Nat.mul_le_mul_left _ (by omega)
      · exact Nat.mul_le_mul_left _ (by omega)
    · exact ⟨⟨s.disk, s.clock + 1, rfl⟩, fun _ _ => rfl⟩
    · exact hstore

lemma ataWriteSectors_only (s : Fat) (lba k : ℕ) (buf : Bytes) :
    WroteOnly (sectorSize * lba) (sectorSize * (lba + k)) s (ataWriteSectors s lba k buf).2 := by
  rw [ataWriteSectors]
  split_ifs
  · exact .refl s
  · have h := writeSectorsFrom_only s lba buf k 0
    rwa [Nat.add_zero] at h

lemma writeSectorsFrom_true {n i : ℕ} (h : writeSectorsFrom s lba buf n i = (true, s')) :
    s'.disk = overlay s.disk (sectorSize * (lba + i)) (sectorSize * n) fun b => buf (sectorSize * i + b) := by
  induction n generalizing i s with
  | zero =>
    rw [← (Prod.mk.inj h).2]
    funext b
    exact (overlay_of_outside (by omega)).symm
  | succ n ih =>
    rw [writeSectorsFrom] at h
    split at h
    · rw [ih h, Fat.stored_disk]
      funext b
      have e1 : sectorSize * (lba + (i + 1)) = sectorSize * (lba + i) + sectorSize := by ring
      have e2 : sectorSize * (n + 1) = sectorSize * n + sectorSize := by ring
      have e3 : sectorSize * (i + 1) = sectorSize * i + sectorSize := by ring
      rw [e1, e2, e3]
      -- the first sector, the others, or outside
      by_cases h1 : sectorSize * (lba + i) ≤ b ∧ b < sectorSize * (lba + i) + sectorSize
      · rw [overlay_of_outside (by omega), overlay_of_inside h1, overlay_of_inside (by omega)]
      · by_cases h2 : sectorSize * (lba + i) + sectorSize ≤ b ∧
            b < sectorSize * (lba + i) + sectorSize + sectorSize * n
        · rw [overlay_of_inside h2, overlay_of_inside (by omega)]
          exact congrArg buf (by omega)
        · rw [overlay_of_outside h2, overlay_of_outside h1, overlay_of_outside (by omega)]
    · cases h
    · cases h

/-- A write that succeeds has stored the sectors. -/
lemma ataWriteSectors_true (h : ataWriteSectors s lba k buf = (true, s')) :
    s'.disk = overlay s.disk (sectorSize * lba) (sectorSize * k) buf := by
  rw [ataWriteSectors] at h
  split_ifs at h
  · cases h
  · have hd := writeSectorsFrom_true h
    simpa only [Nat.add_zero, Nat.mul_zero, Nat.zero_add] using hd

/-- A write of one sector stores it or leaves the disk as it was. -/
lemma ataWriteSectors_one {ok : Bool} (h : ataWriteSectors s lba 1 buf = (ok, s')) :
    s'.disk = s.disk ∨ s'.disk = overlay s.disk (sectorSize * lba) sectorSize buf := by
  rw [ataWriteSectors] at h
  split_ifs at h
  · exact .inl (congrArg Fat.disk (Prod.mk.inj h).2.symm)
  · rw [writeSectorsFrom] at h
    simp only [Nat.add_zero, Nat.mul_zero, Nat.zero_add, writeSectorsFrom] at h
    split at h
    · rw [← (Prod.mk.inj h).2]
      exact .inr rfl
    · rw [← (Prod.mk.inj h).2]
      exact .inl rfl
    · rw [← (Prod.mk.inj h).2]
      exact .inr rfl

lemma writeSectorsFrom_reliable (hf : ∀ t, s.fault t = .none) (lba : ℕ) (buf : Bytes) (n i : ℕ) :
    (writeSectorsFrom s lba buf n i).1 = true := by
  induction n generalizing i s with
  | zero => rfl
  | succ n ih =>
    rw [writeSectorsFrom, hf]
    apply ih
    exact hf

/-- A write without faults succeeds on the drive. -/
lemma ataWriteSectors_reliable (hf : ∀ t, s.fault t = .none) (hle : lba + k ≤ s.sectorCount) (buf : Bytes) :
    ∃ t, ataWriteSectors s lba k buf =
      (true, s.stored (overlay s.disk (sectorSize * lba) (sectorSize * k) buf) t) := by
  rcases hw : ataWriteSectors s lba k buf with ⟨ok, s'⟩
  have hok : ok = true := by
    have := writeSectorsFrom_reliable hf lba buf k 0
    rw [ataWriteSectors, if_neg (Nat.not_lt.mpr hle)] at hw
    rwa [hw] at this
  subst hok
  have hstored := (ataWriteSectors_only s lba k buf).stored
  rw [hw] at hstored
  obtain ⟨d, t, rfl⟩ := hstored
  have hd : d = _ := ataWriteSectors_true hw
  exact ⟨t, by rw [hd]⟩

lemma ataWriteSectors_stored {ok : Bool} (h : ataWriteSectors s lba k buf = (ok, s')) : ∃ d t, s' = s.stored d t := by
  have hstored := (ataWriteSectors_only s lba k buf).stored
  rwa [h] at hstored

end Chimera
