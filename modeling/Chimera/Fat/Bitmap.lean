import Chimera.Fat.Lock
import Chimera.Fat.Sane

/-!
# The bitmap of free clusters

`s_free_bitmap` is built at mount and changed with each entry of the FAT. A bit that is set must mean that
the entry on the disk is zero, in the part of the disk that is the FAT. The pass at mount stops at the first
sector that cannot be read and leaves the bits of all others set; nothing compares the number of clusters
with the length of the FAT; and a freed cluster is marked before its entry is written, which may fail.

**Main result.** `free_bitmap_sound`: on a volume that is laid out well and whose FAT can be read at mount,
the bitmap is sound after every run in which the calls that free clusters meet no fault, whatever faults the
other calls meet.
-/

namespace Chimera

open Lib

variable {s s' : Fat} {c x i n lo hi : ℕ} {bits : ℕ → Bool} {cwd : Option CwdNode} {fuel : ℕ}

/-! ## Mounting -/

/-- A bit that is left set by a sector of the FAT stands for a zero entry there. -/
lemma clearUsed_spec {buf : Bytes} {sec clusters : ℕ} (hsec : sec < 2 ^ 23) (hi : i < clusters)
    (hdiv : (i + 2) * 4 / sectorSize = sec) (h : clearUsed buf sec clusters bits i) :
    readLE buf ((i + 2) * 4 % sectorSize) 4 % 2 ^ 28 = 0 := by
  by_contra hne
  rw [clearUsed, Bool.and_eq_true, Bool.not_eq_true', decide_eq_false_iff_not] at h
  apply h.2
  have hmod : 4 * ((i + 2) % 128) = (i + 2) * 4 % sectorSize := by
    rw [sectorSize]
    omega
  refine ⟨(i + 2) % 128, by rw [sectorSize]; omega, ?_, hi, ?_⟩
  · rw [word32_eq (by rw [sectorSize]; omega)]
    rw [sectorSize] at hdiv ⊢
    omega
  · rwa [hmod]

/-- The pass over the FAT, if no read fails. -/
lemma bitmapPass_spec (clusters : ℕ) (bits : ℕ → Bool) (g : Geometry s.vol s.sectorCount) (hcl : clusters = totalClusters s.vol)
    (hn : i + n = s.vol.sectorsPerFat) (hf : ∀ j < n, s.fault (s.clock + j) = .none)
    (hb : ∀ b < clusters, bits b → (b + 2) * 4 / sectorSize < i → fatEntry s (b + 2) = 0) :
    (∃ t, (bitmapPass s clusters bits n i).2 = s.stored s.disk t) ∧
      ∀ b < clusters, (bitmapPass s clusters bits n i).1 b → fatEntry s (b + 2) = 0 := by
  induction n generalizing s bits i with
  | zero =>
    refine ⟨⟨s.clock, rfl⟩, fun b hlt hset => hb b hlt hset ?_⟩
    rw [show i = s.vol.sectorsPerFat by omega]
    exact g.entry_lt ⟨by omega, by omega⟩
  | succ n ih =>
    have hfat := g.fat_le
    have hstart := g.start_le
    have hfits := g.fits
    have hword := g.word
    have hshort := g.short
    have hread : ataReadSectors s (word32 (s.vol.reservedSectors + i)) 1 =
        (some fun b => s.disk (sectorSize * (s.vol.reservedSectors + i) + b), s.stored s.disk (s.clock + 1)) := by
      rw [word32_eq (by omega), ataReadSectors, if_neg (by omega), if_pos]
      · rfl
      · intro j hj
        exact hf j (by omega)
    rw [bitmapPass, hread]
    have hstep : ∀ b < clusters, clearUsed (fun b => s.disk (sectorSize * (s.vol.reservedSectors + i) + b)) i
        clusters bits b → (b + 2) * 4 / sectorSize < i + 1 → fatEntry (s.stored s.disk (s.clock + 1)) (b + 2) = 0 := by
      intro b hlt hset hdiv
      rcases Nat.lt_or_ge ((b + 2) * 4 / sectorSize) i with hold | hnew
      · rw [clearUsed, Bool.and_eq_true] at hset
        exact hb b hlt hset.1 hold
      · have hdiv' : (b + 2) * 4 / sectorSize = i := by omega
        have hzero := clearUsed_spec (by omega) hlt hdiv' hset
        rw [← hdiv', fatEntry_of_sector rfl] at hzero
        exact hzero
    have hlater : ∀ j < n, s.fault (s.clock + 1 + j) = .none := by
      intro j hj
      have := hf (j + 1) (by omega)
      rwa [show s.clock + (j + 1) = s.clock + 1 + j by omega] at this
    obtain ⟨⟨t, ht⟩, hbits⟩ := ih (s := s.stored s.disk (s.clock + 1)) _ g hcl
      (show i + 1 + n = s.vol.sectorsPerFat by omega) hlater hstep
    exact ⟨⟨t, ht⟩, hbits⟩

/-- The driver before the mount. -/
structure Booted (s : Fat) : Prop where
  bitmap : s.bitmap = none
  cached : s.cached = none

/-- The volume of the boot sector is laid out well, and the links of its FAT lead to clusters of data. -/
def SoundVolume (s : Fat) : Prop :=
  ∀ v, parseBoot s.disk = .ok v → Geometry v s.sectorCount ∧
    (∀ c, DataCluster v c → isCluster (fatEntry { s with vol := v } c) →
      DataCluster v (fatEntry { s with vol := v } c)) ∧
    (isCluster v.rootCluster → DataCluster v v.rootCluster)

/-- The reads of the boot sector and of the FAT succeed. -/
def FatReadable (s : Fat) (fault : ℕ → Fault) : Prop :=
  ∀ v, parseBoot s.disk = .ok v → ∀ t ≤ v.sectorsPerFat, fault t = .none

/-- The bitmap of a volume that is laid out well, built from reads that succeed. -/
lemma buildBitmap_sane (kallocOk : Bool) (g : Geometry s.vol s.sectorCount)
    (hlinks : ∀ c, DataCluster s.vol c → isCluster (fatEntry s c) → DataCluster s.vol (fatEntry s c))
    (hroot : isCluster s.vol.rootCluster → DataCluster s.vol s.vol.rootCluster)
    (hb : s.bitmap = none) (hcd : s.cached = none)
    (hf : ∀ j < s.vol.sectorsPerFat, s.fault (s.clock + j) = .none) : Sane (buildBitmap kallocOk s) := by
  have hbase : Sane { s with bitmapClusters := totalClusters s.vol, bitmap := none } :=
    ⟨g, rfl, (by simp), hlinks, fun sec buf h => absurd (hcd.symm.trans h) (by simp), hroot⟩
  rw [buildBitmap]
  dsimp only
  split_ifs
  · obtain ⟨⟨t, ht⟩, hbits⟩ := bitmapPass_spec (s := { s with bitmapClusters := totalClusters s.vol })
      (totalClusters s.vol) (fun _ => true) g rfl (Nat.zero_add _) hf (by simp)
    rw [ht]
    refine ⟨g, rfl, ?_, hlinks, fun sec buf h => absurd (hcd.symm.trans h) (by simp), hroot⟩
    rintro bits ⟨⟩
    exact hbits
  · exact hbase
  · rw [hb]
    exact hbase

/-- The boot sector is read and describes a volume. -/
lemma readVolume_ok (h : readVolume s = (.ok (), s')) :
    ∃ v, parseBoot s.disk = .ok v ∧ s' = { s with vol := v, clock := s.clock + 1 } := by
  rw [readVolume, ataReadSectors] at h
  split_ifs at h
  · cases h
  · simp only [Nat.mul_zero, Nat.zero_add] at h
    split at h
    · cases h
    · rename_i v hv
      exact ⟨v, hv, (Prod.mk.inj h).2.symm⟩
  · cases h

lemma fatInit_sane {kallocOk : Bool} (hboot : Booted s) (hv : SoundVolume s) (hclock : s.clock = 0)
    (hf : FatReadable s s.fault) :
    Ensures (fun _ => True) (fun r => r.1 = .ok () → Sane r.2) (fatInit cwd fuel kallocOk s) := by
  rw [fatInit, Fat.lock]
  split_ifs
  · trivial
  · rw [ensures_bind_ok]
    rcases hread : readVolume { s with locked := true } with ⟨_ | _, s1⟩
    · simp
    · obtain ⟨v, hparse, rfl⟩ := readVolume_ok hread
      obtain ⟨g, hlinks, hroot⟩ := hv v hparse
      have hreads : ∀ j < v.sectorsPerFat, s.fault (s.clock + 1 + j) = .none := by
        intro j hj
        rw [hclock]
        exact hf v hparse _ (by omega)
      have hsane := buildBitmap_sane kallocOk
        (s := { s with vol := v, clock := s.clock + 1, locked := false }) g hlinks hroot hboot.bitmap hboot.cached
        hreads
      apply (scanDirectory_keeps ReadInv.sane hsane).bind
      exact fun s2 h2 _ => h2

/-! ## Runs -/

/-- The bits that are set stand for clusters whose entry is zero and lies in the FAT. -/
def BitmapSound (s : Fat) : Prop :=
  ∀ bits, s.bitmap = some bits → ∀ i < s.bitmapClusters, bits i →
    fatEntry s (i + 2) = 0 ∧ 4 * (i + 2) + 4 ≤ sectorSize * s.vol.sectorsPerFat

/-- The pattern of faults that the next call meets. -/
def Fat.underFaults (s : Fat) (f : ℕ → Fault) : Fat := { s with fault := f, clock := 0 }

/-- A mount, and calls one after the other; the faults of each are given by a pattern of its own. The
mount meets `M` and the calls `C`. -/
inductive FatRun (M : Fat → (ℕ → Fault) → Prop) (C : Fat → FatCall → (ℕ → Fault) → Prop) : Fat → Prop
  | mount {s s' : Fat} {f : ℕ → Fault} {cwd : Option CwdNode} {fuel : ℕ} {kallocOk : Bool} (hb : Booted s)
      (hm : M s f) (h : fatInit cwd fuel kallocOk (s.underFaults f) = .ok (.ok (), s')) :
      FatRun M C s'
  | call {s s' : Fat} {f : ℕ → Fault} {cwd : Option CwdNode} {fuel : ℕ} {call : FatCall} (hr : FatRun M C s)
      (hc : C s call f) (h : call.run cwd fuel (s.underFaults f) = .ok s') : FatRun M C s'

/-- The mount finds a sound volume and a FAT that can be read. -/
def MountsWell (s : Fat) (f : ℕ → Fault) : Prop := SoundVolume s ∧ FatReadable s f

namespace FatCall

/-- The calls that free clusters. -/
def frees : FatCall → Bool
  | unlink _ => true
  | resize _ _ => true
  | _ => false

/-- The volume is mounted once, nodes name clusters of data, and a call that frees clusters meets no
fault. -/
def WorksWell (s : Fat) (call : FatCall) (f : ℕ → Fault) : Prop :=
  (∀ kallocOk, call ≠ mount kallocOk) ∧ (∀ n, NodeOk s.vol (s.node n)) ∧
    (call.frees → ∀ t, f t = .none)

end FatCall

lemma dirCluster_ok (h : Sane s) (hn : ∀ n, NodeOk s.vol (s.node n)) (vp : VnodeRef)
    (hc : isCluster (dirCluster s vp)) : DataCluster s.vol (dirCluster s vp) := by
  cases vp with
  | other i => exact (hn i).data hc.1
  | root => exact h.root hc
  | rootfs i => exact h.root hc

lemma FatCall.run_sane {call : FatCall} (h : Sane s) (hm : ∀ kallocOk, call ≠ .mount kallocOk)
    (hn : ∀ n, NodeOk s.vol (s.node n)) (hf : call.frees → ∀ t, s.fault t = .none) :
    Ensures (fun _ => True) Sane (call.run cwd fuel s) := by
  let P : FatRest → Prop := fun r => r.vol = s.vol ∧ r.fault = s.fault
  let I : Fat → Prop := fun s' => Sane s' ∧ P s'.rest
  have d : DriverInv s.vol I (DataCluster s.vol) (s.vol.dataStartLba ≤ ·) := .sane fun _ h => h.1
  have hI : IgnoresNodes I := fun _ _ _ h => ⟨h.1.setNodes .., h.2⟩
  have hs : I { s with locked := true } := ⟨h.relock, rfl, rfl⟩
  have hu : ∀ s', I s' → Sane s'.unlock := fun _ h => h.1.relock
  have hnode : ∀ n, Sane { s with locked := true } ∧ s.vol = s.vol ∧ s.fault = s.fault ∧ NodeOk s.vol (s.node n) :=
    fun n => ⟨h.relock, rfl, rfl, hn n⟩
  cases call with
  | createFile path =>
    exact (locked_call I trivial (fun _ => trivial)
      (createFileLocked_keeps d hI hs (dirCluster_ok h.relock hn)) hu).map
  | createDir path =>
    exact (locked_call I trivial (fun _ => trivial)
      (createDirLocked_keeps d hI hs (dirCluster_ok h.relock hn)) hu).map
  | unlink path =>
    have hz : Frees I (DataCluster s.vol) := frees_sane (P := P) (fun _ h => h.1) fun _ h => h.2 ▸ hf rfl
    exact (locked_call I trivial (fun _ => trivial)
      (unlinkFileLocked_keeps d hI hz hs (fun n => (hn n).data) fun n => (hn n).2) hu).map
  | write n offset data =>
    exact (writeNode_keeps (fun _ => .sane) (fun _ => trivial) h (hnode n) fun _ h => h.1.relock).map
  | resize n size =>
    have hz : Frees (fun s' => Sane s' ∧ s'.vol = s.vol ∧ s'.fault = s.fault ∧ NodeOk s.vol (s'.node n))
        (DataCluster s.vol) :=
      frees_sane (P := fun r => r.vol = s.vol ∧ r.fault = s.fault ∧ NodeOk s.vol (r.node n)) (fun _ h => h.1)
        fun _ h => h.2.1 ▸ hf rfl
    exact (resizeNode_keeps (fun _ => .sane) hz (fun _ => trivial) h (hnode n) fun _ h => h.1.relock).map
  | read n offset len => exact (readFile_keeps ReadInv.sane h).map
  | scan cluster parent => exact scanDirectory_keeps ReadInv.sane h
  | mount kallocOk => exact absurd rfl (hm kallocOk)

lemma Sane.underFaults (h : Sane s) (f : ℕ → Fault) : Sane (s.underFaults f) :=
  ⟨h.geo, h.clusters, h.bits, h.links, h.cache, h.root⟩

lemma FatRun.sane (h : FatRun MountsWell FatCall.WorksWell s) : Sane s := by
  induction h with
  | @mount s s' f cwd fuel kallocOk hb hm h =>
    have hboot : Booted (s.underFaults f) := ⟨hb.bitmap, hb.cached⟩
    exact (fatInit_sane hboot hm.1 rfl hm.2).of_eq h rfl
  | @call s s' f cwd fuel call hr hc h ih =>
    obtain ⟨hm, hn, hf⟩ := hc
    exact (FatCall.run_sane (ih.underFaults f) hm hn hf).of_eq h

/-- **The bitmap is sound after every run.** The allocator gives out clusters whose entry is zero and lies
in the FAT. -/
theorem free_bitmap_sound (h : FatRun MountsWell FatCall.WorksWell s) :
    BitmapSound s ∧ ∀ f c s', allocCluster (s.underFaults f) = (c, s') → c ≠ 0 →
      fatEntry s c = 0 ∧ 4 * c + 4 ≤ sectorSize * s.vol.sectorsPerFat := by
  have hs := h.sane
  have hlong := hs.geo.long
  constructor
  · intro bits hbits i hi hset
    refine ⟨hs.bits bits hbits i hi hset, ?_⟩
    have := hs.clusters
    omega
  · intro f c s' halloc hne
    obtain ⟨hc, hzero⟩ := (allocCluster_spec (hs.underFaults f) halloc).2 hne
    have hlt : c < totalClusters s.vol + 2 := hc.2
    exact ⟨hzero, by omega⟩

/-- A disk with a boot sector for eight clusters of one sector, and a FAT in which the root directory is the
only chain. -/
def bootDisk : Bytes := fun b =>
  if b = 12 then 2 else if b = 13 then 1 else if b = 14 then 1 else if b = 16 then 2 else if b = 32 then 11
  else if b = 36 then 1 else if b = 44 then 2 else if b = 510 then 0x55 else if b = 511 then 0xAA
  else if 520 ≤ b ∧ b < 523 then 0xFF else if b = 523 then 0x0F else 0

/-- The machine before the mount. -/
def bootState : Fat :=
  { vol := noVolume
    disk := bootDisk
    sectorCount := 11
    fault := fun _ => .none
    clock := 0
    locked := false
    bitmap := none
    bitmapClusters := 0
    freeHint := 2
    cached := none
    node := fun _ => ⟨0, 0, false, [], 0, 0⟩
    nodeCount := 0
    vfs := vfsBoot }

lemma bootState_sound : SoundVolume bootState := by
  intro v hv
  have hparse : parseBoot bootDisk = .ok smallVolume := by decide +kernel
  obtain rfl := Except.ok.inj (hparse.symm.trans hv)
  refine ⟨⟨by decide, rfl, by decide, rfl, by decide, by decide, by decide, by decide, by decide, by decide,
    by decide⟩, ?_, fun _ => by decide⟩
  intro c hc
  have key : ∀ c < 10, isCluster (fatEntry { bootState with vol := smallVolume } c) →
    DataCluster smallVolume (fatEntry { bootState with vol := smallVolume } c) := by decide
  exact key c hc.2

/-- After a mount without faults. -/
def mountedState : Fat :=
  match fatInit none 2 true (bootState.underFaults fun _ => .none) with
  | .ok (_, s) => s
  | .error _ => bootState

/-- The volume is mounted without faults, and a file is created while every access fails. -/
theorem free_bitmap_sound_bootState : ∃ s, FatRun MountsWell FatCall.WorksWell s ∧ BitmapSound s ∧
    ∀ f c s', allocCluster (s.underFaults f) = (c, s') → c ≠ 0 →
      fatEntry s c = 0 ∧ 4 * c + 4 ≤ sectorSize * s.vol.sectorsPerFat := by
  have hb : Booted bootState := ⟨rfl, rfl⟩
  have hmount : fatInit none 2 true (bootState.underFaults fun _ => .none) = .ok (.ok (), mountedState) := rfl
  have hrun : FatRun MountsWell FatCall.WorksWell mountedState :=
    .mount hb ⟨bootState_sound, fun _ _ _ _ => rfl⟩ hmount
  have hnode : ∀ n, NodeOk mountedState.vol (mountedState.node n) :=
    fun n => ⟨.inl Nat.two_pos, fun h => absurd h.1 (Nat.not_succ_le_zero _)⟩
  have hcall : (FatCall.createFile "/a".toList).run none 2 (mountedState.underFaults fun _ => .refused) = .ok _ := rfl
  have hworks : FatCall.WorksWell mountedState (.createFile "/a".toList) fun _ => .refused := ⟨nofun, hnode, nofun⟩
  have hrun' : FatRun MountsWell FatCall.WorksWell _ := .call hrun hworks hcall
  exact ⟨_, hrun', free_bitmap_sound hrun'⟩

/-- The only fault is at the read of the FAT, and the cluster of the root directory counts as free. -/
theorem bitmap_unsound_after_failed_read : ∃ s, FatRun (fun _ _ => True) (fun _ _ _ => True) s ∧ ¬BitmapSound s := by
  have hb : Booted bootState := ⟨rfl, rfl⟩
  have h : fatInit none 2 true (bootState.underFaults fun t => if t = 1 then .refused else .none) =
    .ok (.ok (), _) := rfl
  refine ⟨_, .mount hb trivial h, ?_⟩
  intro hsound
  exact absurd (hsound _ rfl 0 (by decide) rfl).1 (by decide)

end Chimera
