import Chimera.Fat.Entry
import Chimera.Fat.Rules

/-!
# The driver on a drive with faults

`Sane` is what the helpers of the driver keep whatever accesses to the drive fail: a bit that is set in the
bitmap means a zero entry on the disk, the links of the FAT lead to clusters of data, and the cached sector
agrees with the disk. `setFatEntry` changes the bit before the entry; that is harmless where a cluster is
taken (`Sane.setUsed`), and needs a drive without faults where a cluster is freed (`Sane.setFree`).
-/

namespace Chimera

open Lib

variable {s s' : Fat} {c x i n lo hi : ℕ} {bits : ℕ → Bool}

/-! ## The invariant -/

/-- A set bit means a zero entry, links lead to clusters of data, and the cached sector agrees with the
disk. -/
structure Sane (s : Fat) : Prop where
  geo : Geometry s.vol s.sectorCount
  clusters : s.bitmapClusters = totalClusters s.vol
  bits : ∀ bits, s.bitmap = some bits → ∀ i < s.bitmapClusters, bits i → fatEntry s (i + 2) = 0
  links : ∀ c, DataCluster s.vol c → isCluster (fatEntry s c) → DataCluster s.vol (fatEntry s c)
  cache : ∀ sec buf, s.cached = some (sec, buf) → ∀ c, DataCluster s.vol c →
    sec = s.vol.reservedSectors + c * 4 / sectorSize → readLE buf (c * 4 % sectorSize) 4 % 2 ^ 28 = fatEntry s c
  root : isCluster s.vol.rootCluster → DataCluster s.vol s.vol.rootCluster

/-- The invariant is about the entries, the bitmap and the cached sector. -/
lemma Sane.of_same (h : Sane s) (hr : s'.rest = s.rest) (hb : s'.bitmap = s.bitmap) (hcd : s'.cached = s.cached)
    (he : ∀ c, DataCluster s.vol c → fatEntry s' c = fatEntry s c) : Sane s' := by
  have hv : s'.vol = s.vol := Fat.vol_eq hr
  have hsec : s'.sectorCount = s.sectorCount := congrArg FatRest.sectorCount hr
  have hbc : s'.bitmapClusters = s.bitmapClusters := congrArg FatRest.bitmapClusters hr
  constructor
  · rw [hv, hsec]
    exact h.geo
  · rw [hbc, hv]
    exact h.clusters
  · intro bits hbits i hi hset
    rw [hbc] at hi
    have hlt := h.clusters
    rw [he (i + 2) ⟨by omega, by omega⟩]
    exact h.bits bits (hb ▸ hbits) i hi hset
  · intro c hc
    rw [hv] at hc ⊢
    rw [he c hc]
    exact h.links c hc
  · intro sec buf hcache c hc hs
    rw [hv] at hc hs
    rw [he c hc]
    exact h.cache sec buf (hcd ▸ hcache) c hc hs
  · rw [hv]
    exact h.root

/-- A write behind the first FAT. -/
lemma Sane.wrote (h : Sane s) (hw : WroteOnly lo hi s s')
    (hlo : sectorSize * (s.vol.reservedSectors + s.vol.sectorsPerFat) ≤ lo) : Sane s' := by
  have he := fun c hc => fatEntry_wroteOnly (c := c) h.geo hc hw hlo
  obtain ⟨d, t, rfl⟩ := hw.stored
  exact h.of_same rfl rfl rfl he

lemma Sane.read {r : Option Bytes} {lba k : ℕ} (h : Sane s) (hr : ataReadSectors s lba k = (r, s')) : Sane s' := by
  obtain ⟨t, rfl⟩ := ataReadSectors_clock hr
  exact h.of_same rfl rfl rfl fun _ _ => rfl

/-- A sector of the disk is cached. -/
lemma Sane.setCache {sec : ℕ} {buf : Bytes} (h : Sane s) (hbuf : buf = fun b => s.disk (sectorSize * sec + b)) :
    Sane (s.setCache sec buf) := by
  refine ⟨h.geo, h.clusters, h.bits, h.links, ?_, h.root⟩
  intro sec' buf' hcache c _ hs
  cases hcache
  have hs' : sec = s.vol.reservedSectors + c * 4 / sectorSize := hs
  rw [hs'] at hbuf
  exact fatEntry_of_sector hbuf

/-- A write to sectors of the data area. -/
lemma Sane.write {lba k : ℕ} (h : Sane s) (hl : s.vol.dataStartLba ≤ lba) (buf : Bytes) :
    Sane (ataWriteSectors s lba k buf).2 :=
  h.wrote (ataWriteSectors_only ..) (Nat.mul_le_mul_left _ (h.geo.fat_le.trans hl))

/-! ## The FAT -/

section

variable (h : Sane s) (hc : DataCluster s.vol c)
include h hc

/-- The driver finds the entry on the disk, or the end of a chain. -/
lemma getNext_cases (hx : getNextClusterUnlocked s c = (x, s')) :
    (x = fatEntry s c ∨ x = endOfChain) ∧ Sane s' := by
  have hsec := h.geo.fatSector hc
  have hload : ∀ {x s'}, loadFatSector s (s.vol.reservedSectors + c * 4 / sectorSize) (c * 4 % sectorSize) =
      (x, s') → (x = fatEntry s c ∨ x = endOfChain) ∧ Sane s' := by
    intro x s' hx
    rw [loadFatSector] at hx
    rcases hread : ataReadSectors s (s.vol.reservedSectors + c * 4 / sectorSize) 1 with ⟨_ | buf, s1⟩
    · simp only [hread, Prod.mk.injEq] at hx
      rw [← hx.1, ← hx.2]
      exact ⟨.inr rfl, h.read hread⟩
    · simp only [hread, Prod.mk.injEq] at hx
      have hbuf := ataReadSectors_some hread
      have h1 := h.read hread
      obtain ⟨t, rfl⟩ := ataReadSectors_clock hread
      rw [← hx.1, ← hx.2]
      exact ⟨.inl (fatEntry_of_sector hbuf), h1.setCache hbuf⟩
  rw [getNextClusterUnlocked, if_pos (h.geo.isCluster hc), hsec] at hx
  cases hcd : s.cached with
  | none =>
    rw [hcd] at hx
    exact hload hx
  | some p =>
    obtain ⟨sec, buf⟩ := p
    rw [hcd] at hx
    dsimp only at hx
    split_ifs at hx with hsame
    · rw [← (Prod.mk.inj hx).1, ← (Prod.mk.inj hx).2]
      exact ⟨.inl (h.cache sec buf hcd c hc hsame), h⟩
    · exact hload hx

lemma getNext_sane (hx : getNextClusterUnlocked s c = (x, s')) :
    Sane s' ∧ (isCluster x → DataCluster s.vol x) := by
  obtain ⟨rfl | rfl, h'⟩ := getNext_cases h hc hx
  · exact ⟨h', h.links c hc⟩
  · exact ⟨h', fun hx => absurd hx (by decide)⟩

/-- The new entry keeps the invariant: it is the end of a chain or a link to a cluster of data, or it is zero
and has reached the disk. -/
lemma Sane.setEntry {v : ℕ} (hw : SetEntry c v s s')
    (hlink : isCluster (v % 2 ^ 28) → DataCluster s.vol (v % 2 ^ 28))
    (hzero : v % 2 ^ 28 = 0 → fatEntry s' c = 0) : Sane s' := by
  have hv : s'.vol = s.vol := Fat.vol_eq hw.rest
  have hsec : s'.sectorCount = s.sectorCount := congrArg FatRest.sectorCount hw.rest
  have hbc : s'.bitmapClusters = s.bitmapClusters := congrArg FatRest.bitmapClusters hw.rest
  have hlt : c - 2 < s.bitmapClusters := by
    rw [h.clusters]
    have := hc.1
    have := hc.2
    omega
  constructor
  · rw [hv, hsec]
    exact h.geo
  · rw [hbc, hv]
    exact h.clusters
  · intro bits hbits i hi hset
    rw [hbc] at hi
    rw [hw.bitmap, syncBitmap_bitmap hlt, Option.map_eq_some_iff] at hbits
    obtain ⟨old, hold, rfl⟩ := hbits
    by_cases hic : i = c - 2
    · subst hic
      rw [Function.update_self, decide_eq_true_eq] at hset
      have hc2 : c - 2 + 2 = c := Nat.sub_add_cancel hc.1
      rw [hc2]
      exact hzero hset
    · rw [Function.update_of_ne hic] at hset
      have hcl := h.clusters
      rw [hw.other (i + 2) (by omega) ⟨by omega, by omega⟩]
      exact h.bits old hold i hi hset
  · intro x hx
    rw [hv] at hx ⊢
    by_cases hxc : x = c
    · subst hxc
      rcases hw.self with he | he
      · rw [he]
        exact h.links x hx
      · rw [he]
        exact hlink
    · rw [hw.other x hxc hx]
      exact h.links x hx
  · intro sec buf hcache
    rw [hw.cached] at hcache
    exact absurd hcache nofun
  · rw [hv]
    exact h.root

/-- A cluster is taken or linked, with or without faults. -/
lemma Sane.setUsed {v : ℕ} (hv : v % 2 ^ 28 ≠ 0)
    (hlink : isCluster (v % 2 ^ 28) → DataCluster s.vol (v % 2 ^ 28)) : Sane (setFatEntry s c v).2 :=
  h.setEntry hc (setFatEntry_sets h.geo hc) hlink fun h0 => absurd h0 hv

/-- A cluster is freed without faults. -/
lemma Sane.setFree (hf : ∀ t, s.fault t = .none) :
    Sane (setFatEntry s c 0).2 :=
  h.setEntry hc (setFatEntry_sets h.geo hc) (fun h0 => absurd h0 (by decide)) fun _ => setFatEntry_self h.geo hc hf

lemma Sane.setLink (hx : DataCluster s.vol x) :
    Sane (setFatEntry s c x).2 := by
  have hmod : x % 2 ^ 28 = x := by
    have := (h.geo.isCluster hx).2
    exact Nat.mod_eq_of_lt (by omega)
  apply h.setUsed hc
  · rw [hmod]
    have := hx.1
    omega
  · rw [hmod]
    exact fun _ => hx

lemma Sane.setEnd : Sane (setFatEntry s c endOfChain).2 :=
  h.setUsed hc (by decide) fun h0 => absurd h0 (by decide)

end

/-! ## Allocation -/

lemma zeroSectors_only (s : Fat) (lba : ℕ) (hw : ∀ j < n, word32 (lba + (i + j)) = lba + (i + j)) :
    WroteOnly (sectorSize * (lba + i)) (sectorSize * (lba + i + n)) s (zeroSectors s lba n i) := by
  induction n generalizing i s with
  | zero => exact .refl s
  | succ n ih =>
    have hfirst := hw 0 (Nat.succ_pos n)
    rw [Nat.add_zero] at hfirst
    rw [zeroSectors, hfirst]
    have hrest := ih (ataWriteSectors s (lba + i) 1 fun _ => 0).2 fun j hj => by
      have := hw (j + 1) (by omega)
      rwa [show i + 1 + j = i + (j + 1) by omega]
    have hwrite := ataWriteSectors_only s (lba + i) 1 fun _ => 0
    apply (hwrite.mono le_rfl ?_).trans (hrest.mono ?_ ?_)
    · exact Nat.mul_le_mul_left _ (by omega)
    · exact Nat.mul_le_mul_left _ (by omega)
    · exact Nat.mul_le_mul_left _ (by omega)

lemma zeroCluster_only (g : Geometry s.vol s.sectorCount) (hc : DataCluster s.vol c) :
    WroteOnly (sectorSize * clusterToLba s.vol c)
      (sectorSize * (clusterToLba s.vol c + s.vol.sectorsPerCluster)) s
      (zeroSectors s (clusterToLba s.vol c) s.vol.sectorsPerCluster 0) := by
  have h := zeroSectors_only s (clusterToLba s.vol c)
    fun j hj => by
      rw [Nat.zero_add]
      exact g.lba_add hc hj
  rwa [Nat.add_zero] at h

lemma Sane.takeCluster (h : Sane s) (hc : DataCluster s.vol c) : Sane (takeCluster s c).2 := by
  have h1 := h.setEnd hc
  have hv : (setFatEntry s c endOfChain).2.vol = s.vol := Fat.vol_eq (setFatEntry_rest s)
  have hw := zeroCluster_only h1.geo (hv ▸ hc)
  have h2 := h1.wrote hw (Nat.mul_le_mul_left _ (h1.geo.fat_le.trans (h1.geo.start_le_lba (hv ▸ hc))))
  exact h2.of_same rfl rfl rfl fun _ _ => rfl

/-- A bit may be cleared. -/
lemma Sane.markUsed (h : Sane s) (hb : s.bitmap = some bits) : Sane (bitmapMarkUsed s bits c) := by
  refine ⟨h.geo, h.clusters, ?_, h.links, h.cache, h.root⟩
  intro bits' hbits i hi hset
  cases hbits
  apply h.bits bits hb i hi
  by_cases hic : i = c - 2
  · rw [hic, Function.update_self] at hset
    exact absurd hset nofun
  · rwa [Function.update_of_ne hic] at hset

lemma firstFree_spec (h : firstFree bits lo hi = some i) : i < hi ∧ bits i := by
  have hmem := List.mem_of_find?_eq_some h
  rw [List.mem_range'_1] at hmem
  exact ⟨by omega, List.find?_some h⟩

lemma findFree_spec (h : findFree s bits = some i) : i < s.bitmapClusters ∧ bits i := by
  rw [findFree] at h
  split at h
  · rename_i hfirst
    rw [← Option.some.inj h]
    exact firstFree_spec hfirst
  · have := firstFree_spec h
    exact ⟨by omega, this.2⟩

/-- A free cluster that is found in a sector of the FAT. -/
lemma freeInSector_spec {buf : Bytes} {sec total : ℕ} (hsec : sec < 2 ^ 23) (h : freeInSector buf sec total = some c) :
    c * 4 / sectorSize = sec ∧ 2 ≤ c ∧ c < total + 2 ∧ readLE buf (c * 4 % sectorSize) 4 % 2 ^ 28 = 0 := by
  obtain ⟨i, hi, hc⟩ := List.exists_of_findSome?_eq_some h
  rw [List.mem_range] at hi
  dsimp only at hc
  have hlt : i < 128 := hi
  have hu : word32 (sec * sectorSize + 4 * i) / 4 = sec * 128 + i := by
    rw [word32_eq (by rw [sectorSize]; omega), sectorSize]
    omega
  rw [hu] at hc
  split_ifs at hc with hcond
  cases hc
  have hdiv : (sec * 128 + i) * 4 / sectorSize = sec := by
    rw [sectorSize]
    omega
  have hmod : (sec * 128 + i) * 4 % sectorSize = 4 * i := by
    rw [sectorSize]
    omega
  rw [hmod]
  exact ⟨hdiv, hcond⟩

lemma scanFat_spec {total : ℕ} (h : Sane s) (hn : i + n ≤ s.vol.sectorsPerFat) (ht : total = totalClusters s.vol)
    (hx : scanFat s total n i = (x, s')) :
    Sane s' ∧ (x ≠ 0 → DataCluster s.vol x ∧ fatEntry s x = 0) := by
  induction n generalizing i s with
  | zero =>
    rw [← (Prod.mk.inj hx).1, ← (Prod.mk.inj hx).2]
    exact ⟨h, fun h0 => absurd rfl h0⟩
  | succ n ih =>
    have hsec : word32 (s.vol.reservedSectors + i) = s.vol.reservedSectors + i := by
      have := h.geo.fat_le
      have := h.geo.start_le
      have := h.geo.word
      exact word32_eq (by omega)
    rw [scanFat, hsec] at hx
    rcases hread : ataReadSectors s (s.vol.reservedSectors + i) 1 with ⟨_ | buf, s1⟩
    · simp only [hread, Prod.mk.injEq] at hx
      rw [← hx.1, ← hx.2]
      exact ⟨h.read hread, fun h0 => absurd rfl h0⟩
    · have h1 := h.read hread
      have hbuf := ataReadSectors_some hread
      obtain ⟨t, rfl⟩ := ataReadSectors_clock hread
      simp only [hread] at hx
      cases hfree : freeInSector buf i total with
      | some c =>
        simp only [hfree, Prod.mk.injEq] at hx
        have hshort := h.geo.short
        obtain ⟨hdiv, hge, hlt, hzero⟩ := freeInSector_spec (by omega) hfree
        rw [← hx.1, ← hx.2]
        refine ⟨h1, fun _ => ⟨⟨hge, ht ▸ hlt⟩, ?_⟩⟩
        rw [← hdiv] at hbuf
        rw [← fatEntry_of_sector hbuf]
        exact hzero
      | none =>
        simp only [hfree] at hx
        have hle : i + 1 + n ≤ s.vol.sectorsPerFat := by omega
        exact ih (s := s.stored s.disk t) h1 hle ht hx

/-- **A cluster that is allocated was free on the disk.** -/
lemma allocCluster_spec (h : Sane s) (hx : allocCluster s = (x, s')) :
    Sane s' ∧ (x ≠ 0 → DataCluster s.vol x ∧ fatEntry s x = 0) := by
  rw [allocCluster] at hx
  cases hb : s.bitmap with
  | some bits =>
    simp only [hb] at hx
    cases hfree : findFree s bits with
    | none =>
      simp only [hfree, Prod.mk.injEq] at hx
      rw [← hx.1, ← hx.2]
      exact ⟨h, fun h0 => absurd rfl h0⟩
    | some i =>
      simp only [hfree] at hx
      obtain ⟨hlt, hset⟩ := findFree_spec hfree
      have hcl := h.clusters
      have hc : DataCluster s.vol (i + 2) := ⟨by omega, by omega⟩
      have h1 := (h.markUsed (c := i + 2) hb).takeCluster hc
      rw [hx] at h1
      have hxi : x = i + 2 := (congrArg Prod.fst hx).symm
      rw [hxi]
      exact ⟨h1, fun _ => ⟨hc, h.bits bits hb i hlt hset⟩⟩
  | none =>
    simp only [hb] at hx
    rcases hscan : scanFat s (totalClusters s.vol) s.vol.sectorsPerFat 0 with ⟨_ | c, s1⟩
    · simp only [hscan, Prod.mk.injEq] at hx
      rw [← hx.1, ← hx.2]
      exact ⟨(scanFat_spec h (by omega) rfl hscan).1, fun h0 => absurd rfl h0⟩
    · obtain ⟨h1, hspec⟩ := scanFat_spec h (by omega) rfl hscan
      obtain ⟨hc, hzero⟩ := hspec (Nat.succ_ne_zero c)
      simp only [hscan] at hx
      have hr := scanFat_rest (c := totalClusters s.vol) (n := s.vol.sectorsPerFat) (i := 0) s
      rw [hscan] at hr
      have hv : s1.vol = s.vol := Fat.vol_eq hr
      have h2 := h1.takeCluster (hv.symm ▸ hc)
      rw [hx] at h2
      have hxc : x = c + 1 := (congrArg Prod.fst hx).symm
      rw [hxc]
      exact ⟨h2, fun _ => ⟨hc, hzero⟩⟩

/-! ## The rules -/

lemma Sane.relock {b : Bool} (h : Sane s) : Sane { s with locked := b } :=
  ⟨h.geo, h.clusters, h.bits, h.links, h.cache, h.root⟩

lemma Sane.setNodes (h : Sane s) (node : ℕ → FatNode) (count : ℕ) (vfs : Vfs) :
    Sane { s with node := node, nodeCount := count, vfs := vfs } :=
  ⟨h.geo, h.clusters, h.bits, h.links, h.cache, h.root⟩

section Rules

variable {v : Volume} {P : FatRest → Prop} (hP : ∀ r, P r → r.vol = v)

include hP

/-- The accesses of the driver keep the invariant on clusters of the data area. -/
lemma DriverInv.sane : DriverInv v (fun s => Sane s ∧ P s.rest) (DataCluster v) (v.dataStartLba ≤ ·) where
  vol h := hP _ h.2
  read h hr := ⟨h.1.read hr, by rw [ataReadSectors_rest hr]; exact h.2⟩
  next := by
    rintro s s' c x ⟨h, hr⟩ hc hx
    obtain rfl := hP _ hr
    obtain ⟨h', hlink⟩ := getNext_sane h hc hx
    exact ⟨⟨h', by rwa [getNextClusterUnlocked_rest' hx]⟩, hlink⟩
  alloc := by
    rintro s s' x ⟨h, hr⟩ hx
    obtain rfl := hP _ hr
    obtain ⟨h', hnew⟩ := allocCluster_spec h hx
    exact ⟨⟨h', by rwa [allocCluster_rest' hx]⟩, fun hge => (hnew (by omega)).1⟩
  link := by
    rintro s c x ⟨h, hr⟩ hc hx
    obtain rfl := hP _ hr
    refine ⟨?_, by rwa [setFatEntry_rest]⟩
    rcases hx with rfl | hx
    · exact h.setEnd hc
    · exact h.setLink hc hx
  write := by
    rintro s lba k buf ⟨h, hr⟩ hW
    obtain rfl := hP _ hr
    exact ⟨h.write hW buf, by rwa [ataWriteSectors_rest]⟩
  cluster := by
    rintro s c ⟨h, hr⟩ hc
    obtain rfl := hP _ hr
    exact h.geo.start_le_lba hc
  sector := by
    rintro s c off ⟨h, hr⟩ hc
    obtain rfl := hP _ hr
    have hpos : 0 < s.vol.clusterSizeBytes := by
      rw [h.geo.bytes]
      exact Nat.mul_pos h.geo.spc (by decide)
    have hadd := h.geo.lba_add hc (h.geo.offset_lt (Nat.mod_lt off hpos))
    change s.vol.dataStartLba ≤ word32 (clusterToLba s.vol c + off % s.vol.clusterSizeBytes / sectorSize)
    rw [hadd]
    exact (h.geo.start_le_lba hc).trans (Nat.le_add_right _ _)

/-- Without faults, clusters are freed. -/
lemma frees_sane (hf : ∀ r, P r → ∀ t, r.fault t = .none) : Frees (fun s => Sane s ∧ P s.rest) (DataCluster v) := by
  rintro s c ⟨h, hr⟩ hc
  obtain rfl := hP _ hr
  exact ⟨h.setFree hc (hf _ hr), by rwa [setFatEntry_rest]⟩

end Rules

/-- The clusters that a node names. -/
def NodeOk (v : Volume) (nd : FatNode) : Prop :=
  (nd.startCluster < 2 ∨ DataCluster v nd.startCluster) ∧
    (isCluster nd.parentDirCluster → DataCluster v nd.parentDirCluster)

lemma NodeOk.data {v : Volume} {nd : FatNode} (h : NodeOk v nd) (hge : 2 ≤ nd.startCluster) :
    DataCluster v nd.startCluster :=
  h.1.resolve_left (Nat.not_lt.mpr hge)

/-- Writing and resizing a node that names clusters of data. -/
lemma NodeInv.sane {v : Volume} {f : ℕ → Fault} :
    NodeInv v (fun _ => True) (fun s => Sane s ∧ s.vol = v ∧ s.fault = f ∧ NodeOk v (s.node n)) (DataCluster v)
      (v.dataStartLba ≤ ·) n (NodeOk v) where
  toDriverInv := .sane (P := fun r => r.vol = v ∧ r.fault = f ∧ NodeOk v (r.node n)) fun _ h => h.1
  fuel _ _ := trivial
  node h := h.2.2.2
  setNode h hnd := ⟨h.1.setNodes .., h.2.1, h.2.2.1, by rwa [Fat.setNode_self]⟩
  update := by
    rintro s nd ⟨h, hr⟩ hnd
    -- the node is kept too, though not the lock
    have d := DriverInv.sane
      (P := fun r => (r.vol = v ∧ r.fault = f ∧ NodeOk v (r.node n)) ∧ r.node n = s.node n) fun _ h => h.1.1
    apply (updateDirEntry_keeps d (fun _ h => ⟨h.1.relock, h.2⟩) ⟨h, hr, rfl⟩ hnd.2).mono
    exact fun r h => ⟨⟨h.1, h.2.1⟩, h.2.2⟩
  data h hge := h.data hge
  start h hc := ⟨hc, h.2⟩
  size h := h

/-! ## Reading -/

/-- Whatever entry is looked up, the cached sector is one of the disk. -/
lemma getNext_keeps (h : Sane s) (c : ℕ) : Sane (getNextClusterUnlocked s c).2 := by
  have hload : ∀ sec off, Sane (loadFatSector s sec off).2 := by
    intro sec off
    rw [loadFatSector]
    rcases hread : ataReadSectors s sec 1 with ⟨_ | buf, s1⟩
    · exact h.read hread
    · have hbuf := ataReadSectors_some hread
      have h1 := h.read hread
      obtain ⟨t, rfl⟩ := ataReadSectors_clock hread
      exact h1.setCache hbuf
  rw [getNextClusterUnlocked]
  split_ifs
  · dsimp only
    split
    · split_ifs
      · exact h
      · exact hload _ _
    · exact hload _ _
  · exact h

lemma ReadInv.sane : ReadInv (fun _ => True) Sane where
  fuel := trivial
  read h hr := h.read hr
  next := by
    intro s c h
    rw [getNextCluster, Fat.lock]
    split_ifs
    · trivial
    · exact (getNext_keeps h.relock c).relock
  nodes _ _ _ h := h.setNodes ..

end Chimera
