import Chimera.Fat.Geometry

/-!
# Entries of the FAT

`fatEntry` is the entry of a cluster in the first FAT. `setFatEntry` changes the bitmap first, then the
entry: with faults the entry is the old or the new one (`setFatEntry_sets`), without faults the new one
(`setFatEntry_self`), and no other entry changes.
-/

namespace Chimera

open Lib

/-- The entry of a cluster in the first FAT. -/
def fatEntry (s : Fat) (c : ℕ) : ℕ := readLE s.disk (sectorSize * s.vol.reservedSectors + 4 * c) 4 % 2 ^ 28

variable {s s' : Fat} {c x i n lo hi : ℕ} {bits : ℕ → Bool}

/-- Bytes of the first FAT decide its entries. -/
lemma fatEntry_congr (g : Geometry s.vol s.sectorCount) (hc : DataCluster s.vol c) (hv : s'.vol = s.vol)
    (hd : ∀ b < sectorSize * (s.vol.reservedSectors + s.vol.sectorsPerFat), s'.disk b = s.disk b) :
    fatEntry s' c = fatEntry s c := by
  have hlong := g.long
  have := hc.2
  rw [fatEntry, fatEntry, hv]
  congr 1
  apply readLE_congr
  intro i hi
  apply hd
  rw [Nat.mul_add]
  omega

lemma fatEntry_wroteOnly (g : Geometry s.vol s.sectorCount) (hc : DataCluster s.vol c)
    (hw : WroteOnly lo hi s s') (hlo : sectorSize * (s.vol.reservedSectors + s.vol.sectorsPerFat) ≤ lo) :
    fatEntry s' c = fatEntry s c := by
  obtain ⟨d, t, rfl⟩ := hw.stored
  exact fatEntry_congr g hc rfl fun b hb => hw.outside b (.inl (by omega))

/-- The sector that holds an entry, as it is read from the disk. -/
lemma fatEntry_of_sector {buf : Bytes}
    (hbuf : buf = fun b => s.disk (sectorSize * (s.vol.reservedSectors + c * 4 / sectorSize) + b)) :
    readLE buf (c * 4 % sectorSize) 4 % 2 ^ 28 = fatEntry s c := by
  rw [fatEntry, ← entry_address, hbuf, readLE_shift]

/-- The bit of a cluster follows the value that its entry gets. -/
lemma syncBitmap_bitmap {v : ℕ} (hlt : c - 2 < s.bitmapClusters) :
    (syncBitmap s c v).bitmap = s.bitmap.map fun bits => Function.update bits (c - 2) (decide (v % 2 ^ 28 = 0)) := by
  rw [syncBitmap]
  cases hb : s.bitmap with
  | none => exact hb
  | some bits =>
    dsimp only
    rw [if_pos hlt]
    by_cases hv : v % 2 ^ 28 = 0
    · rw [if_pos hv, decide_eq_true hv]
      split_ifs with hbit
      · rw [hb, Option.map_some, Function.update_eq_self_iff.mpr hbit.symm]
      · rfl
    · rw [if_neg hv, decide_eq_false hv]
      split_ifs with hbit
      · rfl
      · rw [hb, Option.map_some, Function.update_eq_self_iff.mpr (Bool.eq_false_iff.mpr hbit).symm]

lemma syncBitmap_eq {v : ℕ} : ∃ b h, syncBitmap s c v = { s with bitmap := b, freeHint := h } := by
  rw [syncBitmap]
  split
  · exact ⟨s.bitmap, s.freeHint, rfl⟩
  · split_ifs <;> exact ⟨_, _, rfl⟩

/-- What `setFatEntry` does, whatever faults there are: the entry is the old or the new one. -/
structure SetEntry (c v : ℕ) (s s' : Fat) : Prop where
  rest : s'.rest = s.rest
  bitmap : s'.bitmap = (syncBitmap s c v).bitmap
  cached : s'.cached = none
  other : ∀ x, x ≠ c → DataCluster s.vol x → fatEntry s' x = fatEntry s x
  self : fatEntry s' c = fatEntry s c ∨ fatEntry s' c = v % 2 ^ 28

/-- The entry with the reserved bits that it had. -/
def entryValue (s : Fat) (c v : ℕ) : ℕ :=
  v % 2 ^ 28 + readLE s.disk (sectorSize * s.vol.reservedSectors + 4 * c) 4 / 2 ^ 28 * 2 ^ 28

lemma entryValue_mod {v : ℕ} : entryValue s c v % 256 ^ 4 % 2 ^ 28 = v % 2 ^ 28 := by
  rw [entryValue]
  omega

/-- The first FAT is changed at the entry or not at all, and after it only the second. -/
lemma storeFatEntry_disk {v : ℕ} (g : Geometry s.vol s.sectorCount) (hc : DataCluster s.vol c) :
    ∃ d t, (d = s.disk ∨ d = writeLE s.disk (sectorSize * s.vol.reservedSectors + 4 * c) 4 (entryValue s c v)) ∧
      ((∀ t, s.fault t = .none) →
        d = writeLE s.disk (sectorSize * s.vol.reservedSectors + 4 * c) 4 (entryValue s c v)) ∧
      WroteOnly (sectorSize * (s.vol.reservedSectors + s.vol.sectorsPerFat))
        (sectorSize * (s.vol.reservedSectors + 2 * s.vol.sectorsPerFat)) (s.stored d t)
        (storeFatEntry s c v).2 := by
  have hsec := g.fatSector hc
  have hlt := g.entry_lt hc
  have hfat := g.fat_le
  have hfits := g.fits
  have hstart := g.start_le
  rw [storeFatEntry]
  rw [hsec]
  rcases hread : ataReadSectors s (s.vol.reservedSectors + c * 4 / sectorSize) 1 with ⟨_ | buf, s1⟩
  · obtain ⟨t, rfl⟩ := ataReadSectors_clock hread
    refine ⟨s.disk, t, .inl rfl, fun hf => ?_, .refl _⟩
    rw [ataReadSectors_reliable hf (by omega)] at hread
    cases hread
  · obtain ⟨t, rfl⟩ := ataReadSectors_clock hread
    have hbuf := ataReadSectors_some hread
    have hov : overlay s.disk (sectorSize * (s.vol.reservedSectors + c * 4 / sectorSize)) sectorSize
        (writeLE buf (c * 4 % sectorSize) 4
          (v % 2 ^ 28 + readLE buf (c * 4 % sectorSize) 4 / 2 ^ 28 * 2 ^ 28)) =
        writeLE s.disk (sectorSize * s.vol.reservedSectors + 4 * c) 4 (entryValue s c v) := by
      rw [hbuf, readLE_shift, overlay_writeLE (entry_in_sector c), entry_address, entryValue]
    dsimp only
    change word32 ((s.stored s.disk t).vol.reservedSectors + c * 4 / sectorSize) = _ at hsec
    rw [hsec]
    generalize writeLE buf (c * 4 % sectorSize) 4
      (v % 2 ^ 28 + readLE buf (c * 4 % sectorSize) 4 / 2 ^ 28 * 2 ^ 28) = buf' at hov ⊢
    rcases hw : ataWriteSectors (s.stored s.disk t) (s.vol.reservedSectors + c * 4 / sectorSize) 1 buf'
      with ⟨_ | _, s2⟩
    · obtain ⟨d, t', rfl⟩ := ataWriteSectors_stored hw
      refine ⟨d, t', ?_, fun hf => ?_, .refl _⟩
      · rw [← hov]
        exact ataWriteSectors_one hw
      · obtain ⟨t', hok⟩ := ataWriteSectors_reliable (s := s.stored s.disk t) hf
          (show s.vol.reservedSectors + c * 4 / sectorSize + 1 ≤ s.sectorCount by omega) buf'
        rw [hw] at hok
        cases hok
    · obtain ⟨d, t', rfl⟩ := ataWriteSectors_stored hw
      have hd : d = writeLE s.disk (sectorSize * s.vol.reservedSectors + 4 * c) 4 (entryValue s c v) := by
        rw [← hov]
        exact ataWriteSectors_true hw
      refine ⟨d, t', .inr hd, fun _ => hd, ?_⟩
      have hsecond : word32 ((s.stored d t').vol.reservedSectors + (s.stored d t').vol.sectorsPerFat +
        c * 4 / sectorSize) = _ := g.secondFatSector hc
      dsimp only
      rw [Fat.stored_stored, hsecond]
      apply (ataWriteSectors_only ..).mono
      · apply Nat.mul_le_mul_left
        exact Nat.le_add_right _ _
      · apply Nat.mul_le_mul_left
        omega

section StoreEntry

variable {v : ℕ}

section

variable (g : Geometry s.vol s.sectorCount) (hc : DataCluster s.vol c)
include g hc

lemma storeFatEntry_stored :
    ∃ d t, (storeFatEntry s c v).2 = s.stored d t := by
  obtain ⟨d, t, -, -, hw⟩ := storeFatEntry_disk g hc
  obtain ⟨d', t', h⟩ := hw.stored
  exact ⟨d', t', h⟩

lemma storeFatEntry_other (hx : x ≠ c)
    (hxd : DataCluster s.vol x) : fatEntry (storeFatEntry s c v).2 x = fatEntry s x := by
  obtain ⟨d, t, hd, -, hw⟩ := storeFatEntry_disk g hc
  rw [fatEntry_wroteOnly (s := s.stored d t) g hxd hw le_rfl]
  rcases hd with rfl | rfl
  · rfl
  · rw [fatEntry, Fat.stored_disk, readLE_writeLE_of_disjoint (by dsimp only [Fat.stored]; omega)]
    rfl

lemma storeFatEntry_new (hf : ∀ t, s.fault t = .none) : fatEntry (storeFatEntry s c v).2 c = v % 2 ^ 28 := by
  obtain ⟨d, t, -, hd, hw⟩ := storeFatEntry_disk g hc
  rw [fatEntry_wroteOnly (s := s.stored d t) g hc hw le_rfl, hd hf, fatEntry, Fat.stored_disk]
  dsimp only [Fat.stored]
  rw [readLE_writeLE, entryValue_mod]

lemma storeFatEntry_self :
    fatEntry (storeFatEntry s c v).2 c = fatEntry s c ∨ fatEntry (storeFatEntry s c v).2 c = v % 2 ^ 28 := by
  obtain ⟨d, t, hd, -, hw⟩ := storeFatEntry_disk g hc
  rw [fatEntry_wroteOnly (s := s.stored d t) g hc hw le_rfl]
  rcases hd with rfl | rfl
  · exact .inl rfl
  · right
    rw [fatEntry, Fat.stored_disk]
    dsimp only [Fat.stored]
    rw [readLE_writeLE, entryValue_mod]

end

end StoreEntry

section

variable (g : Geometry s.vol s.sectorCount) (hc : DataCluster s.vol c)
include g hc

lemma setFatEntry_eq {v : ℕ} : ∃ h, setFatEntry s c v =
      storeFatEntry { s with bitmap := (syncBitmap s c v).bitmap, freeHint := h, cached := none } c v := by
  obtain ⟨bm, h, hs⟩ := syncBitmap_eq
  refine ⟨h, ?_⟩
  rw [setFatEntry, if_pos (g.isCluster hc), hs]
  rfl

lemma setFatEntry_sets {v : ℕ} :
    SetEntry c v s (setFatEntry s c v).2 := by
  have hrest := setFatEntry_rest (c := c) (v := v) s
  obtain ⟨h, hs⟩ := setFatEntry_eq g hc
  rw [hs] at hrest ⊢
  obtain ⟨d, t, he⟩ := storeFatEntry_stored
    (s := { s with bitmap := (syncBitmap s c v).bitmap, freeHint := h, cached := none }) g hc
  constructor
  · exact hrest
  · rw [he]
    rfl
  · rw [he]
    rfl
  · exact fun x hx hxd => storeFatEntry_other g hc hx hxd
  · exact storeFatEntry_self g hc

/-- Without faults the entry is the new one. -/
lemma setFatEntry_self {v : ℕ} (hf : ∀ t, s.fault t = .none) : fatEntry (setFatEntry s c v).2 c = v % 2 ^ 28 := by
  obtain ⟨h, hs⟩ := setFatEntry_eq g hc
  rw [hs]
  exact storeFatEntry_new g hc hf

end

end Chimera
