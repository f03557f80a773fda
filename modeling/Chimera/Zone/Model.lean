import Chimera.Lib.Bytes
import Chimera.Pmm.Model

/-!
# The kernel heap: `kernel/mm/zone.c`

A zone hands out elements of one size, carved from pages; its free elements are linked through
their own first words. `kalloc` puts a header of 64 bytes before what it returns and takes it from
the first zone that is large enough, or from whole pages. The heap is modelled over any supply of
page frames that hands out no frame twice (`FrameSupply`); `pmmSupply` is the one of `pmm.c`.

Conventions.
* Addresses are physical: the direct map adds a constant to them, a multiple of the page size.
* `usize` sums that can wrap are `u64`; the counters `z_count` and `z_free_count` are `u32`.
* `z_name`, `z_alloc_size` and `z_max_size` are written and never read, and are left out. A call is
  one step: the locks are not modelled.
-/

namespace Chimera

open Lib

/-! ## The supply of frames -/

/-- The result of an allocation of `n` frames from the state `t`: it fails, or the frames were not
taken and now are. -/
structure Supplied {σ : Type} (taken : σ → Set ℕ) (t : σ) (n : ℕ) (r : ℕ × σ) : Prop where
  keeps : taken t ⊆ taken r.2
  frames : allocFailed r.1 = false → ∃ f, r.1 = f * pageSize ∧ f + n ≤ 2 ^ 52 ∧
    ∀ i < n, f + i ∉ taken t ∧ f + i ∈ taken r.2

/-- A physical memory manager that hands out disjoint frames. -/
structure FrameSupply (σ : Type) where
  /-- `pmm_alloc_page`. -/
  allocPage : σ → ℕ × σ
  /-- `pmm_alloc_pages`. -/
  allocPages : ℕ → σ → ℕ × σ
  /-- `pmm_free_contiguous`. -/
  freeContiguous : ℕ → ℕ → σ → σ
  /-- The frames that have been handed out and not been freed since. -/
  taken : σ → Set ℕ
  allocPage_spec : ∀ t, Supplied taken t 1 (allocPage t)
  allocPages_spec : ∀ n t, Supplied taken t n (allocPages n t)
  free_spec : ∀ f n t, f + n ≤ 2 ^ 52 →
    {g | g ∈ taken t ∧ ¬ (f ≤ g ∧ g < f + n)} ⊆ taken (freeContiguous (f * pageSize) n t)

/-! ## Zones -/

/-- `zone_struct_t`. -/
structure ZoneStruct where
  elemSize : ℕ
  curSize : ℕ
  count : ℕ
  freeCount : ℕ
  /-- `z_free_list`, `0` if null. -/
  freeList : ℕ
  deriving DecidableEq, Repr

/-- Memory, the statics of `zone.c` and the supply of frames. -/
structure Heap (σ : Type) where
  mem : Bytes
  /-- `s_zone_table`. -/
  zones : ℕ → ZoneStruct
  /-- `s_zone_table_count`. -/
  zoneCount : ℕ
  /-- `s_zone_initialized`. -/
  initialized : Bool
  pmm : σ

/-- `ZONE_MAGIC`. -/
def zoneMagic : ℕ := 0x585A4F4E45484452
/-- `LARGE_MAGIC`. -/
def largeMagic : ℕ := 0x584C415247454844
/-- `MAX_ZONES`. -/
def maxZones : ℕ := 32
/-- `KALLOC_ZONE_COUNT`. -/
def kallocZoneCount : ℕ := 9

/-- `s_kalloc_sizes`. -/
def kallocSizes : List ℕ := [16, 32, 64, 128, 256, 512, 1024, 2048, 4096]

section zones

variable {σ : Type}

/-- Change one zone. -/
def Heap.setZone (h : Heap σ) (z : ℕ) (s : ZoneStruct) : Heap σ :=
  { h with zones := Function.update h.zones z s }

/-- Add a zone, its element size rounded up to 64 bytes; `none` is `ZONE_NULL`.
Source: `zinit` -/
def zinit (h : Heap σ) (size : ℕ) : Option ℕ × Heap σ :=
  if size = 0 then (none, h)
  else
    let size₁ := if size < 8 then 8 else size
    let size₂ := (size₁ + 63) / 64 * 64
    if h.zoneCount ≥ maxZones then (none, h)
    else
      (some h.zoneCount,
        { h.setZone h.zoneCount ⟨size₂, 0, 0, 0, 0⟩ with zoneCount := h.zoneCount + 1 })

/-- Put an element at the front of the free list: `link->next = z_free_list; z_free_list = link;
z_free_count++`. -/
def pushFree (h : Heap σ) (z link : ℕ) : Heap σ :=
  let s := h.zones z
  { h.setZone z { s with freeList := link, freeCount := (s.freeCount + 1) % 2 ^ 32 } with
    mem := writeLE h.mem link 8 s.freeList }

/-- Carve a page into elements. -/
def carvePage (h : Heap σ) (z phys : ℕ) : Heap σ :=
  let elemSize := (h.zones z).elemSize
  let h₁ := forUpTo (fun i h => pushFree h z (phys + i * elemSize)) (4096 / elemSize) h
  h₁.setZone z { h₁.zones z with curSize := u64 ((h₁.zones z).curSize + 4096) }

/-- Take the first element off the free list and clear it. -/
def popFree (h : Heap σ) (z : ℕ) : ℕ × Heap σ :=
  let s := h.zones z
  let item := s.freeList
  (item,
    { h.setZone z { s with
        freeList := readLE h.mem item 8
        freeCount := (s.freeCount + (2 ^ 32 - 1)) % 2 ^ 32
        count := (s.count + 1) % 2 ^ 32 } with
      mem := fill h.mem item s.elemSize 0 })

/-- Take an element from a zone; `0` when memory runs out.
Source: `zalloc` -/
def zalloc (P : FrameSupply σ) (h : Heap σ) (z : ℕ) : ℕ × Heap σ :=
  if (h.zones z).freeList = 0 then
    let r := P.allocPage h.pmm
    if allocFailed r.1 then (0, { h with pmm := r.2 })
    else popFree (carvePage { h with pmm := r.2 } z r.1) z
  else popFree h z

/-- Give an element back to its zone.
Source: `zfree` -/
def zfree (h : Heap σ) (z elem : ℕ) : Heap σ :=
  if elem = 0 then h
  else
    let h₁ := pushFree h z elem
    let s := h₁.zones z
    h₁.setZone z { s with count := if s.count > 0 then s.count - 1 else s.count }

/-- Set up the zones of `kalloc`.
Source: `zone_init` -/
def zoneInit (h : Heap σ) : Heap σ :=
  if h.initialized then h
  else
    { kallocSizes.foldl (fun h size => (zinit h size).2) { h with zoneCount := 0 } with
      initialized := true }

/-! ## `kalloc` and `kfree` -/

/-- The first zone whose elements have at least `needed` bytes. -/
def kallocZone (h : Heap σ) (needed : ℕ) : Option ℕ :=
  (List.range kallocZoneCount).find? fun i => decide ((h.zones i).elemSize ≥ needed)

/-- The header of an element: magic, `zone_idx` and `alloc_size`. -/
def writeZoneHeader (m : Bytes) (a zi size : ℕ) : Bytes :=
  writeLE (writeLE (writeLE m a 8 zoneMagic) (a + 8) 4 zi) (a + 12) 4 size

/-- The header of whole pages: magic, `page_count` and `phys_base`. -/
def writeLargeHeader (m : Bytes) (a pages : ℕ) : Bytes :=
  writeLE (writeLE (writeLE m a 8 largeMagic) (a + 8) 8 pages) (a + 16) 8 a

/-- The last part of `kalloc`: an allocation of whole pages. -/
def kallocLarge (P : FrameSupply σ) (h : Heap σ) (size : ℕ) : ℕ × Heap σ :=
  let total := u64 (size + 64)
  let pages := u64 (total + 4095) / 4096
  let r := P.allocPages pages h.pmm
  if allocFailed r.1 then (0, { h with pmm := r.2 })
  else
    (r.1 + 64, { h with pmm := r.2, mem := fill (writeLargeHeader h.mem r.1 pages) (r.1 + 64) size 0 })

/-- Allocate `size` bytes; `0` when memory runs out.
Source: `kalloc` -/
def kalloc (P : FrameSupply σ) (h : Heap σ) (size : ℕ) : ℕ × Heap σ :=
  if size = 0 then (0, h)
  else
    let h₁ := if ¬ h.initialized then zoneInit h else h
    let needed := u64 (size + 64)
    if needed ≤ 4096 then
      match kallocZone h₁ needed with
      | some zi =>
          let r := zalloc P h₁ zi
          if r.1 = 0 then (0, r.2)
          else (r.1 + 64, { r.2 with mem := writeZoneHeader r.2.mem r.1 zi size })
      | none => kallocLarge P h₁ size
    else kallocLarge P h₁ size

/-- The last part of `kfree`: give back whole pages, if the header can be one. -/
def kfreeLarge (P : FrameSupply σ) (h : Heap σ) (a : ℕ) : Heap σ :=
  if readLE h.mem a 8 = largeMagic then
    let pageCount := readLE h.mem (a + 8) 8
    let physBase := readLE h.mem (a + 16) 8
    if pageCount = 0 ∨ pageCount > 2 ^ 20 ∨ physBase % pageSize ≠ 0 then h
    else
      { h with mem := writeLE h.mem a 8 0, pmm := P.freeContiguous physBase pageCount h.pmm }
  else h

/-- Free what `kalloc` returned.
Source: `kfree` -/
def kfree (P : FrameSupply σ) (h : Heap σ) (ptr : ℕ) : Heap σ :=
  if ptr = 0 then h
  else
    let a := ptr - 64
    let zi := readLE h.mem (a + 8) 4
    if readLE h.mem a 8 = zoneMagic ∧ zi < kallocZoneCount then
      zfree { h with mem := writeLE h.mem a 8 0 } zi a
    else kfreeLarge P h a

end zones

end Chimera
