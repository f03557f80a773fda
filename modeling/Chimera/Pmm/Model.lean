import Chimera.Lib.Loop
import Mathlib

/-!
# The physical memory manager of `kernel/mm/pmm.c`

A binary buddy allocator over page descriptors. The state `Pmm` holds the statics of the file:
the descriptor array `s_pages`, the fifteen list heads `s_buddy_freelist`, and three counters.

Conventions.
* A `vm_page_t *` is null or points into `s_pages`, so it is an `Option ℕ` (a page number).
* `ppnum_t` is `uint32_t` (`mach/vm_types.h`): every value stored in one is cut to 32 bits
  (`u32`). Physical addresses and `usize` values are 64 bits (`u64` where a sum can wrap).
* The spin lock makes each entry point atomic, so an operation is a function on `Pmm`.
* `(chimera_paddr_t)-1`, the failure value of the order-`k` allocator, is `paddrFail`.
-/

namespace Chimera

open Lib

/-- Truncation to a 32-bit unsigned integer. -/
def u32 (n : ℕ) : ℕ := n % 2 ^ 32

/-- Truncation to a 64-bit unsigned integer. -/
def u64 (n : ℕ) : ℕ := n % 2 ^ 64

/-- `CHIMERA_PAGE_SIZE`. -/
def pageSize : ℕ := 4096

/-- `BUDDY_MAX_ORDER`: blocks have at most `2 ^ 14` pages. -/
def buddyMaxOrder : ℕ := 14

/-- `(chimera_paddr_t)-1`. -/
def paddrFail : ℕ := 2 ^ 64 - 1

/-- `VM_PAGE_FREE`. -/
def vmPageFree : ℕ := 0x0001

/-- `VM_PAGE_ACTIVE`. -/
def vmPageActive : ℕ := 0x0002

/-- `VM_PAGE_WIRED`. -/
def vmPageWired : ℕ := 0x0008

/-- A page descriptor.
Source: `vm_page_t` (`kernel/vm_page.h`) -/
structure VmPage where
  next : Option ℕ := none
  prev : Option ℕ := none
  physPage : ℕ := 0
  refCount : ℕ := 0
  wireCount : ℕ := 0
  flags : ℕ := 0
  order : ℕ := 0
  deriving DecidableEq, Repr

/-- `flags & VM_PAGE_FREE`, the test of `buddy_free_block`. -/
def VmPage.isFree (p : VmPage) : Prop := p.flags &&& vmPageFree ≠ 0

instance (p : VmPage) : Decidable p.isFree := inferInstanceAs (Decidable (_ ≠ _))

/-- The statics of `pmm.c`. -/
structure Pmm where
  /-- `s_pages`. -/
  pages : ℕ → VmPage
  /-- `s_buddy_freelist`. -/
  freelist : ℕ → Option ℕ
  /-- `s_max_phys_page`. -/
  maxPhysPage : ℕ
  /-- `s_total_ram_pages`. -/
  totalRamPages : ℕ
  /-- `s_free_pages`. -/
  freePages : ℕ

/-- Write one descriptor. -/
@[simps -fullyApplied freelist maxPhysPage freePages]
def Pmm.setPage (s : Pmm) (i : ℕ) (p : VmPage) : Pmm :=
  { s with pages := Function.update s.pages i p }

/-- Write one list head. -/
@[simps -fullyApplied pages maxPhysPage freePages]
def Pmm.setHead (s : Pmm) (order : ℕ) (hd : Option ℕ) : Pmm :=
  { s with freelist := Function.update s.freelist order hd }

/-! ## The free lists -/

/-- Push a block on the free list of its order.
Source: `buddy_list_add` -/
def buddyListAdd (s : Pmm) (order page : ℕ) : Pmm :=
  let s₁ := s.setPage page
    { s.pages page with order := order, flags := vmPageFree, next := s.freelist order,
                        prev := none }
  let s₂ := match s₁.freelist order with
    | some hd => s₁.setPage hd { s₁.pages hd with prev := some page }
    | none => s₁
  s₂.setHead order (some page)

/-- The first half of `buddy_list_remove`: the predecessor, or the list head, skips the page. -/
def buddyUnlinkPrev (s : Pmm) (order page : ℕ) : Pmm :=
  match (s.pages page).prev with
  | some q => s.setPage q { s.pages q with next := (s.pages page).next }
  | none => s.setHead order (s.pages page).next

/-- The second half of `buddy_list_remove`: the successor points back past the page. -/
def buddyUnlinkNext (s : Pmm) (page : ℕ) : Pmm :=
  match (s.pages page).next with
  | some q => s.setPage q { s.pages q with prev := (s.pages page).prev }
  | none => s

/-- Unlink a block from the free list of its order.
Source: `buddy_list_remove` -/
def buddyListRemove (s : Pmm) (order page : ℕ) : Pmm :=
  let s₁ := buddyUnlinkPrev s order page
  let s₂ := buddyUnlinkNext s₁ page
  s₂.setPage page { s₂.pages page with next := none, prev := none, flags := 0 }

/-- The merging loop of `buddy_free_block`, with `n = BUDDY_MAX_ORDER - order` rounds left:
join the block with its buddy while the buddy is free as a whole, then list the result. -/
def buddyFreeLoop : ℕ → Pmm → ℕ → ℕ → Pmm
  | 0, s, pfn, order => buddyListAdd s order pfn
  | n + 1, s, pfn, order =>
      let buddyPfn := pfn ^^^ 2 ^ order
      if buddyPfn ≥ s.maxPhysPage then buddyListAdd s order pfn
      else if ¬ (s.pages buddyPfn).isFree ∨ (s.pages buddyPfn).order ≠ order ∨
          (s.pages buddyPfn).refCount ≠ 0 then buddyListAdd s order pfn
      else
        buddyFreeLoop n (buddyListRemove s order buddyPfn)
          (if buddyPfn < pfn then buddyPfn else pfn) (order + 1)

/-- Give a block back to the free lists.
Source: `buddy_free_block` -/
def buddyFreeBlock (s : Pmm) (pfn order : ℕ) : Pmm :=
  buddyFreeLoop (buddyMaxOrder - order) s pfn order

/-! ## Allocation -/

/-- The scan of `pmm_alloc_order_unlocked`: the first order from `order` on whose list is not
empty. -/
def buddyFindOrder (s : Pmm) (order : ℕ) : Option ℕ :=
  (List.range' order (buddyMaxOrder + 1 - order)).find? fun k => (s.freelist k).isSome

/-- The splitting loop of `pmm_alloc_order_unlocked`, from order `order + n` down to `order`:
the upper half of what is left goes back to the free lists. -/
def buddySplit : ℕ → Pmm → ℕ → ℕ → Pmm
  | 0, s, _, _ => s
  | n + 1, s, block, order =>
      buddySplit n
        (buddyListAdd s (order + n) (u32 ((s.pages block).physPage + 2 ^ (order + n)))) block order

/-- One round of the loop that marks the pages of an allocated block. -/
def buddyClaimPage (order block i : ℕ) (s : Pmm) : Pmm :=
  let q := (s.pages block).physPage + i
  s.setPage q { s.pages q with refCount := 1, wireCount := 0, flags := vmPageActive,
                               order := order }

/-- Take a block of `2 ^ order` pages.
Source: `pmm_alloc_order_unlocked` -/
def pmmAllocOrderUnlocked (s : Pmm) (order : ℕ) : ℕ × Pmm :=
  if order > buddyMaxOrder then (paddrFail, s)
  else
    match buddyFindOrder s order with
    | none => (paddrFail, s)
    | some curOrder =>
        match s.freelist curOrder with
        | none => (paddrFail, s)
        | some block =>
            let s₁ := buddyListRemove s curOrder block
            let s₂ := buddySplit (curOrder - order) s₁ block order
            let s₃ := forUpTo (buddyClaimPage order block) (2 ^ order) s₂
            ((s₃.pages block).physPage * pageSize,
              { s₃ with freePages := s₃.freePages - 2 ^ order })

/-- Take one page; `0` is the failure value.
Source: `pmm_alloc_page` -/
def pmmAllocPage (s : Pmm) : ℕ × Pmm :=
  let r := pmmAllocOrderUnlocked s 0
  (if r.1 = paddrFail then 0 else r.1, r.2)

/-- The loop of `pmm_alloc_pages` that looks for the order, with `n` rounds left before
`BUDDY_MAX_ORDER` is passed. -/
def pmmOrderFor (count : ℕ) : ℕ → ℕ → Option ℕ
  | 0, order => if 2 ^ order < count then none else some order
  | n + 1, order => if 2 ^ order < count then pmmOrderFor count n (order + 1) else some order

/-- Take `count` pages in a row.
Source: `pmm_alloc_pages` -/
def pmmAllocPages (s : Pmm) (count : ℕ) : ℕ × Pmm :=
  if count = 0 then (paddrFail, s)
  else if count = 1 then pmmAllocPage s
  else
    match pmmOrderFor count buddyMaxOrder 0 with
    | none => (paddrFail, s)
    | some order => pmmAllocOrderUnlocked s order

/-! ## Reference counts -/

/-- One more reference, up to the ceiling of the 16-bit counter.
Source: `pmm_retain_page` -/
def pmmRetainPage (s : Pmm) (addr : ℕ) : Pmm :=
  let idx := addr / pageSize
  if idx ≥ s.maxPhysPage then s
  else if (s.pages idx).refCount < 65535 then
    s.setPage idx { s.pages idx with refCount := (s.pages idx).refCount + 1 }
  else s

/-- One reference less; the last one frees the page.
Source: `pmm_release_page` -/
def pmmReleasePage (s : Pmm) (addr : ℕ) : Pmm :=
  let idx := addr / pageSize
  if idx ≥ s.maxPhysPage then s
  else if (s.pages idx).refCount > 0 then
    let s₁ := s.setPage idx { s.pages idx with refCount := (s.pages idx).refCount - 1 }
    if (s₁.pages idx).refCount = 0 then
      let s₂ := s₁.setPage idx { s₁.pages idx with wireCount := 0, flags := 0 }
      let s₃ := buddyFreeBlock s₂ (u32 idx) 0
      { s₃ with freePages := s₃.freePages + 1 }
    else s₁
  else s

/-- The count a caller sees; pages outside the managed range have none.
Source: `pmm_get_refcount` -/
def pmmGetRefcount (s : Pmm) (addr : ℕ) : ℕ :=
  let idx := addr / pageSize
  if idx ≥ s.maxPhysPage then 0 else (s.pages idx).refCount

/-- Release `count` pages in a row.
Source: `pmm_free_contiguous` -/
def pmmFreeContiguous (s : Pmm) (addr count : ℕ) : Pmm :=
  if addr = paddrFail ∨ addr = 0 ∨ count = 0 then s
  else forUpTo (fun i t => pmmReleasePage t (u64 (addr + i * pageSize))) count s

/-- `phys == 0 || phys == (u64)-1`, the callers' test for a failed allocation. -/
def allocFailed (phys : ℕ) : Bool := phys = 0 ∨ phys = paddrFail

/-! ## Initialisation -/

/-- `chimera_mem_type_t`. -/
inductive MemType
  | reserved
  | usable
  | acpiReclaim
  | acpiNvs
  | bootloaderReclaim
  | kernel
  | framebuffer
  deriving DecidableEq, Repr

/-- A boot memory map entry; both words are 64 bits.
Source: `chimera_memmap_entry_t` -/
structure MemmapEntry where
  base : ℕ
  length : ℕ
  type : MemType
  base_lt : base < 2 ^ 64
  length_lt : length < 2 ^ 64

/-- The entry types that count towards the highest physical address. -/
def MemType.extendsRange : MemType → Bool
  | .usable | .bootloaderReclaim | .kernel | .acpiReclaim | .acpiNvs => true
  | _ => false

/-- The entry types that count as RAM. -/
def MemType.isRam : MemType → Bool
  | .usable | .bootloaderReclaim | .kernel | .acpiReclaim => true
  | _ => false

/-- The first loop of `pmm_init`: the highest physical address. -/
def maxPhysAddr (entries : List MemmapEntry) : ℕ :=
  entries.foldl (fun m e => if e.type.extendsRange then max m (u64 (e.base + e.length)) else m) 0

/-- The first loop of `pmm_init`: the RAM total, a 64-bit sum. -/
def totalRamBytes (entries : List MemmapEntry) : ℕ :=
  entries.foldl (fun m e => if e.type.isRam then u64 (m + e.length) else m) 0

/-- `sizeof(vm_page_t)`. -/
def sizeofVmPage : ℕ := 32

/-- `page_array_bytes`. -/
def pageArrayBytes (entries : List MemmapEntry) : ℕ :=
  maxPhysAddr entries / pageSize * sizeofVmPage

/-- `page_array_pages`. -/
def pageArrayPages (entries : List MemmapEntry) : ℕ :=
  (pageArrayBytes entries + pageSize - 1) / pageSize

/-- Where the descriptor array goes: a usable entry with a megabyte to spare, above the first
megabyte; failing that the first usable entry that is long enough; failing that `0`. -/
def arrayPaddr (entries : List MemmapEntry) : ℕ :=
  let need := pageArrayBytes entries
  let first := match entries.find? fun e => e.type = .usable ∧ e.length ≥ need + 0x100000 with
    | some e => if e.base ≥ 0x100000 then e.base else 0x100000
    | none => 0
  if first = 0 then
    match entries.find? fun e => e.type = .usable ∧ e.length ≥ need with
    | some e => e.base
    | none => 0
  else first

/-- A descriptor as `pmm_init` first writes it: wired, one reference. -/
def wiredPage (i : ℕ) : VmPage :=
  { physPage := u32 i, refCount := 1, wireCount := 1, flags := vmPageWired, order := 0 }

/-- The state before any usable page is freed: every descriptor wired. -/
def pmmWired (entries : List MemmapEntry) : Pmm where
  pages i := if i < maxPhysAddr entries / pageSize then wiredPage i else {}
  freelist _ := none
  maxPhysPage := maxPhysAddr entries / pageSize
  totalRamPages := totalRamBytes entries / pageSize
  freePages := 0

/-- Free one page during initialisation, unless it holds part of the descriptor array. -/
def pmmFreeInitPage (arrayFirst arrayLast p : ℕ) (s : Pmm) : Pmm :=
  if p ≥ arrayFirst ∧ p < arrayLast then s
  else
    let s₁ := s.setPage p { s.pages p with refCount := 0, wireCount := 0 }
    let s₂ := buddyFreeBlock s₁ (u32 p) 0
    { s₂ with freePages := s₂.freePages + 1 }

/-- The pages `[first, last)` of a usable entry that `pmm_init` frees: those above the first
megabyte. -/
def usablePages (maxPage : ℕ) (e : MemmapEntry) : ℕ × ℕ :=
  let last := u64 (e.base + e.length)
  if e.base < 0x100000 then
    if last ≤ 0x100000 then (0, 0)
    else (0x100000 / pageSize, min (last / pageSize) maxPage)
  else (e.base / pageSize, min (last / pageSize) maxPage)

/-- The last loop of `pmm_init`, over one entry. -/
def pmmFreeEntry (arrayFirst arrayLast : ℕ) (s : Pmm) (e : MemmapEntry) : Pmm :=
  if e.type ≠ .usable then s
  else
    let r := usablePages s.maxPhysPage e
    forUpTo (fun i t => pmmFreeInitPage arrayFirst arrayLast (r.1 + i) t) (r.2 - r.1) s

/-- Set up the allocator from the boot memory map. `none` is the `while(1)` taken when no entry
can hold the descriptor array.
Source: `pmm_init` -/
def pmmInit (entries : List MemmapEntry) : Option Pmm :=
  if entries = [] then
    some { pages := fun _ => {}, freelist := fun _ => none, maxPhysPage := 0,
           totalRamPages := 0, freePages := 0 }
  else if arrayPaddr entries = 0 then none
  else
    let arrayFirst := arrayPaddr entries / pageSize
    let arrayLast := arrayFirst + pageArrayPages entries
    let s := entries.foldl (pmmFreeEntry arrayFirst arrayLast) (pmmWired entries)
    some (if s.totalRamPages = 0 then { s with totalRamPages := s.freePages } else s)

end Chimera
