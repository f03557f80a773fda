import Chimera.Lib.SList
import Chimera.Zone.Model

/-!
# The invariant of the heap

A layout says what each part of the heap is used for: a free element of a zone, an element handed
out by `kalloc`, or whole pages handed out by `kalloc`. The invariant `HeapInv` says that the parts
do not overlap and lie in frames the heap owns (`Cells`), that the headers of what is handed out are
intact, and that each zone links exactly its free elements (`FreeList`). Links and headers are kept
in the memory they are about, so each step comes with what it leaves alone: `Change`, which is the new
use of one part, and `FreeList.frame`.
-/

namespace Chimera

open Lib
open Function (update update_self update_of_ne update_idem)

/-! ## Layouts -/

/-- `[a, a + n)` and `[b, b + k)` do not overlap. -/
def apart (a n b k : ℕ) : Prop := a + n ≤ b ∨ b + k ≤ a

variable {a : ℕ} {m : Bytes}

lemma apart_comm {n b k : ℕ} : apart a n b k ↔ apart b k a n := Or.comm

/-- The element size of a zone of `kalloc`. -/
def zoneElem (z : ℕ) : ℕ := (kallocSizes.getD z 0 + 63) / 64 * 64

/-- An element size is a multiple of 64 that divides a page. -/
lemma zoneElem_facts {z : ℕ} (hz : z < kallocZoneCount) :
    64 ≤ zoneElem z ∧ zoneElem z ≤ 4096 ∧ 64 ∣ zoneElem z ∧ zoneElem z ∣ 4096 := by
  unfold kallocZoneCount at hz
  interval_cases z <;> decide

/-- What a part of the heap is used for. -/
inductive Role where
  /-- A free element of a zone. -/
  | free (z : ℕ)
  /-- An element of a zone that holds a block of `size` bytes. -/
  | element (z size : ℕ)
  /-- `n` pages that hold a block of `size` bytes. -/
  | pages (n size : ℕ)
  deriving DecidableEq, Repr

/-- How many bytes a part has. -/
def Role.len : Role → ℕ
  | .free z => zoneElem z
  | .element z _ => zoneElem z
  | .pages n _ => n * pageSize

/-- The parts of the heap, by their addresses. -/
abbrev Layout := ℕ → Option Role

/-- A pointer, `none` if null. -/
def ptr (p : ℕ) : Option ℕ := if p = 0 then none else some p

/-- The link in an element. -/
def nextOf (m : Bytes) (a : ℕ) : Option ℕ := ptr (readLE m a 8)

/-- What memory holds at a part of the heap: what is handed out has its header. -/
def RoleOk (m : Bytes) (a : ℕ) : Role → Prop
  | .free z => z < kallocZoneCount
  | .element z size => z < kallocZoneCount ∧ size + 64 ≤ zoneElem z ∧
      readLE m a 8 = zoneMagic ∧ readLE m (a + 8) 4 = z
  | .pages n size => size + 64 ≤ n * pageSize ∧ a % pageSize = 0 ∧ a / pageSize + n ≤ 2 ^ 52 ∧
      readLE m a 8 = largeMagic ∧ readLE m (a + 8) 8 = n ∧ readLE m (a + 16) 8 = a

variable {r : Role}

lemma RoleOk.len_ge (h : RoleOk m a r) : 64 ≤ r.len := by
  cases r with
  | free z => exact (zoneElem_facts h).1
  | element z size => exact (zoneElem_facts h.1).1
  | pages n size =>
    have h1 := h.1
    simp only [Role.len]
    omega

/-- **Frame.** A header only depends on the first bytes of its part. -/
lemma RoleOk.congr {m' : Bytes} (h : RoleOk m a r)
    (hm : ∀ i < 64, m' (a + i) = m (a + i)) : RoleOk m' a r := by
  have hread : ∀ o n, o + n ≤ 64 → readLE m' (a + o) n = readLE m (a + o) n := by
    intro o n hon
    apply readLE_congr
    intro i hi
    rw [Nat.add_assoc]
    exact hm _ (by omega)
  have h0 : readLE m' a 8 = readLE m a 8 := hread 0 8 (by decide)
  cases r with
  | free z => exact h
  | element z size =>
    refine ⟨h.1, h.2.1, ?_, ?_⟩
    · rw [h0]
      exact h.2.2.1
    · rw [hread 8 4 (by decide)]
      exact h.2.2.2
  | pages n size =>
    refine ⟨h.1, h.2.1, h.2.2.1, ?_, ?_, ?_⟩
    · rw [h0]
      exact h.2.2.2.1
    · rw [hread 8 8 (by decide)]
      exact h.2.2.2.2.1
    · rw [hread 16 8 (by decide)]
      exact h.2.2.2.2.2

/-- **The parts of the heap** are well formed, lie in the frames `T`, and do not overlap. -/
structure Cells (T : Set ℕ) (m : Bytes) (H : Layout) : Prop where
  ok : ∀ {a r}, H a = some r → RoleOk m a r
  base : ∀ {a r}, H a = some r → 0 < a ∧ 64 ∣ a ∧ a + r.len ≤ 2 ^ 64
  inside : ∀ {a r}, H a = some r → ∀ b, a ≤ b → b < a + r.len → b / pageSize ∈ T
  disj : ∀ {a r b q}, H a = some r → H b = some q → a ≠ b → apart a r.len b q.len

/-- **One part gets a new use, or goes**: memory changes in the `n` bytes at `a` only, where no other part
is, and the other parts keep their frames. -/
structure Change (T' : Set ℕ) (m m' : Bytes) (H : Layout) (a n : ℕ) (r : Option Role) : Prop where
  mem : ∀ b, ¬ (a ≤ b ∧ b < a + n) → m' b = m b
  ok : ∀ q, r = some q → q.len = n ∧ RoleOk m' a q ∧ (0 < a ∧ 64 ∣ a ∧ a + n ≤ 2 ^ 64) ∧
    ∀ b, a ≤ b → b < a + n → b / pageSize ∈ T'
  frames : ∀ {b q}, H b = some q → b ≠ a → ∀ x, b ≤ x → x < b + q.len → x / pageSize ∈ T'
  apart : ∀ {b q}, H b = some q → b ≠ a → apart a n b q.len

section cells

variable {T T' : Set ℕ} {m' : Bytes} {H : Layout} {n : ℕ} {r : Option Role} {b : ℕ} {q : Role}

/-- The first bytes of another part stay. -/
lemma Change.mem_other (g : Change T' m m' H a n r) (hb : H b = some q) (hba : b ≠ a)
    (hlen : 64 ≤ q.len) : ∀ i < 64, m' (b + i) = m (b + i) := by
  intro i hi
  apply g.mem
  rcases g.apart hb hba with h | h <;> omega

lemma Cells.change (c : Cells T m H) (g : Change T' m m' H a n r) : Cells T' m' (update H a r) := by
  -- every part is the new one or an old one elsewhere
  have hcase : ∀ {b q}, update H a r b = some q → (b = a ∧ r = some q) ∨ (b ≠ a ∧ H b = some q) := by
    intro b q hb
    by_cases hba : b = a
    · rw [hba, update_self] at hb
      exact .inl ⟨hba, hb⟩
    · rw [update_of_ne hba] at hb
      exact .inr ⟨hba, hb⟩
  constructor
  · intro b q hb
    obtain ⟨rfl, hr⟩ | ⟨hba, hb⟩ := hcase hb
    · exact (g.ok q hr).2.1
    · exact (c.ok hb).congr (g.mem_other hb hba (c.ok hb).len_ge)
  · intro b q hb
    obtain ⟨rfl, hr⟩ | ⟨hba, hb⟩ := hcase hb
    · rw [(g.ok q hr).1]
      exact (g.ok q hr).2.2.1
    · exact c.base hb
  · intro b q hb
    obtain ⟨rfl, hr⟩ | ⟨hba, hb⟩ := hcase hb
    · rw [(g.ok q hr).1]
      exact (g.ok q hr).2.2.2
    · exact g.frames hb hba
  · intro b q b' q' hb hb' hne
    obtain ⟨rfl, hr⟩ | ⟨hba, hold⟩ := hcase hb
    · obtain ⟨rfl, -⟩ | ⟨hba', hold'⟩ := hcase hb'
      · exact absurd rfl hne
      · rw [(g.ok q hr).1]
        exact g.apart hold' hba'
    · obtain ⟨rfl, hr'⟩ | ⟨hba', hold'⟩ := hcase hb'
      · rw [(g.ok q' hr').1]
        exact apart_comm.mp (g.apart hold hba)
      · exact c.disj hold hold' hne

/-- Frames the heap does not own hold no part of it. -/
lemma Cells.apart_of_fresh (c : Cells T m H) (hn : 0 < n)
    (hfresh : ∀ x, a ≤ x → x < a + n → x / pageSize ∉ T) (hb : H b = some q) : apart a n b q.len := by
  have hlen := (c.ok hb).len_ge
  by_contra hov
  unfold apart at hov
  push Not at hov
  have hx := c.inside hb (max a b) (le_max_right a b) (by omega)
  exact hfresh (max a b) (le_max_left a b) (by omega) hx

end cells

/-! ## Free lists -/

/-- The free list of zone `z` is `L`: its free elements, and counted. -/
structure FreeList (m : Bytes) (s : ZoneStruct) (H : Layout) (z : ℕ) (L : List ℕ) : Prop where
  chain : Chain (nextOf m) (ptr s.freeList) L
  mem_iff : ∀ a, a ∈ L ↔ H a = some (.free z)
  count : s.freeCount = L.length % 2 ^ 32

section lists

variable {T T' : Set ℕ} {m' : Bytes} {s s' : ZoneStruct} {H : Layout} {z n : ℕ} {L : List ℕ} {r : Option Role}

/-- **Frame.** A free list stays when its links do. -/
lemma FreeList.frame (f : FreeList m s H z L) (hm : ∀ x ∈ L, ∀ i < 8, m' (x + i) = m (x + i))
    (hl : s'.freeList = s.freeList) (hc : s'.freeCount = s.freeCount) : FreeList m' s' H z L where
  chain := by
    rw [hl]
    refine f.chain.congr fun x hx => ?_
    rw [nextOf, nextOf, readLE_congr (hm x hx)]
  mem_iff := f.mem_iff
  count := by rw [hc, f.count]

/-- The other elements of a list keep their links. -/
lemma FreeList.next_eq (f : FreeList m s H z L) (c : Cells T m H) (g : Change T' m m' H a n r) :
    ∀ x ∈ L, x ≠ a → nextOf m' x = nextOf m x := by
  intro x hx hxa
  have hx' := (f.mem_iff x).mp hx
  rw [nextOf, nextOf, readLE_congr]
  exact fun i hi => g.mem_other hx' hxa (c.ok hx').len_ge i (by omega)

/-- An element joins the front of its list. -/
lemma FreeList.push (f : FreeList m s H z L) (c : Cells T m H)
    (g : Change T' m (writeLE m a 8 s.freeList) H a n (some (.free z))) (hlt : s.freeList < 256 ^ 8)
    (ha : 0 < a) (hna : H a ≠ some (.free z)) (hl : s'.freeList = a)
    (hc : s'.freeCount = (s.freeCount + 1) % 2 ^ 32) :
    FreeList (writeLE m a 8 s.freeList) s' (update H a (some (.free z))) z (a :: L) := by
  have haL : a ∉ L := fun h => hna ((f.mem_iff a).mp h)
  constructor
  · have hnext : nextOf (writeLE m a 8 s.freeList) a = ptr s.freeList := by
      rw [nextOf, readLE_writeLE, Nat.mod_eq_of_lt hlt]
    refine ⟨?_, ?_⟩
    · rw [hl, ptr, if_neg (by omega)]
    · rw [hnext]
      exact f.chain.congr fun x hx => f.next_eq c g x hx fun h => haL (h ▸ hx)
  · intro x
    by_cases hxa : x = a
    · subst hxa
      simp
    · rw [update_of_ne hxa, List.mem_cons, ← f.mem_iff x]
      exact or_iff_right hxa
  · rw [hc, f.count, List.length_cons]
    omega

lemma FreeList.pop (f : FreeList m s H z (a :: L)) (c : Cells T m H) (g : Change T' m m' H a n r)
    (hr : r ≠ some (.free z)) (hl : s'.freeList = readLE m a 8)
    (hc : s'.freeCount = (s.freeCount + (2 ^ 32 - 1)) % 2 ^ 32) : FreeList m' s' (update H a r) z L := by
  have haL := (List.nodup_cons.mp f.chain.nodup).1
  constructor
  · rw [hl]
    exact f.chain.2.congr fun x hx => f.next_eq c g x (List.mem_cons_of_mem _ hx) fun h => haL (h ▸ hx)
  · intro x
    by_cases hxa : x = a
    · subst hxa
      rw [update_self]
      exact iff_of_false haL hr
    · rw [update_of_ne hxa, ← f.mem_iff x, List.mem_cons]
      exact (or_iff_right hxa).symm
  · rw [hc, f.count, List.length_cons]
    omega

/-- A list of another zone is not concerned by the new use of a part that is not on it. -/
lemma FreeList.other (f : FreeList m s H z L) (c : Cells T m H) (g : Change T' m m' H a n r)
    (hH : H a ≠ some (.free z)) (hr : r ≠ some (.free z)) : FreeList m' s (update H a r) z L := by
  have hne : ∀ x ∈ L, x ≠ a := by
    rintro x hx rfl
    exact hH ((f.mem_iff x).mp hx)
  refine ⟨f.chain.congr fun x hx => f.next_eq c g x hx (hne x hx), fun x => ?_, f.count⟩
  rw [f.mem_iff x]
  by_cases hxa : x = a
  · subst hxa
    rw [update_self]
    exact iff_of_false hH hr
  · rw [update_of_ne hxa]

end lists

/-! ## The invariant -/

/-- **The invariant of the heap** with the layout `H`. -/
structure HeapInv {σ : Type} (P : FrameSupply σ) (h : Heap σ) (H : Layout) : Prop where
  sizes : ∀ z < kallocZoneCount, (h.zones z).elemSize = zoneElem z
  cells : Cells (P.taken h.pmm) h.mem H
  lists : ∀ z < kallocZoneCount, ∃ L, FreeList h.mem (h.zones z) H z L
  ready : h.initialized = true

/-- What is handed out in `H` is handed out in `H'`. -/
def KeepsBlocks (H H' : Layout) : Prop := ∀ b q, H b = some q → (∀ z, q ≠ .free z) → H' b = some q

section steps

variable {σ : Type} {P : FrameSupply σ} {h : Heap σ} {H : Layout} {z : ℕ}

/-- A free list starts with a free element, if with anything. -/
lemma HeapInv.head (i : HeapInv P h H) (hz : z < kallocZoneCount) : (h.zones z).freeList < 256 ^ 8 ∧
      ((h.zones z).freeList ≠ 0 → H (h.zones z).freeList = some (.free z)) := by
  obtain ⟨L, f⟩ := i.lists z hz
  cases L with
  | nil =>
    have h0 := f.chain
    simp only [chain_nil, ptr, ite_eq_left_iff, reduceCtorEq, imp_false, not_not] at h0
    rw [h0]
    exact ⟨by decide, fun hne => absurd rfl hne⟩
  | cons x xs =>
    have hx := (f.mem_iff x).mp List.mem_cons_self
    have hhd := f.chain.1
    unfold ptr at hhd
    split_ifs at hhd
    rw [Option.some.inj hhd]
    have hlen := (i.cells.ok hx).len_ge
    have hend := (i.cells.base hx).2.2
    exact ⟨by omega, fun _ => hx⟩

variable {n f : ℕ} {r : Option Role} {K : Role → Prop}

/-- **One part of the heap changes.** A zone is not concerned, or its new list is given. -/
lemma HeapInv.change (i : HeapInv P h H) {h' : Heap σ}
    (g : Change (P.taken h'.pmm) h.mem h'.mem H a n r) (hready : h'.initialized = true)
    (hz : ∀ z < kallocZoneCount, (h'.zones z = h.zones z ∧ H a ≠ some (.free z) ∧ r ≠ some (.free z)) ∨
      ((h'.zones z).elemSize = (h.zones z).elemSize ∧ ∃ L, FreeList h'.mem (h'.zones z) (update H a r) z L)) :
    HeapInv P h' (update H a r) := by
  refine ⟨fun z hlt => ?_, i.cells.change g, fun z hlt => ?_, hready⟩
  · rcases hz z hlt with ⟨heq, -⟩ | ⟨heq, -⟩ <;> rw [heq] <;> exact i.sizes z hlt
  · rcases hz z hlt with ⟨heq, hH, hr⟩ | ⟨-, hL⟩
    · obtain ⟨L, f⟩ := i.lists z hlt
      rw [heq]
      exact ⟨L, f.other i.cells g hH hr⟩
    · exact hL

/-- Another zone than that of the element at `a`. -/
lemma free_ne {z' : ℕ} (hz : z' ≠ z) : some (Role.free z) ≠ some (.free z') := fun h =>
  hz (Role.free.inj (Option.some.inj h)).symm

lemma pushFree_zone : (pushFree h z a).zones z =
    { h.zones z with freeList := a, freeCount := ((h.zones z).freeCount + 1) % 2 ^ 32 } :=
  update_self _ _ _

/-- **An element joins the free list of its zone.** -/
lemma HeapInv.push (i : HeapInv P h H) (hz : z < kallocZoneCount)
    (ha : 0 < a ∧ 64 ∣ a ∧ a + zoneElem z ≤ 2 ^ 64) (hna : ∀ z', H a ≠ some (.free z'))
    (hin : ∀ b, a ≤ b → b < a + zoneElem z → b / pageSize ∈ P.taken h.pmm)
    (hdisj : ∀ {b q}, H b = some q → b ≠ a → apart a (zoneElem z) b q.len) :
    HeapInv P (pushFree h z a) (update H a (some (.free z))) ∧ ∀ L, FreeList h.mem (h.zones z) H z L →
        FreeList (pushFree h z a).mem ((pushFree h z a).zones z) (update H a (some (.free z))) z
          (a :: L) := by
  have hlen := (zoneElem_facts hz).1
  have hzone := pushFree_zone (h := h) (z := z) (a := a)
  have g : Change (P.taken h.pmm) h.mem (pushFree h z a).mem H a (zoneElem z) (some (.free z)) := by
    refine ⟨fun b hb => writeLE_of_outside (by omega), ?_, fun hb _ => i.cells.inside hb, hdisj⟩
    rintro q ⟨⟩
    exact ⟨rfl, hz, ha, hin⟩
  have hpush : ∀ L, FreeList h.mem (h.zones z) H z L →
      FreeList (pushFree h z a).mem ((pushFree h z a).zones z) (update H a (some (.free z))) z
        (a :: L) := by
    intro L f
    rw [hzone]
    exact f.push i.cells g (i.head hz).1 ha.1 (hna z) rfl rfl
  refine ⟨i.change g i.ready fun z' hz' => ?_, hpush⟩
  by_cases hzz : z' = z
  · subst hzz
    obtain ⟨L, f⟩ := i.lists z' hz'
    exact .inr ⟨by rw [hzone], _, hpush L f⟩
  · exact .inl ⟨update_of_ne hzz _ _, hna z', free_ne hzz⟩

/-- The other fields of a zone do not matter. -/
lemma HeapInv.setZone (i : HeapInv P h H) {s : ZoneStruct} (hs : s.elemSize = (h.zones z).elemSize)
    (hl : s.freeList = (h.zones z).freeList) (hc : s.freeCount = (h.zones z).freeCount) :
    HeapInv P (h.setZone z s) H := by
  have hzone : (h.setZone z s).zones z = s := update_self _ _ _
  have hother : ∀ z' ≠ z, (h.setZone z s).zones z' = h.zones z' := fun z' hne => update_of_ne hne _ _
  refine ⟨fun z' hz' => ?_, i.cells, fun z' hz' => ?_, i.ready⟩
  · by_cases hzz : z' = z
    · rw [hzz, hzone, hs, ← hzz]
      exact i.sizes z' hz'
    · rw [hother z' hzz]
      exact i.sizes z' hz'
  · obtain ⟨L, f⟩ := i.lists z' hz'
    refine ⟨L, ?_⟩
    by_cases hzz : z' = z
    · subst hzz
      rw [hzone]
      exact f.frame (fun _ _ _ _ => rfl) hl hc
    · rwa [hother z' hzz]

variable {t : σ} {size : ℕ} {q : Role}

/-- The frames the heap owns may become more. -/
lemma HeapInv.setPmm (i : HeapInv P h H) (hkeep : P.taken h.pmm ⊆ P.taken t) :
    HeapInv P { h with pmm := t } H where
  sizes := i.sizes
  cells := ⟨i.cells.ok, i.cells.base, fun hb x hx hx' => hkeep (i.cells.inside hb x hx hx'), i.cells.disj⟩
  lists := i.lists
  ready := i.ready

/-- The elements of a fresh page `f` that have been carved so far, on top of `H`. -/
structure Carving (P : FrameSupply σ) (H : Layout) (z f : ℕ) (t : σ) (j : ℕ) (h : Heap σ) : Prop where
  pmm_eq : h.pmm = t
  nonempty : 0 < j → (h.zones z).freeList ≠ 0
  layout : ∃ H', HeapInv P h H' ∧ (∀ b q, H b = some q → H' b = some q) ∧
    ∀ b q, H' b = some q → H b = some q ∨ ∃ l < j, b = f * pageSize + l * zoneElem z ∧ q = .free z

lemma Carving.round {T : Set ℕ} {m : Bytes} {k j : ℕ} (c : Cells T m H) (hz : z < kallocZoneCount)
    (hf : 0 < f) (hend : f + 1 ≤ 2 ^ 52) (hfresh : f ∉ T) (hnew : f ∈ P.taken t) (hk : 4096 = zoneElem z * k)
    (hj : j < k) (v : Carving P H z f t j h) :
    Carving P H z f t (j + 1) (pushFree h z (f * pageSize + j * zoneElem z)) := by
  obtain ⟨hlo, hhi, hdvd, -⟩ := zoneElem_facts hz
  obtain ⟨H', i, hkeeps, hH'⟩ := v.layout
  have hfit : j * zoneElem z + zoneElem z ≤ 4096 := by
    rw [hk, Nat.mul_comm (zoneElem z) k, ← Nat.succ_mul]
    exact Nat.mul_le_mul_right _ hj
  have hframe : ∀ x, f * pageSize + j * zoneElem z ≤ x →
      x < f * pageSize + j * zoneElem z + zoneElem z → x / pageSize = f := by
    intro x hx hx'
    simp only [pageSize] at *
    omega
  have hbelow : ∀ l < j, l * zoneElem z + zoneElem z ≤ j * zoneElem z := by
    intro l hl
    rw [← Nat.succ_mul]
    exact Nat.mul_le_mul_right _ hl
  have hlast : f * pageSize + 4096 ≤ 2 ^ 64 := by
    simp only [pageSize]
    omega
  -- the new element meets neither an old part nor an element carved before
  have hdisj : ∀ {b q}, H' b = some q → b ≠ f * pageSize + j * zoneElem z →
      apart (f * pageSize + j * zoneElem z) (zoneElem z) b q.len := by
    intro b q hb _
    rcases hH' b q hb with hold | ⟨l, hl, rfl, rfl⟩
    · apply c.apart_of_fresh (by omega) _ hold
      intro x hx hx'
      rwa [hframe x hx hx']
    · have hl' := hbelow l hl
      right
      simp only [Role.len]
      omega
  have hna : ∀ z', H' (f * pageSize + j * zoneElem z) ≠ some (.free z') := by
    intro z' hb
    rcases hH' _ _ hb with hold | ⟨l, hl, heq, -⟩
    · have hin := c.inside hold _ le_rfl (by have := (c.ok hold).len_ge; omega)
      rw [hframe _ le_rfl (by omega)] at hin
      exact hfresh hin
    · have hl' := hbelow l hl
      omega
  have hpos : 0 < f * pageSize := Nat.mul_pos hf (by decide)
  obtain ⟨i', -⟩ := i.push hz
    ⟨by omega, Dvd.dvd.add (Dvd.dvd.mul_left (by decide) _) (hdvd.mul_left _), by omega⟩ hna
    (fun b hb hb' => by rw [hframe b hb hb', v.pmm_eq]; exact hnew) hdisj
  refine ⟨v.pmm_eq, fun _ => ?_, _, i', fun b q hb => ?_, fun b q hb => ?_⟩
  · rw [pushFree_zone]
    dsimp only
    omega
  · have hb' := hkeeps b q hb
    have hne : b ≠ f * pageSize + j * zoneElem z := by
      rintro rfl
      have hin := c.inside hb _ le_rfl (by have := (c.ok hb).len_ge; omega)
      rw [hframe _ le_rfl (by omega)] at hin
      exact hfresh hin
    rwa [update_of_ne hne]
  · by_cases hne : b = f * pageSize + j * zoneElem z
    · rw [hne, update_self] at hb
      exact .inr ⟨j, by omega, hne, (Option.some.inj hb).symm⟩
    · rw [update_of_ne hne] at hb
      exact (hH' b q hb).imp_right fun ⟨l, hl, heq⟩ => ⟨l, by omega, heq⟩

/-- **A fresh page is carved into elements of a zone.** -/
lemma HeapInv.carve (i : HeapInv P h H) (hz : z < kallocZoneCount) (hf : 0 < f) (hend : f + 1 ≤ 2 ^ 52)
    (hkeep : P.taken h.pmm ⊆ P.taken t) (hfresh : f ∉ P.taken h.pmm) (hnew : f ∈ P.taken t) :
    ∃ H', HeapInv P (carvePage { h with pmm := t } z (f * pageSize)) H' ∧ (∀ b q, H b = some q → H' b = some q) ∧
      ((carvePage { h with pmm := t } z (f * pageSize)).zones z).freeList ≠ 0 := by
  obtain ⟨hlo, hhi, -, k, hk⟩ := zoneElem_facts hz
  have hdiv : 4096 / zoneElem z = k := by rw [hk, Nat.mul_div_cancel_left _ (by omega)]
  have hkpos : 0 < k := by
    rcases Nat.eq_zero_or_pos k with h0 | h0
    · simp [h0] at hk
    · exact h0
  have v := forUpTo_invariant (Carving P H z f t)
    ⟨rfl, fun h0 => absurd h0 (lt_irrefl 0), H, i.setPmm hkeep, fun _ _ hb => hb, fun _ _ hb => .inl hb⟩
    fun j hj h' v => v.round i.cells hz hf hend hfresh hnew hk hj
  have hcarve : carvePage { h with pmm := t } z (f * pageSize) =
      let h1 := forUpTo (fun j h => pushFree h z (f * pageSize + j * zoneElem z)) k { h with pmm := t }
      h1.setZone z { h1.zones z with curSize := u64 ((h1.zones z).curSize + 4096) } := by
    rw [← hdiv, ← i.sizes z hz]
    rfl
  obtain ⟨H', i', hkeeps, -⟩ := v.layout
  rw [hcarve]
  refine ⟨H', i'.setZone rfl rfl rfl, hkeeps, ?_⟩
  dsimp only [Heap.setZone]
  rw [update_self]
  exact v.nonempty hkpos

/-! ## `kalloc` -/

/-- The heap after an element of zone `z` has been taken for a block of `size` bytes. -/
def takeElement (h : Heap σ) (z size : ℕ) : Heap σ :=
  { (popFree h z).2 with mem := writeZoneHeader (popFree h z).2.mem (popFree h z).1 z size }

/-- **An element leaves the free list of its zone** and gets a header. -/
lemma HeapInv.take (i : HeapInv P h H) (hz : z < kallocZoneCount) (hne : (h.zones z).freeList ≠ 0)
    (hsize : size + 64 ≤ zoneElem z) :
    HeapInv P (takeElement h z size)
        (update H (h.zones z).freeList (some (.element z size))) ∧
      (∀ j < size, (takeElement h z size).mem ((h.zones z).freeList + 64 + j) = 0) ∧
      ∀ L, FreeList h.mem (h.zones z) H z ((h.zones z).freeList :: L) →
        FreeList (takeElement h z size).mem ((takeElement h z size).zones z)
          (update H (h.zones z).freeList (some (.element z size))) z L := by
  set a := (h.zones z).freeList with ha
  obtain ⟨hlo, hhi, hdvd, -⟩ := zoneElem_facts hz
  have hH : H a = some (.free z) := (i.head hz).2 hne
  have hes : (h.zones z).elemSize = zoneElem z := i.sizes z hz
  have hmem : (takeElement h z size).mem = writeZoneHeader (fill h.mem a (zoneElem z) 0) a z size := by
    rw [← hes]
    rfl
  have hzone : (takeElement h z size).zones z = { h.zones z with
      freeList := readLE h.mem a 8
      freeCount := ((h.zones z).freeCount + (2 ^ 32 - 1)) % 2 ^ 32
      count := ((h.zones z).count + 1) % 2 ^ 32 } := update_self _ _ _
  have g : Change (P.taken h.pmm) h.mem (takeElement h z size).mem H a (zoneElem z)
      (some (.element z size)) := by
    refine ⟨fun b hb => ?_, ?_, fun hb _ => i.cells.inside hb, fun hb hba => i.cells.disj hH hb hba.symm⟩
    · rw [hmem, writeZoneHeader, writeLE_of_outside (by omega), writeLE_of_outside (by omega),
        writeLE_of_outside (by omega), fill_of_outside hb]
    · rintro q ⟨⟩
      refine ⟨rfl, ⟨hz, hsize, ?_, ?_⟩, i.cells.base hH, i.cells.inside hH⟩
      · rw [hmem, writeZoneHeader, readLE_writeLE_of_disjoint (by omega),
          readLE_writeLE_of_disjoint (by omega), readLE_writeLE]
        decide
      · rw [hmem, writeZoneHeader, readLE_writeLE_of_disjoint (by omega), readLE_writeLE]
        unfold kallocZoneCount at hz
        omega
  have hpop : ∀ L, FreeList h.mem (h.zones z) H z (a :: L) →
      FreeList (takeElement h z size).mem ((takeElement h z size).zones z)
        (update H a (some (.element z size))) z L := by
    intro L f
    rw [hzone]
    exact f.pop i.cells g (by simp) rfl rfl
  refine ⟨i.change g i.ready fun z' hz' => ?_, fun j hj => ?_, hpop⟩
  · by_cases hzz : z' = z
    · subst hzz
      obtain ⟨L, f⟩ := i.lists z' hz'
      cases L with
      | nil =>
        have h0 := f.mem_iff a
        rw [hH] at h0
        simp at h0
      | cons x xs =>
        have hx : x = a := by
          have hhd := f.chain.1
          rw [ptr, if_neg hne] at hhd
          exact (Option.some.inj hhd).symm
        rw [hx] at f
        exact .inr ⟨by rw [hzone], xs, hpop xs f⟩
    · exact .inl ⟨update_of_ne hzz _ _, hH ▸ free_ne hzz, by simp⟩
  · rw [hmem, writeZoneHeader, writeLE_of_outside (by omega), writeLE_of_outside (by omega),
      writeLE_of_outside (by omega), fill_of_inside (by omega)]

/-- A part that holds a block of `size` bytes. -/
def IsBlock (size : ℕ) (q : Role) : Prop := (∃ z, q = .element z size) ∨ ∃ n, q = .pages n size

lemma IsBlock.ne_free (hq : IsBlock size q) (z : ℕ) : q ≠ .free z := by
  rintro rfl
  rcases hq with ⟨z', h⟩ | ⟨n, h⟩ <;> cases h

/-- What an allocation does to the layout: it fails, or hands out a part, in a role of the kind given,
that was not in use. -/
inductive Allocated (P : FrameSupply σ) (H : Layout) (size : ℕ) (K : Role → Prop) (r : ℕ × Heap σ) : Prop
  | failed {H' : Layout} (hr : r.1 = 0) (i : HeapInv P r.2 H') (hkeep : KeepsBlocks H H')
  | done {H' : Layout} {a : ℕ} {q : Role} (hr : r.1 = a + 64) (i : HeapInv P r.2 H')
      (hkeep : KeepsBlocks H H') (hnew : ∀ p, H a = some p → ∃ z, p = .free z) (hq : H' a = some q)
      (hkind : K q) (hzero : ∀ j < size, r.2.mem (r.1 + j) = 0)

lemma keepsBlocks_update (hna : ∀ p, H a = some p → ∃ z, p = .free z) : KeepsBlocks H (update H a r) := by
  intro b q hb hq
  by_cases hba : b = a
  · subst hba
    obtain ⟨z, rfl⟩ := hna q hb
    exact absurd rfl (hq z)
  · rwa [update_of_ne hba]

/-- A part of a zone is taken for a block. -/
lemma HeapInv.allocated_take (i : HeapInv P h H) (hz : z < kallocZoneCount) (hne : (h.zones z).freeList ≠ 0)
    (hsize : size + 64 ≤ zoneElem z) :
    Allocated P H size (· = .element z size) ((h.zones z).freeList + 64, takeElement h z size) := by
  obtain ⟨i', hzero, -⟩ := i.take hz hne hsize
  have hfree : ∀ p, H (h.zones z).freeList = some p → ∃ z, p = .free z := by
    intro p hp
    rw [(i.head hz).2 hne] at hp
    exact ⟨z, (Option.some.inj hp).symm⟩
  exact .done rfl i' (keepsBlocks_update hfree) hfree (update_self _ _ _) rfl hzero

/-- What is in use stays in use. -/
lemma Allocated.of_extends {H' : Layout} {r : ℕ × Heap σ} (d : Allocated P H' size K r)
    (hext : ∀ b q, H b = some q → H' b = some q) :
    Allocated P H size K r := by
  have hkeeps : ∀ {H''}, KeepsBlocks H' H'' → KeepsBlocks H H'' := fun hk b q hb hq => hk b q (hext b q hb) hq
  cases d with
  | failed hr i hkeep => exact .failed hr i (hkeeps hkeep)
  | done hr i hkeep hnew hq hkind hzero =>
    exact .done hr i (hkeeps hkeep) (fun p hp => hnew p (hext _ p hp)) hq hkind hzero

lemma Allocated.mono {K' : Role → Prop} {r : ℕ × Heap σ} (d : Allocated P H size K r) (hK : ∀ q, K q → K' q)
    : Allocated P H size K' r := by
  cases d with
  | failed hr i hkeep => exact .failed hr i hkeep
  | done hr i hkeep hnew hq hkind hzero => exact .done hr i hkeep hnew hq (hK _ hkind) hzero

lemma carvePage_pmm (h : Heap σ) (z phys : ℕ) : (carvePage h z phys).pmm = h.pmm :=
  forUpTo_invariant (fun _ (t : Heap σ) => t.pmm = h.pmm) rfl fun _ _ _ ht => ht

section

variable (i : HeapInv P h H)
include i

/-- **What `zalloc` does**: it fails, or takes the front of a free list that is not empty, after it
has carved a page if it had to. -/
lemma HeapInv.zalloc_cases (hz : z < kallocZoneCount) :
    (allocFailed (P.allocPage h.pmm).1 = true ∧ zalloc P h z = (0, { h with pmm := (P.allocPage h.pmm).2 })) ∨
      ∃ h1 H1, zalloc P h z = popFree h1 z ∧ HeapInv P h1 H1 ∧ (∀ b q, H b = some q → H1 b = some q) ∧
        (h1.zones z).freeList ≠ 0 ∧ (h1.pmm = h.pmm ∨ h1.pmm = (P.allocPage h.pmm).2) := by
  unfold zalloc
  split_ifs with h0
  · have hsup := P.allocPage_spec h.pmm
    by_cases hfail : allocFailed (P.allocPage h.pmm).1 = true
    · rw [if_pos hfail]
      exact .inl ⟨hfail, rfl⟩
    · right
      rw [if_neg hfail]
      obtain ⟨f, hf, hend, hframe⟩ := hsup.frames (Bool.eq_false_of_not_eq_true hfail)
      have hpos : 0 < f := by
        rw [hf] at hfail
        rcases Nat.eq_zero_or_pos f with h0 | h0
        · rw [h0] at hfail
          exact absurd (by decide) hfail
        · exact h0
      obtain ⟨hfr, hnew⟩ := hframe 0 (by omega)
      obtain ⟨H', i', hext, hne⟩ := i.carve hz hpos (by omega) hsup.keeps hfr hnew
      rw [hf]
      exact ⟨_, H', rfl, i', hext, hne, .inr (carvePage_pmm _ _ _)⟩
  · exact .inr ⟨h, H, rfl, i, fun _ _ hb => hb, h0, .inl rfl⟩

lemma HeapInv.allocated_zone (hz : z < kallocZoneCount) (hsize : size + 64 ≤ zoneElem z) :
    Allocated P H size (· = .element z size)
      (if (zalloc P h z).1 = 0 then (0, (zalloc P h z).2)
        else ((zalloc P h z).1 + 64, { (zalloc P h z).2 with
          mem := writeZoneHeader (zalloc P h z).2.mem (zalloc P h z).1 z size })) := by
  rcases i.zalloc_cases hz with ⟨-, heq⟩ | ⟨h1, H1, heq, i1, hext, hne, -⟩
  · rw [heq, if_pos rfl]
    exact .failed rfl (i.setPmm (P.allocPage_spec h.pmm).keeps) fun b q hb _ => hb
  · have hpop : (popFree h1 z).1 ≠ 0 := hne
    rw [heq, if_neg hpop]
    exact (i1.allocated_take hz hne hsize).of_extends hext

lemma HeapInv.allocated_large (hsize : size < 2 ^ 63) :
    Allocated P H size (fun q => ∃ n, q = .pages n size) (kallocLarge P h size) := by
  unfold kallocLarge u64
  rw [Nat.mod_eq_of_lt (by omega : size + 64 < 2 ^ 64)]
  dsimp only
  rw [Nat.mod_eq_of_lt (by omega : size + 64 + 4095 < 2 ^ 64)]
  set n := (size + 64 + 4095) / 4096 with hn
  have hsup := P.allocPages_spec n h.pmm
  by_cases hfail : allocFailed (P.allocPages n h.pmm).1 = true
  · rw [if_pos hfail]
    exact .failed rfl (i.setPmm hsup.keeps) fun b q hb _ => hb
  rw [if_neg hfail]
  obtain ⟨f, hf, hend, hframe⟩ := hsup.frames (Bool.eq_false_of_not_eq_true hfail)
  generalize P.allocPages n h.pmm = r at *
  obtain ⟨phys, t⟩ := r
  dsimp only at hf hfail hframe hsup ⊢
  subst hf
  have hpos : 0 < f := by
    rcases Nat.eq_zero_or_pos f with h0 | h0
    · rw [h0] at hfail
      exact absurd (by decide) hfail
    · exact h0
  have hlen : size + 64 ≤ n * pageSize := by
    simp only [pageSize]
    omega
  -- the new part is in frames that were not taken
  have hpage : ∀ x, f * pageSize ≤ x → x < f * pageSize + n * pageSize → ∃ j < n, x / pageSize = f + j := by
    intro x hx hx'
    refine ⟨x / pageSize - f, ?_, ?_⟩ <;> simp only [pageSize] at * <;> omega
  have hfresh : ∀ x, f * pageSize ≤ x → x < f * pageSize + n * pageSize → x / pageSize ∉ P.taken h.pmm := by
    intro x hx hx'
    obtain ⟨j, hj, heq⟩ := hpage x hx hx'
    rw [heq]
    exact (hframe j hj).1
  have hnone : ∀ p, H (f * pageSize) ≠ some p := by
    intro p hp
    have hin := i.cells.inside hp _ le_rfl (by have := (i.cells.ok hp).len_ge; omega)
    exact hfresh _ le_rfl (by omega) hin
  set m' := fill (writeLargeHeader h.mem (f * pageSize) n) (f * pageSize + 64) size 0 with hm'
  have g : Change (P.taken t) h.mem m' H (f * pageSize) (n * pageSize) (some (.pages n size)) := by
    refine ⟨fun b hb => ?_, ?_, fun hb _ x hx hx' => hsup.keeps (i.cells.inside hb x hx hx'),
      fun hb _ => i.cells.apart_of_fresh (by omega) hfresh hb⟩
    · rw [hm', fill_of_outside (by omega), writeLargeHeader, writeLE_of_outside (by omega),
        writeLE_of_outside (by omega), writeLE_of_outside (by omega)]
    · rintro q ⟨⟩
      refine ⟨rfl, ⟨hlen, Nat.mul_mod_left f pageSize, ?_, ?_, ?_, ?_⟩,
        ⟨Nat.mul_pos hpos (by decide), Dvd.dvd.mul_left (by decide) _, ?_⟩, fun x hx hx' => ?_⟩
      · rw [Nat.mul_div_cancel f (by decide)]
        exact hend
      · rw [hm', readLE_fill_of_disjoint (by omega), writeLargeHeader,
          readLE_writeLE_of_disjoint (by omega), readLE_writeLE_of_disjoint (by omega), readLE_writeLE]
        decide
      · rw [hm', readLE_fill_of_disjoint (by omega), writeLargeHeader,
          readLE_writeLE_of_disjoint (by omega), readLE_writeLE]
        omega
      · rw [hm', readLE_fill_of_disjoint (by omega), writeLargeHeader, readLE_writeLE]
        simp only [pageSize]
        omega
      · simp only [pageSize]
        omega
      · obtain ⟨j, hj, heq⟩ := hpage x hx hx'
        rw [heq]
        exact (hframe j hj).2
  have hnew : ∀ p, H (f * pageSize) = some p → ∃ z, p = .free z := fun p hp => absurd hp (hnone p)
  exact .done rfl (i.change g i.ready fun z _ => .inl ⟨rfl, hnone _, by simp⟩) (keepsBlocks_update hnew)
    hnew (update_self _ _ _) ⟨n, rfl⟩ fun j hj => fill_of_inside (by omega)

/-- The zone `kalloc` picks is large enough. -/
lemma HeapInv.kallocZone_spec {needed : ℕ} (hz : kallocZone h needed = some z) :
    z < kallocZoneCount ∧ needed ≤ zoneElem z := by
  have hlt : z < kallocZoneCount := List.mem_range.mp (List.mem_of_find?_eq_some hz)
  refine ⟨hlt, ?_⟩
  have hge := List.find?_some hz
  rw [decide_eq_true_eq, i.sizes z hlt] at hge
  exact hge

/-- **What `kalloc` does.** -/
theorem HeapInv.kalloc_spec (hsize : size < 2 ^ 63) :
    Allocated P H size (IsBlock size) (kalloc P h size) := by
  unfold kalloc
  by_cases h0 : size = 0
  · rw [if_pos h0]
    exact .failed rfl i fun b q hb _ => hb
  rw [if_neg h0, i.ready]
  simp only [not_true_eq_false, if_false]
  split_ifs with hn
  · cases hz : kallocZone h (u64 (size + 64)) with
    | none => exact (i.allocated_large hsize).mono fun _ => .inr
    | some z =>
      obtain ⟨hlt, hle⟩ := i.kallocZone_spec hz
      rw [u64, Nat.mod_eq_of_lt (by omega)] at hle
      exact (i.allocated_zone hlt hle).mono fun _ hq => .inl ⟨z, hq⟩
  · exact (i.allocated_large hsize).mono fun _ => .inr

end

/-! ## `kfree` -/

/-- **A block goes**, with its frames or without. -/
lemma HeapInv.remove (i : HeapInv P h H) {r : Role} (ha : H a = some r) (hr : ∀ z, r ≠ .free z) {m' : Bytes}
    (hm : ∀ b, ¬ (a ≤ b ∧ b < a + r.len) → m' b = h.mem b)
    (hT : ∀ {b q}, H b = some q → b ≠ a → ∀ x, b ≤ x → x < b + q.len → x / pageSize ∈ P.taken t) :
    HeapInv P { h with mem := m', pmm := t } (update H a none) ∧
      ∀ z L, FreeList h.mem (h.zones z) H z L → FreeList m' (h.zones z) (update H a none) z L := by
  have g : Change (P.taken t) h.mem m' H a r.len none := ⟨hm, nofun, hT, fun hb hba => i.cells.disj ha hb hba.symm⟩
  have hne : ∀ z, H a ≠ some (.free z) := by
    intro z
    rw [ha]
    exact fun h => hr z (Option.some.inj h)
  exact ⟨i.change g i.ready fun z _ => .inl ⟨rfl, hne z, nofun⟩, fun z L f => f.other i.cells g (hne z) nofun⟩

/-- **`kfree` of an element** puts it back on the free list of its zone. -/
lemma HeapInv.kfree_element (i : HeapInv P h H) (ha : H a = some (.element z size)) :
    HeapInv P (kfree P h (a + 64)) (update H a (some (.free z))) ∧ ∀ L, FreeList h.mem (h.zones z) H z L →
        FreeList (kfree P h (a + 64)).mem ((kfree P h (a + 64)).zones z)
          (update H a (some (.free z))) z (a :: L) := by
  obtain ⟨hz, hsize, hmagic, hidx⟩ := i.cells.ok ha
  have hbase := i.cells.base ha
  have hlo := (zoneElem_facts hz).1
  have hm : ∀ b, ¬ (a ≤ b ∧ b < a + (Role.element z size).len) → writeLE h.mem a 8 0 b = h.mem b :=
    fun b hb => writeLE_of_outside (by simp only [Role.len] at hb; omega)
  obtain ⟨i1, hlist⟩ := i.remove ha (fun z h => by cases h) hm
    (fun hb _ => i.cells.inside hb)
  obtain ⟨i2, hpush⟩ := i1.push hz hbase (by simp) (i.cells.inside ha)
    (fun {b q} hb hba => i.cells.disj ha (by rwa [update_of_ne hba] at hb) hba.symm)
  rw [update_idem] at i2 hpush
  have hfree : kfree P h (a + 64) = zfree { h with mem := writeLE h.mem a 8 0 } z a := by
    unfold kfree
    rw [if_neg (by omega), Nat.add_sub_cancel]
    rw [if_pos ⟨hmagic, by rwa [hidx]⟩, hidx]
  rw [hfree, zfree, if_neg (by omega)]
  refine ⟨i2.setZone rfl rfl rfl, fun L f => ?_⟩
  have hL := hpush L (hlist z L f)
  refine hL.frame (fun _ _ _ _ => rfl) ?_ ?_
  · dsimp only [Heap.setZone]
    rw [update_self]
  · dsimp only [Heap.setZone]
    rw [update_self]

/-- **`kfree` of whole pages** gives the frames back, or leaves everything as it is. -/
lemma HeapInv.kfree_pages (i : HeapInv P h H) (ha : H a = some (.pages n size)) :
    HeapInv P (kfree P h (a + 64)) (update H a none) ∨ kfree P h (a + 64) = h := by
  obtain ⟨hsize, hpage, hend, hmagic, hcount, hphys⟩ := i.cells.ok ha
  have hfree : kfree P h (a + 64) = kfreeLarge P h a := by
    unfold kfree
    rw [if_neg (by omega), Nat.add_sub_cancel]
    rw [if_neg]
    rw [hmagic]
    exact fun h => absurd h.1 (by decide)
  rw [hfree, kfreeLarge, if_pos hmagic]
  dsimp only
  rw [hcount, hphys]
  split_ifs with hbad
  · exact .inr rfl
  · left
    have heq : a = a / pageSize * pageSize := by
      simp only [pageSize] at hpage ⊢
      omega
    refine (i.remove ha (fun z h => by cases h) (fun b hb => writeLE_of_outside ?_) fun {b q} hb hba x hx hx' => ?_).1
    · simp only [Role.len] at hb
      omega
    · -- a frame of another part is not among those given back
      have hap : a + n * pageSize ≤ b ∨ b + q.len ≤ a := i.cells.disj ha hb hba.symm
      have hin := i.cells.inside hb x hx hx'
      rw [heq]
      apply P.free_spec _ _ _ hend
      refine ⟨hin, ?_⟩
      rintro ⟨h1, h2⟩
      simp only [pageSize] at hap heq h1 h2
      omega

/-- **What `kfree` does to a block.** -/
theorem HeapInv.kfree_spec (i : HeapInv P h H) (ha : H a = some q) (hq : ∀ z, q ≠ .free z) :
    ∃ H', HeapInv P (kfree P h (a + 64)) H' ∧ ∀ b ≠ a, H' b = H b := by
  cases q with
  | free z => exact absurd rfl (hq z)
  | element z size => exact ⟨_, (i.kfree_element ha).1, fun b hb => update_of_ne hb _ _⟩
  | pages n size =>
    rcases i.kfree_pages ha with h' | h'
    · exact ⟨_, h', fun b hb => update_of_ne hb _ _⟩
    · rw [h']
      exact ⟨H, i, fun _ _ => rfl⟩

/-! ## The first call, and the writes of owners -/

/-- The zones that a list of sizes adds. -/
lemma foldl_zinit (sizes : List ℕ) (hpos : ∀ x ∈ sizes, 8 ≤ x) (hc : h.zoneCount + sizes.length ≤ maxZones) :
    (∀ k < sizes.length, (sizes.foldl (fun h size => (zinit h size).2) h).zones (h.zoneCount + k) =
        ⟨(sizes.getD k 0 + 63) / 64 * 64, 0, 0, 0, 0⟩) ∧
      ∀ z < h.zoneCount, (sizes.foldl (fun h size => (zinit h size).2) h).zones z = h.zones z := by
  induction sizes generalizing h with
  | nil => exact ⟨fun k hk => absurd hk (Nat.not_lt_zero k), fun _ _ => rfl⟩
  | cons x xs ih =>
    have hx := hpos x List.mem_cons_self
    rw [List.length_cons] at hc
    have hz : (zinit h x).2 = { h.setZone h.zoneCount ⟨(x + 63) / 64 * 64, 0, 0, 0, 0⟩ with
        zoneCount := h.zoneCount + 1 } := by
      unfold zinit
      rw [if_neg (by omega), if_neg (by omega), if_neg (by omega)]
    rw [List.foldl_cons, hz]
    obtain ⟨hnew, hold⟩ := ih (h := { h.setZone h.zoneCount ⟨(x + 63) / 64 * 64, 0, 0, 0, 0⟩ with
      zoneCount := h.zoneCount + 1 }) (fun y hy => hpos y (List.mem_cons_of_mem _ hy))
      (by dsimp only; omega)
    refine ⟨fun k hk => ?_, fun z hzlt => ?_⟩
    · cases k with
      | zero => exact (hold h.zoneCount (Nat.lt_succ_self _)).trans (update_self _ _ _)
      | succ k =>
        have hk' := hnew k (by rw [List.length_cons] at hk; omega)
        rwa [show h.zoneCount + 1 + k = h.zoneCount + (k + 1) by omega] at hk'
    · rw [hold z (Nat.lt_succ_of_lt hzlt)]
      exact update_of_ne (by omega) _ _

lemma zoneInit_zones (h0 : h.initialized = false) (hz : z < kallocZoneCount) :
    (zoneInit h).zones z = ⟨zoneElem z, 0, 0, 0, 0⟩ := by
  have hlen : kallocSizes.length ≤ maxZones := by decide
  have hfold := (foldl_zinit (h := { h with zoneCount := 0 }) kallocSizes (by decide)
    (by rwa [Nat.zero_add])).1 z hz
  rw [Nat.zero_add] at hfold
  unfold zoneInit
  rw [if_neg (by rw [h0]; exact Bool.false_ne_true)]
  exact hfold

/-- **After `zone_init`** the heap is empty. -/
lemma zoneInit_inv (h0 : h.initialized = false) : HeapInv P (zoneInit h) fun _ => none where
  sizes z hz := by rw [zoneInit_zones h0 hz]
  cells := by constructor <;> simp
  lists z hz := by
    rw [zoneInit_zones h0 hz]
    exact ⟨[], rfl, fun a => by simp, rfl⟩
  ready := by
    unfold zoneInit
    rw [h0]
    rfl

/-- **Owners write to their blocks only.** -/
lemma HeapInv.write (i : HeapInv P h H) (ha : H a = some q) {b : ℕ} (hlo : a + 64 ≤ b) (hhi : b < a + q.len)
    (c : BitVec 8) :
    HeapInv P { h with mem := update h.mem b c } H := by
  have hmem : ∀ {a' q'}, H a' = some q' → ∀ k < 64, update h.mem b c (a' + k) = h.mem (a' + k) := by
    intro a' q' ha' k hk
    apply update_of_ne
    by_cases haa : a = a'
    · omega
    · have hlen := (i.cells.ok ha').len_ge
      rcases i.cells.disj ha ha' haa with h | h <;> omega
  refine ⟨i.sizes, ⟨fun hb => (i.cells.ok hb).congr (hmem hb), i.cells.base, i.cells.inside, i.cells.disj⟩,
    fun z hz => ?_, i.ready⟩
  obtain ⟨L, f⟩ := i.lists z hz
  refine ⟨L, f.frame (fun x hx k hk => hmem ((f.mem_iff x).mp hx) k (by omega)) rfl rfl⟩

end steps

end Chimera
