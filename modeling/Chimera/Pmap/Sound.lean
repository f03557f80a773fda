import Chimera.Lib.Sums
import Chimera.Pmm.Entry
import Chimera.Pmap.View

/-!
# References and page tables

`refs m R f` is the number of user entries, over the address spaces `R`, that map frame `f`;
`tabs m R f` is `1` if `f` holds one of their tables. `Sound v R` is the invariant of the kernel's
address spaces: well-formed page tables, and for every managed frame a reference count of at least
`refs + tabs`. What the count has beyond that is the `slack` of the frame, the references that
other parts of the kernel hold.

The trampoline frame is outside this accounting: it is mapped everywhere and its entries are never
counted. `Sound` asks instead that it keeps a reference and is mapped at its own address only.
-/

namespace Chimera

open Lib

/-! ## Counting entries -/

/-- `1` if the entry maps the frame. -/
def hit (e : BitVec 64) (f : ℕ) : ℕ := if present e ∧ pteFrame e = f then 1 else 0

@[simp] lemma hit_zero (f : ℕ) : hit 0#64 f = 0 := by simp [hit]

lemma hit_le_one (e : BitVec 64) (f : ℕ) : hit e f ≤ 1 := by
  unfold hit
  split_ifs <;> omega

variable {e : BitVec 64} {v : Vm} {R : Finset ℕ}

lemma hit_pos {f : ℕ} : 0 < hit e f ↔ present e ∧ pteFrame e = f := by
  unfold hit
  split_ifs with h <;> simp [h]

lemma hit_congr {e' : BitVec 64} (hp : present e' = present e) (hf : pteFrame e' = pteFrame e)
    (f : ℕ) : hit e' f = hit e f := by
  unfold hit
  rw [hp, hf]

/-- Releasing the frame of a present entry. -/
lemma rc_release_pte (s : Pmm) (hp : present e = true) (f : ℕ) :
    rc (pmmReleasePage s (ptePhys e)) f = rc s f - hit e f := by
  have hdiv : ptePhys e / pageSize = pteFrame e := rfl
  rw [pmmReleasePage_rc, hdiv, hit]
  by_cases hf : f = pteFrame e
  · rw [if_pos hf, if_pos ⟨hp, hf.symm⟩]
  · rw [if_neg hf, if_neg fun hx => hf hx.2.symm, Nat.sub_zero]

/-- The number of user entries of address space `r` that map frame `f`. -/
def row (m : ℕ → ℕ → BitVec 64) (r f : ℕ) : ℕ := ∑ x : Slot, hit (view m r x) f

/-- The number of user entries that map frame `f`. -/
def refs (m : ℕ → ℕ → BitVec 64) (R : Finset ℕ) (f : ℕ) : ℕ := ∑ r ∈ R, row m r f

open Classical in
/-- `1` if frame `f` holds a table. -/
noncomputable def tabs (m : ℕ → ℕ → BitVec 64) (R : Finset ℕ) (f : ℕ) : ℕ :=
  if f ∈ tables m R then 1 else 0

section counting

variable {m m' : ℕ → ℕ → BitVec 64} {r : ℕ} {x : Slot} {f : ℕ}

lemma tabs_of_mem (h : f ∈ tables m R) : tabs m R f = 1 := if_pos h

lemma tabs_of_notMem (h : f ∉ tables m R) : tabs m R f = 0 := if_neg h

lemma tabs_congr (h : tables m' R = tables m R) (f : ℕ) : tabs m' R f = tabs m R f := by
  unfold tabs
  rw [h]

lemma tabs_insert {R' : Finset ℕ} {g : ℕ} (h : tables m' R' = insert g (tables m R)) (hf : f ≠ g) :
    tabs m' R' f = tabs m R f := by
  have hiff : f ∈ tables m' R' ↔ f ∈ tables m R := by
    rw [h, Set.mem_insert_iff]
    exact or_iff_right hf
  by_cases hmem : f ∈ tables m R
  · rw [tabs_of_mem hmem, tabs_of_mem (hiff.mpr hmem)]
  · rw [tabs_of_notMem hmem, tabs_of_notMem fun hm' => hmem (hiff.mp hm')]

lemma row_congr (h : ∀ x, hit (view m' r x) f = hit (view m r x) f) : row m' r f = row m r f :=
  Finset.sum_congr rfl fun x _ => h x

lemma row_eq_zero (h : ∀ x, hit (view m r x) f = 0) : row m r f = 0 := Finset.sum_eq_zero fun x _ => h x

lemma row_lt {r' : ℕ} (hle : ∀ y, hit (view m' r' y) f ≤ hit (view m r y) f)
    (hlt : hit (view m' r' x) f < hit (view m r x) f) : row m' r' f < row m r f :=
  Fintype.sum_strictMono (Pi.lt_def.mpr ⟨hle, x, hlt⟩)

lemma refs_congr (h : ∀ r ∈ R, ∀ x, hit (view m' r x) f = hit (view m r x) f) : refs m' R f = refs m R f :=
  Finset.sum_congr rfl fun r hr => row_congr (h r hr)

lemma hit_le_refs (hr : r ∈ R) (x : Slot) (f : ℕ) : hit (view m r x) f ≤ refs m R f :=
  le_sum_sum hr x fun r y => hit (view m r y) f

/-- Changing one entry moves the counts by that entry. -/
lemma refs_write (hr : r ∈ R) {w : BitVec 64}
    (h : ∀ r' ∈ R, ∀ y, view m' r' y = if r' = r ∧ y = x then w else view m r' y) (f : ℕ) :
    refs m' R f + hit (view m r x) f = refs m R f + hit w f := by
  have hsum := sum_sum_write hr x (f := fun r y => hit (view m' r y) f)
    (g := fun r y => hit (view m r y) f) fun r' hr' y hne => by simp only [h r' hr' y, if_neg hne]
  simp only [h r hr x, and_self, if_true] at hsum
  exact hsum

/-- A new address space brings its own entries. -/
lemma refs_insert (hr : r ∉ R) (f : ℕ) : refs m (insert r R) f = row m r f + refs m R f := Finset.sum_insert hr

end counting

/-! ## The invariant -/

/-- Frame `f` is the trampoline's. -/
def Vm.isTramp (v : Vm) (f : ℕ) : Prop := v.trampPhys ≠ 0 ∧ f = frameOf v.trampPhys

lemma isTramp_congr {v' : Vm} (h : v'.trampPhys = v.trampPhys) (f : ℕ) : v'.isTramp f ↔ v.isTramp f := by
  unfold Vm.isTramp
  rw [h]

/-- Frame `f` is in use: it has a reference, or it is not managed at all. -/
def Vm.held (v : Vm) (f : ℕ) : Prop := rc v.pmm f ≠ 0 ∨ v.pmm.maxPhysPage ≤ f

/-- The references to a frame that neither an entry nor its use as a table accounts for. -/
noncomputable def slack (v : Vm) (R : Finset ℕ) (f : ℕ) : ℤ :=
  rc v.pmm f - refs v.mem R f - tabs v.mem R f

/-- **The invariant of the address spaces** with PML4 frames `R`. -/
structure Sound (v : Vm) (R : Finset ℕ) : Prop where
  inv : v.pmm.Inv
  shape : Shape v.mem R
  table_lt : ∀ f ∈ tables v.mem R, f < v.pmm.maxPhysPage ∧ f ≠ 0
  counted : ∀ f < v.pmm.maxPhysPage, ¬ v.isTramp f → 0 ≤ slack v R f
  tramp : v.trampPhys ≠ 0 → v.trampPhys = frameOf v.trampPhys * pageSize ∧
    frameOf v.trampPhys < v.pmm.maxPhysPage ∧ rc v.pmm (frameOf v.trampPhys) ≠ 0 ∧
    frameOf v.trampPhys ∉ tables v.mem R
  tramp_slot : ∀ {r x}, r ∈ R → present (view v.mem r x) → v.isTramp (pteFrame (view v.mem r x)) →
    x = trampSlot

lemma Pmm.Inv.max_le {s : Pmm} (h : s.Inv) : s.maxPhysPage ≤ 2 ^ 32 := by
  obtain ⟨L, hL⟩ := h
  exact hL.max_le

namespace Sound

/-- A managed frame without a reference holds no table, is mapped nowhere, and is not the
trampoline. -/
lemma fresh (h : Sound v R) {g : ℕ} (hlt : g < v.pmm.maxPhysPage) (hrc : rc v.pmm g = 0) :
    g ∉ tables v.mem R ∧ (∀ r ∈ R, ∀ x, present (view v.mem r x) → pteFrame (view v.mem r x) ≠ g) ∧
      ¬ v.isTramp g := by
  have htramp : ¬ v.isTramp g := fun ht => (h.tramp ht.1).2.2.1 (ht.2 ▸ hrc)
  have hsum : refs v.mem R g = 0 ∧ tabs v.mem R g = 0 := by
    have := h.counted g hlt htramp
    unfold slack at this
    omega
  refine ⟨fun hmem => ?_, fun r hr x hpres heq => ?_, htramp⟩
  · rw [tabs_of_mem hmem] at hsum
    omega
  · have hle := hit_le_refs (m := v.mem) hr x g
    have hpos := hit_pos.mpr ⟨hpres, heq⟩
    omega

/-- A PML4 frame fits an entry. -/
lemma table_lt_two_pow (h : Sound v R) {f : ℕ} (hf : f ∈ tables v.mem R) : f < 2 ^ 40 := by
  have := (h.table_lt f hf).1
  have := h.inv.max_le
  omega

variable {r : ℕ}

lemma root_ne_zero (h : Sound v R) (hr : r ∈ R) : r * pageSize ≠ 0 := by
  have := (h.table_lt r (root_mem_tables hr)).2
  unfold pageSize
  omega

lemma frameOf_root (h : Sound v R) (hr : r ∈ R) : frameOf (r * pageSize) = r :=
  frameOf_mul (h.table_lt_two_pow (root_mem_tables hr))

/-- **The walk of the code is the walk of the view**, on the user half. -/
lemma getPtePtr_eq (h : Sound v R) (hr : r ∈ R) {va : ℕ} (hva : va < userEnd) : pmapGetPtePtr v (r * pageSize) va =
      (tableOf v.mem r (vaSlot va)).map fun pt => (pt, slotLast (vaSlot va)) := by
  have hup : ∀ {p i f}, p ++ [i] ∈ userPaths → walk childTable v.mem r p = some f →
      childTable (v.mem f i) = if present (v.mem f i) then some (pteFrame (v.mem f i)) else none := by
    intro p i f hp hw
    unfold childTable
    by_cases hpres : present (v.mem f i) = true
    · simp [hpres, (h.shape.upper hr hp hw hpres).2]
    · simp [hpres]
  have hpath := slotPath_vaSlot hva
  have hlast : slotLast (vaSlot va) = vaIndex 1 va := rfl
  unfold pmapGetPtePtr
  rw [if_neg (h.root_ne_zero hr), h.frameOf_root hr, tableOf, hpath, hlast]
  have h4 := hup (vaPath_mem hva ⟨_, rfl⟩) (walk_nil r)
  rw [walk_cons, h4]
  by_cases hp4 : present (v.mem r (vaIndex 4 va)) = true
  · have hw4 : walk childTable v.mem r [vaIndex 4 va] = some (pteFrame (v.mem r (vaIndex 4 va))) := by
      rw [walk_cons, h4, if_pos hp4]
      rfl
    have h3 := hup (vaPath_mem hva ⟨_, rfl⟩) hw4
    rw [if_pos hp4, Option.bind_some, walk_cons, h3]
    by_cases hp3 : present (v.mem (pteFrame (v.mem r (vaIndex 4 va))) (vaIndex 3 va)) = true
    · have hw3 : walk childTable v.mem r [vaIndex 4 va, vaIndex 3 va] =
          some (pteFrame (v.mem (pteFrame (v.mem r (vaIndex 4 va))) (vaIndex 3 va))) := by
        show walk childTable v.mem r ([vaIndex 4 va] ++ [vaIndex 3 va]) = _
        rw [walk_concat, hw4, Option.bind_some, h3, if_pos hp3]
      have hl3 := (h.shape.upper hr (vaPath_mem hva ⟨_, rfl⟩) hw4 hp3).2
      have h2 := hup (vaPath_mem hva ⟨_, rfl⟩) hw3
      rw [if_pos hp3, Option.bind_some, walk_cons, h2]
      by_cases hp2 : present (v.mem (pteFrame (v.mem (pteFrame (v.mem r (vaIndex 4 va))) (vaIndex 3 va))) (vaIndex 2 va)) = true
      · have hl2 := (h.shape.upper hr (vaPath_mem hva ⟨_, rfl⟩) hw3
          hp2).2
        simp [hp4, hp3, hl3, hp2, hl2]
      · simp [hp4, hp3, hl3, hp2]
    · simp [hp4, hp3]
  · simp [hp4]

end Sound

/-! ## Dropping references -/

/-- How often a frame is in a list of pages to release. -/
def pending (l : List ℕ) (f : ℕ) : ℕ := l.countP fun a => a / pageSize = f

/-- **References that nothing accounts for** may be dropped, but not the trampoline's. -/
lemma Sound.releaseAll (h : Sound v R) (l : List ℕ) (htr : ∀ a ∈ l, ¬ v.isTramp (a / pageSize))
    (hs : ∀ f < v.pmm.maxPhysPage, (pending l f : ℤ) ≤ slack v R f ∨ pending l f = 0) :
    Sound { v with pmm := l.foldl pmmReleasePage v.pmm } R ∧
      (l.foldl pmmReleasePage v.pmm).maxPhysPage = v.pmm.maxPhysPage ∧
      (∀ f, rc (l.foldl pmmReleasePage v.pmm) f = rc v.pmm f - pending l f) ∧
      ∀ f < v.pmm.maxPhysPage,
        slack { v with pmm := l.foldl pmmReleasePage v.pmm } R f = slack v R f - pending l f := by
  have hfold : ∀ (l : List ℕ) (s : Pmm), s.Inv → (l.foldl pmmReleasePage s).Inv ∧
      (l.foldl pmmReleasePage s).maxPhysPage = s.maxPhysPage ∧
      ∀ f, rc (l.foldl pmmReleasePage s) f = rc s f - pending l f := by
    intro l
    induction l with
    | nil => exact fun s hinv => ⟨hinv, rfl, fun f => by simp [pending]⟩
    | cons a l ih =>
      rintro s ⟨L, hL⟩
      obtain ⟨hinv, hmax, hrc⟩ := ih (pmmReleasePage s a) (hL.release a)
      refine ⟨hinv, hmax.trans (pmmReleasePage_maxPhysPage s a), fun f => ?_⟩
      rw [List.foldl_cons, hrc, pmmReleasePage_rc, pending, pending, List.countP_cons]
      by_cases hf : f = a / pageSize
      · subst hf
        simp only [if_true, decide_true]
        omega
      · rw [if_neg hf, if_neg (by simpa using fun heq => hf heq.symm), Nat.add_zero]
  obtain ⟨hinv, hmax, hrc⟩ := hfold l v.pmm h.inv
  have hslack : ∀ f < v.pmm.maxPhysPage,
      slack { v with pmm := l.foldl pmmReleasePage v.pmm } R f = slack v R f - pending l f := by
    intro f hf
    have hle := hs f hf
    have hrcf := hrc f
    unfold slack at hle ⊢
    dsimp only
    omega
  refine ⟨⟨hinv, h.shape, fun f hf => hmax.symm ▸ h.table_lt f hf, fun f hf ht => ?_, fun ht => ?_,
    fun hr hp ht => h.tramp_slot hr hp ht⟩, hmax, hrc, hslack⟩
  · have hf' : f < v.pmm.maxPhysPage := hmax ▸ hf
    have hc := h.counted f hf' ht
    rw [hslack f hf']
    rcases hs f hf' with hx | hx <;> omega
  · obtain ⟨h1, h2, h3, h4⟩ := h.tramp ht
    refine ⟨h1, hmax.symm ▸ h2, ?_, h4⟩
    have hzero : pending l (frameOf v.trampPhys) = 0 := by
      rw [pending, List.countP_eq_zero]
      intro a ha heq
      exact htr a ha ⟨ht, of_decide_eq_true heq⟩
    rw [hrc, hzero]
    exact h3

lemma Sound.release (h : Sound v R) (phys : ℕ) (htr : ¬ v.isTramp (phys / pageSize))
    (hs : phys / pageSize < v.pmm.maxPhysPage → 1 ≤ slack v R (phys / pageSize)) :
    Sound (v.release phys) R ∧ ∀ f < v.pmm.maxPhysPage,
      slack (v.release phys) R f = slack v R f - if phys / pageSize = f then 1 else 0 := by
  have hone : ∀ f, pending [phys] f = if phys / pageSize = f then 1 else 0 := by
    intro f
    simp [pending, List.countP_cons]
  obtain ⟨hsound, -, -, hslack⟩ := h.releaseAll [phys] (by simpa using htr) (by
    intro f hf
    rw [hone]
    split_ifs with heq
    · exact .inl (by simpa [heq] using hs (heq ▸ hf))
    · exact .inr rfl)
  refine ⟨hsound, fun f hf => (hslack f hf).trans ?_⟩
  rw [hone]
  split_ifs <;> rfl

/-! ## Writing data -/

/-- From `v` to `v'` only the contents of the frames `F`, none of them a table, have changed. -/
structure Touched (v v' : Vm) (R : Finset ℕ) (F : Set ℕ) : Prop where
  sound : Sound v' R
  view_eq : ∀ r ∈ R, ∀ x, view v'.mem r x = view v.mem r x
  walks : SameWalks v.mem v'.mem R
  data_eq : ∀ f, f ∉ F → v'.mem f = v.mem f
  slack_eq : ∀ f, slack v' R f = slack v R f
  pmm_eq : v'.pmm = v.pmm
  tramp_eq : v'.trampPhys = v.trampPhys

lemma Sound.touch (h : Sound v R) {F : Set ℕ} (hF : ∀ f ∈ F, f ∉ tables v.mem R)
    (m' : ℕ → ℕ → BitVec 64) (hm' : ∀ f, f ∉ F → m' f = v.mem f) :
    Touched v { v with mem := m' } R F := by
  obtain ⟨hshape, hwalks, hview⟩ := h.shape.writeData m' fun f hf => hm' f fun hfF => hF f hfF hf
  have hslack : ∀ f, slack { v with mem := m' } R f = slack v R f := by
    intro f
    have hrefs : refs m' R f = refs v.mem R f := refs_congr fun r hr x => by rw [hview r hr x]
    unfold slack
    rw [hrefs, tabs_congr hwalks.tables_eq]
  refine ⟨⟨h.inv, hshape, ?_, fun f hf ht => ?_, fun ht => ?_, fun {r x} hr hp ht => ?_⟩, hview, hwalks, hm',
    hslack, rfl, rfl⟩
  · rw [hwalks.tables_eq]
    exact h.table_lt
  · rw [hslack]
    exact h.counted f hf ht
  · rw [hwalks.tables_eq]
    exact h.tramp ht
  · rw [hview r hr x] at hp ht
    exact h.tramp_slot hr hp ht

/-! ## Rewriting one entry in place -/

/-- From `v` to `v'` only slot `x` of address space `r` has changed, to `w`. -/
structure Rewritten (v v' : Vm) (R : Finset ℕ) (r : ℕ) (x : Slot) (w : BitVec 64) : Prop where
  sound : Sound v' R
  view_eq : ∀ r' ∈ R, ∀ y, view v'.mem r' y = if r' = r ∧ y = x then w else view v.mem r' y
  walks : SameWalks v.mem v'.mem R
  data_eq : ∀ f, f ∉ tables v.mem R → v'.mem f = v.mem f
  slack_eq : ∀ f, slack v' R f = slack v R f + hit (view v.mem r x) f - hit w f
  pmm_eq : v'.pmm = v.pmm
  tramp_eq : v'.trampPhys = v.trampPhys

lemma Rewritten.refl (h : Sound v R) (r : ℕ) (x : Slot) : Rewritten v v R r x (view v.mem r x) where
  sound := h
  view_eq r' _ y := by
    split_ifs with hxy
    · rw [hxy.1, hxy.2]
    · rfl
  walks _ _ _ _ := rfl
  data_eq _ _ := rfl
  slack_eq f := by ring
  pmm_eq := rfl
  tramp_eq := rfl

/-- An entry may be cleared, or get other flags for the same frame. -/
lemma Sound.rewrite (h : Sound v R) {r : ℕ} (hr : r ∈ R) {x : Slot} {pt : ℕ}
    (hpt : tableOf v.mem r x = some pt) {w : BitVec 64}
    (hw : present w → user w ∧ present (view v.mem r x) ∧ pteFrame w = pteFrame (view v.mem r x)) :
    Rewritten v (v.setWord pt (slotLast x) w) R r x w := by
  obtain ⟨hshape, hwalks, hview⟩ := h.shape.writeLeaf hr hpt (v.setWord pt (slotLast x) w).mem
    (fun hp => ⟨(hw hp).1, by
      rw [(hw hp).2.2]
      exact h.shape.leaf_frame hr (hw hp).2.1⟩) rfl
  have hhit : ∀ f, hit w f ≤ hit (view v.mem r x) f := by
    intro f
    by_cases hp : present w = true
    · obtain ⟨-, hpo, hf⟩ := hw hp
      rw [hit_congr (hp.trans hpo.symm) hf]
    · simp [hit, hp]
  have hslack : ∀ f, slack (v.setWord pt (slotLast x) w) R f = slack v R f + hit (view v.mem r x) f - hit w f := by
    intro f
    have hrefs := refs_write hr hview f
    have hpmm : (v.setWord pt (slotLast x) w).pmm = v.pmm := rfl
    unfold slack
    rw [tabs_congr hwalks.tables_eq, hpmm]
    omega
  refine ⟨⟨h.inv, hshape, ?_, fun f hf ht => ?_, fun ht => ?_, fun {r' y} hr' hp ht => ?_⟩, hview, hwalks,
    fun f hf => ?_, hslack, rfl, rfl⟩
  · rw [hwalks.tables_eq]
    exact h.table_lt
  · have hc := h.counted f hf ht
    have hle := hhit f
    rw [hslack]
    omega
  · rw [hwalks.tables_eq]
    exact h.tramp ht
  · rw [hview r' hr' y] at hp ht
    split_ifs at hp ht with hxy
    · obtain ⟨-, hpo, hf⟩ := hw hp
      rw [hf] at ht
      rw [hxy.2]
      exact h.tramp_slot hr hpo ht
    · exact h.tramp_slot hr' hp ht
  · have hne : f ≠ pt := fun hfp => hf (hfp ▸ tableOf_mem_tables hr hpt)
    exact Function.update_of_ne hne _ _

end Chimera
