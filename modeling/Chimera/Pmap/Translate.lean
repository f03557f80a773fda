import Chimera.Pmap.UserCopy

/-!
# The translation law

Three walkers read the page tables that `pmap_map_user_page` builds: `pmap_extract` tests the user bit on
every level, `pmap_vtophys` does not, and `pmap_get_pte_ptr` stops at the last table. For every page table
whose user half has no large pages and whose tables are distinct frames in use (`PageTable`) they agree with
the builder: a page that was mapped is found at its frame by all three, and no other address moves
(`translation_law`).

A walk reads one word in each table it goes through, so an address whose words did not change is translated
as before (`sameTranslation_of_agree`), and one with an absent entry on its way is not translated at all
(`untranslated_of_absent`). A new table is empty and hangs below an entry that was absent
(`ensureTable_translation`), and a leaf is read by the addresses of its page only.

The result of `pmap_map_user_page` is the physical address, so that frame `0` is mapped with the result `0`;
and the walkers drop the top 16 bits of an address, so that a non-canonical number is translated like the
address with its low 48 bits (`frame_zero_moves`).
-/

namespace Chimera

open Lib
open Function (update update_self update_of_ne)

/-- The physical address behind any address; the direct map at `hhdmBase` needs no table.
Source: `pmap_vtophys` -/
def pmapVtophys (hhdmBase : ℕ) (v : Vm) (pml4Phys vaddr : ℕ) : ℕ :=
  if pml4Phys = 0 then 0
  else if hhdmBase ≤ vaddr ∧ vaddr < (hhdmBase + 0x400000000000) % 2 ^ 64 then vaddr - hhdmBase
  else
    let pml4e := v.mem (frameOf pml4Phys) (vaIndex 4 vaddr)
    if ¬ present pml4e then 0
    else
      let pdpte := v.mem (pteFrame pml4e) (vaIndex 3 vaddr)
      if ¬ present pdpte then 0
      else if large pdpte then pteFrame pdpte / 2 ^ 18 * 2 ^ 30 + vaddr % 2 ^ 30
      else
        let pde := v.mem (pteFrame pdpte) (vaIndex 2 vaddr)
        if ¬ present pde then 0
        else if large pde then pteFrame pde / 2 ^ 9 * 2 ^ 21 + vaddr % 2 ^ 21
        else
          let pte := v.mem (pteFrame pde) (vaIndex 1 vaddr)
          if ¬ present pte then 0
          else ptePhys pte + vaddr % 2 ^ 12

/-! ## Page tables -/

/-- The paths to tables of both halves. -/
def allPaths : Set (List ℕ) := {p | p.length ≤ 3 ∧ ∀ i ∈ p, i < 512}

lemma allPaths_closed : PrefixClosed allPaths where
  nil_mem := ⟨by simp, by simp⟩
  init_mem := by
    rintro p i ⟨hlen, hlt⟩
    rw [List.length_append, List.length_singleton] at hlen
    exact ⟨by omega, fun j hj => hlt j (List.mem_append_left _ hj)⟩

variable {p : List ℕ}

lemma userPaths_subset (h : p ∈ userPaths) : p ∈ allPaths := ⟨h.1, h.2.2⟩

/-- The memory as the walkers take it: bit 7 of a PML4 entry is not looked at. -/
def asWalked (m : ℕ → ℕ → BitVec 64) (r : ℕ) : ℕ → ℕ → BitVec 64 :=
  fun f i => if f = r then m f i &&& ~~~0x80#64 else m f i

/-- The table that the indices lead to. -/
def tableAt (v : Vm) (r : ℕ) (p : List ℕ) : Option ℕ := walk childTable (asWalked v.mem r) r p

/-- The frames of all tables of one address space, of both halves. -/
def allTables (v : Vm) (r : ℕ) : Set ℕ := nodes childTable (asWalked v.mem r) {r} allPaths

/-- **A page table whose user half has no large pages and whose tables are pairwise distinct**; the frames
of its tables are in use, so that the allocator does not return them. -/
structure PageTable (v : Vm) (r : ℕ) : Prop where
  inv : v.pmm.Inv
  root_lt : r < 2 ^ 40
  distinct : Forest childTable (asWalked v.mem r) {r} allPaths
  user_small : ∀ {p i f}, p ++ [i] ∈ userPaths → tableAt v r p = some f → present (v.mem f i) →
    ¬ large (v.mem f i)
  in_use : ∀ f ∈ allTables v r, v.held f

/-- All four indices of an address. -/
def vaIndices (va : ℕ) : List ℕ := [vaIndex 4 va, vaIndex 3 va, vaIndex 2 va, vaIndex 1 va]

/-- An address that the processor accepts: bits 47 to 63 are equal. -/
def Canonical (va : ℕ) : Prop := va < 2 ^ 47 ∨ 2 ^ 64 - 2 ^ 47 ≤ va ∧ va < 2 ^ 64

/-- Both translations of an address are as before. -/
def SameTranslation (hhdmBase : ℕ) (v v' : Vm) (r x : ℕ) : Prop :=
  pmapExtract v' (r * pageSize) x = pmapExtract v (r * pageSize) x ∧
    pmapVtophys hhdmBase v' (r * pageSize) x = pmapVtophys hhdmBase v (r * pageSize) x

/-- All three walkers find frame `p` at the page `va`. -/
structure FoundAt (hhdmBase : ℕ) (v : Vm) (r va p : ℕ) : Prop where
  extract : ∀ o < 4096, pmapExtract v (r * pageSize) (va + o) = p * pageSize + o
  vtophys : ∀ o < 4096, pmapVtophys hhdmBase v (r * pageSize) (va + o) = p * pageSize + o
  pte : ∃ pt i, pmapGetPtePtr v (r * pageSize) va = some (pt, i) ∧ present (v.mem pt i) ∧
    ptePhys (v.mem pt i) = p * pageSize

/-- **What is asked of a mapping** with the result `res`: if it is not `0` the page is found at its frame and
no address outside the page that satisfies `A` moves; if it is `0` none moves at all. -/
def TranslationLaw (A : ℕ → Prop) (hhdmBase : ℕ) (v : Vm) (r va p : ℕ) (res : ℕ × Vm) : Prop :=
  (res.1 ≠ 0 → FoundAt hhdmBase res.2 r va p ∧
    ∀ x, A x → x / pageSize ≠ va / pageSize → SameTranslation hhdmBase v res.2 r x) ∧
    (res.1 = 0 → ∀ x, A x → SameTranslation hhdmBase v res.2 r x)

section walks

variable {v v' : Vm} {r : ℕ}

lemma childTable_asWalked_root (m : ℕ → ℕ → BitVec 64) (i : ℕ) :
    childTable (asWalked m r r i) = if present (m r i) then some (pteFrame (m r i)) else none := by
  have hframe : pteFrame (m r i &&& ~~~0x80#64) = pteFrame (m r i) := pteFrame_and _ (by decide)
  have hpres : present (m r i &&& ~~~0x80#64) = present (m r i) := by simp [present]
  have hlarge : large (m r i &&& ~~~0x80#64) = false := by simp [large]
  rw [asWalked, if_pos rfl, childTable, hframe, hpres, hlarge]
  simp

variable {f i x : ℕ}

lemma asWalked_of_ne (m : ℕ → ℕ → BitVec 64) (hf : f ≠ r) (i : ℕ) : asWalked m r f i = m f i := if_neg hf

lemma vaIndex_lt (k va : ℕ) : vaIndex k va < 512 := Nat.mod_lt _ (by decide)

/-- A walk of an address stays on the paths to tables, up to its last index. -/
lemma allPaths_above (h : p ++ [i] <+: vaIndices x) : p ∈ allPaths := by
  have hlen := h.length_le
  simp only [vaIndices, List.length_append, List.length_cons, List.length_nil] at hlen
  refine ⟨by omega, fun k hk => ?_⟩
  have hmem : k ∈ vaIndices x := h.subset (List.mem_append_left _ hk)
  simp only [vaIndices, List.mem_cons, List.not_mem_nil, or_false] at hmem
  rcases hmem with rfl | rfl | rfl | rfl <;> exact vaIndex_lt _ x

@[simp] lemma tableAt_nil : tableAt v r [] = some r := rfl

/-- The walk through the PML4. -/
lemma tableAt_one (v : Vm) (r i : ℕ) :
    tableAt v r [i] = if present (v.mem r i) then some (pteFrame (v.mem r i)) else none := by
  rw [tableAt, walk_cons, childTable_asWalked_root]
  split_ifs <;> rfl

namespace PageTable

/-- A table below the root is another frame. -/
lemma ne_root (T : PageTable v r) (hp : p ∈ allPaths) (hne : p ≠ [])
    (hw : tableAt v r p = some f) : f ≠ r := by
  rintro rfl
  exact hne (T.distinct rfl rfl hp allPaths_closed.nil_mem hw rfl).2

/-- The walk through a table below the root. -/
lemma tableAt_concat (T : PageTable v r) (hp : p ∈ allPaths) (hne : p ≠ [])
    (hw : tableAt v r p = some f) (i : ℕ) : tableAt v r (p ++ [i]) = childTable (v.mem f i) := by
  have hwalk : walk childTable (asWalked v.mem r) r p = some f := hw
  rw [tableAt, walk_concat, hwalk, Option.bind_some, asWalked_of_ne _ (T.ne_root hp hne hw)]

/-- Each table is reached through a present entry of the table before. -/
lemma tableAt_inv (T : PageTable v r) {i g : ℕ} (hp : p ++ [i] ∈ allPaths)
    (hw : tableAt v r (p ++ [i]) = some g) : ∃ f, tableAt v r p = some f ∧ present (v.mem f i) = true ∧
      pteFrame (v.mem f i) = g ∧ (p ≠ [] → large (v.mem f i) = false) := by
  have hinit := allPaths_closed.init_mem hp
  by_cases hne : p = []
  · subst hne
    have hone : tableAt v r [i] = some g := hw
    rw [tableAt_one] at hone
    split_ifs at hone with hpres
    exact ⟨r, rfl, hpres, Option.some.inj hone, fun h => absurd rfl h⟩
  · obtain ⟨f, hf, -⟩ := Option.bind_eq_some_iff.mp ((walk_concat r p i).symm.trans hw)
    rw [T.tableAt_concat hinit hne hf, childTable] at hw
    split_ifs at hw with hpres
    exact ⟨f, hf, hpres.1, Option.some.inj hw, fun _ => by simpa using hpres.2⟩

end PageTable

/-- The word that a walk reads after the indices `p` is in the memory of `v'` as in that of `v`. -/
def AgreeAt (v v' : Vm) (r x : ℕ) : Prop :=
  ∀ p i f, p ++ [i] <+: vaIndices x → tableAt v r p = some f → v'.mem f i = v.mem f i

/-- **Frame rule.** An address whose words are the same is translated as before. -/
lemma sameTranslation_of_agree (T : PageTable v r) (h : AgreeAt v v' r x) (hhdmBase : ℕ) :
    SameTranslation hhdmBase v v' r x := by
  have hroot : frameOf (r * pageSize) = r := frameOf_mul T.root_lt
  have hi := fun k => vaIndex_lt k x
  unfold SameTranslation pmapExtract pmapVtophys
  dsimp only
  rw [hroot]
  have a4 : v'.mem r (vaIndex 4 x) = v.mem r (vaIndex 4 x) := h [] _ _ ⟨_, rfl⟩ rfl
  rw [a4]
  by_cases p4 : present (v.mem r (vaIndex 4 x)) = true
  swap
  · simp [p4]
  have w3 : tableAt v r [vaIndex 4 x] = some (pteFrame (v.mem r (vaIndex 4 x))) := by rw [tableAt_one, if_pos p4]
  generalize pteFrame (v.mem r (vaIndex 4 x)) = pdpt at w3 ⊢
  have a3 : v'.mem pdpt (vaIndex 3 x) = v.mem pdpt (vaIndex 3 x) := h [vaIndex 4 x] _ _ ⟨_, rfl⟩ w3
  rw [a3]
  by_cases p3 : present (v.mem pdpt (vaIndex 3 x)) = true ∧ ¬ large (v.mem pdpt (vaIndex 3 x)) = true
  swap
  · by_cases hp : present (v.mem pdpt (vaIndex 3 x)) = true
    · have hl : large (v.mem pdpt (vaIndex 3 x)) = true := by
        by_contra hl
        exact p3 ⟨hp, hl⟩
      simp [hl]
    · simp [hp]
  have w2 : tableAt v r [vaIndex 4 x, vaIndex 3 x] = some (pteFrame (v.mem pdpt (vaIndex 3 x))) := by
    have hstep := T.tableAt_concat ⟨by simp, by simp [hi]⟩ (by simp) w3 (vaIndex 3 x)
    rwa [childTable, if_pos p3] at hstep
  generalize pteFrame (v.mem pdpt (vaIndex 3 x)) = pd at w2 ⊢
  have a2 : v'.mem pd (vaIndex 2 x) = v.mem pd (vaIndex 2 x) := h [vaIndex 4 x, vaIndex 3 x] _ _ ⟨_, rfl⟩ w2
  rw [a2]
  by_cases p2 : present (v.mem pd (vaIndex 2 x)) = true ∧ ¬ large (v.mem pd (vaIndex 2 x)) = true
  swap
  · by_cases hp : present (v.mem pd (vaIndex 2 x)) = true
    · have hl : large (v.mem pd (vaIndex 2 x)) = true := by
        by_contra hl
        exact p2 ⟨hp, hl⟩
      simp [hl]
    · simp [hp]
  have w1 : tableAt v r [vaIndex 4 x, vaIndex 3 x, vaIndex 2 x] = some (pteFrame (v.mem pd (vaIndex 2 x))) := by
    have hstep := T.tableAt_concat ⟨by simp, by simp [hi]⟩ (by simp) w2
      (vaIndex 2 x)
    rwa [childTable, if_pos p2] at hstep
  generalize pteFrame (v.mem pd (vaIndex 2 x)) = pt at w1 ⊢
  have a1 : v'.mem pt (vaIndex 1 x) = v.mem pt (vaIndex 1 x) :=
    h [vaIndex 4 x, vaIndex 3 x, vaIndex 2 x] _ _ ⟨[], rfl⟩ w1
  rw [a1]
  exact ⟨rfl, rfl⟩

/-- **An absent entry on the way**: the address is not translated. -/
lemma untranslated_of_absent (T : PageTable v r) (hx : p ++ [i] <+: vaIndices x)
    (hw : tableAt v r p = some f) (habs : ¬ present (v.mem f i)) (hhdmBase : ℕ) :
    pmapExtract v (r * pageSize) x = 0 ∧ pmapVtophys hhdmBase v (r * pageSize) x =
      if r * pageSize ≠ 0 ∧ hhdmBase ≤ x ∧ x < (hhdmBase + 0x400000000000) % 2 ^ 64 then x - hhdmBase
      else 0 := by
  have hroot : frameOf (r * pageSize) = r := frameOf_mul T.root_lt
  unfold pmapExtract pmapVtophys
  rw [hroot]
  match p, hx, hw with
  | [], hx, hw =>
    obtain rfl : r = f := Option.some.inj hw
    obtain rfl : i = vaIndex 4 x := by simpa [vaIndices] using hx
    simp [habs]
    grind
  | [a], hx, hw =>
    obtain ⟨rfl, rfl⟩ : a = vaIndex 4 x ∧ i = vaIndex 3 x := by simpa [vaIndices] using hx
    obtain ⟨f4, h4, p4, rfl, -⟩ := T.tableAt_inv (p := []) (allPaths_above hx) hw
    obtain rfl : r = f4 := Option.some.inj h4
    simp [habs]
    grind
  | [a, b], hx, hw =>
    obtain ⟨rfl, rfl, rfl⟩ : a = vaIndex 4 x ∧ b = vaIndex 3 x ∧ i = vaIndex 2 x := by simpa [vaIndices] using hx
    have hpath : [vaIndex 4 x] ++ [vaIndex 3 x] ∈ allPaths := allPaths_above hx
    obtain ⟨f3, h3, p3, rfl, l3⟩ := T.tableAt_inv hpath hw
    obtain ⟨f4, h4, p4, rfl, -⟩ := T.tableAt_inv (p := []) (allPaths_closed.init_mem hpath) h3
    obtain rfl : r = f4 := Option.some.inj h4
    simp [habs, l3 (by simp)]
    grind
  | [a, b, c], hx, hw =>
    obtain ⟨rfl, rfl, rfl, rfl⟩ : a = vaIndex 4 x ∧ b = vaIndex 3 x ∧ c = vaIndex 2 x ∧ i = vaIndex 1 x := by
      simpa [vaIndices] using hx
    have hpath : [vaIndex 4 x, vaIndex 3 x] ++ [vaIndex 2 x] ∈ allPaths := allPaths_above hx
    obtain ⟨f2, h2, p2, rfl, l2⟩ := T.tableAt_inv hpath hw
    have hpath2 := allPaths_closed.init_mem hpath
    obtain ⟨f3, h3, p3, rfl, l3⟩ := T.tableAt_inv (p := [vaIndex 4 x]) hpath2 h2
    obtain ⟨f4, h4, p4, rfl, -⟩ := T.tableAt_inv (p := []) (allPaths_closed.init_mem hpath2) h3
    obtain rfl : r = f4 := Option.some.inj h4
    simp [habs, l3 (by simp), l2 (by simp)]
    grind
  | a :: b :: c :: d :: q, hx, hw =>
    have hlen := hx.length_le
    simp only [vaIndices, List.length_append, List.length_cons, List.length_nil] at hlen
    omega

end walks

/-! ## Growing the tables -/

/-- From `v` to `v'` tables were added, and no address moves. -/
structure Widened (v v' : Vm) (r : ℕ) : Prop where
  table : PageTable v' r
  same : ∀ hhdmBase x, SameTranslation hhdmBase v v' r x
  walk_mono : ∀ q ∈ allPaths, ∀ f, tableAt v r q = some f → tableAt v' r q = some f
  words : ∀ q ∈ allPaths, ∀ f j, tableAt v r q = some f → present (v.mem f j) = true →
    v'.mem f j = v.mem f j

section grow

variable {v v1 v2 : Vm} {r : ℕ}

namespace Widened

lemma refl (T : PageTable v r) : Widened v v r :=
  ⟨T, fun _ _ => ⟨rfl, rfl⟩, fun _ _ _ hw => hw, fun _ _ _ _ _ _ => rfl⟩

lemma trans (h1 : Widened v v1 r) (h2 : Widened v1 v2 r) : Widened v v2 r where
  table := h2.table
  same b x := ⟨(h2.same b x).1.trans (h1.same b x).1, (h2.same b x).2.trans (h1.same b x).2⟩
  walk_mono q hq f hw := h2.walk_mono q hq f (h1.walk_mono q hq f hw)
  words q hq f j hw hpres := by
    have hword := h1.words q hq f j hw hpres
    rw [h2.words q hq f j (h1.walk_mono q hq f hw) (hword ▸ hpres), hword]

end Widened

variable {f i phys : ℕ} {m : ℕ → ℕ → BitVec 64}

/-- An absent entry links to no table. -/
lemma childTable_asWalked_absent (h : ¬ present (m f i) = true) : childTable (asWalked m r f i) = none := by
  by_cases hf : f = r
  · subst hf
    rw [childTable_asWalked_root, if_neg h]
  · rw [asWalked_of_ne m hf]
    simp [childTable, h]

lemma childTable_asWalked_table (h : m f i = tableEntry phys) :
    childTable (asWalked m r f i) = some (frameOf phys) := by
  by_cases hf : f = r
  · subst hf
    rw [childTable_asWalked_root, h, present_tableEntry, if_pos rfl, pteFrame_tableEntry]
  · rw [asWalked_of_ne m hf, h, childTable_tableEntry]

/-- A page that the allocator has, and no table is in, is lost or given away. -/
lemma PageTable.alloc (T : PageTable v r) {p : Pmm} (hinv : p.Inv)
    (hmax : p.maxPhysPage = v.pmm.maxPhysPage) (hrc : ∀ f, rc v.pmm f ≠ 0 → rc p f ≠ 0) :
    PageTable { v with pmm := p } r where
  inv := hinv
  root_lt := T.root_lt
  distinct := T.distinct
  user_small := T.user_small
  in_use f hf := (T.in_use f hf).imp (hrc f) fun h => by rwa [hmax]

/-- **A new table**: it is empty, and hangs below an entry that was absent. -/
lemma PageTable.graft (T : PageTable v r) {g : ℕ} (hp : p ++ [i] ∈ userPaths)
    (hw : tableAt v r p = some f) (habs : ¬ present (v.mem f i) = true) (hg : g ∉ allTables v r)
    (hphys : frameOf phys = g) (hinv : v1.pmm.Inv) (huse : ∀ f ∈ insert g (allTables v r), v1.held f)
    (hmem : v1.mem = ((v.setFrame g fun _ => 0#64).setWord f i (tableEntry phys)).mem) :
    Widened v v1 r ∧ tableAt v1 r (p ++ [i]) = some g := by
  have hpath := userPaths_subset hp
  have hinit := allPaths_closed.init_mem hpath
  have hfg : f ≠ g := fun hfg => hg (hfg ▸ mem_nodes rfl hinit hw)
  have hnew : v1.mem f i = tableEntry phys := by simp [hmem, Vm.setWord]
  have hzero : ∀ j, v1.mem g j = 0#64 := by
    intro j
    simp [hmem, Vm.setWord, Vm.setFrame, hfg.symm]
  have hother : ∀ f' j, f' ≠ g → ¬ (f' = f ∧ j = i) → v1.mem f' j = v.mem f' j := by
    intro f' j hne hfi
    simp only [hmem, Vm.setWord, Vm.setFrame]
    by_cases hf : f' = f
    · subst hf
      rw [update_self, update_of_ne fun hj => hfi ⟨rfl, hj⟩, update_of_ne hne]
    · rw [update_of_ne hf, update_of_ne hne]
  have hempty : ∀ j, childTable (asWalked v1.mem r g j) = none := by
    intro j
    refine childTable_asWalked_absent ?_
    rw [hzero]
    simp
  have hwalk : ∀ r' ∈ ({r} : Set ℕ), ∀ q ∈ allPaths, walk childTable (asWalked v1.mem r) r' q =
      if r' = r ∧ q = p ++ [i] then some g else walk childTable (asWalked v.mem r) r' q :=
    fun r' hr' q hq => T.distinct.walk_graft allPaths_closed rfl hpath hw
      (childTable_asWalked_absent habs) hg (hphys ▸ childTable_asWalked_table hnew) hempty
      (fun f' j hne hfi => by rw [asWalked, asWalked, hother f' j hne hfi]) hr' hq
  have hdead : walk childTable (asWalked v.mem r) r (p ++ [i]) = none := by
    have hw' : walk childTable (asWalked v.mem r) r p = some f := hw
    rw [walk_concat, hw', Option.bind_some, childTable_asWalked_absent habs]
  have htable : ∀ q ∈ allPaths, tableAt v1 r q = if q = p ++ [i] then some g else tableAt v r q := by
    intro q hq
    rw [tableAt, hwalk r rfl q hq]
    simp [tableAt]
  have hnodes : allTables v1 r = insert g (allTables v r) := nodes_graft rfl hpath hdead hwalk
  have hlink : tableAt v1 r (p ++ [i]) = some g := by rw [htable _ hpath, if_pos rfl]
  have T1 : PageTable v1 r := by
    refine ⟨hinv, T.root_lt, T.distinct.graft hg hwalk, ?_, fun h hh => huse h (hnodes ▸ hh)⟩
    intro q j h hq hwq hpres
    rw [htable q (allPaths_closed.init_mem (userPaths_subset hq))] at hwq
    split_ifs at hwq with heq
    · -- the new table has no entries
      cases hwq
      rw [hzero] at hpres
      simp at hpres
    · have hhg : h ≠ g := fun hhg => hg (hhg ▸ mem_nodes rfl (allPaths_closed.init_mem (userPaths_subset hq)) hwq)
      by_cases hfi : h = f ∧ j = i
      · rw [hfi.1, hfi.2, hnew]
        simp
      · rw [hother h j hhg hfi] at hpres ⊢
        exact T.user_small hq hwq hpres
  refine ⟨⟨T1, fun b x => ?_, fun q hq h hwq => ?_, fun q hq h j hwq hpres => ?_⟩, hlink⟩
  · by_cases hx : p ++ [i] <+: vaIndices x
    · -- below the entry there was nothing, and there is nothing now
      obtain ⟨j, hj⟩ : ∃ j, p ++ [i] ++ [j] <+: vaIndices x := by
        obtain ⟨t, ht⟩ := hx
        cases t with
        | nil =>
          have hlen := congrArg List.length ht
          have hle := hp.1
          simp only [List.append_nil, List.length_append, vaIndices, List.length_cons, List.length_nil] at hlen hle
          omega
        | cons j t => exact ⟨j, t, by rw [← ht]; simp⟩
      have hbefore := untranslated_of_absent T hx hw habs b
      have hafter := untranslated_of_absent T1 hj hlink (by rw [hzero]; simp) b
      exact ⟨hafter.1.trans hbefore.1.symm, hafter.2.trans hbefore.2.symm⟩
    · refine sameTranslation_of_agree T (fun q j h hq hwq => ?_) b
      have hqpath := allPaths_above hq
      refine hother h j (fun hhg => hg (hhg ▸ mem_nodes rfl hqpath hwq)) ?_
      rintro ⟨rfl, rfl⟩
      obtain ⟨-, rfl⟩ := T.distinct rfl rfl hqpath hinit hwq hw
      exact hx hq
  · rw [htable q hq, if_neg, hwq]
    rintro rfl
    have hwq' : walk childTable (asWalked v.mem r) r (p ++ [i]) = some h := hwq
    rw [hdead] at hwq'
    cases hwq'
  · refine hother h j (fun hhg => hg (hhg ▸ mem_nodes rfl hq hwq)) ?_
    rintro ⟨rfl, rfl⟩
    exact habs hpres

/-- **One level of the mapping walk** moves no address, and leads to the next table through an entry for the
user. -/
lemma ensureTable_translation (T : PageTable v r) (hp : p ++ [i] ∈ userPaths)
    (hw : tableAt v r p = some f) (big : Bool) :
    Widened v (ensureTable v f i big).2 r ∧ ∀ g, (ensureTable v f i big).1 = some g →
      tableAt (ensureTable v f i big).2 r (p ++ [i]) = some g ∧ user ((ensureTable v f i big).2.mem f i) = true := by
  unfold ensureTable
  by_cases hpres : present (v.mem f i) = true
  · have hlarge := T.user_small hp hw hpres
    have hskip : ¬ (¬ present (v.mem f i) = true ∨ (big = true ∧ large (v.mem f i) = true)) := by simp [hpres, hlarge]
    rw [if_neg hskip]
    by_cases huser : user (v.mem f i) = true
    · rw [if_neg (not_not.mpr huser)]
      refine ⟨Widened.refl T, fun g hg => ?_⟩
      cases hg
      refine ⟨?_, huser⟩
      by_cases hne : p = []
      · subst hne
        obtain rfl : r = f := Option.some.inj hw
        rw [List.nil_append, tableAt_one, if_pos hpres]
      · rw [T.tableAt_concat (allPaths_closed.init_mem (userPaths_subset hp)) hne hw, childTable,
          if_pos ⟨hpres, hlarge⟩]
    · rw [if_pos huser]
      exact ⟨Widened.refl T, (by simp)⟩
  · rw [if_pos (.inl hpres)]
    obtain ⟨hfail, l⟩ | ⟨g, hg, a⟩ := allocPage_cases T.inv
    · simp only [hfail, if_true]
      exact ⟨⟨T.alloc l.inv l.max_eq fun q hq => by rwa [l.keep q hq], fun _ _ => ⟨rfl, rfl⟩,
        fun _ _ _ hw => hw, fun _ _ _ _ _ _ => rfl⟩, (by simp)⟩
    · simp only [hg, a.ok, a.frame, Bool.false_eq_true, if_false]
      have hfresh : g ∉ allTables v r := by
        intro hmem
        rcases T.in_use g hmem with h | h
        · exact h a.free
        · exact absurd a.lt (not_lt.mpr h)
      have hinit := allPaths_closed.init_mem (userPaths_subset hp)
      have hne : f ≠ g := fun hfg => hfresh (hfg ▸ mem_nodes rfl hinit hw)
      set v1 : Vm := ({ v with pmm := (pmmAllocPage v.pmm).2 }.setFrame g fun _ => 0#64).setWord f i
        (tableEntry (g * pageSize)) with hv1
      have huse : ∀ q ∈ insert g (allTables v r), v1.held q := by
        rintro q (rfl | hq)
        · exact .inl (a.self.symm ▸ one_ne_zero)
        · exact (T.in_use q hq).imp (fun hq' => (a.keep hq').symm ▸ hq') fun hq' => a.max_eq.symm ▸ hq'
      obtain ⟨hwide, hlink⟩ := T.graft hp hw hpres hfresh a.frame (show v1.pmm.Inv from a.inv) huse rfl
      refine ⟨hwide, fun g' hg' => ?_⟩
      have hword : v1.mem f i = tableEntry (g * pageSize) := by simp [hv1, Vm.setWord]
      rw [hword, pteFrame_tableEntry, a.frame] at hg'
      cases hg'
      exact ⟨hlink, by rw [hword, user_tableEntry]⟩

end grow

/-! ## The mapping -/

/-- An entry for the user that links to table `f`. -/
structure LinksTo (e : BitVec 64) (f : ℕ) : Prop where
  present : present e = true
  user : user e = true
  small : large e = false
  frame : pteFrame e = f

/-- The way of the user to the last table of an address, through the tables `pdpt` and `pd`. -/
structure UserWay (v : Vm) (r va pdpt pd pt : ℕ) : Prop where
  pml4e : LinksTo (v.mem r (vaIndex 4 va)) pdpt
  pdpte : LinksTo (v.mem pdpt (vaIndex 3 va)) pd
  pde : LinksTo (v.mem pd (vaIndex 2 va)) pt

section mapping

variable {v : Vm} {r va : ℕ} {v1 : Vm} {pd pdpt pt x : ℕ}

/-- One level as a link of the way. -/
lemma ensureTable_link (T : PageTable v r) {p : List ℕ} {i f : ℕ} (hp : p ++ [i] ∈ userPaths)
    (hw : tableAt v r p = some f) {big : Bool} {g : ℕ}
    (he : ensureTable v f i big = (some g, v1)) :
    Widened v v1 r ∧ tableAt v1 r (p ++ [i]) = some g ∧ LinksTo (v1.mem f i) g := by
  obtain ⟨hwide, hnext⟩ := ensureTable_translation T hp hw big
  rw [he] at hwide hnext
  obtain ⟨hlink, huser⟩ := hnext g rfl
  have hinit := allPaths_closed.init_mem (userPaths_subset hp)
  obtain ⟨f', hf', hpres, hframe, -⟩ := hwide.table.tableAt_inv (userPaths_subset hp) hlink
  obtain rfl : f' = f := Option.some.inj (hf'.symm.trans (hwide.walk_mono p hinit f hw))
  have hlarge := hwide.table.user_small hp hf' hpres
  exact ⟨hwide, hlink, hpres, huser, by simpa using hlarge, hframe⟩

/-- **The walk of `pmap_map_user_page`**: it is refused and no address has moved, or it reaches the last
table. -/
lemma mapUserPage_way (T : PageTable v r) (va paddr : ℕ) (flags : BitVec 64) :
    (∃ v1, Widened v v1 r ∧ pmapMapUserPage v (r * pageSize) va paddr flags = (0, v1)) ∨
      ∃ v1 pdpt pd pt, Widened v v1 r ∧ r * pageSize ≠ 0 ∧ 0x1000 ≤ va ∧ va < userEnd ∧ UserWay v1 r va pdpt pd pt ∧
        tableAt v1 r [vaIndex 4 va] = some pdpt ∧ tableAt v1 r [vaIndex 4 va, vaIndex 3 va] = some pd ∧
        tableAt v1 r [vaIndex 4 va, vaIndex 3 va, vaIndex 2 va] = some pt ∧
        pmapMapUserPage v (r * pageSize) va paddr flags = (paddr, setLeaf v1 pt va paddr flags) := by
  unfold pmapMapUserPage
  by_cases hva : r * pageSize = 0 ∨ va < 0x1000 ∨ va ≥ userEnd
  · rw [if_pos hva]
    exact .inl ⟨v, .refl T, rfl⟩
  rw [if_neg hva]
  have hlt : va < userEnd := by omega
  have hidx : vaIndex 4 va < 256 := vaIndex_four hlt ▸ (vaSlot va).1.isLt
  rw [if_neg (not_le.mpr hidx), frameOf_mul T.root_lt]
  have hone : [vaIndex 4 va] ∈ userPaths := vaPath_mem hlt ⟨_, rfl⟩
  have htwo : [vaIndex 4 va, vaIndex 3 va] ∈ userPaths := vaPath_mem hlt ⟨_, rfl⟩
  have hthree : [vaIndex 4 va, vaIndex 3 va, vaIndex 2 va] ∈ userPaths := vaPath_mem hlt ⟨[], rfl⟩
  -- three levels, each from the table the one before led to
  rcases h4 : ensureTable v r (vaIndex 4 va) false with ⟨_ | pdpt, v1⟩
  · have hwide := (ensureTable_translation T hone tableAt_nil false).1
    rw [h4] at hwide
    exact .inl ⟨v1, hwide, rfl⟩
  obtain ⟨g1, w1, l1⟩ := ensureTable_link T hone tableAt_nil h4
  dsimp only
  rcases h3 : ensureTable v1 pdpt (vaIndex 3 va) false with ⟨_ | pd, v2⟩
  · have hwide := (ensureTable_translation g1.table htwo w1 false).1
    rw [h3] at hwide
    exact .inl ⟨v2, g1.trans hwide, rfl⟩
  obtain ⟨g2, w2, l2⟩ := ensureTable_link g1.table htwo w1 h3
  dsimp only
  rcases h2 : ensureTable v2 pd (vaIndex 2 va) true with ⟨_ | pt, v3⟩
  · have hwide := (ensureTable_translation g2.table hthree w2 true).1
    rw [h2] at hwide
    exact .inl ⟨v3, (g1.trans g2).trans hwide, rfl⟩
  obtain ⟨g3, w3, l3⟩ := ensureTable_link g2.table hthree w2 h2
  have hone' := userPaths_subset hone
  have htwo' := userPaths_subset htwo
  have hnil := allPaths_closed.nil_mem
  refine .inr ⟨v3, pdpt, pd, pt, (g1.trans g2).trans g3, by omega, by omega, hlt, ⟨?_, ?_, l3⟩, ?_, ?_, w3, rfl⟩
  · rwa [(g2.trans g3).words [] hnil r _ tableAt_nil l1.present]
  · rwa [g3.words _ hone' pdpt _ (g2.walk_mono _ hone' _ w1) l2.present]
  · exact g3.walk_mono _ hone' _ (g2.walk_mono _ hone' _ w1)
  · exact g3.walk_mono _ htwo' _ w2

/-- **What the way leads to**: all three walkers find the leaf. -/
lemma UserWay.foundAt {p : ℕ} (h : UserWay v r va pdpt pd pt) (hr : r < 2 ^ 40)
    (hr0 : r * pageSize ≠ 0) (hlo : 0x1000 ≤ va) (hva : va < userEnd) (halign : pageSize ∣ va)
    (hpres : present (v.mem pt (vaIndex 1 va)) = true) (huser : user (v.mem pt (vaIndex 1 va)) = true)
    (hframe : pteFrame (v.mem pt (vaIndex 1 va)) = p) {hhdmBase : ℕ} (hhdm : userEnd ≤ hhdmBase) :
    FoundAt hhdmBase v r va p := by
  obtain ⟨⟨p4, u4, -, rfl⟩, ⟨p3, u3, l3, rfl⟩, ⟨p2, u2, l2, rfl⟩⟩ := h
  have hroot : frameOf (r * pageSize) = r := frameOf_mul hr
  have hphys := ptePhys_eq (v.mem (pteFrame (v.mem (pteFrame (v.mem (pteFrame (v.mem r (vaIndex 4 va)))
    (vaIndex 3 va))) (vaIndex 2 va))) (vaIndex 1 va))
  rw [hframe] at hphys
  have hpage : ∀ o < 4096, (va + o) / pageSize = va / pageSize ∧ va + o < userEnd ∧ (va + o) % 2 ^ 12 = o := by
    intro o ho
    simp only [pageSize, userEnd] at halign hva ⊢
    omega
  refine ⟨fun o ho => ?_, fun o ho => ?_, ⟨_, _, ?_, hpres, hphys⟩⟩
  · obtain ⟨hdiv, hlt, hmod⟩ := hpage o ho
    have hin : ¬ (r * pageSize = 0 ∨ va + o < 0x1000 ∨ va + o ≥ userEnd) := by omega
    unfold pmapExtract
    rw [if_neg hin]
    simp only [vaIndex_congr hdiv, hroot, p4, u4, p3, u3, l3, p2, u2, l2, hpres, huser, hphys, hmod]
    simp
  · obtain ⟨hdiv, hlt, hmod⟩ := hpage o ho
    have hout : ¬ (hhdmBase ≤ va + o ∧ va + o < (hhdmBase + 0x400000000000) % 2 ^ 64) := by omega
    unfold pmapVtophys
    rw [if_neg hr0, if_neg hout]
    simp only [vaIndex_congr hdiv, hroot, p4, p3, l3, p2, l2, hpres, hphys, hmod]
    simp
  · unfold pmapGetPtePtr
    rw [if_neg hr0]
    simp only [hroot, p4, p3, l3, p2, l2]
    simp

/-- Two canonical addresses with the same indices are in one page. -/
lemma Canonical.page_eq (hx : Canonical x) (hva : va < userEnd) (h : vaIndices x = vaIndices va) :
    x / pageSize = va / pageSize := by
  simp only [vaIndices, vaIndex, List.cons.injEq, and_true] at h
  simp only [Canonical, pageSize, userEnd] at hx hva ⊢
  omega

lemma setLeaf_mem_eq (v : Vm) (pt va paddr : ℕ) (flags : BitVec 64) : (setLeaf v pt va paddr flags).mem =
    update v.mem pt (update (v.mem pt) (vaIndex 1 va) (leafEntry paddr flags)) := by
  unfold setLeaf
  dsimp only
  split_ifs <;> rfl

/-- The way to a page does not go through its leaf. -/
lemma UserWay.leafWritten (T : PageTable v1 r) (h : UserWay v1 r va pdpt pd pt)
    (w1 : tableAt v1 r [vaIndex 4 va] = some pdpt)
    (w2 : tableAt v1 r [vaIndex 4 va, vaIndex 3 va] = some pd)
    (w3 : tableAt v1 r [vaIndex 4 va, vaIndex 3 va, vaIndex 2 va] = some pt) (paddr : ℕ)
    (flags : BitVec 64) : UserWay (setLeaf v1 pt va paddr flags) r va pdpt pd pt := by
  have hi := fun k => vaIndex_lt k va
  have hpath : [vaIndex 4 va, vaIndex 3 va, vaIndex 2 va] ∈ allPaths := ⟨by simp, by simp [hi]⟩
  have hword : ∀ {q f i}, q ∈ allPaths → q.length < 3 → tableAt v1 r q = some f →
      (setLeaf v1 pt va paddr flags).mem f i = v1.mem f i := by
    intro q f i hq hlen hwq
    rw [setLeaf_mem_eq, update_of_ne]
    rintro rfl
    obtain ⟨-, rfl⟩ := T.distinct rfl rfl hq hpath hwq w3
    simp at hlen
  obtain ⟨h4, h3, h2⟩ := h
  refine ⟨?_, ?_, ?_⟩
  · rwa [hword allPaths_closed.nil_mem (by simp) tableAt_nil]
  · rwa [hword ⟨by simp, by simp [hi]⟩ (by simp) w1]
  · rwa [hword ⟨by simp, by simp [hi]⟩ (by simp) w2]

/-- **Writing a leaf** moves the addresses of its page only. -/
lemma setLeaf_translation (T : PageTable v1 r) (hva : va < userEnd)
    (hw : tableAt v1 r [vaIndex 4 va, vaIndex 3 va, vaIndex 2 va] = some pt) (paddr : ℕ) (flags : BitVec 64)
    (hx : Canonical x) (hne : x / pageSize ≠ va / pageSize) (hhdmBase : ℕ) :
    SameTranslation hhdmBase v1 (setLeaf v1 pt va paddr flags) r x := by
  refine sameTranslation_of_agree T (fun q j f hq hwq => ?_) hhdmBase
  rw [setLeaf_mem_eq]
  by_cases hf : f = pt
  · subst hf
    rw [update_self]
    refine update_of_ne ?_ _ _
    rintro rfl
    -- the walk would be the one to `va`
    have hpath : [vaIndex 4 va, vaIndex 3 va, vaIndex 2 va] ∈ allPaths := ⟨by simp, by simp [vaIndex_lt]⟩
    obtain ⟨-, rfl⟩ := T.distinct rfl rfl (allPaths_above hq) hpath hwq hw
    exact hne (hx.page_eq hva (hq.eq_of_length rfl).symm)
  · rw [update_of_ne hf]

end mapping

/-- **The translation law.** For every page table whose user half has no large pages and whose tables are
distinct frames in use, every page of the user half and every frame but `0`: the three walkers agree with
`pmap_map_user_page`, and no other canonical address moves. -/
theorem translation_law {v : Vm} {r : ℕ} (T : PageTable v r) {va p : ℕ} (hva : va < userEnd)
    (halign : pageSize ∣ va) (hp : p < 2 ^ 40) (hp0 : p ≠ 0) {flags : BitVec 64}
    (hflags : flags &&& ptePhysMask = 0#64) {hhdmBase : ℕ} (hhdm : userEnd ≤ hhdmBase) :
    TranslationLaw Canonical hhdmBase v r va p
      (pmapMapUserPage v (r * pageSize) va (p * pageSize) flags) := by
  have hpos : p * pageSize ≠ 0 := by
    unfold pageSize
    omega
  rcases mapUserPage_way T va (p * pageSize) flags with
    ⟨v1, hwide, hres⟩ | ⟨v1, pdpt, pd, pt, hwide, hr0, hlo, -, hway, w1, w2, w3, hres⟩
  · rw [hres]
    exact ⟨fun h => absurd rfl h, fun _ x _ => hwide.same hhdmBase x⟩
  · rw [hres]
    refine ⟨fun _ => ⟨?_, fun x hx hne => ?_⟩, fun h => absurd h hpos⟩
    · have hleaf : (setLeaf v1 pt va (p * pageSize) flags).mem pt (vaIndex 1 va) =
          leafEntry (p * pageSize) flags := by
        rw [setLeaf_mem_eq, update_self, update_self]
      refine (hway.leafWritten hwide.table w1 w2 w3 (p * pageSize) flags).foundAt T.root_lt hr0 hlo hva halign
        ?_ ?_ ?_ hhdm
      · rw [hleaf, present_leafEntry]
      · rw [hleaf, user_leafEntry]
      · rw [hleaf, pteFrame_leafEntry _ hflags, frameOf_mul hp]
    · have hleaf := setLeaf_translation hwide.table hva w3 (p * pageSize) flags hx hne hhdmBase
      have hgrow := hwide.same hhdmBase x
      exact ⟨hleaf.1.trans hgrow.1, hleaf.2.trans hgrow.2⟩

/-! ## A small page table -/

/-- Four tables, one below the other, for the first pages of the user half. -/
def chainVm : Vm where
  pmm := bootPmm
  mem := fun f i => if i = 0 ∧ 1000 ≤ f ∧ f < 1003 then tableEntry ((f + 1) * pageSize) else 0#64
  kernelPml4 := 0
  trampPhys := 0

/-- The walks of that page table. -/
lemma chainVm_walk {s f : ℕ} (hs : 1000 ≤ s) (hw : walk childTable (asWalked chainVm.mem 1000) s p = some f) :
    p = List.replicate (f - s) 0 ∧ s ≤ f := by
  induction p generalizing s with
  | nil =>
    cases hw
    simp
  | cons i p ih =>
    rw [walk_cons] at hw
    by_cases hlink : i = 0 ∧ s < 1003
    · have hword : chainVm.mem s i = tableEntry ((s + 1) * pageSize) := if_pos ⟨hlink.1, hs, hlink.2⟩
      rw [childTable_asWalked_table hword, frameOf_mul (by omega), Option.bind_some] at hw
      obtain ⟨hp, hle⟩ := ih (by omega) hw
      refine ⟨?_, by omega⟩
      rw [hp, hlink.1, show f - s = (f - (s + 1)) + 1 by omega, List.replicate_succ]
    · have hword : chainVm.mem s i = 0#64 := if_neg fun h => hlink ⟨h.1, h.2.2⟩
      rw [childTable_asWalked_absent (by rw [hword]; simp), Option.bind_none] at hw
      cases hw

lemma chainVm_pageTable : PageTable chainVm 1000 where
  inv := bootPmm_inv
  root_lt := by decide
  distinct := by
    rintro _ _ p p' f rfl rfl hp hp' hw hw'
    exact ⟨rfl, (chainVm_walk le_rfl hw).1.trans (chainVm_walk le_rfl hw').1.symm⟩
  user_small := by
    intro p i f hp hw hpres
    simp only [chainVm] at hpres ⊢
    split_ifs at hpres ⊢ with h
    · simp
    · simp at hpres
  in_use := by
    rintro f ⟨_, rfl, p, -, hw⟩
    have hmax : bootPmm.maxPhysPage ≤ 1000 := by decide +kernel
    exact .inr (hmax.trans (chainVm_walk le_rfl hw).2)

/-- The law for page `0x1000` and frame 7, which is mapped. -/
theorem translation_law_chain : TranslationLaw Canonical 0xffff800000000000 chainVm 1000 0x1000 7
        (pmapMapUserPage chainVm (1000 * pageSize) 0x1000 (7 * pageSize) pageWrite) ∧
      (pmapMapUserPage chainVm (1000 * pageSize) 0x1000 (7 * pageSize) pageWrite).1 ≠ 0 :=
  ⟨translation_law chainVm_pageTable (by decide) ⟨1, rfl⟩ (by decide) (by decide) (by decide) (by decide),
    by decide +kernel⟩

/-- **Frame 0 is mapped with the result 0**, so the address `0x1001` moves although the result says that the
page was refused; and a number that is no canonical address moves with the page of its low 48 bits. -/
theorem frame_zero_moves : PageTable chainVm 1000 ∧
      ¬ TranslationLaw Canonical 0xffff800000000000 chainVm 1000 0x1000 0
        (pmapMapUserPage chainVm (1000 * pageSize) 0x1000 (0 * pageSize) pageWrite) ∧
      ¬ TranslationLaw (fun _ => True) 0xffff800000000000 chainVm 1000 0x1000 7
        (pmapMapUserPage chainVm (1000 * pageSize) 0x1000 (7 * pageSize) pageWrite) := by
  refine ⟨chainVm_pageTable, fun h => ?_, fun h => ?_⟩
  · have hsame := (h.2 (by decide +kernel) 0x1001 (.inl (by decide))).1
    exact absurd hsame (by decide +kernel)
  · have hsame := ((h.1 (by decide +kernel)).2 (0x1000 + 2 ^ 48) trivial (by decide)).2
    exact absurd hsame (by decide +kernel)

end Chimera
