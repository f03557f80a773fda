import Chimera.Pmap.Map

/-!
# Destroying an address space

`pmap_destroy_user_space` takes the tree of tables apart from the leaves up. Every step keeps the
invariant: clearing a leaf gives its reference back (`Torn.leaf`), a table without entries is
unlinked and freed (`Torn.cut`), and the PML4 goes last. At the end the address space is gone, the
others have not changed, and every frame has lost exactly its entries and its use as a table.
-/

namespace Chimera

open Lib

/-- From `v` to `t` entries of address space `r` were taken out, with some of its tables. -/
structure Torn (v t : Vm) (R : Finset ℕ) (r : ℕ) : Prop where
  sound : Sound t R
  other : ∀ r' ∈ R, r' ≠ r → ∀ x, view t.mem r' x = view v.mem r' x
  tables_sub : ∀ f, f ∈ tables t.mem R → f ∈ tables v.mem R
  data_eq : ∀ f, f ∉ tables v.mem R → t.mem f = v.mem f
  slack_eq : ∀ f < v.pmm.maxPhysPage, slack t R f =
    slack v R f + hit (view v.mem r trampSlot) f - hit (view t.mem r trampSlot) f
  max_eq : t.pmm.maxPhysPage = v.pmm.maxPhysPage
  tramp_eq : t.trampPhys = v.trampPhys

/-- From `t` to `t'` only word `i` of the table at `p` and the tables below have changed. -/
def CutBelow (t t' : Vm) (r : ℕ) (p : List ℕ) (i : ℕ) : Prop :=
  ∀ q ∈ userPaths, ∀ f, walk childTable t.mem r q = some f → ¬ p ++ [i] <+: q →
    walk childTable t'.mem r q = some f ∧ ∀ j, ¬ (q = p ∧ j = i) → t'.mem f j = t.mem f j

/-- From `t` to `t'` only the table at `p` and those below have changed. -/
def CutAt (t t' : Vm) (r : ℕ) (p : List ℕ) : Prop :=
  ∀ q ∈ userPaths, ∀ f, walk childTable t.mem r q = some f → ¬ p <+: q →
    walk childTable t'.mem r q = some f ∧ ∀ j, t'.mem f j = t.mem f j

variable {v t : Vm} {R : Finset ℕ} {r : ℕ}

lemma Torn.refl (h : Sound v R) (r : ℕ) : Torn v v R r :=
  ⟨h, fun _ _ _ _ => rfl, fun _ hf => hf, fun _ _ => rfl, fun _ _ => by ring, rfl, rfl⟩

/-- A table that is linked nowhere any more is released. -/
lemma Sound.dropTable (h : Sound v R) {g : ℕ} (hg : g ∈ tables v.mem R) {m' : ℕ → ℕ → BitVec 64}
    {R' : Finset ℕ} (hshape : Shape m' R')
    (htables : ∀ f, f ∈ tables m' R' ↔ f ∈ tables v.mem R ∧ f ≠ g)
    (hrefs : ∀ f, refs m' R' f = refs v.mem R f)
    (hview : ∀ r ∈ R', ∀ x, present (view m' r x) → r ∈ R ∧ view m' r x = view v.mem r x) {phys : ℕ}
    (hphys : phys / pageSize = g) :
    Sound ({ v with mem := m' }.release phys) R' ∧
      ∀ f < v.pmm.maxPhysPage, slack ({ v with mem := m' }.release phys) R' f = slack v R f := by
  have htabs : ∀ f, (tabs m' R' f : ℤ) = tabs v.mem R f - if g = f then 1 else 0 := by
    intro f
    by_cases hf : g = f
    · subst hf
      rw [tabs_of_mem hg, tabs_of_notMem fun h => ((htables _).mp h).2 rfl, if_pos rfl]
      rfl
    · rw [if_neg hf, sub_zero]
      by_cases hft : f ∈ tables v.mem R
      · rw [tabs_of_mem hft, tabs_of_mem ((htables f).mpr ⟨hft, fun h => hf h.symm⟩)]
      · rw [tabs_of_notMem hft, tabs_of_notMem fun h => hft ((htables f).mp h).1]
  have hslack' : ∀ f, slack { v with mem := m' } R' f = slack v R f + if g = f then 1 else 0 := by
    intro f
    unfold slack
    rw [htabs, hrefs]
    ring
  have hs' : Sound { v with mem := m' } R' := by
    refine ⟨h.inv, hshape, fun f hf => h.table_lt f ((htables f).mp hf).1, fun f hf ht => ?_, fun ht => ?_,
      fun {r x} hr hp ht => ?_⟩
    · have hc := h.counted f hf ht
      rw [hslack']
      split_ifs <;> linarith
    · obtain ⟨h1, h2, h3, h4⟩ := h.tramp ht
      exact ⟨h1, h2, h3, fun h => h4 ((htables _).mp h).1⟩
    · obtain ⟨hr', hsame⟩ := hview r hr x hp
      rw [hsame] at hp ht
      exact h.tramp_slot hr' hp ht
  have hgtr : ¬ v.isTramp g := fun ht => (h.tramp ht.1).2.2.2 (ht.2 ▸ hg)
  obtain ⟨hsound, hslack⟩ := hs'.release phys (by rw [hphys]; exact hgtr) (by
    intro _
    have hc := h.counted g (h.table_lt g hg).1 hgtr
    rw [hphys, hslack', if_pos rfl]
    linarith)
  refine ⟨hsound, fun f hf => ?_⟩
  rw [hslack f hf, hphys, hslack']
  ring

lemma Torn.leaf (c : Torn v t R r) (hr : r ∈ R) {x : Slot} {pt : ℕ} (hpt : tableOf t.mem r x = some pt) :
    Torn v (destroyPte pt x.1 x.2.1 x.2.2.1 x.2.2.2 t) R r ∧
      CutBelow t (destroyPte pt x.1 x.2.1 x.2.2.1 x.2.2.2 t) r (slotPath x) (slotLast x) ∧
      ¬ present ((destroyPte pt x.1 x.2.1 x.2.2.1 x.2.2.2 t).mem pt (slotLast x)) := by
  have hpte : t.mem pt x.2.2.2 = view t.mem r x := (view_of_table hpt).symm
  have htrva : pmapIsTrampolineVa (vaOf x.1 x.2.1 x.2.2.1 x.2.2.2) = true ↔ x = trampSlot := by
    have := vaSlot_eq_trampSlot (slotVa_lt x)
    rw [vaSlot_slotVa] at this
    exact this.symm
  unfold destroyPte
  simp only [hpte]
  by_cases hp : present (view t.mem r x) = true
  swap
  · rw [if_pos hp]
    refine ⟨c, fun q _ f hw _ => ⟨hw, fun _ _ => rfl⟩, ?_⟩
    rw [← view_of_table hpt]
    exact hp
  rw [if_neg (not_not.mpr hp)]
  have hw := c.sound.rewrite hr hpt (w := 0#64) (by simp)
  have hword : (t.setWord pt x.2.2.2 0#64).mem pt (slotLast x) = 0#64 := by simp [Vm.setWord, slotLast]
  have hrest : ∀ f j, ¬ (f = pt ∧ j = slotLast x) → (t.setWord pt x.2.2.2 0#64).mem f j = t.mem f j := by
    intro f j hfj
    by_cases hf : f = pt
    · subst hf
      have hj : j ≠ x.2.2.2 := fun hj => hfj ⟨rfl, hj⟩
      simp [Vm.setWord, hj]
    · simp [Vm.setWord, hf]
  change Rewritten t (t.setWord pt x.2.2.2 0#64) R r x 0#64 at hw
  generalize t.setWord pt x.2.2.2 0#64 = t' at hw hword hrest ⊢
  -- the reference of the entry, given back unless at the trampoline
  obtain ⟨t'', ht'', hmem, hsound, hmax, htr, hslack⟩ : ∃ t'' : Vm,
      t'' = (if ¬ pmapIsTrampolineVa (vaOf x.1 x.2.1 x.2.2.1 x.2.2.2) = true then
        t'.release (ptePhys (view t.mem r x)) else t') ∧
      t''.mem = t'.mem ∧ Sound t'' R ∧ t''.pmm.maxPhysPage = t'.pmm.maxPhysPage ∧
      t''.trampPhys = t'.trampPhys ∧ ∀ f < t'.pmm.maxPhysPage, slack t'' R f =
        slack t' R f - if x = trampSlot then 0 else hit (view t.mem r x) f := by
    refine ⟨_, rfl, ?_⟩
    by_cases hxt : x = trampSlot
    · rw [if_neg (not_not.mpr (htrva.mpr hxt))]
      exact ⟨rfl, hw.sound, rfl, rfl, fun f _ => by rw [if_pos hxt]; ring⟩
    · rw [if_pos fun h => hxt (htrva.mp h)]
      have hdiv : ptePhys (view t.mem r x) / pageSize = pteFrame (view t.mem r x) := rfl
      have hnt : ¬ t.isTramp (pteFrame (view t.mem r x)) := fun ht => hxt (c.sound.tramp_slot hr hp ht)
      have hone : hit (view t.mem r x) (pteFrame (view t.mem r x)) = 1 := by simp [hit, hp]
      obtain ⟨hs, hsl⟩ := hw.sound.release (ptePhys (view t.mem r x)) (by
        rwa [hdiv, isTramp_congr hw.tramp_eq]) (by
        rw [hdiv]
        intro hlt
        have hc := c.sound.counted (pteFrame (view t.mem r x)) (hw.pmm_eq ▸ hlt) hnt
        rw [hw.slack_eq, hone, hit_zero]
        push_cast
        linarith)
      refine ⟨rfl, hs, pmmReleasePage_maxPhysPage _ _, rfl, fun f hf => ?_⟩
      rw [hsl f hf, hdiv, if_neg hxt, hit]
      simp only [hp, true_and]
      split_ifs <;> rfl
  rw [← ht'']
  have hview : ∀ r' ∈ R, ∀ y, view t''.mem r' y = if r' = r ∧ y = x then 0#64 else view t.mem r' y := by
    rw [hmem]
    exact hw.view_eq
  have hwalks : SameWalks t.mem t''.mem R := by
    rw [hmem]
    exact hw.walks
  refine ⟨⟨hsound, fun r' hr' hne y => ?_, fun f hf => ?_, fun f hf => ?_, fun f hf => ?_, ?_, ?_⟩,
    fun q hq f hwq hpre => ⟨?_, fun j hj => ?_⟩, ?_⟩
  · rw [hview r' hr' y, if_neg fun h => hne h.1]
    exact c.other r' hr' hne y
  · rw [hwalks.tables_eq] at hf
    exact c.tables_sub f hf
  · rw [hmem, hw.data_eq f fun hft => hf (c.tables_sub f hft), c.data_eq f hf]
  · have hf' : f < t'.pmm.maxPhysPage := by rwa [hw.pmm_eq, c.max_eq]
    rw [hslack f hf', hw.slack_eq, c.slack_eq f hf, hview r hr trampSlot, hit_zero]
    by_cases hxt : x = trampSlot
    · rw [if_pos hxt, hxt, if_pos ⟨rfl, rfl⟩, hit_zero]
      ring
    · rw [if_neg hxt, if_neg fun h => hxt h.2.symm]
      push_cast
      ring
  · rw [hmax, hw.pmm_eq, c.max_eq]
  · rw [htr, hw.tramp_eq, c.tramp_eq]
  · rw [hwalks r hr q hq]
    exact hwq
  · rw [hmem]
    refine hrest f j ?_
    rintro ⟨rfl, rfl⟩
    obtain ⟨-, rfl⟩ := c.sound.shape.forest hr hr hq (slotPath_mem x) hwq hpt
    exact hj ⟨rfl, rfl⟩
  · rw [hmem, hword]
    simp

/-- **One table**: an empty table is unlinked and freed. -/
lemma Torn.cut (c : Torn v t R r) (hr : r ∈ R) {p : List ℕ} {i f : ℕ} (hp : p ++ [i] ∈ userPaths)
    (hw : walk childTable t.mem r p = some f) (hpres : present (t.mem f i))
    (hempty : ∀ j < 512, ¬ present (t.mem (pteFrame (t.mem f i)) j)) :
    Torn v ((t.release (ptePhys (t.mem f i))).setWord f i 0#64) R r ∧
      CutBelow t ((t.release (ptePhys (t.mem f i))).setWord f i 0#64) r p i ∧
      ¬ present (((t.release (ptePhys (t.mem f i))).setWord f i 0#64).mem f i) := by
  set g := pteFrame (t.mem f i) with hg
  obtain ⟨-, hlarge⟩ := c.sound.shape.upper hr hp hw hpres
  have hlink : childTable (t.mem f i) = some g := by rw [childTable, if_pos ⟨hpres, hlarge⟩]
  have hwg : walk childTable t.mem r (p ++ [i]) = some g := by rw [walk_concat, hw, Option.bind_some, hlink]
  set m' := Function.update t.mem f (Function.update (t.mem f) i 0#64) with hm'
  obtain ⟨hshape, htables, hwalk, hview, hgone⟩ := c.sound.shape.prune hr hp hw hlink hempty hm'
  have hhit : ∀ r' ∈ R, ∀ x q, hit (view m' r' x) q = hit (view t.mem r' x) q := by
    intro r' hr' x q
    by_cases hx : r' = r ∧ x ∈ under (p ++ [i])
    · obtain ⟨rfl, hx⟩ := hx
      simp [hit, (hgone x hx).1, (hgone x hx).2]
    · rw [hview r' hr' x hx]
  obtain ⟨hsound, hslack⟩ := c.sound.dropTable (mem_nodes hr hp hwg) hshape htables
    (fun q => refs_congr fun r' hr' x => hhit r' hr' x q) (fun r' hr' x hp' => by
      refine ⟨hr', hview r' hr' x ?_⟩
      rintro ⟨rfl, hx⟩
      exact (hgone x hx).2 hp') (show ptePhys (t.mem f i) / pageSize = g from rfl)
  have hstate : (t.release (ptePhys (t.mem f i))).setWord f i 0#64 =
      { t with mem := m' }.release (ptePhys (t.mem f i)) := rfl
  rw [hstate]
  refine ⟨⟨hsound, fun r' hr' hne y => ?_, fun q hq => c.tables_sub q ((htables q).mp hq).1,
    fun q hq => ?_, fun q hq => ?_, (pmmReleasePage_maxPhysPage _ _).trans c.max_eq, c.tramp_eq⟩,
    fun q hq f' hwq hpre => ⟨?_, fun j hj => ?_⟩, ?_⟩ <;> rw [release_mem] <;> dsimp only
  · rw [hview r' hr' y fun h => hne h.1]
    exact c.other r' hr' hne y
  · have hqf : q ≠ f := by
      rintro rfl
      exact hq (c.tables_sub q (mem_nodes hr (userPaths_closed.init_mem hp) hw))
    rw [hm', Function.update_of_ne hqf, c.data_eq q hq]
  · rw [hslack q (c.max_eq.symm ▸ hq), c.slack_eq q hq, hhit r hr]
  · rw [hwalk r hr q hq, if_neg]
    · exact hwq
    · rintro ⟨-, rfl⟩
      exact hpre List.prefix_rfl
  · rw [hm']
    by_cases hff : f' = f
    · subst hff
      obtain ⟨-, rfl⟩ := c.sound.shape.forest hr hr hq (userPaths_closed.init_mem hp) hwq hw
      rw [Function.update_self, Function.update_of_ne fun h => hj ⟨rfl, h⟩]
    · rw [Function.update_of_ne hff]
  · rw [hm', Function.update_self, Function.update_self]
    simp

/-- **The entries of one table**: a loop whose rounds each take out what is below one entry leaves
the table empty. -/
lemma Torn.table {p : List ℕ} (hp : p ∈ userPaths) (body : ℕ → Vm → Vm) {n f : ℕ}
    (c : Torn v t R r) (hw : walk childTable t.mem r p = some f)
    (hbody : ∀ i < n, ∀ t', Torn v t' R r → walk childTable t'.mem r p = some f →
      Torn v (body i t') R r ∧ CutBelow t' (body i t') r p i ∧ ¬ present ((body i t').mem f i)) :
    Torn v (forUpTo body n t) R r ∧ CutAt t (forUpTo body n t) r p ∧
      ∀ i < n, ¬ present ((forUpTo body n t).mem f i) := by
  have hpp : ∀ i, ¬ p ++ [i] <+: p := fun i h => by
    have := h.length_le
    simp at this
  have hloop := forUpTo_invariant (fun k t' =>
      Torn v t' R r ∧ CutAt t t' r p ∧ walk childTable t'.mem r p = some f ∧ ∀ i < k, ¬ present (t'.mem f i))
    ⟨c, fun q _ f' hwq _ => ⟨hwq, fun _ => rfl⟩, hw, fun i hi => absurd hi (Nat.not_lt_zero i)⟩ (by
      rintro i hi t' ⟨hc, hcut, hwp, hgone⟩
      obtain ⟨hc', hbelow, hi'⟩ := hbody i hi t' hc hwp
      obtain ⟨hwp', hwords⟩ := hbelow p hp f hwp (hpp i)
      refine ⟨hc', fun q hq f' hwq hpre => ?_, hwp', fun j hj => ?_⟩
      · obtain ⟨hwq', hsame⟩ := hcut q hq f' hwq hpre
        obtain ⟨hwq'', hsame'⟩ := hbelow q hq f' hwq' fun h => hpre ((List.prefix_append p [i]).trans h)
        refine ⟨hwq'', fun j => (hsame' j ?_).trans (hsame j)⟩
        rintro ⟨rfl, -⟩
        exact hpre List.prefix_rfl
      · by_cases hji : j = i
        · exact hji ▸ hi'
        · rw [hwords j fun h => hji h.2]
          exact hgone j (by omega))
  exact ⟨hloop.1, hloop.2.1, hloop.2.2.2⟩

/-- **One upper entry**: skipped when absent, otherwise the table behind it is emptied and cut. -/
lemma Torn.entry (c : Torn v t R r) (hr : r ∈ R) {p : List ℕ} {i f : ℕ} (hp : p ++ [i] ∈ userPaths)
    (hw : walk childTable t.mem r p = some f) {skip : Prop} [Decidable skip]
    (habs : ¬ present (t.mem f i) = true → skip)
    (hthere : present (t.mem f i) = true → ¬ large (t.mem f i) = true → ¬ skip) {t' : Vm}
    (hrest : walk childTable t.mem r (p ++ [i]) = some (pteFrame (t.mem f i)) →
      Torn v t' R r ∧ CutAt t t' r (p ++ [i]) ∧ ∀ j < 512, ¬ present (t'.mem (pteFrame (t.mem f i)) j)) :
    Torn v (if skip then t else (t'.release (ptePhys (t.mem f i))).setWord f i 0#64) R r ∧
      CutBelow t (if skip then t else (t'.release (ptePhys (t.mem f i))).setWord f i 0#64) r p i ∧
      ¬ present ((if skip then t else
        (t'.release (ptePhys (t.mem f i))).setWord f i 0#64).mem f i) := by
  by_cases hpres : present (t.mem f i) = true
  · obtain ⟨-, hl⟩ := c.sound.shape.upper hr hp hw hpres
    rw [if_neg (hthere hpres hl)]
    obtain ⟨hc', hcut, hempty⟩ := hrest (by
      rw [walk_concat, hw, Option.bind_some, childTable, if_pos ⟨hpres, hl⟩])
    have hpp : ¬ p ++ [i] <+: p := fun h => by
      have := h.length_le
      simp at this
    obtain ⟨hw', hwords⟩ := hcut p (userPaths_closed.init_mem hp) f hw hpp
    rw [← hwords i] at hempty ⊢
    obtain ⟨h1, h2, h3⟩ := hc'.cut hr hp hw' (by rwa [hwords i]) hempty
    refine ⟨h1, fun q hq f' hwq hpre => ?_, h3⟩
    obtain ⟨hwq', hsame⟩ := hcut q hq f' hwq hpre
    obtain ⟨hwq'', hsame'⟩ := h2 q hq f' hwq' hpre
    exact ⟨hwq'', fun j hj => (hsame' j hj).trans (hsame j)⟩
  · rw [if_pos (habs hpres)]
    exact ⟨c, fun q _ f' hwq _ => ⟨hwq, fun _ _ => rfl⟩, hpres⟩

/-! ## The four levels -/

lemma Torn.pt (c : Torn v t R r) (hr : r ∈ R) {a b d pt : ℕ} (ha : a < 256) (hb : b < 512)
    (hd : d < 512) (hw : walk childTable t.mem r [a, b, d] = some pt) :
    Torn v (forUpTo (destroyPte pt a b d) 512 t) R r ∧ CutAt t (forUpTo (destroyPte pt a b d) 512 t) r [a, b, d] ∧
      ∀ j < 512, ¬ present ((forUpTo (destroyPte pt a b d) 512 t).mem pt j) := by
  have hpath : [a, b, d] ∈ userPaths := slotPath_mem (⟨a, ha⟩, ⟨b, hb⟩, ⟨d, hd⟩, 0)
  refine Torn.table hpath _ c hw fun i hi t' c' hw' => ?_
  exact c'.leaf hr (x := (⟨a, ha⟩, ⟨b, hb⟩, ⟨d, hd⟩, ⟨i, hi⟩)) hw'

lemma Torn.pd (c : Torn v t R r) (hr : r ∈ R) {a b pd : ℕ} (ha : a < 256) (hb : b < 512)
    (hw : walk childTable t.mem r [a, b] = some pd) :
    Torn v (destroyPd pd a b t) R r ∧ CutAt t (destroyPd pd a b t) r [a, b] ∧
      ∀ j < 512, ¬ present ((destroyPd pd a b t).mem pd j) := by
  have hpath : [a, b] ∈ userPaths := userPaths_closed.init_mem (slotPath_mem (⟨a, ha⟩, ⟨b, hb⟩, 0, 0))
  refine Torn.table hpath _ c hw fun i hi t' c' hw' => ?_
  exact c'.entry hr (slotPath_mem (⟨a, ha⟩, ⟨b, hb⟩, ⟨i, hi⟩, 0)) hw' (fun h => .inl h)
    (fun hp hl => by simp [hp, hl]) fun hw'' => c'.pt hr ha hb hi hw''

lemma Torn.pdpt (c : Torn v t R r) (hr : r ∈ R) {a pdpt : ℕ} (ha : a < 256)
    (hw : walk childTable t.mem r [a] = some pdpt) :
    Torn v (destroyPdpt pdpt a t) R r ∧ CutAt t (destroyPdpt pdpt a t) r [a] ∧
      ∀ j < 512, ¬ present ((destroyPdpt pdpt a t).mem pdpt j) := by
  have hpath : ∀ i < 512, [a] ++ [i] ∈ userPaths := fun i hi =>
    userPaths_closed.init_mem (slotPath_mem (⟨a, ha⟩, ⟨i, hi⟩, 0, 0))
  refine Torn.table (userPaths_closed.init_mem (hpath 0 (by decide))) _ c hw
    fun i hi t' c' hw' => ?_
  exact c'.entry hr (hpath i hi) hw' (fun h => .inl h) (fun hp hl => by simp [hp, hl])
    fun hw'' => c'.pd hr ha hi hw''

/-! ## `pmap_destroy_user_space` -/

/-- From `v` to `v'` address space `r` was destroyed. -/
structure Destroyed (v v' : Vm) (R : Finset ℕ) (r : ℕ) : Prop where
  sound : Sound v' (R.erase r)
  view_eq : ∀ r' ∈ R.erase r, ∀ x, view v'.mem r' x = view v.mem r' x
  tables_sub : ∀ f, f ∈ tables v'.mem (R.erase r) → f ∈ tables v.mem R
  data_eq : ∀ f, f ∉ tables v.mem R → v'.mem f = v.mem f
  slack_eq : ∀ f < v.pmm.maxPhysPage,
    slack v' (R.erase r) f = slack v R f + hit (view v.mem r trampSlot) f
  max_eq : v'.pmm.maxPhysPage = v.pmm.maxPhysPage
  tramp_eq : v'.trampPhys = v.trampPhys

/-- **What `pmap_destroy_user_space` does.** -/
theorem pmapDestroyUserSpace_spec (h : Sound v R) (hr : r ∈ R) :
    Destroyed v (pmapDestroyUserSpace v (r * pageSize)) R r := by
  unfold pmapDestroyUserSpace
  rw [if_neg (h.root_ne_zero hr), h.frameOf_root hr]
  have hpath : ∀ i < 256, [] ++ [i] ∈ userPaths := fun i hi =>
    userPaths_closed.init_mem (userPaths_closed.init_mem (slotPath_mem (⟨i, hi⟩, 0, 0, 0)))
  obtain ⟨c, -, hempty⟩ := Torn.table userPaths_closed.nil_mem (fun pml4I v =>
      if ¬ present (v.mem r pml4I) then v
      else ((destroyPdpt (pteFrame (v.mem r pml4I)) pml4I v).release (ptePhys (v.mem r pml4I))).setWord
        r pml4I 0#64)
    (Torn.refl h r) (walk_nil r) fun i hi t' c' _ =>
      c'.entry hr (hpath i hi) (walk_nil r) (fun h => h) (fun hp _ => by simp [hp])
        fun hw'' => c'.pdpt hr hi hw''
  have hphys : ptePhys (BitVec.ofNat 64 (r * pageSize)) / pageSize = r := h.frameOf_root hr
  generalize forUpTo _ 256 v = t at c hempty ⊢
  obtain ⟨hshape, htables, hzero⟩ := c.sound.shape.uproot hr hempty
  have hrow : ∀ f, row t.mem r f = 0 := fun f => row_eq_zero fun x => by rw [hzero x, hit_zero]
  have hrefs : ∀ f, refs t.mem (R.erase r) f = refs t.mem R f := by
    intro f
    have hins := refs_insert (m := t.mem) (Finset.notMem_erase r R) f
    rw [Finset.insert_erase hr, hrow, Nat.zero_add] at hins
    exact hins.symm
  obtain ⟨hsound, hslack⟩ := c.sound.dropTable (root_mem_tables hr) hshape htables hrefs
    (fun r' hr' x _ => ⟨Finset.mem_of_mem_erase hr', rfl⟩) hphys
  refine ⟨hsound, fun r' hr' x => c.other r' (Finset.mem_of_mem_erase hr') (Finset.ne_of_mem_erase hr') x,
    fun f hf => c.tables_sub f ((htables f).mp hf).1, c.data_eq, fun f hf => ?_,
    (pmmReleasePage_maxPhysPage _ _).trans c.max_eq, c.tramp_eq⟩
  rw [hslack f (c.max_eq.symm ▸ hf), c.slack_eq f hf, hzero, hit_zero]
  push_cast
  ring

end Chimera
