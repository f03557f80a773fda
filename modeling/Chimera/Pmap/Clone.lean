import Chimera.Pmap.Create

/-!
# Cloning an address space

The four nested loops of `pmap_clone_user_space` visit every page of the source once. `Cloned` says
what has happened after a set `S` of pages: the source's writable entries in `S` are copy-on-write,
the new address space maps the same frames (or, when memory ran out, does not), and the counts have
followed. `Cloned.step` handles one page; the loops only collect their pages.

Two things can go wrong, and `CanClone` excludes them: a mapping of frame `0`, whose success the
loop takes for a failure, and a reference count that reaches its 16-bit ceiling.
-/

namespace Chimera

open Lib

/-- The source's entry after cloning. -/
def sharedEntry (e : BitVec 64) : BitVec 64 := if present e ∧ write e then cowMark e else e

/-- The flags of the new address space's entry. -/
def childFlags (e : BitVec 64) : BitVec 64 :=
  if write e then pageCow else if cow e then pageCow else 0#64

/-- The new address space's entry. -/
def childEntry (e : BitVec 64) : BitVec 64 := leafEntry (ptePhys e) (childFlags e)

lemma childFlags_mask (e : BitVec 64) : childFlags e &&& ptePhysMask = 0#64 := by
  unfold childFlags
  split_ifs <;> decide

lemma frameOf_ptePhys (e : BitVec 64) : frameOf (ptePhys e) = pteFrame e := by
  rw [ptePhys_eq, frameOf_mul (pteFrame_lt e)]

@[simp] lemma pteFrame_childEntry (e : BitVec 64) : pteFrame (childEntry e) = pteFrame e := by
  rw [childEntry, pteFrame_leafEntry _ (childFlags_mask e), frameOf_ptePhys]

@[simp] lemma present_childEntry (e : BitVec 64) : present (childEntry e) = true := by simp [childEntry]

@[simp] lemma write_childEntry (e : BitVec 64) : write (childEntry e) = false := by
  unfold childEntry childFlags
  rw [write_leafEntry]
  split_ifs <;> decide

@[simp] lemma present_sharedEntry (e : BitVec 64) : present (sharedEntry e) = present e := by
  unfold sharedEntry
  split_ifs <;> simp

@[simp] lemma pteFrame_sharedEntry (e : BitVec 64) : pteFrame (sharedEntry e) = pteFrame e := by
  unfold sharedEntry
  split_ifs <;> simp

lemma hit_sharedEntry (e : BitVec 64) (f : ℕ) : hit (sharedEntry e) f = hit e f :=
  hit_congr (present_sharedEntry e) (pteFrame_sharedEntry e) f

variable {e : BitVec 64} {R : Finset ℕ} {dst src g : ℕ} {v v1 : Vm} {x : Slot}

lemma hit_childEntry (hp : present e = true) (f : ℕ) : hit (childEntry e) f = hit e f :=
  hit_congr ((present_childEntry e).trans hp.symm) (pteFrame_childEntry e) f

/-- Cloning address space `src` meets no mapping of frame `0` and no count at its ceiling. -/
def CanClone (v : Vm) (src : ℕ) : Prop :=
  ∀ x, present (view v.mem src x) → pteFrame (view v.mem src x) ≠ 0 ∧
    (pteFrame (view v.mem src x) < v.pmm.maxPhysPage → ¬ v.isTramp (pteFrame (view v.mem src x)) →
      rc v.pmm (pteFrame (view v.mem src x)) + row v.mem src (pteFrame (view v.mem src x)) ≤ 65535)

/-! ## One page into the new address space -/

/-- From `v` to `v'` the empty slot `x` of address space `dst` may have become `w`, with a reference
for it. -/
structure Adopted (v v' : Vm) (R : Finset ℕ) (dst : ℕ) (x : Slot) (w : BitVec 64) : Prop where
  sound : Sound v' R
  view_eq : ∀ r ∈ R, ∀ y, ¬ (r = dst ∧ y = x) → view v'.mem r y = view v.mem r y
  view_new : view v'.mem dst x = 0#64 ∨ view v'.mem dst x = w
  walk_mono : ∀ r ∈ R, ∀ q ∈ userPaths, ∀ f, walk childTable v.mem r q = some f →
    walk childTable v'.mem r q = some f
  used : ∀ f, rc v.pmm f ≠ 0 → f ∉ tables v.mem R → f ∉ tables v'.mem R
  rc_le : ∀ f, rc v.pmm f ≤ rc v'.pmm f
  slack_eq : ∀ f ≠ 0, f < v.pmm.maxPhysPage → ¬ v.isTramp f → slack v' R f = slack v R f
  max_eq : v'.pmm.maxPhysPage = v.pmm.maxPhysPage
  tramp_eq : v'.trampPhys = v.trampPhys

lemma Grown.adopted {v' : Vm} (g : Grown v v' R) (hdst : dst ∈ R)
    (hold : view v.mem dst x = 0#64) (w : BitVec 64) : Adopted v v' R dst x w where
  sound := g.sound
  view_eq r hr y _ := g.view_eq r hr y
  view_new := .inl ((g.view_eq dst hdst x).trans hold)
  walk_mono := g.walk_mono
  used := g.used
  rc_le f := by
    by_cases hf : rc v.pmm f = 0
    · omega
    · rw [g.rc_eq f hf]
  slack_eq f hf0 _ _ := g.slack_eq f hf0
  max_eq := g.max_eq
  tramp_eq := g.tramp_eq

lemma dropped_empty (x : Slot) (new : BitVec 64) (f : ℕ) : dropped x 0#64 new f = 0 := by
  unfold dropped
  split_ifs
  · rfl
  · exact hit_zero f

/-- **Mapping and retaining a frame that is mapped elsewhere**, while its count is below the
ceiling. -/
lemma adopted_of_map (h : Sound v R) (hsrc : src ∈ R)
    (hdst : dst ∈ R) (hp : present (view v.mem src x) = true)
    (hframe : pteFrame (view v.mem src x) = pteFrame e) (hg0 : pteFrame e ≠ 0)
    (hroom : pteFrame e < v.pmm.maxPhysPage → ¬ v.isTramp (pteFrame e) → rc v.pmm (pteFrame e) < 65535)
    (hold : view v.mem dst x = 0#64) {r : ℕ × Vm}
    (hr : r = pmapMapUserPage v (dst * pageSize) (slotVa x) (ptePhys e) (childFlags e)) :
    Adopted v (if r.1 ≠ 0 then { r.2 with pmm := pmmRetainPage r.2.pmm (ptePhys e) } else r.2) R dst x
      (childEntry e) := by
  have hslot : vaSlot (slotVa x) = x := vaSlot_slotVa x
  have hflags := childFlags_mask e
  have hheld : pteFrame e < v.pmm.maxPhysPage → rc v.pmm (pteFrame e) ≠ 0 := by
    intro hlt
    rcases h.held hsrc hp with hh | hh <;> rw [hframe] at hh
    · exact hh
    · omega
  rcases mapUserPage_cases h hdst (slotVa x) (ptePhys e) (childFlags e) with
    ⟨v1, g, heq⟩ | ⟨v1, pt, g, hva, hpt, heq⟩
  · rw [hr, heq]
    exact g.adopted hdst hold _
  rw [hslot] at hpt
  have hne : ptePhys e ≠ 0 := by
    rw [ptePhys_eq]
    unfold pageSize
    omega
  rw [hr, heq]
  rw [if_pos hne]
  obtain ⟨-, hinv, hmax, -, hrcLeaf⟩ := setLeaf_facts g.sound hva (by rwa [hslot]) (ptePhys e) hflags
  have hrc1 : ∀ f, rc (setLeaf v1 pt (slotVa x) (ptePhys e) (childFlags e)).pmm f = rc v1.pmm f := by
    intro f
    rw [hrcLeaf f, hslot, g.view_eq dst hdst x, hold, dropped_empty, Nat.sub_zero]
  set leaf := setLeaf v1 pt (slotVa x) (ptePhys e) (childFlags e) with hleaf
  have hdiv : ptePhys e / pageSize = pteFrame e := rfl
  set extra : ℕ → ℕ := fun f =>
    if f = pteFrame e ∧ f < v1.pmm.maxPhysPage ∧ rc v1.pmm f < 65535 then 1 else 0 with hextra
  have hrcExtra : ∀ f, rc (pmmRetainPage leaf.pmm (ptePhys e)) f = rc leaf.pmm f + extra f := by
    intro f
    rw [pmmRetainPage_rc, hdiv, hmax, hrc1, hextra]
    dsimp only
    split_ifs <;> rfl
  -- the new entry comes with its own reference
  have hextraOne : ∀ f < v.pmm.maxPhysPage, ¬ v.isTramp f → extra f = hit (childEntry e) f := by
    intro f hf ht
    rw [hextra]
    dsimp only
    by_cases hfe : f = pteFrame e
    · subst hfe
      have hlt := hroom hf ht
      rw [if_pos ⟨rfl, g.max_eq.symm ▸ hf, by rwa [g.rc_eq _ (hheld hf)]⟩]
      simp [hit]
    · rw [if_neg fun hx => hfe hx.1, hit, if_neg]
      rintro ⟨-, hx⟩
      exact hfe (by rw [← hx, pteFrame_childEntry])
  have hpinv : (pmmRetainPage leaf.pmm (ptePhys e)).Inv := by
    obtain ⟨L, hL⟩ := hinv
    refine ⟨L, hL.retain fun hlt => ?_⟩
    rw [hdiv, hmax, g.max_eq] at hlt
    rw [hdiv, hrc1, g.rc_eq _ (hheld hlt)]
    exact hheld hlt
  have htab : frameOf (ptePhys e) ∉ tables v1.mem R := by
    rw [frameOf_ptePhys]
    by_cases hlt : pteFrame e < v.pmm.maxPhysPage
    · exact g.used _ (hheld hlt) (hframe ▸ h.shape.leaf_frame hsrc hp)
    · intro hmem
      exact hlt (g.max_eq ▸ (g.sound.table_lt _ hmem).1)
  have hm : Remap v { leaf with pmm := pmmRetainPage leaf.pmm (ptePhys e) } R dst (vaSlot (slotVa x))
      (leafEntry (ptePhys e) (childFlags e)) extra := remap_of_setLeaf g hdst hva
    (by rwa [hslot]) hflags htab
    (fun ht => by
      rw [frameOf_ptePhys, ← hframe] at ht
      rw [hslot]
      exact h.tramp_slot hsrc hp ht)
    rfl hpinv (by rw [pmmRetainPage_maxPhysPage, hmax]) hrcExtra
    (fun hlt ht => by
      rw [frameOf_ptePhys] at hlt ht ⊢
      have hc := h.counted (pteFrame e) hlt ht
      have hone : hit (childEntry e) (pteFrame e) = 1 := by simp [hit]
      rw [g.slack_eq _ hg0, hextraOne _ hlt ht]
      omega)
  rw [hslot] at hm
  refine ⟨hm.sound, fun r hr y hxy => by rw [hm.view_eq r hr y, if_neg hxy], .inr ?_, hm.walk_mono,
    hm.used, fun f => ?_, fun f hf0 hf ht => ?_, hm.max_eq, hm.tramp_eq⟩
  · rw [hm.view_eq dst hdst x, if_pos ⟨rfl, rfl⟩]
    rfl
  · by_cases hf : rc v.pmm f = 0
    · omega
    · rw [hm.rc_eq f hf, hold, dropped_empty]
      omega
  · rw [hm.slack_eq f hf0 hf ht, hold, dropped_empty, hit_zero, hextraOne f hf ht, childEntry]
    push_cast
    ring

/-! ## The pages of the source -/

/-- From `t` to `t'` no table of address space `src` has moved. -/
def Keeps (t t' : Vm) (src : ℕ) : Prop :=
  ∀ q ∈ userPaths, ∀ f, walk childTable t.mem src q = some f → walk childTable t'.mem src q = some f

lemma Keeps.refl (t : Vm) (src : ℕ) : Keeps t t src := fun _ _ _ h => h

lemma Keeps.trans {t t' t'' : Vm} (h : Keeps t t' src) (h' : Keeps t' t'' src) :
    Keeps t t'' src := fun q hq f hw => h' q hq f (h q hq f hw)

/-- From `v` to `v'` the pages `S` of address space `src` were cloned into the empty one `dst`. -/
structure Cloned (v v' : Vm) (R : Finset ℕ) (src dst : ℕ) (S : Set Slot) : Prop where
  sound : Sound v' R
  src_in : ∀ x ∈ S, view v'.mem src x = sharedEntry (view v.mem src x)
  src_out : ∀ x, x ∉ S → view v'.mem src x = view v.mem src x
  dst_in : ∀ x ∈ S, view v'.mem dst x = 0#64 ∨
    (present (view v.mem src x) ∧ view v'.mem dst x = childEntry (view v.mem src x))
  dst_out : ∀ x, x ∉ S → view v'.mem dst x = 0#64
  other : ∀ r ∈ R, r ≠ src → r ≠ dst → ∀ x, view v'.mem r x = view v.mem r x
  used : ∀ f, rc v.pmm f ≠ 0 → f ∉ tables v.mem R → f ∉ tables v'.mem R
  rc_le : ∀ f, rc v.pmm f ≤ rc v'.pmm f
  slack_eq : ∀ f ≠ 0, f < v.pmm.maxPhysPage → ¬ v.isTramp f → slack v' R f = slack v R f
  max_eq : v'.pmm.maxPhysPage = v.pmm.maxPhysPage
  tramp_eq : v'.trampPhys = v.trampPhys

namespace Cloned

variable {t t' : Vm} {S : Set Slot}

lemma refl (h : Sound v R) (hdst : ∀ x, view v.mem dst x = 0#64) : Cloned v v R src dst ∅ :=
  ⟨h, fun _ hx => hx.elim, fun _ _ => rfl, fun _ hx => hx.elim, fun x _ => hdst x,
    fun _ _ _ _ _ => rfl, fun _ _ hf => hf, fun _ => le_rfl, fun _ _ _ _ => rfl, rfl, rfl⟩

section

variable (c : Cloned v t R src dst S)
include c

/-- Pages that are not there need no step. -/
lemma skip {S' : Set Slot}
    (habs : ∀ x ∈ S', ¬ present (view t.mem src x)) (hnew : ∀ x ∈ S', x ∉ S) :
    Cloned v t R src dst (S ∪ S') := by
  refine ⟨c.sound, ?_, fun x hx => c.src_out x fun hxS => hx (.inl hxS), ?_,
    fun x hx => c.dst_out x fun hxS => hx (.inl hxS), c.other, c.used, c.rc_le, c.slack_eq, c.max_eq,
    c.tramp_eq⟩
  · rintro x (hx | hx)
    · exact c.src_in x hx
    · have hout := c.src_out x (hnew x hx)
      have hp := habs x hx
      rw [hout] at hp ⊢
      rw [sharedEntry, if_neg fun hpw => hp hpw.1]
  · rintro x (hx | hx)
    · exact c.dst_in x hx
    · exact .inl (c.dst_out x (hnew x hx))

/-- While a page is still to be cloned, the count of its frame is below the ceiling. -/
lemma rc_lt (hsrc : src ∈ R) (hdst : dst ∈ R)
    (hempty : ∀ x, view v.mem dst x = 0#64) (hv : Sound v R) (hcan : CanClone v src)
    (hx : x ∉ S) (hp : present (view v.mem src x))
    (hlt : pteFrame (view v.mem src x) < v.pmm.maxPhysPage)
    (ht : ¬ v.isTramp (pteFrame (view v.mem src x))) :
    rc t.pmm (pteFrame (view v.mem src x)) < 65535 := by
  have hf0 := (hcan x hp).1
  have hroom := (hcan x hp).2 hlt ht
  have hx1 : hit (view v.mem src x) (pteFrame (view v.mem src x)) = 1 := by simp [hit, hp]
  have htab0 := tabs_of_notMem (hv.shape.leaf_frame hsrc hp)
  have htab : tabs t.mem R (pteFrame (view v.mem src x)) = 0 := by
    refine tabs_of_notMem (c.used _ ?_ (hv.shape.leaf_frame hsrc hp))
    rcases hv.held hsrc hp with hh | hh
    · exact hh
    · omega
  generalize pteFrame (view v.mem src x) = f at *
  -- the new address space holds the frame at most as often as the source, and not yet at `x`
  have hdstrow : row t.mem dst f + 1 ≤ row v.mem src f := by
    have hxd : hit (view t.mem dst x) f = 0 := by rw [c.dst_out x hx, hit_zero]
    have hle : ∀ y, hit (view t.mem dst y) f ≤ hit (view v.mem src y) f := by
      intro y
      by_cases hy : y ∈ S
      · rcases c.dst_in y hy with h0 | ⟨hpy, hc⟩
        · rw [h0, hit_zero]
          exact Nat.zero_le _
        · rw [hc, hit_childEntry hpy]
      · rw [c.dst_out y hy, hit_zero]
        exact Nat.zero_le _
    refine row_lt hle (x := x) ?_
    rw [hx1, hxd]
    exact Nat.zero_lt_one
  have hrest : ∑ r ∈ R.erase dst, row t.mem r f = ∑ r ∈ R.erase dst, row v.mem r f := by
    refine Finset.sum_congr rfl fun r hr => row_congr fun y => ?_
    by_cases hrs : r = src
    · subst hrs
      by_cases hy : y ∈ S
      · rw [c.src_in y hy, hit_sharedEntry]
      · rw [c.src_out y hy]
    · rw [c.other r (Finset.mem_of_mem_erase hr) hrs (Finset.ne_of_mem_erase hr)]
  have hsum : ∀ m, refs m R f = row m dst f + ∑ r ∈ R.erase dst, row m r f := fun m =>
    (Finset.add_sum_erase R (fun r => row m r f) hdst).symm
  have hrow0 : row v.mem dst f = 0 := row_eq_zero fun y => by rw [hempty y, hit_zero]
  have hslack := c.slack_eq f hf0 hlt ht
  unfold slack at hslack
  rw [hsum, hsum, hrest, hrow0, htab, htab0] at hslack
  omega

lemma extend (hsrc : src ∈ R) (hdst : dst ∈ R) (hne : src ≠ dst)
    (hx : x ∉ S) (hp : present (view v.mem src x)) {t1 t2 : Vm}
    (hw : Rewritten t t1 R src x (sharedEntry (view v.mem src x)))
    (ha : Adopted t1 t2 R dst x (childEntry (view v.mem src x))) :
    Cloned v t2 R src dst (S ∪ {x}) := by
  have hout := c.src_out x hx
  have hview : ∀ r ∈ R, ∀ y, ¬ (r = src ∧ y = x) → ¬ (r = dst ∧ y = x) → view t2.mem r y = view t.mem r y := by
    intro r hr y hs hd
    rw [ha.view_eq r hr y hd, hw.view_eq r hr y, if_neg hs]
  have hsrcx : view t2.mem src x = sharedEntry (view v.mem src x) := by
    rw [ha.view_eq src hsrc x fun hxy => hne hxy.1, hw.view_eq src hsrc x, if_pos ⟨rfl, rfl⟩]
  refine ⟨ha.sound, ?_, fun y hy => ?_, ?_, fun y hy => ?_, fun r hr hrs hrd y => ?_,
    fun f hrcf hft => ?_, fun f => ?_, fun f hf0 hf ht => ?_, ?_, ?_⟩
  · rintro y (hy | rfl)
    · have hyx : y ≠ x := fun hyx => hx (hyx ▸ hy)
      rw [hview src hsrc y (fun h => hyx h.2) fun h => hyx h.2, c.src_in y hy]
    · exact hsrcx
  · have hyx : y ≠ x := fun hyx => hy (.inr hyx)
    rw [hview src hsrc y (fun h => hyx h.2) fun h => hyx h.2]
    exact c.src_out y fun hyS => hy (.inl hyS)
  · rintro y (hy | rfl)
    · have hyx : y ≠ x := fun hyx => hx (hyx ▸ hy)
      rw [hview dst hdst y (fun h => hyx h.2) fun h => hyx h.2]
      exact c.dst_in y hy
    · rcases ha.view_new with h0 | hc
      · exact .inl h0
      · exact .inr ⟨hp, hc⟩
  · have hyx : y ≠ x := fun hyx => hy (.inr hyx)
    rw [hview dst hdst y (fun h => hyx h.2) fun h => hyx h.2]
    exact c.dst_out y fun hyS => hy (.inl hyS)
  · rw [hview r hr y (fun h => hrs h.1) fun h => hrd h.1]
    exact c.other r hr hrs hrd y
  · refine ha.used f ?_ ?_
    · have hle := c.rc_le f
      rw [hw.pmm_eq]
      omega
    · rw [hw.walks.tables_eq]
      exact c.used f hrcf hft
  · have hle := ha.rc_le f
    rw [hw.pmm_eq] at hle
    exact (c.rc_le f).trans hle
  · have hfl : f < t1.pmm.maxPhysPage := by rwa [hw.pmm_eq, c.max_eq]
    rw [ha.slack_eq f hf0 hfl (mt (isTramp_congr (hw.tramp_eq.trans c.tramp_eq) f).mp ht), hw.slack_eq, hit_sharedEntry, hout,
      c.slack_eq f hf0 hf ht]
    ring
  · rw [ha.max_eq, hw.pmm_eq, c.max_eq]
  · rw [ha.tramp_eq, hw.tramp_eq, c.tramp_eq]

/-- **One page**, as the innermost loop body does it. -/
theorem step (hsrc : src ∈ R) (hdst : dst ∈ R) (hne : src ≠ dst)
    (hempty : ∀ x, view v.mem dst x = 0#64) (hv : Sound v R) (hcan : CanClone v src)
    (hx : x ∉ S) {pt : ℕ} (hpt : tableOf t.mem src x = some pt) :
    Cloned v (clonePte (dst * pageSize) pt x.1 x.2.1 x.2.2.1 x.2.2.2 t) R src dst (S ∪ {x}) ∧
      Keeps t (clonePte (dst * pageSize) pt x.1 x.2.1 x.2.2.1 x.2.2.2 t) src := by
  have hout := c.src_out x hx
  have hpte : t.mem pt x.2.2.2 = view t.mem src x := (view_of_table hpt).symm
  unfold clonePte
  simp only [hpte]
  by_cases hp : present (view t.mem src x) = true
  swap
  · rw [if_pos (.inl hp)]
    refine ⟨c.skip ?_ ?_, Keeps.refl t src⟩
    · rintro y rfl
      exact hp
    · rintro y rfl
      exact hx
  have huser := c.sound.shape.leaf_user hsrc hp
  rw [if_neg (by simp [hp, huser])]
  -- the source's own entry
  have hw : Rewritten t (if write (view t.mem src x) = true then
      t.setWord pt x.2.2.2 (cowMark (view t.mem src x)) else t) R src x
      (sharedEntry (view t.mem src x)) := by
    split_ifs with hwr
    · rw [sharedEntry, if_pos ⟨hp, hwr⟩]
      exact c.sound.rewrite hsrc hpt fun _ => ⟨by simpa using huser, hp, by simp⟩
    · rw [sharedEntry, if_neg fun h => hwr h.2]
      exact Rewritten.refl c.sound src x
  generalize (if write (view t.mem src x) = true then
    t.setWord pt x.2.2.2 (cowMark (view t.mem src x)) else t) = t1 at hw ⊢
  have hview1 := hw.view_eq src hsrc x
  rw [if_pos ⟨rfl, rfl⟩] at hview1
  rw [hout] at hp hw hview1 ⊢
  have ha := adopted_of_map (r := pmapMapUserPage t1 (dst * pageSize) (slotVa x)
      (ptePhys (view v.mem src x)) (childFlags (view v.mem src x))) hw.sound hsrc hdst
    (by simpa [hview1] using hp)
    (by simp [hview1]) (hcan x hp).1 (fun hlt ht => by
      rw [hw.pmm_eq, c.max_eq] at hlt
      rw [hw.pmm_eq]
      exact c.rc_lt hsrc hdst hempty hv hcan hx hp hlt
        (mt (isTramp_congr (hw.tramp_eq.trans c.tramp_eq) _).mpr ht))
    (by rw [hw.view_eq dst hdst x, if_neg fun hxy => hne hxy.1.symm, c.dst_out x hx]) rfl
  refine ⟨c.extend hsrc hdst hne hx hp hw ha, fun q hq f hwq => ?_⟩
  refine ha.walk_mono src hsrc q hq f ?_
  rw [hw.walks src hsrc q hq]
  exact hwq

end

end Cloned

/-! ## The loops -/

section loops

/-- What the copying loops need of an invariant `I S t`, with `S` the pages done: it holds of the source
what a page table is, it passes over absent pages, and the innermost body keeps it. -/
structure CloneLoop (I : Set Slot → Vm → Prop) (src dst : ℕ) : Prop where
  upper : ∀ {S t p i f}, I S t → p ++ [i] ∈ userPaths → walk childTable t.mem src p = some f →
    present (t.mem f i) → user (t.mem f i) ∧ ¬ large (t.mem f i)
  skip : ∀ {S t} S', I S t → (∀ x ∈ S', ¬ present (view t.mem src x)) → (∀ x ∈ S', x ∉ S) → I (S ∪ S') t
  step : ∀ {S t x pt}, I S t → x ∉ S → tableOf t.mem src x = some pt →
    I (S ∪ {x}) (clonePte (dst * pageSize) pt x.1 x.2.1 x.2.2.1 x.2.2.2 t) ∧
      Keeps t (clonePte (dst * pageSize) pt x.1 x.2.1 x.2.2.1 x.2.2.2 t) src

namespace CloneLoop

variable {I : Set Slot → Vm → Prop} {t : Vm} {S : Set Slot} {p : List ℕ} {a b : ℕ}

lemma table (hlen : p.length < 4) (body : ℕ → Vm → Vm) {n : ℕ}
    (hn : n = if p.length = 0 then 256 else 512) (h : I S t) (hS : ∀ x ∈ under p, x ∉ S)
    (hbody : ∀ i < n, ∀ t' S', I S' t' → Keeps t t' src → (∀ x ∈ under (p ++ [i]), x ∉ S') →
      I (S' ∪ under (p ++ [i])) (body i t') ∧ Keeps t' (body i t') src) :
    I (S ∪ under p) (forUpTo body n t) ∧ Keeps t (forUpTo body n t) src := by
  refine forUpTo_under (fun S' t' => I S' t' ∧ Keeps t t' src) hlen hn ⟨h, Keeps.refl t src⟩ ?_
  rintro i hi S' t' hnew ⟨h', k⟩
  obtain ⟨h'', k'⟩ := hbody i hi t' S' h' k fun x hx hxS => hS x (mem_under_concat.mp hx).1 (hnew x hx hxS)
  exact ⟨h'', k.trans k'⟩

section

variable (L : CloneLoop I src dst) (h : I S t)
include L h

/-- One upper entry: skipped when absent, otherwise the table behind it. -/
lemma entry {i f : ℕ} (hp : p ++ [i] ∈ userPaths)
    (hw : walk childTable t.mem src p = some f) (hS : ∀ x ∈ under (p ++ [i]), x ∉ S) {skip : Prop}
    [Decidable skip] (habs : ¬ present (t.mem f i) = true → skip)
    (hthere : present (t.mem f i) = true → user (t.mem f i) = true → ¬ large (t.mem f i) = true → ¬ skip)
    {t' : Vm}
    (hrest : walk childTable t.mem src (p ++ [i]) = some (pteFrame (t.mem f i)) →
      I (S ∪ under (p ++ [i])) t' ∧ Keeps t t' src) :
    I (S ∪ under (p ++ [i])) (if skip then t else t') ∧ Keeps t (if skip then t else t') src := by
  by_cases hpres : present (t.mem f i) = true
  · obtain ⟨hu, hl⟩ := L.upper h hp hw hpres
    rw [if_neg (hthere hpres hu hl)]
    refine hrest ?_
    rw [walk_concat, hw, Option.bind_some, childTable, if_pos ⟨hpres, hl⟩]
  · rw [if_pos (habs hpres)]
    refine ⟨L.skip _ h (fun x hx => ?_) hS, Keeps.refl t src⟩
    rw [view_under_absent hp hw hpres hx]
    simp

lemma pt {d pt : ℕ} (ha : a < 256) (hb : b < 512) (hd : d < 512)
    (hw : walk childTable t.mem src [a, b, d] = some pt) (hS : ∀ x ∈ under [a, b, d], x ∉ S) :
    I (S ∪ under [a, b, d]) (forUpTo (clonePte (dst * pageSize) pt a b d) 512 t) ∧
      Keeps t (forUpTo (clonePte (dst * pageSize) pt a b d) 512 t) src := by
  refine table (by simp) _ rfl h hS fun i hi t' S' h' k' hS' => ?_
  have hpath : [a, b, d] ∈ userPaths := slotPath_mem (⟨a, ha⟩, ⟨b, hb⟩, ⟨d, hd⟩, ⟨i, hi⟩)
  have hfull : under ([a, b, d] ++ [i]) = {(⟨a, ha⟩, ⟨b, hb⟩, ⟨d, hd⟩, ⟨i, hi⟩)} :=
    under_full (x := (⟨a, ha⟩, ⟨b, hb⟩, ⟨d, hd⟩, ⟨i, hi⟩))
  rw [hfull] at hS' ⊢
  exact L.step h' (hS' _ rfl) (k' _ hpath _ hw)

lemma pd {pd : ℕ} (ha : a < 256) (hb : b < 512)
    (hw : walk childTable t.mem src [a, b] = some pd) (hS : ∀ x ∈ under [a, b], x ∉ S) :
    I (S ∪ under [a, b]) (clonePd (dst * pageSize) pd a b t) ∧ Keeps t (clonePd (dst * pageSize) pd a b t) src := by
  refine table (by simp) _ rfl h hS fun i hi t' S' h' k' hS' => ?_
  have hpath : [a, b] ++ [i] ∈ userPaths := slotPath_mem (⟨a, ha⟩, ⟨b, hb⟩, ⟨i, hi⟩, 0)
  refine L.entry h' hpath (k' _ (userPaths_closed.init_mem hpath) _ hw) hS' (fun h => .inl h)
    (fun hp hu hl => by simp [hp, hu, hl]) fun hw' => ?_
  exact L.pt h' ha hb hi hw' hS'

lemma pdpt {pdpt : ℕ} (ha : a < 256)
    (hw : walk childTable t.mem src [a] = some pdpt) (hS : ∀ x ∈ under [a], x ∉ S) :
    I (S ∪ under [a]) (clonePdpt (dst * pageSize) pdpt a t) ∧ Keeps t (clonePdpt (dst * pageSize) pdpt a t) src := by
  refine table (by simp) _ rfl h hS fun i hi t' S' h' k' hS' => ?_
  have hpath : [a] ++ [i] ∈ userPaths := userPaths_closed.init_mem (slotPath_mem (⟨a, ha⟩, ⟨i, hi⟩, 0, 0))
  refine L.entry h' hpath (k' _ (userPaths_closed.init_mem hpath) _ hw) hS' (fun h => .inl h)
    (fun hp hu hl => by simp [hp, hu, hl]) fun hw' => ?_
  exact L.pd h' ha hi hw' hS'

end

/-- **The copying loop** does every page of the source. -/
theorem pml4 (L : CloneLoop I src dst) (h : I ∅ t) (hroot : frameOf (src * pageSize) = src) :
    I Set.univ (clonePml4 (dst * pageSize) (src * pageSize) t) := by
  have hall := table (p := []) (by simp) (fun pml4I v =>
      if ¬ present (v.mem (frameOf (src * pageSize)) pml4I) ∨ ¬ user (v.mem (frameOf (src * pageSize)) pml4I) then v
      else clonePdpt (dst * pageSize) (pteFrame (v.mem (frameOf (src * pageSize)) pml4I)) pml4I v)
    rfl h (fun _ _ h => h.elim) fun i hi t' S' h' k' hS' => by
      rw [hroot]
      have hpath : [] ++ [i] ∈ userPaths :=
        userPaths_closed.init_mem (userPaths_closed.init_mem (slotPath_mem (⟨i, hi⟩, 0, 0, 0)))
      refine L.entry h' hpath (walk_nil src) hS' (fun h => .inl h)
        (fun hp hu _ => by simp [hp, hu]) fun hw' => ?_
      exact L.pdpt h' hi hw' hS'
  have huniv : (∅ : Set Slot) ∪ under [] = Set.univ := by
    rw [Set.empty_union]
    exact Set.eq_univ_of_forall mem_under_nil
  rw [huniv] at hall
  exact hall.1

end CloneLoop

/-- **The copying loop**: every page of the source. -/
theorem cloned_clonePml4 {v : Vm} {R : Finset ℕ} {src dst : ℕ} (hsrc : src ∈ R) (hdst : dst ∈ R)
    (hne : src ≠ dst) (hempty : ∀ x, view v.mem dst x = 0#64) (hv : Sound v R) (hcan : CanClone v src) :
    Cloned v (clonePml4 (dst * pageSize) (src * pageSize) v) R src dst Set.univ := by
  have L : CloneLoop (fun S t => Cloned v t R src dst S) src dst :=
    ⟨fun c hp hw => c.sound.shape.upper hsrc hp hw, fun _ c habs hnew => c.skip habs hnew,
      fun c hx hpt => c.step hsrc hdst hne hempty hv hcan hx hpt⟩
  exact L.pml4 (Cloned.refl hv hempty) (hv.frameOf_root hsrc)

end loops

/-! ## `pmap_clone_user_space` -/

/-- From `v` to `v'` address space `src` was cloned into the new one at frame `g`. -/
structure Forked (v v' : Vm) (R : Finset ℕ) (src g : ℕ) : Prop where
  sound : Sound v' (insert g R)
  src_view : ∀ x, view v'.mem src x = sharedEntry (view v.mem src x)
  dst_view : ∀ x, view v'.mem g x = 0#64 ∨
    (present (view v.mem src x) ∧ view v'.mem g x = childEntry (view v.mem src x)) ∨
    (x = trampSlot ∧ v'.trampPhys ≠ 0 ∧ view v'.mem g x = leafEntry v'.trampPhys pageUser)
  other : ∀ r ∈ R, r ≠ src → ∀ x, view v'.mem r x = view v.mem r x
  used : ∀ f, rc v.pmm f ≠ 0 → f ∉ tables v.mem R → f ∉ tables v'.mem (insert g R)
  slack_ge : ∀ f ≠ 0, f < v.pmm.maxPhysPage → ¬ v'.isTramp f → slack v R f ≤ slack v' (insert g R) f
  slack_le : ∀ f ≠ 0, f < v.pmm.maxPhysPage → ¬ v'.isTramp f →
    slack v' (insert g R) f ≤ slack v R f + hit (view v.mem src trampSlot) f
  max_eq : v'.pmm.maxPhysPage = v.pmm.maxPhysPage
  tramp_eq : v.trampPhys ≠ 0 → v'.trampPhys = v.trampPhys

/-- The three parts of a clone in a row. -/
lemma forked_of_parts {v2 v3 : Vm} (hsrc : src ∈ R)
    (p : Planted v v1 R g) (c : Cloned v1 v2 (insert g R) src g Set.univ)
    (i : Installed v2 v3 (insert g R) g) : Forked v v3 R src g := by
  have hne : src ≠ g := fun heq => p.notMem (heq ▸ hsrc)
  have hsrc' : src ∈ insert g R := Finset.mem_insert_of_mem hsrc
  have hg : g ∈ insert g R := Finset.mem_insert_self g R
  have hrc1 : ∀ f, rc v.pmm f ≠ 0 → rc v1.pmm f = rc v.pmm f := fun f hf =>
    (p.rc_eq f).trans (if_neg fun hfg : f = g => hf (hfg ▸ p.fresh))
  have htr2 : v2.trampPhys = v.trampPhys := c.tramp_eq.trans p.tramp_eq
  have hnt : ∀ f, ¬ v3.isTramp f → ¬ v1.isTramp f := by
    rintro f hn ⟨hx, hf⟩
    have h2 : v2.trampPhys ≠ 0 := c.tramp_eq.symm ▸ hx
    refine hn ⟨(i.tramp_eq h2).symm ▸ h2, ?_⟩
    rw [i.tramp_eq h2, c.tramp_eq]
    exact hf
  have htrampHit : ∀ f, ¬ v3.isTramp f → hit (view v3.mem g trampSlot) f ≤ hit (view v2.mem g trampSlot) f := by
    intro f hn
    rcases i.tramp_view with hold | ⟨hx, hnew⟩
    · rw [hold]
    · rw [hnew, hit_trampLeaf hn hx]
      exact Nat.zero_le _
  have htrampSrc : ∀ f, hit (view v2.mem g trampSlot) f ≤ hit (view v.mem src trampSlot) f := by
    intro f
    rcases c.dst_in trampSlot trivial with h0 | ⟨hp, hc⟩
    · rw [h0, hit_zero]
      exact Nat.zero_le _
    · rw [hc, hit_childEntry hp, p.view_eq src hsrc]
  have hslack : ∀ f ≠ 0, f < v.pmm.maxPhysPage → ¬ v3.isTramp f →
      slack v3 (insert g R) f = slack v R f + hit (view v2.mem g trampSlot) f -
        hit (view v3.mem g trampSlot) f := by
    intro f hf0 hf hn
    have hf1 : f < v1.pmm.maxPhysPage := p.max_eq.symm ▸ hf
    rw [i.slack_eq f hf0 (c.max_eq.symm ▸ hf1) hn, c.slack_eq f hf0 hf1 (hnt f hn), p.slack_eq]
  refine ⟨i.sound, fun x => ?_, fun x => ?_, fun r hr hrs x => ?_, fun f hrcf hft => ?_,
    fun f hf0 hf hn => ?_, fun f hf0 hf hn => ?_, ?_, fun ht => ?_⟩
  · rw [i.view_eq src hsrc' x fun hx => hne hx.1, c.src_in x trivial, p.view_eq src hsrc]
  · by_cases hx : x = trampSlot ∧ v3.trampPhys ≠ 0 ∧ view v3.mem g x = leafEntry v3.trampPhys pageUser
    · exact .inr (.inr hx)
    · have hsame : view v3.mem g x = view v2.mem g x := by
        by_cases hxt : x = trampSlot
        · subst hxt
          rcases i.tramp_view with hold | hnew
          · exact hold
          · exact absurd ⟨rfl, hnew⟩ hx
        · exact i.view_eq g hg x fun hx => hxt hx.2
      rw [hsame, ← p.view_eq src hsrc]
      rcases c.dst_in x trivial with h0 | hc
      · exact .inl h0
      · exact .inr (.inl hc)
  · have hrg : r ≠ g := fun heq => p.notMem (heq ▸ hr)
    rw [i.view_eq r (Finset.mem_insert_of_mem hr) x fun hx => hrg hx.1,
      c.other r (Finset.mem_insert_of_mem hr) hrs hrg, p.view_eq r hr]
  · refine i.used f ?_ (c.used f ?_ ?_)
    · have hle := c.rc_le f
      rw [hrc1 f hrcf] at hle
      omega
    · rwa [hrc1 f hrcf]
    · rw [p.tables_eq]
      rintro (hx | hx)
      · exact hrcf (hx ▸ p.fresh)
      · exact hft hx
  · have := htrampHit f hn
    rw [hslack f hf0 hf hn]
    omega
  · have := htrampSrc f
    rw [hslack f hf0 hf hn]
    omega
  · rw [i.max_eq, c.max_eq, p.max_eq]
  · rw [i.tramp_eq (htr2.symm ▸ ht), htr2]

/-- Nothing that matters for cloning changes when the new PML4 is made. -/
lemma CanClone.planted (hcan : CanClone v src) (h : Sound v R)
    (hsrc : src ∈ R) (p : Planted v v1 R g) : CanClone v1 src := by
  intro x hp
  have hview := p.view_eq src hsrc
  have hrow : ∀ f, row v1.mem src f = row v.mem src f := fun f => row_congr fun y => by rw [hview y]
  rw [hview x] at hp ⊢
  have hg : pteFrame (view v.mem src x) ≠ g := (h.fresh p.lt_max p.fresh).2.1 src hsrc x hp
  rw [p.max_eq, p.rc_eq, if_neg hg, hrow]
  exact ⟨(hcan x hp).1, fun hlt ht => (hcan x hp).2 hlt (mt (isTramp_congr p.tramp_eq _).mpr ht)⟩

/-- **What `pmap_clone_user_space` does**: it fails, or makes a copy that shares every page. -/
theorem pmapCloneUserSpace_spec (h : Sound v R) (hsrc : src ∈ R) (hcan : CanClone v src) :
    ((pmapCloneUserSpace v (src * pageSize)).1 = 0 ∧ Grown v (pmapCloneUserSpace v (src * pageSize)).2 R) ∨
      ∃ g, (pmapCloneUserSpace v (src * pageSize)).1 = g * pageSize ∧
        Forked v (pmapCloneUserSpace v (src * pageSize)).2 R src g := by
  unfold pmapCloneUserSpace
  rw [if_neg (h.root_ne_zero hsrc)]
  obtain ⟨hfail, l⟩ | ⟨g, hg, a⟩ := allocPage_cases h.inv
  · left
    simp only [hfail, if_true, true_and]
    exact grown_of_allocFailed h l
  · right
    simp only [hg, a.ok, Bool.false_eq_true, if_false]
    refine ⟨g, rfl, ?_⟩
    have p := planted_newPml4 h a (src * pageSize)
    generalize newPml4 { v with pmm := (pmmAllocPage v.pmm).2 } (g * pageSize) (src * pageSize) = v1
      at p ⊢
    have hne : src ≠ g := fun heq => p.notMem (heq ▸ hsrc)
    have c := cloned_clonePml4 (Finset.mem_insert_of_mem hsrc) (Finset.mem_insert_self g R) hne p.view_new
      p.sound (hcan.planted h hsrc p)
    exact forked_of_parts hsrc p c (trampolineInstall_spec c.sound (Finset.mem_insert_self g R))

end Chimera
