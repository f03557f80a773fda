import Mathlib.Data.Nat.Bitwise
import Chimera.Vfs.Model

/-!
# The registry is a finite map

`RegistryRun` is any sequence of calls of `vfs_register` and `vfs_unregister`, with the latest
registration of each path. The table holds exactly those registrations, each in one slot. A new path is
refused though fewer than 16384 are registered exactly if no slot was left unused but some are cleared
(**`registry_refines_map`**): a cleared slot is taken again only if the search ends at an unused one.
-/

namespace Chimera

open Lib Probing

/-- Calls of `vfs_register`, each with its part under the lock (the directories above a path are
registered by calls of their own), and of `vfs_unregister`; `latest` is the last registration of a path
after which it was not unregistered. -/
inductive RegistryRun : RegistryTable → (PathName → Option VnodeRef) → Prop where
  | start : RegistryRun (fun _ => .unused) fun _ => none
  | register {t t' : RegistryTable} {latest : PathName → Option VnodeRef} (p : PathName) (vp : VnodeRef) :
      RegistryRun t latest → registryInsert t p vp = some t' →
      RegistryRun t' (Function.update latest p (some vp))
  | unregister {t t' : RegistryTable} {latest : PathName → Option VnodeRef} (p : PathName) :
      RegistryRun t latest → registryRemove t p = some t' →
      RegistryRun t' (Function.update latest p none)
  | unregisterMissing {t : RegistryTable} {latest : PathName → Option VnodeRef} (p : PathName) :
      RegistryRun t latest → registryRemove t p = none →
      RegistryRun t (Function.update latest p none)

/-- As many paths are registered as the table has slots. -/
def AllRegistered (latest : PathName → Option VnodeRef) : Prop :=
  ∃ paths : Finset PathName, paths.card = registrySize ∧ ∀ p ∈ paths, latest p ≠ none

/-- There is room for a path: it is registered, some slot is unused, or no slot is cleared. -/
def HasRoom (t : RegistryTable) (latest : PathName → Option VnodeRef) (p : PathName) : Prop :=
  latest p ≠ none ∨ (∃ i, i < registrySize ∧ t i = .unused) ∨ ∀ i, i < registrySize → t i ≠ .cleared

variable {t t' : RegistryTable} {latest : PathName → Option VnodeRef}

lemma registrySize_pos : 0 < registrySize := by decide

/-- **What every run keeps.** -/
lemma RegistryRun.inv (h : RegistryRun t latest) :
    Probed registrySize (fun p => (vfsHash p).toNat) t ∧ Holds registrySize t latest := by
  induction h with
  | start => exact ⟨probed_unused, holds_unused⟩
  | register p vp _ hins ih => exact insert_eq_some registrySize_pos ih.1 ih.2 hins
  | unregister p _ hrem ih => exact remove_eq_some registrySize_pos ih.1 ih.2 hrem
  | unregisterMissing p _ hrem ih =>
    rw [Function.update_eq_self_iff.mpr (remove_eq_none registrySize_pos ih.1 ih.2 hrem).symm]
    exact ih

variable {vp : VnodeRef} {s s' : Vfs} {fuel : ℕ} {cwd : Option CwdNode}

/-- **When a path is refused**: if it is new, and no slot is unused. -/
lemma registryInsert_eq_none (hm : Holds registrySize t latest) {p : PathName} :
    registryInsert t p vp = none ↔ latest p = none ∧ ∀ i, i < registrySize → t i ≠ .unused := by
  rw [registryInsert, insert_eq_none registrySize_pos]
  constructor
  · intro hall
    refine ⟨Option.eq_none_iff_forall_ne_some.mpr fun v hv => ?_, fun i hi => (hall i hi).1⟩
    obtain ⟨i, hi, hslot⟩ := (hm p v).mp hv
    exact (hall i hi).2 v hslot
  · rintro ⟨hnew, hall⟩ i hi
    refine ⟨hall i hi, fun w hslot => ?_⟩
    exact nomatch hnew.symm.trans ((hm p w).mpr ⟨i, hi, hslot⟩)

/-- With no slot unused and none cleared, all are in use. -/
lemma allRegistered_of_full (h : RegistryRun t latest) (hunused : ∀ i, i < registrySize → t i ≠ .unused)
    (hcleared : ∀ i, i < registrySize → t i ≠ .cleared) : AllRegistered latest := by
  refine card_of_all_used h.inv.1 h.inv.2 fun i hi => ?_
  cases hslot : t i with
  | unused => exact absurd hslot (hunused i hi)
  | cleared => exact absurd hslot (hcleared i hi)
  | used k v => exact ⟨k, v, rfl⟩

lemma not_allRegistered (h : RegistryRun t latest) {i : ℕ} (hi : i < registrySize)
    (hfree : ∀ k v, t i ≠ .used k v) : ¬AllRegistered latest := by
  rintro ⟨paths, hcard, hpaths⟩
  exact (card_lt_of_not_used h.inv.2 hi hfree hpaths).ne hcard

/-- **Room** is what registration needs, to fail only when the table is full of paths. -/
lemma refused_iff_hasRoom (h : RegistryRun t latest) (p : PathName) (vp : VnodeRef) :
    (registryInsert t p vp = none → AllRegistered latest) ↔ HasRoom t latest p := by
  rw [registryInsert_eq_none h.inv.2]
  constructor
  · intro hfail
    by_contra hroom
    rw [HasRoom, not_or, not_or, not_not] at hroom
    obtain ⟨hnew, hunused, hcleared⟩ := hroom
    push Not at hunused hcleared
    obtain ⟨i, hi, hslot⟩ := hcleared
    exact not_allRegistered h hi (fun k v => hslot.trans_ne nofun) (hfail ⟨hnew, hunused⟩)
  · rintro hroom ⟨hnew, hunused⟩
    rcases hroom with hold | ⟨i, hi, hslot⟩ | hcleared
    · exact absurd hnew hold
    · exact absurd hslot (hunused i hi)
    · exact allRegistered_of_full h hunused hcleared

/-- **The registry is a finite map**: it gives each path its latest registration, holds it in one slot, and
refuses one only if 16384 are registered, the last exactly as long as there is room. -/
theorem registry_refines_map (t : RegistryTable) (latest : PathName → Option VnodeRef)
    (h : RegistryRun t latest) :
    (∀ p, lookupExact t p = latest p) ∧
    (∀ i j p v w, i < registrySize → j < registrySize → t i = .used p v → t j = .used p w → i = j) ∧
    ∀ p vp, (registryInsert t p vp = none → AllRegistered latest) ↔ HasRoom t latest p :=
  ⟨fun p => find_eq registrySize_pos h.inv.1 h.inv.2 p, h.inv.1.one, refused_iff_hasRoom h⟩

theorem registry_refines_map_usr :
    ∃ t latest, RegistryRun t latest ∧ lookupExact t "/usr".toList = some (.other 0) := by
  have hfits : registryInsert (fun _ => .unused) "/usr".toList (.other 0) ≠ none := fun hfail =>
    ((registryInsert_eq_none holds_unused).mp hfail).2 0 registrySize_pos rfl
  obtain ⟨t, ht⟩ := Option.ne_none_iff_exists'.mp hfits
  have hrun := RegistryRun.start.register "/usr".toList (.other 0) ht
  refine ⟨t, _, hrun, ?_⟩
  rw [(registry_refines_map t _ hrun).1, Function.update_self]

/-! ## The calls of the name space are such runs -/

/-- The table of a state has come about by registrations. -/
def Registered (s : Vfs) : Prop := ∃ latest, RegistryRun s.registry latest

lemma registerEntry_registered (hs : Registered s) (norm : PathName) (vp : VnodeRef) :
    Registered (registerEntry s norm vp).2 := by
  obtain ⟨latest, h⟩ := hs
  rw [registerEntry]
  cases hins : registryInsert s.registry norm vp with
  | none => exact ⟨latest, h⟩
  | some t => exact ⟨_, h.register norm vp hins⟩

lemma linkChild_registry {dvp : VnodeRef} (h : linkChild fuel s dvp vp = some s') : s'.registry = s.registry := by
  rw [linkChild] at h
  split at h
  · cases h
  · cases h
    rfl
  · cases h
    rfl

lemma linkParent_registry {norm : PathName} (h : linkParent cwd fuel s norm vp = some s')
    : s'.registry = s.registry := by
  rw [linkParent] at h
  cases hdir : vfsLookup cwd s (parentDir norm) with
  | none =>
    rw [hdir] at h
    cases h
    rfl
  | some dvp =>
    rw [hdir] at h
    dsimp only at h
    split_ifs at h
    · cases h
      rfl
    · exact linkChild_registry h

/-- A directory vnode is made without the table. -/
lemma vfsCreateDirVnode_registry {name : PathName} {r : VnodeRef × Vfs} (h : vfsCreateDirVnode name s = some r)
    : r.2.registry = s.registry := by
  rw [vfsCreateDirVnode] at h
  split_ifs at h
  cases h
  rfl

/-- What each call of `register` keeps, the loop over the directories above keeps. -/
lemma vfsEnsureParentDirs_keeps {P : Vfs → Prop} {register : Vfs → PathName → VnodeRef → Option Vfs}
    {path : PathName} (hreg : ∀ s p v s', P s → register s p v = some s' → P s')
    (hdir : ∀ s name r, P s → vfsCreateDirVnode name s = some r → P r.2)
    (h : vfsEnsureParentDirs cwd register path s = some s') (hs : P s) : P s' := by
  have hstep : ∀ i s s', ensureParentDir cwd register path s i = some s' → P s → P s' := by
    intro i s s' h hs
    rw [ensureParentDir] at h
    split_ifs at h with hslash
    · cases hfound : vfsLookup cwd s (path.take i) with
      | some vp =>
        rw [hfound] at h
        exact Option.some.inj h ▸ hs
      | none =>
        rw [hfound] at h
        cases hmade : vfsCreateDirVnode (baseName (path.take i)) s with
        | none =>
          rw [hmade] at h
          exact Option.some.inj h ▸ hs
        | some r =>
          rw [hmade] at h
          exact hreg _ _ _ _ (hdir s _ r hs hmade) h
    · exact Option.some.inj h ▸ hs
  rw [vfsEnsureParentDirs] at h
  split_ifs at h
  · generalize List.range' 1 (path.length - 1) = is at h
    induction is generalizing s with
    | nil => exact Option.some.inj h ▸ hs
    | cons i is ih =>
      rw [List.foldlM_cons] at h
      obtain ⟨s1, hs1, h⟩ := Option.bind_eq_some_iff.mp h
      exact ih (hstep i s s1 hs1 hs) h
  · exact Option.some.inj h ▸ hs

/-- **A call of `vfs_register`** is a run of registrations, the last of its own path. -/
theorem vfsRegister_registered {path : PathName} {r : Bool × Vfs} (hs : Registered s)
    (h : vfsRegister cwd fuel s path vp = some r) :
    ∃ s1, Registered s1 ∧ r = registerEntry s1 (vfsNormalizePath cwd path) vp := by
  induction fuel generalizing s path vp r with
  | zero => cases h
  | succ fuel ih =>
    rw [vfsRegister] at h
    split_ifs at h with hroot
    · cases h
      exact ⟨s, hs, rfl⟩
    · obtain ⟨s1, hs1, h⟩ := Option.bind_eq_some_iff.mp h
      obtain ⟨s2, hs2, h⟩ := Option.bind_eq_some_iff.mp h
      cases h
      have hdirs : Registered s1 := by
        refine vfsEnsureParentDirs_keeps (fun s p v s' hs hr => ?_)
          (fun s name r hs hr => ?_) hs1 hs
        · obtain ⟨r, hcall, rfl⟩ := Option.map_eq_some_iff.mp hr
          obtain ⟨s3, hs3, rfl⟩ := ih hs hcall
          exact registerEntry_registered hs3 _ _
        · rw [Registered, vfsCreateDirVnode_registry hr]
          exact hs
      refine ⟨s2, ?_, rfl⟩
      rw [Registered, linkParent_registry hs2]
      exact hdirs

/-! ## A table full of cleared slots -/

/-- Different paths in the root directory, one for each number of 14 bits. -/
def binaryPath (j : ℕ) : PathName := '/' :: (List.range 14).map fun b => if j.testBit b then 'b' else 'a'

lemma binaryPath_injective {i j : ℕ} (hi : i < registrySize) (hj : j < registrySize)
    (h : binaryPath i = binaryPath j) : i = j := by
  refine Nat.eq_of_testBit_eq fun b => ?_
  by_cases hb : b < 14
  · have hbit := List.map_inj_left.mp (List.cons.inj h).2 b (List.mem_range.mpr hb)
    cases hbi : i.testBit b with
    | true =>
      cases hbj : j.testBit b with
      | true => rfl
      | false =>
        rw [hbi, hbj] at hbit
        exact absurd hbit (by decide)
    | false =>
      cases hbj : j.testBit b with
      | true =>
        rw [hbi, hbj] at hbit
        exact absurd hbit (by decide)
      | false => rfl
  · have hpow : registrySize ≤ 2 ^ b := Nat.pow_le_pow_right Nat.two_pos (Nat.le_of_not_lt hb)
    rw [Nat.testBit_lt_two_pow (hi.trans_le hpow), Nat.testBit_lt_two_pow (hj.trans_le hpow)]

/-- The first `j` of these paths fit, and no slot is cleared. -/
lemma exists_filled (j : ℕ) (hj : j ≤ registrySize) :
    ∃ t latest, RegistryRun t latest ∧ (∀ i, i < registrySize → t i ≠ .cleared) ∧
      ∀ p, latest p ≠ none ↔ ∃ i, i < j ∧ p = binaryPath i := by
  induction j with
  | zero =>
    refine ⟨_, _, .start, nofun, fun p => ⟨fun h => absurd rfl h, ?_⟩⟩
    rintro ⟨i, hi, -⟩
    cases hi
  | succ j ih =>
    obtain ⟨t, latest, hrun, hcleared, hlatest⟩ := ih (Nat.le_of_succ_le hj)
    -- fewer paths than slots are registered, so one is unused
    have hfits : registryInsert t (binaryPath j) (.other j) ≠ none := by
      intro hfail
      obtain ⟨paths, hcard, hpaths⟩ :=
        allRegistered_of_full hrun ((registryInsert_eq_none hrun.inv.2).mp hfail).2 hcleared
      have hsub : paths ⊆ (Finset.range j).image binaryPath := by
        intro p hp
        obtain ⟨i, hi, rfl⟩ := (hlatest p).mp (hpaths p hp)
        exact Finset.mem_image_of_mem _ (Finset.mem_range.mpr hi)
      have hle := (Finset.card_le_card hsub).trans Finset.card_image_le
      rw [hcard, Finset.card_range] at hle
      omega
    obtain ⟨t', ht'⟩ := Option.ne_none_iff_exists'.mp hfits
    refine ⟨t', _, hrun.register (binaryPath j) (.other j) ht', fun i hi => ?_, fun p => ?_⟩
    · rcases insert_slots ht' i with heq | heq
      · rw [heq]
        exact hcleared i hi
      · rw [heq]
        exact nofun
    · by_cases hp : p = binaryPath j
      · rw [hp, Function.update_self]
        exact ⟨fun _ => ⟨j, Nat.lt_succ_self j, rfl⟩, fun _ => nofun⟩
      · rw [Function.update_of_ne hp, hlatest]
        refine exists_congr fun i => and_congr_left fun hpi => ⟨Nat.lt_succ_of_lt, fun hi => ?_⟩
        exact Nat.lt_of_le_of_ne (Nat.le_of_lt_succ hi) fun e => hp (e ▸ hpi)

/-- One of 16384 registered paths is removed, and a new one is refused. -/
theorem cleared_registry_refuses :
    ∃ t latest p vp, RegistryRun t latest ∧ registryInsert t p vp = none ∧ ¬AllRegistered latest := by
  obtain ⟨t, latest, hrun, -, hlatest⟩ := exists_filled registrySize le_rfl
  have hunused : ∀ i, i < registrySize → t i ≠ .unused := by
    intro i hi hslot
    refine not_allRegistered hrun hi (fun k v => hslot.trans_ne nofun)
      ⟨(Finset.range registrySize).image binaryPath, ?_, fun p hp => ?_⟩
    · rw [Finset.card_image_of_injOn, Finset.card_range]
      exact fun i hi j hj => binaryPath_injective (Finset.mem_range.mp hi) (Finset.mem_range.mp hj)
    · obtain ⟨i, hi, rfl⟩ := Finset.mem_image.mp hp
      exact (hlatest _).mpr ⟨i, Finset.mem_range.mp hi, rfl⟩
  have hfirst : latest (binaryPath 0) ≠ none := (hlatest _).mpr ⟨0, registrySize_pos, rfl⟩
  cases hrem : registryRemove t (binaryPath 0) with
  | none => exact absurd (remove_eq_none registrySize_pos hrun.inv.1 hrun.inv.2 hrem) hfirst
  | some t' =>
    have hrun' := hrun.unregister (binaryPath 0) hrem
    obtain ⟨⟨j, v⟩, hj, rfl⟩ := Option.map_eq_some_iff.mp hrem
    have hlt := (findFrom_eq_some (Nat.mod_lt _ registrySize_pos) hj).1
    have hnew : Function.update latest (binaryPath 0) none "/c".toList = none := by
      have hne : ∀ i, "/c".toList ≠ binaryPath i := by
        intro i h
        exact absurd (congrArg List.length h) (by simp [binaryPath])
      rw [Function.update_of_ne (hne 0)]
      by_contra hold
      obtain ⟨i, -, hi⟩ := (hlatest _).mp hold
      exact hne i hi
    refine ⟨_, _, "/c".toList, .other 0, hrun', (registryInsert_eq_none hrun'.inv.2).mpr ⟨hnew, ?_⟩, ?_⟩
    · intro i hi
      by_cases hij : i = j
      · rw [hij, Function.update_self]
        exact nofun
      · rw [Function.update_of_ne hij]
        exact hunused i hi
    · refine not_allRegistered hrun' hlt fun k w => ?_
      rw [Function.update_self]
      exact nofun

end Chimera
