import Mathlib.Data.BitVec

/-!
# User and group ids: `kernel/bsd/syscall.c`, `kernel/bsd/proc.c`

A process has a real, an effective and a saved uid, and the same three gids. Only `sys_setuid`,
`sys_seteuid`, `sys_setgid` and `sys_setegid` change them; a new process has those of its parent, and
`sys_execve` keeps them.

`credential_confinement`: the ids of a process without any uid 0, and of all its descendants, are among the
three that it started with, and only the effective ones change. So a process that drops root by
`setuid(u)` never gets it back.

The argument is about the three ids of one kind: without privilege `setId` and `setEffId` move the effective
id to the real or the saved one (`Confined.setId`, `Confined.setEffId`), and privilege needs an effective
uid 0, which is none of the three.
-/

namespace Chimera

/-! ## Processes and system calls -/

/-- The three ids of one kind: `p_uid`, `p_euid` and `p_svuid`, or `p_gid`, `p_egid` and `p_svgid`. -/
structure Ids where
  real : BitVec 32
  eff : BitVec 32
  saved : BitVec 32
  deriving DecidableEq, Repr

/-- The ids of `chimera_proc_t`. -/
structure Cred where
  user : Ids
  group : Ids
  deriving DecidableEq, Repr

/-- The common body of `sys_setuid` and `sys_setgid`; `none` is the result `-1`. -/
def setId (root : Bool) (ids : Ids) (new : BitVec 32) : Option Ids :=
  if root then some ⟨new, new, new⟩
  else if new = ids.real ∨ new = ids.saved then some { ids with eff := new }
  else none

/-- The common body of `sys_seteuid` and `sys_setegid`. -/
def setEffId (root : Bool) (ids : Ids) (new : BitVec 32) : Option Ids :=
  if root ∨ new = ids.real ∨ new = ids.saved then some { ids with eff := new } else none

/-- `p->p_euid == 0`; it is also what the calls for gids test. -/
def Cred.isRoot (p : Cred) : Bool := p.user.eff = 0

/-- Source: `sys_setuid` -/
def sysSetuid (p : Cred) (uid : BitVec 64) : ℤ × Cred :=
  match setId p.isRoot p.user (uid.setWidth 32) with
  | some ids => (0, { p with user := ids })
  | none => (-1, p)

/-- Source: `sys_seteuid` -/
def sysSeteuid (p : Cred) (euid : BitVec 64) : ℤ × Cred :=
  match setEffId p.isRoot p.user (euid.setWidth 32) with
  | some ids => (0, { p with user := ids })
  | none => (-1, p)

/-- Source: `sys_setgid` -/
def sysSetgid (p : Cred) (gid : BitVec 64) : ℤ × Cred :=
  match setId p.isRoot p.group (gid.setWidth 32) with
  | some ids => (0, { p with group := ids })
  | none => (-1, p)

/-- Source: `sys_setegid` -/
def sysSetegid (p : Cred) (egid : BitVec 64) : ℤ × Cred :=
  match setEffId p.isRoot p.group (egid.setWidth 32) with
  | some ids => (0, { p with group := ids })
  | none => (-1, p)

/-- `s_proc_pool`: the ids in the slots that are in use. -/
abbrev CredTable := ℕ → Option Cred

/-- `PROC_POOL_SIZE`. -/
def procPoolSize : ℕ := 256

/-- The first slot without a process; slot 0 is never given out. -/
def freeProcSlot (s : CredTable) : Option ℕ :=
  (List.range procPoolSize).find? fun i => 0 < i && (s i).isNone

/-- A process for a parent: the slot, and the table with the ids of the parent in it. The slot stays taken
when a later part of the creation fails.
Source: `proc_create` -/
def procCreate (s : CredTable) (parent : Cred) : Option (ℕ × CredTable) :=
  (freeProcSlot s).map fun i => (i, Function.update s i (some parent))

/-! ## Runs -/

/-- The steps, each by the process in a slot. -/
inductive CredOp where
  | setuid (i : ℕ) (uid : BitVec 64)
  | seteuid (i : ℕ) (euid : BitVec 64)
  | setgid (i : ℕ) (gid : BitVec 64)
  | setegid (i : ℕ) (egid : BitVec 64)
  | fork (i : ℕ)
  | execve (i : ℕ)
  /-- `proc_reap` of the process in slot `i`. -/
  | reap (i : ℕ)
  deriving DecidableEq, Repr

/-- The table, and the slots of one process and its descendants. -/
structure CredState where
  table : CredTable
  family : Finset ℕ

/-- A system call by the process in slot `i`, if there is one. -/
def CredState.call (s : CredState) (i : ℕ) (f : Cred → ℤ × Cred) : CredState :=
  match s.table i with
  | none => s
  | some p => { s with table := Function.update s.table i (some (f p).2) }

/-- One step. A child belongs to the family of its parent, and a slot that is given back to none. -/
def CredState.step (s : CredState) : CredOp → CredState
  | .setuid i uid => s.call i fun p => sysSetuid p uid
  | .seteuid i euid => s.call i fun p => sysSeteuid p euid
  | .setgid i gid => s.call i fun p => sysSetgid p gid
  | .setegid i egid => s.call i fun p => sysSetegid p egid
  | .fork i =>
      match s.table i with
      | none => s
      | some p =>
          match procCreate s.table p with
          | none => s
          | some (child, t) => ⟨t, if i ∈ s.family then insert child s.family else s.family⟩
  | .execve _ => s
  | .reap i => ⟨Function.update s.table i none, s.family.erase i⟩

/-- A sequence of steps. -/
def CredState.run (s : CredState) (ops : List CredOp) : CredState := ops.foldl CredState.step s

/-! ## Confinement -/

/-- Ids that come from the ids `ids` without privilege. -/
structure Confined (ids ids' : Ids) : Prop where
  real : ids'.real = ids.real
  saved : ids'.saved = ids.saved
  eff : ids'.eff = ids.real ∨ ids'.eff = ids.eff ∨ ids'.eff = ids.saved

section confined

variable {ids ids' ids'' : Ids}

lemma Confined.refl (ids : Ids) : Confined ids ids := ⟨rfl, rfl, .inr (.inl rfl)⟩

/-- The effective id goes to the real or to the saved one. -/
lemma Confined.move (h : Confined ids ids') {new : BitVec 32} (hnew : new = ids'.real ∨ new = ids'.saved) :
    Confined ids { ids' with eff := new } := by
  refine ⟨h.real, h.saved, ?_⟩
  rcases hnew with rfl | rfl
  · exact .inl h.real
  · exact .inr (.inr h.saved)

lemma Confined.setId (h : Confined ids ids') {new : BitVec 32} (hset : setId false ids' new = some ids'') :
    Confined ids ids'' := by
  unfold Chimera.setId at hset
  rw [if_neg Bool.false_ne_true] at hset
  split_ifs at hset with hnew
  cases hset
  exact h.move hnew

lemma Confined.setEffId (h : Confined ids ids') {new : BitVec 32}
    (hset : setEffId false ids' new = some ids'') : Confined ids ids'' := by
  unfold Chimera.setEffId at hset
  by_cases hnew : new = ids'.real ∨ new = ids'.saved
  · rw [if_pos (.inr hnew)] at hset
    cases hset
    exact h.move hnew
  · rw [if_neg (not_or.mpr ⟨Bool.false_ne_true, hnew⟩)] at hset
    exact absurd hset (Option.some_ne_none _).symm

end confined

/-- No uid of a process is 0. -/
structure Cred.Unprivileged (p : Cred) : Prop where
  real : p.user.real ≠ 0
  eff : p.user.eff ≠ 0
  saved : p.user.saved ≠ 0

/-- **What holds in a family**: the ids are confined to those of the first process. -/
structure ConfinedCred (c p : Cred) : Prop where
  user : Confined c.user p.user
  group : Confined c.group p.group

section system_calls

variable {c p : Cred}

lemma ConfinedCred.unprivileged (hc : c.Unprivileged) (h : ConfinedCred c p) : p.Unprivileged := by
  refine ⟨h.user.real ▸ hc.real, ?_, h.user.saved ▸ hc.saved⟩
  rcases h.user.eff with heff | heff | heff
  · rw [heff]
    exact hc.real
  · rw [heff]
    exact hc.eff
  · rw [heff]
    exact hc.saved

lemma Cred.Unprivileged.isRoot (h : p.Unprivileged) : p.isRoot = false := decide_eq_false h.eff

section

variable (hc : c.Unprivileged) (h : ConfinedCred c p)
include hc h

lemma ConfinedCred.setuid (uid : BitVec 64) :
    ConfinedCred c (sysSetuid p uid).2 := by
  rw [sysSetuid, (h.unprivileged hc).isRoot]
  cases hset : setId false p.user (uid.setWidth 32) with
  | none => exact h
  | some ids => exact ⟨h.user.setId hset, h.group⟩

lemma ConfinedCred.seteuid (euid : BitVec 64) :
    ConfinedCred c (sysSeteuid p euid).2 := by
  rw [sysSeteuid, (h.unprivileged hc).isRoot]
  cases hset : setEffId false p.user (euid.setWidth 32) with
  | none => exact h
  | some ids => exact ⟨h.user.setEffId hset, h.group⟩

lemma ConfinedCred.setgid (gid : BitVec 64) :
    ConfinedCred c (sysSetgid p gid).2 := by
  rw [sysSetgid, (h.unprivileged hc).isRoot]
  cases hset : setId false p.group (gid.setWidth 32) with
  | none => exact h
  | some ids => exact ⟨h.user, h.group.setId hset⟩

lemma ConfinedCred.setegid (egid : BitVec 64) :
    ConfinedCred c (sysSetegid p egid).2 := by
  rw [sysSetegid, (h.unprivileged hc).isRoot]
  cases hset : setEffId false p.group (egid.setWidth 32) with
  | none => exact h
  | some ids => exact ⟨h.user, h.group.setEffId hset⟩

end

/-- **Dropping root.** All three uids become the new one. -/
lemma sysSetuid_of_root (hroot : p.user.eff = 0) (u : BitVec 32) :
    (sysSetuid p (u.setWidth 64)).2 = { p with user := ⟨u, u, u⟩ } := by
  have hwidth : (u.setWidth 64).setWidth 32 = u := by
    rw [BitVec.setWidth_setWidth_of_le u (by omega), BitVec.setWidth_eq]
  rw [sysSetuid, Cred.isRoot, decide_eq_true hroot, hwidth]
  rfl

end system_calls

/-- **The invariant**: every process of the family is confined to the ids of the first one. -/
def FamilyConfined (c : Cred) (s : CredState) : Prop :=
  ∀ i ∈ s.family, ∃ p, s.table i = some p ∧ ConfinedCred c p

section runs

variable {c : Cred} {s : CredState}

/-- A slot that is given out has no process in it. -/
lemma procCreate_eq_some {t t' : CredTable} {parent : Cred} {child : ℕ}
    (h : procCreate t parent = some (child, t')) :
    t child = none ∧ t' = Function.update t child (some parent) := by
  obtain ⟨i, hi, heq⟩ := Option.map_eq_some_iff.mp h
  cases heq
  have hfree := List.find?_some hi
  rw [Bool.and_eq_true, Option.isNone_iff_eq_none] at hfree
  exact ⟨hfree.2, rfl⟩

lemma FamilyConfined.call (h : FamilyConfined c s) (i : ℕ) {f : Cred → ℤ × Cred}
    (hf : ∀ p, ConfinedCred c p → ConfinedCred c (f p).2) : FamilyConfined c (s.call i f) := by
  intro j hj
  rw [CredState.call] at hj ⊢
  cases hi : s.table i with
  | none =>
    rw [hi] at hj
    exact h j hj
  | some p =>
    rw [hi] at hj
    obtain ⟨q, hq, hconf⟩ := h j hj
    by_cases hji : j = i
    · subst hji
      obtain rfl := Option.some.inj (hi.symm.trans hq)
      exact ⟨_, Function.update_self _ _ _, hf p hconf⟩
    · exact ⟨q, (Function.update_of_ne hji _ _).trans hq, hconf⟩

lemma FamilyConfined.fork (h : FamilyConfined c s) (i : ℕ) : FamilyConfined c (s.step (.fork i)) := by
  rw [CredState.step]
  cases hi : s.table i with
  | none => exact h
  | some p =>
    dsimp only
    cases hcreate : procCreate s.table p with
    | none => exact h
    | some r =>
      obtain ⟨child, t⟩ := r
      obtain ⟨hfree, rfl⟩ := procCreate_eq_some hcreate
      intro j hj
      by_cases hjc : j = child
      · -- the slot of the child was empty, so it is in the family only through its parent
        subst hjc
        have hnot : j ∉ s.family := by
          intro hmem
          obtain ⟨q, hq, -⟩ := h j hmem
          exact absurd (hfree.symm.trans hq) (Option.some_ne_none q).symm
        have hparent : i ∈ s.family := by
          by_contra hout
          dsimp only at hj
          rw [if_neg hout] at hj
          exact hnot hj
        obtain ⟨q, hq, hconf⟩ := h i hparent
        obtain rfl := Option.some.inj (hi.symm.trans hq)
        exact ⟨p, Function.update_self _ _ _, hconf⟩
      · have hmem : j ∈ s.family := by
          split_ifs at hj
          · exact (Finset.mem_insert.mp hj).resolve_left hjc
          · exact hj
        obtain ⟨q, hq, hconf⟩ := h j hmem
        exact ⟨q, (Function.update_of_ne hjc _ _).trans hq, hconf⟩

lemma FamilyConfined.reap (h : FamilyConfined c s) (i : ℕ) : FamilyConfined c (s.step (.reap i)) := by
  intro j hj
  obtain ⟨hne, hmem⟩ := Finset.mem_erase.mp hj
  obtain ⟨q, hq, hconf⟩ := h j hmem
  exact ⟨q, (Function.update_of_ne hne _ _).trans hq, hconf⟩

lemma FamilyConfined.step (hc : c.Unprivileged) (h : FamilyConfined c s) (op : CredOp) :
    FamilyConfined c (s.step op) := by
  cases op with
  | setuid i uid => exact h.call i fun _ hp => hp.setuid hc uid
  | seteuid i euid => exact h.call i fun _ hp => hp.seteuid hc euid
  | setgid i gid => exact h.call i fun _ hp => hp.setgid hc gid
  | setegid i egid => exact h.call i fun _ hp => hp.setegid hc egid
  | fork i => exact h.fork i
  | execve i => exact h
  | reap i => exact h.reap i

lemma FamilyConfined.run (hc : c.Unprivileged) (h : FamilyConfined c s) (ops : List CredOp) :
    FamilyConfined c (s.run ops) := by
  induction ops generalizing s with
  | nil => exact h
  | cons op ops ih => exact ih (h.step hc op)

lemma familyConfined_singleton {t : CredTable} {i : ℕ} (hi : t i = some c) : FamilyConfined c ⟨t, {i}⟩ := by
  intro j hj
  obtain rfl := Finset.mem_singleton.mp hj
  exact ⟨c, hi, .refl _, .refl _⟩

end runs

/-- **Credential confinement.** In every run of a process without a uid 0 and of its descendants, whatever
other processes do in between, the real and the saved ids of each of them are those of the first process and
the effective ids are among its three; and no uid is 0 in the family of a process that has called `setuid`
with another uid while its effective uid was 0. -/
theorem credential_confinement :
    (∀ (t : CredTable) (i : ℕ) (c : Cred), t i = some c → c.Unprivileged → ∀ ops : List CredOp,
      ∀ j ∈ (CredState.run ⟨t, {i}⟩ ops).family, ∃ p, (CredState.run ⟨t, {i}⟩ ops).table j = some p ∧
        Confined c.user p.user ∧ Confined c.group p.group) ∧
    ∀ (t : CredTable) (i : ℕ) (c : Cred) (u : BitVec 32), t i = some c → c.user.eff = 0 → u ≠ 0 →
      ∀ ops : List CredOp, ∀ j ∈ (CredState.run ⟨t, {i}⟩ (.setuid i (u.setWidth 64) :: ops)).family,
        ∃ p, (CredState.run ⟨t, {i}⟩ (.setuid i (u.setWidth 64) :: ops)).table j = some p ∧ p.Unprivileged := by
  constructor
  · intro t i c hi hc ops j hj
    obtain ⟨p, hp, hconf⟩ := (familyConfined_singleton hi).run hc ops j hj
    exact ⟨p, hp, hconf.user, hconf.group⟩
  · intro t i c u hi hroot hu ops j hj
    have hstep : CredState.step ⟨t, {i}⟩ (.setuid i (u.setWidth 64)) =
        ⟨Function.update t i (some { c with user := ⟨u, u, u⟩ }), {i}⟩ := by
      rw [CredState.step, CredState.call]
      dsimp only
      rw [hi]
      dsimp only
      rw [sysSetuid_of_root hroot]
    have hdropped : Cred.Unprivileged { c with user := ⟨u, u, u⟩ } := ⟨hu, hu, hu⟩
    rw [CredState.run, List.foldl_cons, hstep] at hj ⊢
    obtain ⟨p, hp, hconf⟩ := (familyConfined_singleton (Function.update_self i _ t)).run hdropped ops j hj
    exact ⟨p, hp, hconf.unprivileged hdropped⟩

/-- A process of user 501 in slot 1, and one of root in slot 2. -/
def twoProcs : CredTable := fun i =>
  if i = 1 then some ⟨⟨501, 501, 501⟩, ⟨20, 20, 20⟩⟩
  else if i = 2 then some ⟨⟨0, 0, 0⟩, ⟨0, 0, 0⟩⟩
  else none

/-- The user's process forks, and the child asks for root; root becomes user 7 and asks for root again. -/
theorem credential_confinement_twoProcs :
    (∃ p, (CredState.run ⟨twoProcs, {1}⟩ [.fork 1, .setuid 3 0]).table 3 = some p ∧
      Confined ⟨501, 501, 501⟩ p.user ∧ Confined ⟨20, 20, 20⟩ p.group) ∧
    ∃ p, (CredState.run ⟨twoProcs, {2}⟩ [.setuid 2 ((7 : BitVec 32).setWidth 64), .seteuid 2 0]).table 2 =
      some p ∧ p.Unprivileged :=
  ⟨credential_confinement.1 twoProcs 1 _ rfl ⟨by decide, by decide, by decide⟩ _ 3 (by decide),
    credential_confinement.2 twoProcs 2 _ 7 rfl rfl (by decide) _ 2 (by decide)⟩

end Chimera
