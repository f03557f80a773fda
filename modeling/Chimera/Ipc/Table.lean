import Chimera.Ipc.Names

/-!
# The table of names

Ports are allocated, send rights copied out, names given up and ports destroyed, in any order; no port is
pinned. Then every entry of a table that was ever used is live or free, never both, and the free list has
the free ones once each (`name_table_partition`). This is what the invariant `SpaceOk` says of a whole free
list.

A name that `ipc_port_copyout_send` returns denotes the port, with one exception: for a send right that
the space has it returns the index of the entry without its generation. So the name is good if that
generation is `0`, and only then (`delivered_name_usable`).
-/

namespace Chimera

open Lib

/-- The calls: allocations, copies of send rights, deallocations, and the destruction of a port. -/
inductive TableStep (s s' : Ipc) : Prop
  | name {op : NameOp} {r : Option (ℕ × ℕ)} (hs : NameStep s op r s') (hop : ∀ p, op ≠ .pin p)
  | destroy {p fuel : ℕ} (hp : p ≠ 0) (hs : ipcPortDestroy fuel s p = some s')

/-- New spaces, with empty free lists, and no port in use. -/
structure NewTables (s : Ipc) : Prop extends NoNames s where
  freeCount : ∀ sp, (s.spaces sp).freeCount = 0

/-- The mode of these runs: no port is pinned, and the free lists are whole. -/
def tableMode (on : Set ℕ) : NameMode := ⟨False, True, on⟩

section runs

variable {on : Set ℕ} {s s' s₀ : Ipc}

lemma NamesOk.forget {m : NameMode} {dead : ℕ → Set ℕ} (h : NamesOk m ∅ s dead) : NamesOk m ∅ s fun _ => ∅ :=
  { h with space := fun sp => (h.space sp).mono (Set.empty_subset _) }

/-- A step that is not a pin needs no care as long as nobody minds dead names. -/
lemma NamesOk.plainStep (h : NamesOk (tableMode on) ∅ s fun _ => ∅) {op : NameOp} {r : Option (ℕ × ℕ)}
    (hop : ∀ p, op ≠ .pin p) (hs : NameStep s op r s') :
    NamesOk (tableMode on) ∅ s' (fun _ => ∅) ∧ ∀ sp n, r = some (sp, n) → op.isNew s →
      ((s.spaces sp).table (ipcNameIndex n)).bits = typeNone := by
  have hcare : ((tableMode on).pins ∨ ∃ _ : ℕ, (∅ : Set ℕ).Nonempty) → op.careful s := by
    rintro (hpin | ⟨-, hdead⟩)
    · exact hpin.elim
    · exact absurd hdead Set.not_nonempty_empty
  obtain ⟨h', hnew⟩ := h.step hcare (.inr hop) hs
  exact ⟨h'.forget, fun sp n hr => (hnew sp n hr).2⟩

lemma NamesOk.tableStep (h : NamesOk (tableMode on) ∅ s fun _ => ∅) (hs : TableStep s s') :
    NamesOk (tableMode on) ∅ s' fun _ => ∅ := by
  cases hs with
  | name hs hop => exact (h.plainStep hop hs).1
  | @destroy p fuel hp hs =>
    by_cases hstate : (s.ports p).state = .active
    · have hloose : NamesOk (tableMode on) {p} s fun _ => ∅ :=
        { h with
          bound := fun q sp hq => .inl (h.bound_self hq)
          state := fun q sp _ => h.state q sp (Set.notMem_empty q) }
      exact hloose.destroy hp hstate hs
    · unfold ipcPortDestroy at hs
      rw [if_pos hstate] at hs
      cases hs
      exact h

lemma tableRun_ok (h0 : NewTables s₀) (h : Relation.ReflTransGen TableStep s₀ s)
    (hon : ∀ sp ∈ on, (s₀.spaces sp).active = true) : NamesOk (tableMode on) ∅ s fun _ => ∅ := by
  induction h with
  | refl => exact h0.toNoNames.ok (fun _ => h0.freeCount) hon
  | tail _ hs ih => exact ih.tableStep hs

end runs

/-! ## The partition -/

/-- The entries that were ever used are live or on the free list, which has each free one once and is
counted. -/
def Partitioned (x : IpcSpace) : Prop :=
  ∃ L, Chain (fun i => nameLink (x.table i).object) (nameLink x.freeHead) L ∧ L.Nodup ∧
    x.freeCount = L.length ∧ ∀ i, i ∈ L ↔ 1 ≤ i ∧ i < x.tableUsed ∧ (x.table i).bits = typeNone

lemma SpaceOk.partitioned {x : IpcSpace} {dead : Set ℕ} (h : SpaceOk True x dead) : Partitioned x := by
  obtain ⟨L, hL, hfree, hall⟩ := h.free
  obtain ⟨hcount, hmem⟩ := hall trivial
  exact ⟨L, hL, hL.nodup, hcount, fun i => ⟨hfree i, fun hi => hmem i hi.1 hi.2.1 hi.2.2⟩⟩

/-- **The table is partitioned**, in every space and after any calls, and an entry that a call hands out
a new name for was not live. -/
theorem name_table_partition {s₀ s : Ipc} (h₀ : NewTables s₀) (h : Relation.ReflTransGen TableStep s₀ s) :
    (∀ sp, Partitioned (s.spaces sp)) ∧ ∀ op r s', (∀ p, op ≠ .pin p) → NameStep s op r s' →
      ∀ sp n, r = some (sp, n) → op.isNew s → ((s.spaces sp).table (ipcNameIndex n)).bits = typeNone := by
  have hok : NamesOk (tableMode ∅) ∅ s fun _ => ∅ := tableRun_ok h₀ h fun _ => False.elim
  exact ⟨fun sp => (hok.space sp).partitioned, fun op r s' hop hs => (hok.plainStep hop hs).2⟩

lemma quietIpc_newTables (v : Vm) : NewTables (quietIpc v) := ⟨quietIpc_noNames v, fun _ => rfl⟩

theorem name_table_partition_one : ∃ s, Relation.ReflTransGen TableStep (quietIpc noVm) s ∧
    (s.spaces 0).freeCount = 1 ∧ Partitioned (s.spaces 0) := by
  obtain ⟨s1, s2, hs1, -, -, hs2⟩ := nameOne_dies
  have h : Relation.ReflTransGen TableStep (quietIpc noVm) s2 :=
    .tail (.tail .refl (.name (.allocate hs1) fun _ => nofun)) (.name (.deallocate hs2) fun _ => nofun)
  refine ⟨s2, h, ?_, (name_table_partition (quietIpc_newTables noVm) h).1 0⟩
  obtain rfl := (Prod.mk.inj hs1).2
  obtain rfl := (Prod.mk.inj (Option.some.inj hs2)).2
  rfl

/-! ## Names that were delivered -/

section delivered

variable {m : NameMode} {on : Set ℕ} {s : Ipc} {dead : ℕ → Set ℕ} {sp p n : ℕ}

/-- A lookup of an entry that holds a send right to an active port depends on the generation only. -/
lemma NamesOk.lookup (h : NamesOk m ∅ s dead) (hsp : sp ∈ m.on)
    (hi : ipcNameIndex n < (s.spaces sp).tableUsed) (hn : n ≠ nameNull)
    (hobject : ((s.spaces sp).table (ipcNameIndex n)).object = p) (hp : p ≠ 0)
    (hsend : ((s.spaces sp).table (ipcNameIndex n)).bits &&& typeSend ≠ 0)
    (hstate : (s.ports p).state = .active) :
    ipcPortLookup s sp n typeSend = some p ↔ ipcNameGen n = ((s.spaces sp).table (ipcNameIndex n)).gen := by
  have hx := h.space sp
  have hgen := hx.gen_lt (ipcNameIndex n)
  have hsize := hi.trans_le hx.used.2
  rw [← hx.size] at hsize
  have hbits : ((s.spaces sp).table (ipcNameIndex n)).bits ≠ typeNone := fun h0 => by
    rw [h0] at hsend
    exact hsend rfl
  unfold ipcPortLookup
  by_cases hdead : n = nameDead
  · -- no entry has the generation of `MACH_PORT_NAME_DEAD`
    rw [if_pos (.inr (.inl hdead)), hdead]
    rw [hdead] at hgen
    have hmax : ipcNameGen nameDead = 1023 := rfl
    refine iff_of_false (by simp) ?_
    omega
  rw [if_neg (by simp [hn, hdead, hsize, hi]), h.active sp hsp]
  by_cases hg : ipcNameGen n = ((s.spaces sp).table (ipcNameIndex n)).gen
  · simp [hobject, hp, hbits, hg, hsend, hstate]
  · simp [hg]

/-- The port is bound in the space, or its first send right there, if it has one, is in an entry of
generation `0`. -/
def nameDeliverable (s : Ipc) (sp p : ℕ) : Prop :=
  (s.ports p).receiver = some sp ∨ ∀ i, holdsSend (s.spaces sp) p i →
    (∀ j < i, ¬ holdsSend (s.spaces sp) p j) → ((s.spaces sp).table i).gen = 0

/-- A name that is bound to an active port denotes it. -/
lemma NamesOk.lookup_bound (h : NamesOk m ∅ s dead) (hsp : sp ∈ m.on) (hn : n ≠ nameNull) (hp : p ≠ 0)
    (b : BoundName (s.spaces sp) n p) (hstate : (s.ports p).state = .active) :
    ipcPortLookup s sp n typeSend = some p := by
  have hsend : ((s.spaces sp).table (ipcNameIndex n)).bits &&& typeSend ≠ 0 := by
    rw [b.bits]
    decide
  exact (h.lookup hsp b.range.2 hn b.object hp hsend hstate).mpr b.gen

/-- The bare index of a send right denotes the port if the entry is of generation `0`. -/
lemma NamesOk.lookup_found (h : NamesOk m ∅ s dead) (hsp : sp ∈ m.on) (hp : p ≠ 0)
    (hstate : (s.ports p).state = .active) {i u : ℕ} (hi : holdsSend (s.spaces sp) p i) :
    ipcPortLookup (s.setSpace sp ((s.spaces sp).setEntry i { (s.spaces sp).table i with urefs := u })) sp i
      typeSend = some p ↔ ((s.spaces sp).table i).gen = 0 := by
  obtain ⟨hpos, hiu, hobject, hsend⟩ := hi
  have hi64 : i < 64 := hiu.trans_le (h.space sp).used.2
  have hidx : ipcNameIndex i = i := Nat.mod_eq_of_lt hi64
  have hgen : ipcNameGen i = 0 := by
    unfold ipcNameGen
    omega
  have hnull : i ≠ nameNull := Nat.ne_of_gt hpos
  have hlook := (h.setUrefs sp i u).lookup (n := i) (p := p) hsp
  simp only [Ipc.spaces_setSpace, if_pos, IpcSpace.setEntry, hidx, Function.update_self,
    Ipc.setSpace_ports, hgen] at hlook
  exact (hlook hiu hnull hobject hp hsend hstate).trans eq_comm

/-- A new send right denotes the port. -/
lemma NamesOk.lookup_new (h : NamesOk (tableMode on) ∅ s fun _ => ∅) (hsp : sp ∈ on) (hp : p ≠ 0)
    (hstate : (s.ports p).state = .active) {r : ℕ × IpcSpace} (hr : spaceAllocName (s.spaces sp) = r)
    (hne : r.1 ≠ nameNull) {x : IpcPort} (hx : x = { s.ports p with srights := x.srights }) :
    ipcPortLookup ((s.setSpace sp (setRight r.2 r.1 p typeSend)).setPort p x) sp r.1 typeSend = some p := by
  have hhead : (∅ : Set ℕ).Nonempty → headInRange (s.spaces sp) := fun hd => absurd hd Set.not_nonempty_empty
  rcases h.grant hhead hr p (show typeSend ≠ typeNone by decide) with
    ⟨hnull, -⟩ | ⟨-, -, -, h', -, hused, u, hentry⟩
  · exact absurd hnull hne
  · have h'' : NamesOk (tableMode on) ∅ ((s.setSpace sp (setRight r.2 r.1 p typeSend)).setPort p x)
        fun _ => ∅ := by
      rw [hx]
      exact h'.setPort rfl rfl (fun _ => rfl) rfl
    have hlook := h''.lookup (n := r.1) (p := p) hsp
    simp only [Ipc.setPort_spaces, Ipc.spaces_setSpace, if_pos, hentry, Ipc.ports_setPort] at hlook
    refine (hlook hused hne trivial hp (by decide) ?_).mpr trivial
    rw [hx]
    exact hstate

/-- **A name that is delivered is usable**, after any calls and for every active port, if and only if the
port is bound in the space or its first send right there is of generation `0`. -/
theorem delivered_name_usable {s₀ s : Ipc} (h₀ : NewTables s₀) (h : Relation.ReflTransGen TableStep s₀ s)
    {sp p : ℕ} (hsp : (s₀.spaces sp).active = true) (hp : p ≠ 0) (hstate : (s.ports p).state = .active) :
    (∀ n s', ipcPortCopyoutSend s sp (some p) = (n, s') → n ≠ nameNull →
      ipcPortLookup s' sp n typeSend = some p) ↔ nameDeliverable s sp p := by
  have hok : NamesOk (tableMode {sp | (s₀.spaces sp).active = true}) ∅ s fun _ => ∅ := tableRun_ok h₀ h fun _ => id
  unfold nameDeliverable
  by_cases hr : (s.ports p).receiver = some sp
  · refine iff_of_true (fun n s' hs hn => ?_) (.inl hr)
    simp only [ipcPortCopyoutSend, if_pos hr] at hs
    cases hs
    exact hok.lookup_bound hsp hn hp (hok.bound_self hr) hstate
  rw [or_iff_right hr]
  cases hfind : findSendRight (s.spaces sp) p with
  | some i =>
    obtain ⟨hi, hfirst⟩ := findSendRight_eq_some.mp hfind
    have hlook := hok.lookup_found hsp hp hstate hi (u := u32 (((s.spaces sp).table i).urefs + 1))
    have hnull : i ≠ nameNull := Nat.ne_of_gt hi.1
    simp only [ipcPortCopyoutSend, if_neg hr, hfind]
    constructor
    · intro hall j hj hjfirst
      -- there is only one first send right
      have hji : some j = some i := (findSendRight_eq_some.mpr ⟨hj, hjfirst⟩).symm.trans hfind
      rw [Option.some.inj hji]
      exact hlook.mp (hall _ _ rfl hnull)
    · rintro hall n s' hs -
      cases hs
      exact hlook.mpr (hall _ hi hfirst)
  | none =>
    have hnone := findSendRight_eq_none.mp hfind
    refine iff_of_true (fun n s' hs hn => ?_) fun i hi => absurd hi (hnone i)
    simp only [ipcPortCopyoutSend, if_neg hr, hfind] at hs
    split_ifs at hs with h0
    · exact absurd (Prod.mk.inj hs).1.symm hn
    · cases hs
      exact hok.lookup_new hsp hp hstate rfl h0 rfl

end delivered

theorem delivered_name_usable_one : ∃ s, Relation.ReflTransGen TableStep (quietIpc noVm) s ∧
    ∀ n s', ipcPortCopyoutSend s 0 (some 0xFFFFFFFF80400000) = (n, s') → n ≠ nameNull →
      ipcPortLookup s' 0 n typeSend = some 0xFFFFFFFF80400000 := by
  obtain ⟨s1, -, hs1, -⟩ := nameOne_dies
  have h : Relation.ReflTransGen TableStep (quietIpc noVm) s1 := .tail .refl (.name (.allocate hs1) fun _ => nofun)
  obtain rfl := (Prod.mk.inj hs1).2
  exact ⟨_, h, (delivered_name_usable (quietIpc_newTables noVm) h rfl (by decide) rfl).mpr (.inl rfl)⟩

/-- **A delivered name is dead.** The send right is in an entry that was given up once. -/
theorem bareIndex_unusable : ∃ s n s' p, Relation.ReflTransGen TableStep (quietIpc noVm) s ∧
    (s.ports p).state = .active ∧ ipcPortCopyoutSend s 0 (some p) = (n, s') ∧ n ≠ nameNull ∧
    ipcPortLookup s' 0 n typeSend ≠ some p := by
  obtain ⟨s1, s2, s3, s4, s5, hs1, -, hs2, hs3, hs4, hstate, hs5, hlook⟩ := secondCopyout_bare
  have h : Relation.ReflTransGen TableStep (quietIpc noVm) s4 :=
    .tail (.tail (.tail (.tail .refl (.name (.allocate hs1) fun _ => nofun))
      (.name (.deallocate hs2) fun _ => nofun)) (.name (.allocate hs3) fun _ => nofun))
      (.name (.copyout hs4) fun _ => nofun)
  refine ⟨s4, 1, s5, _, h, hstate, hs5, by decide, ?_⟩
  rw [hlook]
  exact nofun

end Chimera
