import Chimera.Ipc.Spaces

/-!
# Stale names

Once the last user reference of a name has been dropped, every lookup rejects it and no step returns it
again. Inside a space this is `SpaceOk`; over all spaces one has to know besides that a port with a
receiver is the object of its receiver's name (`NamesOk`), since `ipc_port_copyout_send` returns that
name to the receiver.

Three things break it. The generation is one byte, so it comes round after 128 uses of an entry;
`ipc_port_copyout_send` returns the bare index of a send right it finds, which is the name of
generation `0`; and a pinned port stays bound to a name its space has given up. The result is for runs
without them (`NameOp.careful`); `copyout_returns_deadName` is a run with the second.
-/

namespace Chimera

open Lib
open Ipc (ports_setPort spaces_setSpace)

/-! ## All spaces -/

/-- What the states of a run have in common: whether ports may be pinned, whether the free lists are
whole, and spaces that are active. -/
structure NameMode where
  pins : Prop
  whole : Prop
  on : Set ℕ

/-- **The invariant**, with the names each space has given up: a port that has a receiver is the object
of its receiver's name, and is alive. The ports in `loose` are on their way out: their name may have
been freed, and their state does not matter. -/
structure NamesOk (m : NameMode) (loose : Set ℕ) (s : Ipc) (dead : ℕ → Set ℕ) : Prop where
  space : ∀ sp, SpaceOk m.whole (s.spaces sp) (dead sp)
  bound : ∀ p sp, (s.ports p).receiver = some sp →
    BoundName (s.spaces sp) (s.ports p).receiverName p ∨ p ∈ loose ∧
      ipcNameGen (s.ports p).receiverName ≠
        ((s.spaces sp).table (ipcNameIndex (s.ports p).receiverName)).gen
  state : ∀ p sp, p ∉ loose → (s.ports p).receiver = some sp →
    (s.ports p).state = .active ∨ m.pins ∧ (s.ports p).state = .special
  addr : ∀ p sp, (s.ports p).receiver = some sp → p ≠ 0
  arena : ∀ i, s.portArena i ≠ 0
  list : ∀ q, s.portFreeList = some q → q ≠ 0
  next : ∀ p q, (s.ports p).next = some q → q ≠ 0
  active : ∀ sp ∈ m.on, (s.spaces sp).active = true

section ports

variable {m : NameMode} {loose : Set ℕ} {s s' : Ipc} {dead : ℕ → Set ℕ} {p sp : ℕ}

/-- No port is bound otherwise than before, and no port but those in `loose` has changed its state. -/
structure SameBinding (loose : Set ℕ) (s s' : Ipc) : Prop where
  spaces : s'.spaces = s.spaces
  receiver : ∀ p, (s'.ports p).receiver = (s.ports p).receiver
  name : ∀ p, (s'.ports p).receiverName = (s.ports p).receiverName
  state : ∀ p ∉ loose, (s'.ports p).state = (s.ports p).state

lemma NamesOk.same (h : NamesOk m loose s dead) (b : SameBinding loose s s')
    (harena : s'.portArena = s.portArena) (hlist : ∀ q, s'.portFreeList = some q → q ≠ 0)
    (hnext : ∀ p q, (s'.ports p).next = some q → q ≠ 0) : NamesOk m loose s' dead := by
  refine ⟨fun sp => ?_, fun p sp hp => ?_, fun p sp hl hp => ?_, fun p sp hp => ?_, ?_, hlist, hnext,
    b.spaces ▸ h.active⟩
  · rw [b.spaces]
    exact h.space sp
  · rw [b.receiver] at hp
    rw [b.spaces, b.name]
    exact h.bound p sp hp
  · rw [b.receiver] at hp
    rw [b.state p hl]
    exact h.state p sp hl hp
  · rw [b.receiver] at hp
    exact h.addr p sp hp
  · rw [harena]
    exact h.arena

variable {x : IpcPort} {i fuel name bits : ℕ}

/-- A port changes, but not where it is bound. -/
lemma SameBinding.setPort (hr : x.receiver = (s.ports p).receiver)
    (hn : x.receiverName = (s.ports p).receiverName) (hs : p ∉ loose → x.state = (s.ports p).state) :
    SameBinding loose s (s.setPort p x) := by
  refine ⟨rfl, fun q => ?_, fun q => ?_, fun q hl => ?_⟩ <;> rw [ports_setPort] <;>
    split_ifs with hq
  · rw [hr, hq]
  · rfl
  · rw [hn, hq]
  · rfl
  · rw [hs (hq ▸ hl), hq]
  · rfl

/-- A port changes, but neither where it is bound nor its place in the arena. -/
lemma NamesOk.setPort (h : NamesOk m loose s dead) (hr : x.receiver = (s.ports p).receiver)
    (hn : x.receiverName = (s.ports p).receiverName) (hs : p ∉ loose → x.state = (s.ports p).state)
    (hx : x.next = (s.ports p).next) : NamesOk m loose (s.setPort p x) dead := by
  refine h.same (.setPort hr hn hs) rfl h.list fun q r hq => ?_
  rw [ports_setPort] at hq
  split_ifs at hq
  · rw [hx] at hq
    exact h.next p r hq
  · exact h.next q r hq

lemma NamesOk.portArenaFree (h : NamesOk m loose s dead) (hp : p ≠ 0) : NamesOk m loose (portArenaFree s p) dead := by
  unfold Chimera.portArenaFree
  split_ifs
  · exact h
  · have b : SameBinding loose s (s.setPort p { s.ports p with next := s.portFreeList }) :=
      .setPort rfl rfl fun _ => rfl
    refine h.same ⟨b.spaces, b.receiver, b.name, b.state⟩ rfl (fun q hq => ?_) fun q r hr => ?_
    · rwa [← Option.some.inj hq]
    · simp only [ports_setPort] at hr
      split_ifs at hr
      · exact h.list r hr
      · exact h.next q r hr

lemma NamesOk.release (h : NamesOk m loose s dead) (hp : p ≠ 0) : NamesOk m loose (ipcPortRelease s p) dead := by
  unfold ipcPortRelease
  dsimp only
  split_ifs
  · apply NamesOk.portArenaFree _ hp
    exact h.setPort rfl rfl (fun _ => rfl) rfl
  · exact h.setPort rfl rfl (fun _ => rfl) rfl

lemma ipcKmsgFree_ports (k : Kmsg) : (ipcKmsgFree s k).ports = s.ports := by cases k <;> rfl

lemma ipcKmsgFree_spaces (k : Kmsg) : (ipcKmsgFree s k).spaces = s.spaces := by cases k <;> rfl

lemma ipcKmsgFree_arena (k : Kmsg) : (ipcKmsgFree s k).portArena = s.portArena ∧
    (ipcKmsgFree s k).portFreeList = s.portFreeList := by cases k <;> exact ⟨rfl, rfl⟩

/-- Freeing messages is no matter of names. -/
lemma NamesOk.drain (h : NamesOk m loose s dead) {n : ℕ} {k : Option Kmsg}
    (hs : drainQueue n k s = some s') : NamesOk m loose s' dead ∧ s'.ports = s.ports := by
  induction n generalizing k s with
  | zero =>
    cases k with
    | none =>
      cases hs
      exact ⟨h, rfl⟩
    | some k => cases hs
  | succ n ih =>
    cases k with
    | none =>
      cases hs
      exact ⟨h, rfl⟩
    | some k =>
      have hp := ipcKmsgFree_ports (s := s) k
      obtain ⟨ha, hl⟩ := ipcKmsgFree_arena k
      have b : SameBinding loose s (ipcKmsgFree s k) :=
        ⟨ipcKmsgFree_spaces k, fun q => by rw [hp], fun q => by rw [hp], fun q _ => by rw [hp]⟩
      obtain ⟨h', heq⟩ := ih (h.same b ha (hl ▸ h.list) (hp ▸ h.next)) hs
      exact ⟨h', heq.trans hp⟩

/-- **A port loses its name.** -/
lemma NamesOk.dropReceiverName (h : NamesOk m {p} s dead) :
    NamesOk m ∅ (dropReceiverName s p) dead ∧ ((dropReceiverName s p).ports p).receiver = none := by
  have hother : ∀ q sp, q ≠ p → (s.ports q).receiver = some sp → BoundName (s.spaces sp) (s.ports q).receiverName q :=
    fun q sp hq hr => (h.bound q sp hr).resolve_right fun hb => hq hb.1
  unfold Chimera.dropReceiverName
  cases hr : (s.ports p).receiver with
  | none =>
    have hne : ∀ q sp, (s.ports q).receiver = some sp → q ≠ p := by
      rintro q sp hq rfl
      rw [hr] at hq
      cases hq
    exact ⟨⟨h.space, fun q sp hq => .inl (hother q sp (hne q sp hq) hq),
      fun q sp _ hq => h.state q sp (hne q sp hq) hq, h.addr, h.arena, h.list, h.next, h.active⟩, hr⟩
  | some sp =>
    dsimp only
    set n := (s.ports p).receiverName with hn
    -- the entry is live, or its generation says that it is not the port's any more
    have hspace : ∃ x', (if n ≠ nameNull ∧ ipcNameIndex n < (s.spaces sp).tableSize ∧
        ipcNameGen n = ((s.spaces sp).table (ipcNameIndex n)).gen
        then spaceFreeName (s.spaces sp) (ipcNameIndex n) else s.spaces sp) = x' ∧
        SpaceOk m.whole x' (dead sp) ∧ x'.active = (s.spaces sp).active ∧
        ∀ q n, q ≠ p → BoundName (s.spaces sp) n q → BoundName x' n q := by
      refine ⟨_, rfl, ?_⟩
      split_ifs with hfree
      · rcases h.bound p sp hr with hb | ⟨-, hstale⟩
        · refine ⟨((h.space sp).freeName hb.range.1 hb.range.2 hb.bits_ne rfl hb.gen).mono
            Set.subset_union_left, rfl, fun q n hq hm => ?_⟩
          refine hm.set ((h.space sp).spaceFreeName_set hb.bits_ne) le_rfl fun hmn => hq ?_
          rw [← hm.object, hmn, hb.object]
        · exact absurd hfree.2.2 hstale
      · exact ⟨h.space sp, rfl, fun q n _ hm => hm⟩
    obtain ⟨x', hx, hok, hact, hkeep⟩ := hspace
    rw [hx]
    refine ⟨⟨fun sp' => ?_, fun q sp' hq => ?_, fun q sp' _ hq => ?_, fun q sp' hq => ?_, h.arena,
      h.list, fun q r hq => ?_, fun sp' hsp' => ?_⟩, by simp⟩
    · simp only [Ipc.setPort_spaces, spaces_setSpace]
      split_ifs with hsp
      · rw [hsp]
        exact hok
      · exact h.space sp'
    · by_cases hqp : q = p
      · simp [hqp] at hq
      · simp only [ports_setPort, if_neg hqp, Ipc.setSpace_ports, Ipc.setPort_spaces, spaces_setSpace] at hq ⊢
        left
        have hb := hother q sp' hqp hq
        split_ifs with hsp
        · rw [hsp] at hb
          exact hkeep q _ hqp hb
        · exact hb
    · by_cases hqp : q = p
      · simp [hqp] at hq
      · simp only [ports_setPort, if_neg hqp, Ipc.setSpace_ports] at hq ⊢
        exact h.state q sp' hqp hq
    · by_cases hqp : q = p
      · simp [hqp] at hq
      · simp only [ports_setPort, if_neg hqp, Ipc.setSpace_ports] at hq
        exact h.addr q sp' hq
    · simp only [ports_setPort, Ipc.setSpace_ports] at hq
      split_ifs at hq
      · exact h.next p r hq
      · exact h.next q r hq
    · simp only [Ipc.setPort_spaces, spaces_setSpace]
      split_ifs with hsp
      · rw [hact, ← hsp]
        exact h.active sp' hsp'
      · exact h.active sp' hsp'

/-- A port without a receiver may be in any state. -/
lemma NamesOk.setUnbound (h : NamesOk m ∅ s dead) (hx : x.receiver = none)
    (hn : ∀ q, x.next = some q → q ≠ 0) : NamesOk m ∅ (s.setPort p x) dead := by
  refine ⟨h.space, fun q sp hq => ?_, fun q sp _ hq => ?_, fun q sp hq => ?_, h.arena, h.list,
    fun q r hq => ?_, h.active⟩
  all_goals
    rw [ports_setPort] at hq
    split_ifs at hq with hqp
  · rw [hx] at hq
    cases hq
  · rw [ports_setPort, if_neg hqp]
    exact h.bound q sp hq
  · rw [hx] at hq
    cases hq
  · rw [ports_setPort, if_neg hqp]
    exact h.state q sp (Set.notMem_empty q) hq
  · rw [hx] at hq
    cases hq
  · exact h.addr q sp hq
  · exact hn r hq
  · exact h.next q r hq

lemma NamesOk.destroy {fuel : ℕ} (h : NamesOk m {p} s dead) (hp : p ≠ 0)
    (hstate : (s.ports p).state = .active) (hs : ipcPortDestroy fuel s p = some s') :
    NamesOk m ∅ s' dead := by
  unfold ipcPortDestroy at hs
  rw [if_neg (not_not.mpr hstate)] at hs
  obtain ⟨s1, hs1, rfl⟩ := Option.map_eq_some_iff.mp hs
  have hp' : p ∉ ({p} : Set ℕ) → False := fun hn => hn rfl
  have h0 : NamesOk m {p} (s.setPortState p .zombie) dead := h.setPort rfl rfl (fun hn => (hp' hn).elim) rfl
  obtain ⟨h1, -⟩ := h0.drain hs1
  have h2 : NamesOk m {p} (s1.emptyQueue p) dead := h1.setPort rfl rfl (fun hn => (hp' hn).elim) rfl
  obtain ⟨h3, hnone⟩ := h2.dropReceiverName
  generalize Chimera.dropReceiverName _ p = s3 at h3 hnone ⊢
  apply NamesOk.release _ hp
  exact h3.setUnbound hnone fun q hq => h3.next p q hq

/-- A space changes, and keeps the names its ports have. -/
lemma NamesOk.setSpace (h : NamesOk m loose s dead) (sp : ℕ) {x : IpcSpace} {D : Set ℕ}
    (hx : SpaceOk m.whole x D) (hact : x.active = (s.spaces sp).active)
    (hb : ∀ p, (s.ports p).receiver = some sp → BoundName x (s.ports p).receiverName p ∨ p ∈ loose ∧
      ipcNameGen (s.ports p).receiverName ≠ (x.table (ipcNameIndex (s.ports p).receiverName)).gen) :
    NamesOk m loose (s.setSpace sp x) (Function.update dead sp D) := by
  refine ⟨fun sp' => ?_, fun p sp' hp => ?_, h.state, h.addr, h.arena, h.list, h.next, fun sp' hsp' => ?_⟩
  · rw [spaces_setSpace, Function.update_apply]
    split_ifs with hsp
    · exact hx
    · exact h.space sp'
  · rw [spaces_setSpace]
    split_ifs with hsp
    · exact hb p (hsp ▸ hp)
    · exact h.bound p sp' hp
  · rw [spaces_setSpace]
    split_ifs with hsp
    · rw [hact, ← hsp]
      exact h.active sp' hsp'
    · exact h.active sp' hsp'

lemma NamesOk.bound_self (h : NamesOk m ∅ s dead) {q : ℕ} (hq : (s.ports q).receiver = some sp) :
    BoundName (s.spaces sp) (s.ports q).receiverName q :=
  (h.bound q sp hq).resolve_right fun hb => hb.1

lemma NamesOk.setUrefs (h : NamesOk m ∅ s dead) (sp i u : ℕ) :
    NamesOk m ∅ (s.setSpace sp ((s.spaces sp).setEntry i { (s.spaces sp).table i with urefs := u }))
      dead := by
  have h' := h.setSpace sp ((h.space sp).setUrefs i u) rfl
    fun q hq => .inl ((h.bound_self hq).setUrefs i u)
  rwa [Function.update_eq_self] at h'

/-- The last user reference of a name is dropped. -/
def dropsLast (s : Ipc) (sp name : ℕ) : Prop :=
  name ≠ nameNull ∧ name ≠ nameDead ∧ staleName (s.spaces sp) name = false ∧
    ((s.spaces sp).table (ipcNameIndex name)).bits ≠ typeNone ∧
    ((s.spaces sp).table (ipcNameIndex name)).urefs = 1

lemma spaceFreeName_setUrefs {x : IpcSpace} {u : ℕ} :
    spaceFreeName (x.setEntry i { x.table i with urefs := u }) i = spaceFreeName x i := by
  simp [spaceFreeName, IpcSpace.setEntry]

/-- **The last reference to a name is given up.** -/
lemma NamesOk.dropName (h : NamesOk m ∅ s dead) (hlast : dropsLast s sp name)
    (hcare : m.pins → (s.ports ((s.spaces sp).table (ipcNameIndex name)).object).state ≠ .special)
    (hs : dropRight fuel (s.setSpace sp (spaceFreeName (s.spaces sp) (ipcNameIndex name))) sp
      ((s.spaces sp).table (ipcNameIndex name)) = some s') :
    NamesOk m ∅ s' (Function.update dead sp (dead sp ∪ sameName name)) := by
  obtain ⟨-, -, hstale, hbits, -⟩ := hlast
  set e := (s.spaces sp).table (ipcNameIndex name) with he
  have hx := h.space sp
  obtain ⟨hlt, hgen⟩ : ipcNameIndex name < (s.spaces sp).tableUsed ∧ ipcNameGen name = e.gen := by
    simpa [staleName] using hstale
  have hpos : 1 ≤ ipcNameIndex name := by
    rw [Nat.one_le_iff_ne_zero]
    intro h0
    rw [he, h0] at hbits
    exact hbits hx.zero
  have hok := hx.freeName hpos hlt hbits rfl hgen
  have t := hx.spaceFreeName_set hbits
  -- a port bound to the freed name is the object of the entry, which has the right to receive
  have hkeep : ∀ q, (s.ports q).receiver = some sp → ¬ (q = e.object ∧ e.bits &&& typeReceive ≠ 0) →
      BoundName (spaceFreeName (s.spaces sp) (ipcNameIndex name)) (s.ports q).receiverName q := by
    intro q hq hne
    have b := h.bound_self hq
    refine b.set t le_rfl fun hi => hne ⟨?_, ?_⟩
    · rw [he, ← hi, b.object]
    · rw [he, ← hi]
      rw [b.bits]
      decide
  unfold dropRight at hs
  by_cases h0 : e.object = 0
  · rw [if_pos h0] at hs
    cases hs
    refine h.setSpace sp hok t.active fun q hq => .inl (hkeep q hq fun hne => h.addr q sp hq ?_)
    rw [hne.1, h0]
  · rw [if_neg h0, Ipc.setSpace_ports] at hs
    by_cases hrecv : e.bits &&& typeReceive ≠ 0 ∧ (s.ports e.object).receiver = some sp
    · rw [if_pos hrecv] at hs
      have hactive : (s.ports e.object).state = .active :=
        (h.state _ _ (Set.notMem_empty _) hrecv.2).resolve_right fun hp => hcare hp.1 hp.2
      have hloose : NamesOk m {e.object} s dead :=
        ⟨h.space, fun q sp hq => .inl (h.bound_self hq), fun q sp _ => h.state q sp (Set.notMem_empty q),
          h.addr, h.arena, h.list, h.next, h.active⟩
      refine (hloose.setSpace sp hok t.active fun q hq => ?_).destroy h0 hactive hs
      by_cases hqe : q = e.object
      · -- the port itself: its name is the freed one, or another one of this space
        subst hqe
        have b := h.bound_self hq
        by_cases hi : ipcNameIndex (s.ports e.object).receiverName = ipcNameIndex name
        · right
          refine ⟨rfl, ?_⟩
          rw [b.gen, hi, t.self]
          exact (Nat.lt_succ_self _).ne
        · exact .inl (b.set t le_rfl hi)
      · exact .inl (hkeep q hq fun hne => hqe hne.1)
    · rw [if_neg hrecv] at hs
      have h1 := h.setSpace sp hok t.active fun q hq => .inl (hkeep q hq fun hne => hrecv ⟨hne.2, hne.1 ▸ hq⟩)
      split_ifs at hs
      · cases hs
        apply NamesOk.release _ h0
        exact h1.setPort rfl rfl (fun _ => rfl) rfl
      · cases hs
        exact h1.release h0

/-! ## Allocation -/

section

variable (h : NamesOk m ∅ s dead)
include h

lemma NamesOk.portArenaAlloc {r : Option ℕ × Ipc} (hr : portArenaAlloc s = r) :
    NamesOk m ∅ r.2 dead ∧ r.2.spaces = s.spaces ∧ ∀ p, r.1 = some p → p ≠ 0 := by
  subst hr
  unfold Chimera.portArenaAlloc
  cases hlist : s.portFreeList with
  | none =>
    split_ifs
    · refine ⟨⟨h.space, h.bound, h.state, h.addr, h.arena, fun q hq => (by cases hq), h.next, h.active⟩, rfl,
        fun p hp => ?_⟩
      rw [← Option.some.inj hp]
      exact h.arena _
    · exact ⟨h, rfl, fun p hp => by cases hp⟩
  | some p =>
    have b : SameBinding ∅ s (s.setPort p { s.ports p with next := none }) := .setPort rfl rfl fun _ => rfl
    refine ⟨h.same ⟨b.spaces, b.receiver, b.name, b.state⟩ rfl (h.next p) fun q r hq => ?_, rfl, fun q hq => ?_⟩
    · simp only [ports_setPort] at hq
      split_ifs at hq
      exact h.next q r hq
    · rw [← Option.some.inj hq]
      exact h.list p hlist

/-- **A name is handed out** in a space. -/
lemma NamesOk.grant (hhead : (dead sp).Nonempty → headInRange (s.spaces sp))
    {r : ℕ × IpcSpace} (hr : spaceAllocName (s.spaces sp) = r) (object : ℕ) (hbits : bits ≠ typeNone) :
    (r.1 = nameNull ∧ r.2 = s.spaces sp) ∨
      r.1 ≠ nameNull ∧ r.1 ∉ dead sp ∧ ((s.spaces sp).table (ipcNameIndex r.1)).bits = typeNone ∧ NamesOk m ∅ (s.setSpace sp (setRight r.2 r.1 object bits)) dead ∧
        1 ≤ ipcNameIndex r.1 ∧ ipcNameIndex r.1 < (setRight r.2 r.1 object bits).tableUsed ∧
        ∃ u, (setRight r.2 r.1 object bits).table (ipcNameIndex r.1) = ⟨object, bits, u, ipcNameGen r.1⟩ := by
  subst hr
  have hx := h.space sp
  rcases hx.spaceAllocName_cases hhead with hnull | ⟨i, g, hd, used, count, d, hname, ht⟩
  · exact .inl hnull
  · have t := ht object bits
    obtain ⟨hi, hiu, hus⟩ := d.range
    have hi64 : i < 64 := hiu.trans_le hus
    have hidx : ipcNameIndex (spaceAllocName (s.spaces sp)).1 = i := by rw [hname, ipcNameIndex_make hi64]
    have hgen : ipcNameGen (spaceAllocName (s.spaces sp)).1 = g := by rw [hname, ipcNameGen_make d.gen_lt]
    -- the entry was not a port's name
    have hkeep : ∀ q, (s.ports q).receiver = some sp →
        BoundName (setRight (spaceAllocName (s.spaces sp)).2 (spaceAllocName (s.spaces sp)).1 object bits)
          (s.ports q).receiverName q := by
      intro q hq
      have b := h.bound_self hq
      refine b.set t d.used_le fun hqi => b.bits_ne ?_
      rw [hqi, d.wasNone]
    right
    refine ⟨?_, fun hdead => ?_, hidx.symm ▸ d.wasNone, ?_, ?_, ?_, 1, ?_⟩
    · rw [hname]
      exact ipcNameMake_ne_null hi hi64
    · have hlt := d.dead_lt _ hdead hidx
      rw [hgen] at hlt
      exact hlt.false
    · have h' := h.setSpace sp (hx.occupy d t hbits) t.active fun q hq => .inl (hkeep q hq)
      rwa [Function.update_eq_self] at h'
    · rw [hidx]
      exact hi
    · rw [hidx, t.used]
      exact hiu
    · rw [hidx, t.self, hgen]

/-- A port is bound to a name of which it is the object. -/
lemma NamesOk.bind (hr : x.receiver = some sp)
    (b : BoundName (s.spaces sp) x.receiverName p) (hs : x.state = .active) (hp : p ≠ 0)
    (hn : ∀ q, x.next = some q → q ≠ 0) : NamesOk m ∅ (s.setPort p x) dead := by
  refine ⟨h.space, fun q sp' hq => ?_, fun q sp' _ hq => ?_, fun q sp' hq => ?_, h.arena, h.list,
    fun q r hq => ?_, h.active⟩
  all_goals
    rw [ports_setPort] at hq
    split_ifs at hq with hqp
  · obtain rfl : sp = sp' := Option.some.inj (hr.symm.trans hq)
    rw [ports_setPort, if_pos hqp, hqp]
    exact .inl b
  · rw [ports_setPort, if_neg hqp]
    exact h.bound q sp' hq
  · rw [ports_setPort, if_pos hqp]
    exact .inl hs
  · rw [ports_setPort, if_neg hqp]
    exact h.state q sp' (Set.notMem_empty q) hq
  · exact hqp ▸ hp
  · exact h.addr q sp' hq
  · exact hn r hq
  · exact h.next q r hq

/-- A space that is written back as it was. -/
lemma NamesOk.setSpace_self : NamesOk m ∅ (s.setSpace sp (s.spaces sp)) dead := by
  have heq : s.setSpace sp (s.spaces sp) = s := by rw [Ipc.setSpace, Function.update_eq_self]
  rwa [heq]

/-- **`ipc_port_alloc`** returns a name that is not dead. -/
lemma NamesOk.ipcPortAlloc (hhead : (dead sp).Nonempty → headInRange (s.spaces sp)) {r : Except ChimeraError ℕ × Ipc}
    (hr : ipcPortAlloc s sp = r) :
    NamesOk m ∅ r.2 dead ∧ ∀ n, r.1 = .ok n →
      n ∉ dead sp ∧ ((s.spaces sp).table (ipcNameIndex n)).bits = typeNone := by
  subst hr
  unfold Chimera.ipcPortAlloc
  rcases ha : Chimera.portArenaAlloc s with ⟨_ | p, s1⟩
  · exact ⟨(h.portArenaAlloc ha).1, fun n hn => by cases hn⟩
  · obtain ⟨h1, hspaces, hp⟩ := h.portArenaAlloc ha
    have hp := hp p rfl
    have h2 : NamesOk m ∅ (s1.setPort p (ipcPortInitInternal (s1.ports p))) dead :=
      h1.setUnbound rfl fun q hq => by cases hq
    have hport : (s1.setPort p (ipcPortInitInternal (s1.ports p))).ports p =
        ipcPortInitInternal (s1.ports p) := by simp
    have hspaces : (s1.setPort p (ipcPortInitInternal (s1.ports p))).spaces = s.spaces := hspaces
    dsimp only
    generalize s1.setPort p (ipcPortInitInternal (s1.ports p)) = s2 at h2 hport hspaces ⊢
    have hgrant := h2.grant (hspaces ▸ hhead) rfl p (show typeSendReceive ≠ typeNone by decide)
    by_cases hactive : ¬ (s2.spaces sp).active
    · rw [if_pos hactive]
      exact ⟨h2.portArenaFree hp, fun n hn => by cases hn⟩
    · rw [if_neg hactive]
      rcases hgrant with ⟨hnull, hself⟩ | ⟨hne, hfresh, hnone, h3, hlo, hhi, u, hentry⟩
      · rw [if_pos hnull, hself]
        exact ⟨h2.setSpace_self.portArenaFree hp, fun n hn => by cases hn⟩
      · rw [if_neg hne]
        refine ⟨h3.bind rfl ?_ (by rw [hport]; rfl) hp fun q hq => ?_, fun n hn => ?_⟩
        · simp only [spaces_setSpace, if_pos]
          exact ⟨⟨hlo, hhi⟩, by rw [hentry], by rw [hentry], by rw [hentry]⟩
        · rw [hport] at hq
          cases hq
        · rw [← Except.ok.inj hn, ← hspaces]
          exact ⟨hfresh, hnone⟩

/-- A name without a port. -/
lemma NamesOk.allocBareName (hhead : (dead sp).Nonempty → headInRange (s.spaces sp)) (hbits : bits ≠ typeNone) :
    NamesOk m ∅ (allocBareName s sp bits).2 dead ∧ ∀ n, (allocBareName s sp bits).1 = .ok n →
      n ∉ dead sp ∧ ((s.spaces sp).table (ipcNameIndex n)).bits = typeNone := by
  unfold Chimera.allocBareName
  rcases h.grant hhead rfl 0 hbits with ⟨hnull, hself⟩ | ⟨hne, hfresh, hnone, h', -⟩
  · rw [if_pos hnull, hself]
    exact ⟨h.setSpace_self, fun n hn => by cases hn⟩
  · rw [if_neg hne]
    refine ⟨h', fun n hn => ?_⟩
    rw [← Except.ok.inj hn]
    exact ⟨hfresh, hnone⟩

/-- **`mach_port_allocate_kernel`** returns a name that is not dead. -/
lemma NamesOk.allocate (hhead : (dead sp).Nonempty → headInRange (s.spaces sp))
    (right : PortRight) :
    NamesOk m ∅ (machPortAllocateKernel s sp right).2 dead ∧ ∀ n, (machPortAllocateKernel s sp right).1 = .ok n →
        n ∉ dead sp ∧ ((s.spaces sp).table (ipcNameIndex n)).bits = typeNone := by
  cases right with
  | receive => exact h.ipcPortAlloc hhead rfl
  | portSet => exact h.allocBareName hhead (by decide)
  | deadName => exact h.allocBareName hhead (by decide)
  | send => exact ⟨h, fun n hn => by cases hn⟩
  | sendOnce => exact ⟨h, fun n hn => by cases hn⟩

end

/-! ## Send rights -/

/-- An entry that was ever used is a send right to port `p`. -/
def holdsSend (x : IpcSpace) (p i : ℕ) : Prop :=
  1 ≤ i ∧ i < x.tableUsed ∧ (x.table i).object = p ∧ (x.table i).bits &&& typeSend ≠ 0

/-- `ipc_port_copyout_send` finds the first send right. -/
lemma findSendRight_eq_some {x : IpcSpace} :
    findSendRight x p = some i ↔ holdsSend x p i ∧ ∀ j < i, ¬ holdsSend x p j := by
  unfold findSendRight holdsSend
  rw [List.find?_range'_eq_some]
  simp only [decide_eq_true_eq, List.mem_range'_1, Bool.not_eq_true', decide_eq_false_iff_not]
  constructor
  · rintro ⟨hprop, hmem, hfirst⟩
    exact ⟨⟨hmem.1, by omega, hprop⟩, fun j hj h => hfirst j h.1 hj h.2.2⟩
  · rintro ⟨⟨hi, hiu, hprop⟩, hfirst⟩
    exact ⟨hprop, ⟨hi, by omega⟩, fun j hj hji h => hfirst j hji ⟨hj, by omega, h⟩⟩

lemma findSendRight_eq_none {x : IpcSpace} : findSendRight x p = none ↔ ∀ i, ¬ holdsSend x p i := by
  unfold findSendRight holdsSend
  rw [List.find?_eq_none]
  simp only [decide_eq_true_eq, List.mem_range'_1]
  exact ⟨fun h i hi => h i ⟨hi.1, by omega⟩ hi.2.2, fun h i hi hp => h i ⟨hi.1, by omega, hp⟩⟩

/-- What is asked of the copy of a send right: an entry the space has is of generation `0`, and a new
one does not come round. -/
def copyoutInRange (s : Ipc) (sp p : ℕ) : Prop :=
  (s.ports p).receiver ≠ some sp →
    match findSendRight (s.spaces sp) p with
    | some i => ((s.spaces sp).table i).gen = 0
    | none => headInRange (s.spaces sp)

/-- **`ipc_port_copyout_send`** returns a name that is not dead; a new one was free before. -/
lemma NamesOk.copyout (h : NamesOk m ∅ s dead) (hcare : (dead sp).Nonempty → copyoutInRange s sp p) :
    NamesOk m ∅ (ipcPortCopyoutSend s sp (some p)).2 dead ∧ ((ipcPortCopyoutSend s sp (some p)).1 ≠ nameNull →
        (ipcPortCopyoutSend s sp (some p)).1 ∉ dead sp ∧
          ((s.ports p).receiver ≠ some sp → findSendRight (s.spaces sp) p = none →
            ((s.spaces sp).table (ipcNameIndex (ipcPortCopyoutSend s sp (some p)).1)).bits = typeNone)) := by
  have hx := h.space sp
  unfold ipcPortCopyoutSend
  dsimp only
  by_cases hr : (s.ports p).receiver = some sp
  · rw [if_pos hr]
    exact ⟨h, fun _ => ⟨hx.notMem_of_bound (h.bound_self hr), fun hne => absurd hr hne⟩⟩
  · rw [if_neg hr]
    have hcare := fun hd => hcare hd hr
    cases hfind : findSendRight (s.spaces sp) p with
    | some i =>
      rw [hfind] at hcare
      obtain ⟨⟨hi, hiu, -, hsend⟩, -⟩ := findSendRight_eq_some.mp hfind
      refine ⟨?_, fun _ => ⟨fun hdead => ?_, fun _ hnone => by cases hnone⟩⟩
      · exact h.setUrefs sp i _
      · -- the bare index is the name of generation `0`
        have hi64 : i < 64 := hiu.trans_le hx.used.2
        have hlt := (hx.dead_lt i hdead).2.2
        have hidx : ipcNameIndex i = i := Nat.mod_eq_of_lt hi64
        rw [hidx, hcare ⟨i, hdead⟩] at hlt
        exact absurd hlt (Nat.not_lt_zero _)
    | none =>
      rw [hfind] at hcare
      rcases h.grant hcare rfl p (show typeSend ≠ typeNone by decide) with
        ⟨hnull, hself⟩ | ⟨hne, hfresh, hnone, h', -⟩
      · rw [if_pos hnull, hself]
        exact ⟨h.setSpace_self, fun hn => absurd rfl hn⟩
      · rw [if_neg hne]
        exact ⟨h'.setPort rfl rfl (fun _ => rfl) rfl, fun _ => ⟨hfresh, fun _ _ => hnone⟩⟩

lemma NamesOk.deallocate (h : NamesOk m ∅ s dead) (hcare : m.pins → dropsLast s sp name →
      (s.ports ((s.spaces sp).table (ipcNameIndex name)).object).state ≠ .special)
    {e : ChimeraError} (hs : machPortDeallocateKernel fuel s sp name = some (e, s')) :
    NamesOk m ∅ s' fun sp' => dead sp' ∪ {n | sp' = sp ∧ dropsLast s sp name ∧ n ∈ sameName name} := by
  -- without a last reference no name dies
  have hsame : ¬ dropsLast s sp name →
      (fun sp' => dead sp' ∪ {n | sp' = sp ∧ dropsLast s sp name ∧ n ∈ sameName name}) = dead := by
    intro hlast
    funext sp'
    ext n
    simp [hlast]
  unfold machPortDeallocateKernel at hs
  by_cases hname : name = nameNull ∨ name = nameDead
  · rw [if_pos hname] at hs
    cases hs
    rw [hsame fun hl => hname.elim hl.1 hl.2.1]
    exact h
  rw [if_neg hname] at hs
  rw [not_or] at hname
  by_cases hstale : staleName (s.spaces sp) name = true
  · rw [if_pos hstale] at hs
    cases hs
    rw [hsame fun hl => by simp [hl.2.2.1] at hstale]
    exact h
  rw [if_neg hstale] at hs
  by_cases hnone : ((s.spaces sp).table (ipcNameIndex name)).bits = typeNone ∨
      ((s.spaces sp).table (ipcNameIndex name)).urefs = 0
  · rw [if_pos hnone] at hs
    cases hs
    rw [hsame fun hl => hnone.elim hl.2.2.2.1 fun h0 => by simp [hl.2.2.2.2] at h0]
    exact h
  rw [if_neg hnone] at hs
  rw [not_or] at hnone
  by_cases hlast : ((s.spaces sp).table (ipcNameIndex name)).urefs = 1
  · rw [if_pos hlast, spaceFreeName_setUrefs] at hs
    obtain ⟨s1, hs1, heq⟩ := Option.map_eq_some_iff.mp hs
    cases heq
    have hd : dropsLast s sp name := ⟨hname.1, hname.2, Bool.eq_false_iff.mpr hstale, hnone.1, hlast⟩
    have h' := h.dropName hd (fun hm => hcare hm hd) hs1
    convert h' using 1
    funext sp'
    rw [Function.update_apply]
    split_ifs with hsp
    · ext n
      simp [hsp, hd]
    · ext n
      simp [hsp]
  · rw [if_neg hlast] at hs
    cases hs
    rw [hsame fun hl => hlast hl.2.2.2.2]
    exact h.setUrefs sp _ _

end ports

/-! ## Runs -/

/-- The steps of a run. -/
inductive NameOp where
  /-- `ipc_port_alloc` (for a receive right) or `mach_port_allocate_kernel`. -/
  | allocate (sp : ℕ) (right : PortRight)
  /-- `ipc_port_copyout_send`. -/
  | copyout (sp : ℕ) (port : Option ℕ)
  /-- `mach_port_deallocate_kernel`. -/
  | deallocate (sp name : ℕ)
  /-- A port is pinned, as `ipc_init` does with the bootstrap port. -/
  | pin (port : ℕ)
  deriving DecidableEq, Repr

/-- One step, with the name it returns, if any, and the space it returns it to. -/
inductive NameStep (s : Ipc) : NameOp → Option (ℕ × ℕ) → Ipc → Prop
  | allocate {sp n : ℕ} {right : PortRight} {s' : Ipc}
      (hs : machPortAllocateKernel s sp right = (.ok n, s')) :
      NameStep s (.allocate sp right) (some (sp, n)) s'
  | refused {sp : ℕ} {right : PortRight} {e : ChimeraError} {s' : Ipc}
      (hs : machPortAllocateKernel s sp right = (.error e, s')) :
      NameStep s (.allocate sp right) none s'
  | copyout {sp n : ℕ} {port : Option ℕ} {s' : Ipc} (hs : ipcPortCopyoutSend s sp port = (n, s')) :
      NameStep s (.copyout sp port) (if n = nameNull then none else some (sp, n)) s'
  | deallocate {sp name fuel : ℕ} {e : ChimeraError} {s' : Ipc}
      (hs : machPortDeallocateKernel fuel s sp name = some (e, s')) :
      NameStep s (.deallocate sp name) none s'
  | pin {port : ℕ} (hp : (s.ports port).state = .active) :
      NameStep s (.pin port) none (s.setPort port { s.ports port with state := .special })

/-- The names that are dead after a step: a name dies when its last user reference is dropped. -/
def deadAfter (s : Ipc) (dead : ℕ → Set ℕ) : NameOp → ℕ → Set ℕ
  | .deallocate sp name => fun sp' =>
      dead sp' ∪ {n | sp' = sp ∧ dropsLast s sp name ∧ n ∈ sameName name}
  | _ => dead

/-- A step under which names stay unique: no generation comes round, the send right that
`ipc_port_copyout_send` finds is of generation `0`, and the port whose name is given up is not
pinned. -/
def NameOp.careful (s : Ipc) : NameOp → Prop
  | .allocate sp _ => headInRange (s.spaces sp)
  | .copyout sp (some p) => copyoutInRange s sp p
  | .deallocate sp name => dropsLast s sp name →
      (s.ports ((s.spaces sp).table (ipcNameIndex name)).object).state ≠ .special
  | _ => True

/-- Runs from `s₀` each of whose steps satisfies `C` in the state it is taken in, with the dead names
of each space. -/
inductive NameRun (C : Ipc → NameOp → Prop) (s₀ : Ipc) : Ipc → (ℕ → Set ℕ) → Prop
  | start : NameRun C s₀ s₀ fun _ => ∅
  | step {s s' : Ipc} {dead : ℕ → Set ℕ} {r : Option (ℕ × ℕ)} (op : NameOp) (hrun : NameRun C s₀ s dead)
      (hC : C s op) (hstep : NameStep s op r s') : NameRun C s₀ s' (deadAfter s dead op)

/-- A space as `ipc_space_create` makes it of a table that was never used. -/
structure NewSpace (x : IpcSpace) : Prop where
  size : x.tableSize = ipcSpaceInitialCapacity
  used : x.tableUsed = 1
  table : ∀ i, (x.table i).bits = typeNone ∧ (x.table i).gen = 0
  freeHead : x.freeHead = nameNull

/-- New spaces, and no port in use. -/
structure NoNames (s : Ipc) : Prop where
  space : ∀ sp, NewSpace (s.spaces sp)
  receiver : ∀ p, (s.ports p).receiver = none ∧ (s.ports p).next = none
  freeList : s.portFreeList = none
  arena : ∀ i, s.portArena i ≠ 0

lemma NewSpace.ok {x : IpcSpace} {whole : Prop} (h : NewSpace x) (hw : whole → x.freeCount = 0) :
    SpaceOk whole x ∅ := by
  refine ⟨h.size, ?_, ?_, ⟨[], ?_, fun i hi => absurd hi List.not_mem_nil, fun h' => ⟨hw h', fun i hi hiu => ?_⟩⟩,
    (h.table 0).1, fun i => ?_,
    fun i hi => absurd (h.table i).1 hi, fun i hi hiu => ?_, fun i _ => (h.table i).symm,
    fun n hn => absurd hn (Set.notMem_empty n)⟩
  · rw [h.used]
    decide
  · rw [h.freeHead]
    decide
  · rw [h.freeHead]
    rfl
  · rw [h.used] at hiu
    omega
  · rw [(h.table i).2]
    decide
  · rw [h.used] at hiu
    omega

variable {m : NameMode} {s : Ipc} {dead : ℕ → Set ℕ}

lemma NoNames.ok (h : NoNames s) (hw : m.whole → ∀ sp, (s.spaces sp).freeCount = 0)
    (hon : ∀ sp ∈ m.on, (s.spaces sp).active = true) : NamesOk m ∅ s fun _ => ∅ := by
  have hnone : ∀ {p sp}, (s.ports p).receiver ≠ some sp := by
    intro p sp hp
    rw [(h.receiver p).1] at hp
    cases hp
  refine ⟨fun sp => (h.space sp).ok fun h' => hw h' sp, fun p sp hp => absurd hp hnone, fun p sp _ hp => absurd hp hnone,
    fun p sp hp => absurd hp hnone, h.arena, fun q hq => ?_, fun p q hq => ?_, hon⟩
  · rw [h.freeList] at hq
    cases hq
  · rw [(h.receiver p).2] at hq
    cases hq

/-- The step hands out a new name, not one that its space has for the port. -/
def NameOp.isNew (s : Ipc) : NameOp → Prop
  | .allocate _ _ => True
  | .copyout sp (some p) => (s.ports p).receiver ≠ some sp ∧ findSendRight (s.spaces sp) p = none
  | _ => False

/-- **One step**: the invariant is kept, and the name returned is not dead; a new one was free. -/
lemma NamesOk.step {s' : Ipc} {op : NameOp} {r : Option (ℕ × ℕ)}
    (h : NamesOk m ∅ s dead) (hC : (m.pins ∨ ∃ sp, (dead sp).Nonempty) → op.careful s)
    (hpin : m.pins ∨ ∀ p, op ≠ .pin p) (hs : NameStep s op r s') :
    NamesOk m ∅ s' (deadAfter s dead op) ∧ ∀ sp n, r = some (sp, n) →
      n ∉ dead sp ∧ (op.isNew s → ((s.spaces sp).table (ipcNameIndex n)).bits = typeNone) := by
  cases hs with
  | allocate hs =>
    obtain ⟨h', hfresh⟩ := h.allocate (fun hd => hC (.inr ⟨_, hd⟩)) _
    rw [hs] at h' hfresh
    refine ⟨h', fun sp n hn => ?_⟩
    cases hn
    exact (hfresh _ rfl).imp_right fun hb _ => hb
  | refused hs =>
    obtain ⟨h', -⟩ := h.allocate (fun hd => hC (.inr ⟨_, hd⟩)) _
    rw [hs] at h'
    exact ⟨h', fun sp n hn => by cases hn⟩
  | @copyout sp n port s' hs =>
    cases port with
    | none =>
      cases hs
      exact ⟨h, fun sp n hn => by cases hn⟩
    | some p =>
      obtain ⟨h', hfresh⟩ := h.copyout fun hd => hC (.inr ⟨_, hd⟩)
      rw [hs] at h' hfresh
      refine ⟨h', fun sp' n' hn => ?_⟩
      split_ifs at hn with h0
      cases hn
      exact (hfresh h0).imp_right fun hb hnew => hb hnew.1 hnew.2
  | deallocate hs => exact ⟨h.deallocate (fun hm => hC (.inl hm)) hs, fun sp n hn => by cases hn⟩
  | @pin p hp =>
    have hpins : m.pins := hpin.resolve_right fun hne => hne p rfl
    refine ⟨⟨h.space, fun q sp hq => ?_, fun q sp _ hq => ?_, fun q sp hq => ?_, h.arena, h.list,
      fun q r hq => ?_, h.active⟩, fun sp n hn => by cases hn⟩
    all_goals
      rw [ports_setPort] at hq
      split_ifs at hq with hqp
    · rw [ports_setPort, if_pos hqp, hqp]
      exact h.bound p sp hq
    · rw [ports_setPort, if_neg hqp]
      exact h.bound q sp hq
    · rw [ports_setPort, if_pos hqp]
      exact .inr ⟨hpins, rfl⟩
    · rw [ports_setPort, if_neg hqp]
      exact h.state q sp (Set.notMem_empty q) hq
    · exact hqp ▸ h.addr p sp hq
    · exact h.addr q sp hq
    · exact h.next p r hq
    · exact h.next q r hq

/-- The mode of runs with pinned ports. -/
def pinMode : NameMode := ⟨True, False, ∅⟩

lemma NameRun.ok {s0 : Ipc} (h0 : NoNames s0)
    (h : NameRun (fun s op => op.careful s) s0 s dead) : NamesOk pinMode ∅ s dead := by
  induction h with
  | start => exact h0.ok False.elim fun _ => False.elim
  | step op _ hC hstep ih => exact (ih.step (fun _ => hC) (.inl trivial) hstep).1

/-- What is promised of dead names: every lookup rejects them, and no step returns one. -/
structure DeadNames (s : Ipc) (dead : ℕ → Set ℕ) : Prop where
  lookup : ∀ sp, ∀ n ∈ dead sp, ∀ right, ipcPortLookup s sp n right = none
  deallocate : ∀ sp, ∀ n ∈ dead sp, ∀ fuel, machPortDeallocateKernel fuel s sp n = some (.invalid, s)
  type : ∀ sp, ∀ n ∈ dead sp, machPortTypeKernel s sp n = .error .invalid

lemma NamesOk.deadNames (h : NamesOk m ∅ s dead) : DeadNames s dead := by
  refine ⟨fun sp n hn right => ?_, fun sp n hn fuel => ?_, fun sp n hn => ?_⟩
  · have hgen := (h.space sp).gen_ne hn
    unfold ipcPortLookup
    simp [hgen]
  · have hstale := (h.space sp).stale hn
    unfold machPortDeallocateKernel
    simp [hstale]
  · have hstale := (h.space sp).stale hn
    unfold machPortTypeKernel
    simp [hstale]

/-- **Stale names stay dead.** In every run in which no generation comes round, no send right of
another generation than `0` is copied out a second time and no pinned port loses its name, a name
whose last user reference was dropped is rejected by every lookup, and no step returns it again. -/
theorem stale_names_dead {s₀ s : Ipc} {dead : ℕ → Set ℕ} (h₀ : NoNames s₀)
    (h : NameRun (fun s op => op.careful s) s₀ s dead) :
    DeadNames s dead ∧ ∀ op r s', op.careful s → NameStep s op r s' → ∀ sp n, r = some (sp, n) → n ∉ dead sp :=
  ⟨(h.ok h₀).deadNames, fun _ _ _ hC hs sp n hr => (((h.ok h₀).step (fun _ => hC) (.inl trivial) hs).2 sp n hr).1⟩

lemma quietIpc_noNames (v : Vm) : NoNames (quietIpc v) := by
  refine ⟨fun sp => ⟨rfl, rfl, fun i => ⟨rfl, rfl⟩, rfl⟩, fun p => ⟨rfl, rfl⟩, rfl, fun i => ?_⟩
  exact Nat.ne_of_gt (Nat.lt_of_lt_of_le (by decide) (Nat.le_add_right _ _))

/-- A port is allocated in space `0`, and its name `1` is given up. -/
lemma nameOne_dies : ∃ s1 s2, machPortAllocateKernel (quietIpc noVm) 0 .receive = (.ok 1, s1) ∧
    dropsLast s1 0 1 ∧ (s1.ports ((s1.spaces 0).table 1).object).state = .active ∧
    machPortDeallocateKernel 0 s1 0 1 = some (.success, s2) :=
  ⟨_, _, rfl, ⟨by decide, by decide, rfl, by decide, rfl⟩, rfl, rfl⟩

theorem stale_names_dead_quiet : ∃ s dead, 1 ∈ dead 0 ∧
    (DeadNames s dead ∧ ∀ op r s', op.careful s → NameStep s op r s' → ∀ sp n, r = some (sp, n) → n ∉ dead sp) := by
  obtain ⟨s1, s2, hs1, hlast, hactive, hs2⟩ := nameOne_dies
  have hhead : headInRange ((quietIpc noVm).spaces 0) := fun h => absurd h (by decide)
  have h1 : NameRun (fun s op => op.careful s) (quietIpc noVm) s1 fun _ => ∅ :=
    .step (.allocate 0 .receive) .start hhead (.allocate hs1)
  have hcare : NameOp.careful s1 (.deallocate 0 1) := fun _ => by
    rw [show ipcNameIndex 1 = 1 from rfl, hactive]
    decide
  have h2 := NameRun.step (.deallocate 0 1) h1 hcare (.deallocate hs2)
  exact ⟨s2, _, .inr ⟨rfl, hlast, rfl, rfl⟩, stale_names_dead (quietIpc_noNames noVm) h2⟩

/-- Space `0` has given up its name `1`; a port of space `1` is copied out to it twice. The first time it
gets the same entry under a new generation, the second time the bare index of that entry. -/
lemma secondCopyout_bare : ∃ s1 s2 s3 s4 s5,
    machPortAllocateKernel (quietIpc noVm) 0 .receive = (.ok 1, s1) ∧ dropsLast s1 0 1 ∧
    machPortDeallocateKernel 0 s1 0 1 = some (.success, s2) ∧
    machPortAllocateKernel s2 1 .receive = (.ok 1, s3) ∧
    ipcPortCopyoutSend s3 0 (some 0xFFFFFFFF80400000) = (129, s4) ∧
    (s4.ports 0xFFFFFFFF80400000).state = .active ∧
    ipcPortCopyoutSend s4 0 (some 0xFFFFFFFF80400000) = (1, s5) ∧ ipcPortLookup s5 0 1 typeSend = none :=
  ⟨_, _, _, _, _, rfl, ⟨by decide, by decide, rfl, by decide, rfl⟩, rfl, rfl, rfl, rfl, rfl, rfl⟩

/-- **`ipc_port_copyout_send` returns a dead name**: the bare index is the name that was given up. -/
theorem copyout_returns_deadName : ∃ s dead op r s', NameRun (fun _ _ => True) (quietIpc noVm) s dead ∧
    NameStep s op r s' ∧ ∃ sp n, r = some (sp, n) ∧ n ∈ dead sp := by
  obtain ⟨s1, s2, s3, s4, s5, hs1, hlast, hs2, hs3, hs4, -, hs5, -⟩ := secondCopyout_bare
  have hrun := NameRun.step (C := fun _ _ => True) (.copyout 0 _) (.step (.allocate 1 .receive) (.step (.deallocate 0 1)
    (.step (.allocate 0 .receive) .start trivial (.allocate hs1)) trivial (.deallocate hs2)) trivial
    (.allocate hs3)) trivial (.copyout hs4)
  exact ⟨s4, _, .copyout 0 _, _, s5, hrun, .copyout hs5, 0, 1, rfl, .inr ⟨rfl, hlast, rfl, rfl⟩⟩

end Chimera
