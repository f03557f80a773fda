import Chimera.Ipc.Kobject

/-!
# Fresh ports

`ipc_port_init_internal` sets every field of a slot but `ip_kobject` and `ip_kotype`, so a recycled slot
keeps the kernel object of its previous life, and `ipc_mqueue_send` goes by it. No function but
`ipc_kobject_set` writes the field (`KeepsKobjects`), so as long as `ipc_port_alloc` finds no bound slot
at the head of the free list, a port it returns is as good as new. `recycledPort_bound` is a run in
which it does find one: a task has given up its own port.
-/

namespace Chimera

open Lib

/-! ## Who writes `ip_kobject` -/

/-- No port has been bound or unbound, and no slot taken from the arena for the first time. -/
structure KeepsKobjects (s s' : Ipc) : Prop where
  kobject : ∀ p, (s'.ports p).kobject = (s.ports p).kobject
  arena : s'.portArena = s.portArena
  next : s'.portArenaNext = s.portArenaNext

section keeps

variable {s s' s'' : Ipc} {p : ℕ}

lemma KeepsKobjects.refl (s : Ipc) : KeepsKobjects s s := ⟨fun _ => rfl, rfl, rfl⟩

lemma KeepsKobjects.trans (h : KeepsKobjects s s') (h' : KeepsKobjects s' s'') : KeepsKobjects s s'' :=
  ⟨fun p => (h'.kobject p).trans (h.kobject p), h'.arena.trans h.arena, h'.next.trans h.next⟩

lemma KeepsKobjects.of_ports (hp : s'.ports = s.ports) (ha : s'.portArena = s.portArena)
    (hn : s'.portArenaNext = s.portArenaNext) : KeepsKobjects s s' :=
  ⟨fun p => by rw [hp], ha, hn⟩

/-- A port changes, but not its kernel object. -/
lemma KeepsKobjects.setPort {x : IpcPort} (hx : x.kobject = (s.ports p).kobject) :
    KeepsKobjects s (s.setPort p x) := by
  refine ⟨fun q => ?_, rfl, rfl⟩
  rw [Ipc.ports_setPort]
  split_ifs with hq
  · rw [hx, hq]
  · rfl

lemma keeps_portArenaFree (s : Ipc) (p : ℕ) : KeepsKobjects s (portArenaFree s p) := by
  unfold portArenaFree
  split_ifs
  · exact .refl s
  · have h : KeepsKobjects s (s.setPort p { s.ports p with next := s.portFreeList }) := .setPort rfl
    exact ⟨h.kobject, rfl, rfl⟩

lemma keeps_release (s : Ipc) (p : ℕ) : KeepsKobjects s (ipcPortRelease s p) := by
  unfold ipcPortRelease
  dsimp only
  split_ifs
  · apply KeepsKobjects.trans _ (keeps_portArenaFree _ p)
    exact .setPort rfl
  · exact .setPort rfl

lemma keeps_kmsgFree (s : Ipc) (k : Kmsg) : KeepsKobjects s (ipcKmsgFree s k) := by
  cases k <;> exact .of_ports rfl rfl rfl

variable {n fuel sp timeoutMs : ℕ}

lemma keeps_drain {k : Option Kmsg} (h : drainQueue n k s = some s') : KeepsKobjects s s' := by
  induction n generalizing k s with
  | zero =>
    cases k with
    | none =>
      obtain rfl := Option.some.inj h
      exact .refl s
    | some k => cases h
  | succ n ih =>
    cases k with
    | none =>
      obtain rfl := Option.some.inj h
      exact .refl s
    | some k => exact (keeps_kmsgFree s k).trans (ih h)

lemma keeps_dropReceiverName (s : Ipc) (p : ℕ) : KeepsKobjects s (dropReceiverName s p) := by
  unfold dropReceiverName
  cases (s.ports p).receiver with
  | none => exact .refl s
  | some sp =>
    refine ⟨fun q => ?_, rfl, rfl⟩
    rw [Ipc.ports_setPort]
    by_cases hq : q = p
    · rw [if_pos hq, hq]
    · rw [if_neg hq]
      rfl

lemma keeps_destroy (h : ipcPortDestroy fuel s p = some s') : KeepsKobjects s s' := by
  unfold ipcPortDestroy at h
  split_ifs at h
  · cases h
    exact .refl s
  · obtain ⟨s1, hs1, rfl⟩ := Option.map_eq_some_iff.mp h
    have h0 : KeepsKobjects s (s.setPortState p .zombie) := .setPort rfl
    have h1 := h0.trans (keeps_drain hs1)
    have h2 : KeepsKobjects s1 (s1.emptyQueue p) := .setPort rfl
    have h3 := (h1.trans h2).trans (keeps_dropReceiverName _ p)
    apply KeepsKobjects.trans _ (keeps_release _ p)
    exact h3.trans (.setPort rfl)

lemma keeps_dropRight {e : IpcEntry} (h : dropRight fuel s sp e = some s') : KeepsKobjects s s' := by
  unfold dropRight at h
  split_ifs at h
  · cases h
    exact .refl s
  · exact keeps_destroy h
  · cases h
    apply KeepsKobjects.trans _ (keeps_release _ _)
    exact .setPort rfl
  · cases h
    exact keeps_release s _

lemma keeps_deallocate {name : ℕ} {e : ChimeraError}
    (h : machPortDeallocateKernel fuel s sp name = some (e, s')) : KeepsKobjects s s' := by
  unfold machPortDeallocateKernel at h
  dsimp only at h
  split_ifs at h
  · cases h
    exact .refl s
  · cases h
    exact .refl s
  · cases h
    exact .refl s
  · obtain ⟨s1, hs1, heq⟩ := Option.map_eq_some_iff.mp h
    cases heq
    have h1 := keeps_dropRight hs1
    exact ⟨h1.kobject, h1.arena, h1.next⟩
  · cases h
    exact .of_ports rfl rfl rfl

lemma keeps_copyout {port : Option ℕ} (h : ipcPortCopyoutSend s sp port = (n, s')) : KeepsKobjects s s' := by
  cases port with
  | none =>
    cases h
    exact .refl s
  | some p =>
    unfold ipcPortCopyoutSend at h
    dsimp only at h
    by_cases hr : (s.ports p).receiver = some sp
    · rw [if_pos hr] at h
      cases h
      exact .refl s
    · rw [if_neg hr] at h
      cases hfind : findSendRight (s.spaces sp) p with
      | some i =>
        rw [hfind] at h
        cases h
        exact .of_ports rfl rfl rfl
      | none =>
        rw [hfind] at h
        split_ifs at h
        · cases h
          exact .of_ports rfl rfl rfl
        · cases h
          have h' : KeepsKobjects s (s.setPort p { s.ports p with
            srights := u32 ((s.ports p).srights + 1) }) := .setPort rfl
          exact ⟨h'.kobject, rfl, rfl⟩

lemma keeps_foldl_release (l : List IpcEntry) (s : Ipc) :
    KeepsKobjects s (l.foldl (fun s e => ipcPortRelease s e.object) s) := by
  induction l generalizing s with
  | nil => exact .refl s
  | cons e l ih => exact (keeps_release s e.object).trans (ih _)

lemma keeps_foldlM_destroy {l : List IpcEntry}
    (h : l.foldlM (fun s e => ipcPortDestroy fuel s e.object) s = some s') : KeepsKobjects s s' := by
  induction l generalizing s with
  | nil =>
    obtain rfl := Option.some.inj h
    exact .refl s
  | cons e l ih =>
    obtain ⟨s1, hs1, h1⟩ := Option.bind_eq_some_iff.mp h
    exact (keeps_destroy hs1).trans (ih h1)

lemma keeps_spaceDestroy (h : ipcSpaceDestroy fuel s sp = some s') : KeepsKobjects s s' := by
  obtain ⟨s1, hs1, rfl⟩ := Option.map_eq_some_iff.mp h
  have h1 := keeps_foldlM_destroy hs1
  exact KeepsKobjects.trans ⟨h1.kobject, h1.arena, h1.next⟩ (keeps_foldl_release _ s1)

lemma keeps_append (s : Ipc) (p : ℕ) (k : Kmsg) : KeepsKobjects s (mqueueAppend s p k) := by
  have h : KeepsKobjects s (s.setPort p { s.ports p with messages := (s.ports p).messages.append k }) := .setPort rfl
  exact ⟨h.kobject, rfl, rfl⟩

lemma keeps_take (s : Ipc) (p : ℕ) (k : Kmsg) : KeepsKobjects s (mqueueTake s p k) := by
  have h : KeepsKobjects s (s.setPort p { s.ports p with
    messages := (s.ports p).messages.tail (s.kmsgs k).next }) := .setPort rfl
  exact ⟨h.kobject, rfl, rfl⟩

lemma keeps_sendEnter (s : Ipc) (p : ℕ) (k : Kmsg) (timeoutMs : ℕ) :
    KeepsKobjects s (mqueueSendEnter s p k timeoutMs).2 := by
  unfold mqueueSendEnter
  split_ifs
  · exact .refl s
  · exact .refl s
  · exact .refl s
  · exact keeps_append s p k

lemma keeps_sendResume (s : Ipc) (p : ℕ) (k : Kmsg) (expired : Bool) :
    KeepsKobjects s (mqueueSendResume s p k expired).2 := by
  unfold mqueueSendResume
  split_ifs
  · exact .refl s
  · exact keeps_append s p k
  · exact .refl s
  · exact .refl s

lemma keeps_receive {expired : Bool} {r : ReceiveResult}
    (h : mqueueReceive s p timeoutMs expired = some (r, s')) : KeepsKobjects s s' := by
  unfold mqueueReceive at h
  split_ifs at h
  · cases h
    exact .refl s
  · obtain ⟨k, -, hk⟩ := Option.map_eq_some_iff.mp h
    cases hk
    exact keeps_take s p k
  · cases h
    exact .refl s
  · cases h
    exact .refl s

lemma keeps_setPmm (s : Ipc) (m : Pmm) : KeepsKobjects s (s.setPmm m) := .of_ports rfl rfl rfl

lemma keeps_takePages (s : Ipc) (x : IpcKmsg) : KeepsKobjects s (s.takePages x) := .of_ports rfl rfl rfl

lemma keeps_takePool (s : Ipc) (i : ℕ) (x : IpcKmsg) : KeepsKobjects s (s.takePool i x) := .of_ports rfl rfl rfl

lemma keeps_kmsgFromPages (s : Ipc) (n : ℕ) (r : ℕ × Pmm) : KeepsKobjects s (kmsgFromPages s n r).2 := by
  unfold kmsgFromPages
  split_ifs
  · exact keeps_setPmm s _
  · exact (keeps_setPmm s _).trans (keeps_takePages _ _)

lemma keeps_kmsgFromPool (s : Ipc) (n : ℕ) (r : Option ℕ) : KeepsKobjects s (kmsgFromPool s n r).2 := by
  cases r with
  | some i => exact keeps_takePool s i _
  | none => exact keeps_kmsgFromPages s n _

lemma keeps_kmsgAlloc (s : Ipc) (n : ℕ) : KeepsKobjects s (ipcKmsgAlloc s n).2 := by
  unfold ipcKmsgAlloc
  split_ifs
  · exact .refl s
  · have h1 : KeepsKobjects s { s with kmsgNext := u32 (s.kmsgNext + 1) } := .of_ports rfl rfl rfl
    exact h1.trans (keeps_kmsgFromPool _ n _)
  · exact keeps_kmsgFromPages s n _

lemma keeps_vmAllocate (s : Ipc) (t address size flags : ℕ) :
    KeepsKobjects s (vmAllocate s t address size flags).2.2 := by
  unfold vmAllocate
  dsimp only
  by_cases h1 : (s.tasks t).vmMap = 0 ∨ size = 0 ∨ 0x100000000 < size
  · rw [if_pos h1]
    exact .refl s
  · split_ifs <;> exact .of_ports rfl rfl rfl

lemma keeps_kobjectRequest {t replyPort : ℕ} {data : Bytes} {r : Reply × Ipc}
    (h : kobjectRequest fuel s p t replyPort data = some r) : KeepsKobjects s r.2 := by
  unfold kobjectRequest taskRequest at h
  by_cases hk : (s.ports p).kotype = ikotTask
  · rw [if_pos hk] at h
    by_cases h1 : (readHeader data).id = machVmAllocateId
    · rw [if_pos h1] at h
      cases h
      exact keeps_vmAllocate s t _ _ _
    rw [if_neg h1] at h
    by_cases h2 : (readHeader data).id = machVmDeallocateId
    · rw [if_pos h2] at h
      obtain ⟨x, hx, rfl⟩ := Option.map_eq_some_iff.mp h
      unfold vmDeallocate at hx
      dsimp only at hx
      split_ifs at hx
      · obtain ⟨v, -, rfl⟩ := Option.map_eq_some_iff.mp hx
        exact .of_ports rfl rfl rfl
      · cases hx
        exact .refl s
    rw [if_neg h2] at h
    by_cases h3 : (readHeader data).id = taskGetSpecialPortId
    · rw [if_pos h3] at h
      cases h
      exact .refl s
    rw [if_neg h3] at h
    by_cases h4 : (readHeader data).id = taskSetSpecialPortId
    · rw [if_pos h4] at h
      cases h
      exact .of_ports rfl rfl rfl
    rw [if_neg h4] at h
    split_ifs at h
    · cases h
      exact .refl s
    · cases h
      exact .refl s
  · rw [if_neg hk] at h
    cases h
    exact .refl s

/-- **Sending a message binds no port**, whether it is queued or served. -/
lemma keeps_mqueueSend {depth : ℕ} {k : Kmsg} {r : SendResult × Ipc}
    (h : ipcMqueueSend fuel depth s p k timeoutMs = some r) : KeepsKobjects s r.2 := by
  induction depth generalizing s p k timeoutMs r with
  | zero => cases h
  | succ depth ih =>
    rw [ipcMqueueSend] at h
    by_cases hstate : (s.ports p).state ≠ .active
    · rw [if_pos hstate] at h
      cases h
      exact .refl s
    rw [if_neg hstate] at h
    cases hko : (s.ports p).kobject with
    | none =>
      rw [hko] at h
      cases h
      exact keeps_sendEnter s p k timeoutMs
    | some t =>
      rw [hko] at h
      obtain ⟨s3, hs3, rfl⟩ := Option.map_eq_some_iff.mp h
      obtain ⟨q, hq, hserve⟩ := Option.bind_eq_some_iff.mp hs3
      obtain ⟨s2, hs2, rfl⟩ := Option.map_eq_some_iff.mp hserve
      have h1 := keeps_kobjectRequest hq
      apply KeepsKobjects.trans _ (keeps_kmsgFree s2 k)
      apply h1.trans
      cases hlocal : (s.kmsgs k).localPort with
      | none =>
        rw [hlocal] at hs2
        cases hs2
        exact .refl _
      | some replyPort =>
        rw [hlocal] at hs2
        dsimp only [sendReply] at hs2
        have ha := keeps_kmsgAlloc q.2 q.1.size
        rcases halloc : ipcKmsgAlloc q.2 q.1.size with ⟨_ | k', s4⟩
        · rw [halloc] at hs2 ha
          cases hs2
          exact ha
        · rw [halloc] at hs2 ha
          obtain ⟨r', hr', rfl⟩ := Option.map_eq_some_iff.mp hs2
          have hsend := ih hr'
          exact ha.trans ⟨hsend.kobject, hsend.arena, hsend.next⟩

end keeps

/-! ## Runs -/

/-- The steps of a run. -/
inductive PortOp where
  /-- `ipc_port_alloc`. -/
  | alloc (sp : ℕ)
  /-- `ipc_kobject_set`, or `task_create` for a task port. -/
  | bind (port : ℕ) (kobject : Option ℕ) (kotype : ℕ)
  /-- A section of `ipc_mqueue_send`. -/
  | send (port : ℕ) (k : Kmsg) (timeoutMs : ℕ)
  /-- `ipc_mqueue_send` after a sleep. -/
  | resume (port : ℕ) (k : Kmsg) (expired : Bool)
  /-- A round of `ipc_mqueue_receive`. -/
  | receive (port timeoutMs : ℕ) (expired : Bool)
  /-- `ipc_port_copyout_send`. -/
  | copyout (sp : ℕ) (port : Option ℕ)
  /-- `mach_port_deallocate_kernel`. -/
  | deallocate (sp name : ℕ)
  /-- `ipc_space_destroy`. -/
  | destroySpace (sp : ℕ)
  /-- `ipc_kmsg_free`. -/
  | freeKmsg (k : Kmsg)
  deriving DecidableEq, Repr

/-- One step, on the state and on the set of ports that have been returned by `ipc_port_alloc` and not
been bound to a kernel object since. -/
inductive PortStep (s : Ipc) (fresh : Set ℕ) : PortOp → Ipc → Set ℕ → Prop
  | alloc {sp n : ℕ} {s' : Ipc} (hs : ipcPortAlloc s sp = (.ok n, s')) :
      PortStep s fresh (.alloc sp) s' (insert ((s'.spaces sp).table (ipcNameIndex n)).object fresh)
  | refused {sp : ℕ} {e : ChimeraError} {s' : Ipc} (hs : ipcPortAlloc s sp = (.error e, s')) :
      PortStep s fresh (.alloc sp) s' fresh
  | bind {p kotype i : ℕ} {ko : Option ℕ} (hi : i < s.portArenaNext) (hp : p = s.portArena i) :
      PortStep s fresh (.bind p ko kotype) (ipcKobjectSet s p ko kotype) (fresh \ {p})
  | send {p timeoutMs fuel depth : ℕ} {k : Kmsg} {r : SendResult × Ipc}
      (hs : ipcMqueueSend fuel depth s p k timeoutMs = some r) :
      PortStep s fresh (.send p k timeoutMs) r.2 fresh
  | resume {p : ℕ} {k : Kmsg} {expired : Bool} :
      PortStep s fresh (.resume p k expired) (mqueueSendResume s p k expired).2 fresh
  | receive {p timeoutMs : ℕ} {expired : Bool} {r : ReceiveResult} {s' : Ipc}
      (hs : mqueueReceive s p timeoutMs expired = some (r, s')) :
      PortStep s fresh (.receive p timeoutMs expired) s' fresh
  | copyout {sp n : ℕ} {port : Option ℕ} {s' : Ipc} (hs : ipcPortCopyoutSend s sp port = (n, s')) :
      PortStep s fresh (.copyout sp port) s' fresh
  | deallocate {sp name fuel : ℕ} {e : ChimeraError} {s' : Ipc}
      (hs : machPortDeallocateKernel fuel s sp name = some (e, s')) :
      PortStep s fresh (.deallocate sp name) s' fresh
  | destroySpace {sp fuel : ℕ} {s' : Ipc} (hs : ipcSpaceDestroy fuel s sp = some s') :
      PortStep s fresh (.destroySpace sp) s' fresh
  | freeKmsg {k : Kmsg} : PortStep s fresh (.freeKmsg k) (ipcKmsgFree s k) fresh

/-- An allocation does not take a slot from the free list that is still bound. -/
def PortOp.careful (s : Ipc) : PortOp → Prop
  | .alloc _ => ∀ p, s.portFreeList = some p → (s.ports p).kobject = none
  | _ => True

/-- Runs from `s₀` each of whose steps satisfies `C` in the state it is taken in. -/
inductive PortRun (C : Ipc → PortOp → Prop) (s₀ : Ipc) : Ipc → Set ℕ → Prop
  | start : PortRun C s₀ s₀ ∅
  | step {s s' : Ipc} {fresh fresh' : Set ℕ} (op : PortOp) (hrun : PortRun C s₀ s fresh) (hC : C s op)
      (hstep : PortStep s fresh op s' fresh') : PortRun C s₀ s' fresh'

/-- An arena of which no slot has been bound. -/
structure UnboundArena (s : Ipc) : Prop where
  injective : Function.Injective s.portArena
  unbound : ∀ p, (s.ports p).kobject = none

/-- **The invariant**: slots that were never used and ports that are fresh are bound to no object. -/
structure FreshInv (s : Ipc) (fresh : Set ℕ) : Prop where
  injective : Function.Injective s.portArena
  unused : ∀ i, s.portArenaNext ≤ i → (s.ports (s.portArena i)).kobject = none
  fresh_unbound : ∀ p ∈ fresh, (s.ports p).kobject = none

variable {fresh : Set ℕ} {s s' : Ipc} {sp kotype p : ℕ}

lemma FreshInv.keeps (h : FreshInv s fresh) (hk : KeepsKobjects s s') : FreshInv s' fresh := by
  refine ⟨hk.arena ▸ h.injective, fun i hi => ?_, fun p hp => ?_⟩
  · rw [hk.next] at hi
    rw [hk.kobject, hk.arena]
    exact h.unused i hi
  · rw [hk.kobject]
    exact h.fresh_unbound p hp

/-- The slot `port_arena_alloc` takes is not bound, and no port is bound or unbound by it. -/
lemma FreshInv.portArenaAlloc {r : Option ℕ} (h : FreshInv s fresh)
    (hC : ∀ p, s.portFreeList = some p → (s.ports p).kobject = none)
    (hr : portArenaAlloc s = (r, s')) :
    FreshInv s' fresh ∧ ∀ p, r = some p → (s'.ports p).kobject = none := by
  unfold Chimera.portArenaAlloc at hr
  cases hlist : s.portFreeList with
  | some p =>
    rw [hlist] at hr
    cases hr
    have hk : KeepsKobjects s (s.setPort p { s.ports p with next := none }) := .setPort rfl
    refine ⟨h.keeps ⟨hk.kobject, rfl, rfl⟩, fun q hq => ?_⟩
    cases hq
    exact (hk.kobject p).trans (hC p hlist)
  | none =>
    rw [hlist] at hr
    split_ifs at hr
    · cases hr
      refine ⟨⟨h.injective, fun i hi => h.unused i (Nat.le_of_succ_le hi), h.fresh_unbound⟩, ?_⟩
      intro q hq
      cases hq
      exact h.unused _ le_rfl
    · cases hr
      exact ⟨h, fun p hp => by cases hp⟩

/-- A port as `ipc_port_alloc` makes it of a slot that was never used. -/
def newPort (sp n : ℕ) : IpcPort where
  references := 1
  state := .active
  srights := 1
  receiver := some sp
  receiverName := n
  messages := ⟨none, none, 0, ipcPortMsgQueueDefault, 0⟩
  next := none
  kobject := none
  kotype := 0

/-- **`ipc_port_alloc`**: the port is as good as new, but for `ip_kotype`, which nobody reads while
there is no object. -/
lemma FreshInv.ipcPortAlloc {r : Except ChimeraError ℕ}
    (h : FreshInv s fresh) (hC : ∀ p, s.portFreeList = some p → (s.ports p).kobject = none)
    (hr : ipcPortAlloc s sp = (r, s')) :
    FreshInv s' fresh ∧ ∀ n, r = .ok n → ∃ p kotype, ((s'.spaces sp).table (ipcNameIndex n)).object = p ∧
      s'.ports p = { newPort sp n with kotype := kotype } := by
  unfold Chimera.ipcPortAlloc at hr
  rcases ha : Chimera.portArenaAlloc s with ⟨_ | p, s1⟩
  · rw [ha] at hr
    cases hr
    exact ⟨(h.portArenaAlloc hC ha).1, fun n hn => by cases hn⟩
  · rw [ha] at hr
    obtain ⟨h1, hp⟩ := h.portArenaAlloc hC ha
    have hp := hp p rfl
    have hk : KeepsKobjects s1 (s1.setPort p (ipcPortInitInternal (s1.ports p))) := .setPort rfl
    have hport : (s1.setPort p (ipcPortInitInternal (s1.ports p))).ports p =
        ipcPortInitInternal (s1.ports p) := by simp
    dsimp only at hr
    generalize s1.setPort p (ipcPortInitInternal (s1.ports p)) = s2 at hr hk hport
    have h2 := h1.keeps hk
    by_cases hactive : ¬ (s2.spaces sp).active
    · rw [if_pos hactive] at hr
      cases hr
      exact ⟨h2.keeps (keeps_portArenaFree s2 p), fun n hn => by cases hn⟩
    · rw [if_neg hactive] at hr
      split_ifs at hr
      · cases hr
        have hf := keeps_portArenaFree (s2.setSpace sp (spaceAllocName (s2.spaces sp)).2) p
        exact ⟨h2.keeps ⟨hf.kobject, hf.arena, hf.next⟩, fun n hn => by cases hn⟩
      · cases hr
        refine ⟨h2.keeps ?_, fun n hn => ⟨p, (s1.ports p).kotype, ?_, ?_⟩⟩
        · have hs : KeepsKobjects s2 (s2.setPort p { s2.ports p with
            receiver := some sp, receiverName := (spaceAllocName (s2.spaces sp)).1, srights := 1 }) :=
            .setPort rfl
          exact ⟨hs.kobject, rfl, rfl⟩
        · cases hn
          simp [setRight]
        · cases hn
          rw [Ipc.ports_setPort, if_pos rfl, hport]
          simp [ipcPortInitInternal, newPort, hp]

/-- Binding a port takes it out of the fresh ones; the others do not see it. -/
lemma FreshInv.bind {i : ℕ} {ko : Option ℕ} (h : FreshInv s fresh)
    (hi : i < s.portArenaNext) (hp : p = s.portArena i) :
    FreshInv (ipcKobjectSet s p ko kotype) (fresh \ {p}) := by
  have hother : ∀ q ≠ p, (ipcKobjectSet s p ko kotype).ports q = s.ports q := by
    intro q hq
    rw [ipcKobjectSet, Ipc.ports_setPort, if_neg hq]
  refine ⟨h.injective, fun j hj => ?_, fun q hq => ?_⟩
  · have hne : s.portArena j ≠ p := by
      intro heq
      have hji : j = i := h.injective (heq.trans hp)
      have : s.portArenaNext ≤ j := hj
      omega
    exact (congrArg IpcPort.kobject (hother _ hne)).trans (h.unused j hj)
  · rw [hother q hq.2]
    exact h.fresh_unbound q hq.1

lemma FreshInv.step {fresh' : Set ℕ} {op : PortOp} (h : FreshInv s fresh)
    (hC : op.careful s) (hstep : PortStep s fresh op s' fresh') : FreshInv s' fresh' := by
  cases hstep with
  | alloc hs =>
    obtain ⟨h', hport⟩ := h.ipcPortAlloc hC hs
    obtain ⟨p, kotype, hobject, hp⟩ := hport _ rfl
    refine ⟨h'.injective, h'.unused, fun q hq => ?_⟩
    rcases hq with rfl | hq
    · rw [hobject, hp]
      rfl
    · exact h'.fresh_unbound q hq
  | refused hs => exact (h.ipcPortAlloc hC hs).1
  | bind hi hp => exact h.bind hi hp
  | send hs => exact h.keeps (keeps_mqueueSend hs)
  | resume => exact h.keeps (keeps_sendResume s _ _ _)
  | receive hs => exact h.keeps (keeps_receive hs)
  | copyout hs => exact h.keeps (keeps_copyout hs)
  | deallocate hs => exact h.keeps (keeps_deallocate hs)
  | destroySpace hs => exact h.keeps (keeps_spaceDestroy hs)
  | freeKmsg => exact h.keeps (keeps_kmsgFree s _)

lemma PortRun.freshInv {s0 : Ipc} (h0 : UnboundArena s0)
    (hrun : PortRun (fun s op => op.careful s) s0 s fresh) : FreshInv s fresh := by
  induction hrun with
  | start => exact ⟨h0.injective, fun i _ => h0.unbound _, fun p hp => absurd hp (Set.notMem_empty p)⟩
  | step op _ hC hstep ih => exact ih.step hC hstep

/-! ## What a sender sees -/

/-- The first message to a new port is queued, as the only one. -/
lemma mqueueSendEnter_newPort {n : ℕ}
    (hp : s.ports p = { newPort sp n with kotype := kotype }) (k : Kmsg) (timeoutMs : ℕ) :
    mqueueSendEnter s p k timeoutMs = (.done .success, mqueueAppend s p k) ∧
      ((mqueueAppend s p k).ports p).messages = ⟨some k, some k, 1, ipcPortMsgQueueDefault, 1⟩ := by
  constructor
  · rw [mqueueSendEnter, hp]
    rfl
  · change ((s.setPort p _).ports p).messages = _
    rw [Ipc.ports_setPort, if_pos rfl, hp]
    rfl

lemma quietIpc_unboundArena (v : Vm) : UnboundArena (quietIpc v) := by
  refine ⟨fun i j hij => ?_, fun p => rfl⟩
  have h : 0xFFFFFFFF80400000 + i * 512 = 0xFFFFFFFF80400000 + j * 512 := hij
  omega

end Chimera
