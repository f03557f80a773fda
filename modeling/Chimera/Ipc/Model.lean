import Chimera.Lib.SList
import Chimera.Lib.Bytes
import Chimera.Pmap.Model

/-!
# Ports, spaces and message queues: `kernel/mach/ipc_port.c` and the queues of `ipc_kmsg.c`

The state `Ipc` holds the port arena, the name spaces, the service table, the kernel messages, and
the tasks and memory that messages reach.

Conventions.
* A port is named by its address, a space or a task by its place in its pool; a port pointer is an
  `Option`. The one exception is `ie_object`, which the free list of a space uses for names as well: it
  is the 64-bit word itself.
* A message of the pool is named by its place in it. A message from the page allocator is an object of
  its own, with a number of its own.
* A call is one step and locks are not modelled. What sleeps is cut at the point where it gives up its
  lock; the wait queues themselves are the subject of `Sched`.
* A walk along the links of a queue takes fuel and returns `none` without it.
* Fields that nothing reads are left out: signatures, labels, `ip_sorights`, the notification
  requests, `ip_prev`, the rights and the send time of a message.
-/

namespace Chimera

open Lib
open Function (update update_apply)

/-! ## Types -/

/-- The values of `chimera_error_t` that IPC returns. -/
inductive ChimeraError where
  | success
  | nomem
  | invalid
  | timeout
  | overflow
  | portDead
  | portFull
  | notSupported
  deriving DecidableEq, Repr

/-- A kernel message. -/
inductive Kmsg where
  /-- An entry of `s_kmsg_pool`. -/
  | pool (i : ℕ)
  /-- A message from the page allocator. -/
  | pages (n : ℕ)
  deriving DecidableEq, Repr

/-- `ipc_port_state_t`. -/
inductive PortState where
  | active
  | dead
  | zombie
  | special
  deriving DecidableEq, Repr

/-- `ipc_mqueue_t`. -/
structure IpcMqueue where
  messages : Option Kmsg
  messagesTail : Option Kmsg
  msgcount : ℕ
  qlimit : ℕ
  seqno : ℕ
  deriving DecidableEq, Repr

/-- `ipc_port_struct_t`. -/
structure IpcPort where
  references : ℕ
  state : PortState
  srights : ℕ
  receiver : Option ℕ
  receiverName : ℕ
  messages : IpcMqueue
  next : Option ℕ
  kobject : Option ℕ
  kotype : ℕ
  deriving DecidableEq, Repr

/-- `ipc_entry_t`. -/
structure IpcEntry where
  object : ℕ
  bits : ℕ
  urefs : ℕ
  gen : ℕ
  deriving DecidableEq, Repr

/-- `ipc_space_t`, with its table. -/
structure IpcSpace where
  active : Bool
  tableSize : ℕ
  tableUsed : ℕ
  table : ℕ → IpcEntry
  task : Option ℕ
  freeHead : ℕ
  freeCount : ℕ

/-- An element of `ikm_ool_regions`. -/
structure OolRegion where
  addr : ℕ
  size : ℕ
  deriving DecidableEq, Repr

/-- `ipc_kmsg_t`. -/
structure IpcKmsg where
  next : Option Kmsg
  prev : Option Kmsg
  size : ℕ
  remotePort : Option ℕ
  localPort : Option ℕ
  senderPid : ℕ
  senderUid : ℕ
  seqno : ℕ
  oolCount : ℕ
  oolRegions : ℕ → OolRegion
  /-- `ikm_data`, where the message header is. -/
  data : Bytes
  /-- Where the page allocator put the message, if it is not in the pool. -/
  paddr : ℕ

/-- The fields of `chimera_task_t` that IPC reads. -/
structure Task where
  /-- `ta_vm_map`, the physical address of the PML4. -/
  vmMap : ℕ
  mmapNext : ℕ
  bootstrapPort : ℕ
  taskPort : ℕ
  /-- `p_pid` and `p_uid` of `ta_proc`. -/
  proc : Option (ℕ × ℕ)
  ipcSpace : ℕ
  deriving DecidableEq, Repr

/-- Mach IPC, with the tasks and the memory it works on. -/
structure Ipc where
  /-- The address of each slot of `s_port_arena`. -/
  portArena : ℕ → ℕ
  /-- `s_port_arena_next`. -/
  portArenaNext : ℕ
  /-- `s_port_free_list`. -/
  portFreeList : Option ℕ
  ports : ℕ → IpcPort
  /-- `s_space_next`. -/
  spaceNext : ℕ
  spaces : ℕ → IpcSpace
  /-- `s_services`, names as C strings. -/
  services : List (List (BitVec 8) × ℕ)
  kmsgs : Kmsg → IpcKmsg
  /-- `in_use` of the entries of `s_kmsg_pool`. -/
  kmsgInUse : ℕ → Bool
  /-- `s_kmsg_next`. -/
  kmsgNext : ℕ
  /-- The number of the next message from the page allocator. -/
  kmsgPages : ℕ
  tasks : ℕ → Task
  vm : Vm
  /-- `g_hhdm_base`. -/
  hhdmBase : ℕ
  /-- How often `ipc_kmsg_alloc` has returned a message; nothing reads it. -/
  taken : Kmsg → ℕ
  /-- How often `ipc_kmsg_free` has been given a message; nothing reads it. -/
  released : Kmsg → ℕ

namespace Ipc

variable (s : Ipc)

@[simps -fullyApplied spaces kmsgs]
def setPort (p : ℕ) (x : IpcPort) : Ipc := { s with ports := update s.ports p x }

@[simps -fullyApplied ports kmsgs]
def setSpace (sp : ℕ) (x : IpcSpace) : Ipc := { s with spaces := update s.spaces sp x }

@[simps -fullyApplied ports spaces]
def setKmsg (k : Kmsg) (x : IpcKmsg) : Ipc := { s with kmsgs := update s.kmsgs k x }

def setTask (t : ℕ) (x : Task) : Ipc := { s with tasks := update s.tasks t x }

def setVm (v : Vm) : Ipc := { s with vm := v }

def setPmm (m : Pmm) : Ipc := { s with vm := { s.vm with pmm := m } }

/-- Count a message as taken. -/
def take (k : Kmsg) : Ipc := { s with taken := update s.taken k (s.taken k + 1) }

/-- Count a message as released. -/
def release (k : Kmsg) : Ipc := { s with released := update s.released k (s.released k + 1) }

variable {s} {p q sp sp' : ℕ} {k k' : Kmsg}

@[simp] lemma ports_setPort (x : IpcPort) :
    (s.setPort p x).ports q = if q = p then x else s.ports q := update_apply _ _ _ _

@[simp] lemma spaces_setSpace (x : IpcSpace) :
    (s.setSpace sp x).spaces sp' = if sp' = sp then x else s.spaces sp' := update_apply _ _ _ _

@[simp] lemma kmsgs_setKmsg (x : IpcKmsg) :
    (s.setKmsg k x).kmsgs k' = if k' = k then x else s.kmsgs k' := update_apply _ _ _ _

@[simp] lemma tasks_setTask {t t' : ℕ} (x : Task) :
    (s.setTask t x).tasks t' = if t' = t then x else s.tasks t' := update_apply _ _ _ _

end Ipc

def IpcSpace.setEntry (sp : IpcSpace) (i : ℕ) (e : IpcEntry) : IpcSpace :=
  { sp with table := update sp.table i e }

@[simp] lemma IpcSpace.table_setEntry {sp : IpcSpace} {i j : ℕ} (e : IpcEntry) :
    (sp.setEntry i e).table j = if j = i then e else sp.table j := update_apply _ _ _ _

/-- `MACH_PORT_TYPE_NONE`. -/
def typeNone : ℕ := 0
/-- `MACH_PORT_TYPE_SEND`. -/
def typeSend : ℕ := 0x10000
/-- `MACH_PORT_TYPE_RECEIVE`. -/
def typeReceive : ℕ := 0x20000
/-- `MACH_PORT_TYPE_SEND_ONCE`. -/
def typeSendOnce : ℕ := 0x40000
/-- `MACH_PORT_TYPE_PORT_SET`. -/
def typePortSet : ℕ := 0x80000
/-- `MACH_PORT_TYPE_DEAD_NAME`. -/
def typeDeadName : ℕ := 0x100000
/-- `MACH_PORT_TYPE_SEND_RECEIVE`. -/
def typeSendReceive : ℕ := 0x30000

/-- `MACH_PORT_NAME_NULL`. -/
def nameNull : ℕ := 0
/-- `MACH_PORT_NAME_DEAD`. -/
def nameDead : ℕ := 0xFFFFFFFF

/-! ## Names -/

/-- Source: `ipc_name_make` -/
def ipcNameMake (gen idx : ℕ) : ℕ := gen % 1024 * 64 + idx % 64

/-- Source: `ipc_name_index` -/
def ipcNameIndex (name : ℕ) : ℕ := name % 64

/-- Source: `ipc_name_gen` -/
def ipcNameGen (name : ℕ) : ℕ := name / 64 % 1024

/-- A new name for an entry of the table: the head of the free list, or the next unused entry.
Source: `space_alloc_name` -/
def spaceAllocName (sp : IpcSpace) : ℕ × IpcSpace :=
  if 0 < sp.freeCount ∧ sp.freeHead ≠ nameNull then
    let idx := ipcNameIndex sp.freeHead
    let e := sp.table idx
    let gen := (e.gen + 1) % 256
    (ipcNameMake gen idx, { sp.setEntry idx { e with gen := gen } with
      freeHead := u32 e.object, freeCount := sp.freeCount - 1 })
  else if sp.tableUsed ≥ sp.tableSize then (nameNull, sp)
  else (ipcNameMake (sp.table sp.tableUsed).gen sp.tableUsed, { sp with tableUsed := sp.tableUsed + 1 })

/-- Source: `space_free_name` -/
def spaceFreeName (sp : IpcSpace) (idx : ℕ) : IpcSpace :=
  let e := sp.table idx
  let gen := (e.gen + 1) % 256
  { sp.setEntry idx ⟨sp.freeHead, typeNone, 0, gen⟩ with
    freeHead := ipcNameMake gen idx, freeCount := u32 (sp.freeCount + 1) }

/-! ## The port arena -/

/-- `IPC_PORT_ARENA_SIZE`. -/
def ipcPortArenaSize : ℕ := 4096

/-- Source: `port_arena_alloc` -/
def portArenaAlloc (s : Ipc) : Option ℕ × Ipc :=
  match s.portFreeList with
  | some p =>
      (some p, { s.setPort p { s.ports p with next := none } with portFreeList := (s.ports p).next })
  | none =>
      if s.portArenaNext < ipcPortArenaSize then
        (some (s.portArena s.portArenaNext), { s with portArenaNext := s.portArenaNext + 1 })
      else (none, s)

/-- Source: `port_arena_free` -/
def portArenaFree (s : Ipc) (p : ℕ) : Ipc :=
  if p < s.portArena 0 ∨ s.portArena ipcPortArenaSize ≤ p then s
  else { s.setPort p { s.ports p with next := s.portFreeList } with portFreeList := some p }

/-- `IPC_PORT_MSG_QUEUE_DEFAULT`. -/
def ipcPortMsgQueueDefault : ℕ := 64

/-- What `ipc_port_init_internal` makes of a slot; it does not set `ip_kobject` and `ip_kotype`.
Source: `ipc_port_init_internal` -/
def ipcPortInitInternal (port : IpcPort) : IpcPort where
  references := 1
  state := .active
  srights := 0
  receiver := none
  receiverName := nameNull
  messages := ⟨none, none, 0, ipcPortMsgQueueDefault, 0⟩
  next := none
  kobject := port.kobject
  kotype := port.kotype

/-- Source: `ipc_port_reference` -/
def ipcPortReference (s : Ipc) (p : ℕ) : Ipc :=
  s.setPort p { s.ports p with references := u32 ((s.ports p).references + 1) }

/-- Source: `ipc_port_release` -/
def ipcPortRelease (s : Ipc) (p : ℕ) : Ipc :=
  let prev := (s.ports p).references
  let s₁ := s.setPort p { s.ports p with references := u32 (prev + (2 ^ 32 - 1)) }
  if prev = 1 then portArenaFree s₁ p else s₁

/-! ## Kernel messages -/

/-- `KMSG_POOL_SIZE`. -/
def kmsgPoolSize : ℕ := 2048
/-- `KMSG_INLINE_MAX`. -/
def kmsgInlineMax : ℕ := 512
/-- `MACH_MSG_SIZE_MAX`. -/
def machMsgSizeMax : ℕ := 1024 * 1024
/-- `sizeof(ipc_kmsg_t)`. -/
def sizeofKmsg : ℕ := 384
/-- `sizeof(mach_msg_audit_trailer_t)`. -/
def sizeofAuditTrailer : ℕ := 20

/-- The pages of a message that is not in the pool. -/
def kmsgPageCount (size : ℕ) : ℕ := (sizeofKmsg + size + sizeofAuditTrailer + 4095) / 4096

/-- What `ipc_kmsg_alloc` makes of a message: the structure is cleared, the data is not. -/
def kmsgInit (m : IpcKmsg) (size paddr : ℕ) : IpcKmsg where
  next := none
  prev := none
  size := size
  remotePort := none
  localPort := none
  senderPid := 0
  senderUid := 0
  seqno := 0
  oolCount := 0
  oolRegions := fun _ => ⟨0, 0⟩
  data := m.data
  paddr := paddr

/-- The scan of the pool from `start`: the first entry that is not in use. -/
def kmsgPoolScan (s : Ipc) (start : ℕ) : Option ℕ :=
  ((List.range kmsgPoolSize).map fun i => (start + i) % kmsgPoolSize).find? fun i => ¬ s.kmsgInUse i

/-- Message number `kmsgPages` from the page allocator. -/
def Ipc.takePages (s : Ipc) (x : IpcKmsg) : Ipc :=
  { (s.setKmsg (.pages s.kmsgPages) x).take (.pages s.kmsgPages) with kmsgPages := s.kmsgPages + 1 }

/-- Entry `i` of the pool. -/
def Ipc.takePool (s : Ipc) (i : ℕ) (x : IpcKmsg) : Ipc :=
  { (s.setKmsg (.pool i) x).take (.pool i) with kmsgInUse := update s.kmsgInUse i true }

/-- A message from the page allocator, where `r` is what the allocator has returned. -/
def kmsgFromPages (s : Ipc) (msgSize : ℕ) (r : ℕ × Pmm) : Option Kmsg × Ipc :=
  if allocFailed r.1 then (none, s.setPmm r.2)
  else
    let k := Kmsg.pages s.kmsgPages
    (some k, (s.setPmm r.2).takePages (kmsgInit (s.kmsgs k) msgSize r.1))

/-- A message from the page allocator. -/
def kmsgAllocPages (s : Ipc) (msgSize : ℕ) : Option Kmsg × Ipc :=
  kmsgFromPages s msgSize (pmmAllocPages s.vm.pmm (kmsgPageCount msgSize))

/-- A small message: entry `i` of the pool, if the scan has found one. -/
def kmsgFromPool (s : Ipc) (msgSize : ℕ) : Option ℕ → Option Kmsg × Ipc
  | some i => (some (.pool i), s.takePool i (kmsgInit (s.kmsgs (.pool i)) kmsgInlineMax 0))
  | none => kmsgAllocPages s msgSize

/-- Source: `ipc_kmsg_alloc` -/
def ipcKmsgAlloc (s : Ipc) (msgSize : ℕ) : Option Kmsg × Ipc :=
  if machMsgSizeMax < msgSize then (none, s)
  else if msgSize ≤ kmsgInlineMax then
    kmsgFromPool { s with kmsgNext := u32 (s.kmsgNext + 1) } msgSize
      (kmsgPoolScan s (s.kmsgNext % kmsgPoolSize))
  else kmsgAllocPages s msgSize

/-- Free the pages of one out-of-line region. -/
def freeOolRegion (hhdmBase : ℕ) (pmm : Pmm) (r : OolRegion) : Pmm :=
  if r.addr = 0 then pmm
  else pmmFreeContiguous pmm (u64 (r.addr + (2 ^ 64 - hhdmBase % 2 ^ 64))) ((r.size + 4095) / 4096)

/-- Free the out-of-line regions of a message. -/
def freeOolRegions (hhdmBase : ℕ) (pmm : Pmm) (m : IpcKmsg) : Pmm :=
  (List.range m.oolCount).foldl (fun pmm i => freeOolRegion hhdmBase pmm (m.oolRegions i)) pmm

/-- A message that has given up its out-of-line regions. -/
def IpcKmsg.cleared (m : IpcKmsg) : IpcKmsg :=
  { m with
    oolCount := 0
    oolRegions := fun i =>
      if i < m.oolCount then { m.oolRegions i with addr := 0 } else m.oolRegions i }

/-- Source: `ipc_kmsg_free` -/
def ipcKmsgFree (s : Ipc) (k : Kmsg) : Ipc :=
  let m := s.kmsgs k
  let pmm := freeOolRegions s.hhdmBase s.vm.pmm m
  let s₁ := (s.setKmsg k m.cleared).release k
  match k with
  | .pool i => { s₁.setPmm pmm with kmsgInUse := update s.kmsgInUse i false }
  | .pages _ => s₁.setPmm (pmmFreeContiguous pmm m.paddr (kmsgPageCount m.size))

/-! ## Ports -/

/-- Free the messages of a queue, from `k` on. -/
def drainQueue : ℕ → Option Kmsg → Ipc → Option Ipc
  | _, none, s => some s
  | 0, some _, _ => none
  | n + 1, some k, s => drainQueue n (s.kmsgs k).next (ipcKmsgFree s k)

/-- Take the name of a port out of its receiver's space. -/
def dropReceiverName (s : Ipc) (p : ℕ) : Ipc :=
  match (s.ports p).receiver with
  | none => s
  | some sp =>
      let name := (s.ports p).receiverName
      let x := s.spaces sp
      let x' := if name ≠ nameNull ∧ ipcNameIndex name < x.tableSize ∧
          ipcNameGen name = (x.table (ipcNameIndex name)).gen then spaceFreeName x (ipcNameIndex name)
        else x
      (s.setSpace sp x').setPort p { s.ports p with receiver := none, receiverName := nameNull }

/-- `port->ip_state = st`. -/
def Ipc.setPortState (s : Ipc) (p : ℕ) (st : PortState) : Ipc :=
  s.setPort p { s.ports p with state := st }

/-- The queue of a port is emptied. -/
def Ipc.emptyQueue (s : Ipc) (p : ℕ) : Ipc :=
  s.setPort p { s.ports p with
    messages := { (s.ports p).messages with messages := none, messagesTail := none, msgcount := 0 } }

/-- Source: `ipc_port_destroy` -/
def ipcPortDestroy (fuel : ℕ) (s : Ipc) (p : ℕ) : Option Ipc :=
  if (s.ports p).state ≠ .active then some s
  else
    (drainQueue fuel (s.ports p).messages.messages (s.setPortState p .zombie)).map fun s₁ =>
      ipcPortRelease ((dropReceiverName (s₁.emptyQueue p) p).setPortState p .dead) p

/-- Make port `p` the object of a name.
Source: the body of `ipc_port_alloc`, `ipc_port_copyout_send`, `mach_port_allocate_kernel` -/
def setRight (sp : IpcSpace) (name object bits : ℕ) : IpcSpace :=
  sp.setEntry (ipcNameIndex name) { sp.table (ipcNameIndex name) with
    object := object, bits := bits, urefs := 1 }

/-- Source: `ipc_port_alloc` -/
def ipcPortAlloc (s : Ipc) (sp : ℕ) : Except ChimeraError ℕ × Ipc :=
  match portArenaAlloc s with
  | (none, s₁) => (.error .nomem, s₁)
  | (some p, s₁) =>
      let s₂ := s₁.setPort p (ipcPortInitInternal (s₁.ports p))
      if ¬ (s₂.spaces sp).active then (.error .invalid, portArenaFree s₂ p)
      else
        let r := spaceAllocName (s₂.spaces sp)
        if r.1 = nameNull then (.error .nomem, portArenaFree (s₂.setSpace sp r.2) p)
        else
          (.ok r.1, (s₂.setSpace sp (setRight r.2 r.1 p typeSendReceive)).setPort p
            { s₂.ports p with receiver := some sp, receiverName := r.1, srights := 1 })

/-- Source: `ipc_port_lookup` -/
def ipcPortLookup (s : Ipc) (sp name requiredRight : ℕ) : Option ℕ :=
  let x := s.spaces sp
  let idx := ipcNameIndex name
  let e := x.table idx
  if name = nameNull ∨ name = nameDead ∨ idx ≥ x.tableSize ∨ idx ≥ x.tableUsed then none
  else if ¬ x.active then none
  else if e.bits = typeNone ∨ e.object = 0 ∨ ipcNameGen name ≠ e.gen then none
  else if requiredRight ≠ 0 ∧ e.bits &&& requiredRight = 0 then none
  else if (s.ports e.object).state ≠ .active then none
  else some e.object

/-- The entry of a send right to port `p`, if the space has one. -/
def findSendRight (sp : IpcSpace) (p : ℕ) : Option ℕ :=
  (List.range' 1 (sp.tableUsed - 1)).find? fun i =>
    (sp.table i).object = p ∧ (sp.table i).bits &&& typeSend ≠ 0

/-- Source: `ipc_port_copyout_send` -/
def ipcPortCopyoutSend (s : Ipc) (sp : ℕ) : Option ℕ → ℕ × Ipc
  | none => (nameNull, s)
  | some p =>
      let x := s.spaces sp
      if (s.ports p).receiver = some sp then ((s.ports p).receiverName, s)
      else match findSendRight x p with
        | some i =>
            (i, s.setSpace sp (x.setEntry i { x.table i with urefs := u32 ((x.table i).urefs + 1) }))
        | none =>
            let r := spaceAllocName x
            if r.1 = nameNull then (nameNull, s.setSpace sp r.2)
            else (r.1, (s.setSpace sp (setRight r.2 r.1 p typeSend)).setPort p
              { s.ports p with srights := u32 ((s.ports p).srights + 1) })

/-- `mach_port_right_t`. -/
inductive PortRight where
  | send
  | receive
  | sendOnce
  | portSet
  | deadName
  deriving DecidableEq, Repr

/-- A name without a port. -/
def allocBareName (s : Ipc) (sp bits : ℕ) : Except ChimeraError ℕ × Ipc :=
  let r := spaceAllocName (s.spaces sp)
  if r.1 = nameNull then (.error .nomem, s.setSpace sp r.2)
  else (.ok r.1, s.setSpace sp (setRight r.2 r.1 0 bits))

/-- Source: `mach_port_allocate_kernel` -/
def machPortAllocateKernel (s : Ipc) (sp : ℕ) : PortRight → Except ChimeraError ℕ × Ipc
  | .receive => ipcPortAlloc s sp
  | .portSet => allocBareName s sp typePortSet
  | .deadName => allocBareName s sp typeDeadName
  | _ => (.error .notSupported, s)

/-- A name is rejected as stale or forged. -/
def staleName (x : IpcSpace) (name : ℕ) : Bool :=
  ipcNameIndex name ≥ x.tableUsed ∨ ipcNameGen name ≠ (x.table (ipcNameIndex name)).gen

/-- Give up the right a freed entry held. -/
def dropRight (fuel : ℕ) (s : Ipc) (sp : ℕ) (e : IpcEntry) : Option Ipc :=
  if e.object = 0 then some s
  else if e.bits &&& typeReceive ≠ 0 ∧ (s.ports e.object).receiver = some sp then
    ipcPortDestroy fuel s e.object
  else if e.bits &&& typeSend ≠ 0 then
    some (ipcPortRelease (s.setPort e.object { s.ports e.object with
      srights := (s.ports e.object).srights - 1 }) e.object)
  else some (ipcPortRelease s e.object)

/-- Source: `mach_port_deallocate_kernel` -/
def machPortDeallocateKernel (fuel : ℕ) (s : Ipc) (sp name : ℕ) : Option (ChimeraError × Ipc) :=
  let x := s.spaces sp
  let e := x.table (ipcNameIndex name)
  if name = nameNull ∨ name = nameDead then some (.invalid, s)
  else if staleName x name then some (.invalid, s)
  else if e.bits = typeNone ∨ e.urefs = 0 then some (.invalid, s)
  else if e.urefs = 1 then
    (dropRight fuel (s.setSpace sp (spaceFreeName
      (x.setEntry (ipcNameIndex name) { e with urefs := 0 }) (ipcNameIndex name))) sp e).map
        fun s' => (.success, s')
  else some (.success, s.setSpace sp (x.setEntry (ipcNameIndex name) { e with urefs := e.urefs - 1 }))

/-- Source: `mach_port_type_kernel` -/
def machPortTypeKernel (s : Ipc) (sp name : ℕ) : Except ChimeraError ℕ :=
  let x := s.spaces sp
  if name = nameNull then .error .invalid
  else if staleName x name then .error .invalid
  else .ok (x.table (ipcNameIndex name)).bits

/-- Source: `ipc_kobject_set` -/
def ipcKobjectSet (s : Ipc) (p : ℕ) (kobject : Option ℕ) (kotype : ℕ) : Ipc :=
  s.setPort p { s.ports p with kobject := kobject, kotype := kotype }

/-! ## Spaces -/

/-- `IPC_SPACE_INITIAL_CAPACITY`. -/
def ipcSpaceInitialCapacity : ℕ := 64

/-- Source: `ipc_space_create`; a table keeps its generations -/
def ipcSpaceCreate (s : Ipc) (task : ℕ) : Except ChimeraError ℕ × Ipc :=
  if 256 ≤ s.spaceNext then (.error .nomem, { s with spaceNext := 256 })
  else
    let old := s.spaces s.spaceNext
    (.ok s.spaceNext, { s.setSpace s.spaceNext
      { active := true
        tableSize := ipcSpaceInitialCapacity
        tableUsed := 1
        table := fun i => if i < ipcSpaceInitialCapacity then ⟨0, typeNone, 0, (old.table i).gen⟩
          else old.table i
        task := some task
        freeHead := nameNull
        freeCount := 0 } with spaceNext := s.spaceNext + 1 })

/-- The entries `ipc_space_destroy` finds a port in. -/
def liveEntries (x : IpcSpace) : List IpcEntry :=
  ((List.range' 1 (x.tableUsed - 1)).map x.table).filter fun e => e.bits ≠ typeNone ∧ e.object ≠ 0

/-- The first loop of `ipc_space_destroy`: the table is emptied. -/
def clearSpace (x : IpcSpace) : IpcSpace :=
  { x with
    active := false
    tableUsed := 1
    table := fun i => if 1 ≤ i ∧ i < x.tableUsed then { x.table i with object := 0, bits := typeNone }
      else x.table i }

/-- The entries whose ports are destroyed, not only released. -/
def isReceiveRight (s : Ipc) (sp : ℕ) (e : IpcEntry) : Bool :=
  e.bits &&& typeReceive ≠ 0 ∧ (s.ports e.object).receiver = some sp

/-- Source: `ipc_space_destroy` -/
def ipcSpaceDestroy (fuel : ℕ) (s : Ipc) (sp : ℕ) : Option Ipc :=
  let live := liveEntries (s.spaces sp)
  let s₀ := s.setSpace sp (clearSpace (s.spaces sp))
  ((live.filter (isReceiveRight s sp)).foldlM (fun s e => ipcPortDestroy fuel s e.object) s₀).map
    fun s₁ => (live.filter fun e => ¬ isReceiveRight s sp e).foldl
      (fun s e => ipcPortRelease s e.object) s₁

/-! ## Services -/

/-- `MAX_SERVICES`. -/
def maxServices : ℕ := 16

/-- Source: `mach_register_service` -/
def machRegisterService (s : Ipc) (name : List (BitVec 8)) (p : ℕ) : ChimeraError × Ipc :=
  if maxServices ≤ s.services.length then (.overflow, s)
  else match s.services.findIdx? (·.1 = name) with
    | some i => (.success, { s with services := s.services.modify i fun e => (e.1, p) })
    | none => (.success, { s with services := s.services ++ [(name.take 63, p)] })

/-- Source: `mach_lookup_service` -/
def machLookupService (s : Ipc) (name : List (BitVec 8)) : Option ℕ :=
  (s.services.find? (·.1 = name)).map (·.2)

/-! ## Message queues -/

/-- How a section of a call that may sleep ends. -/
inductive SendResult where
  | done (err : ChimeraError)
  | blocked
  deriving DecidableEq, Repr

/-- Link a message behind the last one of a queue, and number it. -/
def linkLast (kmsgs : Kmsg → IpcKmsg) (mq : IpcMqueue) (k : Kmsg) : Kmsg → IpcKmsg :=
  let f := update kmsgs k { kmsgs k with
    seqno := mq.seqno, next := none, prev := mq.messagesTail }
  match mq.messagesTail with
  | some t => update f t { f t with next := some k }
  | none => f

/-- A queue with one more message. -/
def IpcMqueue.append (mq : IpcMqueue) (k : Kmsg) : IpcMqueue where
  messages := if mq.messagesTail = none then some k else mq.messages
  messagesTail := some k
  msgcount := u32 (mq.msgcount + 1)
  qlimit := mq.qlimit
  seqno := u32 (mq.seqno + 1)

/-- The end of `ipc_mqueue_send`: number the message and put it at the end of the queue. -/
def mqueueAppend (s : Ipc) (p : ℕ) (k : Kmsg) : Ipc :=
  { s.setPort p { s.ports p with messages := (s.ports p).messages.append k } with
    kmsgs := linkLast s.kmsgs (s.ports p).messages k }

/-- The section of `ipc_mqueue_send` that a sender comes back to after it has slept; `expired` is the
test of the deadline. -/
def mqueueSendResume (s : Ipc) (p : ℕ) (k : Kmsg) (expired : Bool) : SendResult × Ipc :=
  if (s.ports p).state ≠ .active then (.done .portDead, s)
  else if (s.ports p).messages.msgcount < (s.ports p).messages.qlimit then
    (.done .success, mqueueAppend s p k)
  else if expired then (.done .timeout, s)
  else (.blocked, s)

/-- The first section of `ipc_mqueue_send`, for a port that is bound to no kernel object. -/
def mqueueSendEnter (s : Ipc) (p : ℕ) (k : Kmsg) (timeoutMs : ℕ) : SendResult × Ipc :=
  if (s.ports p).state ≠ .active then (.done .portDead, s)
  else if (s.ports p).messages.qlimit ≤ (s.ports p).messages.msgcount then
    if timeoutMs = 0 then (.done .portFull, s) else (.blocked, s)
  else (.done .success, mqueueAppend s p k)

/-- How a section of `ipc_mqueue_receive` ends. -/
inductive ReceiveResult where
  | got (k : Kmsg)
  | failed (err : ChimeraError)
  | blocked
  deriving DecidableEq, Repr

/-- Unlink the first message of a queue. -/
def unlinkFirst (kmsgs : Kmsg → IpcKmsg) (k : Kmsg) : Kmsg → IpcKmsg :=
  let f := match (kmsgs k).next with
    | some h => update kmsgs h { kmsgs h with prev := none }
    | none => kmsgs
  update f k { f k with next := none, prev := none }

/-- A queue without its first message, where `hd` is the second one. -/
def IpcMqueue.tail (mq : IpcMqueue) (hd : Option Kmsg) : IpcMqueue where
  messages := hd
  messagesTail := if hd = none then none else mq.messagesTail
  msgcount := u32 (mq.msgcount + (2 ^ 32 - 1))
  qlimit := mq.qlimit
  seqno := mq.seqno

/-- The end of `ipc_mqueue_receive`: take the first message off the queue. -/
def mqueueTake (s : Ipc) (p : ℕ) (k : Kmsg) : Ipc :=
  { s.setPort p { s.ports p with messages := (s.ports p).messages.tail (s.kmsgs k).next } with
    kmsgs := unlinkFirst s.kmsgs k }

/-- A round of the loop of `ipc_mqueue_receive`; `expired` is the test of the deadline.
Source: `ipc_mqueue_receive`; a queue with a count but no message would be a null dereference -/
def mqueueReceive (s : Ipc) (p : ℕ) (timeoutMs : ℕ) (expired : Bool) : Option (ReceiveResult × Ipc) :=
  if (s.ports p).state ≠ .active then some (.failed .portDead, s)
  else if 0 < (s.ports p).messages.msgcount then
    (s.ports p).messages.messages.map fun k => (.got k, mqueueTake s p k)
  else if timeoutMs = 0 ∨ expired then some (.failed .timeout, s)
  else some (.blocked, s)

/-! ## The state before the first port -/

/-- Mach IPC before the first port: new spaces, each of the task of its number, and no message. -/
def quietIpc (v : Vm) : Ipc where
  portArena := fun i => 0xFFFFFFFF80400000 + i * 512
  portArenaNext := 0
  portFreeList := none
  ports := fun _ => ⟨0, .dead, 0, none, 0, ⟨none, none, 0, 0, 0⟩, none, none, 0⟩
  spaceNext := 256
  spaces := fun sp =>
    ⟨true, ipcSpaceInitialCapacity, 1, fun _ => ⟨0, typeNone, 0, 0⟩, some sp, nameNull, 0⟩
  services := []
  kmsgs := fun _ => ⟨none, none, 0, none, none, 0, 0, 0, 0, fun _ => ⟨0, 0⟩, fun _ => 0, 0⟩
  kmsgInUse := fun _ => false
  kmsgNext := 0
  kmsgPages := 0
  tasks := fun sp => ⟨0, 0, 0, 0, some (sp, 0), sp⟩
  vm := v
  hhdmBase := 0xFFFF800000000000
  taken := fun _ => 0
  released := fun _ => 0

/-- No memory at all. -/
def noVm : Vm := ⟨⟨wiredPage, fun _ => none, 0, 0, 0⟩, fun _ _ => 0, 0, 0⟩

end Chimera
