import Chimera.Ipc.Model

/-!
# Kernel objects: `kernel/mach/ipc_kobject.c`

A message to a port that is bound to a kernel object is not queued: `ipc_mqueue_send` gives it to
`ipc_kobject_server`, which reads a request behind the message header, acts on the task, and sends a
reply to the local port of the message. The reply goes through `ipc_mqueue_send` again, so the two
functions call each other; a reply has no local port itself, which ends it.
-/

namespace Chimera

open Lib

/-- The fields of `mach_msg_header_t`. -/
structure MsgHeader where
  bits : ℕ
  size : ℕ
  remotePort : ℕ
  localPort : ℕ
  voucherPort : ℕ
  id : ℕ
  deriving DecidableEq, Repr

/-- The header at the start of a buffer. -/
def readHeader (b : Bytes) : MsgHeader :=
  ⟨readLE b 0 4, readLE b 4 4, readLE b 8 4, readLE b 12 4, readLE b 16 4, readLE b 20 4⟩

/-- `sizeof(mach_msg_header_t)`. -/
def machMsgHeaderSize : ℕ := 24

/-- `IKOT_TASK`. -/
def ikotTask : ℕ := 1

/-- `MACH_VM_ALLOCATE_ID`. -/
def machVmAllocateId : ℕ := 4800
/-- `MACH_VM_DEALLOCATE_ID`. -/
def machVmDeallocateId : ℕ := 4801
/-- `TASK_GET_SPECIAL_PORT_ID`. -/
def taskGetSpecialPortId : ℕ := 3403
/-- `TASK_SET_SPECIAL_PORT_ID`. -/
def taskSetSpecialPortId : ℕ := 3404
/-- `TASK_INFO_ID`. -/
def taskInfoId : ℕ := 3405

/-- `TASK_KERNEL_PORT`. -/
def taskKernelPort : ℕ := 1
/-- `TASK_BOOTSTRAP_PORT`. -/
def taskBootstrapPort : ℕ := 4

/-- `MACH_MSGH_BITS_COMPLEX`. -/
def machMsghBitsComplex : ℕ := 0x80000000

/-- `KERN_INVALID_ARGUMENT`. -/
def kernInvalidArgument : ℕ := 4

/-! ## Replies -/

/-- A reply: its size, and its fields by offset, width and value. The rest is zero. -/
structure Reply where
  size : ℕ
  fields : List (ℕ × ℕ × ℕ)
  deriving DecidableEq, Repr

def Reply.bytes (r : Reply) : Bytes :=
  r.fields.foldl (fun b f => writeLE b f.1 f.2.1 f.2.2) fun _ => 0

/-- Copy the first `n` bytes of a buffer. -/
def copyBytes (dst src : Bytes) (n : ℕ) : Bytes := fun b => if b < n then src b else dst b

/-- `rep.hdr` of a reply: its bits, size, remote port and id. -/
def replyHeader (bits size remotePort id : ℕ) : List (ℕ × ℕ × ℕ) :=
  [(0, 4, bits), (4, 4, size), (8, 4, remotePort), (20, 4, id)]

/-- `mig_reply_msg_t`, as `send_mig_reply_ret` fills it in. -/
def migReply (replyPort replyId retCode : ℕ) : Reply :=
  ⟨28, replyHeader 0 28 (u32 replyPort) replyId ++ [(24, 4, retCode)]⟩

/-! ## Requests -/

/-- The first free address for a new mapping, and the task with the next one. -/
def vmPlace (t : Task) (reqSize : ℕ) : ℕ × Task :=
  let start := if t.mmapNext = 0 ∨ t.mmapNext < 0x0000600000000000 then 0x0000600000000000 else t.mmapNext
  let next := u64 (start + (reqSize + 4096))
  (start, { t with mmapNext := if 0x0000780000000000 < next then 0x0000600000000000 else next })

/-- Map one fresh page; a failure is ignored. -/
def vmAllocatePage (vmMap va : ℕ) (v : Vm) : Vm :=
  let a := pmmAllocPage v.pmm
  let v₁ := { v with pmm := a.2 }
  if allocFailed a.1 then v₁
  else (pmapMapUserPage (v₁.setFrame (a.1 / pageSize) fun _ => 0) vmMap va a.1
    (pagePresent ||| pageWrite ||| pageUser)).2

/-- `MACH_VM_ALLOCATE_ID`: the return code, the address, and the effect. -/
def vmAllocate (s : Ipc) (t address size flags : ℕ) : ℕ × ℕ × Ipc :=
  let task := s.tasks t
  if task.vmMap = 0 ∨ size = 0 ∨ 0x100000000 < size then (kernInvalidArgument, 0, s)
  else
    let reqSize := (size + 4095) / 4096 * 4096
    let place := if address = 0 ∨ flags % 2 = 1 then vmPlace task reqSize else (address, task)
    let s₁ := s.setTask t place.2
    let va := place.1
    if va < 0x1000 ∨ userEnd ≤ va ∨ userEnd ≤ reqSize ∨ userEnd < va + reqSize then
      (kernInvalidArgument, va, s₁)
    else (0, va, s₁.setVm (forUpTo (fun i v => vmAllocatePage task.vmMap (va + i * 4096) v)
      (reqSize / 4096) s.vm))

/-- `MACH_VM_DEALLOCATE_ID`: the return code and the effect. -/
def vmDeallocate (fuel : ℕ) (s : Ipc) (t address size : ℕ) : Option (ℕ × Ipc) :=
  let vmMap := (s.tasks t).vmMap
  if vmMap ≠ 0 ∧ 0 < size ∧ 0x1000 ≤ address ∧ address < userEnd ∧ size < userEnd ∧
      address + size ≤ userEnd then
    (pmapUnmapUserRange fuel s.vm vmMap address size).map fun v => (0, s.setVm v)
  else some (kernInvalidArgument, s)

/-- `TASK_GET_SPECIAL_PORT_ID`: the name of a special port. -/
def specialPort (task : Task) (which : ℕ) : ℕ :=
  if which = taskBootstrapPort then task.bootstrapPort
  else if which = taskKernelPort then task.taskPort else nameNull

/-- `TASK_SET_SPECIAL_PORT_ID`: only the bootstrap port can be set. -/
def setSpecialPort (task : Task) (which name : ℕ) : Task :=
  if which = taskBootstrapPort then { task with bootstrapPort := name } else task

/-- The request of a message to the port of task `t`: its effect, and the reply to `replyPort`. The
structures are read behind the header, whatever the size of the message.
Source: the `switch` of `ipc_kobject_server` -/
def taskRequest (fuel : ℕ) (s : Ipc) (t replyPort : ℕ) (data : Bytes) : Option (Reply × Ipc) :=
  let id := (readHeader data).id
  let task := s.tasks t
  if id = machVmAllocateId then
    let r := vmAllocate s t (readLE data 24 8) (readLE data 32 8) (readLE data 40 4)
    some (⟨36, replyHeader 0 36 0 (machVmAllocateId + 100) ++
      [(24, 4, r.1), (28, 8, if r.1 = 0 then r.2.1 else 0)]⟩, r.2.2)
  else if id = machVmDeallocateId then
    (vmDeallocate fuel s t (readLE data 24 8) (readLE data 32 8)).map fun r =>
      (migReply replyPort (machVmDeallocateId + 100) r.1, r.2)
  else if id = taskGetSpecialPortId then
    some (⟨44, replyHeader machMsghBitsComplex 44 0 (taskGetSpecialPortId + 100) ++
      [(24, 4, 1), (28, 4, specialPort task (readLE data 24 4))]⟩, s)
  else if id = taskSetSpecialPortId then
    some (migReply replyPort (taskSetSpecialPortId + 100) 0,
      s.setTask t (setSpecialPort task (readLE data 24 4) (readLE data 28 4)))
  else if id = taskInfoId then
    some (⟨48, replyHeader 0 48 0 (taskInfoId + 100) ++
      [(28, 4, (task.proc.map (·.1)).getD 0), (32, 8, 16 * 1024 * 1024), (40, 8, 64 * 4096)]⟩, s)
  else some (migReply replyPort (u32 (id + 100)) (2 ^ 32 - 1), s)

/-- What a kernel-object port answers. -/
def kobjectRequest (fuel : ℕ) (s : Ipc) (p t replyPort : ℕ) (data : Bytes) : Option (Reply × Ipc) :=
  if (s.ports p).kotype = ikotTask then taskRequest fuel s t replyPort data
  else some (migReply replyPort (u32 ((readHeader data).id + 100)) (2 ^ 32 - 1), s)

/-! ## The server -/

/-- Send a reply. The result of the send is not looked at.
Source: `send_mig_reply_ret`, and the replies of `ipc_kobject_server` -/
def sendReply (send : Ipc → ℕ → Kmsg → Option (SendResult × Ipc)) (s : Ipc) (replyPort : ℕ)
    (r : Reply) : Option Ipc :=
  match ipcKmsgAlloc s r.size with
  | (none, s₁) => some s₁
  | (some k, s₁) =>
      (send (s₁.setKmsg k { s₁.kmsgs k with
        data := copyBytes (s₁.kmsgs k).data r.bytes r.size, remotePort := some replyPort })
        replyPort k).map (·.2)

/-- Source: `ipc_kobject_server` -/
def ipcKobjectServer (fuel : ℕ) (send : Ipc → ℕ → Kmsg → Option (SendResult × Ipc)) (s : Ipc)
    (p t : ℕ) (k : Kmsg) : Option Ipc :=
  let m := s.kmsgs k
  (kobjectRequest fuel s p t (m.localPort.getD 0) m.data).bind fun r =>
    (match m.localPort with
      | none => some r.2
      | some replyPort => sendReply send r.2 replyPort r.1).map fun s₁ => ipcKmsgFree s₁ k

/-- The first section of `ipc_mqueue_send`; `depth` bounds how far replies call it again.
Source: `ipc_mqueue_send` -/
def ipcMqueueSend (fuel : ℕ) : ℕ → Ipc → ℕ → Kmsg → ℕ → Option (SendResult × Ipc)
  | 0, _, _, _, _ => none
  | depth + 1, s, p, k, timeoutMs =>
      if (s.ports p).state ≠ .active then some (.done .portDead, s)
      else match (s.ports p).kobject with
        | some t =>
            (ipcKobjectServer fuel (fun s p k => ipcMqueueSend fuel depth s p k 0) s p t k).map
              fun s' => (.done .success, s')
        | none => some (mqueueSendEnter s p k timeoutMs)

/-- Without a kernel object a message goes to the queue. -/
lemma ipcMqueueSend_unbound {s : Ipc} {p : ℕ} (hp : (s.ports p).kobject = none) (fuel depth : ℕ)
    (k : Kmsg) (timeoutMs : ℕ) :
    ipcMqueueSend fuel (depth + 1) s p k timeoutMs = some (mqueueSendEnter s p k timeoutMs) := by
  rw [ipcMqueueSend, hp]
  by_cases hstate : (s.ports p).state ≠ .active
  · rw [if_pos hstate, mqueueSendEnter, if_pos hstate]
  · rw [if_neg hstate]

end Chimera
