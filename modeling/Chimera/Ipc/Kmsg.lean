import Chimera.Pmap.UserCopy
import Chimera.Ipc.Kobject

/-!
# Messages in and out: `ipc_kmsg_copyin`, `ipc_kmsg_copyout`, `sys_mach_msg`

A message is read from the sender's memory, its port names are translated to ports and its out-of-line
memory is copied; on the way out the ports become names of the receiver and the memory is mapped.

Conventions.
* User memory may change between two reads of a call: the `n`-th read gets what `UserReads` says.
  `userReads` is the one of memory that nobody writes to.
* Offsets are from the start of the message header. A port in a descriptor is its address, `0` if there
  is none.
* A message buffer is not read after a failed copy, so that what a failed `copyin` has written to it is
  left out.
-/

namespace Chimera

open Lib

/-- The bytes each read of user memory gets, from an address on; only as many as are asked for count. -/
abbrev UserReads := ℕ → Vm → ℕ → ℕ → Option Bytes

/-- The bytes of a list, from `0` on. -/
def bytesOf (l : List (BitVec 8)) : Bytes := fun i => l.getD i 0

/-- The first bytes of a buffer. -/
def bytesBelow (b : Bytes) (n : ℕ) : List (BitVec 8) := (List.range n).map b

/-- User memory that does not change. -/
def userReads (pml4Phys : ℕ) : UserReads := fun _ v ua len => (copyin v pml4Phys ua len).map bytesOf

/-- `MACH_MSG_OOL_MAX`. -/
def machMsgOolMax : ℕ := 4 * 1024 * 1024

/-- `MACH_MSG_PORT_DESCRIPTOR`. -/
def machMsgPortDescriptor : ℕ := 0
/-- `MACH_MSG_OOL_DESCRIPTOR`. -/
def machMsgOolDescriptor : ℕ := 1

/-- `sizeof(mach_msg_port_descriptor_t)`, and of the common part of a descriptor. -/
def sizeofPortDescriptor : ℕ := 12
/-- `sizeof(mach_msg_ool_descriptor_t)`. -/
def sizeofOolDescriptor : ℕ := 16

/-- Where the descriptors start: behind the header and `msgh_descriptor_count`. -/
def descriptorStart : ℕ := 28

/-- The type of the descriptor at an offset. -/
def descType (data : Bytes) (off : ℕ) : ℕ := (data (off + 11)).toNat

/-- `address` of the out-of-line descriptor at an offset. -/
def oolAddress (data : Bytes) (off : ℕ) : ℕ := readLE data off 8

/-- `size` of the out-of-line descriptor at an offset. -/
def oolSize (data : Bytes) (off : ℕ) : ℕ := readLE data (off + 12) 4

/-- How many descriptors are looked at. -/
def descCount (data : Bytes) : ℕ := min (readLE data 24 4) 16

/-- The message has descriptors. -/
def isComplex (data : Bytes) : Bool := (readHeader data).bits &&& machMsghBitsComplex ≠ 0

/-- The pages of an out-of-line region. -/
def oolPages (size : ℕ) : ℕ := (size + 4095) / 4096

/-! ## Copying in -/

/-- `__builtin_memset(kbuf, 0, pages * 4096)`. -/
def zeroPages (v : Vm) (paddr pages : ℕ) : Vm :=
  forUpTo (fun i v => v.setFrame (paddr / pageSize + i) fun _ => 0) pages v

/-- Store bytes at a physical address. -/
def storeBytes (v : Vm) (paddr : ℕ) (src : Bytes) (n : ℕ) : Vm :=
  forUpTo (fun i v => v.setByteAt ((paddr + i) / pageSize) ((paddr + i) % pageSize) (src i)) n v

/-- The port a descriptor of the sender names. -/
def sentPort (s : Ipc) (sp name : ℕ) : Option ℕ :=
  (ipcPortLookup s sp name typeSend).or (ipcPortLookup s sp name typeReceive)

/-- A port descriptor: the name becomes the port. -/
def copyinPort (s : Ipc) (k : Kmsg) (sp off : ℕ) : Ipc :=
  let m := s.kmsgs k
  s.setKmsg k { m with data := writeLE m.data off 8 ((sentPort s sp (readLE m.data off 4)).getD 0) }

/-- Memory of a region is recorded in the message and its descriptor. -/
def IpcKmsg.addRegion (m : IpcKmsg) (off kbuf size : ℕ) : IpcKmsg :=
  { m with
    oolCount := m.oolCount + 1
    oolRegions := Function.update m.oolRegions m.oolCount ⟨kbuf, size⟩
    data := writeLE m.data off 8 kbuf }

/-- Fill a region at `paddr`, cleared in `v`, with what was read. -/
def fillRegion (s : Ipc) (k : Kmsg) (off size paddr : ℕ) (v : Vm) : Option Bytes → ChimeraError × Ipc
  | none => (.invalid, s.setVm { v with pmm := pmmFreeContiguous v.pmm paddr (oolPages size) })
  | some src => (.success, (s.setVm (storeBytes v paddr src size)).setKmsg k
      ((s.kmsgs k).addRegion off (u64 (paddr + s.hhdmBase)) size))

/-- Copy an out-of-line region, where `a` is what the page allocator has returned. -/
def copyinRegion (read : UserReads) (s : Ipc) (k : Kmsg) (off n address size : ℕ) (a : ℕ × Pmm) :
    ChimeraError × Ipc :=
  if allocFailed a.1 then (.nomem, s.setPmm a.2)
  else
    let v := zeroPages { s.vm with pmm := a.2 } a.1 (oolPages size)
    fillRegion s k off size a.1 v (read n v address size)

/-- An out-of-line descriptor the kernel copies. -/
def oolValid (data : Bytes) (off : ℕ) : Bool :=
  0 < oolSize data off ∧ oolSize data off ≤ machMsgOolMax ∧ oolAddress data off ≠ 0

/-- An out-of-line descriptor: the memory is copied, unless there is none or too much of it. -/
def copyinOol (read : UserReads) (s : Ipc) (k : Kmsg) (off n : ℕ) : ChimeraError × Ipc :=
  let data := (s.kmsgs k).data
  if oolValid data off then
    copyinRegion read s k off n (oolAddress data off) (oolSize data off)
      (pmmAllocPages s.vm.pmm (oolPages (oolSize data off)))
  else (.success, s)

/-- Go on after a success; an error is returned. -/
def onSuccess (r : ChimeraError × Ipc) (f : Ipc → ChimeraError × Ipc) : ChimeraError × Ipc :=
  if r.1 = .success then f r.2 else r

/-- The loop over the descriptors: `c` rounds are left, the next descriptor is at `off`. -/
def copyinDescriptors (read : UserReads) (k : Kmsg) (sp msgEnd : ℕ) : ℕ → ℕ → ℕ → Ipc → ChimeraError × Ipc
  | 0, _, _, s => (.success, s)
  | c + 1, off, n, s =>
      if msgEnd < off + sizeofPortDescriptor then (.invalid, s)
      else if descType (s.kmsgs k).data off = machMsgPortDescriptor then
        copyinDescriptors read k sp msgEnd c (off + sizeofPortDescriptor) n (copyinPort s k sp off)
      else if descType (s.kmsgs k).data off = machMsgOolDescriptor then
        if msgEnd < off + sizeofOolDescriptor then (.invalid, s)
        else onSuccess (copyinOol read s k off n)
          (copyinDescriptors read k sp msgEnd c (off + sizeofOolDescriptor) (n + 1))
      else (.success, s)

/-- `MACH_PORT_RIGHT_SEND_ONCE` in the bits of the remote port asks for a send-once right. -/
def remoteRight (bits : ℕ) : ℕ := if bits % 32 = 2 then typeSendOnce else typeSend

/-- The local port of a message to port `remote`. -/
def copyinLocal (s : Ipc) (k : Kmsg) (sp remote : ℕ) : Option ℕ :=
  let m := s.kmsgs k
  let h := readHeader m.data
  if h.localPort = nameNull then m.localPort
  else if h.localPort = h.remotePort then some remote
  else (ipcPortLookup s sp h.localPort typeReceive).or m.localPort

/-- The ports of a message, where the lookup of the remote port has returned the last argument. -/
def copyinRemote (s : Ipc) (k : Kmsg) (sp : ℕ) : Option ℕ → ChimeraError × Ipc
  | none => (.portDead, s)
  | some remote => (.success, s.setKmsg k { s.kmsgs k with
      remotePort := some remote, localPort := copyinLocal s k sp remote })

/-- The remote and the local port are translated. -/
def copyinPorts (s : Ipc) (k : Kmsg) (sp : ℕ) : ChimeraError × Ipc :=
  let h := readHeader (s.kmsgs k).data
  copyinRemote s k sp (ipcPortLookup s sp h.remotePort (remoteRight h.bits))

/-- The process behind a space: its pid and uid, `0` if there is none. -/
def spaceProc (s : Ipc) (sp : ℕ) : ℕ × ℕ :=
  ((s.spaces sp).task.bind fun t => (s.tasks t).proc).getD (0, 0)

/-- The message with the bytes of the second read. -/
def copyinData (s : Ipc) (k : Kmsg) (sp size : ℕ) (src : Bytes) : Ipc :=
  let m := s.kmsgs k
  s.setKmsg k { m with
    data := copyBytes m.data src size
    senderPid := (spaceProc s sp).1
    senderUid := (spaceProc s sp).2 }

/-- The descriptors of a message, if it has any. -/
def copyinComplex (read : UserReads) (k : Kmsg) (sp size : ℕ) (s : Ipc) : ChimeraError × Ipc :=
  if ¬ isComplex (s.kmsgs k).data then (.success, s)
  else if size < descriptorStart then (.invalid, s)
  else copyinDescriptors read k sp size (descCount (s.kmsgs k).data) descriptorStart 2 s

/-- `ipc_kmsg_copyin` after the second read. -/
def copyinBody (read : UserReads) (s : Ipc) (k : Kmsg) (sp size : ℕ) : ChimeraError × Ipc :=
  onSuccess (copyinPorts s k sp) (copyinComplex read k sp size)

/-- `ipc_kmsg_copyin` after the first read, with the second one. -/
def copyinSecond (read : UserReads) (s : Ipc) (k : Kmsg) (sp size : ℕ) : Option Bytes → ChimeraError × Ipc
  | none => (.invalid, s)
  | some src => copyinBody read (copyinData s k sp size src) k sp size

/-- The size is one the message has room for. -/
def sizeValid (m : IpcKmsg) (size : ℕ) : Bool :=
  machMsgHeaderSize ≤ size ∧ size ≤ machMsgSizeMax ∧ size ≤ m.size

/-- `ipc_kmsg_copyin` with the first read. -/
def copyinFirst (read : UserReads) (s : Ipc) (k : Kmsg) (userHeaderVa sp : ℕ) :
    Option Bytes → ChimeraError × Ipc
  | none => (.invalid, s)
  | some hdr =>
      let size := (readHeader hdr).size
      if sizeValid (s.kmsgs k) size then copyinSecond read s k sp size (read 1 s.vm userHeaderVa size)
      else (.invalid, s)

/-- Source: `ipc_kmsg_copyin` -/
def ipcKmsgCopyin (read : UserReads) (s : Ipc) (k : Kmsg) (userHeaderVa sp : ℕ) : ChimeraError × Ipc :=
  if userHeaderVa = 0 then (.invalid, s)
  else copyinFirst read s k userHeaderVa sp (read 0 s.vm userHeaderVa machMsgHeaderSize)

/-! ## Copying out -/

/-- The name of a port for the receiver. -/
def copyoutName (s : Ipc) (sp port : ℕ) : ℕ × Ipc :=
  if port = 0 then (nameNull, s) else ipcPortCopyoutSend s sp (some port)

/-- Put a name in a port descriptor. -/
def setPortName (k : Kmsg) (off : ℕ) (r : ℕ × Ipc) : Ipc :=
  let m := r.2.kmsgs k
  r.2.setKmsg k { m with data := writeLE (writeLE m.data (off + 4) 4 0) off 4 r.1 }

/-- A port descriptor: the port becomes a name of the receiver. -/
def copyoutPort (s : Ipc) (k : Kmsg) (sp off : ℕ) : Ipc :=
  setPortName k off (copyoutName s sp (readLE (s.kmsgs k).data off 8))

/-- Where the `i`-th region of a message is mapped. -/
def oolTarget (i : ℕ) : ℕ := 0x0000700000000000 + i * 0x10000000

/-- Map the pages of a region; failures are ignored. -/
def mapRegion (v : Vm) (pml4Phys target paddr pages : ℕ) : Vm :=
  forUpTo (fun pg v => (pmapMapUserPage v pml4Phys (target + pg * 4096) (paddr + pg * 4096)
    (pagePresent ||| pageWrite ||| pageUser)).2) pages v

/-- The physical address of a region. -/
def regionPaddr (hhdmBase : ℕ) (r : OolRegion) : ℕ := u64 (r.addr + (2 ^ 64 - hhdmBase % 2 ^ 64))

/-- The address space of the task of a space, `0` if there is none. -/
def spaceVmMap (s : Ipc) (sp : ℕ) : ℕ := ((s.spaces sp).task.map fun t => (s.tasks t).vmMap).getD 0

/-- The pages of region `i` are mapped, and the descriptor gets their address. -/
def deliverRegion (s : Ipc) (k : Kmsg) (vmMap off i : ℕ) : Ipc :=
  let m := s.kmsgs k
  let r := m.oolRegions i
  (s.setVm (mapRegion s.vm vmMap (oolTarget i) (regionPaddr s.hhdmBase r) (oolPages r.size))).setKmsg k
    { m with data := writeLE m.data off 8 (oolTarget i) }

/-- An out-of-line descriptor: it gets the next region of the message, while there is one. -/
def copyoutOol (s : Ipc) (k : Kmsg) (sp off oolIdx : ℕ) : ℕ × Ipc :=
  if oolIdx < (s.kmsgs k).oolCount then
    (oolIdx + 1, if spaceVmMap s sp ≠ 0 then deliverRegion s k (spaceVmMap s sp) off oolIdx else s)
  else (oolIdx, s)

/-- The loop over the descriptors: `c` rounds are left, the next descriptor is at `off`. -/
def copyoutDescriptors (k : Kmsg) (sp msgEnd : ℕ) : ℕ → ℕ → ℕ → Ipc → Ipc
  | 0, _, _, s => s
  | c + 1, off, oolIdx, s =>
      if msgEnd < off + sizeofPortDescriptor then s
      else if descType (s.kmsgs k).data off = machMsgPortDescriptor then
        copyoutDescriptors k sp msgEnd c (off + sizeofPortDescriptor) oolIdx (copyoutPort s k sp off)
      else if descType (s.kmsgs k).data off = machMsgOolDescriptor then
        if msgEnd < off + sizeofOolDescriptor then s
        else
          let r := copyoutOol s k sp off oolIdx
          copyoutDescriptors k sp msgEnd c (off + sizeofOolDescriptor) r.1 r.2
      else s

/-- The name of the port a message was received on. -/
def receivedName (s : Ipc) (sp : ℕ) : Option ℕ → ℕ
  | some p => if (s.ports p).receiver = some sp then (s.ports p).receiverName else nameNull
  | none => nameNull

/-- Put the names in the header. -/
def setHeaderNames (k : Kmsg) (sp : ℕ) (r : ℕ × Ipc) : Ipc :=
  let m := r.2.kmsgs k
  r.2.setKmsg k { m with
    data := writeLE (writeLE m.data 8 4 r.1) 12 4 (receivedName r.2 sp m.remotePort) }

/-- The ports of the header become names of the receiver. -/
def copyoutHeader (s : Ipc) (k : Kmsg) (sp : ℕ) : Ipc :=
  setHeaderNames k sp (ipcPortCopyoutSend s sp (s.kmsgs k).localPort)

/-- `mach_msg_audit_trailer_t`, or `mach_msg_trailer_t` if there is no room for it, or nothing. -/
def trailer (m : IpcKmsg) (room : ℕ) : List (BitVec 8) :=
  if sizeofAuditTrailer ≤ room then
    bytesBelow (Reply.bytes ⟨20, [(4, 4, 20), (8, 4, m.seqno), (12, 4, m.senderPid), (16, 4, m.senderUid)]⟩) 20
  else if 8 ≤ room then bytesBelow (Reply.bytes ⟨8, [(4, 4, 8)]⟩) 8
  else []

/-- The message as it is copied to the receiver. -/
def kmsgImage (m : IpcKmsg) : List (BitVec 8) := bytesBelow m.data (readHeader m.data).size

/-- Copy a trailer behind the message; whether it worked is not looked at. -/
def copyoutTrailer (v : Vm) (pml4Phys va : ℕ) (t : List (BitVec 8)) : Vm :=
  if t = [] then v else (copyout v pml4Phys va t).2

/-- The end of `ipc_kmsg_copyout`: the message and a trailer are copied to the receiver's buffer. -/
def copyoutImage (s : Ipc) (m : IpcKmsg) (pml4Phys userBufVa bufSize : ℕ) : ChimeraError × Ipc :=
  let size := (readHeader m.data).size
  let r := copyout s.vm pml4Phys userBufVa (kmsgImage m)
  if r.1 then
    (.success, s.setVm (copyoutTrailer r.2 pml4Phys (userBufVa + size) (trailer m (bufSize - size))))
  else (.invalid, s.setVm r.2)

/-- The message is translated for the receiver. -/
def copyoutMessage (s : Ipc) (k : Kmsg) (sp : ℕ) : Ipc :=
  let data := (s.kmsgs k).data
  if isComplex data then
    copyoutDescriptors k sp (readHeader data).size (descCount data) descriptorStart 0 (copyoutHeader s k sp)
  else copyoutHeader s k sp

/-- Source: `ipc_kmsg_copyout`, on an address space `pml4Phys` -/
def ipcKmsgCopyout (s : Ipc) (k : Kmsg) (pml4Phys userBufVa bufSize sp : ℕ) : ChimeraError × Ipc :=
  let data := (s.kmsgs k).data
  if bufSize < (readHeader data).size then (.overflow, s)
  else if isComplex data ∧ (readHeader data).size < descriptorStart then (.invalid, copyoutHeader s k sp)
  else
    let s₁ := copyoutMessage s k sp
    copyoutImage s₁ (s₁.kmsgs k) pml4Phys userBufVa bufSize

/-! ## `sys_mach_msg` -/

/-- A message that was copied in, or freed because it could not be. -/
def keepOrFree (k : Kmsg) (r : ChimeraError × Ipc) : Option Kmsg × Ipc :=
  if r.1 = .success then (some k, r.2) else (none, ipcKmsgFree r.2 k)

/-- Copy in the message of a task, if there is one to copy it to. -/
def copyinAllocated (read : UserReads) (t msgPtr : ℕ) : Option Kmsg × Ipc → Option Kmsg × Ipc
  | (none, s) => (none, s)
  | (some k, s) => keepOrFree k (ipcKmsgCopyin read s k msgPtr (s.tasks t).ipcSpace)

/-- The header has the size that was passed. -/
def headerFits (sendSz : ℕ) : Option Bytes → Bool
  | none => false
  | some hdr => (readHeader hdr).size = u32 sendSz

/-- The send part up to `ipc_mqueue_send`: the message to send, if all went well. -/
def machMsgSendStart (read : UserReads) (s : Ipc) (t msgPtr sendSz : ℕ) : Option Kmsg × Ipc :=
  if sendSz < machMsgHeaderSize ∨ machMsgSizeMax < sendSz then (none, s)
  else if headerFits sendSz (read 0 s.vm msgPtr machMsgHeaderSize) then
    copyinAllocated (fun n => read (n + 1)) t msgPtr (ipcKmsgAlloc s sendSz)
  else (none, s)

/-- After `ipc_mqueue_send`: a message that was not sent is freed. -/
def machMsgSendEnd (s : Ipc) (k : Kmsg) (err : ChimeraError) : Ipc :=
  if err = .success then s else ipcKmsgFree s k

/-- After `ipc_mqueue_receive`: the message is delivered and freed. -/
def machMsgReceiveEnd (s : Ipc) (t : ℕ) (k : Kmsg) (msgPtr rcvSz : ℕ) : ChimeraError × Ipc :=
  let r := ipcKmsgCopyout s k (s.tasks t).vmMap msgPtr (u32 rcvSz) (s.tasks t).ipcSpace
  (r.1, ipcKmsgFree r.2 k)

end Chimera
