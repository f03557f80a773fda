import Chimera.Ipc.Kobject

/-!
# Requests and the rest of the buffer

`ipc_kmsg_alloc` does not clear the data of a recycled message, and `ipc_kobject_server` reads its request
structures behind the header whatever the size of the message is. So what a request does depends on the
message alone exactly if the message is long enough for the fields that are used
(**`request_depends_on_message`**); `staleRequest_sets_port` is a request that is not.
-/

namespace Chimera

open Lib

/-- How many bytes behind the header a request uses. Of the flags of `MACH_VM_ALLOCATE_ID` it is only the
lowest bit. -/
def requestBytes (id : ℕ) : ℕ :=
  if id = machVmAllocateId then 17
  else if id = machVmDeallocateId then 16
  else if id = taskGetSpecialPortId then 4
  else if id = taskSetSpecialPortId then 8
  else 0

/-- The requests of this id and `msgh_size` have the same effect and the same reply whatever the buffer
holds behind the message. -/
def ServedAlike (id size : ℕ) : Prop :=
  ∀ (fuel : ℕ) (s : Ipc) (p t replyPort : ℕ) (data data' : Bytes), (s.ports p).kotype = ikotTask →
    (readHeader data).id = id → (readHeader data).size = size → (∀ b < size, data' b = data b) →
    kobjectRequest fuel s p t replyPort data' = kobjectRequest fuel s p t replyPort data

/-! ## Long enough -/

section long

variable {data data' : Bytes} {size : ℕ} {a n : ℕ}

/-- A field inside the message. -/
lemma readLE_inside (h : ∀ b < size, data' b = data b) (hn : a + n ≤ size) : readLE data' a n = readLE data a n :=
  readLE_congr fun _ hi => h _ (Nat.lt_of_lt_of_le (Nat.add_lt_add_left hi a) hn)

/-- The lowest bit of a field is in its first byte. -/
lemma readLE_mod_two (h : data' a = data a) : readLE data' a (n + 1) % 2 = readLE data a (n + 1) % 2 := by
  have h' := readLE_mod (m := data') (a := a) (n := n)
  rw [h, ← readLE_mod (n := n)] at h'
  omega

lemma vmAllocate_flags (s : Ipc) (t address n : ℕ) {flags flags' : ℕ} (h : flags' % 2 = flags % 2) :
    vmAllocate s t address n flags' = vmAllocate s t address n flags := by
  simp only [vmAllocate, h]

lemma servedAlike_of_le {id size : ℕ} (hsize : machMsgHeaderSize + requestBytes id ≤ size) : ServedAlike id size := by
  intro fuel s p t replyPort data data' hkotype hid _ hsame
  have hid' : (readHeader data').id = (readHeader data).id := by
    apply readLE_inside hsame
    exact Nat.le_of_add_right_le hsize
  unfold kobjectRequest
  rw [if_pos hkotype, if_pos hkotype]
  unfold taskRequest requestBytes at *
  rw [hid', hid]
  dsimp only [machMsgHeaderSize] at hsize
  by_cases h1 : id = machVmAllocateId
  · rw [if_pos h1] at hsize
    rw [if_pos h1, if_pos h1, readLE_inside hsame (by omega), readLE_inside hsame (by omega),
      vmAllocate_flags s t _ _ (readLE_mod_two (hsame 40 (by omega)))]
  rw [if_neg h1] at hsize
  rw [if_neg h1, if_neg h1]
  by_cases h2 : id = machVmDeallocateId
  · rw [if_pos h2] at hsize
    rw [if_pos h2, if_pos h2, readLE_inside hsame (by omega), readLE_inside hsame (by omega)]
  rw [if_neg h2] at hsize
  rw [if_neg h2, if_neg h2]
  by_cases h3 : id = taskGetSpecialPortId
  · rw [if_pos h3] at hsize
    rw [if_pos h3, if_pos h3, readLE_inside hsame (by omega)]
  rw [if_neg h3] at hsize
  rw [if_neg h3, if_neg h3]
  by_cases h4 : id = taskSetSpecialPortId
  · rw [if_pos h4] at hsize
    rw [if_pos h4, if_pos h4, readLE_inside hsame (by omega), readLE_inside hsame (by omega)]
  · rw [if_neg h4, if_neg h4]

end long

/-! ## Too short -/

/-- A request with a header and these fields. -/
def requestOf (id size : ℕ) (fields : List (ℕ × ℕ × ℕ)) : Bytes :=
  Reply.bytes ⟨size, replyHeader 0 size 0 id ++ fields⟩

/-- A buffer that has all ones behind the message. -/
def onesBehind (data : Bytes) (size : ℕ) : Bytes := copyBytes (fun _ => 255#8) data size

section short

variable {data : Bytes} {size : ℕ} {a fuel id n replyPort t : ℕ} {s : Ipc}

/-- A field that reaches beyond the message reads as a large number. -/
lemma le_readLE_onesBehind (data : Bytes) (h : size ≤ a + n) :
    255 * 256 ^ n ≤ readLE (onesBehind data size) a (n + 1) := by
  have htop : onesBehind data size (a + n) = 255#8 := if_neg (by omega)
  have hle := le_readLE (m := onesBehind data size) (a := a) (n := n)
  rw [htop] at hle
  exact hle

lemma readLE_onesBehind (h : a + n ≤ size) : readLE (onesBehind data size) a n = readLE data a n :=
  readLE_inside (fun _ hb => if_pos hb) h

variable {fields : List (ℕ × ℕ × ℕ)} {address flags : ℕ}

/-- Fields behind a place are not seen there. -/
lemma readLE_fields {m : Bytes} (h : ∀ f ∈ fields, a + n ≤ f.1) :
    readLE (fields.foldl (fun b f => writeLE b f.1 f.2.1 f.2.2) m) a n = readLE m a n := by
  induction fields generalizing m with
  | nil => rfl
  | cons f fields ih =>
    rw [List.foldl_cons, ih fun g hg => h g (List.mem_cons_of_mem _ hg)]
    exact readLE_writeLE_of_disjoint (.inr (h f List.mem_cons_self))

lemma requestOf_header (hid : id < 2 ^ 32) (hsize : size < 2 ^ 32)
    (h : ∀ f ∈ fields, machMsgHeaderSize ≤ f.1) :
    (readHeader (requestOf id size fields)).id = id ∧ (readHeader (requestOf id size fields)).size = size := by
  have hheader : ∀ a n, a + n ≤ machMsgHeaderSize → readLE (requestOf id size fields) a n =
      readLE ((replyHeader 0 size 0 id).foldl (fun b f => writeLE b f.1 f.2.1 f.2.2) fun _ => 0) a n := by
    intro a n han
    rw [requestOf, Reply.bytes, List.foldl_append]
    exact readLE_fields fun f hf => han.trans (h f hf)
  constructor
  · change readLE _ 20 4 = id
    rw [hheader 20 4 (by decide)]
    simp (disch := omega) only [replyHeader, List.foldl_cons, List.foldl_nil, readLE_writeLE]
    exact Nat.mod_eq_of_lt hid
  · change readLE _ 4 4 = size
    rw [hheader 4 4 (by decide)]
    simp (disch := omega) only [replyHeader, List.foldl_cons, List.foldl_nil,
      readLE_writeLE_of_disjoint, readLE_writeLE]
    exact Nat.mod_eq_of_lt hsize

/-- A field is read back if the later ones are behind it. -/
lemma requestOf_field (id size : ℕ) (front back : List (ℕ × ℕ × ℕ)) (a n x : ℕ)
    (h : ∀ f ∈ back, a + n ≤ f.1) :
    readLE (requestOf id size (front ++ (a, n, x) :: back)) a n = x % 256 ^ n := by
  rw [requestOf, Reply.bytes, List.foldl_append, List.foldl_append, List.foldl_cons, readLE_fields h]
  exact readLE_writeLE

/-- A port of task `0`, which has an address space and a bootstrap port. -/
def requestIpc : Ipc :=
  ((quietIpc noVm).setTask 0 ⟨0x1000, 0, 7, 1, none, 0⟩).setPort 0
    { (quietIpc noVm).ports 0 with kotype := ikotTask }

lemma requestIpc_kotype : (requestIpc.ports 0).kotype = ikotTask := rfl

/-- Two requests that differ behind the message only are served alike. -/
lemma ServedAlike.apply (h : ServedAlike id size) (hid : id < 2 ^ 32) (hsize : size < 2 ^ 32)
    (hlo : machMsgHeaderSize ≤ size) (fields : List (ℕ × ℕ × ℕ))
    (hfields : ∀ f ∈ fields, machMsgHeaderSize ≤ f.1) :
    (readHeader (requestOf id size fields)).id = id ∧
      (readHeader (onesBehind (requestOf id size fields) size)).id = id ∧
      taskRequest 0 requestIpc 0 0 (onesBehind (requestOf id size fields) size) =
        taskRequest 0 requestIpc 0 0 (requestOf id size fields) := by
  obtain ⟨hid', hsize'⟩ := requestOf_header hid hsize hfields
  have heq := h 0 requestIpc 0 0 0 _ (onesBehind (requestOf id size fields) size) requestIpc_kotype hid'
    hsize' fun _ hb => if_pos hb
  rw [kobjectRequest, kobjectRequest, if_pos requestIpc_kotype, if_pos requestIpc_kotype] at heq
  refine ⟨hid', Eq.trans ?_ hid', heq⟩
  exact readLE_onesBehind hlo

/-- The reply to `MACH_VM_ALLOCATE_ID` has the return code, and the address if it is `0`. -/
lemma taskRequest_allocate {data data' : Bytes} (hid : (readHeader data).id = machVmAllocateId)
    (hid' : (readHeader data').id = machVmAllocateId) (h : taskRequest 0 s t 0 data' = taskRequest 0 s t 0 data)
    {r r' : ℕ × ℕ × Ipc} (hr : vmAllocate s t (readLE data 24 8) (readLE data 32 8) (readLE data 40 4) = r)
    (hr' : vmAllocate s t (readLE data' 24 8) (readLE data' 32 8) (readLE data' 40 4) = r') :
    r'.1 = r.1 ∧ (r.1 = 0 → r'.2.1 = r.2.1) := by
  rw [taskRequest, taskRequest, if_pos hid, if_pos hid', hr, hr'] at h
  have hfields := congrArg Reply.fields (Prod.mk.inj (Option.some.inj h)).1
  simp only [replyHeader, List.cons_append, List.nil_append, List.cons.injEq, Prod.mk.injEq,
    true_and, and_true] at hfields
  refine ⟨hfields.1, fun hzero => ?_⟩
  have haddr := hfields.2
  rwa [hfields.1, if_pos hzero, if_pos hzero] at haddr

lemma taskRequest_deallocate {data : Bytes} (hid : (readHeader data).id = machVmDeallocateId)
    : taskRequest fuel s t replyPort data = (vmDeallocate fuel s t (readLE data 24 8) (readLE data 32 8)).map fun r =>
        (migReply replyPort (machVmDeallocateId + 100) r.1, r.2) := by
  rw [taskRequest, if_neg (by rw [hid]; decide), if_pos hid]

lemma migReply_code {code code' : ℕ} (h : migReply replyPort id code' = migReply replyPort id code)
    : code' = code := by
  have hfields := congrArg Reply.fields h
  simpa [migReply, replyHeader] using hfields

lemma vmDeallocate_tooLarge (hn : userEnd ≤ n) : vmDeallocate fuel s t address n = some (kernInvalidArgument, s) := by
  rw [vmDeallocate, if_neg]
  exact fun h => Nat.not_lt.mpr hn h.2.2.2.2.1

lemma vmDeallocate_first {r : ℕ × Ipc} (h : vmDeallocate fuel requestIpc 0 0x1000 4096 = some r) : r.1 = 0 := by
  rw [vmDeallocate, if_pos (by decide)] at h
  obtain ⟨v, -, rfl⟩ := Option.map_eq_some_iff.mp h
  rfl

lemma specialPort_of_large {task : Task} {which : ℕ} (h : taskBootstrapPort < which) :
    specialPort task which = nameNull := by
  rw [specialPort, if_neg h.ne', if_neg (Nat.lt_trans (by decide) h).ne']

lemma taskRequest_getSpecial {data : Bytes} (hid : (readHeader data).id = taskGetSpecialPortId)
    : taskRequest fuel s t replyPort data =
      some (⟨44, replyHeader machMsghBitsComplex 44 0 (taskGetSpecialPortId + 100) ++
        [(24, 4, 1), (28, 4, specialPort (s.tasks t) (readLE data 24 4))]⟩, s) := by
  rw [taskRequest, if_neg (by rw [hid]; decide), if_neg (by rw [hid]; decide), if_pos hid]

lemma taskRequest_setSpecial {data : Bytes} (hid : (readHeader data).id = taskSetSpecialPortId)
    : taskRequest fuel s t replyPort data = some (migReply replyPort (taskSetSpecialPortId + 100) 0,
        s.setTask t (setSpecialPort (s.tasks t) (readLE data 24 4) (readLE data 28 4))) := by
  rw [taskRequest, if_neg (by rw [hid]; decide), if_neg (by rw [hid]; decide),
    if_neg (by rw [hid]; decide), if_pos hid]

lemma vmAllocate_first (ht : (s.tasks t).vmMap ≠ 0) :
    (vmAllocate s t 0x1000 4096 0).1 = 0 ∧ (vmAllocate s t 0x1000 4096 0).2.1 = 0x1000 := by
  simp [vmAllocate, ht, userEnd]

lemma vmAllocate_tooLarge (hn : 0x100000000 < n) : (vmAllocate s t address n flags).1 = kernInvalidArgument := by
  rw [vmAllocate, if_pos (.inr (.inr hn))]

/-- A place the kernel chooses is high up. -/
lemma le_vmPlace (t : Task) (n : ℕ) : 0x0000600000000000 ≤ (vmPlace t n).1 := by
  unfold vmPlace
  split_ifs with h
  · exact le_rfl
  · exact Nat.le_of_not_lt fun hlt => h (.inr hlt)

lemma vmAllocate_anywhere (hflags : flags % 2 = 1) : (vmAllocate s t 0x1000 4096 flags).2.1 ≠ 0x1000 := by
  have hplace := le_vmPlace (s.tasks t) ((4096 + 4095) / 4096 * 4096)
  have hne : (vmPlace (s.tasks t) ((4096 + 4095) / 4096 * 4096)).1 ≠ 0x1000 :=
    (Nat.lt_of_lt_of_le (by decide) hplace).ne'
  unfold vmAllocate
  dsimp only
  by_cases h1 : (s.tasks t).vmMap = 0 ∨ 4096 = 0 ∨ 0x100000000 < 4096
  · rw [if_pos h1]
    exact Nat.succ_ne_zero 4095 ∘ Eq.symm
  · rw [if_neg h1, if_pos (.inr hflags : 0x1000 = 0 ∨ flags % 2 = 1)]
    generalize vmPlace (s.tasks t) ((4096 + 4095) / 4096 * 4096) = place at hne ⊢
    split_ifs <;> exact hne

section

variable (hlo : machMsgHeaderSize ≤ size)
include hlo

/-- `MACH_VM_ALLOCATE_ID`: the upper bytes of the size make a valid request invalid, and the flags
decide who chooses the address. -/
lemma not_servedAlike_allocate (hhi : size < machMsgHeaderSize + 17) :
    ¬ ServedAlike machVmAllocateId size := by
  intro h
  dsimp only [machMsgHeaderSize] at hhi
  obtain ⟨hid, hid', heq⟩ := h.apply (by decide) (by omega) hlo
    [(24, 8, 0x1000), (32, 8, 4096), (40, 4, 0)] (by decide)
  have haddress := requestOf_field machVmAllocateId size [] [(32, 8, 4096), (40, 4, 0)] 24 8 0x1000
    (by decide)
  have hlength := requestOf_field machVmAllocateId size [(24, 8, 0x1000)] [(40, 4, 0)] 32 8 4096
    (by decide)
  have hflags := requestOf_field machVmAllocateId size [(24, 8, 0x1000), (32, 8, 4096)] [] 40 4 0
    (by decide)
  simp only [List.nil_append, List.cons_append] at haddress hlength hflags
  generalize requestOf machVmAllocateId size _ = data at *
  obtain ⟨hcode, haddr⟩ := taskRequest_allocate hid hid' heq rfl rfl
  rw [haddress, hlength, hflags] at hcode haddr
  obtain ⟨hfirst, hfirst'⟩ := vmAllocate_first (s := requestIpc) (t := 0) (by decide)
  by_cases hshort : size ≤ 39
  · have hlarge := le_readLE_onesBehind data (n := 7) hshort
    rw [vmAllocate_tooLarge (Nat.lt_of_lt_of_le (by decide) hlarge)] at hcode
    exact absurd (hcode.trans hfirst) (by decide)
  · have hodd : readLE (onesBehind data size) 40 4 % 256 = 255 := by
      rw [readLE_mod]
      exact congrArg BitVec.toNat (if_neg (by omega))
    rw [readLE_onesBehind (by omega), readLE_onesBehind (by omega), haddress, hlength] at haddr
    exact vmAllocate_anywhere (by omega) ((haddr hfirst).trans hfirst')

/-- `MACH_VM_DEALLOCATE_ID`: the upper bytes of the size make a valid request invalid. -/
lemma not_servedAlike_deallocate (hhi : size < machMsgHeaderSize + 16) : ¬ ServedAlike machVmDeallocateId size := by
  intro h
  dsimp only [machMsgHeaderSize] at hhi
  obtain ⟨hid, hid', heq⟩ := h.apply (by decide) (by omega) hlo [(24, 8, 0x1000), (32, 8, 4096)]
    (by decide)
  have haddress := requestOf_field machVmDeallocateId size [] [(32, 8, 4096)] 24 8 0x1000 (by decide)
  have hlength := requestOf_field machVmDeallocateId size [(24, 8, 0x1000)] [] 32 8 4096 (by decide)
  simp only [List.nil_append, List.cons_append] at haddress hlength
  generalize requestOf machVmDeallocateId size _ = data at *
  have hlarge := le_readLE_onesBehind data (n := 7) (Nat.le_of_lt_succ hhi)
  rw [taskRequest_deallocate hid, taskRequest_deallocate hid', haddress, hlength,
    vmDeallocate_tooLarge (Nat.le_trans (by decide) hlarge)] at heq
  obtain ⟨r, hr, hreply⟩ := Option.map_eq_some_iff.mp heq.symm
  have hcode := migReply_code (Prod.mk.inj hreply).1
  rw [vmDeallocate_first hr] at hcode
  exact absurd hcode (by decide)

/-- `TASK_GET_SPECIAL_PORT_ID`: the upper bytes decide which port is asked for. -/
lemma not_servedAlike_getSpecial (hhi : size < machMsgHeaderSize + 4) :
    ¬ ServedAlike taskGetSpecialPortId size := by
  intro h
  dsimp only [machMsgHeaderSize] at hhi
  obtain ⟨hid, hid', heq⟩ := h.apply (by decide) (by omega) hlo [(24, 4, taskBootstrapPort)] (by decide)
  have hwhich := requestOf_field taskGetSpecialPortId size [] [] 24 4 taskBootstrapPort (by decide)
  simp only [List.nil_append] at hwhich
  generalize requestOf taskGetSpecialPortId size _ = data at *
  have hlarge := le_readLE_onesBehind data (Nat.le_of_lt_succ hhi)
  rw [taskRequest_getSpecial hid, taskRequest_getSpecial hid', hwhich,
    specialPort_of_large (Nat.lt_of_lt_of_le (by decide) hlarge)] at heq
  have hfields := congrArg Reply.fields (Prod.mk.inj (Option.some.inj heq)).1
  exact absurd hfields (by decide)

/-- `TASK_SET_SPECIAL_PORT_ID`: the upper bytes decide which port is set, and to what. -/
lemma not_servedAlike_setSpecial (hhi : size < machMsgHeaderSize + 8) :
    ¬ ServedAlike taskSetSpecialPortId size := by
  intro h
  dsimp only [machMsgHeaderSize] at hhi
  obtain ⟨hid, hid', heq⟩ := h.apply (by decide) (by omega) hlo
    [(24, 4, taskBootstrapPort), (28, 4, 1)] (by decide)
  have hwhich := requestOf_field taskSetSpecialPortId size [] [(28, 4, 1)] 24 4 taskBootstrapPort
    (by decide)
  have hname := requestOf_field taskSetSpecialPortId size [(24, 4, taskBootstrapPort)] [] 28 4 1
    (by decide)
  simp only [List.nil_append, List.cons_append] at hwhich hname
  generalize requestOf taskSetSpecialPortId size _ = data at *
  have hlarge : 255 * 256 ^ 3 ≤ readLE (onesBehind data size) 28 4 :=
    le_readLE_onesBehind data (Nat.le_of_lt_succ hhi)
  rw [taskRequest_setSpecial hid, taskRequest_setSpecial hid', hwhich, hname] at heq
  have htask := congrArg (fun s => (s.tasks 0).bootstrapPort) (Prod.mk.inj (Option.some.inj heq)).2
  simp only [Ipc.tasks_setTask, if_pos] at htask
  change _ = 1 at htask
  unfold setSpecialPort at htask
  split_ifs at htask
  · change readLE (onesBehind data size) 28 4 = 1 at htask
    omega
  · exact absurd htask (by decide)

end

end short

/-- **Requests depend on the message alone** exactly if the message has all the bytes they use. -/
theorem request_depends_on_message {id size : ℕ} (hlo : machMsgHeaderSize ≤ size) :
    ServedAlike id size ↔ machMsgHeaderSize + requestBytes id ≤ size := by
  refine ⟨fun h => ?_, servedAlike_of_le⟩
  by_contra hlt
  have hlt := Nat.lt_of_not_le hlt
  unfold requestBytes at hlt
  split_ifs at hlt with h1 h2 h3 h4
  · exact not_servedAlike_allocate hlo hlt (h1 ▸ h)
  · exact not_servedAlike_deallocate hlo hlt (h2 ▸ h)
  · exact not_servedAlike_getSpecial hlo hlt (h3 ▸ h)
  · exact not_servedAlike_setSpecial hlo hlt (h4 ▸ h)
  · exact Nat.not_le.mpr hlt hlo

theorem request_depends_on_message_forty :
    ServedAlike machVmDeallocateId 40 ↔ machMsgHeaderSize + requestBytes machVmDeallocateId ≤ 40 :=
  request_depends_on_message (by decide)

/-- **A stale request.** A message to a task port that is no longer than its header asks for
`TASK_SET_SPECIAL_PORT_ID`. What an earlier message has left in the buffer decides whether the bootstrap
port of the task changes. -/
theorem staleRequest_sets_port : ∃ data data' : Bytes,
    (readHeader data).size = machMsgHeaderSize ∧ (∀ b < machMsgHeaderSize, data' b = data b) ∧
    ((kobjectRequest 0 requestIpc 0 0 0 data).map fun r => (r.2.tasks 0).bootstrapPort) = some 7 ∧
    ((kobjectRequest 0 requestIpc 0 0 0 data').map fun r => (r.2.tasks 0).bootstrapPort) = some 1 :=
  ⟨requestOf taskSetSpecialPortId 24 [], requestOf taskSetSpecialPortId 24 [(24, 4, 4), (28, 4, 1)],
    by decide, by decide, by decide, by decide⟩

end Chimera
