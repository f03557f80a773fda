import Chimera.Ipc.Kmsg

/-!
# The size of a message is fetched twice

`ipc_kmsg_copyin` reads the header once to check `msgh_size` and again with the rest of the message; what
it delivers later goes by the size of the second read. **`copyin_size_fetched_twice`** says that the size
it has checked is the size it keeps exactly if both reads get the same; `secondFetch_grows` is a sender
that changes it in between.
-/

namespace Chimera

open Lib

/-! ## What is in front of the descriptors -/

section front

variable {read : UserReads} {k : Kmsg} {sp off n : ℕ} {s s' : Ipc}

/-- The front of the data of message `k`, up to `off`, is as it was. -/
def FrontKept (k : Kmsg) (off : ℕ) (s s' : Ipc) : Prop :=
  ∀ b < off, (s'.kmsgs k).data b = (s.kmsgs k).data b

lemma FrontKept.refl (k : Kmsg) (off : ℕ) (s : Ipc) : FrontKept k off s s := fun _ _ => rfl

lemma FrontKept.trans {s'' : Ipc} {off' : ℕ} (h : FrontKept k off s s') (h' : FrontKept k off' s' s'')
    (hoff : off ≤ off') : FrontKept k off s s'' :=
  fun b hb => (h' b (Nat.lt_of_lt_of_le hb hoff)).trans (h b hb)

lemma FrontKept.onSuccess {r : ChimeraError × Ipc} {f : Ipc → ChimeraError × Ipc}
    (h : FrontKept k off s r.2) (hf : ∀ s1, FrontKept k off s1 (f s1).2) :
    FrontKept k off s (onSuccess r f).2 := by
  unfold Chimera.onSuccess
  split_ifs
  · exact h.trans (hf r.2) le_rfl
  · exact h

/-- A descriptor is written behind the front. -/
lemma FrontKept.writeLE {m : IpcKmsg} {x : ℕ} (hm : m.data = writeLE (s.kmsgs k).data off 8 x) :
    FrontKept k off s (s.setKmsg k m) := by
  intro b hb
  rw [Ipc.kmsgs_setKmsg, if_pos rfl, hm]
  exact writeLE_of_outside fun h => Nat.not_le.mpr hb h.1

lemma frontKept_copyinPort : FrontKept k off s (copyinPort s k sp off) := FrontKept.writeLE rfl

variable {size c msgEnd oolIdx : ℕ}

lemma frontKept_fillRegion {paddr : ℕ} {v : Vm} (r : Option Bytes) :
    FrontKept k off s (fillRegion s k off size paddr v r).2 := by
  cases r with
  | none => exact .refl k off s
  | some src =>
    rw [fillRegion]
    generalize storeBytes v paddr src size = v'
    exact FrontKept.writeLE rfl

lemma frontKept_copyinRegion {address : ℕ} {a : ℕ × Pmm} :
    FrontKept k off s (copyinRegion read s k off n address size a).2 := by
  unfold copyinRegion
  split_ifs
  · exact .refl k off s
  · exact frontKept_fillRegion _

lemma frontKept_copyinOol (read : UserReads) (s : Ipc) (k : Kmsg) (off n : ℕ) :
    FrontKept k off s (copyinOol read s k off n).2 := by
  by_cases h : oolValid (s.kmsgs k).data off
  · rw [copyinOol, if_pos h]
    exact frontKept_copyinRegion
  · rw [copyinOol, if_neg h]
    exact .refl k off s

/-- **The loop over the descriptors** leaves what is in front of them alone. -/
lemma frontKept_copyinDescriptors : FrontKept k off s (copyinDescriptors read k sp msgEnd c off n s).2 := by
  induction c generalizing off n s with
  | zero => exact .refl k off s
  | succ c ih =>
    rw [copyinDescriptors]
    split_ifs
    · exact .refl k off s
    · exact frontKept_copyinPort.trans ih (Nat.le_add_right _ _)
    · exact .refl k off s
    · apply (frontKept_copyinOol read s k off n).onSuccess
      exact fun s1 b hb => ih b (Nat.lt_of_lt_of_le hb (Nat.le_add_right _ _))
    · exact .refl k off s

lemma copyinRemote_data (s : Ipc) (k : Kmsg) (sp : ℕ) (r : Option ℕ) :
    ((copyinRemote s k sp r).2.kmsgs k).data = (s.kmsgs k).data := by
  cases r with
  | none => rfl
  | some remote =>
    dsimp only [copyinRemote]
    rw [Ipc.kmsgs_setKmsg, if_pos rfl]

lemma frontKept_copyinBody : FrontKept k descriptorStart s (copyinBody read s k sp size).2 := by
  have hports : FrontKept k descriptorStart s (copyinPorts s k sp).2 := by
    intro b _
    rw [copyinPorts, copyinRemote_data]
  refine hports.onSuccess fun s1 => ?_
  rw [copyinComplex]
  split_ifs
  · exact .refl k _ s1
  · exact frontKept_copyinDescriptors
  · exact .refl k _ s1

lemma ipcPortCopyoutSend_kmsgs (s : Ipc) (sp : ℕ) (port : Option ℕ) :
    (ipcPortCopyoutSend s sp port).2.kmsgs = s.kmsgs := by
  cases port with
  | none => rfl
  | some p =>
    unfold ipcPortCopyoutSend
    dsimp only
    by_cases hr : (s.ports p).receiver = some sp
    · rw [if_pos hr]
    · rw [if_neg hr]
      cases findSendRight (s.spaces sp) p with
      | some i => rfl
      | none => split_ifs <;> rfl

lemma copyoutName_kmsgs (s : Ipc) (sp port : ℕ) : (copyoutName s sp port).2.kmsgs = s.kmsgs := by
  unfold copyoutName
  split_ifs
  · rfl
  · exact ipcPortCopyoutSend_kmsgs s sp _

lemma frontKept_setPortName {r : ℕ × Ipc} (hr : r.2.kmsgs = s.kmsgs) : FrontKept k off s (setPortName k off r) := by
  intro b hb
  dsimp only [setPortName]
  rw [Ipc.kmsgs_setKmsg, if_pos rfl, hr]
  dsimp only
  rw [writeLE_of_outside (by omega), writeLE_of_outside (by omega)]

lemma frontKept_copyoutOol : FrontKept k off s (copyoutOol s k sp off oolIdx).2 := by
  unfold copyoutOol
  split_ifs
  · dsimp only [deliverRegion]
    generalize mapRegion s.vm _ _ _ _ = v
    exact FrontKept.writeLE rfl
  · exact .refl k off s
  · exact .refl k off s

lemma frontKept_copyoutDescriptors : FrontKept k off s (copyoutDescriptors k sp msgEnd c off oolIdx s) := by
  induction c generalizing off oolIdx s with
  | zero => exact .refl k off s
  | succ c ih =>
    rw [copyoutDescriptors]
    split_ifs
    · exact .refl k off s
    · exact (frontKept_setPortName (copyoutName_kmsgs s sp _)).trans ih (Nat.le_add_right _ _)
    · exact .refl k off s
    · exact frontKept_copyoutOol.trans ih (Nat.le_add_right _ _)
    · exact .refl k off s

/-- Only the two ports of the header change. -/
lemma frontKept_copyoutHeader : FrontKept k 8 s (copyoutHeader s k sp) := by
  have hkmsgs := ipcPortCopyoutSend_kmsgs s sp (s.kmsgs k).localPort
  rw [copyoutHeader]
  generalize ipcPortCopyoutSend s sp (s.kmsgs k).localPort = r at hkmsgs ⊢
  intro b hb
  dsimp only [setHeaderNames]
  rw [Ipc.kmsgs_setKmsg, if_pos rfl, hkmsgs]
  dsimp only
  rw [writeLE_of_outside (by omega), writeLE_of_outside (by omega)]

/-- **`ipc_kmsg_copyout` copies as many bytes as the kernel's copy says.** -/
lemma copyoutMessage_size :
    (readHeader ((copyoutMessage s k sp).kmsgs k).data).size = (readHeader (s.kmsgs k).data).size := by
  have hkept : FrontKept k 8 s (copyoutMessage s k sp) := by
    rw [copyoutMessage]
    split_ifs
    · exact frontKept_copyoutHeader.trans frontKept_copyoutDescriptors (by decide)
    · exact frontKept_copyoutHeader
  exact readLE_congr fun i hi => hkept _ (by omega)

/-- The header is part of the front. -/
lemma FrontKept.header (h : FrontKept k descriptorStart s s') :
    readHeader (s'.kmsgs k).data = readHeader (s.kmsgs k).data := by
  have hfield : ∀ a, a + 4 ≤ descriptorStart → readLE (s'.kmsgs k).data a 4 = readLE (s.kmsgs k).data a 4 :=
    fun a ha => readLE_congr fun i hi => h _ (by omega)
  unfold readHeader
  rw [hfield 0 (by decide), hfield 4 (by decide), hfield 8 (by decide), hfield 12 (by decide),
    hfield 16 (by decide), hfield 20 (by decide)]

end front

/-! ## The two reads -/

variable {k : Kmsg} {s s' : Ipc} {size sp userHeaderVa : ℕ} {src : Bytes} {read : UserReads}

/-- The header the kernel keeps is that of the second read. -/
lemma copyinData_header (hsize : machMsgHeaderSize ≤ size) :
    readHeader ((copyinData s k sp size src).kmsgs k).data = readHeader src := by
  have hdata : ((copyinData s k sp size src).kmsgs k).data = copyBytes (s.kmsgs k).data src size := by
    dsimp only [copyinData]
    rw [Ipc.kmsgs_setKmsg, if_pos rfl]
  have hfield : ∀ a, a + 4 ≤ machMsgHeaderSize → readLE (copyBytes (s.kmsgs k).data src size) a 4 = readLE src a 4 :=
    fun a ha => readLE_congr fun i hi => if_pos (by omega)
  rw [hdata]
  unfold readHeader
  rw [hfield 0 (by decide), hfield 4 (by decide), hfield 8 (by decide), hfield 12 (by decide),
    hfield 16 (by decide), hfield 20 (by decide)]

lemma sizeValid_iff {m : IpcKmsg} :
    sizeValid m size ↔ machMsgHeaderSize ≤ size ∧ size ≤ machMsgSizeMax ∧ size ≤ m.size := by
  rw [sizeValid, decide_eq_true_iff]

/-- What a successful `ipc_kmsg_copyin` has read. -/
lemma copyin_success (h : ipcKmsgCopyin read s k userHeaderVa sp = (.success, s')) :
    ∃ hdr src, read 0 s.vm userHeaderVa machMsgHeaderSize = some hdr ∧
      read 1 s.vm userHeaderVa (readHeader hdr).size = some src ∧
      sizeValid (s.kmsgs k) (readHeader hdr).size ∧
      copyinBody read (copyinData s k sp (readHeader hdr).size src) k sp (readHeader hdr).size = (.success, s') := by
  rw [ipcKmsgCopyin] at h
  by_cases hva : userHeaderVa = 0
  · rw [if_pos hva] at h
    cases h
  rw [if_neg hva] at h
  rcases hhdr : read 0 s.vm userHeaderVa machMsgHeaderSize with _ | hdr
  · rw [hhdr, copyinFirst] at h
    cases h
  rw [hhdr, copyinFirst] at h
  by_cases hsize : sizeValid (s.kmsgs k) (readHeader hdr).size
  swap
  · rw [if_neg hsize] at h
    cases h
  rw [if_pos hsize] at h
  rcases hsrc : read 1 s.vm userHeaderVa (readHeader hdr).size with _ | src
  · rw [hsrc, copyinSecond] at h
    cases h
  rw [hsrc, copyinSecond] at h
  exact ⟨hdr, src, rfl, hsrc, hsize, h⟩

/-- The kernel keeps the size of the second read. -/
lemma copyin_keeps_second (h : ipcKmsgCopyin read s k userHeaderVa sp = (.success, s')) :
    ∃ hdr src, read 0 s.vm userHeaderVa machMsgHeaderSize = some hdr ∧
      read 1 s.vm userHeaderVa (readHeader hdr).size = some src ∧
      sizeValid (s.kmsgs k) (readHeader hdr).size ∧
      (readHeader (s'.kmsgs k).data).size = (readHeader src).size := by
  obtain ⟨hdr, src, hhdr, hsrc, hvalid, hbody⟩ := copyin_success h
  have hkept : FrontKept k descriptorStart (copyinData s k sp (readHeader hdr).size src) s' := by
    have hfront : FrontKept k descriptorStart (copyinData s k sp (readHeader hdr).size src)
      (copyinBody read (copyinData s k sp (readHeader hdr).size src) k sp (readHeader hdr).size).2 :=
      frontKept_copyinBody
    rwa [hbody] at hfront
  refine ⟨hdr, src, hhdr, hsrc, hvalid, ?_⟩
  rw [hkept.header, copyinData_header (sizeValid_iff.mp hvalid).1]

/-! ## A sender that changes its message -/

/-- A message without descriptors to a port the sender has a right for is copied in. -/
lemma copyin_simple {remote : ℕ} {hdr : Bytes}
    (hva : userHeaderVa ≠ 0) (hhdr : read 0 s.vm userHeaderVa machMsgHeaderSize = some hdr)
    (hsize : sizeValid (s.kmsgs k) (readHeader hdr).size)
    (hsrc : read 1 s.vm userHeaderVa (readHeader hdr).size = some src)
    (hremote : ipcPortLookup s sp (readHeader src).remotePort (remoteRight (readHeader src).bits) =
      some remote) (hbits : isComplex src = false) :
    ∃ s', ipcKmsgCopyin read s k userHeaderVa sp = (.success, s') := by
  have hheader : readHeader ((copyinData s k sp (readHeader hdr).size src).kmsgs k).data = readHeader src :=
    copyinData_header (sizeValid_iff.mp hsize).1
  have hlookup : ipcPortLookup (copyinData s k sp (readHeader hdr).size src) sp
      (readHeader src).remotePort (remoteRight (readHeader src).bits) = some remote := hremote
  rw [ipcKmsgCopyin, if_neg hva, hhdr, copyinFirst, if_pos hsize, hsrc, copyinSecond]
  generalize copyinData s k sp (readHeader hdr).size src = s1 at hheader hlookup ⊢
  have hports : copyinPorts s1 k sp = copyinRemote s1 k sp (some remote) := by rw [copyinPorts, hheader, hlookup]
  have hdata := copyinRemote_data s1 k sp (some remote)
  have hcomplex : isComplex ((copyinRemote s1 k sp (some remote)).2.kmsgs k).data = false := by
    rw [hdata, ← hbits, isComplex, hheader, isComplex]
  have hdone : (copyinRemote s1 k sp (some remote)).1 = .success := rfl
  refine ⟨(copyinRemote s1 k sp (some remote)).2, ?_⟩
  rw [copyinBody, hports, onSuccess, if_pos hdone, copyinComplex, hcomplex, if_pos (by decide)]

/-- A sender whose header, to port name `1`, has one size at the first read and another one later. -/
def growingReads (size size' : ℕ) : UserReads := fun n _ _ _ =>
  some (Reply.bytes ⟨24, replyHeader 0 (if n = 0 then size else size') 1 0⟩)

/-- Space `0` has a port of its own, and a message of the pool. -/
def portIpc : Ipc :=
  (kmsgFromPool (ipcPortAlloc (quietIpc noVm) 0).2 24 (some 0)).2

lemma portIpc_lookup : ipcPortLookup portIpc 0 1 typeSend = some 0xFFFFFFFF80400000 := rfl

/-- The sender succeeds, whatever its second size. -/
lemma growingReads_success (size size' : ℕ)
    (hsize : sizeValid (portIpc.kmsgs (.pool 0)) (readHeader (Reply.bytes ⟨24, replyHeader 0 size 1 0⟩)).size)
    (hremote : (readHeader (Reply.bytes ⟨24, replyHeader 0 size' 1 0⟩)).remotePort = 1)
    (hbits : (readHeader (Reply.bytes ⟨24, replyHeader 0 size' 1 0⟩)).bits = 0) :
    ∃ s', ipcKmsgCopyin (growingReads size size') portIpc (.pool 0) 0x1000 0 = (.success, s') := by
  have hlookup : ipcPortLookup portIpc 0 (readHeader (Reply.bytes ⟨24, replyHeader 0 size' 1 0⟩)).remotePort
      (remoteRight (readHeader (Reply.bytes ⟨24, replyHeader 0 size' 1 0⟩)).bits) =
      some 0xFFFFFFFF80400000 := by
    rw [hremote, hbits]
    exact portIpc_lookup
  apply copyin_simple (by decide) rfl hsize rfl hlookup
  rw [isComplex, hbits]
  decide

/-- **The size is fetched twice.** Whatever each read of the sender's memory gets, if `ipc_kmsg_copyin`
succeeds then the size in the kernel's copy is the one that was checked, and what `ipc_kmsg_copyout`
later copies of it lies within the bytes that were copied in, exactly if the second read of the size gets
the same as the first. -/
theorem copyin_size_fetched_twice {read : UserReads} {s s' : Ipc} {k : Kmsg} {userHeaderVa sp : ℕ}
    (h : ipcKmsgCopyin read s k userHeaderVa sp = (.success, s')) :
    ∃ hdr src, read 0 s.vm userHeaderVa machMsgHeaderSize = some hdr ∧
      read 1 s.vm userHeaderVa (readHeader hdr).size = some src ∧
      (readHeader hdr).size ≤ (s.kmsgs k).size ∧
      ((readHeader (s'.kmsgs k).data).size = (readHeader hdr).size ∧ (∀ t sp', (t.kmsgs k).data = (s'.kmsgs k).data →
            (kmsgImage ((copyoutMessage t k sp').kmsgs k)).length ≤ (readHeader hdr).size) ↔
        (readHeader src).size = (readHeader hdr).size) := by
  obtain ⟨hdr, src, hhdr, hsrc, hvalid, hsize⟩ := copyin_keeps_second h
  refine ⟨hdr, src, hhdr, hsrc, (sizeValid_iff.mp hvalid).2.2, ?_⟩
  rw [hsize]
  refine ⟨And.left, fun heq => ⟨heq, fun t sp' ht => ?_⟩⟩
  rw [kmsgImage, bytesBelow, List.length_map, List.length_range, copyoutMessage_size, ht, hsize]
  exact heq.le

theorem copyin_size_fetched_twice_steady : ∃ s',
    ipcKmsgCopyin (growingReads 24 24) portIpc (.pool 0) 0x1000 0 = (.success, s') ∧
    (readHeader (s'.kmsgs (.pool 0)).data).size = 24 := by
  obtain ⟨s', hs'⟩ := growingReads_success 24 24 (by decide) (by decide) (by decide)
  obtain ⟨hdr, src, hhdr, hsrc, -, hiff⟩ := copyin_size_fetched_twice hs'
  cases hhdr
  cases hsrc
  exact ⟨s', hs', (hiff.mpr rfl).1⟩

/-- **The second fetch may grow the message.** The size that is checked is `24`, the kernel's copy says
`400`: the other bytes it delivers are what earlier messages have left in the buffer. -/
theorem secondFetch_grows : ∃ hdr s',
    growingReads 24 400 0 portIpc.vm 0x1000 machMsgHeaderSize = some hdr ∧ (readHeader hdr).size = 24 ∧
    ipcKmsgCopyin (growingReads 24 400) portIpc (.pool 0) 0x1000 0 = (.success, s') ∧
    (readHeader (s'.kmsgs (.pool 0)).data).size = 400 := by
  obtain ⟨s', hs'⟩ := growingReads_success 24 400 (by decide) (by decide) (by decide)
  obtain ⟨hdr, src, hhdr, hsrc, -, hsize⟩ := copyin_keeps_second hs'
  cases hsrc
  refine ⟨_, s', rfl, by decide, hs', hsize.trans ?_⟩
  decide

end Chimera
