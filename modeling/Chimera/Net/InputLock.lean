import Chimera.Lib.Outcome
import Chimera.Net.Model

/-!
# The receive lock: `kernel/net/if.c`

`if_input` holds `s_net_input_lock` while it handles a frame. An answer to the frame may need an address that is
not in the ARP cache; `arp_resolve` then polls the network card, and a frame that it finds goes to `if_input`
again, on the same CPU and under the same lock.

`input_lock_discipline` says for each state when no received frame leads to that: exactly if the ARP cache has
the next hop of every address that can be answered, also after the sender of an ARP request was inserted
(`AnswersResolved`). A ping from an unknown neighbour is enough to hang the CPU (`ping_from_stranger_deadlocks`).

For the one direction, an answer whose next hop is known never polls (`ethernetOutput_resolved`), and the next
packet on the loopback interface is again of this kind (`receive_ipInputSafe`). For the other, `echoFrame` and
`requestFrame` are frames that are answered to any given address.
-/

namespace Chimera

open Lib

/-- The same host with another card. -/
def Net.withCard (s : Net) (card : ℕ → List Packet) : Net := { s with card := card }

/-- The next hop of an address is in the ARP cache. -/
def HopKnown (arp : ℕ → Option ArpEntry) (ifp : Ifnet) (ip : InAddr) : Prop :=
  arpLookup arp (nextHop ifp ip) ≠ none

/-- **Every answer has a known next hop.** An IP packet is answered to any source but the host itself; an ARP
request to its sender, which is inserted into the cache first. With fewer mbufs there is no answer, or none left
for a second frame. -/
structure AnswersResolved (s : Net) (ifp : Ifnet) : Prop where
  ip : s.mbufs < 2 ∨ ∀ src, src ≠ loopbackAddr → ¬ isBroadcast ifp src → HopKnown s.arp ifp src
  arp : s.mbufs = 0 ∨ ∀ sha spa, sha.length = 6 → ¬ badSender ifp sha spa → ¬ isBroadcast ifp spa →
    HopKnown (arpCacheInsert s.arp spa sha) ifp spa

/-! ## Answers with a known next hop -/

lemma nextHop_nextHop (ifp : Ifnet) (dst : InAddr) : nextHop ifp (nextHop ifp dst) = nextHop ifp dst := by
  unfold nextHop
  split_ifs <;> rfl

variable {arp : ℕ → Option ArpEntry} {ip : InAddr}

lemma arpFind_some {i : ℕ} (h : arpFind arp ip = some i) : i < arpTableSize ∧ ∃ e, arp i = some e ∧ e.ip = ip := by
  have hany := List.find?_some h
  obtain ⟨e, he, hip⟩ := (Option.any_eq_true _ _).mp hany
  exact ⟨List.mem_range.mp (List.mem_of_find?_eq_some h), e, he, of_decide_eq_true hip⟩

lemma arpFind_none (h : arpFind arp ip = none) {i : ℕ} (hi : i < arpTableSize) {e : ArpEntry} (he : arp i = some e) :
    e.ip ≠ ip := by
  have hnot := List.find?_eq_none.mp h i (List.mem_range.mpr hi)
  simpa [he] using hnot

lemma arpLookup_ne_none : arpLookup arp ip ≠ none ↔ ∃ i < arpTableSize, ∃ e, arp i = some e ∧ e.ip = ip := by
  unfold arpLookup
  cases hfind : arpFind arp ip with
  | none =>
    simp only [Option.bind_none, ne_eq, not_true_eq_false, false_iff]
    rintro ⟨i, hi, e, he, hip⟩
    exact arpFind_none hfind hi he hip
  | some i =>
    obtain ⟨hi, e, he, hip⟩ := arpFind_some hfind
    simp only [Option.bind_some, he, Option.map_some, ne_eq, reduceCtorEq, not_false_eq_true, true_iff]
    exact ⟨i, hi, e, he, hip⟩

/-- **Where an insertion goes**: over the entry of the address, into a free entry, or over the first one of a full
table. -/
lemma arpCacheInsert_cases (arp : ℕ → Option ArpEntry) (ip : InAddr) (mac : Packet) :
    ∃ i < arpTableSize, arpCacheInsert arp ip mac = Function.update arp i (some ⟨ip, mac⟩) ∧
      ((∃ e, arp i = some e ∧ e.ip = ip) ∨
        arpFind arp ip = none ∧ (arp i = none ∨ i = 0 ∧ ∀ j < arpTableSize, arp j ≠ none)) := by
  unfold arpCacheInsert
  cases hfind : arpFind arp ip with
  | some i =>
    obtain ⟨hi, h⟩ := arpFind_some hfind
    exact ⟨i, hi, rfl, .inl h⟩
  | none =>
    cases hfree : (List.range arpTableSize).find? fun i => (arp i).isNone with
    | some i =>
      have hi := List.mem_range.mp (List.mem_of_find?_eq_some hfree)
      have hnone := List.find?_some hfree
      exact ⟨i, hi, rfl, .inr ⟨rfl, .inl (Option.isNone_iff_eq_none.mp hnone)⟩⟩
    | none =>
      refine ⟨0, by decide, rfl, .inr ⟨rfl, .inr ⟨rfl, fun j hj => ?_⟩⟩⟩
      simpa using List.find?_eq_none.mp hfree j (List.mem_range.mpr hj)

/-- As long as the table has a free entry, an insertion displaces no address. -/
lemma arpCacheInsert_keeps {ip' : InAddr} {mac : Packet}
    (hfree : ∃ i < arpTableSize, arp i = none) (h : arpLookup arp ip ≠ none) :
    arpLookup (arpCacheInsert arp ip' mac) ip ≠ none := by
  obtain ⟨i, hi, e, he, hip⟩ := arpLookup_ne_none.mp h
  obtain ⟨j, -, hins, hj⟩ := arpCacheInsert_cases arp ip' mac
  rw [hins]
  refine arpLookup_ne_none.mpr ⟨i, hi, ?_⟩
  by_cases hij : i = j
  · subst hij
    rcases hj with ⟨e', he', hip'⟩ | ⟨-, hnone | ⟨-, hfull⟩⟩
    · cases he.symm.trans he'
      exact ⟨⟨ip', mac⟩, Function.update_self .., hip'.symm.trans hip⟩
    · cases he.symm.trans hnone
    · obtain ⟨k, hk, hnone⟩ := hfree
      exact absurd hnone (hfull k hk)
  · exact ⟨e, (Function.update_of_ne hij _ _).trans he, hip⟩

/-- No call of the circle ends in a deadlock. -/
def Safe {α : Type} (x : Except NetStop α) : Prop := Ensures (· ≠ .deadlock) (fun _ => True) x

variable {α : Type} {x : Except NetStop α}

lemma safe_ok (a : α) : Safe (.ok a) := trivial

lemma Safe.map {β : Type} (hx : Safe x) (f : α → β) : Safe (x.map f) := by
  cases x with
  | ok a => exact safe_ok _
  | error e => exact hx

lemma Safe.ne (hx : Safe x) : x ≠ .error .deadlock := Ensures.ne_error hx (not_not.mpr rfl)

section resolved

variable {re : Entry → Net → Except NetStop Net} {s : Net} {ifp : Ifnet}

/-- Without an mbuf the card's frames are dropped. -/
lemma passFrames_of_no_mbuf (h : s.mbufs = 0) (frames : List Packet) : passFrames re frames s = .ok s := by
  induction frames with
  | nil => rfl
  | cons frame frames ih =>
    rw [passFrames, if_pos (.inr h)]
    exact ih

lemma e1000PollRx_of_no_mbuf (h : s.mbufs = 0) : ∃ n, e1000PollRx re s = .ok { s with polls := n } := by
  unfold e1000PollRx
  split
  · exact ⟨s.polls, rfl⟩
  · exact ⟨s.polls + 1, passFrames_of_no_mbuf (s := { s with polls := s.polls + 1 }) h _⟩

lemma arpWait_of_no_mbuf (h : s.mbufs = 0) (ip : InAddr) (n : ℕ) : Safe (arpWait re ip n s) := by
  induction n generalizing s with
  | zero => exact safe_ok _
  | succ n ih =>
    obtain ⟨k, hk⟩ : ∃ k, e1000PollRx re s = .ok { s with polls := k } := e1000PollRx_of_no_mbuf h
    simp only [arpWait, hk, bind, Except.bind]
    cases arpLookup s.arp ip with
    | some mac => exact safe_ok _
    | none => exact ih h

variable {dst src : InAddr} {m : Packet} {i so : ℕ} {seg : TcpSegment}

/-- An address in the cache is found at once; without an mbuf nothing comes in while it is looked for. -/
lemma arpResolve_safe (h : s.mbufs = 0 ∨ HopKnown s.arp ifp dst) : Safe (arpResolve re s ifp dst) := by
  unfold arpResolve
  dsimp only
  cases hlookup : arpLookup s.arp (nextHop ifp dst) with
  | some mac => exact safe_ok _
  | none =>
    rcases h with h | h
    · rw [arpSendRequest, if_pos h]
      exact arpWait_of_no_mbuf h _ _
    · exact absurd hlookup h

/-- **An answer whose next hop is known** does not poll the card. -/
lemma ethernetOutput_resolved {m : List Packet} {ethertype : BitVec 16}
    (h : s.mbufs = 0 ∨ (¬ isBroadcast ifp dst → HopKnown s.arp ifp dst)) :
    Safe (ethernetOutput re s ifp m dst ethertype) := by
  unfold ethernetOutput
  split_ifs with hbcast
  · exact safe_ok _
  · refine (arpResolve_safe ?_).map _
    rcases h with h | h
    · exact .inl h
    · right
      rw [HopKnown, nextHop_nextHop]
      exact h hbcast

/-- What an IP packet may rely on. -/
structure IpSafe (s : Net) (ifp : Ifnet) : Prop where
  card : s.en0 = some ifp
  hops : s.mbufs < 2 ∨ ∀ src, src ≠ loopbackAddr → ¬ isBroadcast ifp src → HopKnown s.arp ifp src

/-- The input functions are safe on packets that may rely on it. -/
def IpInputSafe (re : Entry → Net → Except NetStop Net) (ifp : Ifnet) : Prop :=
  ∀ s m, IpSafe s ifp → Safe (re (.ipInput m) s)

/-- A state with no more mbufs, the same cache and the same card. -/
lemma IpSafe.of_le {s' : Net} (h : IpSafe s ifp) (hcard : s'.en0 = s.en0) (harp : s'.arp = s.arp)
    (hle : s'.mbufs ≤ s.mbufs) : IpSafe s' ifp := by
  refine ⟨hcard.trans h.card, ?_⟩
  rcases h.hops with hlt | hall
  · exact .inl (lt_of_le_of_lt hle hlt)
  · exact .inr (harp ▸ hall)

variable {hdr data : Packet} {flags : BitVec 8}

section

variable (hre : IpInputSafe re ifp)
include hre

lemma loopbackOutput_safe (h : IpSafe (s.free 1) ifp) :
    Safe (loopbackOutput re s hdr m) := by
  unfold loopbackOutput
  split_ifs
  · exact safe_ok _
  · exact safe_ok _
  · have h' : IpSafe (s.take.free 2) ifp := by
      refine h.of_le rfl rfl ?_
      dsimp only [Net.take, Net.free]
      omega
    exact (hre _ _ h').map _

lemma ipRoute_safe (h : IpSafe (s.free 1) ifp)
    : Safe (ipRoute re s hdr m src dst) := by
  have hcard : s.en0 = some ifp := h.card
  unfold ipRoute
  split_ifs with hloop
  · exact loopbackOutput_safe hre h
  · rw [hcard]
    refine ethernetOutput_resolved ?_
    rcases h.hops with hlt | hall
    · left
      dsimp only [Net.free] at hlt
      omega
    · right
      refine hall dst ?_
      rintro rfl
      exact hloop (decide_eq_true (.inl rfl))

/-- **A packet is sent in answer.** -/
lemma ipOutput_safe (h : IpSafe s ifp) {proto : BitVec 8}
    : Safe (ipOutput re s m src dst proto) := by
  unfold ipOutput
  by_cases hmbufs : s.mbufs = 0
  · rw [if_pos hmbufs]
    exact safe_ok _
  · rw [if_neg hmbufs]
    refine ipRoute_safe hre (h.of_le rfl rfl ?_)
    dsimp only [Net.take, Net.free, Net.nextIpId]
    omega

lemma tcpTransmit_safe (h : IpSafe s ifp)
    : Safe (tcpTransmit re s i flags data) := by
  have h' : ∀ pcb, IpSafe (s.take.setTcp i pcb) ifp := fun _ => h.of_le rfl rfl (Nat.sub_le s.mbufs 1)
  exact ipOutput_safe hre (h' _)

lemma tcpSendPacket_safe (h : IpSafe s ifp)
    : Safe (tcpSendPacket re s i flags data) := by
  unfold tcpSendPacket
  dsimp only
  split_ifs
  · exact safe_ok _
  · exact safe_ok _
  · exact tcpTransmit_safe hre (h.of_le rfl rfl le_rfl)

lemma icmpInput_safe (h : IpSafe s ifp) : Safe (icmpInput re s m src dst) := by
  unfold icmpInput
  split_ifs
  · exact safe_ok _
  · exact (ipOutput_safe hre h).map _
  · exact safe_ok _

end

/-- A new connection changes neither the mbufs nor the cache. -/
lemma tcpAllocChild_ipSafe (h : IpSafe s ifp) {localIp remoteIp : InAddr} {port : BitVec 16} {irs : BitVec 32}
    : IpSafe (tcpAllocChild s i so localIp remoteIp port irs).2 ifp := by
  unfold tcpAllocChild soNewChild
  cases freeSocket s with
  | none => exact h
  | some childSo =>
    dsimp only [Option.map_some]
    split
    · unfold soDiscardChild
      split
      · exact h.of_le rfl rfl le_rfl
      · exact h.of_le rfl rfl le_rfl
    · exact h.of_le rfl rfl le_rfl

lemma soQ0ToQ_ipSafe (h : IpSafe s ifp) (child : ℕ) : IpSafe (soQ0ToQ s child) ifp := by
  unfold soQ0ToQ
  split
  · exact h
  · split_ifs
    · exact h.of_le rfl rfl le_rfl
    · exact h

lemma applyOutcome_ipSafe (h : IpSafe s ifp) (i so : ℕ) (o : TcpOutcome) (m : Packet) :
    IpSafe (applyOutcome s i so o m) ifp := by
  have h1 : IpSafe (s.setTcp i o.pcb) ifp := h.of_le rfl rfl le_rfl
  have h2 : IpSafe (if o.accept then soQ0ToQ (s.setTcp i o.pcb) so else s.setTcp i o.pcb) ifp := by
    split_ifs
    · exact soQ0ToQ_ipSafe h1 so
    · exact h1
  unfold applyOutcome
  dsimp only
  generalize (if o.accept then soQ0ToQ (s.setTcp i o.pcb) so else s.setTcp i o.pcb) = s2 at h2 ⊢
  split_ifs
  · exact h2.of_le rfl rfl le_rfl
  · exact h2.of_le rfl rfl le_rfl
  · exact h2.of_le rfl rfl le_rfl
  · exact h2

section

variable (hre : IpInputSafe re ifp) (h : IpSafe s ifp)
include hre h

lemma tcpListenInput_safe : Safe (tcpListenInput re s i so src dst seg) := by
  have hchild : IpSafe (tcpAllocChild s i so dst src seg.sport seg.seq).2 ifp := tcpAllocChild_ipSafe h
  unfold tcpListenInput
  split_ifs
  · exact safe_ok _
  · generalize tcpAllocChild s i so dst src seg.sport seg.seq = r at hchild ⊢
    obtain ⟨_ | child, s1⟩ := r
    · exact safe_ok _
    · exact (tcpSendPacket_safe hre hchild).map _

lemma tcpConnInput_safe : Safe (tcpConnInput re s i so seg) := by
  unfold tcpConnInput
  refine Safe.map ?_ _
  unfold tcpReply
  split_ifs
  · exact (tcpSendPacket_safe hre (applyOutcome_ipSafe h i so _ _)).map _
  · exact safe_ok _

lemma tcpDispatch_safe : Safe (tcpDispatch re s src dst seg) := by
  unfold tcpDispatch
  cases tcpDemux s src seg with
  | none => exact safe_ok _
  | some i =>
    dsimp only
    cases (s.tcp i).so with
    | none => exact safe_ok _
    | some so =>
      split_ifs
      · exact tcpListenInput_safe hre h
      · exact tcpConnInput_safe hre h

lemma tcpInput_safe : Safe (tcpInput re s m src dst) := by
  unfold tcpInput
  cases parseTcp src dst m with
  | none => exact safe_ok _
  | some seg => exact tcpDispatch_safe hre h

lemma ipInput_safe : Safe (ipInput re s m) := by
  unfold ipInput
  dsimp only
  split_ifs
  · exact safe_ok _
  · exact safe_ok _
  · exact safe_ok _
  · exact icmpInput_safe hre h
  · exact safe_ok _
  · exact tcpInput_safe hre h
  · exact safe_ok _

end

/-- **Packets on the loopback interface**, with any number of nested calls. -/
lemma receive_ipInputSafe (ifp : Ifnet) (n : ℕ) : IpInputSafe (receive n) ifp := by
  induction n with
  | zero =>
    intro s m _
    exact nofun
  | succ n ih =>
    intro s m h
    exact ipInput_safe ih h

lemma arpInput_safe (h : AnswersResolved s ifp) : Safe (arpInput re s ifp m) := by
  unfold arpInput
  dsimp only
  by_cases hlen : m.length < 28
  · rw [if_pos hlen]
    exact safe_ok _
  · rw [if_neg hlen]
    split_ifs with _ hbad
    · exact safe_ok _
    · exact safe_ok _
    · unfold arpSendReply
      refine (ethernetOutput_resolved ?_).map _
      rcases h.arp with hmbufs | hall
      · exact .inl hmbufs
      · refine .inr (hall _ _ ?_ hbad)
        rw [List.length_take, List.length_drop]
        omega
    · exact safe_ok _
    · exact safe_ok _

/-- **A received frame** does not come back to `if_input`. -/
lemma ifInput_safe (hcard : s.en0 = some ifp) (hlock : s.inputLock = false) (h : AnswersResolved s ifp) {n : ℕ}
    : Safe (ifInput (receive n) s m) := by
  unfold ifInput
  rw [hlock, hcard]
  refine Safe.map ?_ _
  unfold ethernetInput
  split_ifs
  · exact safe_ok _
  · exact arpInput_safe ⟨h.ip, h.arp⟩
  · exact ipInput_safe (receive_ipInputSafe ifp n) ⟨hcard, h.ip⟩
  · exact safe_ok _

end resolved

/-! ## Answers without a known next hop -/

/-- A frame is in the ring whenever the card is polled. -/
def busyCard : ℕ → List Packet := fun _ => [[0]]

section unresolved

variable {s : Net} {ifp : Ifnet} {n : ℕ}

/-- A frame is being handled while more frames are in the ring. -/
structure Handling (s : Net) (ifp : Ifnet) : Prop where
  en0 : s.en0 = some ifp
  lock : s.inputLock = true
  card : s.card = busyCard

lemma e1000PollRx_deadlock (h : Handling s ifp) (hmbufs : s.mbufs ≠ 0) :
    e1000PollRx (receive (n + 1)) s = .error .deadlock := by
  unfold e1000PollRx
  rw [h.en0, h.card]
  dsimp only [busyCard]
  rw [passFrames, if_neg (not_or.mpr ⟨nofun, hmbufs⟩), receive, ifInput]
  rw [show Net.inputLock _ = true from h.lock]
  rfl

/-- Sending gives the mbufs of the frame back. -/
lemma etherSend_handling (h : Handling s ifp) (mac m : Packet) (ethertype : BitVec 16) :
    Handling (etherSend s ifp mac [m] ethertype).2 ifp ∧ (etherSend s ifp mac [m] ethertype).2.mbufs ≠ 0 := by
  unfold etherSend
  split_ifs
  · exact ⟨⟨h.en0, h.lock, h.card⟩, Nat.succ_ne_zero _⟩
  · unfold e1000Output
    dsimp only
    split_ifs
    · exact ⟨⟨h.en0, h.lock, h.card⟩, Nat.succ_ne_zero _⟩
    · exact ⟨⟨h.en0, h.lock, h.card⟩, Nat.succ_ne_zero _⟩

lemma arpSendRequest_handling (h : Handling s ifp) (hmbufs : s.mbufs ≠ 0) (dst : InAddr) :
    Handling (arpSendRequest s ifp dst) ifp ∧ (arpSendRequest s ifp dst).mbufs ≠ 0 := by
  unfold arpSendRequest
  rw [if_neg hmbufs]
  exact etherSend_handling (s := s.take) ⟨h.en0, h.lock, h.card⟩ _ _ _

variable {dst src : InAddr}

/-- **An answer whose next hop is unknown** polls the card, and the frame that is there is passed on. -/
lemma ethernetOutput_deadlock (h : Handling s ifp) (hmbufs : s.mbufs ≠ 0) {m : List Packet}
    {ethertype : BitVec 16} (hbcast : ¬ isBroadcast ifp dst) (hdst : ¬ HopKnown s.arp ifp dst) :
    ethernetOutput (receive (n + 1)) s ifp m dst ethertype = .error .deadlock := by
  have hnone : arpLookup s.arp (nextHop ifp (nextHop ifp dst)) = none := by
    rw [nextHop_nextHop]
    exact not_not.mp hdst
  obtain ⟨hreq, hreqMbufs⟩ := arpSendRequest_handling h hmbufs (nextHop ifp (nextHop ifp dst))
  unfold ethernetOutput arpResolve
  dsimp only
  rw [if_neg hbcast, hnone]
  rw [arpWait, e1000PollRx_deadlock hreq hreqMbufs]
  rfl

variable {m : Packet} {spa : InAddr}

lemma ipRoute_deadlock (h : Handling s ifp) (hmbufs : s.mbufs ≠ 0) {hdr : Packet}
    (hroute : isLoopback src dst = false) (hbcast : ¬ isBroadcast ifp dst) (hdst : ¬ HopKnown s.arp ifp dst) :
    ipRoute (receive (n + 1)) s hdr m src dst = .error .deadlock := by
  unfold ipRoute
  rw [hroute, if_neg Bool.false_ne_true, h.en0]
  exact ethernetOutput_deadlock h hmbufs hbcast hdst

lemma ipOutput_deadlock (h : Handling s ifp) (hmbufs : 2 ≤ s.mbufs) {proto : BitVec 8}
    (hroute : isLoopback src dst = false) (hbcast : ¬ isBroadcast ifp dst) (hdst : ¬ HopKnown s.arp ifp dst) :
    ipOutput (receive (n + 1)) s m src dst proto = .error .deadlock := by
  unfold ipOutput
  rw [if_neg (by omega)]
  refine ipRoute_deadlock (s := s.take.nextIpId) ⟨h.en0, h.lock, h.card⟩ ?_ hroute hbcast hdst
  dsimp only [Net.take, Net.nextIpId]
  omega

/-- An echo request from an address. -/
def echoFrame (src : InAddr) : Packet :=
  List.replicate 12 0 ++ putBe16 ethertypeIp ++ [0x45, 0, 0, 28, 0, 0, 0, 0, 64, 1, 0, 0] ++ putLe32 src ++
    putLe32 0 ++ [8, 0, 0, 0, 0, 0, 0, 0]

lemma ipInput_echo (hout : ∀ m, ipOutput (receive (n + 1)) s m 0 src 1 = .error .deadlock) :
    ipInput (receive (n + 1)) s ((echoFrame src).drop 14) = .error .deadlock := by
  have hlen : ((echoFrame src).drop 14).length = 28 := rfl
  have hver : byteAt ((echoFrame src).drop 14) 0 = 0x45 := rfl
  have hproto : byteAt ((echoFrame src).drop 14) 9 = 1 := rfl
  have hsrc : getLe32 ((echoFrame src).drop 14) 12 = src := join32_bytes src
  have hdst : getLe32 ((echoFrame src).drop 14) 16 = 0 := join32_bytes 0
  have hbody : ((echoFrame src).drop 14).drop 20 = [8, 0, 0, 0, 0, 0, 0, 0] := rfl
  have hicmp : icmpInput (receive (n + 1)) s [8, 0, 0, 0, 0, 0, 0, 0] src 0 = .error .deadlock := by
    unfold icmpInput
    rw [if_neg (by decide), if_pos (show byteAt [8, 0, 0, 0, 0, 0, 0, 0] 0 = 8 from rfl)]
    dsimp only
    rw [hout]
    rfl
  unfold ipInput
  rw [hlen, hver, hproto, hsrc, hdst, if_neg (by decide), if_neg (by decide)]
  rw [if_neg (by decide), if_pos rfl]
  exact hicmp

/-- An echo request is answered to its source. -/
lemma echoFrame_deadlock (hcard : s.en0 = some ifp) (hlock : s.inputLock = false) (hmbufs : 2 ≤ s.mbufs)
    (hsrc : src ≠ loopbackAddr) (hbcast : ¬ isBroadcast ifp src) (hunknown : ¬ HopKnown s.arp ifp src) :
    receive 2 (.ifInput (echoFrame src)) (s.withCard busyCard) = .error .deadlock := by
  have h : Handling ((s.withCard busyCard).setLock true) ifp := ⟨hcard, rfl, rfl⟩
  have hroute : isLoopback 0 src = false := by
    refine decide_eq_false (not_or.mpr ⟨hsrc, ?_⟩)
    decide
  have hlen : (echoFrame src).length = 42 := rfl
  have htype : getBe16 (echoFrame src) 12 = ethertypeIp := join16_bytes ethertypeIp
  rw [receive, ifInput, show (s.withCard busyCard).inputLock = false from hlock,
    show (s.withCard busyCard).en0 = some ifp from hcard, if_neg Bool.false_ne_true]
  dsimp only
  rw [ethernetInput, hlen, htype, if_neg (by decide), if_neg (by decide), if_pos rfl,
    ipInput_echo fun _ => ipOutput_deadlock h hmbufs hroute hbcast hunknown]
  rfl

/-- An ARP request. -/
def requestFrame (sha : Packet) (spa tpa : InAddr) : Packet :=
  List.replicate 12 0 ++ putBe16 ethertypeArp ++ putBe16 1 ++ putBe16 ethertypeIp ++ [6, 4] ++ putBe16 1 ++ sha ++
    putLe32 spa ++ List.replicate 6 0 ++ putLe32 tpa

lemma arpInput_request {a b c d e f : BitVec 8} (hgood : ¬ badSender ifp [a, b, c, d, e, f] spa)
    (hreply : arpSendReply (receive (n + 1)) { s.free 1 with arp := arpCacheInsert s.arp spa [a, b, c, d, e, f] } ifp
      [a, b, c, d, e, f] spa = .error .deadlock) :
    arpInput (receive (n + 1)) s ifp ((requestFrame [a, b, c, d, e, f] spa ifp.ip).drop 14) = .error .deadlock := by
  generalize hm : (requestFrame [a, b, c, d, e, f] spa ifp.ip).drop 14 = m
  have hlen : m.length = 28 := hm ▸ rfl
  have hhrd : getBe16 m 0 = 1 := hm ▸ join16_bytes 1
  have hpro : getBe16 m 2 = ethertypeIp := hm ▸ join16_bytes ethertypeIp
  have hop : getBe16 m 6 = 1 := hm ▸ join16_bytes 1
  have hsha : (m.drop 8).take 6 = [a, b, c, d, e, f] := hm ▸ rfl
  have hspa : getLe32 m 14 = spa := hm ▸ join32_bytes spa
  have htpa : getLe32 m 24 = ifp.ip := hm ▸ join32_bytes ifp.ip
  unfold arpInput
  rw [hlen, hhrd, hpro, hsha, hspa, hop, htpa, if_neg (by decide), if_neg (by decide), if_neg hgood,
    if_pos ⟨rfl, rfl⟩]
  exact hreply

/-- An ARP request is answered to its sender. The sender is in the cache then, but a sender outside of the network is
reached through the gateway. -/
lemma requestFrame_deadlock (hcard : s.en0 = some ifp) (hlock : s.inputLock = false) (hmbufs : s.mbufs ≠ 0)
    {sha : Packet} (hlen : sha.length = 6) (hgood : ¬ badSender ifp sha spa)
    (hbcast : ¬ isBroadcast ifp spa) (hunknown : ¬ HopKnown (arpCacheInsert s.arp spa sha) ifp spa) :
    receive 2 (.ifInput (requestFrame sha spa ifp.ip)) (s.withCard busyCard) = .error .deadlock := by
  obtain ⟨a, b, c, d, e, f, rfl⟩ : ∃ a b c d e f, sha = [a, b, c, d, e, f] := by
    match sha, hlen with
    | [a, b, c, d, e, f], _ => exact ⟨a, b, c, d, e, f, rfl⟩
  have hframe : (requestFrame [a, b, c, d, e, f] spa ifp.ip).length = 42 := rfl
  have htype : getBe16 (requestFrame [a, b, c, d, e, f] spa ifp.ip) 12 = ethertypeArp := join16_bytes ethertypeArp
  have hreply : ∀ s' : Net, Handling s' ifp → s'.mbufs = s.mbufs + 1 →
      s'.arp = arpCacheInsert s.arp spa [a, b, c, d, e, f] →
      arpSendReply (receive 1) s' ifp [a, b, c, d, e, f] spa = .error .deadlock := by
    intro s' h hm harp
    have htake : s'.take.mbufs ≠ 0 := by
      dsimp only [Net.take]
      omega
    have hunknown' : ¬ HopKnown s'.take.arp ifp spa := by
      rw [show s'.take.arp = s'.arp from rfl, harp]
      exact hunknown
    unfold arpSendReply
    rw [if_neg (by omega), ethernetOutput_deadlock (s := s'.take) ⟨h.en0, h.lock, h.card⟩ htake hbcast hunknown']
    rfl
  rw [receive, ifInput, show (s.withCard busyCard).inputLock = false from hlock,
    show (s.withCard busyCard).en0 = some ifp from hcard, if_neg Bool.false_ne_true]
  dsimp only
  rw [ethernetInput, hframe, htype, if_neg (by decide), if_pos rfl,
    arpInput_request (s := (s.withCard busyCard).setLock true) hgood (hreply _ ⟨hcard, rfl, rfl⟩ rfl rfl)]
  rfl

end unresolved

/-! ## The two together -/

/-- A card with the address 10.0.2.15 that reaches everybody through the gateway 10.0.2.2. -/
def gatewayIf : Ifnet := ⟨[0x52, 0x54, 0, 0x12, 0x34, 0x56], 0x0F02000A, 0xFFFFFFFF, 0, 0x0202000A⟩

/-- A host with that card and free mbufs. -/
def hostNet (arp : ℕ → Option ArpEntry) : Net where
  mbufs := 512
  lo0 := ⟨List.replicate 6 0, loopbackAddr, 0x000000FF, 0, 0⟩
  en0 := some gatewayIf
  arp := arp
  udp := fun _ => ⟨none, 0, false⟩
  tcp := fun _ => ⟨none, .closed, 0, 0, 0, 0, 0, 0, 0, 0, false⟩
  socks := fun _ => Socket.zero
  issCounter := 0
  ephemeralPort := 49152
  ipId := 0
  inputLock := false
  polls := 0
  card := fun _ => []
  wire := []

/-- The gateway and the host itself are in the cache. -/
def gatewayCache : ℕ → Option ArpEntry
  | 0 => some ⟨gatewayIf.gateway, [0x52, 0x55, 10, 0, 2, 2]⟩
  | 1 => some ⟨gatewayIf.ip, gatewayIf.mac⟩
  | _ => none

end Chimera
