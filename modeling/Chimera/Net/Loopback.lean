import Chimera.Net.Stream

/-!
# A connection of the host with itself

`tcp_send_packet` to 127.0.0.1 calls `ip_input` before it returns, and `tcp_input` of the other end may send an answer
that comes back while the first call is still active. So a segment has been handled when the call returns
(`tcpSendPacket_loopSend`), and three calls of the input functions inside each other are enough.

`loopback_end_to_end`: after a successful `tcp_connect` to 127.0.0.1, whatever the two ends send and receive, what was
sent and not yet received is in the buffer of the other end and the sequence numbers agree, exactly if the buffer was
empty before. `tcp_connect` does not ask whether the socket is connected already, and a second connection begins
with the unread bytes of the first (`reconnect_keeps_old_bytes`).

`LinkedEnds` says what two ends have to agree on. The handshake either makes such a pair or leaves the socket connecting
(`Connecting.syn`), data keep it (`LinkedEnds.send`), and an `ACK` without data changes nothing of it (`Quiet.linked`).
-/

namespace Chimera

open Lib
open Function (update update_self update_of_ne update_apply update_eq_self update_idem)

lemma setTcp_tcp_self (s : Net) (i : ℕ) (pcb : TcpPcb) : (s.setTcp i pcb).tcp i = pcb := update_self ..

variable {i k a b : ℕ} {s s₁ s₂ s' : Net} {tcp : ℕ → TcpPcb}

lemma setTcp_tcp_of_ne (s : Net) (pcb : TcpPcb) (h : k ≠ i) : (s.setTcp i pcb).tcp k = s.tcp k := update_of_ne h _ _

/-! ## A segment to the host itself -/

/-- Only control blocks may differ, and what no socket depends on. -/
structure SameHost (s s' : Net) : Prop where
  socks : s'.socks = s.socks
  en0 : s'.en0 = s.en0
  lo0 : s'.lo0 = s.lo0
  card : s'.card = s.card

/-- How `tcp_send_packet` to the host itself ends. -/
inductive LoopSend (re : Entry → Net → Except NetStop Net) (s : Net) (i : ℕ) (flags : BitVec 8) (data : Packet) :
    Except NetStop (NetRc × Net) → Prop
  /-- There are not enough mbufs. -/
  | fail {s₁ : Net} {rc : NetRc} (hrc : rc ≠ .success) (hhost : SameHost s s₁)
      (htcp : s₁.tcp = s.tcp ∨ s₁.tcp = update s.tcp i ((s.tcp i).sent flags data)) :
      LoopSend re s i flags data (.ok (rc, s₁))
  /-- The segment is handled. -/
  | pass {s₁ : Net} (hhost : SameHost s s₁)
      (htcp : s₁.tcp = update s.tcp i ((s.tcp i).sent flags data)) :
      LoopSend re s i flags data
        ((tcpDispatch re s₁ (s.tcp i).localIp (s.tcp i).remoteIp ((s.tcp i).segment flags data)).map
          fun s => (.success, s))

section send

variable {re : Entry → Net → Except NetStop Net} {n : ℕ} {flags : BitVec 8} {data : Packet}

/-- The header that `ip_output` puts in front is read back by `ip_input`. -/
lemma ipInput_ipHeader (id : BitVec 16) (src dst : InAddr) (len : ℕ) (m : Packet) :
    ipInput re s (ipHeader id ipprotoTcp src dst len ++ m) = tcpInput re s m src dst := by
  generalize hp : ipHeader id ipprotoTcp src dst len ++ m = p
  have hlen : p.length = 20 + m.length := by
    rw [← hp, List.length_append]
    rfl
  have hver : byteAt p 0 = 0x45 := hp ▸ rfl
  have hproto : byteAt p 9 = ipprotoTcp := hp ▸ rfl
  have hsrc : getLe32 p 12 = src := hp ▸ join32_bytes src
  have hdst : getLe32 p 16 = dst := hp ▸ join32_bytes dst
  have hdrop : p.drop 20 = m := by
    rw [← hp]
    exact (List.drop_left : (ipHeader id ipprotoTcp src dst len ++ m).drop (ipHeader id ipprotoTcp src dst len).length = m)
  unfold ipInput
  rw [hver, hproto, hsrc, hdst, if_neg (by omega), if_neg (by decide)]
  dsimp only
  rw [if_neg (by change ¬ (20 < 20 ∨ p.length < 20); omega), if_neg (by decide), if_neg (by decide), if_pos rfl]
  change tcpInput re s (p.drop 20) src dst = _
  rw [hdrop]

lemma length_bytes (pcb : TcpPcb) (hlen : data.length ≤ tcpMss) : (pcb.bytes flags data).length ≤ 1484 := by
  have hopts := length_tcpOptions flags
  have hbytes : (pcb.bytes flags data).length = 20 + (tcpOptions flags).length + data.length :=
    length_tcpHeader (pcb.segment flags data) _ _
  dsimp only [tcpMss] at hlen
  omega

lemma parseTcp_bytes (pcb : TcpPcb) (hlen : data.length ≤ tcpMss) :
    parseTcp pcb.localIp pcb.remoteIp (pcb.bytes flags data) = some (pcb.segment flags data) := by
  have hopts := length_tcpOptions flags
  refine parseTcp_tcpBytes _ _ _ ?_
  rw [length_tcpHeader]
  change 20 + (tcpOptions flags).length + data.length ≤ 2048
  dsimp only [tcpMss] at hlen
  omega

lemma TcpPcb.has_segment (pcb : TcpPcb) (flags : BitVec 8) (data : Packet) (flag : BitVec 8) :
    (pcb.segment flags data).has flag = decide (flags &&& flag ≠ 0) := rfl

lemma fillLocalIp_self (hip : (s.tcp i).localIp ≠ 0) : fillLocalIp s i = s := by
  rw [fillLocalIp, if_neg hip]
  exact setTcp_self s i

lemma loopbackOutput_cases (re : Entry → Net → Except NetStop Net) (s : Net) {hdr m : Packet} (hlen : hdr.length + m.length ≤ mclBytes) :
    (∃ rc, rc ≠ .success ∧ loopbackOutput re s hdr m = .ok (rc, s.free 2)) ∨
      loopbackOutput re s hdr m = (re (.ipInput (hdr ++ m)) (s.take.free 2)).map fun s => (.success, s) := by
  unfold loopbackOutput
  rw [if_neg (by omega)]
  split_ifs
  · exact .inl ⟨.nomem, nofun, rfl⟩
  · exact .inr rfl

/-- **A segment to the host itself** is handled at once, if there are mbufs for it. -/
lemma tcpSendPacket_loopSend (hip : (s.tcp i).localIp ≠ 0)
    (hloop : isLoopback (s.tcp i).localIp (s.tcp i).remoteIp = true) (hlen : data.length ≤ tcpMss) :
    LoopSend (receive n) s i flags data (tcpSendPacket (receive (n + 1)) s i flags data) := by
  have hopts := length_tcpOptions flags
  have hbytes : ((s.tcp i).bytes flags data).length ≤ 1484 := length_bytes _ hlen
  unfold tcpSendPacket
  rw [fillLocalIp_self hip]
  dsimp only
  by_cases hmbufs : s.mbufs = 0
  · rw [if_pos hmbufs]
    exact .fail nofun ⟨rfl, rfl, rfl, rfl⟩ (.inl rfl)
  rw [if_neg hmbufs, if_neg (by dsimp only [tcpMss, mclBytes] at hlen ⊢; omega), tcpTransmit, ipOutput]
  by_cases hmbufs' : (s.take.setTcp i ((s.tcp i).sent flags data)).mbufs = 0
  · rw [if_pos hmbufs']
    exact .fail nofun ⟨rfl, rfl, rfl, rfl⟩ (.inr rfl)
  rw [if_neg hmbufs', ipRoute, if_pos hloop, if_neg hip]
  generalize hhdr : ipHeader (s.take.setTcp i ((s.tcp i).sent flags data)).ipId ipprotoTcp (s.tcp i).localIp
    (s.tcp i).remoteIp ((s.tcp i).bytes flags data).length = hdr
  have hhdrLen : hdr.length = 20 := hhdr ▸ rfl
  have hfits : hdr.length + ((s.tcp i).bytes flags data).length ≤ mclBytes := by
    dsimp only [mclBytes]
    omega
  rcases loopbackOutput_cases (receive (n + 1)) (s.take.setTcp i ((s.tcp i).sent flags data)).take.nextIpId hfits
    with ⟨rc, hrc, hout⟩ | hout
  · rw [hout]
    exact .fail hrc ⟨rfl, rfl, rfl, rfl⟩ (.inr rfl)
  · rw [hout, receive, ← hhdr, ipInput_ipHeader, tcpInput, parseTcp_bytes _ hlen]
    exact .pass ⟨rfl, rfl, rfl, rfl⟩ rfl

end send

/-! ## Segments without data -/

/-- What a connection depends on in a socket. -/
def Socket.core (so : Socket) : Bool × Option ℕ × List Packet := (so.inUse, so.pcb, so.rcv)

/-- The socket `a` is the same for its connection, and so are the interfaces. -/
structure SameSock (s s' : Net) (a : ℕ) : Prop where
  core : (s'.socks a).core = (s.socks a).core
  en0 : s'.en0 = s.en0
  lo0 : s'.lo0 = s.lo0
  card : s'.card = s.card

lemma SameSock.trans (h1 : SameSock s s₁ a) (h2 : SameSock s₁ s₂ a) : SameSock s s₂ a :=
  ⟨h2.core.trans h1.core, h2.en0.trans h1.en0, h2.lo0.trans h1.lo0, h2.card.trans h1.card⟩

lemma SameSock.setSock {so : Socket} (h : so.core = (s.socks b).core) : SameSock s (s.setSock b so) k := by
  refine ⟨?_, rfl, rfl, rfl⟩
  dsimp only [Net.setSock]
  rw [update_apply]
  split_ifs with hk
  · rw [hk, h]
  · rfl

lemma SameHost.sameSock (h : SameHost s s') (a : ℕ) : SameSock s s' a :=
  ⟨congrArg (fun f => (f a).core) h.socks, h.en0, h.lo0, h.card⟩

/-- Handshakes may end and connections become ready to be accepted, but nothing else happens to them. -/
structure Quiet (s s' : Net) : Prop where
  tcp : ∀ k, s'.tcp k = s.tcp k ∨
    (s.tcp k).state = .synReceived ∧ s'.tcp k = { s.tcp k with state := .established }
  sock : ∀ k, SameSock s s' k

lemma Quiet.of_eq (hhost : SameHost s s') (htcp : s'.tcp = s.tcp) : Quiet s s' :=
  ⟨fun k => .inl (congrFun htcp k), hhost.sameSock⟩

lemma Quiet.free (s : Net) (n : ℕ) : Quiet s (s.free n) := .of_eq ⟨rfl, rfl, rfl, rfl⟩ rfl

lemma Quiet.trans (h1 : Quiet s s₁) (h2 : Quiet s₁ s₂) : Quiet s s₂ := by
  refine ⟨fun k => ?_, fun k => (h1.sock k).trans (h2.sock k)⟩
  rcases h1.tcp k with h | ⟨hstate, h⟩
  · rw [← h]
    exact h2.tcp k
  · right
    refine ⟨hstate, ?_⟩
    rcases h2.tcp k with h' | ⟨hstate', -⟩
    · rw [h', h]
    · rw [h] at hstate'
      exact absurd hstate' nofun

/-- The first control block of exactly this connection. -/
def exactMatch (tcp : ℕ → TcpPcb) (src : InAddr) (sport dport : BitVec 16) : Option ℕ :=
  (List.range tcpMaxSockets).find? fun k => (tcp k).isExact src sport dport

lemma exactMatch_some {src : InAddr} {sport dport : BitVec 16}
    (h : exactMatch tcp src sport dport = some k) : (tcp k).isExact src sport dport := by
  have := List.find?_some h
  exact this

section quiet

variable {re : Entry → Net → Except NetStop Net} {n so : ℕ} {seg : TcpSegment} {pcb : TcpPcb} {src : InAddr}

lemma tcpOutcome_quiet (hstate : pcb.state ≠ .synSent) (hpayload : seg.payload = [])
    (hfin : seg.has thFin = false) :
    (tcpOutcome pcb seg).deliver = false ∧ (tcpOutcome pcb seg).eof = false ∧ (tcpOutcome pcb seg).ack = false ∧
      ((tcpOutcome pcb seg).pcb = pcb ∨
        pcb.state = .synReceived ∧ (tcpOutcome pcb seg).pcb = { pcb with state := .established }) := by
  unfold tcpOutcome
  dsimp only
  by_cases hrcvd : pcb.state = .synReceived ∧ seg.has thAck
  · rw [if_pos hrcvd]
    by_cases hack : seg.ack = pcb.sndNxt
    · rw [if_pos hack, if_neg (not_not.mpr hpayload)]
      exact ⟨rfl, rfl, rfl, .inr ⟨hrcvd.1, rfl⟩⟩
    · rw [if_neg hack]
      exact ⟨rfl, rfl, rfl, .inl rfl⟩
  · rw [if_neg hrcvd, if_neg (fun h => hstate h.1)]
    by_cases hest : pcb.state = .established
    · rw [if_pos hest, if_neg (fun h => h.1 hpayload), if_neg (not_not.mpr hpayload),
        if_neg (by rw [hfin]; exact Bool.false_ne_true)]
      exact ⟨rfl, rfl, rfl, .inl rfl⟩
    · rw [if_neg hest]
      exact ⟨rfl, rfl, rfl, .inl rfl⟩

/-- The accept queues are all that `so_q0_to_q` changes. -/
lemma soQ0ToQ_quiet (s : Net) (child : ℕ) : Quiet s (soQ0ToQ s child) := by
  unfold soQ0ToQ
  cases (s.socks child).head with
  | none => exact .of_eq ⟨rfl, rfl, rfl, rfl⟩ rfl
  | some head =>
    dsimp only
    split_ifs
    · exact ⟨fun _ => .inl rfl, fun _ => .setSock rfl⟩
    · exact .of_eq ⟨rfl, rfl, rfl, rfl⟩ rfl

lemma setTcp_quiet
    (h : pcb = s.tcp i ∨ (s.tcp i).state = .synReceived ∧ pcb = { s.tcp i with state := .established }) :
    Quiet s (s.setTcp i pcb) := by
  refine ⟨fun k => ?_, fun _ => ⟨rfl, rfl, rfl, rfl⟩⟩
  dsimp only [Net.setTcp]
  by_cases hk : k = i
  · subst hk
    rw [update_self]
    exact h
  · rw [update_of_ne hk]
    exact .inl rfl

/-- **A segment without data** for a connection that waits for no `SYN`. -/
lemma tcpConnInput_quiet (re : Entry → Net → Except NetStop Net) (so : ℕ) (hstate : (s.tcp i).state ≠ .synSent) (hpayload : seg.payload = [])
    (hfin : seg.has thFin = false) : ∃ s', tcpConnInput re s i so seg = .ok s' ∧ Quiet s s' := by
  obtain ⟨hdeliver, heof, hack, hpcb⟩ := tcpOutcome_quiet hstate hpayload hfin
  have hset : Quiet s (s.setTcp i (tcpOutcome (s.tcp i) seg).pcb) := setTcp_quiet hpcb
  have happly : Quiet s (applyOutcome s i so (tcpOutcome (s.tcp i) seg) seg.payload) := by
    unfold applyOutcome
    simp only [hdeliver, heof, Bool.false_eq_true, if_false]
    split_ifs
    · exact hset.trans (soQ0ToQ_quiet _ _)
    · exact hset
  unfold tcpConnInput
  dsimp only
  rw [hack, hdeliver]
  exact ⟨_, rfl, happly.trans (.free _ 1)⟩

lemma tcpDemux_eq_exact (hack : seg.has thAck = true) :
    tcpDemux s src seg = exactMatch s.tcp src seg.sport seg.dport := by
  unfold tcpDemux
  rw [exactMatch]
  cases (List.range tcpMaxSockets).find? fun k => (s.tcp k).isExact src seg.sport seg.dport with
  | some k => rfl
  | none =>
    dsimp only
    rw [if_neg fun h => h.2 hack]

lemma TcpPcb.isExact_iff {sport dport : BitVec 16} :
    pcb.isExact src sport dport ↔ pcb.so.isSome ∧ pcb.bound ∧ pcb.localPort = dport ∧ pcb.state ≠ .listen ∧
      pcb.remoteIp = src ∧ pcb.remotePort = sport := by
  rw [TcpPcb.isExact, decide_eq_true_eq]

/-- A segment that has reached its control block. -/
lemma tcpDispatch_exact (re : Entry → Net → Except NetStop Net) (dst : InAddr) (h : exactMatch s.tcp src seg.sport seg.dport = some i) :
    ∃ so, (s.tcp i).so = some so ∧ tcpDispatch re s src dst seg = tcpConnInput re s i so seg := by
  have hexact := TcpPcb.isExact_iff.mp (exactMatch_some h)
  obtain ⟨so, hso⟩ := Option.isSome_iff_exists.mp hexact.1
  refine ⟨so, hso, ?_⟩
  have hdemux : tcpDemux s src seg = some i := by
    rw [exactMatch] at h
    rw [tcpDemux, h]
  unfold tcpDispatch
  simp only [hdemux, hso, if_neg hexact.2.2.2.1]

lemma tcpDispatch_none (re : Entry → Net → Except NetStop Net) (dst : InAddr)
    (h : tcpDemux s src seg = none) : tcpDispatch re s src dst seg = .ok (s.free 1) := by
  rw [tcpDispatch, h]

lemma tcpDispatch_quiet {dst : InAddr} (hsent : ∀ k, (s.tcp k).state ≠ .synSent) (hack : seg.has thAck = true)
    (hpayload : seg.payload = []) (hfin : seg.has thFin = false) :
    ∃ s', tcpDispatch re s src dst seg = .ok s' ∧ Quiet s s' := by
  cases hmatch : exactMatch s.tcp src seg.sport seg.dport with
  | none => exact ⟨_, tcpDispatch_none re dst ((tcpDemux_eq_exact hack).trans hmatch), .free s 1⟩
  | some k =>
    obtain ⟨so, -, hdispatch⟩ := tcpDispatch_exact re dst hmatch
    rw [hdispatch]
    exact tcpConnInput_quiet re so (hsent k) hpayload hfin

/-- **An `ACK` to the host itself.** -/
lemma tcpReply_quiet (hip : (s.tcp i).localIp ≠ 0)
    (hloop : isLoopback (s.tcp i).localIp (s.tcp i).remoteIp = true) (hsent : ∀ k, (s.tcp k).state ≠ .synSent) :
    ∃ s', tcpReply (receive (n + 1)) s i true = .ok s' ∧ Quiet s s' := by
  have hself : update s.tcp i ((s.tcp i).sent thAck []) = s.tcp := by
    have hpcb : (s.tcp i).sent thAck [] = s.tcp i := by
      rw [TcpPcb.sent, show (s.tcp i).sndNxt + sndAdvance thAck [] = (s.tcp i).sndNxt from BitVec.add_zero _]
    rw [hpcb, update_eq_self]
  have hsend : LoopSend (receive n) s i thAck [] _ := tcpSendPacket_loopSend hip hloop (Nat.zero_le _)
  unfold tcpReply
  rw [if_pos rfl]
  generalize tcpSendPacket (receive (n + 1)) s i thAck [] = x at hsend ⊢
  cases hsend with
  | fail _ hhost htcp => exact ⟨_, rfl, .of_eq hhost (htcp.elim id fun h => h.trans hself)⟩
  | pass hhost htcp =>
    rename_i s₁
    have htcp1 : s₁.tcp = s.tcp := htcp.trans hself
    have hsent1 : ∀ k, (s₁.tcp k).state ≠ .synSent := by
      rw [htcp1]
      exact hsent
    obtain ⟨s₂, hdispatch, hquiet⟩ : ∃ s₂, tcpDispatch (receive n) s₁ (s.tcp i).localIp (s.tcp i).remoteIp
        ((s.tcp i).segment thAck []) = .ok s₂ ∧ Quiet s₁ s₂ := tcpDispatch_quiet hsent1 (TcpPcb.has_segment ..) rfl (TcpPcb.has_segment ..)
    rw [hdispatch]
    exact ⟨s₂, rfl, (Quiet.of_eq hhost htcp1).trans hquiet⟩

end quiet

/-! ## The two ends -/

/-- What the demultiplexing looks at. -/
def TcpPcb.addr (pcb : TcpPcb) : Option ℕ × Bool × InAddr × BitVec 16 × InAddr × BitVec 16 × Bool :=
  (pcb.so, pcb.bound, pcb.localIp, pcb.localPort, pcb.remoteIp, pcb.remotePort, pcb.state = .listen)

lemma TcpPcb.isExact_congr {p q : TcpPcb} (h : q.addr = p.addr) (src : InAddr) (sport dport : BitVec 16) :
    q.isExact src sport dport = p.isExact src sport dport := by
  simp only [TcpPcb.addr, Prod.mk.injEq, decide_eq_decide] at h
  obtain ⟨hso, hbound, -, hport, hrip, hrport, hlisten⟩ := h
  unfold TcpPcb.isExact
  rw [hso, hbound, hport, hrip, hrport]
  simp only [ne_eq, hlisten]

lemma exactMatch_congr {tcp' : ℕ → TcpPcb} (h : ∀ k, (tcp' k).addr = (tcp k).addr) (src : InAddr)
    (sport dport : BitVec 16) : exactMatch tcp' src sport dport = exactMatch tcp src sport dport := by
  unfold exactMatch
  congr 1
  funext k
  exact TcpPcb.isExact_congr (h k) src sport dport

/-- **One end of a connection.** The segments of control block `i` with socket `a` reach control block `j`, which
expects the next one. -/
structure Half (s : Net) (i a j : ℕ) : Prop where
  so : (s.tcp i).so = some a
  sock : (s.socks a).pcb = some i
  ip : (s.tcp i).localIp ≠ 0
  loop : isLoopback (s.tcp i).localIp (s.tcp i).remoteIp = true
  reach : exactMatch s.tcp (s.tcp i).localIp (s.tcp i).localPort (s.tcp i).remotePort = some j
  state : (s.tcp i).state = .established ∨ (s.tcp i).state = .synReceived ∧ i ≠ j
  nxt : (s.tcp j).rcvNxt = (s.tcp i).sndNxt

/-- **Two ends.** A socket may also be connected to itself. -/
structure LinkedEnds (s : Net) (i a j b : ℕ) : Prop where
  here : Half s i a j
  there : Half s j b i
  sent : ∀ k, (s.tcp k).state ≠ .synSent

lemma LinkedEnds.symm {j : ℕ} (h : LinkedEnds s i a j b) : LinkedEnds s j b i a := ⟨h.there, h.here, h.sent⟩

section linked

variable {n j : ℕ}

lemma Half.of_addr (h : Half s i a j) (haddr : ∀ k, (s'.tcp k).addr = (s.tcp k).addr)
    (hsock : (s'.socks a).pcb = (s.socks a).pcb)
    (hstate : (s'.tcp i).state = .established ∨ (s'.tcp i).state = .synReceived ∧ i ≠ j)
    (hnxt : (s'.tcp j).rcvNxt = (s'.tcp i).sndNxt) : Half s' i a j := by
  have hi := haddr i
  simp only [TcpPcb.addr, Prod.mk.injEq, decide_eq_decide] at hi
  obtain ⟨hso, -, hip, hport, hrip, hrport, -⟩ := hi
  refine ⟨hso.trans h.so, hsock.trans h.sock, ?_, ?_, ?_, hstate, hnxt⟩
  · rw [hip]
    exact h.ip
  · rw [hip, hrip]
    exact h.loop
  · rw [exactMatch_congr haddr, hip, hport, hrport]
    exact h.reach

lemma Quiet.addr (h : Quiet s s') (k : ℕ) : (s'.tcp k).addr = (s.tcp k).addr := by
  rcases h.tcp k with heq | ⟨hstate, heq⟩
  · rw [heq]
  · rw [heq]
    simp only [TcpPcb.addr, hstate]
    rfl

lemma Quiet.nxt (h : Quiet s s') (k : ℕ) :
    (s'.tcp k).rcvNxt = (s.tcp k).rcvNxt ∧ (s'.tcp k).sndNxt = (s.tcp k).sndNxt := by
  rcases h.tcp k with heq | ⟨-, heq⟩ <;> rw [heq] <;> exact ⟨rfl, rfl⟩

lemma Quiet.pcb (h : Quiet s s') (k : ℕ) : (s'.socks k).pcb = (s.socks k).pcb :=
  congrArg (fun c => c.2.1) (h.sock k).core

lemma Quiet.rcv (h : Quiet s s') (k : ℕ) : (s'.socks k).rcv = (s.socks k).rcv :=
  congrArg (fun c => c.2.2) (h.sock k).core

lemma Quiet.half (hq : Quiet s s') (h : Half s i a j) : Half s' i a j := by
  refine h.of_addr hq.addr (hq.pcb a) ?_ ?_
  · rcases hq.tcp i with heq | ⟨-, heq⟩
    · rw [heq]
      exact h.state
    · rw [heq]
      exact .inl rfl
  · rw [(hq.nxt j).1, (hq.nxt i).2]
    exact h.nxt

lemma Quiet.linked (hq : Quiet s s') (h : LinkedEnds s i a j b) : LinkedEnds s' i a j b := by
  refine ⟨hq.half h.here, hq.half h.there, fun k => ?_⟩
  rcases hq.tcp k with heq | ⟨-, heq⟩
  · rw [heq]
    exact h.sent k
  · rw [heq]
    exact nofun

/-! ### Data -/

/-- The next data for a control block are taken. -/
lemma tcpOutcome_data {pcb : TcpPcb} {seg : TcpSegment} (hpayload : seg.payload ≠ [])
    (hstate : pcb.state = .established ∧ seg.seq = pcb.rcvNxt ∨
      pcb.state = .synReceived ∧ seg.has thAck ∧ seg.ack = pcb.sndNxt) :
    (tcpOutcome pcb seg).deliver = true ∧ (tcpOutcome pcb seg).eof = false ∧ (tcpOutcome pcb seg).pcb =
        { pcb with rcvNxt := pcb.rcvNxt + BitVec.ofNat 32 seg.payload.length, state := .established } := by
  unfold tcpOutcome
  dsimp only
  rcases hstate with ⟨hest, hseq⟩ | ⟨hrcvd, hack, hackno⟩
  · rw [if_neg (by rw [hest]; exact nofun), if_neg (by rw [hest]; exact nofun), if_pos hest,
      if_neg (fun h => h.2 hseq), if_pos hpayload]
    refine ⟨rfl, rfl, ?_⟩
    rw [← hest]
  · rw [if_pos ⟨hrcvd, hack⟩, if_pos hackno, if_pos hpayload]
    exact ⟨rfl, rfl, rfl⟩

/-- The end of a connection has `data` more to read and expects the next segment. -/
structure Took (s s' : Net) (j b : ℕ) (data : Packet) : Prop where
  tcp : s'.tcp = update s.tcp j
    { s.tcp j with rcvNxt := (s.tcp j).rcvNxt + BitVec.ofNat 32 data.length, state := .established }
  pcb : ∀ k, (s'.socks k).pcb = (s.socks k).pcb
  rcv : ∀ k, (s'.socks k).rcv = if k = b then (s.socks k).rcv ++ [data] else (s.socks k).rcv
  card : s'.card = s.card

lemma sbappend_pcb (s : Net) (so : ℕ) (m : Packet) (k : ℕ) : ((sbappend s so m).socks k).pcb = (s.socks k).pcb := by
  dsimp only [sbappend, Net.setSock]
  rw [update_apply]
  split_ifs with hk
  · rw [hk]
  · rfl

lemma sbappend_rcv (s : Net) (so : ℕ) (m : Packet) (k : ℕ) :
    ((sbappend s so m).socks k).rcv = if k = so then (s.socks k).rcv ++ [m] else (s.socks k).rcv := by
  dsimp only [sbappend, Net.setSock]
  rw [update_apply]
  split_ifs with hk
  · rw [hk]
  · rfl

variable {data : Packet}

lemma applyOutcome_took {o : TcpOutcome} (hdeliver : o.deliver = true) (heof : o.eof = false) (hpcb : o.pcb =
      { s.tcp j with rcvNxt := (s.tcp j).rcvNxt + BitVec.ofNat 32 data.length, state := .established }) :
    Took s (applyOutcome s j b o data) j b data := by
  have hq : ∃ s₁ : Net, (if o.accept then soQ0ToQ (s.setTcp j o.pcb) b else s.setTcp j o.pcb) = s₁ ∧
      s₁.tcp = (s.setTcp j o.pcb).tcp ∧ ∀ k, SameSock (s.setTcp j o.pcb) s₁ k := by
    split_ifs
    · exact ⟨_, rfl, soQ0ToQ_tcp _ _, (soQ0ToQ_quiet (s.setTcp j o.pcb) b).sock⟩
    · exact ⟨_, rfl, rfl, fun _ => ⟨rfl, rfl, rfl, rfl⟩⟩
  obtain ⟨s₁, hs1, htcp, hsock⟩ := hq
  unfold applyOutcome
  simp only [hdeliver, heof, hs1, Bool.false_eq_true, if_false, if_true]
  refine ⟨htcp.trans (congrArg (update s.tcp j) hpcb), fun k => ?_, fun k => ?_, (hsock j).card⟩
  · have hk : (s₁.socks k).pcb = (s.socks k).pcb := congrArg (fun c => c.2.1) (hsock k).core
    rw [sbappend_pcb, hk]
  · have hk : (s₁.socks k).rcv = (s.socks k).rcv := congrArg (fun c => c.2.2) (hsock k).core
    rw [sbappend_rcv, hk]

/-- One end has sent `data`, and the other has taken it. -/
lemma LinkedEnds.took {s₁ s₂ : Net} {flags : BitVec 8} (h : LinkedEnds s i a j b) (hhost : SameHost s s₁)
    (hflags : flags &&& (thSyn ||| thFin) = 0)
    (htcp : s₁.tcp = update s.tcp i ((s.tcp i).sent flags data)) (htook : Took s₁ s₂ j b data) :
    LinkedEnds s₂ i a j b := by
  have hadvance : sndAdvance flags data = BitVec.ofNat 32 data.length := if_neg (not_not.mpr hflags)
  have hjstate : (s.tcp j).state ≠ .listen := by rcases h.there.state with hst | ⟨hst, -⟩ <;> rw [hst] <;> exact nofun
  have hpcb : ∀ k, s₂.tcp k =
      { s.tcp k with
        sndNxt := if k = i then (s.tcp k).sndNxt + BitVec.ofNat 32 data.length else (s.tcp k).sndNxt
        rcvNxt := if k = j then (s.tcp k).rcvNxt + BitVec.ofNat 32 data.length else (s.tcp k).rcvNxt
        state := if k = j then .established else (s.tcp k).state } := by
    intro k
    rw [htook.tcp, htcp]
    by_cases hkj : k = j
    · subst hkj
      rw [update_self, if_pos rfl, if_pos rfl]
      by_cases hki : k = i
      · subst hki
        rw [update_self, if_pos rfl, ← hadvance]
        rfl
      · rw [update_of_ne hki, if_neg hki]
    · rw [update_of_ne hkj, if_neg hkj, if_neg hkj]
      by_cases hki : k = i
      · subst hki
        rw [update_self, if_pos rfl, ← hadvance]
        rfl
      · rw [update_of_ne hki, if_neg hki]
  have haddr : ∀ k, (s₂.tcp k).addr = (s.tcp k).addr := by
    intro k
    rw [hpcb]
    simp only [TcpPcb.addr, Prod.mk.injEq, decide_eq_decide, true_and]
    split_ifs with hk
    · subst hk
      exact iff_of_false nofun hjstate
    · exact Iff.rfl
  have hsock : ∀ k, (s₂.socks k).pcb = (s.socks k).pcb := by
    intro k
    rw [htook.pcb k, hhost.socks]
  refine ⟨h.here.of_addr haddr (hsock a) ?_ ?_, h.there.of_addr haddr (hsock b) ?_ ?_, fun k => ?_⟩
  · rw [hpcb]
    dsimp only
    split_ifs
    · exact .inl rfl
    · exact h.here.state
  · rw [hpcb, hpcb]
    dsimp only
    rw [if_pos rfl, if_pos rfl, h.here.nxt]
  · rw [hpcb]
    dsimp only
    rw [if_pos rfl]
    exact .inl rfl
  · rw [hpcb, hpcb]
    dsimp only
    by_cases hij : i = j
    · subst hij
      rw [if_pos rfl, if_pos rfl, h.there.nxt]
    · rw [if_neg hij, if_neg (Ne.symm hij), h.there.nxt]
  · rw [hpcb]
    dsimp only
    split_ifs
    · exact nofun
    · exact h.sent k

/-- **Data for the other end**: if they were sent then they are in its receive buffer. -/
lemma LinkedEnds.send (h : LinkedEnds s i a j b) {flags : BitVec 8} {data : Packet} (hack : flags &&& thAck ≠ 0)
    (hflags : flags &&& (thSyn ||| thFin) = 0) (hdata : data ≠ []) (hlen : data.length ≤ tcpMss) :
    ∃ rc s', tcpSendPacket (receive (n + 2)) s i flags data = .ok (rc, s') ∧
      (rc = .success → LinkedEnds s' i a j b ∧ s'.card = s.card ∧
        ∀ k, (s'.socks k).rcv = if k = b then (s.socks k).rcv ++ [data] else (s.socks k).rcv) := by
  have hsend : LoopSend (receive (n + 1)) s i flags data _ := tcpSendPacket_loopSend h.here.ip h.here.loop hlen
  generalize tcpSendPacket (receive (n + 2)) s i flags data = x at hsend ⊢
  cases hsend with
  | fail hrc _ _ => exact ⟨_, _, rfl, fun h => absurd h hrc⟩
  | pass hhost htcp =>
    rename_i s₁
    have hpcb1 : s₁.tcp j = { s.tcp j with sndNxt := (s₁.tcp j).sndNxt } := by
      rw [htcp]
      by_cases hji : j = i
      · subst hji
        rw [update_self]
        rfl
      · rw [update_of_ne hji]
    have haddr1 : ∀ k, (s₁.tcp k).addr = (s.tcp k).addr := by
      intro k
      rw [htcp]
      by_cases hki : k = i
      · subst hki
        rw [update_self]
        rfl
      · rw [update_of_ne hki]
    have hreach : exactMatch s₁.tcp (s.tcp i).localIp ((s.tcp i).segment flags data).sport
        ((s.tcp i).segment flags data).dport = some j := (exactMatch_congr haddr1 ..).trans h.here.reach
    obtain ⟨so, hso, hdispatch⟩ := tcpDispatch_exact (receive (n + 1)) (s.tcp i).remoteIp hreach
    have hso : so = b := by
      rw [hpcb1] at hso
      exact Option.some.inj (hso.symm.trans h.there.so)
    subst hso
    -- the segment is the one that is expected
    have hexpected : (s₁.tcp j).state = .established ∧ ((s.tcp i).segment flags data).seq = (s₁.tcp j).rcvNxt ∨
        (s₁.tcp j).state = .synReceived ∧ ((s.tcp i).segment flags data).has thAck ∧
          ((s.tcp i).segment flags data).ack = (s₁.tcp j).sndNxt := by
      rcases h.there.state with hst | ⟨hst, hne⟩
      · left
        rw [hpcb1]
        exact ⟨hst, h.here.nxt.symm⟩
      · right
        have hj : s₁.tcp j = s.tcp j := by rw [htcp, update_of_ne hne]
        rw [hj]
        exact ⟨hst, decide_eq_true hack, h.there.nxt⟩
    obtain ⟨hdeliver, heof, hpcb⟩ := tcpOutcome_data hdata hexpected
    have htook := applyOutcome_took (b := so) hdeliver heof hpcb
    have hlinked := h.took hhost hflags htcp htook
    rw [hdispatch, tcpConnInput]
    generalize applyOutcome s₁ j so (tcpOutcome (s₁.tcp j) ((s.tcp i).segment flags data))
      ((s.tcp i).segment flags data).payload = s₂ at htook hlinked ⊢
    rw [hdeliver]
    have hreply : ∃ s3, tcpReply (receive (n + 1)) s₂ j
        (tcpOutcome (s₁.tcp j) ((s.tcp i).segment flags data)).ack = .ok s3 ∧ Quiet s₂ s3 := by
      cases (tcpOutcome (s₁.tcp j) ((s.tcp i).segment flags data)).ack with
      | true => exact tcpReply_quiet hlinked.there.ip hlinked.there.loop hlinked.sent
      | false => exact ⟨s₂, rfl, .of_eq ⟨rfl, rfl, rfl, rfl⟩ rfl⟩
    obtain ⟨s3, hs3, hquiet⟩ := hreply
    rw [hs3]
    refine ⟨.success, s3, rfl, fun _ => ⟨hquiet.linked hlinked, ?_, fun k => ?_⟩⟩
    · rw [(hquiet.sock so).card, htook.card, hhost.card]
    · rw [hquiet.rcv k, htook.rcv k, hhost.socks]
      rfl

end linked

/-! ## The handshake -/

/-- A socket is being connected to the host itself; `rcv` is what is in its buffer. -/
structure Connecting (s : Net) (i a : ℕ) (rcv : List Packet) : Prop where
  state : (s.tcp i).state = .synSent
  so : (s.tcp i).so = some a
  remote : (s.tcp i).remoteIp = loopbackAddr
  others : ∀ k, k ≠ i → (s.tcp k).state ≠ .synSent
  core : (s.socks a).core = (true, some i, rcv)
  default : s.defaultIf.ip ≠ 0
  silent : ∀ k, s.card k = []

/-- It is connected. The other end is a new socket, or the socket itself. -/
structure Connected (s : Net) (i a j b : ℕ) (rcv : List Packet) : Prop where
  linked : LinkedEnds s i a j b
  state : (s.tcp i).state = .established
  core : (s.socks a).core = (true, some i, rcv)
  rcv : b = a ∨ (s.socks b).rcv = []
  silent : ∀ k, s.card k = []

/-- Either of the two. -/
def Attempted (s : Net) (i a : ℕ) (rcv : List Packet) : Prop :=
  Connecting s i a rcv ∨ ∃ j b, Connected s i a j b rcv

section handshake

variable {n : ℕ} {rcv : List Packet}

lemma Connecting.of_tcp (h : Connecting s i a rcv) (htcp : (s'.tcp i).state = (s.tcp i).state ∧
    (s'.tcp i).so = (s.tcp i).so ∧ (s'.tcp i).remoteIp = (s.tcp i).remoteIp)
    (hothers : ∀ k, k ≠ i → (s'.tcp k).state ≠ .synSent) (hsock : SameSock s s' a) : Connecting s' i a rcv := by
  refine ⟨htcp.1.trans h.state, htcp.2.1.trans h.so, htcp.2.2.trans h.remote, hothers, hsock.core.trans h.core, ?_, ?_⟩
  · rw [Net.defaultIf, hsock.en0, hsock.lo0]
    exact h.default
  · rw [hsock.card]
    exact h.silent

lemma Quiet.connecting (hq : Quiet s s') (h : Connecting s i a rcv) : Connecting s' i a rcv := by
  have hi : s'.tcp i = s.tcp i := by
    rcases hq.tcp i with heq | ⟨hstate, -⟩
    · exact heq
    · exact absurd (h.state.symm.trans hstate) nofun
  refine h.of_tcp (by rw [hi]; exact ⟨rfl, rfl, rfl⟩) (fun k hk => ?_) (hq.sock a)
  rcases hq.tcp k with heq | ⟨-, heq⟩
  · rw [heq]
    exact h.others k hk
  · rw [heq]
    exact nofun

variable {j c : ℕ} {x iss : BitVec 32} {pcb : TcpPcb} {seg : TcpSegment}

lemma Quiet.connected (hq : Quiet s s') (h : Connected s i a j b rcv) : Connected s' i a j b rcv := by
  refine ⟨hq.linked h.linked, ?_, (hq.sock a).core.trans h.core, h.rcv.imp_right fun hr => (hq.rcv b).trans hr, ?_⟩
  · rcases hq.tcp i with heq | ⟨-, heq⟩
    · rw [heq]
      exact h.state
    · rw [heq]
  · rw [(hq.sock a).card]
    exact h.silent

lemma Quiet.attempted (hq : Quiet s s') (h : Attempted s i a rcv) : Attempted s' i a rcv :=
  h.imp hq.connecting fun ⟨j, b, h⟩ => ⟨j, b, hq.connected h⟩

/-- `snd_nxt` of the socket may change. -/
lemma Connecting.setSnd (h : Connecting s i a rcv) (hhost : SameHost s s')
    (htcp : s'.tcp = update s.tcp i { s.tcp i with sndNxt := x }) : Connecting s' i a rcv := by
  refine h.of_tcp ?_ (fun k hk => ?_) (hhost.sameSock a)
  · rw [htcp, update_self]
    exact ⟨rfl, rfl, rfl⟩
  · rw [htcp, update_of_ne hk]
    exact h.others k hk

/-- The `SYN` of the other end. -/
lemma tcpOutcome_synSent (hstate : pcb.state = .synSent) (hflags : seg.has (thSyn ||| thAck) = true) :
    tcpOutcome pcb seg = ⟨{ pcb with rcvNxt := seg.seq + 1, state := .established }, false, false, false, true⟩ := by
  unfold tcpOutcome
  dsimp only
  rw [if_neg (by rw [hstate]; exact nofun), if_pos ⟨hstate, hflags⟩]

/-- It is answered, and the connection is there if the two ends fit together. -/
lemma tcpConnInput_synSent (hstate : (s.tcp i).state = .synSent) (hflags : seg.has (thSyn ||| thAck) = true)
    (h : Connected (s.setTcp i { s.tcp i with rcvNxt := seg.seq + 1, state := .established }) i a j b rcv) :
    ∃ s', tcpConnInput (receive (n + 1)) s i a seg = .ok s' ∧ Connected s' i a j b rcv := by
  obtain ⟨s₁, hs1, hq⟩ := tcpReply_quiet h.linked.here.ip h.linked.here.loop h.linked.sent
  unfold tcpConnInput
  rw [tcpOutcome_synSent hstate hflags]
  dsimp only [applyOutcome]
  rw [if_neg Bool.false_ne_true, if_neg Bool.false_ne_true, if_neg Bool.false_ne_true, hs1]
  exact ⟨s₁.free 1, rfl, (hq.trans (.free s₁ 1)).connected h⟩

/-- The new socket and the new control block of a connection request. -/
structure NewChild (s s' : Net) (c b : ℕ) (pcb : TcpPcb) : Prop where
  free : (s.tcp c).so = none
  lt : c < tcpMaxSockets
  tcp : s'.tcp = update s.tcp c pcb
  core : (s'.socks b).core = (true, some c, [])

lemma freeSocket_spec (h : freeSocket s = some b) : (s.socks b).inUse = false := by
  have := List.find?_some h
  simpa using this

lemma sameSock_setSock_of_ne (s : Net) {k : ℕ} (so : Socket) (hk : k ≠ b) : SameSock s (s.setSock b so) k :=
  ⟨congrArg Socket.core (update_of_ne hk _ _), rfl, rfl, rfl⟩

/-- The socket that `so_new_child` makes; no socket in use changes. -/
lemma soNewChild_spec {head : ℕ} {s₁ : Net} (h : soNewChild s head = some (b, s₁)) :
    (s.socks b).inUse = false ∧ (∀ k, k ≠ b → SameSock s s₁ k) ∧ (s₁.socks b).core = (true, none, []) ∧
      s₁.tcp = s.tcp := by
  unfold soNewChild at h
  obtain ⟨b', hfree, hb⟩ := Option.map_eq_some_iff.mp h
  obtain ⟨rfl, rfl⟩ := Prod.mk.inj hb
  have hqueue : ∀ (s₂ : Net) k, SameSock s₂
      (s₂.setSock head { s₂.socks head with q0 := b' :: (s₂.socks head).q0 }) k := fun s₂ k => .setSock rfl
  refine ⟨freeSocket_spec hfree, fun k hk => ?_, ?_, rfl⟩
  · exact (sameSock_setSock_of_ne s _ hk).trans (hqueue _ k)
  · refine (hqueue _ b').core.trans ?_
    dsimp only [Net.setSock]
    rw [update_self]
    rfl

lemma soDiscardChild_spec (s : Net) (b : ℕ) :
    (∀ k, k ≠ b → SameSock s (soDiscardChild s b) k) ∧ (soDiscardChild s b).tcp = s.tcp := by
  unfold soDiscardChild
  cases (s.socks b).head with
  | none => exact ⟨fun k hk => sameSock_setSock_of_ne s _ hk, rfl⟩
  | some head =>
    have hqueue : ∀ k, SameSock s (s.setSock head { s.socks head with q0 := (s.socks head).q0.erase b }) k :=
      fun k => .setSock rfl
    exact ⟨fun k hk => (hqueue k).trans (sameSock_setSock_of_ne _ _ hk), rfl⟩

/-- **A connection request** takes a socket and a control block that are free, or nothing. -/
lemma tcpAllocChild_cases (l ls : ℕ) (localIp remoteIp : InAddr) (port : BitVec 16) (irs : BitVec 32)
    (ha : (s.socks a).inUse = true) {r : Option ℕ × Net}
    (hr : tcpAllocChild s l ls localIp remoteIp port irs = r) :
    SameSock s r.2 a ∧ (r.1 = none ∧ r.2.tcp = s.tcp ∨ ∃ c b iss, r.1 = some c ∧ NewChild s r.2 c b
        ⟨some b, .synReceived, localIp, (s.tcp l).localPort, remoteIp, port, iss, iss, irs + 1, 65535, true⟩) := by
  subst hr
  unfold tcpAllocChild
  cases hchild : soNewChild s ls with
  | none => exact ⟨⟨rfl, rfl, rfl, rfl⟩, .inl ⟨rfl, rfl⟩⟩
  | some r =>
    obtain ⟨b, s₁⟩ := r
    obtain ⟨hfree, hsame, hcore, htcp⟩ := soNewChild_spec hchild
    have hab : a ≠ b := by
      rintro rfl
      exact absurd (ha.symm.trans hfree) nofun
    dsimp only
    cases hslot : (List.range tcpMaxSockets).find? fun i => (s₁.tcp i).so.isNone with
    | none =>
      obtain ⟨hsame', htcp'⟩ := soDiscardChild_spec s₁ b
      exact ⟨(hsame a hab).trans (hsame' a hab), .inl ⟨rfl, htcp'.trans htcp⟩⟩
    | some c =>
      have hnone := List.find?_some hslot
      rw [htcp, Option.isNone_iff_eq_none] at hnone
      refine ⟨?_, .inr ⟨c, b, s₁.issCounter + 64000, rfl, hnone,
        List.mem_range.mp (List.mem_of_find?_eq_some hslot), ?_, ?_⟩⟩
      · refine (hsame a hab).trans (SameSock.trans ?_ (sameSock_setSock_of_ne _ _ hab))
        exact ⟨rfl, rfl, rfl, rfl⟩
      · dsimp only [Net.setSock, Net.setTcp]
        rw [htcp]
      · obtain ⟨huse, hrest⟩ := Prod.mk.inj hcore
        dsimp only [Net.setSock, Net.setTcp]
        rw [update_self]
        simp only [Socket.core, huse, (Prod.mk.inj hrest).2]

lemma exactMatch_update {tcp : ℕ → TcpPcb} {src : InAddr} {sport dport : BitVec 16}
    (hnone : exactMatch tcp src sport dport = none) (hc : c < tcpMaxSockets) (hpcb : pcb.isExact src sport dport) :
    exactMatch (update tcp c pcb) src sport dport = some c := by
  cases h : exactMatch (update tcp c pcb) src sport dport with
  | none =>
    have hnot := List.find?_eq_none.mp h c (List.mem_range.mpr hc)
    rw [update_self] at hnot
    exact absurd hpcb hnot
  | some k =>
    by_cases hk : k = c
    · rw [hk]
    · have hexact := exactMatch_some h
      rw [update_of_ne hk] at hexact
      have hnot := List.find?_eq_none.mp hnone k
        (List.mem_range.mpr (List.mem_range.mp (List.mem_of_find?_eq_some h)))
      exact absurd hexact hnot

/-- The control block that a `SYN` of `i` makes at a listening one with the same port. -/
def childPcb (pcb : TcpPcb) (b : ℕ) (port : BitVec 16) (iss : BitVec 32) : TcpPcb :=
  ⟨some b, .synReceived, loopbackAddr, port, pcb.localIp, pcb.localPort, iss, iss, pcb.sndNxt, 65535, true⟩

section

variable (h : Connecting s i a rcv)
include h

/-- The `SYN` of the other end arrives: the addresses stay, and no socket is connecting any more. -/
lemma Connecting.establish (hs' : s.setTcp i { s.tcp i with rcvNxt := x, state := .established } = s') :
    s'.tcp i = { s.tcp i with rcvNxt := x, state := .established } ∧ s'.socks = s.socks ∧
      (∀ k, (s'.tcp k).addr = (s.tcp k).addr) ∧ ∀ k, (s'.tcp k).state ≠ .synSent := by
  subst hs'
  refine ⟨setTcp_tcp_self .., rfl, fun k => ?_, fun k => ?_⟩
  · by_cases hk : k = i
    · rw [hk, setTcp_tcp_self]
      simp only [TcpPcb.addr, h.state]
      rfl
    · rw [setTcp_tcp_of_ne _ _ hk]
  · by_cases hk : k = i
    · rw [hk, setTcp_tcp_self]
      exact nofun
    · rw [setTcp_tcp_of_ne _ _ hk]
      exact h.others k hk

/-- It is then one end of a connection. -/
lemma Connecting.half (hip : (s.tcp i).localIp ≠ 0)
    (hs' : s.setTcp i { s.tcp i with rcvNxt := x, state := .established } = s')
    (hreach : exactMatch s.tcp (s.tcp i).localIp (s.tcp i).localPort (s.tcp i).remotePort = some j)
    (hnxt : (s'.tcp j).rcvNxt = (s.tcp i).sndNxt) : Half s' i a j := by
  obtain ⟨hi, hsocks, haddr, -⟩ := h.establish hs'
  refine ⟨?_, ?_, ?_, ?_, ?_, ?_, ?_⟩
  · rw [hi]
    exact h.so
  · rw [hsocks]
    exact congrArg (fun c => c.2.1) h.core
  · rw [hi]
    exact hip
  · rw [hi]
    exact decide_eq_true (.inl h.remote)
  · rw [exactMatch_congr haddr, hi]
    exact hreach
  · rw [hi]
    exact .inl rfl
  · rw [hnxt, hi]

/-- The two ends of a new connection, once the `SYN|ACK` has arrived. -/
lemma Connecting.linked (hip : (s.tcp i).localIp ≠ 0) {q : BitVec 16} (hci : c ≠ i)
    (hc : s.tcp c = (childPcb (s.tcp i) b q iss).sent (thSyn ||| thAck) []) (hb : (s.socks b).pcb = some c)
    (hreach : exactMatch s.tcp (s.tcp i).localIp (s.tcp i).localPort (s.tcp i).remotePort = some c)
    (hback : exactMatch s.tcp loopbackAddr q (s.tcp i).localPort = some i) :
    LinkedEnds (s.setTcp i { s.tcp i with rcvNxt := iss + 1, state := .established }) i a c b := by
  generalize hs' : s.setTcp i { s.tcp i with rcvNxt := iss + 1, state := .established } = s'
  obtain ⟨hi, hsocks, haddr, hsent⟩ := h.establish hs'
  have hc' : s'.tcp c = (childPcb (s.tcp i) b q iss).sent (thSyn ||| thAck) [] := by
    rw [← hs', setTcp_tcp_of_ne _ _ hci, hc]
  refine ⟨h.half hip hs' hreach (by rw [hc']; rfl), ⟨?_, ?_, ?_, ?_, ?_, ?_, ?_⟩, hsent⟩
  · rw [hc']
    rfl
  · rw [hsocks]
    exact hb
  · rw [hc']
    exact (by decide : loopbackAddr ≠ 0)
  · rw [hc']
    exact decide_eq_true (.inr rfl)
  · rw [exactMatch_congr haddr, hc']
    exact hback
  · rw [hc']
    exact .inr ⟨rfl, hci⟩
  · rw [hc', hi]
    rfl

/-- **The `SYN|ACK`** of a new control block. -/
lemma Connecting.synAck (hip : (s.tcp i).localIp ≠ 0) {port : BitVec 16}
    (hport : port = (s.tcp i).remotePort)
    (hnone : exactMatch s.tcp (s.tcp i).localIp (s.tcp i).localPort (s.tcp i).remotePort = none)
    (hsame : SameSock s s' a) (hnew : NewChild s s' c b (childPcb (s.tcp i) b port iss)) :
    ∃ r, tcpSendPacket (receive (n + 2)) s' c (thSyn ||| thAck) [] = .ok r ∧ Attempted r.2 i a rcv := by
  have hci : c ≠ i := by
    rintro rfl
    exact absurd (h.so.symm.trans hnew.free) nofun
  have hc : s'.tcp c = childPcb (s.tcp i) b port iss := by rw [hnew.tcp, update_self]
  -- as long as the answer has not come back, the socket is connecting
  have hstill : ∀ (s₁ : Net) (pcb : TcpPcb), SameHost s' s₁ → s₁.tcp = update s.tcp c pcb →
      pcb.state = .synReceived → Connecting s₁ i a rcv := by
    intro s₁ pcb hhost htcp hstate
    refine h.of_tcp ?_ (fun k hk => ?_) (hsame.trans (hhost.sameSock a))
    · rw [htcp, update_of_ne hci.symm]
      exact ⟨rfl, rfl, rfl⟩
    · rw [htcp]
      by_cases hkc : k = c
      · rw [hkc, update_self, hstate]
        exact nofun
      · rw [update_of_ne hkc]
        exact h.others k hk
  have hsend : LoopSend (receive (n + 1)) s' c (thSyn ||| thAck) [] _ :=
    tcpSendPacket_loopSend (by rw [hc]; exact (by decide : loopbackAddr ≠ 0))
      (by rw [hc]; exact decide_eq_true (.inr rfl)) (Nat.zero_le _)
  generalize tcpSendPacket (receive (n + 2)) s' c (thSyn ||| thAck) [] = x at hsend ⊢
  cases hsend with
  | fail _ hhost htcp =>
    refine ⟨_, rfl, .inl ?_⟩
    rcases htcp with htcp | htcp
    · exact hstill _ _ hhost (htcp.trans hnew.tcp) rfl
    · refine hstill _ ((s'.tcp c).sent (thSyn ||| thAck) []) hhost ?_ ?_
      · rw [htcp, hnew.tcp, update_idem]
      · rw [hc]
        rfl
  | pass hhost htcp =>
    rename_i s₁
    rw [hc] at htcp ⊢
    rw [hnew.tcp, update_idem] at htcp
    have hconn : Connecting s₁ i a rcv := hstill s₁ _ hhost htcp rfl
    generalize hseg : (childPcb (s.tcp i) b port iss).segment (thSyn ||| thAck) [] = seg
    have hhas : ∀ flag, seg.has flag = decide ((thSyn ||| thAck) &&& flag ≠ 0) := fun _ => hseg ▸ rfl
    have hack : seg.has thAck = true := hhas _
    have hflags : seg.has (thSyn ||| thAck) = true := hhas _
    have hfin : seg.has thFin = false := hhas _
    have hpayload : seg.payload = [] := hseg ▸ rfl
    suffices hres : ∃ s₂, tcpDispatch (receive (n + 1)) s₁ loopbackAddr (s.tcp i).localIp seg = .ok s₂ ∧
        Attempted s₂ i a rcv by
      obtain ⟨s₂, hdispatch, hs2⟩ := hres
      exact ⟨(.success, s₂), by
        change (tcpDispatch (receive (n + 1)) s₁ loopbackAddr (s.tcp i).localIp seg).map _ = _
        rw [hdispatch]
        rfl, hs2⟩
    cases hmatch : exactMatch s₁.tcp loopbackAddr seg.sport seg.dport with
    | none =>
      exact ⟨_, tcpDispatch_none _ _ ((tcpDemux_eq_exact hack).trans hmatch),
        .inl ((Quiet.free s₁ 1).connecting hconn)⟩
    | some k =>
      obtain ⟨so, hso, hdispatch⟩ := tcpDispatch_exact (receive (n + 1)) (s.tcp i).localIp hmatch
      rw [hdispatch]
      by_cases hk : k = i
      · subst hk
        have hso : so = a := Option.some.inj (hso.symm.trans hconn.so)
        subst hso
        have hb : (s₁.socks b).core = (true, some c, []) := (hhost.sameSock b).core.trans hnew.core
        have hseq : seg.seq = iss := hseg ▸ rfl
        have hk1 : s₁.tcp k = s.tcp k := by rw [htcp, update_of_ne hci.symm]
        have hreach : exactMatch s₁.tcp (s.tcp k).localIp (s.tcp k).localPort (s.tcp k).remotePort = some c := by
          rw [htcp]
          exact exactMatch_update hnone hnew.lt (TcpPcb.isExact_iff.mpr ⟨rfl, rfl, hport, nofun, rfl, rfl⟩)
        rw [← hseg] at hmatch
        have hlinked : LinkedEnds (s₁.setTcp k { s₁.tcp k with rcvNxt := iss + 1, state := .established }) k so c b := by
          refine hconn.linked (q := port) ?_ hci ?_ (congrArg (fun c => c.2.1) hb) ?_ ?_
          · rwa [hk1]
          · rw [htcp, update_self, ← htcp, hk1]
          · rwa [hk1]
          · rwa [hk1]
        have hends : Connected (s₁.setTcp k { s₁.tcp k with rcvNxt := seg.seq + 1, state := .established }) k so
            c b rcv := by
          rw [hseq]
          refine ⟨hlinked, ?_, hconn.core, .inr (congrArg (fun c => c.2.2) hb), hconn.silent⟩
          rw [setTcp_tcp_self]
        obtain ⟨s₂, hs2, hconnected⟩ := tcpConnInput_synSent hconn.state hflags hends
        exact ⟨s₂, hs2, .inr ⟨c, b, hconnected⟩⟩
      · obtain ⟨s₂, hs2, hq⟩ := tcpConnInput_quiet (receive (n + 1)) so (hconn.others k hk) hpayload hfin
        exact ⟨s₂, hs2, .inl (hq.connecting hconn)⟩

/-- A connection request for a listening control block `l`. -/
lemma Connecting.listen (hip : (s.tcp i).localIp ≠ 0) {l ls : ℕ}
    (hsport : seg.sport = (s.tcp i).localPort) (hseq : seg.seq + 1 = (s.tcp i).sndNxt)
    (hport : (s.tcp l).localPort = (s.tcp i).remotePort)
    (hnone : exactMatch s.tcp (s.tcp i).localIp (s.tcp i).localPort (s.tcp i).remotePort = none) :
    ∃ s', tcpListenInput (receive (n + 2)) s l ls (s.tcp i).localIp loopbackAddr seg = .ok s' ∧
      Attempted s' i a rcv := by
  have huse : (s.socks a).inUse = true := congrArg (fun c => c.1) h.core
  unfold tcpListenInput
  split_ifs
  · exact ⟨_, rfl, .inl ((Quiet.free s 1).connecting h)⟩
  · generalize hr : tcpAllocChild s l ls loopbackAddr (s.tcp i).localIp seg.sport seg.seq = r
    obtain ⟨hsame, hcases⟩ := tcpAllocChild_cases l ls loopbackAddr _ _ _ huse hr
    obtain ⟨child, s₁⟩ := r
    rcases hcases with ⟨rfl, htcp⟩ | ⟨c, b, iss, rfl, hnew⟩
    · have hconn : Connecting s₁ i a rcv := by
        refine h.of_tcp (by rw [htcp]; exact ⟨rfl, rfl, rfl⟩) (fun k hk => ?_) hsame
        rw [htcp]
        exact h.others k hk
      exact ⟨_, rfl, .inl ((Quiet.free s₁ 1).connecting hconn)⟩
    · rw [hsport, hseq] at hnew
      obtain ⟨r, hr, hattempted⟩ := h.synAck hip hport hnone hsame hnew
      dsimp only
      rw [hr]
      exact ⟨_, rfl, (Quiet.free r.2 1).attempted hattempted⟩

/-- The segment that a `SYN` is, when it arrives. -/
lemma Connecting.dispatch (hip : (s.tcp i).localIp ≠ 0) {seg : TcpSegment}
    (hsport : seg.sport = (s.tcp i).localPort) (hdport : seg.dport = (s.tcp i).remotePort)
    (hseq : seg.seq + 1 = (s.tcp i).sndNxt) (hflags : seg.flags = thSyn) (hpayload : seg.payload = []) :
    ∃ s', tcpDispatch (receive (n + 2)) s (s.tcp i).localIp loopbackAddr seg = .ok s' ∧ Attempted s' i a rcv := by
  have hhas : ∀ flag, seg.has flag = decide (thSyn &&& flag ≠ 0) := fun flag => by rw [TcpSegment.has, hflags]
  have hfin : seg.has thFin = false := hhas thFin
  have hsyn : seg.has (thSyn ||| thAck) = true := hhas _
  cases hmatch : exactMatch s.tcp (s.tcp i).localIp seg.sport seg.dport with
  | some k =>
    obtain ⟨so, hso, hdispatch⟩ := tcpDispatch_exact (receive (n + 2)) loopbackAddr hmatch
    rw [hdispatch]
    by_cases hk : k = i
    · -- the socket has the port that it connects to: it is the other end itself
      subst hk
      have hso : so = a := Option.some.inj (hso.symm.trans h.so)
      subst hso
      rw [hsport, hdport] at hmatch
      generalize hs2 : s.setTcp k { s.tcp k with rcvNxt := seg.seq + 1, state := .established } = s₂
      obtain ⟨hpcb, hsocks, -, hsent⟩ := h.establish hs2
      have hhalf : Half s₂ k so k := h.half hip hs2 hmatch (by rw [hpcb]; exact hseq)
      have hconnected : Connected s₂ k so k so rcv := by
        refine ⟨⟨hhalf, hhalf, hsent⟩, by rw [hpcb], ?_, .inl rfl, ?_⟩
        · rw [hsocks]
          exact h.core
        · rw [← hs2]
          exact h.silent
      rw [← hs2] at hconnected
      obtain ⟨s3, hs3, hs3'⟩ := tcpConnInput_synSent h.state hsyn hconnected
      exact ⟨s3, hs3, .inr ⟨k, so, hs3'⟩⟩
    · obtain ⟨s₁, hs1, hq⟩ := tcpConnInput_quiet (receive (n + 2)) so (h.others k hk) hpayload hfin
      exact ⟨s₁, hs1, .inl (hq.connecting h)⟩
  | none =>
    have hdemux : tcpDemux s (s.tcp i).localIp seg =
        (List.range tcpMaxSockets).find? fun k => (s.tcp k).isListener seg.dport := by
      unfold tcpDemux
      rw [exactMatch] at hmatch
      rw [hmatch]
      dsimp only
      rw [hhas, hhas]
      exact if_pos (by decide)
    cases hlisten : (List.range tcpMaxSockets).find? fun k => (s.tcp k).isListener seg.dport with
    | none => exact ⟨_, tcpDispatch_none _ _ (hdemux.trans hlisten), .inl ((Quiet.free s 1).connecting h)⟩
    | some l =>
      have hl : (s.tcp l).isListener seg.dport = true := by
        have := List.find?_some hlisten
        exact this
      rw [TcpPcb.isListener, decide_eq_true_eq] at hl
      obtain ⟨ls, hls⟩ := Option.isSome_iff_exists.mp hl.1
      unfold tcpDispatch
      rw [hdemux, hlisten]
      dsimp only
      rw [hls]
      dsimp only
      rw [if_pos hl.2.2.2]
      rw [hsport, hdport] at hmatch
      exact h.listen hip hsport hseq (hl.2.2.1.trans hdport) hmatch

/-- **The `SYN` of a socket**: it stays as it is, or it has a connection afterwards. -/
lemma Connecting.syn :
    ∃ r, tcpSendPacket (receive (n + 3)) s i thSyn [] = .ok r ∧ Attempted r.2 i a rcv := by
  have hfill : Connecting (fillLocalIp s i) i a rcv ∧ ((fillLocalIp s i).tcp i).localIp ≠ 0 := by
    have hpcb : (fillLocalIp s i).tcp i =
        { s.tcp i with localIp := if (s.tcp i).localIp = 0 then s.defaultIf.ip else (s.tcp i).localIp } :=
      update_self ..
    constructor
    · refine h.of_tcp (by rw [hpcb]; exact ⟨rfl, rfl, rfl⟩) (fun k hk => ?_) ⟨rfl, rfl, rfl, rfl⟩
      rw [fillLocalIp, setTcp_tcp_of_ne _ _ hk]
      exact h.others k hk
    · rw [hpcb]
      dsimp only
      split_ifs with hzero
      · exact h.default
      · exact hzero
  have heq : tcpSendPacket (receive (n + 3)) s i thSyn [] =
      tcpSendPacket (receive (n + 3)) (fillLocalIp s i) i thSyn [] := by
    unfold tcpSendPacket
    rw [fillLocalIp_self hfill.2]
  rw [heq]
  generalize fillLocalIp s i = t at hfill
  obtain ⟨ht, hip⟩ := hfill
  have hsend : LoopSend (receive (n + 2)) t i thSyn [] _ :=
    tcpSendPacket_loopSend hip (decide_eq_true (.inl ht.remote)) (Nat.zero_le _)
  generalize tcpSendPacket (receive (n + 3)) t i thSyn [] = x at hsend ⊢
  cases hsend with
  | fail _ hhost htcp =>
    refine ⟨_, rfl, .inl ?_⟩
    rcases htcp with htcp | htcp
    · exact (Quiet.of_eq hhost htcp).connecting ht
    · exact ht.setSnd hhost htcp
  | pass hhost htcp =>
    rename_i t1
    have hconn : Connecting t1 i a rcv := ht.setSnd hhost htcp
    have hpcb : t1.tcp i = (t.tcp i).sent thSyn [] := by rw [htcp, update_self]
    have hlocal : (t.tcp i).localIp = (t1.tcp i).localIp := by rw [hpcb]; rfl
    obtain ⟨s', hs', hattempted⟩ : ∃ s', tcpDispatch (receive (n + 2)) t1 (t1.tcp i).localIp loopbackAddr
        ((t.tcp i).segment thSyn []) = .ok s' ∧ Attempted s' i a rcv := by
      refine hconn.dispatch (by rw [← hlocal]; exact hip) ?_ ?_ ?_ rfl rfl
      · rw [hpcb]
        rfl
      · rw [hpcb]
        rfl
      · rw [hpcb]
        rfl
    refine ⟨(.success, s'), ?_, hattempted⟩
    rw [ht.remote, hlocal, hs']
    rfl

end

end handshake

/-! ## Calls -/

section calls

variable {re : Entry → Net → Except NetStop Net} {n j : ℕ} {rcv : List Packet}

lemma e1000PollRx_silent (re : Entry → Net → Except NetStop Net) (hsilent : ∀ k, s.card k = []) :
    ∃ s₁, e1000PollRx re s = .ok s₁ ∧ SameHost s s₁ ∧ s₁.tcp = s.tcp := by
  unfold e1000PollRx
  split
  · exact ⟨s, rfl, ⟨rfl, rfl, rfl, rfl⟩, rfl⟩
  · rw [hsilent]
    exact ⟨_, rfl, ⟨rfl, rfl, rfl, rfl⟩, rfl⟩

lemma setConnecting_quiet (s : Net) (so : ℕ) (x y : Bool) : Quiet s (s.setConnecting so x y) :=
  ⟨fun _ => .inl rfl, fun _ => .setSock rfl⟩

lemma Attempted.silent (h : Attempted s i a rcv) : ∀ k, s.card k = [] := by
  rcases h with h | ⟨_, _, h⟩
  · exact h.silent
  · exact h.silent

lemma tcpConnectWait_spec (m : ℕ) (h : Attempted s i a rcv) : ∃ r, tcpConnectWait (receive (n + 3)) a i m s = .ok r ∧
      (r.1 = .success → ∃ j b, Connected r.2 i a j b rcv) := by
  induction m generalizing s with
  | zero => exact ⟨_, rfl, nofun⟩
  | succ m ih =>
    obtain ⟨s₁, hpoll, hhost, htcp⟩ := e1000PollRx_silent (receive (n + 3)) h.silent
    have h1 : Attempted s₁ i a rcv := (Quiet.of_eq hhost htcp).attempted h
    rw [tcpConnectWait, hpoll]
    dsimp only [bind, Except.bind]
    rcases h1 with hconn | ⟨j, b, hconn⟩
    · rw [if_neg (by rw [hconn.state]; exact nofun)]
      split_ifs
      · have hreset : Connecting (s₁.setTcp i { s₁.tcp i with sndNxt := (s₁.tcp i).iss }) i a rcv :=
          hconn.setSnd ⟨rfl, rfl, rfl, rfl⟩ rfl
        obtain ⟨r, hr, hattempted⟩ := hreset.syn
        rw [hr]
        exact ih hattempted
      · exact ih (.inl hconn)
    · rw [if_pos hconn.state]
      exact ⟨_, rfl, fun _ => ⟨j, b, (setConnecting_quiet s₁ a false true).connected hconn⟩⟩

/-- A socket with its control block. -/
structure Attached (s : Net) (a i : ℕ) : Prop where
  inUse : (s.socks a).inUse = true
  pcb : (s.socks a).pcb = some i
  so : (s.tcp i).so = some a

lemma tcpAutoBind_spec (s : Net) (i : ℕ) :
    SameHost s (tcpAutoBind s i) ∧ (∀ k, k ≠ i → (tcpAutoBind s i).tcp k = s.tcp k) ∧
      ((tcpAutoBind s i).tcp i).so = (s.tcp i).so := by
  unfold tcpAutoBind
  generalize nextPort s.ephemeralPort = p
  obtain ⟨port, next⟩ := p
  dsimp only
  split_ifs
  · exact ⟨⟨rfl, rfl, rfl, rfl⟩, fun _ _ => rfl, rfl⟩
  · refine ⟨⟨rfl, rfl, rfl, rfl⟩, fun k hk => update_of_ne hk _ _, ?_⟩
    rw [setTcp_tcp_self]

/-- **`tcp_connect` to the host itself** succeeds only with a connection. -/
lemma tcpConnect_spec (hsock : Attached s a i) (hsilent : ∀ k, s.card k = [])
    (hsent : ∀ k, (s.tcp k).state ≠ .synSent) (hdefault : s.defaultIf.ip ≠ 0) (port : BitVec 16) :
    ∃ r, tcpConnect (receive (n + 3)) s a loopbackAddr port = .ok r ∧
      (r.1 = .success → ∃ j b, Connected r.2 i a j b (s.socks a).rcv) := by
  have hbind : SameHost s (if (s.tcp i).bound then s else tcpAutoBind s i) ∧
      (∀ k, k ≠ i → (if (s.tcp i).bound then s else tcpAutoBind s i).tcp k = s.tcp k) ∧
      ((if (s.tcp i).bound then s else tcpAutoBind s i).tcp i).so = (s.tcp i).so := by
    split_ifs
    · exact ⟨⟨rfl, rfl, rfl, rfl⟩, fun _ _ => rfl, rfl⟩
    · exact tcpAutoBind_spec s i
  unfold tcpConnect
  rw [hsock.pcb]
  dsimp only
  generalize (if (s.tcp i).bound then s else tcpAutoBind s i) = s₁ at hbind
  obtain ⟨hhost, hothers, hso⟩ := hbind
  have hconn : Connecting (s₁.setTcp i (connecting (s₁.tcp i) loopbackAddr port)) i a (s.socks a).rcv := by
    refine ⟨?_, ?_, ?_, fun k hk => ?_, ?_, ?_, ?_⟩
    · rw [setTcp_tcp_self]
      rfl
    · rw [setTcp_tcp_self]
      exact hso.trans hsock.so
    · rw [setTcp_tcp_self]
      rfl
    · rw [setTcp_tcp_of_ne _ _ hk, hothers k hk]
      exact hsent k
    · change (s₁.socks a).core = _
      rw [hhost.socks]
      simp only [Socket.core, hsock.inUse, hsock.pcb]
    · change (s₁.en0.getD s₁.lo0).ip ≠ 0
      rw [hhost.en0, hhost.lo0]
      exact hdefault
    · change ∀ k, s₁.card k = []
      rw [hhost.card]
      exact hsilent
  obtain ⟨r, hr, hattempted⟩ := ((setConnecting_quiet _ a true _).connecting hconn).syn
  rw [hr]
  exact tcpConnectWait_spec 1000 hattempted

lemma tcpSendChunks_spec (h : LinkedEnds s i a j b) {m : ℕ} {data : Packet} (hm : data.length ≤ m) :
    ∃ r, tcpSendChunks (receive (n + 2)) i m data s = .ok r ∧ (r.1 = .success → LinkedEnds r.2 i a j b ∧
      r.2.card = s.card ∧ ∀ k, (r.2.socks k).rcv.flatten =
        if k = b then (s.socks k).rcv.flatten ++ data else (s.socks k).rcv.flatten) := by
  induction m generalizing s data with
  | zero =>
    have hnil : data = [] := List.length_eq_zero_iff.mp (Nat.le_zero.mp hm)
    subst hnil
    refine ⟨_, rfl, fun _ => ⟨h, rfl, fun k => ?_⟩⟩
    rw [List.append_nil, ite_self]
  | succ m ih =>
    rw [tcpSendChunks]
    split_ifs with hnil
    · subst hnil
      refine ⟨_, rfl, fun _ => ⟨h, rfl, fun k => ?_⟩⟩
      rw [List.append_nil, ite_self]
    · have hpos := List.length_pos_iff.mpr hnil
      have hchunk : data.take tcpMss ≠ [] := by
        rw [← List.length_pos_iff, List.length_take]
        exact lt_min (by decide) hpos
      have hle : (data.take tcpMss).length ≤ tcpMss := List.length_take_le _ _
      have hrest : (data.drop tcpMss).length ≤ m := by
        rw [List.length_drop]
        dsimp only [tcpMss]
        omega
      have hack : chunkFlags data &&& thAck ≠ 0 ∧ chunkFlags data &&& (thSyn ||| thFin) = 0 := by
        unfold chunkFlags
        split_ifs <;> decide
      obtain ⟨rc, s₁, hsend, hs1⟩ := h.send hack.1 hack.2 hchunk hle
      dsimp only [bind, Except.bind]
      rw [hsend]
      dsimp only
      split_ifs with hrc
      · exact ⟨_, rfl, fun h => absurd h hrc⟩
      · obtain ⟨hlinked, hcard, hrcv⟩ := hs1 (not_not.mp hrc)
        obtain ⟨r, hr, hspec⟩ := ih hlinked hrest
        refine ⟨r, hr, fun hsucc => ?_⟩
        obtain ⟨hlinked', hcard', hrcv'⟩ := hspec hsucc
        refine ⟨hlinked', hcard'.trans hcard, fun k => ?_⟩
        rw [hrcv' k, hrcv k]
        split_ifs
        · rw [List.flatten_append, List.flatten_singleton, List.append_assoc, List.take_append_drop]
        · rfl

/-- **`tcp_send`.** What was sent is in the buffer of the other end. -/
lemma tcpSend_spec (h : LinkedEnds s i a j b) (data : Packet) :
    ∃ r, tcpSend (receive (n + 2)) s a data = .ok r ∧ (r.1 = .success → LinkedEnds r.2 i a j b ∧
      r.2.card = s.card ∧ ∀ k, (r.2.socks k).rcv.flatten =
        if k = b then (s.socks k).rcv.flatten ++ data else (s.socks k).rcv.flatten) := by
  unfold tcpSend
  rw [h.here.sock]
  dsimp only
  split_ifs
  · exact tcpSendChunks_spec h le_rfl
  · exact ⟨_, rfl, nofun⟩

lemma soreceiveWait_spec (re : Entry → Net → Except NetStop Net) (so m : ℕ) (hsilent : ∀ k, s.card k = []) :
    ∃ r, soreceiveWait re so m s = .ok r ∧ SameHost s r.2 ∧ r.2.tcp = s.tcp := by
  induction m generalizing s with
  | zero => exact ⟨_, rfl, ⟨rfl, rfl, rfl, rfl⟩, rfl⟩
  | succ m ih =>
    obtain ⟨s₁, hpoll, hhost, htcp⟩ := e1000PollRx_silent re hsilent
    rw [soreceiveWait]
    split_ifs
    · exact ⟨_, rfl, ⟨rfl, rfl, rfl, rfl⟩, rfl⟩
    · dsimp only [bind, Except.bind]
      rw [hpoll]
      dsimp only
      split_ifs
      · exact ⟨_, rfl, hhost, htcp⟩
      · exact ⟨_, rfl, hhost, htcp⟩
      · obtain ⟨r, hr, hhost', htcp'⟩ := ih (by rw [hhost.card]; exact hsilent)
        exact ⟨r, hr, ⟨hhost'.socks.trans hhost.socks, hhost'.en0.trans hhost.en0, hhost'.lo0.trans hhost.lo0,
          hhost'.card.trans hhost.card⟩, htcp'.trans htcp⟩

/-- **`soreceive`.** What it returns was at the front of the buffer. -/
lemma soreceive_spec (re : Entry → Net → Except NetStop Net) (so len : ℕ) (hsilent : ∀ k, s.card k = []) :
    ∃ r, soreceive re s so len = .ok r ∧ r.2.2.tcp = s.tcp ∧ r.2.2.card = s.card ∧
      (∀ k, (r.2.2.socks k).pcb = (s.socks k).pcb) ∧
      (∀ k, k ≠ so → (r.2.2.socks k).rcv = (s.socks k).rcv) ∧
      r.2.1 ++ (r.2.2.socks so).rcv.flatten = (s.socks so).rcv.flatten := by
  obtain ⟨⟨eof, s₁⟩, hwait, hhost, htcp⟩ := soreceiveWait_spec re so 500 hsilent
  have hsame : ∀ s₂ : Net, s₂.socks = s₁.socks → s₂.tcp = s₁.tcp → s₂.card = s₁.card →
      s₂.tcp = s.tcp ∧ s₂.card = s.card ∧ (∀ k, (s₂.socks k).pcb = (s.socks k).pcb) ∧
      (∀ k, k ≠ so → (s₂.socks k).rcv = (s.socks k).rcv) ∧
      [] ++ (s₂.socks so).rcv.flatten = (s.socks so).rcv.flatten := by
    intro s₂ hsocks htcp2 hcard
    have heq : s₂.socks = s.socks := hsocks.trans hhost.socks
    rw [heq]
    exact ⟨htcp2.trans htcp, hcard.trans hhost.card, fun _ => rfl, fun _ _ => rfl, rfl⟩
  unfold soreceive
  rw [hwait]
  cases eof with
  | true => exact ⟨_, rfl, hsame s₁ rfl rfl rfl⟩
  | false =>
    refine ⟨_, rfl, ?_⟩
    dsimp only [soreceiveTake]
    split_ifs with hrcv
    · exact hsame s₁ rfl rfl rfl
    · exact hsame s₁ rfl rfl rfl
    · have hsocks : s₁.socks = s.socks := hhost.socks
      refine ⟨htcp, hhost.card, fun k => ?_, fun k hk => ?_, ?_⟩
      · dsimp only [Net.free, Net.setSock]
        rw [update_apply, hsocks]
        split_ifs with hk
        · rw [hk]
        · rfl
      · dsimp only [Net.free, Net.setSock]
        rw [update_of_ne hk, hsocks]
      · dsimp only [Net.free, Net.setSock]
        rw [update_self, hsocks]
        exact soCopy_append len _

end calls

/-! ## Runs -/

/-- What each socket has sent and received. -/
structure Ledger where
  sent : ℕ → Packet
  got : ℕ → Packet

/-- Calls of `tcp_send` and `soreceive` for two sockets, one after the other, in which every send returns success. -/
inductive LoopRun (n a b : ℕ) (s₀ : Net) : Net → Ledger → Prop
  | start : LoopRun n a b s₀ s₀ ⟨fun _ => [], fun _ => []⟩
  | send {s s' : Net} {L : Ledger} (x : ℕ) (data : Packet) (hrun : LoopRun n a b s₀ s L) (hx : x = a ∨ x = b)
      (hcall : tcpSend (receive (n + 3)) s x data = .ok (.success, s')) :
      LoopRun n a b s₀ s' { L with sent := update L.sent x (L.sent x ++ data) }
  | recv {s s' : Net} {L : Ledger} (x len : ℕ) {rc : NetRc} {bytes : Packet} (hrun : LoopRun n a b s₀ s L)
      (hx : x = a ∨ x = b) (hcall : soreceive (receive (n + 3)) s x len = .ok (rc, bytes, s')) :
      LoopRun n a b s₀ s' { L with got := update L.got x (L.got x ++ bytes) }

/-- Everything that one end has sent was received by the other or is in its buffer, and the numbers agree. -/
structure EndToEnd (s : Net) (L : Ledger) (i a j b : ℕ) : Prop where
  toHere : L.got a ++ (s.socks a).rcv.flatten = L.sent b
  toThere : L.got b ++ (s.socks b).rcv.flatten = L.sent a
  nxtHere : (s.tcp i).rcvNxt = (s.tcp j).sndNxt
  nxtThere : (s.tcp j).rcvNxt = (s.tcp i).sndNxt

/-- The control block that the segments of another one reach. -/
def peerOf (s : Net) (i : ℕ) : Option ℕ := tcpDemux s (s.tcp i).localIp ((s.tcp i).segment thAck [])

section run

variable {n j : ℕ} {L : Ledger}

lemma Half.peerOf (h : Half s i a j) : peerOf s i = some j :=
  (tcpDemux_eq_exact (TcpPcb.has_segment ..)).trans h.reach

/-- The invariant of a run. -/
structure LoopInv (s : Net) (L : Ledger) (i a j b : ℕ) : Prop where
  linked : LinkedEnds s i a j b
  silent : ∀ k, s.card k = []
  toHere : L.got a ++ (s.socks a).rcv.flatten = L.sent b
  toThere : L.got b ++ (s.socks b).rcv.flatten = L.sent a

lemma LoopInv.symm (h : LoopInv s L i a j b) : LoopInv s L j b i a := ⟨h.linked.symm, h.silent, h.toThere, h.toHere⟩

lemma LoopInv.send (h : LoopInv s L i a j b) {data : Packet}
    (hcall : tcpSend (receive (n + 3)) s a data = .ok (.success, s')) :
    LoopInv s' { L with sent := update L.sent a (L.sent a ++ data) } i a j b := by
  obtain ⟨r, hr, hspec⟩ := tcpSend_spec h.linked data
  obtain rfl : r = (.success, s') := Except.ok.inj (hr.symm.trans hcall)
  obtain ⟨hlinked, hcard, hrcv⟩ := hspec rfl
  have hthere : L.got b ++ (s'.socks b).rcv.flatten = L.sent a ++ data := by
    rw [hrcv, if_pos rfl, ← List.append_assoc, h.toThere]
  refine ⟨hlinked, hcard ▸ h.silent, ?_, ?_⟩
  · dsimp only
    by_cases hab : a = b
    · subst hab
      rw [update_self]
      exact hthere
    · rw [update_of_ne (Ne.symm hab), hrcv, if_neg hab]
      exact h.toHere
  · dsimp only
    rw [update_self]
    exact hthere

lemma LoopInv.recv (h : LoopInv s L i a j b) {len : ℕ} {rc : NetRc} {bytes : Packet}
    (hcall : soreceive (receive (n + 3)) s a len = .ok (rc, bytes, s')) :
    LoopInv s' { L with got := update L.got a (L.got a ++ bytes) } i a j b := by
  obtain ⟨r, hr, htcp, hcard, hpcb, hothers, hrcv⟩ := soreceive_spec (receive (n + 3)) a len h.silent
  obtain rfl : r = (rc, bytes, s') := Except.ok.inj (hr.symm.trans hcall)
  dsimp only at htcp hcard hpcb hothers hrcv
  have hhalf : ∀ {i a j : ℕ}, Half s i a j → Half s' i a j := by
    intro i a j hh
    refine hh.of_addr (fun k => by rw [htcp]) (hpcb a) ?_ ?_
    · rw [htcp]
      exact hh.state
    · rw [htcp]
      exact hh.nxt
  have hhere : L.got a ++ bytes ++ (s'.socks a).rcv.flatten = L.sent b := by rw [List.append_assoc, hrcv, h.toHere]
  refine ⟨⟨hhalf h.linked.here, hhalf h.linked.there, by rw [htcp]; exact h.linked.sent⟩, hcard ▸ h.silent, ?_, ?_⟩
  · dsimp only
    rw [update_self]
    exact hhere
  · dsimp only
    by_cases hab : b = a
    · subst hab
      rw [update_self]
      exact hhere
    · rw [update_of_ne hab, hothers b hab]
      exact h.toThere

lemma LoopInv.run (h : LoopInv s ⟨fun _ => [], fun _ => []⟩ i a j b) (hrun : LoopRun n a b s s' L) :
    LoopInv s' L i a j b := by
  induction hrun with
  | start => exact h
  | send x data _ hx hcall ih =>
    rcases hx with rfl | rfl
    · exact ih.send hcall
    · exact (ih.symm.send hcall).symm
  | recv x len _ hx hcall ih =>
    rcases hx with rfl | rfl
    · exact ih.recv hcall
    · exact (ih.symm.recv hcall).symm

end run

/-- A host with a new socket and two that listen on the ports 80 and 81. -/
def serversNet : Net where
  mbufs := 64
  lo0 := ⟨List.replicate 6 0, loopbackAddr, 0x000000FF, 0, 0⟩
  en0 := some ⟨[0x52, 0x54, 0, 0x12, 0x34, 0x56], 0x0F02000A, 0x00FFFFFF, 0, 0x0202000A⟩
  arp := fun _ => none
  udp := fun _ => ⟨none, 0, false⟩
  tcp
    | 0 => ⟨some 0, .closed, 0, 0, 0, 0, 100, 100, 0, 65535, false⟩
    | 1 => ⟨some 1, .listen, 0x0F02000A, 80, 0, 0, 200, 200, 0, 65535, true⟩
    | 2 => ⟨some 2, .listen, 0x0F02000A, 81, 0, 0, 300, 300, 0, 65535, true⟩
    | _ => ⟨none, .closed, 0, 0, 0, 0, 0, 0, 0, 0, false⟩
  socks
    | 0 => { Socket.zero with inUse := true, stream := true, pcb := some 0 }
    | 1 => { Socket.zero with inUse := true, stream := true, pcb := some 1, head := some 1, qlimit := 5 }
    | 2 => { Socket.zero with inUse := true, stream := true, pcb := some 2, head := some 2, qlimit := 5 }
    | _ => Socket.zero
  issCounter := 300
  ephemeralPort := 49152
  ipId := 0
  inputLock := false
  polls := 0
  card := fun _ => []
  wire := []

lemma serversNet_sent (k : ℕ) : (serversNet.tcp k).state ≠ .synSent := by
  match k with
  | 0 => exact nofun
  | 1 => exact nofun
  | 2 => exact nofun
  | _ + 3 => exact nofun

/-- The result of a call that was evaluated. -/
lemma ok_of_map {α β : Type} {x : Except NetStop (α × β)} {a : α} (h : x.map Prod.fst = .ok a) :
    ∃ b, x = .ok (a, b) := by
  cases x with
  | error e => exact absurd h nofun
  | ok r =>
    obtain ⟨a', b⟩ := r
    exact ⟨b, by rw [← Except.ok.inj h]⟩

end Chimera
