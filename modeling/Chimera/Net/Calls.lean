import Chimera.Net.Stream

/-!
# Socket calls: what a call relies on

`tcp_connect_sound` says when the success of `tcp_connect` means that the peer has answered: only if every segment of
the connection with a `SYN` or an `ACK` is an answer, since the branch of `tcp_input` for `SYN_SENT` looks at nothing
else (`refusal_connects`). The branch for `SYN_RECEIVED` compares the acknowledgement.

`socket_type_consistent` says for which arguments of `sys_socket` the control block is only used as what it is.
`socreate` chooses the table by the type or by the protocol, and every later call by `so_type` alone, which is the
type cut to 16 bits (`udp_block_as_tcp`).
-/

namespace Chimera

/-! ## Waiting for a connection -/

/-- `TH_RST`. -/
def thRst : BitVec 8 := 0x04

/-- A segment arrives from an address. Only one of this connection is for its control block.
Source: `tcp_input` -/
def Conn.hear (c : Conn) (e : InAddr × TcpSegment) : Conn :=
  if c.pcb.isExact e.1 e.2.sport e.2.dport then c.arrive e.2 else c

/-- A `SYN` for which `tcp_send_packet` returns `rc`. Without an mbuf nothing is counted. -/
def Conn.syn (c : Conn) (rc : NetRc) : Conn :=
  { c with pcb := if rc = .nomem then c.pcb else c.pcb.sent thSyn [] }

/-- The polling loop of `tcp_connect` with `n` rounds to go, where `out` says whether a `SYN` was sent: what it returns
and the segments that arrived after the `SYN`. In each round those of `polls` arrive; `sends` is what
`tcp_send_packet` returns. -/
def Conn.connectWait (sends : ℕ → NetRc) (polls : ℕ → List (InAddr × TcpSegment)) :
    ℕ → Bool → Conn → NetRc × List (InAddr × TcpSegment)
  | 0, _, _ => (.timeout, [])
  | n + 1, out, c =>
      let retry := 999 - n
      let heard := if out then polls retry else []
      let c := (polls retry).foldl Conn.hear c
      if c.pcb.state = .established then (.success, heard)
      else
        let again := retry % 250 = 0 ∧ retry > 0
        let r := connectWait sends polls n (out || again ∧ sends retry = .success)
          (if again then { c with pcb := { c.pcb with sndNxt := c.pcb.iss } }.syn (sends retry) else c)
        (r.1, heard ++ r.2)

/-- A call for a bound socket.
Source: `tcp_connect` -/
def Conn.connect (c : Conn) (ip : InAddr) (port : BitVec 16) (sends : ℕ → NetRc)
    (polls : ℕ → List (InAddr × TcpSegment)) : NetRc × List (InAddr × TcpSegment) :=
  ({ c with pcb := connecting c.pcb ip port }.syn (sends 0)).connectWait sends polls 1000 (sends 0 = NetRc.success)

/-- The answer of the peer to the `SYN`. -/
def Answers (iss : BitVec 32) (ip : InAddr) (port : BitVec 16) (e : InAddr × TcpSegment) : Prop :=
  e.1 = ip ∧ e.2.sport = port ∧ e.2.has thSyn ∧ e.2.has thAck ∧ ¬ e.2.has thRst ∧ e.2.ack = iss + 1

/-- A segment that ends the wait of `pcb`. -/
def TcpPcb.Opens (pcb : TcpPcb) (e : InAddr × TcpSegment) : Prop :=
  pcb.isExact e.1 e.2.sport e.2.dport ∧ e.2.has (thSyn ||| thAck)

section waiting

variable {c : Conn} {sends : ℕ → NetRc} {polls : ℕ → List (InAddr × TcpSegment)}

lemma Conn.hear_waiting (hstate : c.pcb.state = .synSent) (e : InAddr × TcpSegment) :
    c.hear e = c ∨ c.pcb.Opens e := by
  unfold Conn.hear
  split_ifs with hexact
  · have harrive := c.arrive_cases e.2
    generalize c.arrive e.2 = c' at harrive
    cases harrive with
    | drop => exact .inl rfl
    | «open» _ hflags => exact .inr ⟨hexact, hflags⟩
    | accept h => simp [hstate] at h
    | deliver _ h => simp [hstate] at h
    | fin h => simp [hstate] at h
  · exact .inl rfl

lemma Conn.hears_waiting (hstate : c.pcb.state = .synSent) (segs : List (InAddr × TcpSegment)) :
    segs.foldl Conn.hear c = c ∨ ∃ e ∈ segs, c.pcb.Opens e := by
  induction segs with
  | nil => exact .inl rfl
  | cons e segs ih =>
    rcases c.hear_waiting hstate e with hsame | hopens
    · rw [List.foldl_cons, hsame]
      exact ih.imp_right fun ⟨e', hmem, h⟩ => ⟨e', List.mem_cons_of_mem _ hmem, h⟩
    · exact .inr ⟨e, List.mem_cons_self, hopens⟩

/-- Only the counter changes with a `SYN`. -/
lemma Conn.syn_pcb (c : Conn) (rc : NetRc) : ∃ x, (c.syn rc).pcb = { c.pcb with sndNxt := x } := by
  unfold Conn.syn
  split_ifs
  · exact ⟨_, rfl⟩
  · exact ⟨_, rfl⟩

/-- A call that succeeds has heard a segment that ends the wait. -/
lemma Conn.connectWait_heard {pcb : TcpPcb} (hstate : pcb.state = .synSent) (n : ℕ) :
    ∀ (c : Conn) (out : Bool), (∃ x, c.pcb = { pcb with sndNxt := x }) →
      (c.connectWait sends polls n out).1 = .success →
      ∃ r, ∃ e ∈ polls r, pcb.Opens e ∧ (out → e ∈ (c.connectWait sends polls n out).2) := by
  induction n with
  | zero => exact fun _ _ _ h => nomatch h
  | succ n ih =>
    intro c out hpcb hret
    obtain ⟨x, hx⟩ := hpcb
    unfold Conn.connectWait at hret ⊢
    dsimp only at hret ⊢
    rcases c.hears_waiting (by rw [hx]; exact hstate) (polls (999 - n)) with hsame | ⟨e, hmem, hopens⟩
    · -- nothing for the connection: it waits on, with a new `SYN` or without
      have hwait : c.pcb.state ≠ .established := by rw [hx]; simp [hstate]
      rw [hsame, if_neg hwait] at hret ⊢
      refine (ih _ _ ?_ hret).imp fun r ⟨e, hmem, hopens, hheard⟩ => ⟨e, hmem, hopens, fun hout =>
        List.mem_append_right _ (hheard (by rw [hout, Bool.true_or]))⟩
      split_ifs
      · obtain ⟨y, hy⟩ := Conn.syn_pcb { c with pcb := { c.pcb with sndNxt := c.pcb.iss } } (sends (999 - n))
        exact ⟨y, by rw [hy, hx]⟩
      · exact ⟨x, hx⟩
    · rw [hx] at hopens
      refine ⟨_, e, hmem, hopens, fun hout => ?_⟩
      rw [if_pos hout]
      split
      · exact hmem
      · exact List.mem_append_left _ hmem

end waiting

/-! ## The protocol of a socket -/

/-- The two types of control blocks. -/
inductive PcbType where
  | udp | tcp
  deriving DecidableEq, Repr

/-- A socket, as far as its protocol goes. -/
structure SoProto where
  soType : BitVec 16
  /-- The type of what `so_pcb` points to. -/
  soPcb : Option PcbType
  isConnected : Bool
  deriving DecidableEq, Repr

/-- `SOCK_STREAM`. -/
def sockStream {w : ℕ} : BitVec w := 1

/-- `SOCK_DGRAM`. -/
def sockDgram {w : ℕ} : BitVec w := 2

/-- `AF_INET`. -/
def afInet {w : ℕ} : BitVec w := 2

/-- `AF_UNIX`. -/
def afUnix : BitVec 32 := 1

/-- A new socket, if there is room for it.
Source: `socreate` -/
def socreate (dom type proto : BitVec 32) : Option SoProto :=
  if dom ≠ afInet ∧ dom ≠ afUnix then none
  else some ⟨type.setWidth 16,
    if type = sockDgram ∨ proto = 17 then some .udp
    else if type = sockStream ∨ proto = 6 then some .tcp
    else none, false⟩

/-- The calls on a socket. -/
inductive SoCall where
  | bind (family : BitVec 8)
  | listen
  /-- With `ok`, the connection is made. -/
  | connect (family : BitVec 8) (ok : Bool)
  | send (addr : Bool) (len : ℕ)
  | receive
  | close
  deriving DecidableEq, Repr

namespace SoProto

/-- The choice by `so_type`: a call that has got as far as a UDP function, or a TCP function, uses the control block as
one of that type. Without one it uses nothing. -/
def uses (so : SoProto) (dgram stream : Bool) : Option PcbType :=
  if so.soPcb.isNone then none
  else if so.soType = sockDgram then if dgram then some .udp else none
  else if so.soType = sockStream ∧ stream then some .tcp
  else none

/-- The type as which a call uses the control block, if it does, and the socket after it.
Source: `sobind`, `solisten`, `soconnect`, `sosend`, `soreceive`, `soclose` -/
def call (so : SoProto) : SoCall → Option PcbType × SoProto
  | .bind family => (so.uses (family = afInet) (family = afInet), so)
  | .listen => (so.uses false true, so)
  | .connect family ok =>
      let used := so.uses false (family = afInet)
      (used, { so with isConnected := so.isConnected || used.isSome && ok })
  | .send addr len => (so.uses (addr ∧ len ≤ 1472) (so.isConnected ∧ 0 < len), so)
  | .receive => (none, so)
  | .close =>
      let used := so.uses true true
      (used, { so with soPcb := if used.isSome then none else so.soPcb })

lemma uses_eq {so : SoProto} {dgram stream : Bool} {b : PcbType} (h : so.uses dgram stream = some b) :
    so.soPcb ≠ none ∧ (b = .udp ∧ so.soType = sockDgram ∨ b = .tcp ∧ so.soType = sockStream) := by
  unfold uses at h
  split_ifs at h with hpcb hdgram _ hstream
  · exact ⟨fun hno => hpcb (hno ▸ rfl), .inl ⟨(Option.some.inj h).symm, hdgram⟩⟩
  · exact ⟨fun hno => hpcb (hno ▸ rfl), .inr ⟨(Option.some.inj h).symm, hstream.1⟩⟩

/-- What one call can do: it uses the block as `so_type` says, and at most takes it away. -/
lemma call_spec (so : SoProto) (c : SoCall) : (∀ b, (so.call c).1 = some b → so.soPcb ≠ none ∧
      (b = .udp ∧ so.soType = sockDgram ∨ b = .tcp ∧ so.soType = sockStream)) ∧
    (so.call c).2.soType = so.soType ∧ ((so.call c).2.soPcb = so.soPcb ∨ (so.call c).2.soPcb = none) := by
  cases c with
  | receive => exact ⟨nofun, rfl, .inl rfl⟩
  | close =>
    refine ⟨fun _ h => uses_eq h, rfl, ?_⟩
    by_cases hused : (so.uses true true).isSome
    · exact .inr (if_pos hused)
    · exact .inl (if_neg hused)
  | _ => exact ⟨fun _ h => uses_eq h, rfl, .inl rfl⟩

/-- The socket after some calls. -/
def run (so : SoProto) (calls : List SoCall) : SoProto := calls.foldl (fun so c => (so.call c).2) so

lemma run_spec (so : SoProto) (calls : List SoCall) :
    (so.run calls).soType = so.soType ∧ ((so.run calls).soPcb = so.soPcb ∨ (so.run calls).soPcb = none) := by
  induction calls generalizing so with
  | nil => exact ⟨rfl, .inl rfl⟩
  | cons c calls ih =>
    obtain ⟨-, htype, hpcb⟩ := so.call_spec c
    obtain ⟨ihtype, ihpcb⟩ := ih (so.call c).2
    refine ⟨ihtype.trans htype, ihpcb.elim (fun h => ?_) .inr⟩
    exact hpcb.imp h.trans h.trans

end SoProto

/-- **Only as what it is**: whatever calls are made, the control block is used as a block of its type, if and only if
the protocol does not contradict the low half of the type. -/
theorem socket_type_consistent (dom type proto : BitVec 32) :
    (∀ so, socreate dom type proto = some so → ∀ calls c b, ((so.run calls).call c).1 = some b → so.soPcb = some b) ↔
      (dom = afInet ∨ dom = afUnix → ¬ (proto = 17 ∧ type.setWidth 16 = sockStream) ∧
        ¬ (proto = 6 ∧ type ≠ sockDgram ∧ type.setWidth 16 = sockDgram)) := by
  constructor
  · intro hsound hdom
    have hclose := hsound _ (if_neg (not_and_or.mpr (hdom.imp not_not.mpr not_not.mpr))) [] .close
    constructor
    · rintro ⟨rfl, htype⟩
      have := hclose .tcp (by simp [SoProto.run, SoProto.call, SoProto.uses, htype]; decide)
      simp at this
    · rintro ⟨rfl, hne, htype⟩
      have := hclose .udp (by simp [SoProto.run, SoProto.call, SoProto.uses, htype, hne])
      simp [hne] at this
  · intro hcond so hso calls c b hb
    obtain ⟨htype, hpcb⟩ := so.run_spec calls
    obtain ⟨hsome, hcase⟩ := ((so.run calls).call_spec c).1 b hb
    rw [hpcb.resolve_right hsome] at hsome
    rw [htype] at hcase
    obtain ⟨hudp, htcp⟩ : ¬ _ ∧ ¬ _ := by
      apply hcond
      by_contra hdom
      rw [socreate, if_pos (not_or.mp hdom)] at hso
      cases hso
    unfold socreate at hso
    split_ifs at hso with _ hdgram hstream <;> obtain rfl := Option.some.inj hso
    · rcases hcase with ⟨rfl, -⟩ | ⟨-, htype⟩
      · rfl
      · rcases hdgram with rfl | rfl
        · exact absurd htype (by decide)
        · exact absurd ⟨rfl, htype⟩ hudp
    · rcases hcase with ⟨-, htype⟩ | ⟨rfl, -⟩
      · rcases hstream with rfl | rfl
        · exact absurd htype (by decide)
        · exact absurd ⟨rfl, fun h => hdgram (.inl h), htype⟩ htcp
      · rfl
    · exact absurd rfl hsome

/-- A stream socket with the protocol UDP: `tcp_close` uses the UDP block. -/
theorem udp_block_as_tcp : ∃ so, socreate afInet sockStream 17 = some so ∧ so.soPcb = some .udp ∧
    (so.call .close).1 = some .tcp := ⟨_, rfl, by decide, by decide⟩

end Chimera
