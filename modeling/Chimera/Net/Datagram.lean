import Chimera.Net.InputLock
import Chimera.Net.Socket

/-!
# Datagrams and receive calls: `udp_input`, `soreceive`, `sys_recvfrom`

The copy loop of `soreceive` is that of a stream: it goes on from one packet to the next (`m_nextpkt`), and what
does not fit stays at the front. So one datagram for each call is what a caller gets whose buffer ends where the
first datagram does, or who finds no other datagram behind it (`OneFits`, `datagram_boundaries`).
-/

namespace Chimera

/-- The size of `kbuf` in `sys_recvfrom`. -/
def recvBufSize : ℕ := 1500

/-- A socket of type `SOCK_DGRAM` is read once.
Source: `sys_recvfrom` -/
def sysRecvfrom (re : Entry → Net → Except NetStop Net) (s : Net) (so len : ℕ) :
    Except NetStop (NetRc × Packet × Net) :=
  soreceive re s so (if len > recvBufSize then recvBufSize else len)

/-- The datagrams `ds` have come to a socket, and nothing else has happened to it. -/
structure Arrived (s s' : Net) (so : ℕ) (ds : List Packet) : Prop where
  rcv : (s'.socks so).rcv = (s.socks so).rcv ++ ds
  closed : (s'.socks so).cantRcvMore = (s.socks so).cantRcvMore

/-- A datagram reaches one socket at most. -/
lemma udpInput_arrived (s : Net) (m : Packet) (so : ℕ) :
    ∃ ds, Arrived s (udpInput s m) so ds ∧ (ds = [] ∨ ds = [m.drop 8]) := by
  have hfree : Arrived s (s.free 1) so [] := ⟨(List.append_nil _).symm, rfl⟩
  unfold udpInput
  split_ifs
  · exact ⟨[], hfree, .inl rfl⟩
  · exact ⟨[], hfree, .inl rfl⟩
  split
  · rename_i target _
    by_cases hso : so = target
    · subst hso
      exact ⟨[m.drop 8], ⟨by simp [sbappend, Net.setSock], by simp [sbappend, Net.setSock]⟩, .inr rfl⟩
    · exact ⟨[], ⟨by simp [sbappend, Net.setSock, hso], by simp [sbappend, Net.setSock, hso]⟩, .inl rfl⟩
  · exact ⟨[], hfree, .inl rfl⟩

/-- The datagrams of a socket and its successful receive calls, each with the length of its buffer, in a run
whose receive calls meet `C`. A call may poll for datagrams before it copies. -/
inductive DatagramRun (C : List Packet → Bool → ℕ → Prop) (re : Entry → Net → Except NetStop Net) (so : ℕ) :
    Net → List Packet → List (ℕ × Packet) → Prop
  | start {s : Net} (h : (s.socks so).rcv = []) : DatagramRun C re so s [] []
  | input {s : Net} {D ds : List Packet} {G : List (ℕ × Packet)} (m : Packet) (hrun : DatagramRun C re so s D G)
      (h : Arrived s (udpInput s m) so ds) : DatagramRun C re so (udpInput s m) (D ++ ds) G
  | recv {s s₁ s' : Net} {D ds : List Packet} {G : List (ℕ × Packet)} {eof : Bool} {rc : NetRc} {bytes : Packet}
      (len : ℕ) (hrun : DatagramRun C re so s D G) (hwait : soreceiveWait re so 500 s = .ok (eof, s₁))
      (h : Arrived s s₁ so ds) (hC : C ((s.socks so).rcv ++ ds) (s.socks so).cantRcvMore len)
      (hcall : sysRecvfrom re s so len = .ok (rc, bytes, s')) :
      DatagramRun C re so s' (D ++ ds) (if rc = .success then G ++ [(len, bytes)] else G)

/-- Each call has returned the front of one datagram, in the order of delivery, and the datagrams that no call
has returned are in the buffer as they came. -/
def OneEach (D : List Packet) (G : List (ℕ × Packet)) (rcv : List Packet) : Prop :=
  ∃ D₁, D = D₁ ++ rcv ∧ List.Forall₂ (fun d g => g.2 = d.take g.1) D₁ G

/-- The buffer of a call ends with the first datagram, or has room for it and there is no other. After
`SHUT_RD` there is a byte to return. -/
def OneFits (q : List Packet) (closed : Bool) (len : ℕ) : Prop :=
  (closed = true → q.flatten ≠ []) ∧ ∀ m ms, q = m :: ms → 0 < len ∧
    (m.length = min len recvBufSize ∨ m.length < min len recvBufSize ∧ ms = [])

section datagrams

variable {re : Entry → Net → Except NetStop Net} {so : ℕ} {s s₁ : Net}

lemma soCopy_zero (q : List Packet) : soCopy 0 q = ([], q) := by
  cases q with
  | nil => rfl
  | cons m ms => rw [soCopy, if_pos rfl]

/-- **The copy loop stops after one datagram** if the buffer ends there, or the queue does. -/
lemma soCopy_one {c : ℕ} {m : Packet} {ms : List Packet} (hc : 0 < c)
    (h : m.length = c ∨ m.length < c ∧ ms = []) : soCopy c (m :: ms) = (m, ms) := by
  rw [soCopy, if_neg (by omega), if_pos (by omega)]
  rcases h with heq | ⟨-, rfl⟩
  · rw [heq, Nat.sub_self, soCopy_zero, List.append_nil]
  · rw [soCopy, List.append_nil]

/-- The waiting loop ends the call only at an empty buffer after `SHUT_RD`. -/
lemma soreceiveWait_eof {n : ℕ} (h : soreceiveWait re so n s = .ok (true, s₁)) :
    (s₁.socks so).rcv.flatten = [] ∧ (s₁.socks so).cantRcvMore = true := by
  induction n generalizing s with
  | zero => cases h
  | succ n ih =>
    rw [soreceiveWait] at h
    by_cases hbytes : s.sbCc so ≠ 0
    · rw [if_pos hbytes] at h
      cases h
    rw [if_neg hbytes] at h
    rcases hpoll : e1000PollRx re s with _ | s2
    · rw [hpoll] at h
      cases h
    rw [hpoll] at h
    dsimp only [bind, Except.bind] at h
    split_ifs at h with hcc hclosed
    · cases h
    · obtain rfl : s2 = s₁ := congrArg Prod.snd (Except.ok.inj h)
      exact ⟨List.length_eq_zero_iff.mp (Nat.eq_zero_of_not_pos hcc), hclosed⟩
    · exact ih h

/-- **One receive call** returns the front of the first datagram and leaves the others, or fails. -/
lemma sysRecvfrom_one {s' : Net} {ds : List Packet} {eof : Bool} {rc : NetRc} {bytes : Packet} {len : ℕ}
    (hwait : soreceiveWait re so 500 s = .ok (eof, s₁)) (h : Arrived s s₁ so ds)
    (hC : OneFits ((s.socks so).rcv ++ ds) (s.socks so).cantRcvMore len)
    (hcall : sysRecvfrom re s so len = .ok (rc, bytes, s')) :
    (rc ≠ .success ∧ (s'.socks so).rcv = (s.socks so).rcv ++ ds) ∨
      rc = .success ∧ ∃ m, (s.socks so).rcv ++ ds = m :: (s'.socks so).rcv ∧ bytes = m.take len := by
  obtain ⟨hclosed, hfits⟩ := hC
  rw [← h.rcv] at hclosed hfits ⊢
  rw [← h.closed] at hclosed
  have hcap : (if len > recvBufSize then recvBufSize else len) = min len recvBufSize := by split_ifs <;> omega
  rw [sysRecvfrom, hcap, soreceive, hwait] at hcall
  cases eof with
  | true =>
    obtain ⟨hempty, hshut⟩ := soreceiveWait_eof hwait
    exact absurd hempty (hclosed hshut)
  | false =>
    have htake : soreceiveTake s₁ so (min len recvBufSize) = (rc, bytes, s') := Except.ok.inj hcall
    unfold soreceiveTake at htake
    cases hq : (s₁.socks so).rcv with
    | nil =>
      have hopen : (s₁.socks so).cantRcvMore = false := by
        by_contra hshut
        exact hclosed (by simpa using hshut) (by rw [hq]; rfl)
      simp only [hq, hopen, if_true, Bool.false_eq_true, if_false, Prod.mk.injEq] at htake
      obtain ⟨rfl, -, rfl⟩ := htake
      exact .inl ⟨nofun, hq⟩
    | cons m ms =>
      obtain ⟨hlen, hm⟩ := hfits m ms hq
      have hpos : 0 < min len recvBufSize := lt_min hlen (by decide)
      simp only [hq, soCopy_one hpos hm, reduceCtorEq, if_false, Prod.mk.injEq] at htake
      obtain ⟨rfl, rfl, rfl⟩ := htake
      refine .inr ⟨rfl, m, by simp [Net.free, Net.setSock], (List.take_of_length_le ?_).symm⟩
      omega

end datagrams

/-- A host whose socket 0 is bound to port 7. -/
def echoHost : Net := { hostNet gatewayCache with
  udp := fun i => if i = 0 then ⟨some 0, 7, true⟩ else ⟨none, 0, false⟩
  socks := fun _ => { Socket.zero with inUse := true } }

/-- A datagram to port 7 with one byte. -/
def byteTo7 (b : BitVec 8) : Packet := [0, 9, 0, 7, 0, 9, 0, 0, b]

end Chimera
