import Chimera.Net.InputLock
import Chimera.Net.Socket

/-!
# A TCP connection as a stream

A peer sends the bytes `S` and then a `FIN`. Its segments arrive in any order, some more than once and some never;
meanwhile the host reads from the socket.

`tcp_stream_safety`: what `soreceive` has returned is a prefix of `S`, and it reports the end only after all of `S`,
in every run each of whose segments is `Expected` where the connection takes it without looking at its sequence
number. That is needed: `tcp_input` takes the data of the handshake's last segment and a `FIN` wherever they belong
in the stream, so that a `FIN` that overtakes the data ends the stream early (`early_fin_ends_stream`).

`StreamInv` is the invariant: the bytes returned and those in the buffer are a prefix of `S`, whose length is what
`rcv_nxt` counts. `tcpInput_arrive` connects a step to the network stack: a segment in a frame that `if_input`
is handling changes the connection as `Conn.arrive` says.
-/

namespace Chimera

open Lib

/-! ## A connection and its reader -/

/-- The control block of a connection and the receiving side of its socket. -/
structure Conn where
  pcb : TcpPcb
  rcv : List Packet
  cantRcvMore : Bool
  deriving DecidableEq, Repr

/-- `so_rcv.sb_cc`. -/
def Conn.sbCc (c : Conn) : ℕ := c.rcv.flatten.length

/-- A segment arrives.
Source: `tcp_input` -/
def Conn.arrive (c : Conn) (seg : TcpSegment) : Conn :=
  let o := tcpOutcome c.pcb seg
  { pcb := o.pcb
    rcv := if o.deliver then c.rcv ++ [seg.payload] else c.rcv
    cantRcvMore := o.eof || c.cantRcvMore }

/-- Where a call of `soreceive` is. Segments may arrive between any two of these points. -/
inductive Reader where
  | idle
  /-- Before the test of the polling loop. -/
  | loop (retry len : ℕ)
  /-- After `e1000_poll_rx`. -/
  | polled (retry len : ℕ)
  /-- `sb_cc` was 0, and `SS_CANTRCVMORE` is looked at next. -/
  | noBytes (retry len : ℕ)
  /-- After the loop. -/
  | taking (len : ℕ)
  /-- `sb_mb` was null, and `SS_CANTRCVMORE` is looked at next. -/
  | noMbuf (len : ℕ)
  deriving DecidableEq, Repr

/-- The call has found the buffer empty and has not looked at `SS_CANTRCVMORE` yet. -/
def Reader.sawEmpty : Reader → Bool
  | .noBytes _ _ => true
  | .noMbuf _ => true
  | _ => false

/-- A connection with a reader, what it has got so far and whether the end was reported to it. -/
structure Stream where
  conn : Conn
  reader : Reader
  got : Packet
  ended : Bool
  deriving DecidableEq, Repr

/-- A call returns. A call that could take a byte and succeeds without any reports the end of the stream. -/
def Stream.ret (x : Stream) (len : ℕ) (rc : NetRc) (bytes : Packet) : Stream :=
  { x with
    reader := .idle
    got := x.got ++ bytes
    ended := x.ended || (rc = .success ∧ bytes = [] ∧ 0 < len) }

/-- A call goes on to its next point.
Source: `soreceive` -/
def Stream.read (x : Stream) : Stream :=
  match x.reader with
  | .idle => x
  | .loop retry len =>
      if retry < 500 ∧ x.conn.sbCc = 0 then { x with reader := .polled retry len }
      else { x with reader := .taking len }
  | .polled retry len =>
      if x.conn.sbCc > 0 then { x with reader := .taking len } else { x with reader := .noBytes retry len }
  | .noBytes retry len =>
      if x.conn.cantRcvMore then x.ret len .success [] else { x with reader := .loop (retry + 1) len }
  | .taking len =>
      if x.conn.rcv = [] then { x with reader := .noMbuf len }
      else
        let (bytes, rest) := soCopy len x.conn.rcv
        { x with conn := { x.conn with rcv := rest } }.ret len .success bytes
  | .noMbuf len => x.ret len (if x.conn.cantRcvMore then .success else .wouldBlock) []

/-- What can happen to a connection. -/
inductive StreamOp where
  /-- A segment arrives whose first byte has number `off` in the stream. -/
  | segment (seg : TcpSegment) (off : ℕ)
  /-- The host itself sends `n` bytes. -/
  | send (n : BitVec 32)
  /-- `soreceive` is called. -/
  | call (len : ℕ)
  | read
  deriving DecidableEq, Repr

def Stream.step (x : Stream) : StreamOp → Stream
  | .segment seg _ => { x with conn := x.conn.arrive seg }
  | .send n => { x with conn := { x.conn with pcb := { x.conn.pcb with sndNxt := x.conn.pcb.sndNxt + n } } }
  | .call len => if x.reader = .idle then { x with reader := .loop 0 len } else x
  | .read => x.read

/-- Runs each of whose steps satisfies `C`. -/
inductive StreamRun (C : Stream → StreamOp → Prop) (x₀ : Stream) : Stream → Prop
  | start : StreamRun C x₀ x₀
  | step {x : Stream} (op : StreamOp) (hrun : StreamRun C x₀ x) (hC : C x op) : StreamRun C x₀ (x.step op)

/-! ## The peer -/

/-- A segment of the stream `S` with the initial sequence number `irs`: its data are those of `S` from `off` on, and a
`FIN` is after the last byte. A `SYN` comes before the first one. -/
structure SegmentOf (S : Packet) (irs : BitVec 32) (seg : TcpSegment) (off : ℕ) : Prop where
  payload : seg.payload <+: S.drop off
  fin : seg.has thFin → off + seg.payload.length = S.length
  syn : seg.has thSyn → off = 0
  seq : seg.seq = if seg.has thSyn then irs else irs + 1 + BitVec.ofNat 32 off

/-- The bytes that arrived and were taken. -/
def Stream.delivered (x : Stream) : Packet := x.got ++ x.conn.rcv.flatten

/-- **The segment is the next one where the code does not check it.** In `ESTABLISHED` the sequence number of data is
compared, but two numbers with a distance of `2 ^ 32` are the same. -/
structure Expected (x : Stream) (seg : TcpSegment) (off : ℕ) : Prop where
  /-- Before the connection is established by the host only a `SYN` is taken. -/
  synSent : x.conn.pcb.state = .synSent → seg.has (thSyn ||| thAck) → seg.has thSyn
  /-- The last segment of the handshake. -/
  handshake : x.conn.pcb.state = .synReceived → seg.has thAck → seg.ack = x.conn.pcb.sndNxt → seg.payload ≠ [] →
    off = x.delivered.length
  data : x.conn.pcb.state = .established → seg.payload ≠ [] → seg.seq = x.conn.pcb.rcvNxt →
    off = x.delivered.length
  fin : x.conn.pcb.state = .established → seg.payload = [] → seg.has thFin → off = x.delivered.length
  /-- No `FIN` while a call that saw an empty buffer has missed the data after that. -/
  unseen : x.conn.pcb.state = .established → seg.payload = [] → seg.has thFin → x.reader.sawEmpty →
    x.conn.rcv = []

/-- The steps that a peer with the stream `S` causes. -/
def PeerSends (S : Packet) (irs : BitVec 32) : StreamOp → Prop
  | .segment seg off => SegmentOf S irs seg off
  | _ => True

/-- The condition on the segments. -/
def InSequence (x : Stream) : StreamOp → Prop
  | .segment seg off => Expected x seg off
  | _ => True

/-- A connection of which nothing but a `SYN` has arrived. -/
structure Opening (irs : BitVec 32) (x : Stream) : Prop where
  state : x.conn.pcb.state = .synSent ∨ x.conn.pcb.state = .synReceived ∧ x.conn.pcb.rcvNxt = irs + 1
  rcv : x.conn.rcv = []
  cantRcvMore : x.conn.cantRcvMore = false
  reader : x.reader = .idle
  got : x.got = []
  ended : x.ended = false

/-! ## The invariant -/

/-- The states in which data may still come. -/
def TcpState.isOpen (st : TcpState) : Bool := st = .synSent ∨ st = .synReceived ∨ st = .established

structure StreamInv (S : Packet) (irs : BitVec 32) (x : Stream) : Prop where
  delivered : x.delivered <+: S
  nonempty : ∀ m ∈ x.conn.rcv, m ≠ []
  opening : x.conn.pcb.state = .synSent ∨ x.conn.pcb.state = .synReceived → x.delivered = []
  rcvNxt : x.conn.pcb.state = .synReceived ∨ x.conn.pcb.state = .established →
    x.conn.pcb.rcvNxt = irs + 1 + BitVec.ofNat 32 x.delivered.length
  noEof : x.conn.pcb.state.isOpen → x.conn.cantRcvMore = false
  eof : x.conn.cantRcvMore → x.delivered = S
  sawEmpty : x.reader.sawEmpty → x.conn.cantRcvMore → x.conn.rcv = []
  ended : x.ended → x.got = S

section invariant

variable {S : Packet} {irs : BitVec 32} {x : Stream}

lemma Opening.inv (h : Opening irs x) : StreamInv S irs x := by
  have hdelivered : x.delivered = [] := by rw [Stream.delivered, h.got, h.rcv]; rfl
  constructor
  · rw [hdelivered]
    exact List.nil_prefix
  · rw [h.rcv]
    exact nofun
  · exact fun _ => hdelivered
  · intro hstate
    rcases h.state with hsyn | ⟨_, hnxt⟩
    · rw [hsyn] at hstate
      exact absurd hstate (by decide)
    · rw [hnxt, hdelivered]
      exact (BitVec.add_zero _).symm
  · exact fun _ => h.cantRcvMore
  · intro heof
    exact absurd (h.cantRcvMore.symm.trans heof) Bool.false_ne_true
  · exact fun _ _ => h.rcv
  · intro hended
    exact absurd (h.ended.symm.trans hended) Bool.false_ne_true

/-! ### Arrivals -/

/-- What a segment can do to a connection. -/
inductive Arrives (c : Conn) (seg : TcpSegment) : Conn → Prop
  | drop : Arrives c seg c
  /-- The `SYN` of the peer. -/
  | open (hstate : c.pcb.state = .synSent) (hflags : seg.has (thSyn ||| thAck)) :
      Arrives c seg { c with pcb := { c.pcb with rcvNxt := seg.seq + 1, state := .established } }
  /-- The end of the handshake. -/
  | accept (hstate : c.pcb.state = .synReceived) :
      Arrives c seg { c with pcb := { c.pcb with state := .established } }
  | deliver (hpayload : seg.payload ≠ [])
      (hstate : c.pcb.state = .synReceived ∧ seg.has thAck ∧ seg.ack = c.pcb.sndNxt ∨
        c.pcb.state = .established ∧ seg.seq = c.pcb.rcvNxt) :
      Arrives c seg
        { c with
          pcb := { c.pcb with
            rcvNxt := c.pcb.rcvNxt + BitVec.ofNat 32 seg.payload.length, state := .established }
          rcv := c.rcv ++ [seg.payload] }
  | fin (hstate : c.pcb.state = .established) (hpayload : seg.payload = []) (hfin : seg.has thFin) :
      Arrives c seg
        { c with
          pcb := { c.pcb with rcvNxt := c.pcb.rcvNxt + 1, state := .closeWait }
          cantRcvMore := true }

lemma Conn.arrive_cases (c : Conn) (seg : TcpSegment) : Arrives c seg (c.arrive seg) := by
  unfold Conn.arrive tcpOutcome
  by_cases hrcvd : c.pcb.state = .synReceived ∧ seg.has thAck
  · rw [if_pos hrcvd]
    by_cases hack : seg.ack = c.pcb.sndNxt
    · rw [if_pos hack]
      split_ifs with hpayload
      · exact .deliver hpayload (.inl ⟨hrcvd.1, hrcvd.2, hack⟩)
      · exact .accept hrcvd.1
    · rw [if_neg hack]
      exact .drop
  rw [if_neg hrcvd]
  by_cases hsent : c.pcb.state = .synSent ∧ seg.has (thSyn ||| thAck)
  · rw [if_pos hsent]
    exact .open hsent.1 hsent.2
  rw [if_neg hsent]
  by_cases hest : c.pcb.state = .established
  · rw [if_pos hest]
    by_cases hpayload : seg.payload ≠ []
    · by_cases hseq : seg.seq = c.pcb.rcvNxt
      · rw [if_neg (fun h => h.2 hseq), if_pos hpayload]
        have := Arrives.deliver hpayload (.inr ⟨hest, hseq⟩)
        rwa [← hest] at this
      · rw [if_pos ⟨hpayload, hseq⟩]
        exact .drop
    · rw [if_neg (fun h => hpayload h.1), if_neg hpayload]
      split_ifs with hfin
      · exact .fin hest (not_not.mp hpayload) hfin
      · exact .drop
  · rw [if_neg hest]
    exact .drop

/-- The bytes that were taken, and the next ones of the stream. -/
lemma append_prefix {n : ℕ} {xs ys : Packet} (hxs : xs <+: S) (hys : ys <+: S.drop n) (hn : n = xs.length) :
    xs ++ ys <+: S := by
  obtain ⟨t, rfl⟩ := hxs
  subst hn
  rw [List.drop_left] at hys
  exact (List.prefix_append_right_inj xs).mpr hys

lemma StreamInv.arrive (h : StreamInv S irs x) {seg : TcpSegment} {off : ℕ} (hseg : SegmentOf S irs seg off)
    (hexp : Expected x seg off) : StreamInv S irs { x with conn := x.conn.arrive seg } := by
  have hcases := x.conn.arrive_cases seg
  generalize x.conn.arrive seg = c at hcases ⊢
  cases hcases with
  | drop => exact h
  | «open» hstate hflags =>
    have hsyn := hexp.synSent hstate hflags
    have hempty : x.delivered = [] := h.opening (.inl hstate)
    refine ⟨h.delivered, h.nonempty, ?_, ?_, fun _ => h.noEof (by rw [hstate]; rfl), h.eof, h.sawEmpty, h.ended⟩
    · rintro (h | h) <;> exact absurd h nofun
    · intro _
      change seg.seq + 1 = irs + 1 + BitVec.ofNat 32 x.delivered.length
      rw [hseg.seq, if_pos hsyn, hempty]
      exact (BitVec.add_zero _).symm
  | accept hstate =>
    refine ⟨h.delivered, h.nonempty, ?_, fun _ => h.rcvNxt (.inl hstate), fun _ => h.noEof (by rw [hstate]; rfl),
      h.eof, h.sawEmpty, h.ended⟩
    rintro (h | h) <;> exact absurd h nofun
  | deliver hpayload hstate =>
    have hoff : off = x.delivered.length := by
      rcases hstate with ⟨hrcvd, hack, hackno⟩ | ⟨hest, hseq⟩
      · exact hexp.handshake hrcvd hack hackno hpayload
      · exact hexp.data hest hpayload hseq
    have hopen : x.conn.cantRcvMore = false := by
      rcases hstate with ⟨hrcvd, -⟩ | ⟨hest, -⟩
      · exact h.noEof (by rw [hrcvd]; rfl)
      · exact h.noEof (by rw [hest]; rfl)
    have hnxt : x.conn.pcb.rcvNxt = irs + 1 + BitVec.ofNat 32 x.delivered.length :=
      h.rcvNxt (hstate.imp And.left And.left)
    have happend : x.got ++ (x.conn.rcv ++ [seg.payload]).flatten = x.delivered ++ seg.payload := by
      rw [List.flatten_append, List.flatten_singleton, ← List.append_assoc]
      rfl
    refine ⟨?_, ?_, ?_, ?_, fun _ => hopen, ?_, ?_, h.ended⟩
    · change x.got ++ (x.conn.rcv ++ [seg.payload]).flatten <+: S
      rw [happend]
      exact append_prefix h.delivered hseg.payload hoff
    · intro m hm
      rcases List.mem_append.mp hm with hm | hm
      · exact h.nonempty m hm
      · exact List.mem_singleton.mp hm ▸ hpayload
    · rintro (h | h) <;> exact absurd h nofun
    · intro _
      change x.conn.pcb.rcvNxt + _ = irs + 1 + BitVec.ofNat 32 (x.got ++ (x.conn.rcv ++ [seg.payload]).flatten).length
      rw [happend, hnxt, List.length_append, BitVec.ofNat_add, BitVec.add_assoc]
    · intro heof
      exact absurd (hopen.symm.trans heof) Bool.false_ne_true
    · intro _ heof
      exact absurd (hopen.symm.trans heof) Bool.false_ne_true
  | fin hstate hpayload hfin =>
    have hall : x.delivered = S := by
      refine h.delivered.eq_of_length ?_
      rw [← hexp.fin hstate hpayload hfin, ← hseg.fin hfin, hpayload]
      rfl
    refine ⟨h.delivered, h.nonempty, ?_, ?_, nofun, fun _ => hall, ?_, h.ended⟩
    · rintro (h | h) <;> exact absurd h nofun
    · rintro (h | h) <;> exact absurd h nofun
    · intro hsaw _
      exact hexp.unseen hstate hpayload hfin hsaw

/-! ### Reads -/

section

variable (h : StreamInv S irs x)
include h

/-- The reader moves on without returning. -/
lemma StreamInv.move {r : Reader} (hr : r.sawEmpty → x.conn.cantRcvMore → x.conn.rcv = []) :
    StreamInv S irs { x with reader := r } :=
  ⟨h.delivered, h.nonempty, h.opening, h.rcvNxt, h.noEof, h.eof, hr, h.ended⟩

/-- A call returns without any bytes. -/
lemma StreamInv.retNil {len : ℕ} {rc : NetRc}
    (hrc : rc = .success → x.conn.cantRcvMore ∧ x.conn.rcv = []) : StreamInv S irs (x.ret len rc []) := by
  have hgot : x.got ++ [] = x.got := List.append_nil _
  have hdelivered : (x.ret len rc []).delivered = x.delivered := by
    change (x.got ++ []) ++ _ = _
    rw [hgot]
    rfl
  refine ⟨hdelivered ▸ h.delivered, h.nonempty, hdelivered ▸ h.opening, hdelivered ▸ h.rcvNxt, h.noEof,
    hdelivered ▸ h.eof, nofun, ?_⟩
  intro hended
  change x.got ++ [] = S
  rw [hgot]
  rcases Bool.or_eq_true_iff.mp hended with hended | hret
  · exact h.ended hended
  · obtain ⟨heof, hrcv⟩ := hrc (of_decide_eq_true hret).1
    have hall := h.eof heof
    rwa [Stream.delivered, hrcv, List.flatten_nil, hgot] at hall

/-- A call returns bytes from the buffer. -/
lemma StreamInv.retBytes (len : ℕ) (hrcv : x.conn.rcv ≠ []) :
    StreamInv S irs ({ x with conn := { x.conn with rcv := (soCopy len x.conn.rcv).2 } }.ret len .success
      (soCopy len x.conn.rcv).1) := by
  have hdelivered : (x.got ++ (soCopy len x.conn.rcv).1) ++ (soCopy len x.conn.rcv).2.flatten = x.delivered := by
    rw [List.append_assoc, soCopy_append]
    rfl
  refine ⟨?_, soCopy_ne_nil h.nonempty, ?_, ?_, h.noEof, ?_, nofun, ?_⟩
  · change (x.got ++ (soCopy len x.conn.rcv).1) ++ (soCopy len x.conn.rcv).2.flatten <+: S
    rw [hdelivered]
    exact h.delivered
  · exact fun hstate => hdelivered.trans (h.opening hstate)
  · intro hstate
    exact (h.rcvNxt hstate).trans (congrArg (irs + 1 + BitVec.ofNat 32 ·.length) hdelivered.symm)
  · exact fun heof => hdelivered.trans (h.eof heof)
  · intro hended
    rcases Bool.or_eq_true_iff.mp hended with hended | hret
    · -- all of `S` was returned, so there is nothing in the buffer
      have hprefix := h.delivered
      have hgot := h.ended hended
      rw [Stream.delivered, hgot] at hprefix
      have hnil : x.conn.rcv.flatten = [] := by
        have hle := hprefix.length_le
        rw [List.length_append] at hle
        exact List.length_eq_zero_iff.mp (by omega)
      have hbytes : (soCopy len x.conn.rcv).1 = [] := by
        have := soCopy_append len x.conn.rcv
        rw [hnil] at this
        exact (List.append_eq_nil_iff.mp this).1
      change x.got ++ (soCopy len x.conn.rcv).1 = S
      rw [hbytes, hgot, List.append_nil]
    · obtain ⟨-, hnil, hlen⟩ := of_decide_eq_true hret
      exact absurd hnil (soCopy_pos hlen h.nonempty hrcv)

lemma StreamInv.read : StreamInv S irs x.read := by
  unfold Stream.read
  cases hreader : x.reader with
  | idle => exact h
  | loop retry len =>
    dsimp only
    split_ifs
    · exact h.move nofun
    · exact h.move nofun
  | polled retry len =>
    dsimp only
    split_ifs with hcc
    · exact h.move nofun
    · refine h.move fun _ _ => ?_
      have hnil : x.conn.rcv.flatten = [] := List.length_eq_zero_iff.mp (Nat.eq_zero_of_not_pos hcc)
      cases hrcv : x.conn.rcv with
      | nil => rfl
      | cons m ms =>
        rw [hrcv, List.flatten_cons] at hnil
        have hm := h.nonempty m (hrcv ▸ List.mem_cons_self)
        exact absurd (List.append_eq_nil_iff.mp hnil).1 hm
  | noBytes retry len =>
    dsimp only
    split_ifs with heof
    · exact h.retNil fun _ => ⟨heof, h.sawEmpty (by rw [hreader]; rfl) heof⟩
    · exact h.move nofun
  | taking len =>
    dsimp only
    split_ifs with hrcv
    · exact h.move fun _ _ => hrcv
    · exact h.retBytes len hrcv
  | noMbuf len =>
    refine h.retNil fun hrc => ?_
    by_cases heof : x.conn.cantRcvMore
    · exact ⟨heof, h.sawEmpty (by rw [hreader]; rfl) heof⟩
    · rw [if_neg heof] at hrc
      exact absurd hrc nofun

lemma StreamInv.step {op : StreamOp} (hpeer : PeerSends S irs op) (hseq : InSequence x op) :
    StreamInv S irs (x.step op) := by
  cases op with
  | segment seg off => exact h.arrive hpeer hseq
  | send n => exact ⟨h.delivered, h.nonempty, h.opening, h.rcvNxt, h.noEof, h.eof, h.sawEmpty, h.ended⟩
  | call len =>
    dsimp only [Stream.step]
    split_ifs
    · exact h.move nofun
    · exact h
  | read => exact h.read

end

end invariant

/-- A connection that the host is about to open, with its number 100. -/
def openingStream : Stream :=
  ⟨⟨⟨some 0, .synSent, 0x0F02000A, 49152, 0x0202000A, 80, 99, 100, 0, 65535, true⟩, [], false⟩, .idle, [], false⟩

/-- The segments of a peer with the number 7 that sends one byte. -/
def synAck : TcpSegment := ⟨80, 49152, 7, 100, thSyn ||| thAck, []⟩

def oneByte : TcpSegment := ⟨80, 49152, 8, 100, thAck, [1]⟩

def finAck : TcpSegment := ⟨80, 49152, 9, 100, thFin ||| thAck, []⟩

lemma synAck_of : SegmentOf [1] 7 synAck 0 := ⟨List.nil_prefix, nofun, fun _ => rfl, rfl⟩

lemma oneByte_of : SegmentOf [1] 7 oneByte 0 := ⟨List.prefix_rfl, nofun, nofun, rfl⟩

lemma finAck_of : SegmentOf [1] 7 finAck 1 := ⟨List.nil_prefix, fun _ => rfl, nofun, rfl⟩

/-- The segments arrive in order; the byte is read, and then the end is. -/
def orderlyOps : List StreamOp :=
  [.segment synAck 0, .segment oneByte 0, .segment finAck 1, .call 1, .read, .read, .call 1, .read, .read, .read]

/-! ## The step of the network stack -/

/-- What `Stream` keeps of the stack. -/
def Net.conn (s : Net) (i so : ℕ) : Conn := ⟨s.tcp i, (s.socks so).rcv, (s.socks so).cantRcvMore⟩

section stack

variable {s : Net} {ifp : Ifnet} {n i so : ℕ}

/-- A frame is being handled, and the connections, the sockets and the ARP cache are as in `s`. -/
def SameConns (s s' : Net) : Prop :=
  s'.inputLock = true ∧ s'.en0 = s.en0 ∧ s'.tcp = s.tcp ∧ s'.socks = s.socks ∧ s'.arp = s.arp

/-- If the call returns, then with the same connections. -/
def KeepsConns {α : Type} (s : Net) (state : α → Net) (x : Except NetStop α) : Prop :=
  Ensures (fun _ => True) (fun a => SameConns s (state a)) x

section

variable {s0 : Net} (h : SameConns s0 s)
include h

/-- A frame that is found under the lock is not handled. -/
lemma passFrames_keeps (frames : List Packet) : KeepsConns s0 id (passFrames (receive n) frames s) := by
  induction frames with
  | nil => exact h
  | cons frame frames ih =>
    rw [passFrames]
    split_ifs
    · exact ih
    · cases n with
      | zero => trivial
      | succ n =>
        rw [receive, ifInput, show s.take.inputLock = true from h.1]
        trivial

lemma e1000PollRx_keeps : KeepsConns s0 id (e1000PollRx (receive n) s) := by
  unfold e1000PollRx
  split
  · exact h
  · exact passFrames_keeps (s := { s with polls := s.polls + 1 }) h _

lemma arpWait_keeps (ip : InAddr) (k : ℕ) : KeepsConns s0 Prod.snd (arpWait (receive n) ip k s) := by
  induction k generalizing s with
  | zero => exact h
  | succ k ih =>
    rw [arpWait]
    refine Ensures.bind (e1000PollRx_keeps h) fun s1 h1 => ?_
    cases arpLookup s1.arp ip with
    | some mac => exact h1
    | none => exact ih h1

lemma etherSend_keeps (mac : Packet) (m : List Packet) (ethertype : BitVec 16) :
    SameConns s0 (etherSend s ifp mac m ethertype).2 := by
  unfold etherSend e1000Output
  dsimp only
  split_ifs <;> exact h

lemma arpResolve_keeps (dst : InAddr) : KeepsConns s0 Prod.snd (arpResolve (receive n) s ifp dst) := by
  unfold arpResolve
  dsimp only
  cases arpLookup s.arp (nextHop ifp dst) with
  | some mac => exact h
  | none =>
    apply arpWait_keeps
    unfold arpSendRequest
    split_ifs
    · exact h
    · exact etherSend_keeps (s := s.take) h _ _ _

lemma ethernetOutput_keeps (m : List Packet) (dst : InAddr) (ethertype : BitVec 16) :
    KeepsConns s0 Prod.snd (ethernetOutput (receive n) s ifp m dst ethertype) := by
  unfold ethernetOutput
  split_ifs
  · exact etherSend_keeps h _ _ _
  · apply Ensures.map
    apply (arpResolve_keeps h _).mono
    rintro ⟨_ | mac, s1⟩ h1
    · exact h1
    · exact etherSend_keeps h1 _ _ _

lemma ipRoute_keeps (hcard : s.en0 = some ifp) {src dst : InAddr}
    (hpeer : isLoopback src dst = false) (hdr m : Packet) :
    KeepsConns s0 Prod.snd (ipRoute (receive n) s hdr m src dst) := by
  unfold ipRoute
  rw [hpeer, if_neg Bool.false_ne_true, hcard]
  exact ethernetOutput_keeps h _ _ _

lemma ipOutput_keeps (hcard : s.en0 = some ifp) {src dst : InAddr}
    (hpeer : isLoopback src dst = false) (m : Packet) (proto : BitVec 8) :
    KeepsConns s0 Prod.snd (ipOutput (receive n) s m src dst proto) := by
  unfold ipOutput
  by_cases hmbufs : s.mbufs = 0
  · rw [if_pos hmbufs]
    exact h
  · rw [if_neg hmbufs]
    exact ipRoute_keeps (s := s.take.nextIpId) h hcard hpeer _ _

end

lemma setTcp_self (s : Net) (i : ℕ) : s.setTcp i (s.tcp i) = s :=
  congrArg (fun f => { s with tcp := f }) (Function.update_eq_self i s.tcp)

/-- **An answer to a peer on the network** leaves the connections as they are: an `ACK` without data takes no
number. -/
lemma tcpReply_keeps (hlock : s.inputLock = true) (hcard : s.en0 = some ifp) (hip : (s.tcp i).localIp ≠ 0)
    (hpeer : isLoopback (s.tcp i).localIp (s.tcp i).remoteIp = false) (ack : Bool) :
    KeepsConns s id (tcpReply (receive n) s i ack) := by
  have hsame : SameConns s s := ⟨hlock, rfl, rfl, rfl, rfl⟩
  have hfill : fillLocalIp s i = s := by
    rw [fillLocalIp, if_neg hip]
    exact setTcp_self s i
  have hsent : s.take.setTcp i ((s.tcp i).sent thAck []) = s.take := by
    rw [TcpPcb.sent, show (s.tcp i).sndNxt + sndAdvance thAck [] = (s.tcp i).sndNxt from BitVec.add_zero _]
    exact setTcp_self s.take i
  have hsend : KeepsConns s Prod.snd (tcpSendPacket (receive n) s i thAck []) := by
    unfold tcpSendPacket
    rw [hfill]
    dsimp only
    split_ifs
    · exact hsame
    · exact hsame
    · rw [tcpTransmit, hsent]
      exact ipOutput_keeps (s := s.take) hsame hcard hpeer _ _
  unfold tcpReply
  split_ifs
  · generalize tcpSendPacket (receive n) s i thAck [] = x at hsend ⊢
    match x, hsend with
    | .error _, _ => trivial
    | .ok (_, s1), h => exact h
  · exact hsame

lemma soQ0ToQ_rcv (s : Net) (child k : ℕ) : ((soQ0ToQ s child).socks k).rcv = (s.socks k).rcv ∧
      ((soQ0ToQ s child).socks k).cantRcvMore = (s.socks k).cantRcvMore := by
  unfold soQ0ToQ
  cases (s.socks child).head with
  | none => exact ⟨rfl, rfl⟩
  | some head =>
    dsimp only
    split_ifs
    · dsimp only [Net.setSock]
      by_cases hk : k = head
      · subst hk
        rw [Function.update_self]
        exact ⟨rfl, rfl⟩
      · rw [Function.update_of_ne hk]
        exact ⟨rfl, rfl⟩
    · exact ⟨rfl, rfl⟩

lemma soQ0ToQ_tcp (s : Net) (child : ℕ) : (soQ0ToQ s child).tcp = s.tcp := by
  unfold soQ0ToQ
  cases (s.socks child).head with
  | none => rfl
  | some head =>
    dsimp only
    split_ifs <;> rfl

lemma soQ0ToQ_keeps (s : Net) (child : ℕ) (i so : ℕ) : (soQ0ToQ s child).conn i so = s.conn i so := by
  rw [Net.conn, soQ0ToQ_tcp, (soQ0ToQ_rcv s child so).1, (soQ0ToQ_rcv s child so).2]
  rfl

lemma applyOutcome_conn (s : Net) (i so : ℕ) (o : TcpOutcome) (m : Packet) : (applyOutcome s i so o m).conn i so =
      ⟨o.pcb, if o.deliver then (s.socks so).rcv ++ [m] else (s.socks so).rcv,
        o.eof || (s.socks so).cantRcvMore⟩ := by
  have hset : (s.setTcp i o.pcb).conn i so = ⟨o.pcb, (s.socks so).rcv, (s.socks so).cantRcvMore⟩ := by
    dsimp only [Net.conn, Net.setTcp]
    rw [Function.update_self]
  have h : (if o.accept then soQ0ToQ (s.setTcp i o.pcb) so else s.setTcp i o.pcb).conn i so =
      ⟨o.pcb, (s.socks so).rcv, (s.socks so).cantRcvMore⟩ := by
    split_ifs
    · rw [soQ0ToQ_keeps, hset]
    · exact hset
  unfold applyOutcome
  dsimp only
  generalize (if o.accept then soQ0ToQ (s.setTcp i o.pcb) so else s.setTcp i o.pcb) = s1 at h ⊢
  obtain ⟨h1, h2⟩ := Conn.mk.inj h
  cases o.deliver <;> cases o.eof <;> simp [Net.conn, sbappend, Net.setSock, h1, h2]

/-- Nothing but control blocks and sockets changes. -/
lemma applyOutcome_frame (s : Net) (i so : ℕ) (o : TcpOutcome) (m : Packet) :
    (applyOutcome s i so o m).inputLock = s.inputLock ∧ (applyOutcome s i so o m).en0 = s.en0 := by
  have hq : (soQ0ToQ (s.setTcp i o.pcb) so).inputLock = s.inputLock ∧ (soQ0ToQ (s.setTcp i o.pcb) so).en0 = s.en0 := by
    unfold soQ0ToQ
    split
    · exact ⟨rfl, rfl⟩
    · split_ifs <;> exact ⟨rfl, rfl⟩
  unfold applyOutcome
  cases o.accept <;> cases o.deliver <;> cases o.eof <;> first | exact ⟨rfl, rfl⟩ | exact hq

lemma tcpOutcome_addrs (pcb : TcpPcb) (seg : TcpSegment) :
    (tcpOutcome pcb seg).pcb.localIp = pcb.localIp ∧ (tcpOutcome pcb seg).pcb.remoteIp = pcb.remoteIp := by
  unfold tcpOutcome
  split_ifs <;> exact ⟨rfl, rfl⟩

/-- **A segment of the connection**, in a frame that `if_input` is handling. -/
theorem tcpInput_arrive {s' : Net} {m : Packet} {src dst : InAddr} {seg : TcpSegment} (hlock : s.inputLock = true)
    (hcard : s.en0 = some ifp) (hparse : parseTcp src dst m = some seg) (hdemux : tcpDemux s src seg = some i)
    (hso : (s.tcp i).so = some so) (hstate : (s.tcp i).state ≠ .listen) (hip : (s.tcp i).localIp ≠ 0)
    (hpeer : isLoopback (s.tcp i).localIp (s.tcp i).remoteIp = false)
    (hret : tcpInput (receive n) s m src dst = .ok s') : s'.conn i so = (s.conn i so).arrive seg := by
  have hconn : tcpInput (receive n) s m src dst = tcpConnInput (receive n) s i so seg := by
    unfold tcpInput tcpDispatch
    simp only [hparse, hdemux, hso, if_neg hstate]
  rw [hconn, tcpConnInput] at hret
  obtain ⟨hl, he⟩ := applyOutcome_frame s i so (tcpOutcome (s.tcp i) seg) seg.payload
  have harrive := applyOutcome_conn s i so (tcpOutcome (s.tcp i) seg) seg.payload
  obtain ⟨hlocal, hremote⟩ := tcpOutcome_addrs (s.tcp i) seg
  generalize applyOutcome s i so (tcpOutcome (s.tcp i) seg) seg.payload = s1 at hret hl he harrive
  obtain ⟨htcp, -⟩ := Conn.mk.inj harrive
  have hreply := tcpReply_keeps (n := n) (hl.trans hlock) (he.trans hcard)
    (by rw [htcp, hlocal]; exact hip) (by rw [htcp, hlocal, hremote]; exact hpeer) (tcpOutcome (s.tcp i) seg).ack
  generalize tcpReply (receive n) s1 i (tcpOutcome (s.tcp i) seg).ack = x at hret hreply
  match x, hreply with
  | .ok s2, hreply =>
    have hs' : s'.conn i so = s2.conn i so := by
      rw [← Except.ok.inj hret]
      split_ifs <;> rfl
    obtain ⟨-, -, htcp2, hsocks2, -⟩ := hreply
    dsimp only [id] at htcp2 hsocks2
    rw [hs', Net.conn, htcp2, hsocks2]
    exact harrive

/-- The end of a handshake, with a byte. -/
theorem tcpInput_arrive_byte : ∃ s s' : Net, (s.tcp 0).state = .synReceived ∧
    s'.conn 0 0 = (s.conn 0 0).arrive ⟨99, 80, 0, 0, thAck, [7]⟩ := by
  let s := { hostNet gatewayCache with
    inputLock := true, tcp := fun _ => ⟨some 0, .synReceived, gatewayIf.ip, 80, gatewayIf.gateway, 99, 0, 0, 0, 0, true⟩ }
  have hparse := @parseTcp_tcpBytes gatewayIf.gateway gatewayIf.ip ⟨99, 80, 0, 0, thAck, [7]⟩ 0 (by decide)
  exact ⟨s, _, rfl, tcpInput_arrive (n := 0) rfl rfl hparse rfl rfl (by decide) (by decide) (by decide)
    (by rw [tcpInput, hparse]; rfl)⟩

end stack

end Chimera
