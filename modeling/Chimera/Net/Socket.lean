import Chimera.Net.Model

/-!
# Socket calls: `kernel/net/tcp.c`, `kernel/net/uipc_socket.c`

`tcp_bind`, `tcp_connect`, `tcp_send` and `soreceive`, over the network stack of `Net.Model`. They poll the
network card while they wait, and a segment to the host itself has been handled when `tcp_send_packet`
returns.

`soreceive` takes bytes off the front of the receive buffer (`soCopy_append`) and leaves no empty mbuf there.
-/

namespace Chimera

/-! ## Receiving -/

/-- The copy loop of `soreceive`: the bytes that fit, and what stays in the buffer. -/
def soCopy : ℕ → List Packet → Packet × List Packet
  | _, [] => ([], [])
  | len, m :: ms =>
      if len = 0 then ([], m :: ms)
      else if m.length ≤ len then (m ++ (soCopy (len - m.length) ms).1, (soCopy (len - m.length) ms).2)
      else (m.take len, m.drop len :: ms)

/-- **Nothing is lost** and nothing is changed in its order. -/
lemma soCopy_append (len : ℕ) (rcv : List Packet) : (soCopy len rcv).1 ++ (soCopy len rcv).2.flatten = rcv.flatten := by
  induction rcv generalizing len with
  | nil => rfl
  | cons m ms ih =>
    rw [soCopy]
    split_ifs
    · rfl
    · rw [List.append_assoc, ih, List.flatten_cons]
    · rw [List.flatten_cons, List.flatten_cons, ← List.append_assoc, List.take_append_drop]

lemma soCopy_ne_nil {len : ℕ} {rcv : List Packet} (h : ∀ m ∈ rcv, m ≠ []) : ∀ m ∈ (soCopy len rcv).2, m ≠ [] := by
  induction rcv generalizing len with
  | nil => exact h
  | cons m ms ih =>
    rw [soCopy]
    split_ifs with _ hle
    · exact h
    · exact ih fun x hx => h x (List.mem_cons_of_mem _ hx)
    · intro x hx
      rcases List.mem_cons.mp hx with rfl | hx
      · rw [← List.length_pos_iff, List.length_drop]
        omega
      · exact h x (List.mem_cons_of_mem _ hx)

/-- A call with room for a byte returns one if there is one. -/
lemma soCopy_pos {len : ℕ} {rcv : List Packet} (hlen : 0 < len) (h : ∀ m ∈ rcv, m ≠ []) (hrcv : rcv ≠ []) :
    (soCopy len rcv).1 ≠ [] := by
  cases rcv with
  | nil => exact absurd rfl hrcv
  | cons m ms =>
    have hm : m ≠ [] := h m List.mem_cons_self
    rw [soCopy, if_neg (by omega)]
    split_ifs
    · exact List.append_ne_nil_of_left_ne_nil hm _
    · rw [← List.length_pos_iff, List.length_take]
      have := List.length_pos_iff.mpr hm
      omega

section calls

variable (re : Entry → Net → Except NetStop Net)

/-- `so_rcv.sb_cc`. -/
def Net.sbCc (s : Net) (so : ℕ) : ℕ := (s.socks so).rcv.flatten.length

/-- The polling loop of `soreceive`; `true` if it ends the call. -/
def soreceiveWait (so : ℕ) : ℕ → Net → Except NetStop (Bool × Net)
  | 0, s => .ok (false, s)
  | n + 1, s =>
      if s.sbCc so ≠ 0 then .ok (false, s)
      else do
        let s ← e1000PollRx re s
        if s.sbCc so > 0 then .ok (false, s)
        else if (s.socks so).cantRcvMore then .ok (true, s)
        else soreceiveWait so n s

/-- The end of `soreceive`. -/
def soreceiveTake (s : Net) (so len : ℕ) : NetRc × Packet × Net :=
  let rcv := (s.socks so).rcv
  if rcv = [] then (if (s.socks so).cantRcvMore then .success else .wouldBlock, [], s)
  else
    let (bytes, rest) := soCopy len rcv
    (.success, bytes, (s.setSock so { s.socks so with rcv := rest }).free (rcv.length - rest.length))

/-- Source: `soreceive` -/
def soreceive (s : Net) (so len : ℕ) : Except NetStop (NetRc × Packet × Net) :=
  (soreceiveWait re so 500 s).map fun
    | (true, s) => (.success, [], s)
    | (false, s) => soreceiveTake s so len

/-! ## Connecting and sending -/

/-- The port that `tcp_bind` takes if it is given none, and the counter after it. -/
def nextPort (port : BitVec 16) : BitVec 16 × BitVec 16 :=
  (port, if (port + 1).toNat > 65530 then 49152 else port + 1)

/-- `tcp_bind` to no particular address or port, for the socket with control block `i`.
Source: `tcp_bind`, as `tcp_connect` calls it -/
def tcpAutoBind (s : Net) (i : ℕ) : Net :=
  let (port, next) := nextPort s.ephemeralPort
  let s := { s with ephemeralPort := next }
  if (List.range tcpMaxSockets).any fun j =>
      (s.tcp j).so.isSome ∧ (s.tcp j).bound ∧ (s.tcp j).localPort = port then s
  else s.setTcp i { s.tcp i with localPort := port, localIp := s.defaultIf.ip, bound := true }

/-- `SS_ISCONNECTING` is set, or cleared with a new value for `SS_ISCONNECTED`. -/
def Net.setConnecting (s : Net) (so : ℕ) (connecting connected : Bool) : Net :=
  s.setSock so { s.socks so with isConnecting := connecting, isConnected := connected }

/-- The polling loop of `tcp_connect`, with `n` rounds to go. -/
def tcpConnectWait (so i : ℕ) : ℕ → Net → Except NetStop (NetRc × Net)
  | 0, s =>
      let s := s.setConnecting so false (s.socks so).isConnected
      .ok (.timeout, s.setTcp i { s.tcp i with state := .closed })
  | n + 1, s => do
      let s ← e1000PollRx re s
      if (s.tcp i).state = .established then .ok (.success, s.setConnecting so false true)
      else
        let retry := 999 - n
        if retry % 250 = 0 ∧ retry > 0 then
          let r ← tcpSendPacket re (s.setTcp i { s.tcp i with sndNxt := (s.tcp i).iss }) i thSyn []
          tcpConnectWait so i n r.2
        else tcpConnectWait so i n s

/-- The control block of a connection that is to be made. -/
def connecting (pcb : TcpPcb) (ip : InAddr) (port : BitVec 16) : TcpPcb :=
  { pcb with remoteIp := ip, remotePort := port, state := .synSent }

/-- Source: `tcp_connect` -/
def tcpConnect (s : Net) (so : ℕ) (ip : InAddr) (port : BitVec 16) : Except NetStop (NetRc × Net) :=
  match (s.socks so).pcb with
  | none => .ok (.invalid, s)
  | some i => do
      let s := if (s.tcp i).bound then s else tcpAutoBind s i
      let s := s.setTcp i (connecting (s.tcp i) ip port)
      let s := s.setConnecting so true (s.socks so).isConnected
      let r ← tcpSendPacket re s i thSyn []
      tcpConnectWait re so i 1000 r.2

/-- The largest segment. -/
def tcpMss : ℕ := 1460

/-- The last segment of a call has `TH_PUSH`. -/
def chunkFlags (data : Packet) : BitVec 8 := if data.length ≤ tcpMss then thAck ||| thPush else thAck

/-- The loop of `tcp_send`. Each round sends at least a byte, so as many rounds as there are bytes are enough. -/
def tcpSendChunks (i : ℕ) : ℕ → Packet → Net → Except NetStop (NetRc × Net)
  | 0, _, s => .ok (.success, s)
  | n + 1, data, s =>
      if data = [] then .ok (.success, s)
      else do
        let r ← tcpSendPacket re s i (chunkFlags data) (data.take tcpMss)
        if r.1 ≠ .success then .ok r else tcpSendChunks i n (data.drop tcpMss) r.2

/-- Source: `tcp_send` -/
def tcpSend (s : Net) (so : ℕ) (data : Packet) : Except NetStop (NetRc × Net) :=
  match (s.socks so).pcb with
  | none => .ok (.notConnected, s)
  | some i => if (s.socks so).isConnected then tcpSendChunks re i data.length data s else .ok (.notConnected, s)

end calls

end Chimera
