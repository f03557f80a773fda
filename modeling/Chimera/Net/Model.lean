import Chimera.Net.Packet

/-!
# The network stack: `kernel/net`

What happens when a packet comes in and what is sent in answer: Ethernet, ARP, IP, ICMP, UDP and TCP, with the
interfaces, the ARP cache, the protocol control blocks and the sockets.

The functions call each other in a circle. `ip_output` to the loopback interface calls `ip_input`, and
`arp_resolve` polls the network card for the answer to its request, which calls `if_input`. So everything that
may come back to an input function takes it as the argument `re`, and `receive` closes the circle with fuel.

Conventions.
* An mbuf is its bytes; the pool is the number of free ones. A frame has at most the size of a cluster.
* `if_input` spins forever when the CPU holds `s_net_input_lock` already: `NetStop.deadlock`. The other locks are
  free again before any call that could take them a second time, and are not modelled.
* `card k` are the frames that the `k`-th call of `e1000_poll_rx` finds in the ring; what is sent is recorded in
  `wire`.
* The accept queues `so_q0` and `so_q` are lists in the listening socket. `sb_cc` is the number of bytes in the
  buffer.
* Left out: ping listeners, statistics, `snd_una`, `snd_wnd`, `irs` and what else nothing reads.
-/

namespace Chimera

/-! ## State -/

/-- The part of `ifnet_t` that is read. -/
structure Ifnet where
  mac : Packet
  ip : InAddr
  netmask : InAddr
  bcast : InAddr
  gateway : InAddr
  deriving DecidableEq, Repr

/-- A valid entry of `s_arp_table`. -/
structure ArpEntry where
  ip : InAddr
  mac : Packet
  deriving DecidableEq, Repr

/-- `udp_pcb_t`. -/
structure UdpPcb where
  so : Option ℕ
  localPort : BitVec 16
  bound : Bool
  deriving DecidableEq, Repr

/-- `tcp_state_t`. -/
inductive TcpState where
  | closed | listen | synSent | synReceived | established | closeWait | finWait1 | closing | lastAck
  | finWait2 | timeWait
  deriving DecidableEq, Repr

/-- `tcp_pcb_t`. -/
structure TcpPcb where
  so : Option ℕ
  state : TcpState
  localIp : InAddr
  localPort : BitVec 16
  remoteIp : InAddr
  remotePort : BitVec 16
  iss : BitVec 32
  sndNxt : BitVec 32
  rcvNxt : BitVec 32
  rcvWnd : BitVec 32
  bound : Bool
  deriving DecidableEq, Repr

/-- `socket_t`. -/
structure Socket where
  /-- `so_signature == CHIMERA_SOCKET_MAGIC`. -/
  inUse : Bool
  /-- `so_type == SOCK_STREAM`. -/
  stream : Bool
  /-- `SS_ISCONNECTED`. -/
  isConnected : Bool
  /-- `SS_ISCONNECTING`. -/
  isConnecting : Bool
  /-- `SS_CANTRCVMORE`. -/
  cantRcvMore : Bool
  /-- `so_rcv`: the mbufs that are not read yet. -/
  rcv : List Packet
  pcb : Option ℕ
  head : Option ℕ
  q0 : List ℕ
  q : List ℕ
  qlimit : ℕ
  qlen : ℕ
  deriving DecidableEq, Repr

/-- A socket after `memset`. -/
def Socket.zero : Socket := ⟨false, false, false, false, false, [], none, none, [], [], 0, 0⟩

/-- The network subsystem of a host. -/
structure Net where
  /-- The free mbufs. -/
  mbufs : ℕ
  lo0 : Ifnet
  /-- The network card, if there is one. -/
  en0 : Option Ifnet
  arp : ℕ → Option ArpEntry
  udp : ℕ → UdpPcb
  tcp : ℕ → TcpPcb
  socks : ℕ → Socket
  /-- `s_iss_counter`. -/
  issCounter : BitVec 32
  /-- `s_ephemeral_tcp_port`. -/
  ephemeralPort : BitVec 16
  /-- `s_ip_id_counter`. -/
  ipId : BitVec 16
  /-- The CPU holds `s_net_input_lock`. -/
  inputLock : Bool
  /-- Calls of `e1000_poll_rx` so far. -/
  polls : ℕ
  card : ℕ → List Packet
  wire : List Packet

/-- Why a call does not return. -/
inductive NetStop where
  | deadlock
  | fuel
  deriving DecidableEq, Repr

/-- `chimera_error_t`. -/
inductive NetRc where
  | success | nomem | invalid | overflow | notFound | timeout | busy | notConnected | wouldBlock
  deriving DecidableEq, Repr

/-- A call of an input function. -/
inductive Entry where
  /-- `if_input` of the network card. -/
  | ifInput (m : Packet)
  | ipInput (m : Packet)
  deriving DecidableEq, Repr

/-- `m_free` of `n` mbufs. -/
def Net.free (s : Net) (n : ℕ) : Net := { s with mbufs := s.mbufs + n }

/-- An mbuf is taken from the pool. -/
def Net.take (s : Net) : Net := { s with mbufs := s.mbufs - 1 }

def Net.setTcp (s : Net) (i : ℕ) (pcb : TcpPcb) : Net := { s with tcp := Function.update s.tcp i pcb }

def Net.setSock (s : Net) (i : ℕ) (so : Socket) : Net := { s with socks := Function.update s.socks i so }

def Net.setLock (s : Net) (held : Bool) : Net := { s with inputLock := held }

/-- `MCLBYTES`. -/
def mclBytes : ℕ := 2048

/-- `htonl(INADDR_LOOPBACK)`. -/
def loopbackAddr : InAddr := 0x0100007F

/-- `INADDR_BROADCAST`. -/
def broadcastAddr : InAddr := 0xFFFFFFFF

/-- `ETHERTYPE_IP`. -/
def ethertypeIp : BitVec 16 := 0x0800

/-- `ETHERTYPE_ARP`. -/
def ethertypeArp : BitVec 16 := 0x0806

/-! ## The network card -/

/-- The mbufs that fit into `packet_buf`, one after the other. -/
def gather : ℕ → List Packet → Packet
  | _, [] => []
  | total, m :: ms => if total + m.length ≤ 1536 then m ++ gather (total + m.length) ms else []

/-- Frames are padded to 60 bytes.
Source: `e1000_ifnet_output`, `e1000_transmit_frame` -/
def e1000Output (s : Net) (m : List Packet) : NetRc × Net :=
  let frame := gather 0 m
  let s := s.free m.length
  if frame = [] then (.invalid, s)
  else (.success, { s with wire := s.wire ++ [frame ++ List.replicate (60 - frame.length) 0] })

section input

variable (re : Entry → Net → Except NetStop Net)

/-- The frames go to `if_input` in order; one without an mbuf is dropped. -/
def passFrames : List Packet → Net → Except NetStop Net
  | [], s => .ok s
  | frame :: frames, s =>
      if frame = [] ∨ s.mbufs = 0 then passFrames frames s
      else do
        let s ← re (.ifInput frame) s.take
        passFrames frames s

/-- Source: `e1000_poll_rx` -/
def e1000PollRx (s : Net) : Except NetStop Net :=
  match s.en0 with
  | none => .ok s
  | some _ => passFrames re (s.card s.polls) { s with polls := s.polls + 1 }

/-! ## ARP and Ethernet output -/

/-- `ARP_TABLE_SIZE`. -/
def arpTableSize : ℕ := 64

/-- The first entry for an address. -/
def arpFind (arp : ℕ → Option ArpEntry) (ip : InAddr) : Option ℕ :=
  (List.range arpTableSize).find? fun i => (arp i).any fun e => e.ip = ip

/-- The address in the table. -/
def arpLookup (arp : ℕ → Option ArpEntry) (ip : InAddr) : Option Packet :=
  (arpFind arp ip).bind fun i => (arp i).map ArpEntry.mac

/-- When all entries are in use the first one is replaced.
Source: `arp_cache_insert` -/
def arpCacheInsert (arp : ℕ → Option ArpEntry) (ip : InAddr) (mac : Packet) : ℕ → Option ArpEntry :=
  match arpFind arp ip with
  | some i => Function.update arp i (some ⟨ip, mac⟩)
  | none =>
      match (List.range arpTableSize).find? fun i => (arp i).isNone with
      | some i => Function.update arp i (some ⟨ip, mac⟩)
      | none => Function.update arp 0 (some ⟨ip, mac⟩)

/-- The end of `ethernet_output`: the header goes in front. -/
def etherSend (s : Net) (ifp : Ifnet) (mac : Packet) (m : List Packet) (ethertype : BitVec 16) :
    NetRc × Net :=
  if s.mbufs = 0 then (.nomem, s.free m.length)
  else e1000Output s.take ((mac ++ ifp.mac ++ putBe16 ethertype) :: m)

/-- `ether_arp_t`. -/
def arpBytes (op : BitVec 16) (ifp : Ifnet) (tha : Packet) (tpa : InAddr) : Packet :=
  putBe16 1 ++ putBe16 ethertypeIp ++ [6, 4] ++ putBe16 op ++ ifp.mac ++ putLe32 ifp.ip ++ tha ++ putLe32 tpa

/-- A broadcast, so that no address has to be resolved.
Source: `arp_send_request` -/
def arpSendRequest (s : Net) (ifp : Ifnet) (target : InAddr) : Net :=
  if s.mbufs = 0 then s
  else
    (etherSend s.take ifp (List.replicate 6 0xFF) [arpBytes 1 ifp (List.replicate 6 0) target]
      ethertypeArp).2

/-- Addresses outside of the network are reached through the gateway. -/
def nextHop (ifp : Ifnet) (dst : InAddr) : InAddr :=
  if ifp.gateway ≠ 0 ∧ dst &&& ifp.netmask ≠ ifp.ip &&& ifp.netmask then ifp.gateway else dst

/-- The retry loop of `arp_resolve`. -/
def arpWait (ip : InAddr) : ℕ → Net → Except NetStop (Option Packet × Net)
  | 0, s => .ok (none, s)
  | n + 1, s => do
      let s ← e1000PollRx re s
      match arpLookup s.arp ip with
      | some mac => .ok (some mac, s)
      | none => arpWait ip n s

/-- Source: `arp_resolve` -/
def arpResolve (s : Net) (ifp : Ifnet) (dst : InAddr) : Except NetStop (Option Packet × Net) :=
  let dst := nextHop ifp dst
  match arpLookup s.arp dst with
  | some mac => .ok (some mac, s)
  | none => arpWait re dst 500 (arpSendRequest s ifp dst)

/-- Sent to everybody. -/
def isBroadcast (ifp : Ifnet) (dst : InAddr) : Prop :=
  dst = broadcastAddr ∨ (ifp.bcast ≠ 0 ∧ dst = ifp.bcast)

instance (ifp : Ifnet) (dst : InAddr) : Decidable (isBroadcast ifp dst) := instDecidableOr

/-- Source: `ethernet_output` -/
def ethernetOutput (s : Net) (ifp : Ifnet) (m : List Packet) (dst : InAddr) (ethertype : BitVec 16) :
    Except NetStop (NetRc × Net) :=
  if isBroadcast ifp dst then .ok (etherSend s ifp (List.replicate 6 0xFF) m ethertype)
  else
    (arpResolve re s ifp (nextHop ifp dst)).map fun
      | (none, s) => (.timeout, s.free m.length)
      | (some mac, s) => etherSend s ifp mac m ethertype

/-! ## IP output -/

/-- Source: `if_get_default` -/
def Net.defaultIf (s : Net) : Ifnet := s.en0.getD s.lo0

/-- The header of `ip_output`, for a payload of `len` bytes. -/
def ipHeader (id : BitVec 16) (proto : BitVec 8) (src dst : InAddr) (len : ℕ) : Packet :=
  let header (sum : BitVec 16) : Packet :=
    [0x45, 0] ++ putBe16 (BitVec.ofNat 16 (20 + len)) ++ putBe16 id ++ putBe16 0x4000 ++ [64, proto] ++
      putLe16 sum ++ putLe32 src ++ putLe32 dst
  header (inChecksum (header 0))

/-- `s_ip_id_counter++`. -/
def Net.nextIpId (s : Net) : Net := { s with ipId := s.ipId + 1 }

/-- Delivery to the host itself: the packet is copied into one cluster. -/
def loopbackOutput (s : Net) (hdr m : Packet) : Except NetStop (NetRc × Net) :=
  if hdr.length + m.length > mclBytes then .ok (.overflow, s.free 2)
  else if s.mbufs = 0 then .ok (.nomem, s.free 2)
  else (re (.ipInput (hdr ++ m)) (s.take.free 2)).map fun s => (.success, s)

/-- Either side is the host itself. -/
def isLoopback (src dst : InAddr) : Bool := dst = loopbackAddr ∨ src = loopbackAddr

/-- A packet with its header goes to the interface. Without a card the default interface is `lo0` too. -/
def ipRoute (s : Net) (hdr m : Packet) (src dst : InAddr) : Except NetStop (NetRc × Net) :=
  if isLoopback src dst then loopbackOutput re s hdr m
  else
    match s.en0 with
    | none => loopbackOutput re s hdr m
    | some ifp => ethernetOutput re s ifp [hdr, m] dst ethertypeIp

/-- Source: `ip_output` -/
def ipOutput (s : Net) (m : Packet) (src dst : InAddr) (proto : BitVec 8) : Except NetStop (NetRc × Net) :=
  let ifp := if isLoopback src dst then s.lo0 else s.defaultIf
  if s.mbufs = 0 then .ok (.nomem, s.free 1)
  else
    ipRoute re s.take.nextIpId
      (ipHeader s.ipId proto (if src = 0 then ifp.ip else src) dst m.length) m src dst

/-! ## ARP input -/

/-- Source: `arp_send_reply` -/
def arpSendReply (s : Net) (ifp : Ifnet) (sha : Packet) (spa : InAddr) : Except NetStop Net :=
  if s.mbufs = 0 then .ok s
  else (ethernetOutput re s.take ifp [arpBytes 2 ifp sha spa] spa ethertypeArp).map Prod.snd

/-- Senders whose addresses are not taken over. -/
def badSender (ifp : Ifnet) (sha : Packet) (spa : InAddr) : Prop :=
  byteAt sha 0 &&& 1 ≠ 0 ∨ sha = List.replicate 6 0 ∨ spa = 0 ∨ spa = broadcastAddr ∨ spa = ifp.ip

instance (ifp : Ifnet) (sha : Packet) (spa : InAddr) : Decidable (badSender ifp sha spa) := instDecidableOr

/-- Source: `arp_input` -/
def arpInput (s : Net) (ifp : Ifnet) (m : Packet) : Except NetStop Net :=
  let s := s.free 1
  if m.length < 28 then .ok s
  else if getBe16 m 0 ≠ 1 ∨ getBe16 m 2 ≠ ethertypeIp then .ok s
  else
    let sha := (m.drop 8).take 6
    let spa := getLe32 m 14
    if badSender ifp sha spa then .ok s
    else if getBe16 m 6 = 1 ∧ getLe32 m 24 = ifp.ip then
      arpSendReply re { s with arp := arpCacheInsert s.arp spa sha } ifp sha spa
    else if getBe16 m 6 = 2 ∧ getLe32 m 24 = ifp.ip then
      .ok { s with arp := arpCacheInsert s.arp spa sha }
    else .ok s

/-! ## Sockets -/

/-- Source: `sbappend` -/
def sbappend (s : Net) (so : ℕ) (m : Packet) : Net :=
  s.setSock so { s.socks so with rcv := (s.socks so).rcv ++ [m] }

/-- `MAX_SOCKETS`. -/
def maxSockets : ℕ := 128

/-- The first socket that is not in use. -/
def freeSocket (s : Net) : Option ℕ := (List.range maxSockets).find? fun i => ¬ (s.socks i).inUse

/-- A socket in the incomplete queue of a listening one.
Source: `so_new_child` -/
def soNewChild (s : Net) (head : ℕ) : Option (ℕ × Net) :=
  (freeSocket s).map fun i =>
    let s := s.setSock i { Socket.zero with
      inUse := true, stream := (s.socks head).stream, head := some head }
    (i, s.setSock head { s.socks head with q0 := i :: (s.socks head).q0 })

/-- From the incomplete queue to the accept queue.
Source: `so_q0_to_q` -/
def soQ0ToQ (s : Net) (child : ℕ) : Net :=
  match (s.socks child).head with
  | none => s
  | some head =>
      if child ∈ (s.socks head).q0 then
        s.setSock head { s.socks head with
          q0 := (s.socks head).q0.erase child, q := (s.socks head).q ++ [child],
          qlen := (s.socks head).qlen + 1 }
      else s

/-- Source: `so_discard_child`, `so_free` -/
def soDiscardChild (s : Net) (child : ℕ) : Net :=
  let s := match (s.socks child).head with
    | none => s
    | some head => s.setSock head { s.socks head with q0 := (s.socks head).q0.erase child }
  s.setSock child { s.socks child with inUse := false, pcb := none }

/-! ## ICMP and UDP -/

/-- An echo request is answered with its own data.
Source: `icmp_input` -/
def icmpInput (s : Net) (m : Packet) (src dst : InAddr) : Except NetStop Net :=
  if m.length < 8 then .ok (s.free 1)
  else if byteAt m 0 = 8 then
    let body := m.drop 4
    let sum := inChecksum (([0, 0, 0, 0] ++ body).take 1024)
    (ipOutput re s ([0, 0] ++ putLe16 sum ++ body) dst src 1).map Prod.snd
  else .ok (s.free 1)

/-- `UDP_MAX_SOCKETS`. -/
def udpMaxSockets : ℕ := 64

/-- Source: `udp_input` -/
def udpInput (s : Net) (m : Packet) : Net :=
  if m.length < 8 then s.free 1
  else if (getBe16 m 4).toNat < 8 ∨ m.length < (getBe16 m 4).toNat then s.free 1
  else
    match (List.range udpMaxSockets).findSome? fun i =>
        if (s.udp i).bound ∧ (s.udp i).localPort = getBe16 m 2 then (s.udp i).so else none with
    | some so => sbappend s so (m.drop 8)
    | none => s.free 1

/-! ## TCP -/

/-- `TCP_MAX_SOCKETS`. -/
def tcpMaxSockets : ℕ := 64

/-- What `tcp_send_packet` counts: a `SYN` or `FIN` takes one number, data one for each byte. -/
def sndAdvance (flags : BitVec 8) (data : Packet) : BitVec 32 :=
  if flags &&& (thSyn ||| thFin) ≠ 0 then 1 else BitVec.ofNat 32 data.length

/-- A connection without a local address gets that of the default interface. -/
def fillLocalIp (s : Net) (i : ℕ) : Net :=
  s.setTcp i { s.tcp i with localIp := if (s.tcp i).localIp = 0 then s.defaultIf.ip else (s.tcp i).localIp }

/-- The next segment of a connection. -/
def TcpPcb.segment (pcb : TcpPcb) (flags : BitVec 8) (data : Packet) : TcpSegment :=
  ⟨pcb.localPort, pcb.remotePort, pcb.sndNxt, pcb.rcvNxt, flags, data⟩

/-- The control block after it. -/
def TcpPcb.sent (pcb : TcpPcb) (flags : BitVec 8) (data : Packet) : TcpPcb :=
  { pcb with sndNxt := pcb.sndNxt + sndAdvance flags data }

/-- The bytes of it. -/
def TcpPcb.bytes (pcb : TcpPcb) (flags : BitVec 8) (data : Packet) : Packet :=
  tcpBytes pcb.localIp pcb.remoteIp (pcb.segment flags data) (pcb.rcvWnd.setWidth 16)

/-- The end of `tcp_send_packet`. -/
def tcpTransmit (s : Net) (i : ℕ) (flags : BitVec 8) (data : Packet) : Except NetStop (NetRc × Net) :=
  ipOutput re (s.take.setTcp i ((s.tcp i).sent flags data)) ((s.tcp i).bytes flags data) (s.tcp i).localIp
    (s.tcp i).remoteIp ipprotoTcp

/-- Source: `tcp_send_packet` -/
def tcpSendPacket (s : Net) (i : ℕ) (flags : BitVec 8) (data : Packet) : Except NetStop (NetRc × Net) :=
  let s := fillLocalIp s i
  if s.mbufs = 0 then .ok (.nomem, s)
  else if data.length > mclBytes - (20 + (tcpOptions flags).length) - 64 then .ok (.overflow, s)
  else tcpTransmit re s i flags data

/-- The socket and the control block of a new connection.
Source: `tcp_alloc_child` -/
def tcpAllocChild (s : Net) (listener : ℕ) (listenSo : ℕ) (localIp remoteIp : InAddr) (remotePort : BitVec 16)
    (irs : BitVec 32) : Option ℕ × Net :=
  match soNewChild s listenSo with
  | none => (none, s)
  | some (childSo, s) =>
      match (List.range tcpMaxSockets).find? fun i => (s.tcp i).so.isNone with
      | none => (none, soDiscardChild s childSo)
      | some i =>
          let iss := s.issCounter + 64000
          let s := { s with issCounter := iss }.setTcp i
            ⟨some childSo, .synReceived, localIp, (s.tcp listener).localPort, remoteIp, remotePort, iss, iss,
              irs + 1, 65535, true⟩
          (some i, s.setSock childSo { s.socks childSo with pcb := some i, isConnected := true })

/-- A control block of exactly this connection. -/
def TcpPcb.isExact (pcb : TcpPcb) (src : InAddr) (sport dport : BitVec 16) : Bool :=
  pcb.so.isSome ∧ pcb.bound ∧ pcb.localPort = dport ∧ pcb.state ≠ .listen ∧ pcb.remoteIp = src ∧
    pcb.remotePort = sport

/-- A listening control block for a port. -/
def TcpPcb.isListener (pcb : TcpPcb) (dport : BitVec 16) : Bool :=
  pcb.so.isSome ∧ pcb.bound ∧ pcb.localPort = dport ∧ pcb.state = .listen

/-- The control block that a segment is for. -/
def tcpDemux (s : Net) (src : InAddr) (seg : TcpSegment) : Option ℕ :=
  match (List.range tcpMaxSockets).find? fun i => (s.tcp i).isExact src seg.sport seg.dport with
  | some i => some i
  | none =>
      if seg.has thSyn ∧ ¬ seg.has thAck then
        (List.range tcpMaxSockets).find? fun i => (s.tcp i).isListener seg.dport
      else none

/-- What a segment does to a connection. -/
structure TcpOutcome where
  pcb : TcpPcb
  /-- The connection moves to the accept queue. -/
  accept : Bool
  /-- The data go to the receive buffer. -/
  deliver : Bool
  /-- `SS_CANTRCVMORE`. -/
  eof : Bool
  /-- A `TH_ACK` is sent. -/
  ack : Bool
  deriving DecidableEq, Repr

/-- The state transitions of `tcp_input`, for a control block that does not listen. -/
def tcpOutcome (pcb : TcpPcb) (seg : TcpSegment) : TcpOutcome :=
  let len := BitVec.ofNat 32 seg.payload.length
  if pcb.state = .synReceived ∧ seg.has thAck then
    if seg.ack = pcb.sndNxt then
      if seg.payload ≠ [] then
        ⟨{ pcb with state := .established, rcvNxt := pcb.rcvNxt + len }, true, true, false, false⟩
      else ⟨{ pcb with state := .established }, true, false, false, false⟩
    else ⟨pcb, false, false, false, false⟩
  else if pcb.state = .synSent ∧ seg.has (thSyn ||| thAck) then
    ⟨{ pcb with rcvNxt := seg.seq + 1, state := .established }, false, false, false, true⟩
  else if pcb.state = .established then
    if seg.payload ≠ [] ∧ seg.seq ≠ pcb.rcvNxt then ⟨pcb, false, false, false, false⟩
    else if seg.payload ≠ [] then
      ⟨{ pcb with rcvNxt := pcb.rcvNxt + len }, false, true, false, true⟩
    else if seg.has thFin then
      ⟨{ pcb with rcvNxt := pcb.rcvNxt + 1, state := .closeWait }, false, false, true, true⟩
    else ⟨pcb, false, false, false, false⟩
  else ⟨pcb, false, false, false, false⟩

/-- What `tcp_input` does before it sends anything. -/
def applyOutcome (s : Net) (i so : ℕ) (o : TcpOutcome) (m : Packet) : Net :=
  let s := s.setTcp i o.pcb
  let s := if o.accept then soQ0ToQ s so else s
  let s := if o.deliver then sbappend s so m else s
  if o.eof then s.setSock so { s.socks so with cantRcvMore := true } else s

/-- A connection request to a listening socket. -/
def tcpListenInput (s : Net) (i so : ℕ) (src dst : InAddr) (seg : TcpSegment) : Except NetStop Net :=
  if (s.socks so).qlimit ≤ (s.socks so).qlen then .ok (s.free 1)
  else
    match tcpAllocChild s i so dst src seg.sport seg.seq with
    | (none, s) => .ok (s.free 1)
    | (some child, s) => (tcpSendPacket re s child (thSyn ||| thAck) []).map fun r => r.2.free 1

/-- The answer to a segment. -/
def tcpReply (s : Net) (i : ℕ) (ack : Bool) : Except NetStop Net :=
  if ack then (tcpSendPacket re s i thAck []).map Prod.snd else .ok s

/-- A segment for a connection. -/
def tcpConnInput (s : Net) (i so : ℕ) (seg : TcpSegment) : Except NetStop Net :=
  let o := tcpOutcome (s.tcp i) seg
  (tcpReply re (applyOutcome s i so o seg.payload) i o.ack).map fun s =>
    if o.deliver then s else s.free 1

/-- The end of `tcp_input`: a segment goes to its control block. -/
def tcpDispatch (s : Net) (src dst : InAddr) (seg : TcpSegment) : Except NetStop Net :=
  match tcpDemux s src seg with
  | none => .ok (s.free 1)
  | some i =>
      match (s.tcp i).so with
      | none => .ok (s.free 1)
      | some so =>
          if (s.tcp i).state = .listen then tcpListenInput re s i so src dst seg
          else tcpConnInput re s i so seg

/-- Source: `tcp_input` -/
def tcpInput (s : Net) (m : Packet) (src dst : InAddr) : Except NetStop Net :=
  match parseTcp src dst m with
  | none => .ok (s.free 1)
  | some seg => tcpDispatch re s src dst seg

/-! ## Input -/

/-- Source: `ip_input` -/
def ipInput (s : Net) (m : Packet) : Except NetStop Net :=
  if m.length < 20 then .ok (s.free 1)
  else if (byteAt m 0).toNat / 16 ≠ 4 then .ok (s.free 1)
  else
    let hlen := (byteAt m 0).toNat % 16 * 4
    if hlen < 20 ∨ m.length < hlen then .ok (s.free 1)
    else
      let src := getLe32 m 12
      let dst := getLe32 m 16
      let proto := byteAt m 9
      if proto = 1 then icmpInput re s (m.drop hlen) src dst
      else if proto = 17 then .ok (udpInput s (m.drop hlen))
      else if proto = ipprotoTcp then tcpInput re s (m.drop hlen) src dst
      else .ok (s.free 1)

/-- Source: `ethernet_input` -/
def ethernetInput (s : Net) (ifp : Ifnet) (m : Packet) : Except NetStop Net :=
  if m.length < 14 then .ok (s.free 1)
  else if getBe16 m 12 = ethertypeArp then arpInput re s ifp (m.drop 14)
  else if getBe16 m 12 = ethertypeIp then ipInput re s (m.drop 14)
  else .ok (s.free 1)

/-- Source: `if_input`, `_net_input_inner` -/
def ifInput (s : Net) (m : Packet) : Except NetStop Net :=
  if s.inputLock then .error .deadlock
  else
    match s.en0 with
    | none => .ok s
    | some ifp => (ethernetInput re (s.setLock true) ifp m).map fun s => s.setLock false

end input

/-- The input functions, with as many nested calls as there is fuel. -/
def receive : ℕ → Entry → Net → Except NetStop Net
  | 0, _, _ => .error .fuel
  | n + 1, .ifInput m, s => ifInput (receive n) s m
  | n + 1, .ipInput m, s => ipInput (receive n) s m

end Chimera
