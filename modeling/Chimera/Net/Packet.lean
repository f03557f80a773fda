import Chimera.Lib.OnesSum

/-!
# Packets: `kernel/include/net/protocols.h`, `kernel/net/ip.c`

The headers of the protocols as bytes. Ports, sequence numbers and lengths are in network order. An address is
kept as the 32-bit word of `in_addr`, whose bytes in memory are those on the wire.

What `tcp_send_packet` builds is what `tcp_input` reads: `parseTcp_tcpBytes` says that the checksum that it
puts in is accepted and that every field comes back.
-/

namespace Chimera

open Lib
open BitVec (toNat_ofNat)

/-- The bytes of a packet. -/
abbrev Packet := List (BitVec 8)

/-- `in_addr`. -/
abbrev InAddr := BitVec 32

/-! ## Fields -/

/-- `htons` of a field in memory. -/
def putBe16 (x : BitVec 16) : Packet := [BitVec.ofNat 8 (x.toNat / 256), BitVec.ofNat 8 x.toNat]

/-- `htonl` of a field in memory. -/
def putBe32 (x : BitVec 32) : Packet :=
  [BitVec.ofNat 8 (x.toNat / 256 ^ 3), BitVec.ofNat 8 (x.toNat / 256 ^ 2), BitVec.ofNat 8 (x.toNat / 256),
    BitVec.ofNat 8 x.toNat]

/-- A 16-bit word as it is in memory. -/
def putLe16 (x : BitVec 16) : Packet := [BitVec.ofNat 8 x.toNat, BitVec.ofNat 8 (x.toNat / 256)]

/-- A 32-bit word as it is in memory. -/
def putLe32 (x : BitVec 32) : Packet :=
  [BitVec.ofNat 8 x.toNat, BitVec.ofNat 8 (x.toNat / 256), BitVec.ofNat 8 (x.toNat / 256 ^ 2),
    BitVec.ofNat 8 (x.toNat / 256 ^ 3)]

/-- Byte `i` of a packet. -/
def byteAt (m : Packet) (i : ℕ) : BitVec 8 := m.getD i 0

/-- The number of two bytes, the higher one first. -/
def join16 (a b : BitVec 8) : BitVec 16 := BitVec.ofNat 16 (a.toNat * 256 + b.toNat)

/-- The number of four bytes, the highest one first. -/
def join32 (a b c d : BitVec 8) : BitVec 32 :=
  BitVec.ofNat 32 (a.toNat * 256 ^ 3 + b.toNat * 256 ^ 2 + c.toNat * 256 + d.toNat)

/-- `ntohs` of the field at `i`. -/
def getBe16 (m : Packet) (i : ℕ) : BitVec 16 := join16 (byteAt m i) (byteAt m (i + 1))

/-- `ntohl` of the field at `i`. -/
def getBe32 (m : Packet) (i : ℕ) : BitVec 32 :=
  join32 (byteAt m i) (byteAt m (i + 1)) (byteAt m (i + 2)) (byteAt m (i + 3))

/-- The word at `i` as it is in memory. -/
def getLe32 (m : Packet) (i : ℕ) : BitVec 32 :=
  join32 (byteAt m (i + 3)) (byteAt m (i + 2)) (byteAt m (i + 1)) (byteAt m i)

lemma join16_bytes (x : BitVec 16) : join16 (BitVec.ofNat 8 (x.toNat / 256)) (BitVec.ofNat 8 x.toNat) = x := by
  apply BitVec.eq_of_toNat_eq
  have hx := x.isLt
  rw [join16, toNat_ofNat, toNat_ofNat, toNat_ofNat]
  omega

lemma join32_bytes (x : BitVec 32) : join32 (BitVec.ofNat 8 (x.toNat / 256 ^ 3)) (BitVec.ofNat 8 (x.toNat / 256 ^ 2))
      (BitVec.ofNat 8 (x.toNat / 256)) (BitVec.ofNat 8 x.toNat) = x := by
  apply BitVec.eq_of_toNat_eq
  have hx := x.isLt
  rw [join32, toNat_ofNat, toNat_ofNat, toNat_ofNat, toNat_ofNat, toNat_ofNat]
  omega

/-! ## Checksums -/

/-- The sum of the 16-bit words of a packet; an odd byte at the end counts as the low byte of a word. -/
def wordSum : Packet → ℕ
  | [] => 0
  | [a] => a.toNat
  | a :: b :: m => a.toNat + 256 * b.toNat + wordSum m

/-- Words are summed one after the other. -/
lemma wordSum_append (ys : Packet) {xs : Packet} (heven : xs.length % 2 = 0) :
    wordSum (xs ++ ys) = wordSum xs + wordSum ys := by
  fun_induction wordSum xs with
  | case1 => rw [List.nil_append, Nat.zero_add]
  | case2 a => exact absurd heven nofun
  | case3 a b m ih =>
    rw [List.length_cons, List.length_cons] at heven
    rw [List.cons_append, List.cons_append, wordSum, ih (by omega)]
    omega

lemma wordSum_putLe16 (x : BitVec 16) : wordSum (putLe16 x) = x.toNat := by
  have hx := x.isLt
  rw [putLe16, wordSum, wordSum, toNat_ofNat, toNat_ofNat]
  omega

lemma length_putLe16 (x : BitVec 16) : (putLe16 x).length % 2 = 0 := by
  rw [putLe16, List.length_cons, List.length_singleton]

lemma wordSum_middle {xs ys : Packet} (heven : xs.length % 2 = 0) (x : BitVec 16) :
    wordSum (xs ++ (putLe16 x ++ ys)) = wordSum xs + (x.toNat + wordSum ys) := by
  rw [wordSum_append _ heven, wordSum_append ys (length_putLe16 x), wordSum_putLe16]

/-- Source: `htons` -/
def swap16 (x : BitVec 16) : ℕ := x.toNat % 256 * 256 + x.toNat / 256

/-- The complement of the folded sum over the words and what is added to them. -/
def checksumFrom (base : ℕ) (m : Packet) : BitVec 16 := ~~~BitVec.ofNat 16 (fold16 ((base + wordSum m) % 2 ^ 32))

/-- Source: `in_checksum` -/
def inChecksum : Packet → BitVec 16 := checksumFrom 0

/-- The sum over the pseudo header. -/
def pseudoSum (src dst : InAddr) (proto : BitVec 8) (protoLen : BitVec 16) : ℕ :=
  src.toNat / 65536 + src.toNat % 65536 + dst.toNat / 65536 + dst.toNat % 65536 +
    swap16 (proto.setWidth 16) + swap16 protoLen

/-- Source: `in_pseudo_checksum` -/
def inPseudoChecksum (src dst : InAddr) (proto : BitVec 8) (protoLen : BitVec 16) : Packet → BitVec 16 :=
  checksumFrom (pseudoSum src dst proto protoLen)

lemma swap16_lt (x : BitVec 16) : swap16 x < 65536 := by
  have hx := x.isLt
  unfold swap16
  omega

lemma pseudoSum_lt (src dst : InAddr) (proto : BitVec 8) (protoLen : BitVec 16) :
    pseudoSum src dst proto protoLen < 2 ^ 20 := by
  have hsrc := src.isLt
  have hdst := dst.isLt
  have hproto := swap16_lt (proto.setWidth 16)
  have hlen := swap16_lt protoLen
  unfold pseudoSum
  omega

lemma wordSum_le (m : Packet) : wordSum m ≤ 32768 * m.length := by
  fun_induction wordSum m with
  | case1 => exact le_rfl
  | case2 a =>
    have ha := a.isLt
    rw [List.length_singleton]
    omega
  | case3 a b m ih =>
    have ha := a.isLt
    have hb := b.isLt
    rw [List.length_cons, List.length_cons]
    omega

section checksum

variable {base : ℕ} {m pre post : Packet} (hbase : base < 2 ^ 20)
include hbase

lemma checksumSum_lt (hm : m.length ≤ 65535) : base + wordSum m < 2 ^ 32 := by
  have hword := wordSum_le m
  omega

lemma toNat_checksumFrom (hm : m.length ≤ 65535) :
    (checksumFrom base m).toNat = 65535 - fold16 (base + wordSum m) := by
  have hlt := checksumSum_lt hbase hm
  rw [checksumFrom, Nat.mod_eq_of_lt hlt, BitVec.toNat_not, toNat_ofNat, Nat.mod_eq_of_lt (fold16_lt hlt)]

/-- **A checksum that was stored is accepted.** -/
lemma checksumFrom_stored (heven : pre.length % 2 = 0) (hlen : ∀ x, (pre ++ (putLe16 x ++ post)).length ≤ 65535) :
    checksumFrom base (pre ++ (putLe16 (checksumFrom base (pre ++ (putLe16 0 ++ post))) ++ post)) = 0 := by
  have hzero : base + wordSum (pre ++ (putLe16 0 ++ post)) = base + (wordSum pre + wordSum post) := by
    rw [wordSum_middle heven]
    exact congrArg (fun n => base + (wordSum pre + n)) (Nat.zero_add _)
  have hlt := checksumSum_lt hbase (hlen 0)
  apply BitVec.eq_of_toNat_eq
  rw [toNat_checksumFrom hbase (hlen _), wordSum_middle heven, toNat_checksumFrom hbase (hlen 0), hzero]
  rw [hzero] at hlt
  have hsum : base + (wordSum pre + (65535 - fold16 (base + (wordSum pre + wordSum post)) + wordSum post)) =
      base + (wordSum pre + wordSum post) + (65535 - fold16 (base + (wordSum pre + wordSum post))) := by omega
  rw [hsum, fold16_complement hlt]
  rfl

/-- The sum of a packet that is accepted. -/
lemma dvd_of_checksumFrom (hm : m.length ≤ 65535) (h : checksumFrom base m = 0) : 65535 ∣ base + wordSum m := by
  have hlt := checksumSum_lt hbase hm
  have hfold := fold16_lt hlt
  have hnat := toNat_checksumFrom hbase hm
  obtain ⟨k, -, hk⟩ := fold16_add_mul hlt
  rw [h] at hnat
  change 0 = _ at hnat
  exact ⟨k + 1, by omega⟩

end checksum

/-- Bit `j` of byte `i` is flipped. -/
def flipBit (m : Packet) (i j : ℕ) : Packet := m.modify i fun a => a ^^^ (1#8 <<< j)

/-- Another byte is another sum, also up to multiples of `65535`. -/
lemma wordSum_modify {f : BitVec 8 → BitVec 8} (hf : ∀ a, f a ≠ a) {m : Packet} {i : ℕ} (hi : i < m.length) :
    wordSum (m.modify i f) ≠ wordSum m ∧ wordSum (m.modify i f) < wordSum m + 65535 ∧
      wordSum m < wordSum (m.modify i f) + 65535 := by
  have hbyte : ∀ a, (f a).toNat ≠ a.toNat ∧ (f a).toNat < 256 ∧ a.toNat < 256 := fun a =>
    ⟨fun h => hf a (BitVec.eq_of_toNat_eq h), (f a).isLt, a.isLt⟩
  fun_induction wordSum m generalizing i with
  | case1 => cases hi
  | case2 a =>
    obtain rfl : i = 0 := by simpa using hi
    have ha := hbyte a
    simp only [List.modify_zero_cons, wordSum]
    omega
  | case3 a b m ih =>
    rcases i with _ | _ | i
    · have ha := hbyte a
      simp only [List.modify_zero_cons, wordSum]
      omega
    · have hb := hbyte b
      simp only [List.modify_succ_cons, List.modify_zero_cons, wordSum]
      omega
    · have hrest := ih (i := i) (by simpa using hi)
      simp only [List.modify_succ_cons, wordSum]
      omega

/-- **The checksum law.** A packet with its checksum in the field is accepted, and with one bit flipped it is not. -/
theorem checksum_law {pre post : Packet} (heven : pre.length % 2 = 0) (hlen : pre.length + 2 + post.length ≤ 65535)
    {c : Packet → BitVec 16}
    (hc : c = inChecksum ∨ ∃ src dst proto protoLen, c = inPseudoChecksum src dst proto protoLen) :
    let m := pre ++ (putLe16 (c (pre ++ (putLe16 0 ++ post))) ++ post)
    c m = 0 ∧ ∀ i < m.length, ∀ j < 8, c (flipBit m i j) ≠ 0 := by
  obtain ⟨base, hbase, rfl⟩ : ∃ base < 2 ^ 20, c = checksumFrom base := by
    rcases hc with rfl | ⟨src, dst, proto, protoLen, rfl⟩
    · exact ⟨0, by decide, rfl⟩
    · exact ⟨_, pseudoSum_lt .., rfl⟩
  have hfits : ∀ x, (pre ++ (putLe16 x ++ post)).length ≤ 65535 := by
    intro x
    simp only [putLe16, List.length_append, List.length_cons, List.length_nil]
    omega
  intro m
  have hm : checksumFrom base m = 0 := checksumFrom_stored hbase heven hfits
  refine ⟨hm, fun i hi j hj hflip => ?_⟩
  have hne : ∀ a : BitVec 8, a ^^^ (1#8 <<< j) ≠ a := by
    intro a h
    interval_cases j <;> simp at h
  have hdiff := wordSum_modify hne hi
  have hdvd : 65535 ∣ base + wordSum m := dvd_of_checksumFrom hbase (hfits _) hm
  have hdvd' := dvd_of_checksumFrom hbase (by rw [flipBit, List.length_modify]; exact hfits _) hflip
  rw [flipBit] at hdvd'
  omega

/-- A word after its checksum. -/
theorem checksum_law_word : inChecksum (putLe16 (inChecksum (putLe16 0 ++ [1, 2])) ++ [1, 2]) = 0 ∧
    ∀ i < 4, ∀ j < 8, inChecksum (flipBit (putLe16 (inChecksum (putLe16 0 ++ [1, 2])) ++ [1, 2]) i j) ≠ 0 :=
  @checksum_law [] [1, 2] rfl (by decide) _ (.inl rfl)

/-! ## TCP segments -/

/-- `TH_FIN`. -/
def thFin : BitVec 8 := 0x01
/-- `TH_SYN`. -/
def thSyn : BitVec 8 := 0x02
/-- `TH_PUSH`. -/
def thPush : BitVec 8 := 0x08
/-- `TH_ACK`. -/
def thAck : BitVec 8 := 0x10

/-- `IPPROTO_TCP`. -/
def ipprotoTcp : BitVec 8 := 6

/-- The fields of a segment that `tcp_input` uses. -/
structure TcpSegment where
  sport : BitVec 16
  dport : BitVec 16
  seq : BitVec 32
  ack : BitVec 32
  flags : BitVec 8
  payload : Packet
  deriving DecidableEq, Repr

/-- `th_flags & flag`. -/
def TcpSegment.has (seg : TcpSegment) (flag : BitVec 8) : Bool := seg.flags &&& flag ≠ 0

/-- The first part of `tcp_input`: a segment of at least a header whose checksum is right. -/
def parseTcp (src dst : InAddr) (m : Packet) : Option TcpSegment :=
  if m.length < 20 then none
  else if inPseudoChecksum src dst ipprotoTcp (BitVec.ofNat 16 m.length) m ≠ 0 then none
  else
    let hlen := (byteAt m 12).toNat / 16 * 4
    if hlen < 20 ∨ m.length < hlen then none
    else some ⟨getBe16 m 0, getBe16 m 2, getBe32 m 4, getBe32 m 8, byteAt m 13, m.drop hlen⟩

/-- The maximum segment size, an option of segments with `TH_SYN`. -/
def mssOption : Packet := [2, 4, 5, 0xB4]

/-- The options that `tcp_send_packet` sends. -/
def tcpOptions (flags : BitVec 8) : Packet := if flags &&& thSyn ≠ 0 then mssOption else []

/-- A segment in memory, with a checksum. -/
def tcpHeader (seg : TcpSegment) (win : BitVec 16) (sum : BitVec 16) : Packet :=
  putBe16 seg.sport ++ putBe16 seg.dport ++ putBe32 seg.seq ++ putBe32 seg.ack ++
    [BitVec.ofNat 8 ((20 + (tcpOptions seg.flags).length) / 4 * 16), seg.flags] ++ putBe16 win ++
    putLe16 sum ++ [0, 0] ++ tcpOptions seg.flags ++ seg.payload

/-- The bytes that `tcp_send_packet` sends. -/
def tcpBytes (src dst : InAddr) (seg : TcpSegment) (win : BitVec 16) : Packet :=
  tcpHeader seg win (inPseudoChecksum src dst ipprotoTcp (BitVec.ofNat 16 (tcpHeader seg win 0).length)
    (tcpHeader seg win 0))

section tcp

variable (src dst : InAddr) (seg : TcpSegment) (win sum : BitVec 16)

lemma length_tcpOptions (flags : BitVec 8) : (tcpOptions flags).length = 0 ∨ (tcpOptions flags).length = 4 := by
  rw [tcpOptions]
  split_ifs
  · exact .inr rfl
  · exact .inl rfl

lemma length_tcpHeader :
    (tcpHeader seg win sum).length = 20 + (tcpOptions seg.flags).length + seg.payload.length := by
  simp only [tcpHeader, putBe16, putBe32, putLe16, List.length_append, List.length_cons, List.length_nil]

end tcp

/-- **The checksum is accepted.** -/
lemma inPseudoChecksum_tcpBytes (src dst : InAddr) {seg : TcpSegment} (win : BitVec 16)
    (hlen : (tcpHeader seg win 0).length ≤ 2048) :
    inPseudoChecksum src dst ipprotoTcp (BitVec.ofNat 16 (tcpBytes src dst seg win).length)
      (tcpBytes src dst seg win) = 0 := by
  have hparts : ∀ sum : BitVec 16, tcpHeader seg win sum =
      (putBe16 seg.sport ++ putBe16 seg.dport ++ putBe32 seg.seq ++ putBe32 seg.ack ++
        [BitVec.ofNat 8 ((20 + (tcpOptions seg.flags).length) / 4 * 16), seg.flags] ++ putBe16 win) ++
        (putLe16 sum ++ ([0, 0] ++ tcpOptions seg.flags ++ seg.payload)) := by
    intro sum
    simp only [tcpHeader, List.append_assoc]
  have hfits : ∀ sum, (tcpHeader seg win sum).length ≤ 65535 := by
    intro sum
    rw [length_tcpHeader] at hlen ⊢
    omega
  simp only [tcpBytes, length_tcpHeader]
  simp only [hparts] at hfits ⊢
  refine checksumFrom_stored (pseudoSum_lt ..) ?_ hfits
  simp only [putBe16, putBe32, List.length_append, List.length_cons, List.length_nil]

/-- **What `tcp_send_packet` builds is what `tcp_input` reads.** -/
lemma parseTcp_tcpBytes (src dst : InAddr) {seg : TcpSegment} (win : BitVec 16)
    (hlen : (tcpHeader seg win 0).length ≤ 2048) : parseTcp src dst (tcpBytes src dst seg win) = some seg := by
  have hopts := length_tcpOptions seg.flags
  have hlength : (tcpBytes src dst seg win).length = 20 + (tcpOptions seg.flags).length + seg.payload.length :=
    length_tcpHeader _ _ _
  have hoff : (byteAt (tcpBytes src dst seg win) 12).toNat / 16 * 4 = 20 + (tcpOptions seg.flags).length := by
    change (BitVec.ofNat 8 ((20 + (tcpOptions seg.flags).length) / 4 * 16)).toNat / 16 * 4 = _
    rw [toNat_ofNat]
    omega
  have hdrop : (tcpBytes src dst seg win).drop (20 + (tcpOptions seg.flags).length) = seg.payload := by
    rw [← List.drop_drop]
    exact List.drop_left
  rw [parseTcp, if_neg (by omega), if_neg (not_not.mpr (inPseudoChecksum_tcpBytes src dst win hlen)), hoff,
    if_neg (by omega), hdrop]
  congr 2
  · exact join16_bytes _
  · exact join16_bytes _
  · exact join32_bytes _
  · exact join32_bytes _

end Chimera
