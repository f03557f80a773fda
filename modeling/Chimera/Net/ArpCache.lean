import Chimera.Net.Stream

/-!
# The ARP cache: `kernel/net/arp.c`

An address is looked up by its first valid entry. After any calls of `arp_cache_insert` and any packets in
`arp_input` there is one entry for an address, and `arp_resolve` finds the latest insertion without sending
anything, unless the entry was the first one of a full table when an address came that was not there
(`arp_cache_law`).

`arp_input` runs under the receive lock, so that polling for its reply cannot change the table (`arpInput_arp`).
-/

namespace Chimera

open Lib
open Function (update_self update_of_ne)

variable {arp : ℕ → Option ArpEntry} {e : ArpEntry} {log pre post : List ArpEntry}

/-! ## Packets -/

/-- The sender that `arp_input` takes over from a packet. -/
def arpTaken (ifp : Ifnet) (m : Packet) : List ArpEntry :=
  if m.length < 28 ∨ (getBe16 m 0 ≠ 1 ∨ getBe16 m 2 ≠ ethertypeIp) ∨
      badSender ifp ((m.drop 8).take 6) (getLe32 m 14) ∨
      getLe32 m 24 ≠ ifp.ip ∨ getBe16 m 6 ≠ 1 ∧ getBe16 m 6 ≠ 2 then []
  else [⟨getLe32 m 14, (m.drop 8).take 6⟩]

/-- The insertions, one after the other. -/
def arpInserts : (ℕ → Option ArpEntry) → List ArpEntry → ℕ → Option ArpEntry :=
  List.foldl fun arp e => arpCacheInsert arp e.ip e.mac

/-- **What a packet does to the table.** -/
lemma arpInput_arp {s : Net} (ifp : Ifnet) (m : Packet) (n : ℕ) (h : s.inputLock = true) :
    Ensures (fun _ => True) (fun s' => s'.arp = arpInserts s.arp (arpTaken ifp m)) (arpInput (receive n) s ifp m) := by
  simp only [arpInput, arpTaken]
  split_ifs <;> simp_all [arpInserts, Net.free]
  -- what is left is the reply to a request
  rw [arpSendReply]
  split
  · rfl
  · apply Ensures.map
    apply (ethernetOutput_keeps ⟨rfl, rfl, rfl, rfl, rfl⟩ ..).mono
    exact fun _ h' => h'.2.2.2.2

/-! ## The table -/

/-- One entry for an address. -/
def OnePerAddress (arp : ℕ → Option ArpEntry) : Prop :=
  ∀ i < arpTableSize, ∀ j < arpTableSize, ∀ e e', arp i = some e → arp j = some e' → e.ip = e'.ip → i = j

lemma OnePerAddress.insert (h : OnePerAddress arp) (e : ArpEntry) : OnePerAddress (arpCacheInsert arp e.ip e.mac) := by
  obtain ⟨k, hk, heq, hcase⟩ := arpCacheInsert_cases arp e.ip e.mac
  have hother : ∀ i < arpTableSize, i ≠ k → ∀ e', arp i = some e' → e'.ip ≠ e.ip := by
    intro i hi hik e' he hip
    rcases hcase with ⟨e₁, he₁, hip₁⟩ | ⟨hnone, -⟩
    · exact hik (h i hi k hk e' e₁ he he₁ (hip.trans hip₁.symm))
    · exact arpFind_none hnone hi he hip
  intro i hi j hj e₁ e₂ h₁ h₂ hip
  rw [heq] at h₁ h₂
  by_cases hik : i = k
  · by_cases hjk : j = k
    · exact hik.trans hjk.symm
    · rw [hik, update_self] at h₁
      rw [update_of_ne hjk] at h₂
      cases h₁
      exact absurd hip.symm (hother j hj hjk e₂ h₂)
  · rw [update_of_ne hik] at h₁
    by_cases hjk : j = k
    · rw [hjk, update_self] at h₂
      cases h₂
      exact absurd hip (hother i hi hik e₁ h₁)
    · rw [update_of_ne hjk] at h₂
      exact h i hi j hj e₁ e₂ h₁ h₂ hip

lemma OnePerAddress.arpLookup (h : OnePerAddress arp) {i : ℕ} (hi : i < arpTableSize) (he : arp i = some e) :
    arpLookup arp e.ip = some e.mac := by
  rw [Chimera.arpLookup]
  cases hfind : arpFind arp e.ip with
  | none => exact absurd rfl (arpFind_none hfind hi he)
  | some j =>
    obtain ⟨hj, e', hje, hip⟩ := arpFind_some hfind
    cases h j hj i hi _ _ hje he hip
    simp [he]

/-- The table after insertions, from `arp_init` on. -/
def arpTable : List ArpEntry → ℕ → Option ArpEntry := arpInserts fun _ => none

/-- The entry stood first in a full table when an address came that was not there. -/
def Displaced (pre : List ArpEntry) (e : ArpEntry) (post : List ArpEntry) : Prop :=
  ∃ p x q, post = p ++ x :: q ∧ arpTable (pre ++ e :: p) 0 = some e ∧
    (∀ j < arpTableSize, arpTable (pre ++ e :: p) j ≠ none) ∧ arpLookup (arpTable (pre ++ e :: p)) x.ip = none

lemma arpTable_concat (log : List ArpEntry) (e : ArpEntry) :
    arpTable (log ++ [e]) = arpCacheInsert (arpTable log) e.ip e.mac := by
  simp [arpTable, arpInserts]

lemma onePerAddress_arpTable (log : List ArpEntry) : OnePerAddress (arpTable log) := by
  induction log using List.reverseRecOn with
  | nil => rintro i _ j _ e e' ⟨⟩
  | append_singleton log x ih =>
    rw [arpTable_concat]
    exact ih.insert x

/-- **The latest insertion stays** in its entry or is displaced. -/
lemma latest_stays (hpost : ∀ x ∈ post, x.ip ≠ e.ip) :
    Displaced pre e post ∨ ∃ i < arpTableSize, arpTable (pre ++ e :: post) i = some e := by
  induction post using List.reverseRecOn with
  | nil =>
    obtain ⟨i, hi, heq, -⟩ := arpCacheInsert_cases (arpTable pre) e.ip e.mac
    refine .inr ⟨i, hi, ?_⟩
    rw [arpTable_concat, heq, update_self]
  | append_singleton post x ih =>
    rcases ih fun y hy => hpost y (List.mem_append_left _ hy) with ⟨p, y, q, rfl, h⟩ | ⟨i, hi, he⟩
    · exact .inl ⟨p, y, q ++ [x], by simp, h⟩
    · obtain ⟨j, hj, heq, hcase⟩ := arpCacheInsert_cases (arpTable (pre ++ e :: post)) x.ip x.mac
      by_cases hij : i = j
      · subst hij
        rcases hcase with ⟨e', he', hip⟩ | ⟨hnone, hfree | ⟨rfl, hfull⟩⟩
        · cases he.symm.trans he'
          exact absurd hip.symm (hpost x (by simp))
        · cases he.symm.trans hfree
        · exact .inl ⟨post, x, [], rfl, he, hfull, by rw [arpLookup, hnone]; rfl⟩
      · refine .inr ⟨i, hi, ?_⟩
        rw [← List.cons_append, ← List.append_assoc, arpTable_concat, heq, update_of_ne hij]
        exact he

/-! ## Histories -/

/-- The insertions so far and the host after them. A packet is handled under the receive lock; everything else
leaves the table alone. -/
inductive ArpRun : List ArpEntry → Net → Prop
  | init {s : Net} (h : s.arp = fun _ => none) : ArpRun [] s
  | insert {log : List ArpEntry} {s : Net} (e : ArpEntry) (h : ArpRun log s) :
      ArpRun (log ++ [e]) { s with arp := arpCacheInsert s.arp e.ip e.mac }
  | input {log : List ArpEntry} {s s' : Net} {ifp : Ifnet} {m : Packet} {n : ℕ} (h : ArpRun log s)
      (hlock : s.inputLock = true) (hin : arpInput (receive n) s ifp m = .ok s') : ArpRun (log ++ arpTaken ifp m) s'
  | other {log : List ArpEntry} {s s' : Net} (h : ArpRun log s) (harp : s'.arp = s.arp) : ArpRun log s'

variable {s : Net}

lemma ArpRun.arp_eq (h : ArpRun log s) : s.arp = arpTable log := by
  induction h with
  | init h => exact h
  | insert e _ ih => rw [arpTable_concat, ← ih]
  | input _ hlock hin ih =>
    rw [(arpInput_arp _ _ _ hlock).of_eq hin, ih]
    exact List.foldl_append.symm
  | other _ harp ih => exact harp.trans ih

/-- **The ARP cache**: there is one entry for an address, and an address is resolved without sending to what was
inserted for it last, unless that was displaced. -/
theorem arp_cache_law (h : ArpRun log s) :
    OnePerAddress s.arp ∧ ∀ pre e post, log = pre ++ e :: post → (∀ x ∈ post, x.ip ≠ e.ip) →
      Displaced pre e post ∨
        ∀ re ifp, nextHop ifp e.ip = e.ip → arpResolve re s ifp e.ip = .ok (some e.mac, s) := by
  have hone : OnePerAddress s.arp := h.arp_eq ▸ onePerAddress_arpTable log
  refine ⟨hone, ?_⟩
  rintro pre e post rfl hpost
  refine (latest_stays hpost).imp_right fun ⟨i, hi, he⟩ re ifp hhop => ?_
  rw [← h.arp_eq] at he
  simp only [arpResolve, hhop, hone.arpLookup hi he]

/-- The first address is not displaced. -/
theorem arp_cache_law_first : ∃ s, ArpRun [⟨0x0202000A, [2, 0, 0, 0, 0, 1]⟩] s ∧
    (Displaced [] ⟨0x0202000A, [2, 0, 0, 0, 0, 1]⟩ [] ∨ ∀ re ifp, nextHop ifp 0x0202000A = 0x0202000A →
      arpResolve re s ifp 0x0202000A = .ok (some [2, 0, 0, 0, 0, 1], s)) := by
  have h := ArpRun.insert ⟨0x0202000A, [2, 0, 0, 0, 0, 1]⟩ (.init (s := hostNet fun _ => none) rfl)
  exact ⟨_, h, (arp_cache_law h).2 [] _ [] rfl (by simp)⟩

end Chimera
