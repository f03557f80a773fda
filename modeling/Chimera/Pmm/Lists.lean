import Chimera.Lib.DList
import Chimera.Pmm.Model

/-!
# The free lists as linked data

`Lists s L` reads the fifteen free lists of `s` off as the page lists `L`: each list head starts
a well-formed doubly linked list, a descriptor carries `VM_PAGE_FREE` exactly when it is listed,
and its `order` names the list. `buddy_list_add` and `buddy_list_remove` keep this, on `L` as
`cons` and `erase`, and touch nothing but links, flags and orders.
-/

namespace Chimera

open Lib
open Function (update update_self update_of_ne update_apply)

/-! ## What the two list helpers write -/

section fields

variable (s : Pmm) (k p : ℕ)

@[simp] lemma setPage_pages (q : ℕ) (v : VmPage) : (s.setPage p v).pages q = if q = p then v else s.pages q := by
  simp [Pmm.setPage, update_apply]

@[simp] lemma setHead_freelist (hd : Option ℕ) (j : ℕ) :
    (s.setHead k hd).freelist j = if j = k then hd else s.freelist j := by
  simp [Pmm.setHead, update_apply]

/-- Everything `buddy_list_add` writes. -/
lemma buddyListAdd_page (q : ℕ) : (buddyListAdd s k p).pages q =
      { s.pages q with
        next := if q = p then s.freelist k else (s.pages q).next
        prev := if s.freelist k = some q then some p else if q = p then none else (s.pages q).prev
        flags := if q = p then vmPageFree else (s.pages q).flags
        order := if q = p then k else (s.pages q).order } := by
  unfold buddyListAdd
  cases hhd : s.freelist k with
  | none =>
    by_cases hq : q = p
    · subst hq
      simp [hhd]
    · simp [hhd, hq]
  | some hd =>
    by_cases hq : q = hd
    · subst hq
      by_cases hqp : q = p
      · subst hqp
        simp [hhd]
      · simp [hhd, hqp]
    · have hq' : ¬ hd = q := fun h => hq h.symm
      by_cases hqp : q = p
      · subst hqp
        simp [hhd, hq, hq']
      · simp [hhd, hq, hq', hqp]

@[simp] lemma buddyListAdd_freelist (j : ℕ) :
    (buddyListAdd s k p).freelist j = if j = k then some p else s.freelist j := by
  unfold buddyListAdd
  cases hhd : s.freelist k <;> simp [hhd]

@[simp] lemma buddyListAdd_maxPhysPage : (buddyListAdd s k p).maxPhysPage = s.maxPhysPage := by
  unfold buddyListAdd
  cases hhd : s.freelist k <;> simp [hhd]

@[simp] lemma buddyListAdd_freePages : (buddyListAdd s k p).freePages = s.freePages := by
  unfold buddyListAdd
  cases hhd : s.freelist k <;> simp [hhd]

@[simp] lemma buddyListAdd_refCount (q : ℕ) : ((buddyListAdd s k p).pages q).refCount = (s.pages q).refCount := by
  rw [buddyListAdd_page]

@[simp] lemma buddyListAdd_physPage (q : ℕ) : ((buddyListAdd s k p).pages q).physPage = (s.pages q).physPage := by
  rw [buddyListAdd_page]

lemma buddyUnlinkPrev_page (q : ℕ) : (buddyUnlinkPrev s k p).pages q =
      { s.pages q with
        next := if (s.pages p).prev = some q then (s.pages p).next else (s.pages q).next } := by
  unfold buddyUnlinkPrev
  cases hprev : (s.pages p).prev with
  | none => simp
  | some m =>
    by_cases hq : q = m
    · subst hq
      simp
    · have hq' : ¬ m = q := fun h => hq h.symm
      simp [hq, hq']

lemma buddyUnlinkNext_page (q : ℕ) : (buddyUnlinkNext s p).pages q =
      { s.pages q with
        prev := if (s.pages p).next = some q then (s.pages p).prev else (s.pages q).prev } := by
  unfold buddyUnlinkNext
  cases hnext : (s.pages p).next with
  | none => simp
  | some n =>
    by_cases hq : q = n
    · subst hq
      simp
    · have hq' : ¬ n = q := fun h => hq h.symm
      simp [hq, hq']

/-- Everything `buddy_list_remove` writes to descriptors, for a page that is not its own
predecessor. -/
lemma buddyListRemove_page (hself : (s.pages p).prev ≠ some p) (q : ℕ) : (buddyListRemove s k p).pages q =
      { s.pages q with
        next := if q = p then none
          else if (s.pages p).prev = some q then (s.pages p).next else (s.pages q).next
        prev := if q = p then none
          else if (s.pages p).next = some q then (s.pages p).prev else (s.pages q).prev
        flags := if q = p then 0 else (s.pages q).flags } := by
  unfold buddyListRemove
  by_cases hq : q = p
  · subst hq
    simp [buddyUnlinkNext_page, buddyUnlinkPrev_page]
  · simp [hq, hself, buddyUnlinkNext_page, buddyUnlinkPrev_page]

@[simp] lemma buddyUnlinkNext_freelist : (buddyUnlinkNext s p).freelist = s.freelist := by
  unfold buddyUnlinkNext
  cases (s.pages p).next <;> rfl

lemma buddyListRemove_freelist (j : ℕ) : (buddyListRemove s k p).freelist j =
      if j = k then (if (s.pages p).prev = none then (s.pages p).next else s.freelist k)
      else s.freelist j := by
  unfold buddyListRemove buddyUnlinkPrev
  cases hprev : (s.pages p).prev <;> by_cases hj : j = k <;> simp [hj]

@[simp] lemma buddyListRemove_maxPhysPage : (buddyListRemove s k p).maxPhysPage = s.maxPhysPage := by
  unfold buddyListRemove buddyUnlinkNext buddyUnlinkPrev
  cases (s.pages p).prev <;> dsimp only <;> split <;> rfl

@[simp] lemma buddyListRemove_freePages : (buddyListRemove s k p).freePages = s.freePages := by
  unfold buddyListRemove buddyUnlinkNext buddyUnlinkPrev
  cases (s.pages p).prev <;> dsimp only <;> split <;> rfl

@[simp] lemma buddyListRemove_refCount (q : ℕ) :
    ((buddyListRemove s k p).pages q).refCount = (s.pages q).refCount := by
  unfold buddyListRemove
  by_cases hq : q = p <;> simp [hq, buddyUnlinkNext_page, buddyUnlinkPrev_page]

@[simp] lemma buddyListRemove_physPage (q : ℕ) :
    ((buddyListRemove s k p).pages q).physPage = (s.pages q).physPage := by
  unfold buddyListRemove
  by_cases hq : q = p <;> simp [hq, buddyUnlinkNext_page, buddyUnlinkPrev_page]

end fields

/-! ## The lists a state represents -/

/-- The free lists of `s` are the page lists `L`. -/
structure Lists (s : Pmm) (L : ℕ → List ℕ) : Prop where
  /-- Each head starts a well-formed doubly linked list. -/
  linked : ∀ k, k ≤ buddyMaxOrder →
    IsDList (fun q => (s.pages q).next) (fun q => (s.pages q).prev) (s.freelist k) (L k)
  above : ∀ k, buddyMaxOrder < k → L k = []
  nodup : ∀ k, (L k).Nodup
  lt_max : ∀ {k p}, p ∈ L k → p < s.maxPhysPage
  order_eq : ∀ {k p}, p ∈ L k → (s.pages p).order = k
  /-- A descriptor is flagged free exactly when it is listed. -/
  free_iff : ∀ {p}, p < s.maxPhysPage → ((s.pages p).isFree ↔ ∃ k, p ∈ L k)

namespace Lists

variable {s : Pmm} {L : ℕ → List ℕ}

section

variable (h : Lists s L)
include h

lemma order_le {k p : ℕ} (hp : p ∈ L k) : k ≤ buddyMaxOrder := by
  by_contra hk
  rw [h.above k (by omega)] at hp
  exact List.not_mem_nil hp

/-- A page is on at most one list. -/
lemma order_unique {k j p : ℕ} (hk : p ∈ L k) (hj : p ∈ L j) : k = j :=
  (h.order_eq hk).symm.trans (h.order_eq hj)

/-- The lists are read off the descriptors, the heads and the managed range alone. -/
lemma congr {s' : Pmm} (hp : s'.pages = s.pages) (hf : s'.freelist = s.freelist)
    (hm : s'.maxPhysPage = s.maxPhysPage) : Lists s' L where
  linked := hp ▸ hf ▸ h.linked
  above := h.above
  nodup := h.nodup
  lt_max := hm ▸ h.lt_max
  order_eq := hp ▸ h.order_eq
  free_iff := hp ▸ hm ▸ h.free_iff

/-- Writing a descriptor keeps the lists when the free flag stays, and on a listed page the links
and the order too. -/
lemma setPage {q : ℕ} {v : VmPage} (hv : q < s.maxPhysPage → (v.isFree ↔ (s.pages q).isFree))
    (hl : ∀ k, q ∈ L k → v.next = (s.pages q).next ∧ v.prev = (s.pages q).prev ∧
      v.order = (s.pages q).order) : Lists (s.setPage q v) L where
  linked := by
    intro k hk
    refine (h.linked k hk).congr (fun x hx => ?_) fun x hx => ?_
    · by_cases hxq : x = q
      · subst hxq
        simp [hl k hx]
      · simp [hxq]
    · by_cases hxq : x = q
      · subst hxq
        simp [hl k hx]
      · simp [hxq]
  above := h.above
  nodup := h.nodup
  lt_max := h.lt_max
  order_eq := by
    intro k x hx
    by_cases hxq : x = q
    · subst hxq
      simp [hl k hx, h.order_eq hx]
    · simp [hxq, h.order_eq hx]
  free_iff := by
    intro x hx
    rw [← h.free_iff hx]
    by_cases hxq : x = q
    · subst hxq
      simp [hv hx]
    · simp [hxq]

/-- **`buddy_list_add`** pushes the page on the list of its order. -/
lemma add {k p : ℕ} (hk : k ≤ buddyMaxOrder) (hp : p < s.maxPhysPage) (hnew : ∀ j, p ∉ L j) :
    Lists (buddyListAdd s k p) (update L k (p :: L k)) where
  linked := by
    intro j hj
    have hne : ∀ q ∈ L j, q ≠ p := fun q hq hqp => hnew j (hqp ▸ hq)
    by_cases hjk : j = k
    · subst hjk
      rw [update_self, buddyListAdd_freelist, if_pos rfl]
      refine (h.linked j hj).push (h.nodup j) ?_ ?_ ?_ ?_
      · simp [buddyListAdd_page]
      · have hhead : s.freelist j ≠ some p := by
          intro hhd
          have hl := h.linked j hj
          rw [hhd] at hl
          exact hnew j hl.head_mem
        simp [buddyListAdd_page, hhead]
      · intro q hq
        simp [buddyListAdd_page, hne q hq]
      · intro q hq
        simp only [buddyListAdd_page, hne q hq, if_false]
        simp only [eq_comm]
    · rw [update_of_ne hjk, buddyListAdd_freelist, if_neg hjk]
      refine (h.linked j hj).congr (fun q hq => ?_) fun q hq => ?_
      · simp [buddyListAdd_page, hne q hq]
      · -- the old head of list `k` is not on list `j`
        have hhead : s.freelist k ≠ some q := by
          intro hhd
          have hl := h.linked k hk
          rw [hhd] at hl
          exact hjk (h.order_unique hq hl.head_mem)
        simp [buddyListAdd_page, hne q hq, hhead]
  above := by
    intro j hj
    have hjk : j ≠ k := by omega
    rw [update_of_ne hjk]
    exact h.above j hj
  nodup := by
    intro j
    by_cases hjk : j = k
    · subst hjk
      rw [update_self]
      exact List.nodup_cons.mpr ⟨hnew j, h.nodup j⟩
    · rw [update_of_ne hjk]
      exact h.nodup j
  lt_max := by
    intro j q hq
    rw [buddyListAdd_maxPhysPage]
    by_cases hjk : j = k
    · subst hjk
      rw [update_self] at hq
      rcases List.mem_cons.mp hq with rfl | hq
      · exact hp
      · exact h.lt_max hq
    · rw [update_of_ne hjk] at hq
      exact h.lt_max hq
  order_eq := by
    intro j q hq
    rw [buddyListAdd_page]
    by_cases hjk : j = k
    · subst hjk
      rw [update_self] at hq
      rcases List.mem_cons.mp hq with rfl | hq
      · simp
      · have hqp : q ≠ p := fun hqp => hnew j (hqp ▸ hq)
        simpa [hqp] using h.order_eq hq
    · rw [update_of_ne hjk] at hq
      have hqp : q ≠ p := fun hqp => hnew j (hqp ▸ hq)
      simpa [hqp] using h.order_eq hq
  free_iff := by
    intro q hq
    rw [buddyListAdd_maxPhysPage] at hq
    by_cases hqp : q = p
    · subst hqp
      refine ⟨fun _ => ⟨k, by simp⟩, fun _ => ?_⟩
      simp [VmPage.isFree, buddyListAdd_page, vmPageFree]
    · have hold := h.free_iff hq
      have hflag : ((buddyListAdd s k p).pages q).isFree ↔ (s.pages q).isFree := by
        simp [VmPage.isFree, buddyListAdd_page, hqp]
      rw [hflag, hold]
      refine exists_congr fun j => ?_
      by_cases hjk : j = k
      · subst hjk
        simp [hqp]
      · simp [update_of_ne hjk]

/-- **`buddy_list_remove`** erases a listed page. -/
lemma remove {k p : ℕ} (hp : p ∈ L k) :
    Lists (buddyListRemove s k p) (update L k ((L k).erase p)) := by
  have hk := h.order_le hp
  have hself : (s.pages p).prev ≠ some p := (h.linked k hk).prev_ne_self (h.nodup k) hp
  have hsub : ∀ j q, q ∈ update L k ((L k).erase p) j → q ∈ L j ∧ q ≠ p := by
    intro j q hq
    by_cases hjk : j = k
    · subst hjk
      rw [update_self] at hq
      exact ⟨List.mem_of_mem_erase hq, fun hqp => (h.nodup j).not_mem_erase (hqp ▸ hq)⟩
    · rw [update_of_ne hjk] at hq
      exact ⟨hq, fun hqp => hjk (h.order_unique (hqp ▸ hq) hp)⟩
  refine ⟨?_, ?_, ?_, ?_, ?_, ?_⟩
  · intro j hj
    by_cases hjk : j = k
    · subst hjk
      rw [update_self, buddyListRemove_freelist, if_pos rfl]
      refine (h.linked j hj).unlink (h.nodup j) hp (fun q _ hqp => ?_) fun q _ hqp => ?_
      · simp [buddyListRemove_page s j p hself, hqp]
      · simp [buddyListRemove_page s j p hself, hqp]
    · rw [update_of_ne hjk, buddyListRemove_freelist, if_neg hjk]
      -- the neighbours of `p` are on its own list, not on list `j`
      have hnb : ∀ q ∈ L j, q ≠ p ∧ (s.pages p).prev ≠ some q ∧ (s.pages p).next ≠ some q := by
        intro q hq
        have hqk : q ∉ L k := fun hqk => hjk (h.order_unique hq hqk)
        have hlk := h.linked k hk
        exact ⟨fun hqp => hqk (hqp ▸ hp), fun hpv => hqk (hlk.prev_mem hp hpv), fun hnx => hqk (hlk.next_mem hp hnx)⟩
      refine (h.linked j hj).congr (fun q hq => ?_) fun q hq => ?_
      · obtain ⟨h1, h2, -⟩ := hnb q hq
        simp [buddyListRemove_page s k p hself, h1, h2]
      · obtain ⟨h1, -, h3⟩ := hnb q hq
        simp [buddyListRemove_page s k p hself, h1, h3]
  · intro j hj
    have hjk : j ≠ k := by omega
    rw [update_of_ne hjk]
    exact h.above j hj
  · intro j
    by_cases hjk : j = k
    · subst hjk
      rw [update_self]
      exact (h.nodup j).erase p
    · rw [update_of_ne hjk]
      exact h.nodup j
  · intro j q hq
    rw [buddyListRemove_maxPhysPage]
    exact h.lt_max (hsub j q hq).1
  · intro j q hq
    rw [buddyListRemove_page s k p hself]
    exact h.order_eq (hsub j q hq).1
  · intro q hq
    rw [buddyListRemove_maxPhysPage] at hq
    by_cases hqp : q = p
    · subst hqp
      refine ⟨fun hfree => ?_, fun ⟨j, hj⟩ => absurd rfl (hsub j q hj).2⟩
      simp [VmPage.isFree, buddyListRemove_page s k q hself] at hfree
    · have hflag : ((buddyListRemove s k p).pages q).isFree ↔ (s.pages q).isFree := by
        simp [VmPage.isFree, buddyListRemove_page s k p hself, hqp]
      rw [hflag, h.free_iff hq]
      refine ⟨fun ⟨j, hj⟩ => ⟨j, ?_⟩, fun ⟨j, hj⟩ => ⟨j, (hsub j q hj).1⟩⟩
      by_cases hjk : j = k
      · subst hjk
        rw [update_self]
        exact (List.mem_erase_of_ne hqp).mpr hj
      · rwa [update_of_ne hjk]

end

end Lists

end Chimera
