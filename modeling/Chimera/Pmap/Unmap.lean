import Chimera.Pmap.Map

/-!
# Unmapping a range

`pmap_unmap_user_range_ex` works in batches of 64 pages: it clears the entries of a batch while it
collects their frames (`Cleared`), and then releases what it collected (`Unmapped`). For a range in
the user half the loop ends, every page of the range is gone, no other entry has changed, and each
frame has lost as many references as entries, except at the trampoline.

The code does not check that the range is in the user half, and it ignores the upper sixteen bits of
an address; what follows is about ranges that end at `userEnd` at most.
-/

namespace Chimera

variable {v t : Vm} {R : Finset ℕ} {r : ℕ} {X : Set Slot}

/-! ## One batch -/

/-- From `v` to `t` the pages `X` of address space `r` were cleared; the frames to release are
`pend`, with the trampoline's left out and all of them without `rel`. -/
structure Cleared (v t : Vm) (R : Finset ℕ) (r : ℕ) (X : Set Slot) (rel : Bool) (pend : List ℕ) :
    Prop where
  sound : Sound t R
  gone : ∀ x ∈ X, ¬ present (view t.mem r x)
  kept : ∀ r' ∈ R, ∀ x, ¬ (r' = r ∧ x ∈ X) → view t.mem r' x = view v.mem r' x
  walks : SameWalks v.mem t.mem R
  pend_mem : ∀ a ∈ pend, ∃ x ∈ X, x ≠ trampSlot ∧ present (view v.mem r x) ∧ ptePhys (view v.mem r x) = a
  slack_ge : ∀ f, slack v R f + pending pend f ≤ slack t R f
  slack_eq : rel = true → ∀ f, hit (view v.mem r trampSlot) f = 0 →
    slack t R f = slack v R f + pending pend f
  pmm_eq : t.pmm = v.pmm
  tramp_eq : t.trampPhys = v.trampPhys

lemma Cleared.refl (h : Sound v R) (r : ℕ) (rel : Bool) : Cleared v v R r ∅ rel [] :=
  ⟨h, fun _ hx => hx.elim, fun _ _ _ _ => rfl, fun _ _ _ _ => rfl,
    fun _ ha => absurd ha List.not_mem_nil, fun f => by simp [pending], fun _ f _ => by simp [pending],
    rfl, rfl⟩

lemma pending_concat (l : List ℕ) (e : BitVec 64) (hp : present e) (f : ℕ) :
    pending (l ++ [ptePhys e]) f = pending l f + hit e f := by
  have hdiv : ptePhys e / pageSize = pteFrame e := rfl
  rw [pending, pending, List.countP_append, List.countP_singleton, hdiv, hit]
  simp [hp]

lemma Cleared.page {rel : Bool} {st : List ℕ × Vm} (c : Cleared v st.2 R r X rel st.1) (hr : r ∈ R)
    {va : ℕ} (hva : va < userEnd) (hx : vaSlot va ∉ X) :
    Cleared v (unmapPage (r * pageSize) rel va st).2 R r (insert (vaSlot va) X) rel
      (unmapPage (r * pageSize) rel va st).1 := by
  set x := vaSlot va with hxdef
  have hout : view st.2.mem r x = view v.mem r x := c.kept r hr x fun h => hx h.2
  -- a page that is not there
  have habsent : ¬ present (view st.2.mem r x) → Cleared v st.2 R r (insert x X) rel st.1 := by
    intro habs
    refine ⟨c.sound, ?_, fun r' hr' y hy => c.kept r' hr' y fun h => hy ⟨h.1, .inr h.2⟩, c.walks,
      fun a ha => ?_, c.slack_ge, c.slack_eq, c.pmm_eq, c.tramp_eq⟩
    · rintro y (rfl | hy)
      · exact habs
      · exact c.gone y hy
    · obtain ⟨y, hy, hrest⟩ := c.pend_mem a ha
      exact ⟨y, .inr hy, hrest⟩
  unfold unmapPage
  rw [c.sound.getPtePtr_eq hr hva, ← hxdef]
  cases hpt : tableOf st.2.mem r x with
  | none =>
    refine habsent ?_
    rw [view, hpt, Option.elim_none]
    simp
  | some pt =>
    simp only [Option.map_some]
    rw [← view_of_table hpt]
    by_cases hp : present (view st.2.mem r x) = true
    swap
    · rw [if_pos hp]
      exact habsent hp
    rw [if_neg (not_not.mpr hp)]
    have hw := c.sound.rewrite hr hpt (w := 0#64) (by simp)
    generalize st.2.setWord pt (slotLast x) 0#64 = t' at hw ⊢
    have hkept : ∀ r' ∈ R, ∀ y, ¬ (r' = r ∧ y ∈ insert x X) → view t'.mem r' y = view v.mem r' y := by
      intro r' hr' y hy
      rw [hw.view_eq r' hr' y, if_neg fun h => hy ⟨h.1, .inl h.2⟩]
      exact c.kept r' hr' y fun h => hy ⟨h.1, .inr h.2⟩
    have hwalks : SameWalks v.mem t'.mem R := fun r' hr' q hq => (hw.walks r' hr' q hq).trans (c.walks r' hr' q hq)
    have hslack : ∀ f, slack t' R f = slack st.2 R f + hit (view v.mem r x) f := by
      intro f
      rw [hw.slack_eq, hit_zero, hout]
      simp
    have htr : pmapIsTrampolineVa va = true ↔ x = trampSlot := (vaSlot_eq_trampSlot hva).symm
    refine ⟨hw.sound, ?_, hkept, hwalks, ?_, fun f => ?_, fun hrel f hf => ?_,
      hw.pmm_eq.trans c.pmm_eq, hw.tramp_eq.trans c.tramp_eq⟩
    · rintro y (hy | hy)
      · rw [hy, hw.view_eq r hr x, if_pos ⟨rfl, rfl⟩]
        simp
      · rw [hw.view_eq r hr y]
        split_ifs
        · simp
        · exact c.gone y hy
    · intro a ha
      have hold : a ∈ st.1 → ∃ y ∈ insert x X, y ≠ trampSlot ∧ present (view v.mem r y) ∧
          ptePhys (view v.mem r y) = a := by
        intro ha
        obtain ⟨y, hy, hrest⟩ := c.pend_mem a ha
        exact ⟨y, .inr hy, hrest⟩
      split_ifs at ha with hc
      · rcases List.mem_append.mp ha with ha | ha
        · exact hold ha
        · rw [List.mem_singleton, hout] at ha
          exact ⟨x, .inl rfl, fun heq => hc.2 (htr.mpr heq), hout ▸ hp, ha.symm⟩
      · exact hold ha
    · have hge := c.slack_ge f
      rw [hslack]
      split_ifs with hc
      · rw [hout, pending_concat _ _ (hout ▸ hp)]
        push_cast
        linarith
      · have : (0 : ℤ) ≤ hit (view v.mem r x) f := Int.natCast_nonneg _
        linarith
    · have heq := c.slack_eq hrel f hf
      rw [hslack, heq]
      split_ifs with hc
      · rw [hout, pending_concat _ _ (hout ▸ hp)]
        push_cast
        ring
      · have hxt : x = trampSlot := by
          by_contra hne
          exact hc ⟨hrel, fun h => hne (htr.mp h)⟩
        rw [hxt, hf]
        simp

/-! ## The whole range -/

/-- From `v` to `t` the pages `X` of address space `r` were unmapped. -/
structure Unmapped (v t : Vm) (R : Finset ℕ) (r : ℕ) (X : Set Slot) (rel : Bool) : Prop where
  sound : Sound t R
  gone : ∀ x ∈ X, ¬ present (view t.mem r x)
  kept : ∀ r' ∈ R, ∀ x, ¬ (r' = r ∧ x ∈ X) → view t.mem r' x = view v.mem r' x
  walks : SameWalks v.mem t.mem R
  slack_eq : rel = true → ∀ f < v.pmm.maxPhysPage, hit (view v.mem r trampSlot) f = 0 →
    slack t R f = slack v R f
  max_eq : t.pmm.maxPhysPage = v.pmm.maxPhysPage
  tramp_eq : t.trampPhys = v.trampPhys

namespace Unmapped

variable {rel : Bool}

lemma refl (h : Sound v R) (r : ℕ) (rel : Bool) : Unmapped v v R r ∅ rel :=
  ⟨h, fun _ hx => hx.elim, fun _ _ _ _ => rfl, fun _ _ _ _ => rfl, fun _ _ _ _ => rfl, rfl, rfl⟩

/-- An entry that is still there is the old one. -/
lemma view_of_present (u : Unmapped v t R r X rel) {r' : ℕ} (hr' : r' ∈ R) {x : Slot}
    (hp : present (view t.mem r' x)) : view t.mem r' x = view v.mem r' x := by
  by_cases hx : r' = r ∧ x ∈ X
  · exact absurd (hx.1 ▸ hp) (u.gone x hx.2)
  · exact u.kept r' hr' x hx

lemma trans {t' : Vm} {X' : Set Slot} (u : Unmapped v t R r X rel) (hr : r ∈ R)
    (u' : Unmapped t t' R r X' rel) : Unmapped v t' R r (X ∪ X') rel := by
  have hhit : ∀ x f, hit (view t.mem r x) f ≤ hit (view v.mem r x) f := by
    intro x f
    by_cases hp : present (view t.mem r x) = true
    · rw [u.view_of_present hr hp]
    · simp [hit, hp]
  refine ⟨u'.sound, ?_, fun r' hr' x hx => ?_, fun r' hr' q hq => ?_, fun hrel f hf h0 => ?_,
    u'.max_eq.trans u.max_eq, u'.tramp_eq.trans u.tramp_eq⟩
  · rintro x (hx | hx)
    · intro hp
      have hold := u'.view_of_present hr hp
      rw [hold] at hp
      exact u.gone x hx hp
    · exact u'.gone x hx
  · rw [u'.kept r' hr' x fun h => hx ⟨h.1, .inr h.2⟩, u.kept r' hr' x fun h => hx ⟨h.1, .inl h.2⟩]
  · exact (u'.walks r' hr' q hq).trans (u.walks r' hr' q hq)
  · have hle := hhit trampSlot f
    rw [u'.slack_eq hrel f (u.max_eq.symm ▸ hf) (by omega), u.slack_eq hrel f hf h0]

end Unmapped

/-- **One batch**: what was collected is released. -/
lemma Cleared.unmapped {rel : Bool} {pend : List ℕ} (c : Cleared v t R r X rel pend) (h : Sound v R)
    (hr : r ∈ R) : Unmapped v { t with pmm := pend.foldl pmmReleasePage t.pmm } R r X rel := by
  have htr : ∀ a ∈ pend, ¬ v.isTramp (a / pageSize) := by
    intro a ha ht
    obtain ⟨x, -, hne, hp, rfl⟩ := c.pend_mem a ha
    exact hne (h.tramp_slot hr hp ht)
  have hs : ∀ f < t.pmm.maxPhysPage, (pending pend f : ℤ) ≤ slack t R f ∨ pending pend f = 0 := by
    intro f hf
    by_cases h0 : pending pend f = 0
    · exact .inr h0
    · obtain ⟨a, ha, haf⟩ := List.countP_pos_iff.mp (Nat.pos_of_ne_zero h0)
      have hc := h.counted f (c.pmm_eq ▸ hf) (of_decide_eq_true haf ▸ htr a ha)
      have hge := c.slack_ge f
      exact .inl (by linarith)
  obtain ⟨hsound, hmax, -, hslack⟩ := c.sound.releaseAll pend
    (fun a ha => mt (isTramp_congr c.tramp_eq _).mp (htr a ha)) hs
  rw [c.pmm_eq] at hmax hslack
  refine ⟨hsound, c.gone, c.kept, c.walks, fun hrel f hf h0 => ?_, ?_, c.tramp_eq⟩
  · rw [c.pmm_eq, hslack f hf, c.slack_eq hrel f h0]
    ring
  · rw [c.pmm_eq]
    exact hmax

lemma unmapChunk_spec (h : Sound v R) (hr : r ∈ R) {a b : ℕ} (ha : pageSize ∣ a) (hb : pageSize ∣ b)
    (hend : b ≤ userEnd) (rel : Bool) :
    Unmapped v (unmapChunk v (r * pageSize) a b rel) R r (span a b) rel := by
  have hloop := forUpTo_span (s := (([], v) : List ℕ × Vm))
    (fun X st => Cleared v st.2 R r X rel st.1) ha hb hend (Cleared.refl h r rel)
    fun va hva X st hx c => c.page hr hva hx
  exact hloop.unmapped h hr

lemma unmapLoop_spec {stop : ℕ} (hstop : pageSize ∣ stop) (hend : stop ≤ userEnd) (hr : r ∈ R)
    (rel : Bool) (fuel : ℕ) {a : ℕ} (ha : pageSize ∣ a) (h : Sound v R) :
    (∀ t, unmapLoop (r * pageSize) stop rel fuel a v = some t → Unmapped v t R r (span a (max a stop)) rel) ∧
      (stop ≤ a + fuel * (64 * pageSize) → ∃ t, unmapLoop (r * pageSize) stop rel fuel a v = some t) := by
  induction fuel generalizing a v with
  | zero =>
    unfold unmapLoop
    split_ifs with hlt
    · exact ⟨fun t ht => by simp at ht, fun hle => absurd hlt (by omega)⟩
    · rw [max_eq_left (by omega), span_self]
      refine ⟨fun t ht => ?_, fun _ => ⟨v, rfl⟩⟩
      cases ht
      exact Unmapped.refl h r rel
  | succ fuel ih =>
    unfold unmapLoop
    split_ifs with hlt
    · have hb : min (u64 (a + 64 * pageSize)) stop = min (a + 64 * pageSize) stop := by
        unfold userEnd at hend
        unfold u64 pageSize
        omega
      rw [hb]
      set b := min (a + 64 * pageSize) stop with hbdef
      have hdvd : pageSize ∣ b := by
        rcases min_choice (a + 64 * pageSize) stop with hm | hm <;> rw [hbdef, hm]
        · exact ha.add (Dvd.intro_left 64 rfl)
        · exact hstop
      have hab : a ≤ b := by
        simp only [hbdef, pageSize]
        omega
      have u := unmapChunk_spec h hr ha hdvd (by omega) rel
      obtain ⟨h1, h2⟩ := ih hdvd u.sound
      refine ⟨fun t ht => ?_, fun hle => h2 ?_⟩
      · have hu := u.trans hr (h1 t ht)
        rwa [max_eq_right (by omega : b ≤ stop), span_union_span hab (by omega), ← max_eq_right hlt.le] at hu
      · simp only [hbdef, pageSize] at hle ⊢
        omega
    · rw [max_eq_left (by omega), span_self]
      refine ⟨fun t ht => ?_, fun _ => ⟨v, rfl⟩⟩
      cases ht
      exact Unmapped.refl h r rel

/-- The pages a range of addresses touches. -/
def pagesOf (va len : ℕ) : Set Slot :=
  if len = 0 then ∅ else span (va / pageSize * pageSize) ((va + len + 4095) / pageSize * pageSize)

/-- **What `pmap_unmap_user_range_ex` does** with a range in the user half: it ends, and unmaps the
pages of the range. -/
theorem pmapUnmapUserRangeEx_spec (h : Sound v R) (hr : r ∈ R) {va len : ℕ} (hend : va + len ≤ userEnd)
    (rel : Bool) :
    (∀ fuel t, pmapUnmapUserRangeEx fuel v (r * pageSize) va len rel = some t →
        Unmapped v t R r (pagesOf va len) rel) ∧
      ∃ fuel t, pmapUnmapUserRangeEx fuel v (r * pageSize) va len rel = some t := by
  unfold pmapUnmapUserRangeEx pagesOf
  by_cases hlen : len = 0
  · simp only [if_pos (Or.inr hlen), if_pos hlen]
    refine ⟨fun _ t ht => ?_, 0, v, rfl⟩
    cases ht
    exact Unmapped.refl h r rel
  · simp only [if_neg hlen, if_neg (not_or.mpr ⟨h.root_ne_zero hr, hlen⟩)]
    have hu64 : u64 (va + len + 4095) = va + len + 4095 := by
      unfold userEnd at hend
      unfold u64
      omega
    rw [hu64]
    set start := va / pageSize * pageSize with hstart
    set stop := (va + len + 4095) / pageSize * pageSize with hstop
    have hle : start ≤ stop := by
      simp only [hstart, hstop, pageSize]
      omega
    have hdvd : pageSize ∣ start := Nat.dvd_mul_left _ _
    have hdvd' : pageSize ∣ stop := Nat.dvd_mul_left _ _
    have hstopEnd : stop ≤ userEnd := by
      simp only [hstop, pageSize, userEnd] at hend ⊢
      omega
    refine ⟨fun fuel t ht => ?_, stop, (unmapLoop_spec hdvd' hstopEnd hr rel stop hdvd h).2 ?_⟩
    · have hu := (unmapLoop_spec hdvd' hstopEnd hr rel fuel hdvd h).1 t ht
      rwa [max_eq_right hle] at hu
    · simp only [pageSize]
      omega

end Chimera
