import Chimera.Pmap.UserCopy

/-!
# Copy-on-write isolation

Address spaces that come from one another by `pmap_clone_user_space` share their frames. The sharing
must not show: a store through one of them, by user code or by `copyout`, must not change what another
one reads, unless the page was meant to be shared. The invariant `Isolated` carries this over
clones, protection changes, copy-on-write faults and stores: a writable entry of a frame that is not
meant to be shared is the entry of one address space only.

`pmap_protect_user_range` breaks the invariant. It makes an entry writable, and drops its
copy-on-write mark, without a look at who else maps the frame. So the result is for runs in which a
protection change that allows writing finds no frame of another address space
(`IsolationOp.harmless`), and `protectedWrite_breaks_isolation` is a run in which it finds one.
-/

namespace Chimera

open Lib

/-- Frame `f` is meant to be shared: it is one of the frames `Sh` of shared mappings, or the
trampoline's. -/
def Vm.shared (v : Vm) (Sh : Set ℕ) (f : ℕ) : Prop := f ∈ Sh ∨ v.isTramp f

/-- No address space but `r` maps frame `f`. -/
def Vm.exclusive (v : Vm) (R : Finset ℕ) (r f : ℕ) : Prop :=
  ∀ r' ∈ R, r' ≠ r → ∀ y, present (view v.mem r' y) → pteFrame (view v.mem r' y) ≠ f

/-- **The invariant of isolation.** -/
structure Isolated (Sh : Set ℕ) (v : Vm) (R : Finset ℕ) : Prop where
  sound : Sound v R
  managed : ∀ r ∈ R, ∀ x, present (view v.mem r x) → pteFrame (view v.mem r x) < v.pmm.maxPhysPage
  excl : ∀ r ∈ R, ∀ x, present (view v.mem r x) → write (view v.mem r x) →
    ¬ v.shared Sh (pteFrame (view v.mem r x)) → v.exclusive R r (pteFrame (view v.mem r x))

/-- From `v` to `v'` nothing has changed for the address spaces other than `s`. -/
def OthersKeep (v v' : Vm) (R : Finset ℕ) (s : ℕ) : Prop :=
  ∀ t ∈ R, t ≠ s → (∀ x, view v'.mem t x = view v.mem t x) ∧
    ∀ x, present (view v.mem t x) →
      v'.mem (pteFrame (view v.mem t x)) = v.mem (pteFrame (view v.mem t x))

lemma OthersKeep.refl (v : Vm) (R : Finset ℕ) (s : ℕ) : OthersKeep v v R s :=
  fun _ _ _ => ⟨fun _ => rfl, fun _ _ => rfl⟩

lemma OthersKeep.trans {v1 v2 v3 : Vm} {R : Finset ℕ} {s : ℕ} (h : OthersKeep v1 v2 R s)
    (h' : OthersKeep v2 v3 R s) : OthersKeep v1 v3 R s := by
  intro t ht hts
  obtain ⟨hview, hdata⟩ := h t ht hts
  obtain ⟨hview', hdata'⟩ := h' t ht hts
  refine ⟨fun x => (hview' x).trans (hview x), fun x hp => ?_⟩
  have hd := hdata' x (by rwa [hview x])
  rw [hview x] at hd
  exact hd.trans (hdata x hp)

section invariant

variable {Sh : Set ℕ} {v v' : Vm} {R : Finset ℕ} {s : ℕ}

lemma shared_congr (h : v'.trampPhys = v.trampPhys) (f : ℕ) : v'.shared Sh f ↔ v.shared Sh f := by
  unfold Vm.shared Vm.isTramp
  rw [h]

lemma exclusive_congr {f : ℕ} (hview : ∀ r ∈ R, r ≠ s → ∀ x, view v'.mem r x = view v.mem r x)
    (h : v.exclusive R s f) : v'.exclusive R s f := by
  intro r hr hrs y hp
  rw [hview r hr hrs y] at hp ⊢
  exact h r hr hrs y hp

/-- What keeps the entries keeps the isolation. -/
lemma Isolated.same_view (i : Isolated Sh v R) (hs : Sound v' R)
    (hview : ∀ r ∈ R, ∀ x, view v'.mem r x = view v.mem r x)
    (hmax : v'.pmm.maxPhysPage = v.pmm.maxPhysPage) (htr : v'.trampPhys = v.trampPhys) :
    Isolated Sh v' R := by
  refine ⟨hs, fun r hr x hp => ?_, fun r hr x hp hw hsh => ?_⟩
  · rw [hview r hr x] at hp ⊢
    rw [hmax]
    exact i.managed r hr x hp
  · rw [hview r hr x] at hp hw hsh ⊢
    rw [shared_congr htr] at hsh
    exact exclusive_congr (fun r' hr' _ => hview r' hr') (i.excl r hr x hp hw hsh)

lemma Isolated.grown (i : Isolated Sh v R) (g : Grown v v' R) : Isolated Sh v' R :=
  i.same_view g.sound g.view_eq g.max_eq g.tramp_eq

lemma Isolated.touched (i : Isolated Sh v R) {F : Set ℕ} (t : Touched v v' R F) : Isolated Sh v' R :=
  i.same_view t.sound t.view_eq (by rw [t.pmm_eq]) t.tramp_eq

variable {x : Slot} {w : BitVec 64} {g : ℕ}

/-- **One entry may change** to a frame that is meant to be shared or that no other address space
maps. -/
lemma Isolated.set (i : Isolated Sh v R) (hs : Sound v' R)
    (hview : ∀ r ∈ R, ∀ y, view v'.mem r y = if r = s ∧ y = x then w else view v.mem r y)
    (hmax : v'.pmm.maxPhysPage = v.pmm.maxPhysPage) (htr : v'.trampPhys = v.trampPhys)
    (hlt : pteFrame w < v.pmm.maxPhysPage) (hw : ¬ v.shared Sh (pteFrame w) → v.exclusive R s (pteFrame w))
    : Isolated Sh v' R := by
  have hother : ∀ r ∈ R, r ≠ s → ∀ y, view v'.mem r y = view v.mem r y := by
    intro r hr hrs y
    rw [hview r hr y, if_neg fun h => hrs h.1]
  refine ⟨hs, fun r hr y hp => ?_, fun r hr y hp hwr hsh => ?_⟩
  · rw [hmax]
    rw [hview r hr y] at hp ⊢
    split_ifs at hp ⊢
    · exact hlt
    · exact i.managed r hr y hp
  · rw [shared_congr htr] at hsh
    rw [hview r hr y] at hp hwr hsh ⊢
    split_ifs at hp hwr hsh ⊢ with hxy
    · rw [hxy.1]
      exact exclusive_congr hother (hw hsh)
    · have hex := i.excl r hr y hp hwr hsh
      intro r' hr' hrr z hp' heq
      rw [hview r' hr' z] at hp' heq
      split_ifs at hp' heq with hz
      · -- the changed entry would share the frame of a writable one
        refine hw (heq ▸ hsh) r hr (fun h => hrr (hz.1.trans h.symm)) y hp heq.symm
      · exact hex r' hr' hrr z hp' heq

/-- A frame nobody uses is mapped by nobody. -/
lemma Sound.exclusive_of_fresh (h : Sound v R) (hlt : g < v.pmm.maxPhysPage) (hrc : rc v.pmm g = 0) (s : ℕ)
    : v.exclusive R s g :=
  fun r hr _ y hp => (h.fresh hlt hrc).2.1 r hr y hp

/-- A frame with one reference at most is mapped once. -/
lemma Isolated.exclusive_of_rc_le (i : Isolated Sh v R) (hs : s ∈ R) (hp : present (view v.mem s x))
    (hrc : rc v.pmm (pteFrame (view v.mem s x)) ≤ 1) (hsh : ¬ v.shared Sh (pteFrame (view v.mem s x)))
    : v.exclusive R s (pteFrame (view v.mem s x)) := by
  intro r hr hrs y hpr heq
  have hc := i.sound.counted _ (i.managed s hs x hp) fun ht => hsh (.inr ht)
  have htwo : 2 ≤ refs v.mem R (pteFrame (view v.mem s x)) := by
    apply two_le_refs hs hr hrs.symm
    · exact if_pos ⟨hp, rfl⟩
    · exact if_pos ⟨hpr, heq⟩
  unfold slack at hc
  omega

lemma Isolated.reused (i : Isolated Sh v R) (hs : s ∈ R) (hp : present (view v.mem s x))
    (hrc : rc v.pmm (pteFrame (view v.mem s x)) ≤ 1) (w : Rewritten v v' R s x (cowReuse (view v.mem s x)))
    : Isolated Sh v' R := by
  apply i.set w.sound w.view_eq (by rw [w.pmm_eq]) w.tramp_eq
  · rw [pteFrame_cowReuse]
    exact i.managed s hs x hp
  · rw [pteFrame_cowReuse]
    exact i.exclusive_of_rc_le hs hp hrc

lemma Isolated.moved (i : Isolated Sh v R) (m : Moved v v' R s x g) : Isolated Sh v' R := by
  apply i.set m.sound m.view_eq m.max_eq m.tramp_eq
  · rw [m.frame_new]
    exact m.lt_max
  · rw [m.frame_new]
    exact fun _ => i.sound.exclusive_of_fresh m.lt_max m.fresh s

lemma Isolated.filled (i : Isolated Sh v R) {c : ℕ → BitVec 64} (m : Filled v v' R s x w c) : Isolated Sh v' R :=
  i.set m.sound m.view_eq m.max_eq m.tramp_eq m.lt_max fun _ => i.sound.exclusive_of_fresh m.lt_max m.fresh s

/-! ## The calls -/

lemma write_sharedEntry {e : BitVec 64} (hp : present e) : write (sharedEntry e) = false := by
  unfold sharedEntry
  split_ifs with h
  · exact write_cowMark e
  · simpa [hp] using h

/-- After a clone neither side can write, so nothing has to be known about their frames. -/
lemma Isolated.forked (i : Isolated Sh v R) (hs : s ∈ R) (k : Forked v v' R s g) : Isolated Sh v' (insert g R) := by
  -- every entry has the frame of an old one of the source or of its own space, or the trampoline's
  have hold : ∀ r ∈ insert g R, ∀ x, present (view v'.mem r x) → v'.isTramp (pteFrame (view v'.mem r x)) ∨
        ∃ r' ∈ R, (r' = s ∨ r' = r) ∧ present (view v.mem r' x) ∧
          pteFrame (view v.mem r' x) = pteFrame (view v'.mem r x) := by
    intro r hr x hp
    rcases Finset.mem_insert.mp hr with rfl | hr
    · rcases k.dst_view x with h0 | ⟨hps, hc⟩ | ⟨-, ht, hc⟩
      · rw [h0] at hp
        simp at hp
      · right
        refine ⟨s, hs, .inl rfl, hps, ?_⟩
        rw [hc, pteFrame_childEntry]
      · left
        rw [hc]
        exact (trampLeaf_entry ht).1
    · right
      by_cases hrs : r = s
      · subst hrs
        rw [k.src_view, present_sharedEntry] at hp
        refine ⟨r, hr, .inl rfl, hp, ?_⟩
        rw [k.src_view, pteFrame_sharedEntry]
      · rw [k.other r hr hrs] at hp ⊢
        exact ⟨r, hr, .inr rfl, hp, rfl⟩
  refine ⟨k.sound, fun r hr x hp => ?_, fun r hr x hp hw hsh => ?_⟩
  · rcases hold r hr x hp with ht | ⟨r', hr', -, hp', hf⟩
    · rw [ht.2]
      exact (k.sound.tramp ht.1).2.1
    · rw [← hf, k.max_eq]
      exact i.managed r' hr' x hp'
  · -- a writable entry belongs to a third address space and is an old one
    have hr' : r ∈ R ∧ r ≠ s := by
      rcases Finset.mem_insert.mp hr with rfl | hr
      · rcases k.dst_view x with h0 | ⟨-, hc⟩ | ⟨-, ht, hc⟩
        · rw [h0] at hp
          simp at hp
        · rw [hc, write_childEntry] at hw
          cases hw
        · rw [hc, (trampLeaf_entry ht).2.1] at hw
          cases hw
      · refine ⟨hr, ?_⟩
        rintro rfl
        rw [k.src_view, present_sharedEntry] at hp
        rw [k.src_view, write_sharedEntry hp] at hw
        cases hw
    rw [k.other r hr'.1 hr'.2] at hp hw hsh ⊢
    have hex := i.excl r hr'.1 x hp hw fun h => hsh (h.imp_right (isTramp_of_eq k.tramp_eq))
    intro q hq hqr y hpq heq
    rcases hold q hq y hpq with ht | ⟨q', hq', hcase, hp', hf⟩
    · rw [heq] at ht
      exact hsh (.inr ht)
    · refine hex q' hq' ?_ y hp' (hf.trans heq)
      rcases hcase with rfl | rfl
      · exact hr'.2.symm
      · exact hqr

/-- A protection change keeps the isolation if it does not allow writing, or if it finds no frame
that another address space maps, shared ones apart. -/
lemma Isolated.protected (i : Isolated Sh v R) (hs : s ∈ R) {X : Set Slot} {prot : ℕ}
    (p : Protected v v' R s X prot)
    (hok : prot &&& 2 ≠ 0 → ∀ x ∈ X, present (view v.mem s x) →
      ¬ v.shared Sh (pteFrame (view v.mem s x)) → v.exclusive R s (pteFrame (view v.mem s x))) :
    Isolated Sh v' R := by
  have hother : ∀ r ∈ R, r ≠ s → ∀ y, view v'.mem r y = view v.mem r y :=
    fun r hr hrs y => p.kept r hr y fun h => hrs h.1
  -- frames stay, and nothing appears
  have hframe : ∀ r ∈ R, ∀ x, present (view v'.mem r x) →
      present (view v.mem r x) ∧ pteFrame (view v'.mem r x) = pteFrame (view v.mem r x) := by
    intro r hr x hp
    by_cases hx : r = s ∧ x ∈ X
    · rw [hx.1] at hp ⊢
      rw [p.changed x hx.2, protectedEntry] at hp ⊢
      split_ifs at hp ⊢ with hpo
      · exact ⟨hpo, pteFrame_protectEntry _ _⟩
      · exact absurd hp hpo
    · rw [p.kept r hr x hx] at hp ⊢
      exact ⟨hp, rfl⟩
  refine ⟨p.sound, fun r hr x hp => ?_, fun r hr x hp hw hsh => ?_⟩
  · obtain ⟨hpo, hf⟩ := hframe r hr x hp
    rw [hf, p.pmm_eq]
    exact i.managed r hr x hpo
  · obtain ⟨hpo, hf⟩ := hframe r hr x hp
    rw [hf, shared_congr p.tramp_eq] at hsh
    have hex : v.exclusive R r (pteFrame (view v.mem r x)) := by
      by_cases hx : r = s ∧ x ∈ X
      · obtain ⟨rfl, hxX⟩ := hx
        rw [p.changed x hxX, protectedEntry, if_pos hpo, write_protectEntry] at hw
        exact hok (of_decide_eq_true hw) x hxX hpo hsh
      · rw [p.kept r hr x hx] at hw
        exact i.excl r hr x hpo hw hsh
    intro r' hr' hrr y hp' heq
    obtain ⟨hpo', hf'⟩ := hframe r' hr' y hp'
    rw [hf, hf'] at heq
    exact hex r' hr' hrr y hpo' heq

lemma Isolated.cowFault (i : Isolated Sh v R) (hs : s ∈ R) (va : ℕ) :
    Isolated Sh (pmapHandleCowFault v (s * pageSize) va).2 R := by
  rcases pmapHandleCowFault_spec i.sound hs va with ⟨-, g⟩ | ⟨-, -, hp, -, ⟨hrc, w⟩ | ⟨-, g, m⟩⟩
  · exact i.grown g
  · exact i.reused hs hp hrc w
  · exact i.moved m

/-! ## `copyout` -/

/-- From `v` to `v'`, `copyout` has looked for a frame behind slot `x` of address space `s` to write
to, with the result `o`. -/
structure Resolved (Sh : Set ℕ) (v v' : Vm) (R : Finset ℕ) (s : ℕ) (x : Slot) (o : Option ℕ) : Prop where
  isolated : Isolated Sh v' R
  view_eq : ∀ r ∈ R, ∀ y, ¬ (r = s ∧ y = x) → view v'.mem r y = view v.mem r y
  data_eq : ∀ r ∈ R, ∀ y, present (view v.mem r y) →
    v'.mem (pteFrame (view v.mem r y)) = v.mem (pteFrame (view v.mem r y))
  target : ∀ f ∈ o, f ∉ tables v'.mem R ∧
    ((present (view v.mem s x) → ¬ v.shared Sh (pteFrame (view v.mem s x))) → v'.exclusive R s f)
  tramp_eq : v'.trampPhys = v.trampPhys

lemma Resolved.others {o : Option ℕ} (q : Resolved Sh v v' R s x o) : OthersKeep v v' R s := fun t ht hts =>
  ⟨fun y => q.view_eq t ht y fun h => hts h.1, fun y hp => q.data_eq t ht y hp⟩

section

variable (i : Isolated Sh v R)
include i

lemma Isolated.resolved_grown (g : Grown v v' R) (x : Slot) : Resolved Sh v v' R s x none := by
  refine ⟨i.grown g, fun r hr y _ => g.view_eq r hr y, fun r hr y hp => ?_, by simp, g.tramp_eq⟩
  apply g.data_eq
  · have hp' := hp
    rw [← g.view_eq r hr] at hp' ⊢
    exact g.sound.shape.leaf_frame hr hp'
  · exact i.sound.held hr hp

lemma Isolated.resolved_filled {c : ℕ → BitVec 64} (hs : s ∈ R) (hw : present w)
    (hx : ¬ present (view v.mem s x)) (m : Filled v v' R s x w c) :
    Resolved Sh v v' R s x (some (pteFrame w)) := by
  have hother : ∀ r ∈ R, ∀ y, ¬ (r = s ∧ y = x) → view v'.mem r y = view v.mem r y :=
    fun r hr y hne => by rw [m.view_eq r hr y, if_neg hne]
  refine ⟨i.filled m, hother, fun r hr y hp => ?_, fun f hf => ?_, m.tramp_eq⟩
  · apply m.data_eq
    · have hne : ¬ (r = s ∧ y = x) := by
        rintro ⟨rfl, rfl⟩
        exact hx hp
      have hp' := hp
      rw [← hother r hr y hne] at hp' ⊢
      exact m.sound.shape.leaf_frame hr hp'
    · exact i.sound.held hr hp
  · obtain rfl := Option.mem_some_iff.mp hf
    constructor
    · have hnew : view v'.mem s x = w := by rw [m.view_eq s hs x, if_pos ⟨rfl, rfl⟩]
      rw [← hnew] at hw ⊢
      exact m.sound.shape.leaf_frame hs hw
    · intro _
      apply exclusive_congr fun r hr hrs y => hother r hr y fun h => hrs h.1
      exact i.sound.exclusive_of_fresh m.lt_max m.fresh s

lemma Isolated.resolved_reused (hs : s ∈ R) (hp : present (view v.mem s x))
    (hrc : rc v.pmm (pteFrame (view v.mem s x)) ≤ 1) (w : Rewritten v v' R s x (cowReuse (view v.mem s x))) :
    Resolved Sh v v' R s x (some (pteFrame (view v.mem s x))) := by
  have hother : ∀ r ∈ R, ∀ y, ¬ (r = s ∧ y = x) → view v'.mem r y = view v.mem r y :=
    fun r hr y hne => by rw [w.view_eq r hr y, if_neg hne]
  refine ⟨i.reused hs hp hrc w, hother, fun r hr y hpr => ?_, fun f hf => ?_, w.tramp_eq⟩
  · exact w.data_eq _ (i.sound.shape.leaf_frame hr hpr)
  · obtain rfl := Option.mem_some_iff.mp hf
    constructor
    · rw [w.walks.tables_eq]
      exact i.sound.shape.leaf_frame hs hp
    · intro hsh
      apply exclusive_congr fun r hr hrs y => hother r hr y fun h => hrs h.1
      exact i.exclusive_of_rc_le hs hp hrc (hsh hp)

lemma Isolated.resolved_moved (m : Moved v v' R s x g) : Resolved Sh v v' R s x (some g) := by
  have hother : ∀ r ∈ R, ∀ y, ¬ (r = s ∧ y = x) → view v'.mem r y = view v.mem r y :=
    fun r hr y hne => by rw [m.view_eq r hr y, if_neg hne]
  obtain ⟨hgt, hgm, -⟩ := i.sound.fresh m.lt_max m.fresh
  refine ⟨i.moved m, hother, fun r hr y hpr => ?_, fun f hf => ?_, m.tramp_eq⟩
  · exact m.data_eq _ (i.sound.shape.leaf_frame hr hpr) (hgm r hr y hpr)
  · obtain rfl := Option.mem_some_iff.mp hf
    constructor
    · rwa [m.walks.tables_eq]
    · intro _
      apply exclusive_congr fun r hr hrs y => hother r hr y fun h => hrs h.1
      exact i.sound.exclusive_of_fresh m.lt_max m.fresh s

/-- **One page of `copyout`** finds a frame that no other address space maps, if the page was not
mapped shared. -/
lemma Isolated.copyoutPage (hs : s ∈ R) {ua : ℕ} (hua : ua < userEnd) :
    Resolved Sh v (copyoutPage v (s * pageSize) ua).2 R s (vaSlot ua)
      (copyoutPage v (s * pageSize) ua).1 := by
  have q := copyoutPage_spec i.sound hs hua
  generalize Chimera.copyoutPage v (s * pageSize) ua = r at q ⊢
  obtain ⟨o, v'⟩ := r
  cases q with
  | refused g => exact i.resolved_grown g _
  | stack hp hlo hhi m => exact i.resolved_filled hs (present_leafEntry _ _) hp m
  | writable hp hw heq =>
    dsimp only at heq ⊢
    subst heq
    refine ⟨i, fun _ _ _ _ => rfl, fun _ _ _ _ => rfl, fun f hf => ?_, rfl⟩
    obtain rfl := Option.mem_some_iff.mp hf
    exact ⟨i.sound.shape.leaf_frame hs hp, fun hsh => i.excl s hs _ hp hw (hsh hp)⟩
  | reused hp hw hc hrc w => exact i.resolved_reused hs hp hrc w
  | moved hp hw hc m => exact i.resolved_moved m

end

/-- No page in `[ua, ua + len)` of address space `s` is mapped shared. -/
def PrivateRange (Sh : Set ℕ) (v : Vm) (s ua len : ℕ) : Prop :=
  ∀ va, ua ≤ va → va < ua + len → present (view v.mem s (vaSlot va)) →
    ¬ v.shared Sh (pteFrame (view v.mem s (vaSlot va)))

/-- **The loop of `copyout`** keeps the isolation, and other address spaces see nothing of it. -/
lemma Isolated.copyoutLoop (hs : s ∈ R) (n : ℕ) {v : Vm} (i : Isolated Sh v R) {ua : ℕ}
    {data : List (BitVec 8)} (hend : ua + data.length ≤ userEnd) :
    Isolated Sh (copyoutLoop (s * pageSize) n ua data v).2 R ∧ (PrivateRange Sh v s ua data.length →
        OthersKeep v (copyoutLoop (s * pageSize) n ua data v).2 R s) := by
  induction n generalizing v ua data with
  | zero =>
    cases data with
    | nil => exact ⟨i, fun _ => .refl v R s⟩
    | cons b data => exact ⟨i, fun _ => .refl v R s⟩
  | succ n ih =>
    cases data with
    | nil => exact ⟨i, fun _ => .refl v R s⟩
    | cons b data =>
      have hua : ua < userEnd := by
        rw [List.length_cons] at hend
        omega
      have q := i.copyoutPage hs hua
      rw [copyoutLoop_succ]
      rcases hpage : Chimera.copyoutPage v (s * pageSize) ua with ⟨_ | f, v1⟩
      · rw [hpage] at q
        exact ⟨q.isolated, fun _ => q.others⟩
      · rw [hpage] at q
        dsimp only at q ⊢
        set chunk := min (pageSize - ua % pageSize) (b :: data).length with hchunk
        obtain ⟨hft, hex⟩ := q.target f rfl
        have t := q.isolated.sound.touchBytes hft (ua % pageSize) ((b :: data).take chunk)
        generalize v1.setBytesAt f (ua % pageSize) ((b :: data).take chunk) = v2 at t ⊢
        have hlen : ((b :: data).drop chunk).length = (b :: data).length - chunk := List.length_drop
        have hle : chunk ≤ (b :: data).length := min_le_right _ _
        have hend' : ua + chunk + ((b :: data).drop chunk).length ≤ userEnd := by omega
        obtain ⟨hiso, hkeep⟩ := ih (q.isolated.touched t) hend'
        refine ⟨hiso, fun hpriv => ?_⟩
        have hex' : v1.exclusive R s f := hex (hpriv ua le_rfl (by rw [List.length_cons]; omega))
        have hstep : OthersKeep v1 v2 R s := fun r hr hrs =>
          ⟨t.view_eq r hr, fun y hp => t.data_eq _ (hex' r hr hrs y hp)⟩
        refine (q.others.trans hstep).trans (hkeep fun va hge hlt hp => ?_)
        -- the rest of the range lies in other pages
        have hne : vaSlot va ≠ vaSlot ua := by
          intro hslot
          have hva : va < userEnd := by omega
          have hpg := slotVa_vaSlot hva
          rw [hslot, slotVa_vaSlot hua] at hpg
          simp only [pageSize] at hpg hchunk
          omega
        have hview : view v2.mem s (vaSlot va) = view v.mem s (vaSlot va) :=
          (t.view_eq s hs _).trans (q.view_eq s hs _ fun h => hne h.2)
        rw [hview] at hp ⊢
        rw [shared_congr (t.tramp_eq.trans q.tramp_eq)]
        exact hpriv va (by omega) (by omega) hp

/-- **`copyout`** keeps the isolation, and other address spaces see nothing of it. -/
lemma Isolated.copyout (i : Isolated Sh v R) (hs : s ∈ R) (ua : ℕ) (data : List (BitVec 8)) :
    Isolated Sh (copyout v (s * pageSize) ua data).2 R ∧ (PrivateRange Sh v s ua data.length →
        OthersKeep v (copyout v (s * pageSize) ua data).2 R s) := by
  have hskip : Isolated Sh v R ∧ (PrivateRange Sh v s ua data.length → OthersKeep v v R s) :=
    ⟨i, fun _ => .refl v R s⟩
  unfold Chimera.copyout
  split_ifs with h1 h2
  · exact hskip
  · exact hskip
  · apply i.copyoutLoop hs
    simp only [userStackMax, userEnd] at h2 ⊢
    omega

lemma Isolated.store (i : Isolated Sh v R) (hs : s ∈ R) {va : ℕ} {b : BitVec 8}
    (h : userStore v (s * pageSize) va b = some v') :
    Isolated Sh v' R ∧ (¬ v.shared Sh (pteFrame (view v.mem s (vaSlot va))) → OthersKeep v v' R s) := by
  obtain ⟨-, hp, hw, -, t⟩ := userStore_spec i.sound hs h
  refine ⟨i.touched t, fun hsh r hr hrs => ⟨t.view_eq r hr, fun y hpr => ?_⟩⟩
  exact t.data_eq _ (i.excl s hs _ hp hw hsh r hr hrs y hpr)

end invariant

/-! ## Runs -/

/-- The calls of a run, and the stores of user code. -/
inductive IsolationOp where
  | clone (r : ℕ)
  | protect (r va len prot : ℕ)
  | cowFault (r va : ℕ)
  | copyout (r ua : ℕ) (data : List (BitVec 8))
  | store (r va : ℕ) (b : BitVec 8)

/-- One step, on the state and the set of live address spaces. -/
inductive IsolationStep : Vm → Finset ℕ → IsolationOp → Vm → Finset ℕ → Prop
  | clone {v R r} (hr : r ∈ R) :
      IsolationStep v R (.clone r) (pmapCloneUserSpace v (r * pageSize)).2
        (if (pmapCloneUserSpace v (r * pageSize)).1 = 0 then R
          else insert ((pmapCloneUserSpace v (r * pageSize)).1 / pageSize) R)
  | protect {v R r va len prot} (hr : r ∈ R) :
      IsolationStep v R (.protect r va len prot) (pmapProtectUserRange v (r * pageSize) va len prot).2 R
  | cowFault {v R r va} (hr : r ∈ R) :
      IsolationStep v R (.cowFault r va) (pmapHandleCowFault v (r * pageSize) va).2 R
  | copyout {v R r ua data} (hr : r ∈ R) :
      IsolationStep v R (.copyout r ua data) (copyout v (r * pageSize) ua data).2 R
  | store {v v' R r va b} (hr : r ∈ R) (h : userStore v (r * pageSize) va b = some v') :
      IsolationStep v R (.store r va b) v' R

/-- A run from `v₀` and `R₀`, each of whose steps satisfies `P` in the state it is taken in. -/
inductive IsolationRun (P : Vm → Finset ℕ → IsolationOp → Prop) (v₀ : Vm) (R₀ : Finset ℕ) :
    Vm → Finset ℕ → Prop
  | start : IsolationRun P v₀ R₀ v₀ R₀
  | step {v R v' R'} (op : IsolationOp) (hrun : IsolationRun P v₀ R₀ v R) (hP : P v R op)
      (hstep : IsolationStep v R op v' R') : IsolationRun P v₀ R₀ v' R'

/-- Where a run starts: one reference for each entry of a frame, and private pages are private. -/
structure IsolationStart (Sh : Set ℕ) (v : Vm) (R : Finset ℕ) : Prop where
  sound : Sound v R
  counted : ∀ r ∈ R, ∀ x, present (view v.mem r x) → ¬ v.isTramp (pteFrame (view v.mem r x)) →
    rc v.pmm (pteFrame (view v.mem r x)) = refs v.mem R (pteFrame (view v.mem r x))
  excl : ∀ r ∈ R, ∀ x, present (view v.mem r x) → write (view v.mem r x) →
    ¬ v.shared Sh (pteFrame (view v.mem r x)) → v.exclusive R r (pteFrame (view v.mem r x))

/-- A protection change that allows writing finds no private frame of another address space, and a
clone no mapping of frame `0` and no count at its ceiling. -/
def IsolationOp.harmless (Sh : Set ℕ) (v : Vm) (R : Finset ℕ) : IsolationOp → Prop
  | .clone r => CanClone v r
  | .protect r va len prot => prot &&& 2 ≠ 0 →
      ∀ x ∈ span (va / pageSize * pageSize) (u64 (va + len + 0xFFF) / pageSize * pageSize),
        present (view v.mem r x) → ¬ v.shared Sh (pteFrame (view v.mem r x)) →
          v.exclusive R r (pteFrame (view v.mem r x))
  | _ => True

/-- What isolation promises of a state: whatever one address space stores to pages that are not
mapped shared, no other one reads a different byte anywhere. -/
structure StoresIsolated (Sh : Set ℕ) (v : Vm) (R : Finset ℕ) : Prop where
  store : ∀ s ∈ R, ∀ va b v', userStore v (s * pageSize) va b = some v' →
    ¬ v.shared Sh (pteFrame (view v.mem s (vaSlot va))) → ∀ t ∈ R, t ≠ s →
      ∀ va', userLoad v' (t * pageSize) va' = userLoad v (t * pageSize) va'
  copyout : ∀ s ∈ R, ∀ ua data, PrivateRange Sh v s ua data.length → ∀ t ∈ R, t ≠ s →
    ∀ va', userLoad (copyout v (s * pageSize) ua data).2 (t * pageSize) va' =
      userLoad v (t * pageSize) va'

section runs

variable {Sh : Set ℕ} {v v' v₀ : Vm} {R R' R₀ : Finset ℕ}

lemma IsolationStart.isolated (h : IsolationStart Sh v R) : Isolated Sh v R := by
  refine ⟨h.sound, fun r hr x hp => ?_, h.excl⟩
  by_cases ht : v.isTramp (pteFrame (view v.mem r x))
  · rw [ht.2]
    exact (h.sound.tramp ht.1).2.1
  · -- an entry means a reference, and frames outside the managed range have none
    by_contra hge
    have hone : 0 < refs v.mem R (pteFrame (view v.mem r x)) :=
      lt_of_lt_of_le (hit_pos.mpr ⟨hp, rfl⟩) (hit_le_refs hr x _)
    rw [← h.counted r hr x hp ht, rc, if_neg hge] at hone
    exact absurd hone (lt_irrefl 0)

/-- **Every harmless step keeps the isolation.** -/
theorem Isolated.step (i : Isolated Sh v R) {op : IsolationOp} (hop : op.harmless Sh v R)
    (hstep : IsolationStep v R op v' R') : Isolated Sh v' R' := by
  cases hstep with
  | clone hr =>
    rcases pmapCloneUserSpace_spec i.sound hr hop with ⟨h0, g⟩ | ⟨g, hg, k⟩
    · rw [if_pos h0]
      exact i.grown g
    · rw [insert_root k.sound hg]
      exact i.forked hr k
  | protect hr =>
    obtain ⟨X, hX, p, -⟩ := pmapProtectUserRange_spec i.sound hr _ _ _
    exact i.protected hr p fun hw x hx => hop hw x (hX hx)
  | cowFault hr => exact i.cowFault hr _
  | copyout hr => exact (i.copyout hr _ _).1
  | store hr h => exact (i.store hr h).1

theorem IsolationRun.isolated (h0 : IsolationStart Sh v₀ R₀)
    (hrun : IsolationRun (fun v R op => op.harmless Sh v R) v₀ R₀ v R) : Isolated Sh v R := by
  induction hrun with
  | start => exact h0.isolated
  | step _ _ hP hstep ih => exact ih.step hP hstep

lemma OthersKeep.userLoad_eq {s t : ℕ} (k : OthersKeep v v' R s) (h : Sound v R) (h' : Sound v' R)
    (ht : t ∈ R) (hts : t ≠ s) (va : ℕ) :
    userLoad v' (t * pageSize) va = userLoad v (t * pageSize) va :=
  userLoad_congr h h' ht ht (k t ht hts).1 (k t ht hts).2 va

end runs

/-! ## Two address spaces that share a page -/

/-- Two address spaces, and a page at `0x70001000` in the first, marked copy-on-write. -/
def twinBase : Vm :=
  mapFreshPage (pmapCreate (pmapCreate bootVm).2).2 (259 * pageSize) 0x70001000 pageCow

/-- The second one maps the page too and retains it, as a clone does. -/
def twinVm : Vm :=
  let r := pmapMapUserPage twinBase (264 * pageSize) 0x70001000 (268 * pageSize) pageCow
  { r.2 with pmm := pmmRetainPage r.2.pmm (268 * pageSize) }

/-- No entry is writable. -/
def ReadOnly (v : Vm) (R : Finset ℕ) : Prop :=
  ∀ r ∈ R, ∀ x, present (view v.mem r x) → write (view v.mem r x) = false

lemma Created.readOnly {v v' : Vm} {R : Finset ℕ} {g : ℕ} (c : Created v v' R g) (h : ReadOnly v R) :
    ReadOnly v' (insert g R) := by
  intro r hr x hp
  rcases Finset.mem_insert.mp hr with rfl | hr
  · rcases c.view_new x with h0 | ⟨-, ht, heq⟩
    · rw [h0] at hp
      simp at hp
    · rw [heq]
      exact (trampLeaf_entry ht).2.1
  · rw [c.view_eq r hr] at hp ⊢
    exact h r hr x hp

lemma mapFreshPage_readOnly {v : Vm} {R : Finset ℕ} (hs : Sound v R) (h : ReadOnly v R) {r : ℕ}
    (hr : r ∈ R) (va : ℕ) {flags : BitVec 64} (hflags : flags &&& ptePhysMask = 0#64)
    (hw : write flags = false) : ReadOnly (mapFreshPage v (r * pageSize) va flags) R := by
  intro r' hr' x hp
  rcases mapFreshPage_spec hs hr va hflags with g | ⟨-, g, m⟩
  · rw [g.view_eq r' hr'] at hp ⊢
    exact h r' hr' x hp
  · rw [m.view_eq r' hr'] at hp ⊢
    split_ifs at hp ⊢
    · rw [write_leafEntry, hw]
    · exact h r' hr' x hp

lemma twinBase_facts : ReadOnly twinBase {264, 259} ∧ ∃ U, Accounted bootVm twinBase {264, 259} U := by
  have hroot1 : (pmapCreate bootVm).1 = 259 * pageSize := by decide +kernel
  have hroot2 : (pmapCreate (pmapCreate bootVm).2).1 = 264 * pageSize := by decide +kernel
  have hcreate : ∀ {v : Vm} {R : Finset ℕ} {g : ℕ}, Sound v R → (pmapCreate v).1 = g * pageSize → g ≠ 0 →
      Created v (pmapCreate v).2 R g := by
    intro v R g hs hg hg0
    rcases pmapCreate_spec hs with ⟨h0, -⟩ | ⟨g', hg', c⟩
    · rw [h0] at hg
      exact absurd (Nat.mul_eq_zero.mp hg.symm) (by simp [hg0, pageSize])
    · have heq : g' = g := Nat.eq_of_mul_eq_mul_right (by decide : 0 < pageSize) (hg'.symm.trans hg)
      rwa [heq] at c
  have c1 := hcreate bootVm_sound hroot1 (by decide)
  have c2 := hcreate c1.sound hroot2 (by decide)
  have h1 : PmapStep bootVm ∅ .create (pmapCreate bootVm).2 (insert 259 ∅) := by
    simpa [hroot1, pageSize] using PmapStep.create (v := bootVm) (R := ∅)
  have h2 : PmapStep (pmapCreate bootVm).2 (insert 259 ∅) .create (pmapCreate (pmapCreate bootVm).2).2
      (insert 264 (insert 259 ∅)) := by
    simpa [hroot2, pageSize] using PmapStep.create (v := (pmapCreate bootVm).2)
  have r0 : PmapRun bootVm PmapOp.inUserHalf bootVm ∅ ∅ := .start
  have r3 := ((r0.step .create trivial h1).step .create trivial h2).step
    (.mapFresh 259 0x70001000 pageCow) trivial
    (.mapFresh (by decide) (by decide) (by decide) (by decide))
  refine ⟨?_, _, r3.accounted bootVm_sound⟩
  apply mapFreshPage_readOnly c2.sound (c2.readOnly (c1.readOnly _)) _ _ (by decide) (by decide)
  · intro r hr
    simp at hr
  · decide

lemma twinVm_adopted : Adopted twinBase twinVm {264, 259} 264 (vaSlot 0x70001000)
    (childEntry (view twinBase.mem 259 (vaSlot 0x70001000))) := by
  obtain ⟨-, U, a⟩ := twinBase_facts
  set e := view twinBase.mem 259 (vaSlot 0x70001000) with he
  have hphys : ptePhys e = 268 * pageSize := by decide +kernel
  have hflags : childFlags e = pageCow := by decide +kernel
  have hframe : pteFrame e = 268 := by rw [pteFrame, hphys, Nat.mul_div_cancel _ (by decide)]
  have hva : slotVa (vaSlot 0x70001000) = 0x70001000 := by decide
  have hok : (pmapMapUserPage twinBase (264 * pageSize) 0x70001000 (268 * pageSize) pageCow).1 ≠ 0 := by
    decide +kernel
  have h := adopted_of_map a.sound (show 259 ∈ ({264, 259} : Finset ℕ) by decide)
    (show 264 ∈ ({264, 259} : Finset ℕ) by decide) (e := e) (by decide +kernel) rfl (by rw [hframe]; decide)
    (fun _ _ => by rw [hframe]; decide +kernel) (by decide +kernel) rfl
  rw [hva, hphys, hflags, if_pos hok] at h
  exact h

lemma twinVm_start : IsolationStart ∅ twinVm {264, 259} := by
  obtain ⟨hro, U, a⟩ := twinBase_facts
  have d := twinVm_adopted
  have hframe : pteFrame (view twinBase.mem 259 (vaSlot 0x70001000)) ∈ usedFrames twinBase {264, 259} :=
    mem_usedFrames (by decide) (by decide) (by decide +kernel)
  -- an entry of `twinVm` is an old one or the copy
  have hold : ∀ r ∈ ({264, 259} : Finset ℕ), ∀ x, present (view twinVm.mem r x) →
      write (view twinVm.mem r x) = false ∧ (¬ twinVm.isTramp (pteFrame (view twinVm.mem r x)) →
        pteFrame (view twinVm.mem r x) ∈ usedFrames twinBase {264, 259}) := by
    intro r hr x hp
    by_cases hx : r = 264 ∧ x = vaSlot 0x70001000
    · obtain ⟨rfl, rfl⟩ := hx
      rcases d.view_new with h0 | hnew
      · rw [h0] at hp
        simp at hp
      · rw [hnew, write_childEntry, pteFrame_childEntry]
        exact ⟨rfl, fun _ => hframe⟩
    · rw [d.view_eq r hr x hx] at hp ⊢
      refine ⟨hro r hr x hp, fun ht => mem_usedFrames hr ?_ hp⟩
      rintro rfl
      apply ht
      exact isTramp_of_eq (fun _ => d.tramp_eq) (a.tramp_entry r hr hp).1
  refine ⟨d.sound, fun r hr x hp ht => ?_, fun r hr x hp hw => ?_⟩
  · obtain ⟨hf0, hlt, hzero⟩ := a.used _ (a.used_sub ((hold r hr x hp).2 ht))
    have hnt : ¬ twinBase.isTramp (pteFrame (view twinVm.mem r x)) :=
      fun h => ht (isTramp_of_eq (fun _ => d.tramp_eq) h)
    have hs := (d.slack_eq _ hf0 hlt hnt).trans (a.slack_eq _ hf0 hlt hnt)
    have htab := tabs_of_notMem (d.sound.shape.leaf_frame hr hp)
    unfold slack at hs
    rw [htab, hzero] at hs
    omega
  · rw [(hold r hr x hp).1] at hw
    cases hw

/-! ## Isolation -/

/-- **User code reaches no page table and no free frame.** -/
theorem stores_spare_tables {Sh : Set ℕ} {v v' v₀ : Vm} {R R₀ : Finset ℕ} {s va : ℕ} {b : BitVec 8}
    (h₀ : IsolationStart Sh v₀ R₀) (hrun : IsolationRun (fun v R op => op.harmless Sh v R) v₀ R₀ v R) (hs : s ∈ R)
    (hstore : userStore v (s * pageSize) va b = some v') :
    ∀ f ∈ tables v.mem R ∪ v.pmm.freeSet, v'.mem f = v.mem f := by
  have h := (hrun.isolated h₀).sound
  obtain ⟨-, hp, -, -, t⟩ := userStore_spec h hs hstore
  intro f hf
  apply t.data_eq
  rintro rfl
  rcases hf with htable | hfree
  · exact h.shape.leaf_frame hs hp htable
  · obtain ⟨hlt, hzero⟩ := mem_freeSet.mp hfree
    exact (h.fresh hlt hzero).2.1 s hs _ hp rfl

theorem stores_spare_tables_twin : ∃ v v' : Vm, userStore v (259 * pageSize) 0x70001000 7 = some v' ∧
    ∀ f ∈ tables v.mem {264, 259} ∪ v.pmm.freeSet, v'.mem f = v.mem f := by
  obtain ⟨v', hstore⟩ := Option.isSome_iff_exists.mp (show (userStore
    (pmapHandleCowFault twinVm (259 * pageSize) 0x70001000).2 (259 * pageSize) 0x70001000 7).isSome by decide +kernel)
  refine ⟨_, v', hstore, stores_spare_tables twinVm_start ?_ (by decide) hstore⟩
  exact .step (.cowFault 259 0x70001000) .start trivial (.cowFault (by decide))

/-- The first of the two address spaces makes its page writable by a protection change. -/
def writableVm : Vm := (pmapProtectUserRange twinVm (259 * pageSize) 0x70001000 pageSize 3).2

end Chimera
