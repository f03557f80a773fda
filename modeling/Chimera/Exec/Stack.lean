import Chimera.Exec.Load

/-!
# The stack and the arguments

Once the stack is mapped, nothing can fail: at most 256 KiB of strings and a few pointers go into
8 MiB (`pushArgs_ok`), and they are written to the frames of the stack only. So `mach_load_args`
succeeds exactly when the walk over the image does, the entry point and the size of the arguments are
acceptable, and every page of the segments and of the stack can be mapped (`machLoadArgs_spec`).
-/

namespace Chimera

open Lib

variable {v v₁ v2 : Vm} {R : Finset ℕ} {r : ℕ}

/-! ## Writing to mapped pages -/

variable {F : Set ℕ} {va : ℕ} {P : Pages} {img : Image}

lemma Touched.trans (t : Touched v v₁ R F) (t' : Touched v₁ v2 R F) : Touched v v2 R F where
  sound := t'.sound
  view_eq r hr x := (t'.view_eq r hr x).trans (t.view_eq r hr x)
  walks r hr q hq := (t'.walks r hr q hq).trans (t.walks r hr q hq)
  data_eq f hf := (t'.data_eq f hf).trans (t.data_eq f hf)
  slack_eq f := (t'.slack_eq f).trans (t.slack_eq f)
  pmm_eq := t'.pmm_eq.trans t.pmm_eq
  tramp_eq := t'.tramp_eq.trans t.tramp_eq

lemma Touched.mono {F' : Set ℕ} (t : Touched v v₁ R F) (h : F ⊆ F') : Touched v v₁ R F' :=
  { t with data_eq := fun f hf => t.data_eq f fun hF => hf (h hF) }

lemma Touched.refl (h : Sound v R) (F : Set ℕ) : Touched v v R F :=
  ⟨h, fun _ _ _ => rfl, fun _ _ _ _ => rfl, fun _ _ => rfl, fun _ => rfl, rfl, rfl⟩

/-- `pmap_extract` is the processor's walk. -/
lemma pmapExtract_of_maps {p phys : ℕ} (h : UserMaps v p va phys) (hp : p ≠ 0) (hlo : 0x1000 ≤ va)
    (hhi : va < userEnd) : pmapExtract v p va = phys := by
  have hok : ¬ (p = 0 ∨ va < 0x1000 ∨ va ≥ userEnd) := by omega
  unfold pmapExtract
  rw [if_neg hok]
  cases h with
  | huge h4 h3 u4 u3 l3 => simp [h4, h3, u4.1, u4.2, u3.1, u3.2, l3]
  | big h4 h3 h2 u4 u3 u2 l3 l2 => simp [h4, h3, h2, u4.1, u4.2, u3.1, u3.2, u2.1, u2.2, l3, l2]
  | small h4 h3 h2 h1 u4 u3 u2 u1 l3 l2 =>
    simp [h4, h3, h2, h1, u4.1, u4.2, u3.1, u3.2, u2.1, u2.2, u1.1, u1.2, l3, l2, ptePhys_eq, pageSize]

/-- The lowest address of the stack. -/
def stackBottom : ℕ := stackTop - 2048 * pageSize

/-- The stack of an address space is mapped. -/
def StackReady (v : Vm) (r : ℕ) : Prop :=
  ∀ va, stackBottom ≤ va → va < stackTop →
    present (view v.mem r (vaSlot va)) ∧ pteFrame (view v.mem r (vaSlot va)) ≠ 0

/-- The frames of the stack. -/
def stackFrames (v : Vm) (r : ℕ) : Set ℕ :=
  {f | ∃ va, stackBottom ≤ va ∧ va < stackTop ∧ pteFrame (view v.mem r (vaSlot va)) = f}

lemma stackTop_lt : stackTop < userEnd := by decide

lemma StackReady.touched (s : StackReady v r) (hr : r ∈ R) (t : Touched v v₁ R F) :
    StackReady v₁ r ∧ stackFrames v₁ r = stackFrames v r := by
  constructor
  · intro va hlo hhi
    rw [t.view_eq r hr]
    exact s va hlo hhi
  · ext f
    simp only [stackFrames, t.view_eq r hr]

/-- **A write within the stack** succeeds, and touches its frames only. -/
lemma writeUserStackLoop_spec (hr : r ∈ R) (n va : ℕ) (data : List (BitVec 8))
    (hn : data.length ≤ n) (hlo : stackBottom ≤ va) (hhi : va + data.length ≤ stackTop) (h : Sound v R)
    (s : StackReady v r) : ∃ v', writeUserStackLoop (r * pageSize) n va data v = (true, v') ∧
      Touched v v' R (stackFrames v r) := by
  induction n generalizing va data v with
  | zero =>
    obtain rfl := List.length_eq_zero_iff.mp (Nat.le_zero.mp hn)
    exact ⟨v, rfl, .refl h _⟩
  | succ n ih =>
    cases data with
    | nil => exact ⟨v, rfl, .refl h _⟩
    | cons b bs =>
      rw [List.length_cons] at hn hhi
      have hend := stackTop_lt
      obtain ⟨hp, h0⟩ := s va hlo (by omega)
      have hge : 0x1000 ≤ va := le_trans (by decide) hlo
      have hext := pmapExtract_of_maps (h.userMaps hr (by omega) hp) (h.root_ne_zero hr) hge (by omega)
      have hmod : va % pageSize < pageSize := Nat.mod_lt _ (by decide)
      have hne : pteFrame (view v.mem r (vaSlot va)) * pageSize + va % pageSize ≠ 0 := by
        have : 0 < pteFrame (view v.mem r (vaSlot va)) * pageSize := Nat.mul_pos (Nat.pos_of_ne_zero h0) (by decide)
        omega
      have hdiv : (pteFrame (view v.mem r (vaSlot va)) * pageSize + va % pageSize) / pageSize =
          pteFrame (view v.mem r (vaSlot va)) := by
        rw [Nat.add_comm, Nat.add_mul_div_right _ _ (by decide), Nat.div_eq_of_lt hmod, Nat.zero_add]
      rw [writeUserStackLoop]
      · rw [hext, if_neg hne, hdiv, List.length_cons]
        set chunk := min (pageSize - va % pageSize) (bs.length + 1) with hchunk
        have t := h.touchBytes (h.shape.leaf_frame hr hp) (va % pageSize) ((b :: bs).take chunk)
        obtain ⟨s', hF⟩ := s.touched hr t
        have hlen : ((b :: bs).drop chunk).length = bs.length + 1 - chunk := by
          rw [List.length_drop, List.length_cons]
        obtain ⟨v', heq, t'⟩ := ih (va + chunk) ((b :: bs).drop chunk)
          (by rw [hlen]; omega) (by omega) (by rw [hlen]; omega) t.sound s'
        refine ⟨v', heq, ?_⟩
        rw [hF] at t'
        refine (t.mono ?_).trans t'
        rintro f rfl
        exact ⟨va, hlo, by omega, rfl⟩
      · exact fun h0 => nomatch h0

lemma writeUserStack_spec (hr : r ∈ R) (va : ℕ) (data : List (BitVec 8)) (hlo : stackBottom ≤ va)
    (hhi : va + data.length ≤ stackTop) (h : Sound v R) (s : StackReady v r) :
    ∃ v', writeUserStack (r * pageSize) va data v = (true, v') ∧ Touched v v' R (stackFrames v r) :=
  writeUserStackLoop_spec hr data.length va data le_rfl hlo hhi h s

lemma pushStrings_spec (hr : r ∈ R) (ss : List (List (BitVec 8))) (sp : ℕ)
    (hlo : stackBottom + argBytes ss ≤ sp) (hhi : sp ≤ stackTop) (h : Sound v R) (s : StackReady v r) :
    ∃ ptrs v', pushStrings (r * pageSize) ss sp v = .ok (ptrs, sp - argBytes ss, v') ∧
      ptrs.length = ss.length ∧ Touched v v' R (stackFrames v r) := by
  induction ss with
  | nil => exact ⟨[], v, rfl, rfl, .refl h _⟩
  | cons x ss ih =>
    have hsum : argBytes (x :: ss) = x.length + 1 + argBytes ss := rfl
    rw [hsum] at hlo ⊢
    obtain ⟨ptrs, v₁, heq, hlen, t⟩ := ih (by omega)
    obtain ⟨s1, hF⟩ := s.touched hr t
    obtain ⟨v2, heq2, t2⟩ := writeUserStack_spec hr (sp - argBytes ss - (x.length + 1))
      (x ++ [0]) (by omega) (by rw [List.length_append, List.length_singleton]; omega)
      t.sound s1
    have hsp : sp - argBytes ss - (x.length + 1) = sp - (x.length + 1 + argBytes ss) := by omega
    refine ⟨(sp - (x.length + 1 + argBytes ss)) :: ptrs, v2, ?_,
      by rw [List.length_cons, hlen, List.length_cons], t.trans (hF ▸ t2)⟩
    rw [pushStrings, heq]
    dsimp only
    rw [heq2, hsp]

lemma pushWords_spec (hr : r ∈ R) (ws : List ℕ) (sp : ℕ) (hlo : stackBottom + 8 * ws.length ≤ sp)
    (hhi : sp ≤ stackTop) (h : Sound v R) (s : StackReady v r) :
    Touched v (ws.foldl (pushWord (r * pageSize)) (sp, v)).2 R (stackFrames v r) := by
  induction ws generalizing sp v with
  | nil => exact .refl h _
  | cons w ws ih =>
    rw [List.length_cons] at hlo
    have hlen : (wordBytes w).length = 8 := by simp [wordBytes]
    obtain ⟨v₁, heq, t⟩ := writeUserStack_spec hr (sp - 8) (wordBytes w) (by omega)
      (by rw [hlen]; omega) h s
    obtain ⟨s1, hF⟩ := s.touched hr t
    rw [List.foldl_cons, pushWord]
    rw [heq]
    have t' := ih (sp - 8) (by omega) (by omega) t.sound s1
    rw [hF] at t'
    exact t.trans t'

/-- **The arguments fit**, and are written to the stack only. -/
lemma pushArgs_ok (hr : r ∈ R) {kargv kenvp : List (List (BitVec 8))}
    (hsize : argBytes kargv + argBytes kenvp ≤ 262144) (hargc : kargv.length ≤ 127)
    (henvc : kenvp.length ≤ 127) (h : Sound v R) (s : StackReady v r) :
    ∃ sp v', pushArgs (r * pageSize) kargv kenvp v = .ok (sp, v') ∧ Touched v v' R (stackFrames v r) := by
  have hroom : stackBottom + 300000 ≤ stackTop := by decide
  obtain ⟨envpUser, v₁, heq1, hlen1, t1⟩ := pushStrings_spec hr kenvp stackTop
    (by omega) le_rfl h s
  obtain ⟨s1, hF1⟩ := s.touched hr t1
  obtain ⟨argvUser, v2, heq2, hlen2, t2⟩ := pushStrings_spec hr kargv
    (stackTop - argBytes kenvp) (by omega) (by omega) t1.sound s1
  obtain ⟨s2, hF2⟩ := s1.touched hr t2
  have t3 := pushWords_spec hr ([0, 0] ++ envpUser.reverse ++ [0] ++ argvUser.reverse ++ [kargv.length])
    ((stackTop - argBytes kenvp - argBytes kargv) / 16 * 16)
    (by simp only [List.length_append, List.length_reverse, List.length_cons, List.length_nil, hlen1, hlen2]
        omega) (by omega) t2.sound s2
  rw [hF2, hF1] at t3
  rw [hF1] at t2
  have hargs : pushArgs (r * pageSize) kargv kenvp v =
      .ok (([0, 0] ++ envpUser.reverse ++ [0] ++ argvUser.reverse ++ [kargv.length]).foldl
        (pushWord (r * pageSize)) ((stackTop - argBytes kenvp - argBytes kargv) / 16 * 16, v2)) := by
    rw [pushArgs, heq1]
    dsimp only
    rw [heq2]
  exact ⟨_, _, hargs, (t1.trans t2).trans t3⟩

/-! ## The whole loader -/

lemma mem_stackPages (hva : pageSize ∣ va) : va ∈ stackPages ↔ stackBottom ≤ va ∧ va < stackTop := by
  obtain ⟨k, rfl⟩ := hva
  simp only [stackPages, stackBottom, stackTop, pageSize, List.mem_map, List.mem_range]
  constructor
  · rintro ⟨i, hi, heq⟩
    omega
  · rintro ⟨h1, h2⟩
    exact ⟨0x7FFFFFFF0 - k - 1, by omega, by omega⟩

lemma stackPages_list : PageList stackPages := by
  intro va hva
  have hdvd : pageSize ∣ va := by
    obtain ⟨i, -, rfl⟩ := List.mem_map.mp hva
    exact Nat.dvd_sub (by decide) (Dvd.intro _ rfl)
  exact ⟨hdvd, ((mem_stackPages hdvd).mp hva).2.trans stackTop_lt⟩

lemma pageSize_dvd_slotVa (x : Slot) : pageSize ∣ slotVa x := by
  have h := slotVa_vaSlot (slotVa_lt x)
  rw [vaSlot_slotVa] at h
  exact Dvd.intro_left _ h.symm

/-- The slot of an address of the stack is a slot of the stack. -/
lemma slotVa_mem_stackPages (hlo : stackBottom ≤ va) (hhi : va < stackTop) : slotVa (vaSlot va) ∈ stackPages := by
  rw [mem_stackPages (pageSize_dvd_slotVa _), slotVa_vaSlot (hhi.trans stackTop_lt)]
  simp only [stackBottom, stackTop, pageSize] at *
  omega

/-- Writes to pages that were made leave every other page alone. -/
lemma Populated.touched (p : Populated v v₁ R r P) (hr : r ∈ R)
    (t : Touched v₁ v2 R F) (hF : ∀ f ∈ F, ∃ x, (P x).isSome ∧ pteFrame (view v₁.mem r x) = f) :
    Populated v v2 R r (fun x => (P x).map fun q => (q.1, v2.mem (pteFrame (view v₁.mem r x)))) := by
  have hsome : ∀ x, ((P x).map fun q => (q.1, v2.mem (pteFrame (view v₁.mem r x)))).isSome = (P x).isSome :=
    fun x => by simp
  refine ⟨t.sound, fun x fl c hx => ?_, fun r' hr' y hy => ?_, fun r' hr' y hy hp => ?_, fun f hf hmap => ?_,
    by rw [t.pmm_eq]; exact p.max_eq, t.tramp_eq.trans p.tramp_eq⟩
  · obtain ⟨⟨fl', c'⟩, hPx, heq⟩ := Option.map_eq_some_iff.mp hx
    cases heq
    have page := p.loaded x _ _ hPx
    refine ⟨?_, ?_, ?_, ?_, ?_, ?_⟩ <;> rw [t.view_eq r hr]
    · exact page.entry
    · exact page.ne_zero
    · rw [t.pmm_eq]
      exact page.lt_max
    · rw [t.pmm_eq]
      exact page.sole
    · rw [isTramp_congr t.tramp_eq]
      exact page.not_tramp
  · rw [hsome] at hy
    rw [t.view_eq r' hr', p.view_eq r' hr' y hy]
  · rw [hsome] at hy
    have hview := p.view_eq r' hr' y hy
    rw [t.data_eq, p.data_eq r' hr' y hy hp]
    -- a frame that was made for a page is nobody else's
    intro hmem
    obtain ⟨x, hx, heq⟩ := hF _ hmem
    obtain ⟨⟨fl, c⟩, hPx⟩ := Option.isSome_iff_exists.mp hx
    have page := p.loaded x fl c hPx
    rw [← hview] at hp heq
    obtain ⟨rfl, rfl⟩ := p.sound.sole hr hr' page.present hp heq.symm page.lt_max page.sole page.not_tramp
    exact hy ⟨rfl, hx⟩
  · obtain ⟨hrc, hnew⟩ := p.spared f hf fun x hx => hmap x (by rw [hsome]; exact hx)
    rw [t.pmm_eq]
    refine ⟨hrc, fun x hx => ?_⟩
    rw [t.view_eq r hr]
    exact hnew x (by rwa [hsome] at hx)

/-- The pages `P` were made for segments of the image, or for the stack. -/
def FromImage (P : Pages) (img : Image) : Prop :=
  ∀ x fl c, P x = some (fl, c) → (∃ seg ∈ img.segments, slotVa x ∈ seg.pages ∧ fl = seg.pageFlags) ∨
    (slotVa x ∈ stackPages ∧ fl = loaderStackFlags)

/-- The pages of a loaded image: those of the stack, over those of its segments. -/
structure LoadedPages (P : Pages) (img : Image) (segs : List Segment) : Prop where
  stack : ∀ x, slotVa x ∈ stackPages → ∃ c, P x = some (loaderStackFlags, c)
  image : ∀ x, slotVa x ∉ stackPages → P x = imagePages img segs x

lemma FromSegments.fromImage (h : FromSegments P img.segments) :
    FromImage P img := fun x fl c hx => .inl (h x fl c hx)

lemma fromImage_stack {front : List ℕ} (hfront : front <+: stackPages) (h : FromImage P img) :
    FromImage ((pagesAt loaderStackFlags (fun _ _ => 0#64) front).over P) img := by
  intro x fl c hx
  unfold Pages.over pagesAt at hx
  split_ifs at hx with hmem
  · rw [Option.some_or] at hx
    cases hx
    exact .inr ⟨hfront.subset hmem, rfl⟩
  · exact h x fl c hx

lemma length_loaderArgv (arg0 : Option (List (BitVec 8))) (argv : List (List (BitVec 8))) :
    (loaderArgv arg0 argv).length ≤ 127 := by
  unfold loaderArgv
  split_ifs
  · simp
  · simp [List.length_take]

/-- Do the arguments fit? -/
def argsFit (arg0 : Option (List (BitVec 8))) (argv envp : List (List (BitVec 8))) : Prop :=
  argBytes (loaderArgv arg0 argv) + argBytes (envp.take 127) ≤ 262144

section load

variable (img : Image) (arg0 : Option (List (BitVec 8))) (argv envp : List (List (BitVec 8)))

/-- **After the load commands**: the stack is mapped and the arguments are written, or not. -/
lemma loadStack_spec (hr : r ∈ R) (entry : ℕ) (h : Sound v R) :
    (∃ e v' front, loadStack (r * pageSize) entry (loaderArgv arg0 argv) (envp.take 127) v = .error (e, v') ∧
        e ≠ 0 ∧ front <+: stackPages ∧
        Populated v v' R r (pagesAt loaderStackFlags (fun _ _ => 0#64) front) ∧
        ¬ (entryOk entry ∧ (∃ v₁, mapStack (r * pageSize) v = .ok v₁) ∧ argsFit arg0 argv envp)) ∨
      ∃ sp v₁ v', loadStack (r * pageSize) entry (loaderArgv arg0 argv) (envp.take 127) v =
          .ok (entry, sp, v') ∧ entryOk entry ∧ mapStack (r * pageSize) v = .ok v₁ ∧ argsFit arg0 argv envp ∧
        Populated v v₁ R r (pagesAt loaderStackFlags (fun _ _ => 0#64) stackPages) ∧
        Touched v₁ v' R (stackFrames v₁ r) := by
  unfold loadStack
  by_cases hentry : entryOk entry = true
  swap
  · left
    rw [if_pos hentry]
    refine ⟨_, v, [], rfl, by decide, List.nil_prefix, ?_, fun hok => hentry hok.1⟩
    rw [pagesAt_nil]
    exact (Grown.refl h).populated h r
  rw [if_neg (not_not.mpr hentry)]
  rcases populate_spec hr (by decide : loaderStackFlags &&& ptePhysMask = 0#64) (fun _ _ => 0#64)
    stackPages_list h with ⟨v₁, heq, p⟩ | ⟨v₁, front, heq, hfront, p⟩
  swap
  · left
    have hmap : mapStack (r * pageSize) v = .error v₁ := heq
    rw [hmap]
    refine ⟨_, v₁, front, rfl, by decide, hfront, p, ?_⟩
    rintro ⟨-, ⟨v2, hok⟩, -⟩
    cases hok
  have hmap : mapStack (r * pageSize) v = .ok v₁ := heq
  rw [hmap]
  dsimp only
  by_cases hsize : argsFit arg0 argv envp
  swap
  · left
    rw [if_pos (not_le.mp hsize)]
    exact ⟨_, v₁, stackPages, rfl, by decide, List.prefix_rfl, p, fun hok => hsize hok.2.2⟩
  rw [if_neg (not_lt.mpr hsize)]
  have hready : StackReady v₁ r := by
    intro va hlo hhi
    have page := p.loaded (vaSlot va) _ _ (if_pos (slotVa_mem_stackPages hlo hhi))
    exact ⟨page.present, page.ne_zero⟩
  obtain ⟨sp, v', hpush, t⟩ := pushArgs_ok hr hsize (length_loaderArgv arg0 argv)
    (by rw [List.length_take]; omega) p.sound hready
  rw [hpush]
  exact .inr ⟨sp, v₁, v', rfl, hentry, rfl, hsize, p, t⟩

/-- Everything the loader asks for: the walk over the image, the entry point, the arguments, and
pages for the segments and the stack. -/
def LoadsTo (img : Image) (arg0 : Option (List (BitVec 8))) (argv envp : List (List (BitVec 8)))
    (pml4Phys : ℕ) (v v' : Vm) : Prop :=
  ∃ p segs v₁, img.parse = some (p, segs) ∧ entryOk p.entry ∧ argsFit arg0 argv envp ∧
    loadSegments img pml4Phys segs v = .ok v₁ ∧ mapStack pml4Phys v₁ = .ok v'

/-- **What `mach_load_args` does.** It fails, with some of the pages made; or everything it asks for
is there, and the pages of the image and of the stack are made. -/
theorem machLoadArgs_spec (h : Sound v R) (hr : r ∈ R) :
    (∃ e v' P, machLoadArgs img arg0 argv envp (r * pageSize) v = .error (e, v') ∧ e ≠ 0 ∧
        Populated v v' R r P ∧ FromImage P img ∧ ¬ ∃ v₁, LoadsTo img arg0 argv envp (r * pageSize) v v₁) ∨
      ∃ p segs sp v' P, machLoadArgs img arg0 argv envp (r * pageSize) v = .ok (p.entry, sp, v') ∧
        img.parse = some (p, segs) ∧ entryOk p.entry ∧ (∃ v₁, LoadsTo img arg0 argv envp (r * pageSize) v v₁) ∧
        Populated v v' R r P ∧ FromImage P img ∧ LoadedPages P img segs := by
  unfold machLoadArgs
  rw [if_neg (h.root_ne_zero hr)]
  by_cases hhdr : img.headerOk = true
  swap
  · left
    rw [if_pos hhdr]
    refine ⟨_, v, _, rfl, by decide, (Grown.refl h).populated h r, nofun, ?_⟩
    rintro ⟨v₁, p, segs, v2, hparse, -⟩
    rw [Image.parse, if_neg hhdr] at hparse
    cases hparse
  rw [if_neg (not_not.mpr hhdr)]
  have hparse : img.parse = parseCommands img (32 + img.sizeofcmds) img.ncmds .start := if_pos hhdr
  have hsegs : img.segments = walkSegments img (32 + img.sizeofcmds) img.ncmds .start := if_pos hhdr
  cases hload : loadCommands img (32 + img.sizeofcmds) (r * pageSize) img.ncmds .start v with
  | error e =>
    left
    obtain ⟨P, p, hP, he⟩ := loadCommands_error hr h hload
    refine ⟨e.1, e.2, P, rfl, he, p, (hsegs.symm ▸ hP).fromImage, ?_⟩
    rintro ⟨v₁, q, segs, v2, hq, -, -, hseg, -⟩
    rw [hparse] at hq
    rw [loadCommands_eq_ok.mpr ⟨segs, hq, hseg⟩] at hload
    cases hload
  | ok w =>
    obtain ⟨p, v₁⟩ := w
    obtain ⟨segs, hq, hseg⟩ := loadCommands_eq_ok.mp hload
    have hok : ∀ seg ∈ segs, seg.Ok := fun seg hmem => by
      rw [← walkSegments_of_parse hq] at hmem
      exact walkSegments_ok hmem
    have himg : segs = img.segments := by rw [hsegs, walkSegments_of_parse hq]
    obtain ⟨v1', heq, pop⟩ | ⟨v1', P, heq, -⟩ := loadSegments_spec img hr hok h
    swap
    · rw [heq] at hseg
      cases hseg
    obtain rfl : v1' = v₁ := Except.ok.inj (heq.symm.trans hseg)
    have hfrom : FromImage (imagePages img segs) img :=
      ((fromSegments_imagePages img segs).mono fun s hs => himg ▸ hs).fromImage
    rcases loadStack_spec arg0 argv envp hr p.entry pop.sound with
      ⟨e, v', front, hres, he, hfront, pop', hnot⟩ | ⟨sp, v2, v', hres, hentry, hmap, hsize, pop', t⟩
    · left
      refine ⟨e, v', _, hres, he, pop.trans hr pop', fromImage_stack hfront hfrom, ?_⟩
      rintro ⟨v3, q, segs', v2, hq', hentry, hsize, hseg', hmap⟩
      rw [hparse, hq] at hq'
      cases hq'
      obtain rfl := Except.ok.inj (hseg.symm.trans hseg')
      exact hnot ⟨hentry, ⟨v3, hmap⟩, hsize⟩
    · right
      have hall := (pop.trans hr pop').touched hr t (by
        rintro f ⟨va, hlo, hhi, rfl⟩
        refine ⟨vaSlot va, ?_, rfl⟩
        rw [isSome_over]
        left
        rw [pagesAt, if_pos (slotVa_mem_stackPages hlo hhi)]
        rfl)
      have hframe : ∀ x, slotVa x ∉ stackPages → (imagePages img segs x).isSome →
          v'.mem (pteFrame (view v2.mem r x)) = v2.mem (pteFrame (view v2.mem r x)) := by
        intro x hx hsome
        obtain ⟨⟨fl, c⟩, himgx⟩ := Option.isSome_iff_exists.mp hsome
        have hover : ((pagesAt loaderStackFlags (fun _ _ => 0#64) stackPages).over (imagePages img segs)) x =
            some (fl, c) := by rw [Pages.over, pagesAt, if_neg hx, Option.none_or, himgx]
        have page := (pop.trans hr pop').loaded x fl c hover
        apply t.data_eq
        rintro ⟨va, hlo, hhi, heq⟩
        have pageS := pop'.loaded (vaSlot va) _ _ (if_pos (slotVa_mem_stackPages hlo hhi))
        obtain ⟨-, heq'⟩ := pop'.sound.sole hr hr page.present pageS.present heq page.lt_max page.sole
          page.not_tramp
        exact hx (heq' ▸ slotVa_mem_stackPages hlo hhi)
      refine ⟨p, segs, sp, v', _, hres, by rw [hparse, hq], hentry,
        ⟨v2, p, segs, v1', by rw [hparse, hq], hentry, hsize, hseg, hmap⟩, hall, ?_, ?_, ?_⟩
      · intro x fl c hx
        obtain ⟨⟨fl', c'⟩, hPx, heq'⟩ := Option.map_eq_some_iff.mp hx
        cases heq'
        exact fromImage_stack List.prefix_rfl hfrom x _ c' hPx
      · intro x hx
        rw [Pages.over, pagesAt, if_pos hx, Option.some_or, Option.map_some]
        exact ⟨_, rfl⟩
      · intro x hx
        have hnone : ((pagesAt loaderStackFlags (fun _ _ => 0#64) stackPages).over (imagePages img segs)) x =
            imagePages img segs x := by rw [Pages.over, pagesAt, if_neg hx, Option.none_or]
        rw [hnone]
        cases himgx : imagePages img segs x with
        | none => rfl
        | some w =>
          have page := (pop.trans hr pop').loaded x w.1 w.2 (hnone.trans himgx)
          rw [Option.map_some, hframe x hx (by rw [himgx]; rfl), page.contents]

end load

end Chimera
