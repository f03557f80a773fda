import Chimera.Exec.Populate

/-!
# What the loader leaves behind

The walk over the load commands does not depend on memory: `parseCommands` is its result, and
`walkSegments` the segments it comes to before it ends. On success the pages of the address space are
those of `imagePages`, where the last segment that maps a page decides its contents, under the pages
of the stack. On failure some of them are there (`loadCommands_error`).
-/

namespace Chimera

open Lib

/-! ## The walk on its own -/

section walk

variable (img : Image) (cmdEnd : ℕ)

/-- The walk over the load commands, with the segments to map; `none` is `-ENOEXEC`. -/
def parseCommands : ℕ → Parse → Option (Parse × List Segment)
  | 0, p => some (p, [])
  | n + 1, p =>
      match parseCommand img cmdEnd p with
      | none => none
      | some (p', seg) => (parseCommands n p').map fun q => (q.1, seg.toList ++ q.2)

/-- The segments the walk comes to before it ends or fails. -/
def walkSegments : ℕ → Parse → List Segment
  | 0, _ => []
  | n + 1, p =>
      match parseCommand img cmdEnd p with
      | none => []
      | some (p', seg) => seg.toList ++ walkSegments n p'

end walk

/-- The walk over the whole image. -/
def Image.parse (img : Image) : Option (Parse × List Segment) :=
  if img.headerOk then parseCommands img (32 + img.sizeofcmds) img.ncmds .start else none

/-- The segments the loader may map. -/
def Image.segments (img : Image) : List Segment :=
  if img.headerOk then walkSegments img (32 + img.sizeofcmds) img.ncmds .start else []

/-- Map segments one after the other. -/
def loadSegments (img : Image) (pml4Phys : ℕ) : List Segment → Vm → Except Vm Vm
  | [], v => .ok v
  | seg :: segs, v =>
      match loadSegment img pml4Phys seg v with
      | .error v' => .error v'
      | .ok v' => loadSegments img pml4Phys segs v'

section walk

variable {img : Image} {cmdEnd pml4 : ℕ} {n : ℕ} {p p' : Parse} {segs : List Segment}

lemma walkSegments_of_parse
    (h : parseCommands img cmdEnd n p = some (p', segs)) : walkSegments img cmdEnd n p = segs := by
  induction n generalizing p segs with
  | zero =>
    cases h
    rfl
  | succ n ih =>
    rw [parseCommands] at h
    rw [walkSegments]
    cases hc : parseCommand img cmdEnd p with
    | none =>
      rw [hc] at h
      cases h
    | some q =>
      rw [hc] at h
      obtain ⟨⟨p'', segs'⟩, hrest, heq⟩ := Option.map_eq_some_iff.mp h
      cases heq
      dsimp only
      rw [ih hrest]

lemma Image.segments_of_parse (h : img.parse = some (p, segs)) : img.segments = segs := by
  unfold Image.parse at h
  unfold Image.segments
  split_ifs at h ⊢
  exact walkSegments_of_parse h

/-- **The loop over the commands succeeds** if the walk does and its segments can be mapped. -/
lemma loadCommands_eq_ok {v v' : Vm} : loadCommands img cmdEnd pml4 n p v = .ok (p', v') ↔
      ∃ segs, parseCommands img cmdEnd n p = some (p', segs) ∧ loadSegments img pml4 segs v = .ok v' := by
  induction n generalizing p v with
  | zero =>
    constructor
    · intro h
      cases h
      exact ⟨[], rfl, rfl⟩
    · rintro ⟨segs, hparse, hload⟩
      cases hparse
      rw [loadCommands, Except.ok.inj hload]
  | succ n ih =>
    rw [loadCommands, parseCommands]
    rcases parseCommand img cmdEnd p with _ | ⟨q, _ | seg⟩
    · simp
    · dsimp only
      rw [ih]
      constructor
      · rintro ⟨segs, hparse, hload⟩
        exact ⟨segs, by rw [hparse]; rfl, hload⟩
      · rintro ⟨segs, hparse, hload⟩
        obtain ⟨⟨p'', segs'⟩, hrest, heq⟩ := Option.map_eq_some_iff.mp hparse
        cases heq
        exact ⟨segs', hrest, hload⟩
    · dsimp only
      cases hseg : loadSegment img pml4 seg v with
      | error v1 =>
        constructor
        · nofun
        · rintro ⟨segs, hparse, hload⟩
          obtain ⟨⟨p'', segs'⟩, -, heq⟩ := Option.map_eq_some_iff.mp hparse
          cases heq
          rw [Option.toList_some, List.singleton_append, loadSegments, hseg] at hload
          cases hload
      | ok v1 =>
        rw [ih]
        constructor
        · rintro ⟨segs, hparse, hload⟩
          refine ⟨seg :: segs, by rw [hparse]; rfl, ?_⟩
          rw [loadSegments, hseg]
          exact hload
        · rintro ⟨segs, hparse, hload⟩
          obtain ⟨⟨p'', segs'⟩, hrest, heq⟩ := Option.map_eq_some_iff.mp hparse
          cases heq
          rw [Option.toList_some, List.singleton_append, loadSegments, hseg] at hload
          exact ⟨segs', hrest, hload⟩

end walk

/-! ## The pages of an image -/

/-- A segment the walk lets through. -/
structure Segment.Ok (seg : Segment) : Prop where
  bounds : seg.inUserBounds = true
  size : 0 < seg.vmsize

variable {cmdEnd : ℕ} {img : Image} {p : Parse} {seg : Segment} {P : Pages} {segs : List Segment}

lemma parseCommand_ok {p' : Parse} (h : parseCommand img cmdEnd p = some (p', some seg)) : seg.Ok := by
  unfold parseCommand at h
  dsimp only at h
  -- only a segment command that passed its tests names a segment
  split_ifs at h with h1 h2 h3 h4 h5 h6 <;> cases h
  all_goals exact ⟨h6, h5.2⟩

lemma walkSegments_ok {n : ℕ} (h : seg ∈ walkSegments img cmdEnd n p) : seg.Ok := by
  induction n generalizing p with
  | zero => cases h
  | succ n ih =>
    rw [walkSegments] at h
    rcases hc : parseCommand img cmdEnd p with _ | ⟨q, _ | seg'⟩ <;> rw [hc] at h
    · cases h
    · exact ih h
    · rcases List.mem_append.mp h with h | h
      · obtain rfl := List.mem_singleton.mp h
        exact parseCommand_ok hc
      · exact ih h

lemma Image.segments_ok (h : seg ∈ img.segments) : seg.Ok := by
  unfold Image.segments at h
  split_ifs at h
  · exact walkSegments_ok h
  · cases h

lemma Segment.pageFlags_mask (seg : Segment) : seg.pageFlags &&& ptePhysMask = 0#64 := by
  unfold Segment.pageFlags
  split_ifs <;> decide

/-- The pages of a segment are those that meet its range of addresses. -/
lemma Segment.mem_pages (h : seg.Ok) {va : ℕ} (hva : pageSize ∣ va) :
    va ∈ seg.pages ↔ seg.vmaddr < va + pageSize ∧ va < seg.vmaddr + seg.vmsize := by
  have hpos := h.size
  obtain ⟨k, rfl⟩ := hva
  unfold Segment.pages Segment.startVaddr Segment.endVaddr
  simp only [List.mem_map, List.mem_range, pageSize]
  constructor
  · rintro ⟨i, hi, heq⟩
    omega
  · rintro ⟨h1, h2⟩
    exact ⟨k - seg.vmaddr / 4096, by omega, by omega⟩

lemma Segment.pageList (h : seg.Ok) : PageList seg.pages := by
  intro va hva
  have hdvd : pageSize ∣ va := by
    obtain ⟨i, -, rfl⟩ := List.mem_map.mp hva
    exact (Dvd.intro_left _ rfl).add (Dvd.intro_left i rfl)
  have hb := h.bounds
  have hmem := (seg.mem_pages h hdvd).mp hva
  simp only [Segment.inUserBounds, decide_eq_true_eq, not_or, not_lt, not_le] at hb
  exact ⟨hdvd, by omega⟩

/-- What the segments put on the pages: the last one that maps a page decides. -/
def imagePages (img : Image) : List Segment → Pages
  | [] => fun _ => none
  | seg :: segs => (imagePages img segs).over (pagesAt seg.pageFlags (segPage img seg) seg.pages)

/-- The pages `P` were all made for segments of the list. -/
def FromSegments (P : Pages) (segs : List Segment) : Prop :=
  ∀ x fl c, P x = some (fl, c) → ∃ seg ∈ segs, slotVa x ∈ seg.pages ∧ fl = seg.pageFlags

lemma FromSegments.over {Q : Pages} (hQ : FromSegments Q segs)
    (hP : FromSegments P segs) : FromSegments (Q.over P) segs := by
  intro x fl c h
  unfold Pages.over at h
  cases hQx : Q x with
  | none =>
    rw [hQx, Option.none_or] at h
    exact hP x fl c h
  | some w =>
    rw [hQx, Option.some_or] at h
    exact hQ x fl c (hQx.trans h)

lemma FromSegments.mono {segs' : List Segment} (h : FromSegments P segs)
    (hsub : ∀ seg ∈ segs, seg ∈ segs') : FromSegments P segs' := by
  intro x fl c hx
  obtain ⟨seg, hseg, hrest⟩ := h x fl c hx
  exact ⟨seg, hsub seg hseg, hrest⟩

lemma fromSegments_pagesAt {front : List ℕ} (hfront : front <+: seg.pages) :
    FromSegments (pagesAt seg.pageFlags (segPage img seg) front) [seg] := by
  intro x fl c h
  unfold pagesAt at h
  split_ifs at h with hmem
  cases h
  exact ⟨seg, List.mem_singleton_self seg, hfront.subset hmem, rfl⟩

lemma fromSegments_imagePages (img : Image) (segs : List Segment) : FromSegments (imagePages img segs) segs := by
  induction segs with
  | nil => exact fun _ _ _ h => nomatch h
  | cons seg segs ih =>
    apply FromSegments.over
    · exact ih.mono fun s hs => List.mem_cons_of_mem _ hs
    · apply (fromSegments_pagesAt List.prefix_rfl).mono
      intro s hs
      rw [List.mem_singleton.mp hs]
      exact List.mem_cons_self

section load

variable {v : Vm} {R : Finset ℕ} {r : ℕ}

/-- **Mapping segments** makes their pages, or some of them. -/
lemma loadSegments_spec (img : Image) (hr : r ∈ R) {segs : List Segment} (hsegs : ∀ seg ∈ segs, seg.Ok) (h : Sound v R) :
    (∃ v', loadSegments img (r * pageSize) segs v = .ok v' ∧ Populated v v' R r (imagePages img segs)) ∨
      ∃ v' P, loadSegments img (r * pageSize) segs v = .error v' ∧ Populated v v' R r P ∧ FromSegments P segs := by
  induction segs generalizing v with
  | nil => exact .inl ⟨v, rfl, (Grown.refl h).populated h r⟩
  | cons seg segs ih =>
    rw [loadSegments]
    rcases populate_spec hr seg.pageFlags_mask (segPage img seg)
      (Segment.pageList (hsegs seg List.mem_cons_self)) h with
      ⟨v1, heq, p⟩ | ⟨v1, front, heq, hfront, p⟩ <;> rw [loadSegment, heq] <;> dsimp only
    · have hfirst : FromSegments (pagesAt seg.pageFlags (segPage img seg) seg.pages) (seg :: segs) :=
        (fromSegments_pagesAt List.prefix_rfl).mono
          fun s hs => List.mem_singleton.mp hs ▸ List.mem_cons_self
      rcases ih (fun s hs => hsegs s (List.mem_cons_of_mem _ hs)) p.sound with
        ⟨v2, heq2, q⟩ | ⟨v2, Q, heq2, q, hQ⟩
      · exact .inl ⟨v2, heq2, p.trans hr q⟩
      · exact .inr ⟨v2, _, heq2, p.trans hr q, (hQ.mono fun s hs => List.mem_cons_of_mem _ hs).over hfirst⟩
    · exact .inr ⟨v1, _, rfl, p, (fromSegments_pagesAt hfront).mono
        fun s hs => List.mem_singleton.mp hs ▸ List.mem_cons_self⟩

/-- The loop over the commands, when it fails. -/
lemma loadCommands_error (hr : r ∈ R) {cmdEnd n : ℕ} {p : Parse} (h : Sound v R) {e : ℤ × Vm}
    (herr : loadCommands img cmdEnd (r * pageSize) n p v = .error e) :
    ∃ P, Populated v e.2 R r P ∧ FromSegments P (walkSegments img cmdEnd n p) ∧ e.1 ≠ 0 := by
  induction n generalizing p v with
  | zero => cases herr
  | succ n ih =>
    rw [loadCommands] at herr
    rw [walkSegments]
    rcases hc : parseCommand img cmdEnd p with _ | ⟨q, _ | seg⟩ <;> rw [hc] at herr <;>
      dsimp only at herr ⊢
    · obtain rfl := Except.error.inj herr
      exact ⟨_, (Grown.refl h).populated h r, nofun, show enoexec ≠ 0 by decide⟩
    · exact ih h herr
    · rcases populate_spec hr seg.pageFlags_mask (segPage img seg)
        (Segment.pageList (parseCommand_ok hc)) h with
        ⟨v1, heq, p1⟩ | ⟨v1, front, heq, hfront, p1⟩ <;> rw [loadSegment, heq] at herr <;>
        dsimp only at herr
      · obtain ⟨Q, q1, hQ, he⟩ := ih p1.sound herr
        refine ⟨_, p1.trans hr q1, ?_, he⟩
        exact (hQ.mono fun s hs => List.mem_append_right _ hs).over
          ((fromSegments_pagesAt List.prefix_rfl).mono fun s hs => List.mem_append_left _ hs)
      · obtain rfl := Except.error.inj herr
        exact ⟨_, p1, (fromSegments_pagesAt hfront).mono fun s hs => List.mem_append_left _ hs,
          show enomem ≠ 0 by decide⟩

end load

end Chimera
