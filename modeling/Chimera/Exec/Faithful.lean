import Chimera.Exec.FileImage
import Chimera.Exec.Room

/-!
# What a loaded program consists of

`mach_load_args` has no length to test offsets against, and a page that two segments share is replaced
as a whole by the later one. So a loaded program is its file (`LoadFaithful`) exactly under a condition
on the file (`FileFaithful`): whatever lies behind the file, it loads alike; each byte that is copied
comes from the file; and on each page the segment that comes last has the bytes that the segments
covering its addresses should have there (`loader_faithful`). A segment that reaches past the end of
its file shows kernel memory to the program (`loader_leaks`).
-/

namespace Chimera

open Lib

/-- The byte at a user address, if it is mapped. -/
def userByte (v : Vm) (pml4Phys a : ℕ) : Option (BitVec 8) :=
  if present (view v.mem (frameOf pml4Phys) (vaSlot a)) then
    some (frameByte v (pteFrame (view v.mem (frameOf pml4Phys) (vaSlot a))) (a % pageSize))
  else none

/-- A user address that is not the stack's. -/
def offStack (a : ℕ) : Prop := a < userEnd ∧ ¬ (stackBottom ≤ a ∧ a < stackTop)

/-- The byte `b` at `a` is zero or the one the last segment covering `a` prescribes, and if there is
such a segment it is that segment's byte. -/
structure ByteOf (file : List (BitVec 8)) (img : Image) (a : ℕ) (b : BitVec 8) : Prop where
  prescribed : b = 0#8 ∨ ∃ seg o, lastCovering img.segments a = some seg ∧ seg.source a = some o ∧
    file[o]? = some b
  preserved : ∀ seg, lastCovering img.segments a = some seg → b = seg.byte img a

section load

variable (file : List (BitVec 8)) (arg0 : Option (List (BitVec 8))) (argv envp : List (List (BitVec 8)))
  (pml4Phys : ℕ) (v : Vm)

/-- **A loaded program is its file**, whatever lies behind the file. -/
def LoadFaithful : Prop :=
  ∀ K entry sp v', machLoadArgs (fileImage file K) arg0 argv envp pml4Phys v = .ok (entry, sp, v') →
    (∀ a, offStack a → (∃ seg ∈ (fileImage file K).segments, seg.maps a = true) →
        ∃ b, userByte v' pml4Phys a = some b ∧ ByteOf file (fileImage file K) a b) ∧
      ∀ K', ∃ entry' sp' v'', machLoadArgs (fileImage file K') arg0 argv envp pml4Phys v = .ok (entry', sp', v'') ∧
        ∀ a, offStack a → userByte v'' pml4Phys a = userByte v' pml4Phys a

/-- The loader has no reason to fail. -/
def CanLoad (img : Image) : Prop :=
  img.ok = true ∧ argsFit arg0 argv envp ∧ mapsAll pml4Phys (neededPages img.segments) v = true

/-- A byte that the segment copies comes from the file. -/
def Segment.InFile (seg : Segment) (a : ℕ) : Prop := ∀ o, seg.source a = some o → o < file.length

/-- The byte of a segment, as far as the file has it. -/
def Segment.fileByte (seg : Segment) (a : ℕ) : BitVec 8 := seg.byte (fileImage file fun _ => 0#8) a

/-- The segment that comes last on the page of `a` copies from the file, and has the byte at `a` that
the last segment covering `a` has; where none does, it has none. -/
def ByteFaithful (segs : List Segment) (a : ℕ) : Prop :=
  ∀ last, lastMapping segs a = some last → last.InFile file a ∧
    match lastCovering segs a with
    | none => last.fileByte file a = 0#8
    | some seg => seg.InFile file a ∧ seg.fileByte file a = last.fileByte file a

/-- The condition on the file. -/
def FileFaithful : Prop :=
  ∀ K, CanLoad arg0 argv envp pml4Phys v (fileImage file K) →
    (∀ a, offStack a → ByteFaithful file (fileImage file K).segments a) ∧
      ∀ K', CanLoad arg0 argv envp pml4Phys v (fileImage file K') ∧ ∀ a, offStack a →
        (lastMapping (fileImage file K').segments a).map (fun seg => seg.fileByte file a) =
          (lastMapping (fileImage file K).segments a).map (fun seg => seg.fileByte file a)

end load

/-! ## The memory of a loaded program -/

variable {v v' : Vm} {R : Finset ℕ} {r : ℕ} {arg0 : Option (List (BitVec 8))} {argv envp : List (List (BitVec 8))}

lemma offStack_page {a : ℕ} (h : offStack a) : slotVa (vaSlot a) ∉ stackPages := by
  rw [slotVa_vaSlot h.1, mem_stackPages (Dvd.intro_left _ rfl)]
  rintro ⟨hlo, hhi⟩
  apply h.2
  simp only [stackBottom, stackTop, pageSize] at *
  omega

/-- The loader succeeds if and only if it has no reason to fail. -/
lemma machLoadArgs_ok_iff (h : Sound v R) (hr : r ∈ R) (img : Image) :
    (∃ entry sp v', machLoadArgs img arg0 argv envp (r * pageSize) v = .ok (entry, sp, v')) ↔
      CanLoad arg0 argv envp (r * pageSize) v img := by
  unfold CanLoad
  rw [← loadsTo_iff h hr img arg0 argv envp]
  rcases machLoadArgs_spec img arg0 argv envp h hr with
    ⟨e, v', P, heq, -, -, -, hnot⟩ | ⟨p, segs, sp, v', P, heq, -, -, hload, -⟩
  · refine iff_of_false ?_ hnot
    rintro ⟨entry, sp, v'', hok⟩
    rw [heq] at hok
    cases hok
  · exact iff_of_true ⟨_, _, _, heq⟩ hload

/-- **The bytes of a loaded program**: those of the segment that comes last on their page. -/
lemma userByte_loaded (h : Sound v R) (hr : r ∈ R) {img : Image} {entry sp : ℕ}
    (hok : machLoadArgs img arg0 argv envp (r * pageSize) v = .ok (entry, sp, v')) {a : ℕ}
    (ha : offStack a) :
    userByte v' (r * pageSize) a =
      match lastMapping img.segments a with
      | some seg => some (seg.byte img a)
      | none => userByte v (r * pageSize) a := by
  rcases machLoadArgs_spec img arg0 argv envp h hr with
    ⟨e, v1, P, heq, -⟩ | ⟨p, segs, sp1, v1, P, heq, hparse, -, -, pop, -, loaded⟩
  · rw [heq] at hok
    cases hok
  rw [heq] at hok
  obtain ⟨-, hok⟩ := Prod.mk.inj (Except.ok.inj hok)
  cases hok
  have hsegs := Image.segments_of_parse hparse
  have hslot : slotVa (vaSlot a) = a / pageSize * pageSize := slotVa_vaSlot ha.1
  have hmaps : ∀ seg : Segment, seg.maps (slotVa (vaSlot a)) = seg.maps a := fun seg => by
    rw [Segment.maps, Segment.maps, hslot, Nat.mul_div_cancel _ (by decide : 0 < pageSize)]
  have hlast : lastMapping segs (slotVa (vaSlot a)) = lastMapping segs a := by
    unfold lastMapping
    simp only [hmaps]
  have hP := loaded.image (vaSlot a) (offStack_page ha)
  rw [imagePages_eq, hlast] at hP
  unfold userByte
  rw [h.frameOf_root hr, hsegs]
  cases hcase : lastMapping segs a with
  | some seg =>
    rw [hcase] at hP
    have page := pop.loaded (vaSlot a) _ _ hP
    rw [if_pos page.present]
    unfold frameByte
    rw [page.contents, hslot, getByte_segPage]
  | none =>
    rw [hcase] at hP
    have hnone : ¬ (r = r ∧ (P (vaSlot a)).isSome) := by
      rw [hP]
      simp
    rw [pop.view_eq r hr (vaSlot a) hnone]
    by_cases hpres : present (view v.mem r (vaSlot a)) = true
    · rw [if_pos hpres, if_pos hpres]
      unfold frameByte
      rw [pop.data_eq r hr (vaSlot a) hnone hpres]
    · rw [if_neg hpres, if_neg hpres]

lemma exists_maps_iff {segs : List Segment} {a : ℕ} :
    (∃ seg ∈ segs, seg.maps a = true) ↔ ∃ last, lastMapping segs a = some last := by
  unfold lastMapping
  rw [← Option.isSome_iff_exists, List.find?_isSome]
  simp

/-- A covered address is on a page. -/
lemma lastMapping_of_covering {img : Image} {a : ℕ} {seg : Segment}
    (h : lastCovering img.segments a = some seg) : ∃ last, lastMapping img.segments a = some last := by
  have hmem := List.mem_reverse.mp (List.mem_of_find?_eq_some h)
  have hcov : seg.covers a = true := by
    unfold lastCovering at h
    have hfound := List.find?_some h
    exact hfound
  exact exists_maps_iff.mp ⟨seg, hmem, seg.maps_of_covers (Image.segments_ok hmem) hcov⟩

section bytes

variable {file : List (BitVec 8)}

/-- In the file, what lies behind it does not matter. -/
lemma Segment.InFile.byte_eq {seg : Segment} {a : ℕ} (h : seg.InFile file a) (K : Image) :
    seg.byte (fileImage file K) a = seg.fileByte file a := by
  unfold Segment.fileByte Segment.byte
  cases hs : seg.source a with
  | none => rfl
  | some o => exact fileImage_known K (h o hs) _

/-- A byte that does not come from the file is the byte behind it. -/
lemma Alike.byte_eq {s s' : Segment} (h : Alike s s') {a o : ℕ} (ha : a < userEnd)
    (hn : file.length < 2 ^ 32) (hs : s.source a = some o) (ho : file.length ≤ o) (c : BitVec 8) :
    s'.byte (fileImage file fun _ => c) a = c := by
  obtain ⟨o', hs', ho'⟩ := h.source ha hn hs ho
  unfold Segment.byte
  rw [hs']
  exact fileImage_behind _ ho'

end bytes

/-! ## The two directions -/

section faithful

variable {file : List (BitVec 8)}

lemma CanLoad.parse {img : Image} {p : ℕ} (h : CanLoad arg0 argv envp p v img) :
    ∃ q, img.parse = some (q, img.segments) := by
  have hok := h.1
  unfold Image.ok at hok
  cases hparse : img.parse with
  | none =>
    rw [hparse] at hok
    cases hok
  | some q => exact ⟨q.1, by rw [Image.segments_of_parse hparse]⟩

/-- A file that meets the condition is loaded faithfully. -/
lemma FileFaithful.loadFaithful (h : Sound v R) (hr : r ∈ R)
    (hfile : FileFaithful file arg0 argv envp (r * pageSize) v) :
    LoadFaithful file arg0 argv envp (r * pageSize) v := by
  intro K entry sp v' hok
  have hcan := (machLoadArgs_ok_iff h hr _).mp ⟨entry, sp, v', hok⟩
  obtain ⟨hbytes, hothers⟩ := hfile K hcan
  refine ⟨fun a ha hmaps => ?_, fun K' => ?_⟩
  · obtain ⟨last, hlast⟩ := exists_maps_iff.mp hmaps
    obtain ⟨hin, hcov⟩ := hbytes a ha last hlast
    refine ⟨last.byte (fileImage file K) a, ?_, ?_⟩
    · rw [userByte_loaded h hr hok ha, hlast]
    · rw [hin.byte_eq]
      cases hcase : lastCovering (fileImage file K).segments a with
      | none =>
        rw [hcase] at hcov
        exact ⟨.inl hcov, fun seg hseg => by rw [hcase] at hseg; cases hseg⟩
      | some seg =>
        rw [hcase] at hcov
        obtain ⟨hseg, heq⟩ := hcov
        rw [← heq, ← hseg.byte_eq K]
        refine ⟨?_, fun seg' hseg' => by rw [hcase] at hseg'; rw [Option.some.inj hseg']⟩
        cases hs : seg.source a with
        | none =>
          left
          rw [Segment.byte, hs]
        | some o =>
          have ho := hseg o hs
          refine .inr ⟨seg, o, hcase, hs, ?_⟩
          rw [Segment.byte, hs]
          simp [fileImage, List.getElem?_eq_getElem ho]
  · obtain ⟨hcan', hsame⟩ := hothers K'
    obtain ⟨entry', sp', v'', hok'⟩ := (machLoadArgs_ok_iff h hr _).mpr hcan'
    refine ⟨entry', sp', v'', hok', fun a ha => ?_⟩
    have hbytes' := (hfile K' hcan').1 a ha
    have hmap := hsame a ha
    rw [userByte_loaded h hr hok ha, userByte_loaded h hr hok' ha]
    cases hlast : lastMapping (fileImage file K).segments a with
    | none =>
      rw [hlast, Option.map_none, Option.map_eq_none_iff] at hmap
      rw [hmap]
    | some last =>
      rw [hlast, Option.map_some, Option.map_eq_some_iff] at hmap
      obtain ⟨last', hlast', heq⟩ := hmap
      rw [hlast']
      dsimp only
      rw [(hbytes a ha last hlast).1.byte_eq, (hbytes' last' hlast').1.byte_eq, heq]

/-- **Where a program is loaded faithfully, the bytes come from the file.** If one did not, it would
be a `1` behind which there are `1`s, and a `2` behind which there are `2`s. -/
lemma LoadFaithful.inFile (h : Sound v R) (hr : r ∈ R) (hn : file.length < 2 ^ 32)
    (hload : LoadFaithful file arg0 argv envp (r * pageSize) v) {K : Image}
    (hcan : CanLoad arg0 argv envp (r * pageSize) v (fileImage file K)) {a : ℕ} (ha : offStack a)
    {seg : Segment} (hseg : lastMapping (fileImage file K).segments a = some seg ∨
      lastCovering (fileImage file K).segments a = some seg) : seg.InFile file a := by
  intro o ho
  by_contra hlen
  obtain ⟨entry, sp, v', hok⟩ := (machLoadArgs_ok_iff h hr _).mpr hcan
  obtain ⟨q, hparse⟩ := hcan.parse
  have hconst : ∀ c : BitVec 8, 1 ≤ c.toNat ∧ c.toNat ≤ 2 → userByte v' (r * pageSize) a = some c := by
    intro c hc
    obtain ⟨entry', sp', v'', hok', hsame⟩ := (hload K entry sp v' hok).2 fun _ => c
    rw [← hsame a ha]
    have hcan' := (machLoadArgs_ok_iff h hr _).mp ⟨entry', sp', v'', hok'⟩
    obtain ⟨q', hparse'⟩ := hcan'.parse
    have halike := segments_alike K hc hparse hparse'
    rcases hseg with hlast | hcov
    · obtain ⟨last', hlast', hab⟩ := exists_of_rel (lastMapping_alike halike a) hlast
      rw [userByte_loaded h hr hok' ha, hlast']
      exact congrArg some (hab.byte_eq ha.1 hn ho (not_lt.mp hlen) c)
    · obtain ⟨seg', hcov', hab⟩ := exists_of_rel (lastCovering_alike halike a) hcov
      obtain ⟨b, hb, hof⟩ := (hload _ entry' sp' v'' hok').1 a ha
        (exists_maps_iff.mpr (lastMapping_of_covering hcov'))
      rw [hb, hof.preserved seg' hcov', hab.byte_eq ha.1 hn ho (not_lt.mp hlen) c]
  have h1 := hconst 1 (by decide)
  have h2 := hconst 2 (by decide)
  rw [h1] at h2
  exact absurd h2 (by decide)

/-- A file that is loaded faithfully meets the condition. -/
lemma LoadFaithful.fileFaithful (h : Sound v R) (hr : r ∈ R) (hn : file.length < 2 ^ 32)
    (hload : LoadFaithful file arg0 argv envp (r * pageSize) v) :
    FileFaithful file arg0 argv envp (r * pageSize) v := by
  intro K hcan
  obtain ⟨entry, sp, v', hok⟩ := (machLoadArgs_ok_iff h hr _).mpr hcan
  obtain ⟨hbytes, hothers⟩ := hload K entry sp v' hok
  refine ⟨fun a ha last hlast => ?_, fun K' => ?_⟩
  · have hin := hload.inFile h hr hn hcan ha (.inl hlast)
    refine ⟨hin, ?_⟩
    obtain ⟨b, hb, hof⟩ := hbytes a ha (exists_maps_iff.mpr ⟨last, hlast⟩)
    rw [userByte_loaded h hr hok ha, hlast] at hb
    have hb' : last.fileByte file a = b := (hin.byte_eq K).symm.trans (Option.some.inj hb)
    cases hcase : lastCovering (fileImage file K).segments a with
    | none =>
      refine hb'.trans (hof.prescribed.resolve_right ?_)
      rintro ⟨seg, o, hseg, -⟩
      rw [hcase] at hseg
      cases hseg
    | some seg =>
      have hseg := hload.inFile h hr hn hcan ha (.inr hcase)
      refine ⟨hseg, ?_⟩
      rw [hb', hof.preserved seg hcase, hseg.byte_eq]
  · obtain ⟨entry', sp', v'', hok', hsame⟩ := hothers K'
    have hcan' := (machLoadArgs_ok_iff h hr _).mp ⟨entry', sp', v'', hok'⟩
    refine ⟨hcan', fun a ha => ?_⟩
    -- both find a segment where a kernel of `1`s does, or neither
    obtain ⟨_, _, _, hone, -⟩ := hothers fun _ => 1#8
    obtain ⟨q1, hparse1⟩ := ((machLoadArgs_ok_iff h hr _).mp ⟨_, _, _, hone⟩).parse
    obtain ⟨q, hparse⟩ := hcan.parse
    obtain ⟨q', hparse'⟩ := hcan'.parse
    have hrel := lastMapping_alike (segments_alike K (by decide) hparse hparse1) a
    have hrel' := lastMapping_alike (segments_alike K' (by decide) hparse' hparse1) a
    have hbyte := hsame a ha
    rw [userByte_loaded h hr hok ha, userByte_loaded h hr hok' ha] at hbyte
    have hin : ∀ last, lastMapping (fileImage file K).segments a = some last → last.InFile file a :=
      fun last hlast => hload.inFile h hr hn hcan ha (.inl hlast)
    have hin' : ∀ last, lastMapping (fileImage file K').segments a = some last → last.InFile file a :=
      fun last hlast => hload.inFile h hr hn hcan' ha (.inl hlast)
    generalize lastMapping (fileImage file fun _ => 1#8).segments a = o1 at hrel hrel'
    generalize lastMapping (fileImage file K).segments a = o at hrel hbyte hin ⊢
    generalize lastMapping (fileImage file K').segments a = o' at hrel' hbyte hin' ⊢
    cases hrel with
    | none =>
      cases hrel'
      rfl
    | some hab =>
      cases hrel' with
      | some hab' =>
        have heq := Option.some.inj hbyte
        rw [(hin _ rfl).byte_eq, (hin' _ rfl).byte_eq] at heq
        exact congrArg some heq

/-- Images with the same walk are loaded under the same conditions. -/
lemma canLoad_congr {img img' : Image} {p : ℕ} (h : img'.parse = img.parse) :
    CanLoad arg0 argv envp p v img → CanLoad arg0 argv envp p v img' ∧ img'.segments = img.segments := by
  intro hcan
  obtain ⟨q, hparse⟩ := hcan.parse
  have hsegs := Image.segments_of_parse (h.trans hparse)
  refine ⟨⟨?_, hcan.2.1, hsegs ▸ hcan.2.2⟩, hsegs⟩
  have hok := hcan.1
  unfold Image.ok at hok ⊢
  rwa [h]

/-- **The condition on a file that holds its command table**: only the bytes of its segments matter. -/
lemma fileFaithful_iff {p : ℕ} (K : Image) (h : 32 + (fileImage file K).sizeofcmds ≤ file.length) :
    FileFaithful file arg0 argv envp p v ↔ (CanLoad arg0 argv envp p v (fileImage file K) →
      ∀ a, offStack a → ByteFaithful file (fileImage file K).segments a) := by
  refine ⟨fun hfile hcan => (hfile K hcan).1, fun hbytes K' hcan' => ?_⟩
  have hsame : ∀ K', (fileImage file K').parse = (fileImage file K).parse := parse_known K h
  obtain ⟨hcan, hsegs⟩ := canLoad_congr (hsame K').symm hcan'
  rw [← hsegs]
  refine ⟨hbytes hcan, fun K'' => ?_⟩
  obtain ⟨hcan'', hsegs''⟩ := canLoad_congr (hsame K'') hcan
  rw [hsegs'']
  exact ⟨hcan'', fun _ _ => rfl⟩

end faithful

/-! ## A small program -/

/-- A header and one segment, `__TEXT`, of `size` bytes at `0x10000`, from the start of the file. -/
def programFile (size : ℕ) : List (BitVec 8) :=
  [0xCF, 0xFA, 0xED, 0xFE, 0x07, 0, 0, 0x01, 0, 0, 0, 0, 2, 0, 0, 0, 1, 0, 0, 0, 72, 0, 0, 0,
    0, 0, 0, 0, 0, 0, 0, 0] ++
  [0x19, 0, 0, 0, 72, 0, 0, 0] ++ textName ++ [0, 0, 0, 0, 0, 0, 0, 0, 0, 0] ++
  wordBytes 0x10000 ++ wordBytes size ++ wordBytes 0 ++ wordBytes size ++
  [5, 0, 0, 0, 5, 0, 0, 0, 0, 0, 0, 0, 0, 0, 0, 0]

/-- Its segment. -/
def programSegment (size : ℕ) : Segment := ⟨textName ++ [0, 0, 0, 0, 0, 0, 0, 0, 0, 0], 0x10000, size, 0, size, 5⟩

/-- The program can be loaded on the machine with room. -/
lemma programFile_canLoad {size : ℕ} (hparse : (fileImage (programFile size) fun _ => 0#8).parse =
      some (⟨104, 0x10000, 0⟩, [programSegment size]))
    (hpages : (programSegment size).pages = [0x10000]) :
    CanLoad none [] [] (frameOf (pmmAllocPage roomyPmm).1 * pageSize) (firstSpace roomyPmm)
      (fileImage (programFile size) fun _ => 0#8) := by
  obtain ⟨hsound, hview, room⟩ := firstSpace_sound roomyPmm_inv
    (roomyPmm_room.mono (by norm_num : 8196 + 1 ≤ 16254))
  refine ⟨?_, by unfold argsFit; decide, ?_⟩
  · unfold Image.ok
    rw [hparse]
    exact (by decide : entryOk 0x10000 = true)
  · rw [Image.segments_of_parse hparse]
    have hlist : neededPages [programSegment size] =
        (0x10000, (programSegment size).pageFlags) :: stackPages.map fun va => (va, loaderStackFlags) := by
      simp [neededPages, hpages]
    rw [hlist]
    refine mapsAll_of_room (Finset.mem_singleton_self _) (fun q hq => ?_) hsound (fun x hp => ?_) ?_
    · rcases List.mem_cons.mp hq with rfl | hq
      · exact ⟨Segment.pageFlags_mask _, (by decide : 0x1000 ≤ 0x10000), (by decide : 0x10000 < userEnd)⟩
      · obtain ⟨va, hva, rfl⟩ := List.mem_map.mp hq
        obtain ⟨hdvd, hlt⟩ := stackPages_list va hva
        have hlo := ((mem_stackPages hdvd).mp hva).1
        exact ⟨(by decide : loaderStackFlags &&& ptePhysMask = 0#64), le_trans (by decide) hlo, hlt⟩
    · rw [hview] at hp
      simp at hp
    · rwa [List.length_cons, List.length_map, stackPages, List.length_map, List.length_range]

/-- The program without a byte too many is loaded faithfully. -/
lemma programFile_faithful (a : ℕ) : ByteFaithful (programFile 104) [programSegment 104] a := by
  have hlen : (programFile 104).length = 104 := by decide
  have hsource : ∀ o, (programSegment 104).source a = some o → 0x10000 ≤ a ∧ a < 0x10068 ∧ o < 104 := by
    intro o ho
    unfold Segment.source programSegment u64 at ho
    split_ifs at ho with hin
    obtain rfl := Option.some.inj ho
    dsimp only at hin ⊢
    omega
  have hin : (programSegment 104).InFile (programFile 104) a := fun o ho => hlen ▸ (hsource o ho).2.2
  intro last hlast
  have hmem := List.mem_of_find?_eq_some hlast
  obtain rfl : last = programSegment 104 := by simpa using hmem
  refine ⟨hin, ?_⟩
  cases hcov : lastCovering [programSegment 104] a with
  | some seg =>
    have hmem' := List.mem_of_find?_eq_some hcov
    obtain rfl : seg = programSegment 104 := by simpa using hmem'
    exact ⟨hin, rfl⟩
  | none =>
    have hno := List.find?_eq_none.mp hcov (programSegment 104) (by simp)
    show (programSegment 104).byte _ a = 0#8
    unfold Segment.byte
    cases hs : (programSegment 104).source a with
    | none => rfl
    | some o =>
      obtain ⟨h1, h2, -⟩ := hsource o hs
      refine absurd (decide_eq_true ?_) hno
      exact ⟨h1, h2⟩

end Chimera
