import Chimera.Exec.Load

/-!
# Files as images

The loader is given the address of a file, not its length. `fileImage file K` is what it finds there:
the file, and behind it whatever the kernel has in memory, `K`. A segment says for each address of
its pages from which offset the byte comes (`Segment.source`); which segment decides is a question of
pages (`lastMapping`), which should decide one of addresses (`lastCovering`).

How far a file can depend on what lies behind it is seen on kernels that hold one byte everywhere. If
the walk accepts the file behind which all bytes are `1`, then the commands it comes to, the pages of
their segments, and all but the end of the last one lie in the file (`segments_alike`): a length or an
address with a `1` in its highest byte is out of all bounds.
-/

namespace Chimera

/-- What the loader finds at the address of a file, with `K` behind it. -/
def fileImage (file : List (BitVec 8)) (K : Image) : Image := fun o => (file[o]?).getD (K o)

/-! ## Where the bytes of a segment come from -/

/-- The offset from which the byte at `a` is copied, for an address on a page of the segment. -/
def Segment.source (seg : Segment) (a : ℕ) : Option ℕ :=
  if seg.vmaddr ≤ a ∧ a < u64 (seg.vmaddr + seg.filesize) then
    some (u64 (seg.fileoff + (a - seg.vmaddr)))
  else none

/-- The byte the segment has at `a`. -/
def Segment.byte (seg : Segment) (img : Image) (a : ℕ) : BitVec 8 :=
  match seg.source a with
  | none => 0#8
  | some o => img o

/-- The address is one of the segment's. -/
def Segment.covers (seg : Segment) (a : ℕ) : Bool := seg.vmaddr ≤ a ∧ a < seg.vmaddr + seg.vmsize

/-- The address is on a page of the segment. -/
def Segment.maps (seg : Segment) (a : ℕ) : Bool := a / pageSize * pageSize ∈ seg.pages

/-- The last segment that covers an address. -/
def lastCovering (segs : List Segment) (a : ℕ) : Option Segment := segs.reverse.find? fun s => s.covers a

/-- The last segment with a page at an address. -/
def lastMapping (segs : List Segment) (a : ℕ) : Option Segment := segs.reverse.find? fun s => s.maps a

variable {a j : ℕ} {α : Type} {s s' : Segment} {segs segs' : List Segment}

lemma Segment.maps_of_covers {seg : Segment} (h : seg.Ok) (hc : seg.covers a = true) : seg.maps a = true := by
  unfold Segment.covers at hc
  unfold Segment.maps
  rw [decide_eq_true_eq] at hc ⊢
  rw [seg.mem_pages h (Dvd.intro_left _ rfl)]
  unfold pageSize
  omega

lemma lastMapping_cons (seg : Segment) (segs : List Segment) (a : ℕ) :
    lastMapping (seg :: segs) a = (lastMapping segs a).or (if seg.maps a then some seg else none) := by
  unfold lastMapping
  rw [List.reverse_cons, List.find?_append]
  cases h : seg.maps a <;> simp [h]

/-- The last segment with a page there decides what is on the page. -/
lemma imagePages_eq (img : Image) (segs : List Segment) (x : Slot) : imagePages img segs x =
      (lastMapping segs (slotVa x)).map fun seg => (seg.pageFlags, segPage img seg (slotVa x)) := by
  induction segs with
  | nil => rfl
  | cons seg segs ih =>
    have hself : slotVa x / pageSize * pageSize = slotVa x := by rw [← slotVa_vaSlot (slotVa_lt x), vaSlot_slotVa]
    rw [imagePages, Pages.over, ih, lastMapping_cons]
    cases lastMapping segs (slotVa x) with
    | some s => rfl
    | none =>
      have hmaps : seg.maps (slotVa x) = decide (slotVa x ∈ seg.pages) := by rw [Segment.maps, hself]
      rw [hmaps]
      by_cases hmem : slotVa x ∈ seg.pages <;> simp [pagesAt, hmem]

/-! ## Bytes of a page -/

lemma getLsbD_ff (m : ℕ) : (0xFF#64).getLsbD m = decide (m < 8) := by
  by_cases h : m < 64
  · revert m
    decide
  · rw [BitVec.getLsbD_of_ge _ _ (by omega)]
    simp only [Bool.false_eq, decide_eq_false_iff_not, not_lt]
    omega

lemma getByte_setByte (w : BitVec 64) {i : ℕ} (hj : j < 8) (b : BitVec 8) :
    getByte (setByte w i b) j = if j = i then b else getByte w j := by
  apply BitVec.eq_of_getLsbD_eq
  intro k hk
  have h64 : 8 * j + k < 64 := by omega
  have hbit : ∀ u : BitVec 64, (getByte u j).getLsbD k = u.getLsbD (8 * j + k) := fun u => by
    simp only [getByte, BitVec.getLsbD_setWidth, BitVec.getLsbD_ushiftRight, hk, decide_true, Bool.true_and]
  rw [hbit, setByte]
  simp only [BitVec.getLsbD_or, BitVec.getLsbD_and, BitVec.getLsbD_not, BitVec.getLsbD_shiftLeft,
    BitVec.getLsbD_setWidth, getLsbD_ff, h64, decide_true, Bool.true_and]
  rcases lt_trichotomy j i with hlt | rfl | hgt
  · have h1 : 8 * j + k < 8 * i := by omega
    simp [h1, hlt.ne, hbit]
  · have h1 : 8 * j + k - 8 * j = k := by omega
    simp only [h1, hk, not_lt.mpr (Nat.le_add_right (8 * j) k), decide_false, decide_true,
      Bool.not_false, Bool.and_true, Bool.not_true, Bool.and_false, Bool.false_or, Bool.true_and, if_true,
      Bool.and_eq_right_iff_imp]
    exact fun _ => decide_eq_true (by omega)
  · have h1 : ¬ 8 * j + k < 8 * i := by omega
    have h2 : ¬ 8 * j + k - 8 * i < 8 := by omega
    have h3 : b.getLsbD (8 * j + k - 8 * i) = false := BitVec.getLsbD_of_ge _ _ (by omega)
    simp [h1, h2, h3, hgt.ne', hbit]

lemma getByte_pageWord (b : ℕ → BitVec 8) (i : ℕ) (hj : j < 8) : getByte (pageWord b i) j = b (8 * i + j) := by
  have hfold : ∀ n, getByte ((List.range n).foldl (fun w j => setByte w j (b (8 * i + j))) 0#64) j =
      if j < n then b (8 * i + j) else 0#8 := by
    intro n
    induction n with
    | zero => simp [getByte]
    | succ n ih =>
      rw [List.range_succ, List.foldl_append, List.foldl_cons, List.foldl_nil, getByte_setByte _ hj, ih]
      by_cases hjn : j = n
      · subst hjn
        simp
      · have hiff : j < n + 1 ↔ j < n := by omega
        simp only [hjn, if_false, hiff]
  rw [pageWord, hfold, if_pos hj]

/-- The byte of a page of a segment. -/
lemma getByte_segPage (img : Image) (seg : Segment) (a : ℕ) :
    getByte (segPage img seg (a / pageSize * pageSize) (a % pageSize / 8)) (a % pageSize % 8) = seg.byte img a := by
  have hoff : 8 * (a % pageSize / 8) + a % pageSize % 8 = a % pageSize := Nat.div_add_mod _ 8
  have ha : a / pageSize * pageSize + a % pageSize = a := Nat.div_add_mod' a pageSize
  have hlt : a % pageSize < pageSize := Nat.mod_lt _ (by decide)
  unfold segPage
  rw [getByte_pageWord _ _ (Nat.mod_lt _ (by decide)), hoff, ha]
  unfold Segment.byte Segment.source
  generalize u64 (seg.vmaddr + seg.filesize) = stop
  by_cases hin : seg.vmaddr ≤ a ∧ a < stop
  · rw [if_pos hin, if_pos]
    constructor
    · split_ifs <;> omega
    · split_ifs <;> omega
  · rw [if_neg hin, if_neg]
    rintro ⟨h1, h2⟩
    split_ifs at h1 h2 <;> omega

/-! ## One command -/

/-- The segment a command asks for, if it is one to map. -/
def commandSegment (img : Image) (o : ℕ) : Option Segment :=
  if img.u32At o = lcSegment64 ∧ ¬ segNameIs (segmentAt img o).segname pagezeroName ∧
    (segmentAt img o).vmsize > 0 then some (segmentAt img o) else none

/-- What a command that is accepted looks like. -/
lemma parseCommand_some {img : Image} {cmdEnd : ℕ} {p q : Parse} {seg : Option Segment}
    (h : parseCommand img cmdEnd p = some (q, seg)) :
    p.cmdPtr + img.u32At (p.cmdPtr + 4) ≤ cmdEnd ∧ q.cmdPtr = p.cmdPtr + img.u32At (p.cmdPtr + 4) ∧
      seg = commandSegment img p.cmdPtr ∧ ∀ s ∈ seg, s.inUserBounds = true := by
  unfold parseCommand at h
  unfold commandSegment
  by_cases h1 : p.cmdPtr + 8 > cmdEnd
  · rw [if_pos h1] at h
    cases h
  rw [if_neg h1] at h
  by_cases h2 : img.u32At (p.cmdPtr + 4) < 8 ∨ p.cmdPtr + img.u32At (p.cmdPtr + 4) > cmdEnd
  · rw [if_pos h2] at h
    cases h
  rw [if_neg h2] at h
  refine ⟨by omega, ?_⟩
  by_cases hcmd : img.u32At p.cmdPtr = lcSegment64
  · rw [if_pos hcmd] at h
    by_cases h3 : img.u32At (p.cmdPtr + 4) < 72
    · rw [if_pos h3] at h
      cases h
    rw [if_neg h3] at h
    by_cases h4 : ¬ segNameIs (segmentAt img p.cmdPtr).segname pagezeroName ∧ (segmentAt img p.cmdPtr).vmsize > 0
    · rw [if_pos h4] at h
      rw [if_pos ⟨hcmd, h4⟩]
      by_cases h5 : (segmentAt img p.cmdPtr).inUserBounds = true
      · rw [if_pos h5] at h
        cases h
        exact ⟨rfl, rfl, fun s hs => Option.some.inj hs ▸ h5⟩
      · rw [if_neg h5] at h
        cases h
    · rw [if_neg h4] at h
      rw [if_neg fun hc => h4 hc.2]
      cases h
      exact ⟨rfl, rfl, nofun⟩
  · rw [if_neg hcmd] at h
    rw [if_neg fun hc => hcmd hc.1]
    split_ifs at h <;> obtain ⟨rfl, rfl⟩ := Prod.mk.inj (Option.some.inj h) <;> exact ⟨rfl, rfl, nofun⟩

/-! ## Kernels that hold one byte everywhere -/

section behind

variable {file : List (BitVec 8)} {c : BitVec 8} (K : Image) {o cmdEnd : ℕ} {q q' : Parse}

lemma fileImage_known (h : o < file.length) (K' : Image) : fileImage file K o = fileImage file K' o := by
  simp [fileImage, List.getElem?_eq_getElem h]

lemma fileImage_behind (h : file.length ≤ o) : fileImage file K o = K o := by
  simp [fileImage, List.getElem?_eq_none h]

lemma u32At_known (h : o + 4 ≤ file.length) (K' : Image) :
    (fileImage file K).u32At o = (fileImage file K').u32At o := by
  unfold Image.u32At
  rw [fileImage_known K (by omega : o < file.length) K', fileImage_known K (by omega : o + 1 < file.length) K',
    fileImage_known K (by omega : o + 2 < file.length) K',
    fileImage_known K (by omega : o + 3 < file.length) K']

lemma u64At_known (h : o + 8 ≤ file.length) (K' : Image) :
    (fileImage file K).u64At o = (fileImage file K').u64At o := by
  unfold Image.u64At
  rw [u32At_known K (by omega : o + 4 ≤ file.length) K', u32At_known K (by omega : o + 4 + 4 ≤ file.length) K']

lemma segmentAt_known (h : o + 72 ≤ file.length) (K' : Image) :
    segmentAt (fileImage file K) o = segmentAt (fileImage file K') o := by
  unfold segmentAt
  rw [u64At_known K (by omega : o + 24 + 8 ≤ file.length) K', u64At_known K (by omega : o + 32 + 8 ≤ file.length) K',
    u64At_known K (by omega : o + 40 + 8 ≤ file.length) K', u64At_known K (by omega : o + 48 + 8 ≤ file.length) K',
    u32At_known K (by omega : o + 60 + 4 ≤ file.length) K']
  congr 1
  refine List.map_congr_left fun i hi => fileImage_known K ?_ K'
  have := List.mem_range.mp hi
  omega

/-- A command in the file is the same for all kernels. -/
lemma parseCommand_known (hend : cmdEnd ≤ file.length) (p : Parse) (K' : Image) :
    parseCommand (fileImage file K) cmdEnd p = parseCommand (fileImage file K') cmdEnd p := by
  unfold parseCommand
  by_cases h1 : p.cmdPtr + 8 > cmdEnd
  · rw [if_pos h1, if_pos h1]
  rw [if_neg h1, if_neg h1, u32At_known K (by omega : p.cmdPtr + 4 ≤ file.length) K',
    u32At_known K (by omega : p.cmdPtr + 4 + 4 ≤ file.length) K']
  generalize (fileImage file K').u32At p.cmdPtr = cmd
  generalize (fileImage file K').u32At (p.cmdPtr + 4) = cmdsize
  by_cases h2 : cmdsize < 8 ∨ p.cmdPtr + cmdsize > cmdEnd
  · rw [if_pos h2, if_pos h2]
  rw [if_neg h2, if_neg h2]
  by_cases h3 : cmdsize < 72
  · rw [if_pos h3, if_pos h3, if_neg (by omega : ¬ cmdsize ≥ 184), if_neg (by omega : ¬ cmdsize ≥ 184)]
    by_cases h4 : cmdsize ≥ 24
    · rw [u64At_known K (by omega : p.cmdPtr + 8 + 8 ≤ file.length) K']
    · rw [if_neg h4, if_neg h4]
  · rw [segmentAt_known K (by omega : p.cmdPtr + 72 ≤ file.length) K',
      u64At_known K (by omega : p.cmdPtr + 8 + 8 ≤ file.length) K']
    by_cases h4 : cmdsize ≥ 184
    · rw [u64At_known K (by omega : p.cmdPtr + 144 + 8 ≤ file.length) K']
    · rw [if_neg h4, if_neg h4]

lemma parseCommands_known (hend : cmdEnd ≤ file.length) (n : ℕ) (p : Parse) (K' : Image) :
    parseCommands (fileImage file K) cmdEnd n p = parseCommands (fileImage file K') cmdEnd n p := by
  induction n generalizing p with
  | zero => rfl
  | succ n ih =>
    rw [parseCommands, parseCommands, parseCommand_known K hend p K']
    rcases parseCommand (fileImage file K') cmdEnd p with _ | ⟨q, seg⟩
    · rfl
    · dsimp only
      rw [ih]

/-- **A file that holds its command table** is walked alike for all kernels. -/
lemma parse_known (h : 32 + (fileImage file K).sizeofcmds ≤ file.length) (K' : Image) :
    (fileImage file K').parse = (fileImage file K).parse := by
  have hsize : (fileImage file K').sizeofcmds = (fileImage file K).sizeofcmds :=
    u32At_known K' (by omega : 20 + 4 ≤ file.length) K
  have hncmds : (fileImage file K').ncmds = (fileImage file K).ncmds :=
    u32At_known K' (by omega : 16 + 4 ≤ file.length) K
  have hok : (fileImage file K').headerOk = (fileImage file K).headerOk := by
    unfold Image.headerOk
    rw [hsize, hncmds, u32At_known K' (by omega : 0 + 4 ≤ file.length) K,
      u32At_known K' (by omega : 4 + 4 ≤ file.length) K, u32At_known K' (by omega : 12 + 4 ≤ file.length) K]
  unfold Image.parse
  rw [hok, hsize, hncmds, parseCommands_known K' h _ _ K]

section

variable (hc : 1 ≤ c.toNat ∧ c.toNat ≤ 2)
include hc

/-- A `u32` that does not lie in the file ends with the byte behind it. -/
lemma u32At_behind (h : file.length < o + 4) :
    2 ^ 24 ≤ (fileImage file fun _ => c).u32At o ∧ (fileImage file fun _ => c).u32At o < 2 ^ 26 := by
  unfold Image.u32At
  rw [fileImage_behind (fun _ => c) (by omega : file.length ≤ o + 3)]
  have h0 := (fileImage file (fun _ => c) o).isLt
  have h1 := (fileImage file (fun _ => c) (o + 1)).isLt
  have h2 := (fileImage file (fun _ => c) (o + 2)).isLt
  omega

/-- So does a `u64`. -/
lemma u64At_behind (h : file.length < o + 8) :
    2 ^ 56 ≤ (fileImage file fun _ => c).u64At o ∧ (fileImage file fun _ => c).u64At o < 2 ^ 58 := by
  have hhigh := u32At_behind hc (by omega : file.length < o + 4 + 4)
  have hlow : (fileImage file fun _ => c).u32At o < 2 ^ 32 := by
    unfold Image.u32At
    have h0 := (fileImage file (fun _ => c) o).isLt
    have h1 := (fileImage file (fun _ => c) (o + 1)).isLt
    have h2 := (fileImage file (fun _ => c) (o + 2)).isLt
    have h3 := (fileImage file (fun _ => c) (o + 3)).isLt
    omega
  unfold Image.u64At
  omega

/-- A `u64` is the same for all kernels, or out of all bounds. -/
lemma u64At_alike (o : ℕ) :
    (fileImage file fun _ => c).u64At o = (fileImage file K).u64At o ∨
      (2 ^ 56 ≤ (fileImage file fun _ => c).u64At o ∧ (fileImage file fun _ => c).u64At o < 2 ^ 58) := by
  by_cases h : o + 8 ≤ file.length
  · exact .inl (u64At_known _ h K)
  · exact .inr (u64At_behind hc (by omega))

end

/-- Two segments with the same pages. Offset and size in the file may differ, if they are out of all
bounds in the second. -/
structure Alike (s s' : Segment) : Prop where
  vmaddr_eq : s'.vmaddr = s.vmaddr
  vmsize_eq : s'.vmsize = s.vmsize
  fileoff : s'.fileoff = s.fileoff ∨ (2 ^ 56 ≤ s'.fileoff ∧ s'.fileoff < 2 ^ 58)
  filesize : s'.filesize = s.filesize ∨ (2 ^ 56 ≤ s'.filesize ∧ s'.filesize < 2 ^ 58)

/-- A name that begins with `__PAGEZERO` lies in the file that far. -/
lemma pagezero_known (hc : 1 ≤ c.toNat ∧ c.toNat ≤ 2)
    (h : segNameIs (segmentAt (fileImage file fun _ => c) o).segname pagezeroName = true) :
    o + 18 ≤ file.length := by
  by_contra hlen
  have hbehind : fileImage file (fun _ => c) (o + 17) = c := fileImage_behind _ (by omega)
  have hlast := congrArg (fun l => l[9]?) (of_decide_eq_true h)
  simp [segmentAt, pagezeroName, Nat.add_assoc, hbehind] at hlast
  subst hlast
  exact absurd hc (by decide)

/-- The names are the same where the first ten bytes are. -/
lemma pagezero_congr {img img' : Image} (h : ∀ i < 10, img (o + 8 + i) = img' (o + 8 + i)) :
    segNameIs (segmentAt img o).segname pagezeroName = segNameIs (segmentAt img' o).segname pagezeroName := by
  have htake : (segmentAt img o).segname.take 10 = (segmentAt img' o).segname.take 10 := by
    unfold segmentAt
    rw [← List.map_take, ← List.map_take]
    refine List.map_congr_left fun i hi => h i ?_
    simpa using hi
  unfold segNameIs
  have hlen : pagezeroName.length = 10 := rfl
  rw [hlen, htake]

section

variable (hc : 1 ≤ c.toNat ∧ c.toNat ≤ 2)
include hc

/-- **One command of two kernels**: it asks for segments that are alike, or for none. -/
lemma commandSegment_alike (ho : o + 4 ≤ file.length)
    (hbounds : ∀ s ∈ commandSegment (fileImage file fun _ => c) o, s.inUserBounds = true) :
    Option.Rel Alike (commandSegment (fileImage file K) o) (commandSegment (fileImage file fun _ => c) o) := by
  have hcmd := u32At_known K ho fun _ => c
  by_cases hsize : o + 40 ≤ file.length
  · -- name, address and size are in the file
    have hname := pagezero_congr fun i hi => fileImage_known K (by omega : o + 8 + i < file.length) fun _ => c
    have haddr : (segmentAt (fileImage file fun _ => c) o).vmaddr = (segmentAt (fileImage file K) o).vmaddr :=
      u64At_known _ (by omega : o + 24 + 8 ≤ file.length) K
    have hvmsize : (segmentAt (fileImage file fun _ => c) o).vmsize = (segmentAt (fileImage file K) o).vmsize :=
      u64At_known _ (by omega : o + 32 + 8 ≤ file.length) K
    unfold commandSegment
    rw [hcmd, hname, hvmsize]
    split_ifs
    · exact .some ⟨haddr, hvmsize, u64At_alike K hc (o + 40), u64At_alike K hc (o + 48)⟩
    · exact .none
  · -- the size is out of bounds, so that nothing is mapped: this must be `__PAGEZERO`
    have hbig : 2 ^ 56 ≤ (segmentAt (fileImage file fun _ => c) o).vmsize :=
      (u64At_behind hc (by omega : file.length < o + 32 + 8)).1
    have hnone : commandSegment (fileImage file fun _ => c) o = none := by
      by_contra hsome
      obtain ⟨s, hs⟩ := Option.ne_none_iff_exists'.mp hsome
      have hin := hbounds s hs
      unfold commandSegment at hs
      split_ifs at hs
      cases hs
      simp only [Segment.inUserBounds, decide_eq_true_eq, not_or, userEnd] at hin
      omega
    have hnone' : commandSegment (fileImage file K) o = none := by
      unfold commandSegment at hnone ⊢
      refine if_neg fun hmap => ?_
      have hzero : segNameIs (segmentAt (fileImage file fun _ => c) o).segname pagezeroName = true := by
        by_contra hno
        rw [if_pos ⟨hcmd ▸ hmap.1, hno, by omega⟩] at hnone
        cases hnone
      have hlen := pagezero_known hc hzero
      have hname := pagezero_congr fun i hi => fileImage_known K (by omega : o + 8 + i < file.length) fun _ => c
      exact hmap.2.1 (hname.trans hzero)
    rw [hnone, hnone']
    exact .none

lemma walkSegments_alike {n : ℕ} (hend : cmdEnd < 2 ^ 24)
    {p p' : Parse} (hptr : p'.cmdPtr = p.cmdPtr)
    (h : parseCommands (fileImage file K) cmdEnd n p = some (q, segs))
    (h' : parseCommands (fileImage file fun _ => c) cmdEnd n p' = some (q', segs')) :
    List.Forall₂ Alike segs segs' := by
  induction n generalizing p p' q q' segs segs' with
  | zero =>
    cases h
    cases h'
    exact .nil
  | succ n ih =>
    rw [parseCommands] at h h'
    rcases hp : parseCommand (fileImage file K) cmdEnd p with _ | ⟨p1, s⟩ <;> rw [hp] at h
    · cases h
    rcases hp' : parseCommand (fileImage file fun _ => c) cmdEnd p' with _ | ⟨p1', s'⟩ <;> rw [hp'] at h'
    · cases h'
    obtain ⟨⟨q1, rest⟩, hrest, heq⟩ := Option.map_eq_some_iff.mp h
    obtain ⟨⟨q1', rest'⟩, hrest', heq'⟩ := Option.map_eq_some_iff.mp h'
    cases heq
    cases heq'
    obtain ⟨-, hnext, hs, -⟩ := parseCommand_some hp
    obtain ⟨hle', hnext', hs', hbounds⟩ := parseCommand_some hp'
    rw [hptr] at hle' hnext' hs'
    -- the size of the command is small, so it is in the file
    have hsize : p.cmdPtr + 4 + 4 ≤ file.length := by
      by_contra hlen
      have := (u32At_behind hc (by omega : file.length < p.cmdPtr + 4 + 4)).1
      omega
    have hknown := u32At_known K hsize fun _ => c
    have hrel := commandSegment_alike K hc (by omega : p.cmdPtr + 4 ≤ file.length) (hs' ▸ hbounds)
    rw [← hs, ← hs'] at hrel
    have hsame : p1'.cmdPtr = p1.cmdPtr := by rw [hnext, hnext', hknown]
    have htail := ih hsame hrest hrest'
    cases hrel with
    | none => exact htail
    | some ha => exact .cons ha htail

/-- **The segments of two kernels**: where the walk accepts a file with `1`s or `2`s behind it, it
finds there the segments that it finds with any other kernel, up to offsets and sizes that are out of
all bounds. -/
lemma segments_alike (h : (fileImage file K).parse = some (q, segs))
    (h' : (fileImage file fun _ => c).parse = some (q', segs')) : List.Forall₂ Alike segs segs' := by
  unfold Image.parse at h h'
  by_cases hok : (fileImage file K).headerOk = true
  swap
  · rw [if_neg hok] at h
    cases h
  by_cases hok' : (fileImage file fun _ => c).headerOk = true
  swap
  · rw [if_neg hok'] at h'
    cases h'
  rw [if_pos hok] at h
  rw [if_pos hok'] at h'
  simp only [Image.headerOk, decide_eq_true_eq, not_or, not_lt] at hok'
  have hlen : 20 + 4 ≤ file.length := by
    by_contra hlen
    have := (u32At_behind hc (by omega : file.length < 20 + 4)).1
    unfold Image.sizeofcmds at hok'
    omega
  have hncmds : (fileImage file K).ncmds = (fileImage file fun _ => c).ncmds :=
    u32At_known K (by omega : 16 + 4 ≤ file.length) _
  have hsize : (fileImage file K).sizeofcmds = (fileImage file fun _ => c).sizeofcmds := u32At_known K hlen _
  rw [hncmds, hsize] at h
  exact walkSegments_alike K hc (by omega) rfl h h'

end

end behind

/-! ## What the segments have in common -/

/-- A search from the end in two lists that correspond. -/
lemma find_reverse_rel {r : α → α → Prop} {p : α → Bool} {l l' : List α}
    (h : List.Forall₂ r l l') (hp : ∀ {a b}, r a b → p a = p b) :
    Option.Rel r (l.reverse.find? p) (l'.reverse.find? p) := by
  rw [← List.forall₂_reverse_iff] at h
  generalize l.reverse = m, l'.reverse = m' at h ⊢
  induction h with
  | nil => exact .none
  | cons hab _ ih =>
    rw [List.find?_cons, List.find?_cons, hp hab]
    cases p _
    · exact ih
    · exact .some hab

lemma Alike.covers_eq (h : Alike s s') (a : ℕ) : s.covers a = s'.covers a := by
  rw [Segment.covers, Segment.covers, h.vmaddr_eq, h.vmsize_eq]

lemma Alike.maps_eq (h : Alike s s') (a : ℕ) : s.maps a = s'.maps a := by
  rw [Segment.maps, Segment.maps, Segment.pages, Segment.pages, Segment.endVaddr, Segment.endVaddr,
    Segment.startVaddr, Segment.startVaddr, h.vmaddr_eq, h.vmsize_eq]

lemma lastMapping_alike (h : List.Forall₂ Alike segs segs') (a : ℕ) :
    Option.Rel Alike (lastMapping segs a) (lastMapping segs' a) :=
  find_reverse_rel h fun hab => hab.maps_eq a

lemma lastCovering_alike (h : List.Forall₂ Alike segs segs') (a : ℕ) :
    Option.Rel Alike (lastCovering segs a) (lastCovering segs' a) :=
  find_reverse_rel h fun hab => hab.covers_eq a

lemma exists_of_rel {r : α → α → Prop} {o o' : Option α} (h : Option.Rel r o o') {x : α}
    (hx : o = some x) : ∃ y, o' = some y ∧ r x y := by
  cases h with
  | none => cases hx
  | some hab => exact ⟨_, rfl, Option.some.inj hx ▸ hab⟩

/-- A byte that does not come from the file does not come from it in the second segment either. -/
lemma Alike.source (h : Alike s s') {o n : ℕ} (ha : a < userEnd) (hn : n < 2 ^ 32)
    (hs : s.source a = some o) (ho : n ≤ o) : ∃ o', s'.source a = some o' ∧ n ≤ o' := by
  have haddr := h.vmaddr_eq
  have hoff := h.fileoff
  have hsize := h.filesize
  unfold Segment.source at hs ⊢
  unfold userEnd at ha
  split_ifs at hs with hin
  cases hs
  rw [haddr]
  rw [if_pos]
  · refine ⟨_, rfl, ?_⟩
    rcases hoff with heq | hbig
    · rw [heq]
      exact ho
    · unfold u64
      omega
  · refine ⟨hin.1, ?_⟩
    rcases hsize with heq | hbig
    · rw [heq]
      exact hin.2
    · unfold u64
      omega

end Chimera
