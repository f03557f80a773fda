import Chimera.Fat.Frame

/-!
# Rules for invariants of the driver

The driver is made of a few accesses: sectors are read and written, an entry of the FAT is followed or
changed, a cluster is allocated. `DriverInv` says that these keep a property of the state as long as they
are given clusters and sectors of one kind, and that the clusters they give are of this kind. The rules
carry such a property through the loops and the calls. There are two instances: what the driver leaves
alone, where any cluster will do (`DriverInv.of_rest`), and the soundness of its data, for the clusters of
the data area.

`NodeInv` adds what the calls on one node need, and `ReadInv` is for the calls that only read.
-/

namespace Chimera

open Lib

/-! ## Helpers below a call -/

/-- The accesses keep `I`, if clusters are in `D` and sectors that are written in `W`. -/
structure DriverInv (v : Volume) (I : Fat → Prop) (D W : ℕ → Prop) : Prop where
  vol : ∀ {s}, I s → s.vol = v
  read : ∀ {s s' lba k r}, I s → ataReadSectors s lba k = (r, s') → I s'
  next : ∀ {s s' c x}, I s → D c → getNextClusterUnlocked s c = (x, s') → I s' ∧ (isCluster x → D x)
  alloc : ∀ {s s' x}, I s → allocCluster s = (x, s') → I s' ∧ (2 ≤ x → D x)
  link : ∀ {s c x}, I s → D c → x = endOfChain ∨ D x → I (setFatEntry s c x).2
  write : ∀ {s lba k} (buf : Bytes), I s → W lba → I (ataWriteSectors s lba k buf).2
  cluster : ∀ {s c}, I s → D c → W (clusterToLba v c)
  sector : ∀ {s c} (off : ℕ), I s → D c → W (word32 (clusterToLba v c + off % v.clusterSizeBytes / sectorSize))

/-- An entry may be set to zero. -/
def Frees (I : Fat → Prop) (D : ℕ → Prop) : Prop := ∀ {s c}, I s → D c → I (setFatEntry s c 0).2

section Helpers

variable {v : Volume} {I : Fat → Prop} {D W : ℕ → Prop} (d : DriverInv v I D W) {s s' : Fat}
  {c n off fuel : ℕ} {data : List (BitVec 8)} {buf buf' : Bytes} {nd : FatNode}

include d

variable {lba : ℕ} {ok : Bool} {r : Option ℕ}

section

variable (h : I s)
include h

lemma DriverInv.write_eq {k : ℕ} (hW : W lba)
    (hw : ataWriteSectors s lba k buf = (ok, s')) : I s' := by
  have := d.write (k := k) buf h hW
  rwa [hw] at this

/-- A sector inside a cluster. -/
lemma DriverInv.sector_of_lt (hc : D c) (hoff : off < v.clusterSizeBytes) :
    W (word32 (clusterToLba v c + off / sectorSize)) := by
  have := d.sector off h hc
  rwa [Nat.mod_eq_of_lt hoff] at this

lemma nextOrAlloc_keeps (hc : D c) (hr : nextOrAlloc s c = (r, s')) : I s' ∧ ∀ x, r = some x → D x := by
  rw [nextOrAlloc] at hr
  rcases hnext : getNextClusterUnlocked s c with ⟨next, s1⟩
  obtain ⟨h1, hlink⟩ := d.next h hc hnext
  rcases halloc : allocCluster s1 with ⟨new, s2⟩
  obtain ⟨h2, hnew⟩ := d.alloc h1 halloc
  simp only [hnext, halloc] at hr
  split_ifs at hr with hcl hlt
  · cases hr
    refine ⟨h1, ?_⟩
    rintro x ⟨⟩
    exact hlink hcl
  · cases hr
    exact ⟨h2, nofun⟩
  · cases hr
    have hd := hnew (Nat.not_lt.mp hlt)
    refine ⟨d.link h2 hc (.inr hd), ?_⟩
    rintro x ⟨⟩
    exact hd

lemma advanceAlloc_keeps (hc : D c) (hr : advanceAlloc s c n = (r, s')) : I s' ∧ ∀ x, r = some x → D x := by
  induction n generalizing s c with
  | zero =>
    cases hr
    refine ⟨h, ?_⟩
    rintro x ⟨⟩
    exact hc
  | succ n ih =>
    rw [advanceAlloc] at hr
    rcases hnext : nextOrAlloc s c with ⟨_ | next, s1⟩
    · simp only [hnext] at hr
      cases hr
      exact ⟨(nextOrAlloc_keeps d h hc hnext).1, nofun⟩
    · simp only [hnext] at hr
      obtain ⟨h1, hd⟩ := nextOrAlloc_keeps d h hc hnext
      exact ih h1 (hd next rfl) hr

lemma loadCluster_keeps {len : ℕ} (hl : loadCluster s c off len buf = (buf', s')) : I s' := by
  rw [loadCluster] at hl
  split_ifs at hl
  · rcases hread : ataReadSectors s (clusterToLba s.vol c) (bufSectors s.vol) with ⟨_ | old, s1⟩
    · rw [hread] at hl
      cases hl
      exact d.read h hread
    · rw [hread] at hl
      cases hl
      exact d.read h hread
  · cases hl
    exact h

lemma writeCluster_keeps (hc : D c)
    (hw : writeCluster s c off data buf = (ok, buf', s')) : I s' := by
  rw [writeCluster] at hw
  rcases hload : loadCluster s c off data.length buf with ⟨old, s1⟩
  have h1 := loadCluster_keeps d h hload
  simp only [hload] at hw
  cases hw
  rw [d.vol h1]
  exact d.write _ h1 (d.cluster h1 hc)

lemma writeLoop_keeps {written : ℕ} (hc : D c) :
    Ensures (· = .fuel) (fun r => I r.2) (writeLoop fuel s c off data buf written) := by
  induction fuel generalizing s c off data buf written with
  | zero => exact (rfl : Stop.fuel = .fuel)
  | succ fuel ih =>
    rw [writeLoop]
    split_ifs
    · exact h
    · rcases hw : writeCluster s c off data buf with ⟨_ | _, buf', s1⟩
      · exact writeCluster_keeps d h hc hw
      · have h1 := writeCluster_keeps d h hc hw
        dsimp only
        split_ifs
        · exact h1
        · rcases hnext : nextOrAlloc s1 c with ⟨_ | next, s2⟩
          · exact (nextOrAlloc_keeps d h1 hc hnext).1
          · obtain ⟨h2, hd⟩ := nextOrAlloc_keeps d h1 hc hnext
            exact ih h2 (hd next rfl)

lemma walkChain_keeps {last steps : ℕ} (hc : D c) (hw : walkChain s c n = ((last, steps), s')) :
    I s' ∧ D last := by
  induction n generalizing s c steps with
  | zero =>
    cases hw
    exact ⟨h, hc⟩
  | succ n ih =>
    rw [walkChain] at hw
    rcases hnext : getNextClusterUnlocked s c with ⟨next, s1⟩
    obtain ⟨h1, hlink⟩ := d.next h hc hnext
    simp only [hnext] at hw
    split_ifs at hw with hcl
    · rcases hrest : walkChain s1 next n with ⟨⟨last', steps'⟩, s2⟩
      simp only [hrest] at hw
      cases hw
      exact ih h1 (hlink hcl) hrest
    · cases hw
      exact ⟨h1, hc⟩

lemma growChain_keeps (hc : D c) (hg : growChain s c n = (ok, s')) : I s' := by
  induction n generalizing s c with
  | zero =>
    cases hg
    exact h
  | succ n ih =>
    rw [growChain] at hg
    rcases halloc : allocCluster s with ⟨new, s1⟩
    obtain ⟨h1, hnew⟩ := d.alloc h halloc
    simp only [halloc] at hg
    split_ifs at hg with hlt
    · cases hg
      exact h1
    · have hd := hnew (Nat.not_lt.mp hlt)
      exact ih (d.link h1 hc (.inr hd)) hd hg

lemma zeroTailFrom_keeps (hc : D c)
    (hz : zeroTailFrom s (clusterToLba v c) off n = (ok, s')) : I s' := by
  induction n generalizing s off with
  | zero =>
    cases hz
    exact h
  | succ n ih =>
    rw [zeroTailFrom] at hz
    split_ifs at hz with hoff
    · rw [d.vol h] at hoff
      dsimp only at hz
      rcases hread : ataReadSectors s (word32 (clusterToLba v c + off / sectorSize)) 1 with ⟨_ | sec, s1⟩
      · rw [hread] at hz
        cases hz
        exact d.read h hread
      · have h1 := d.read h hread
        rw [hread] at hz
        dsimp only at hz
        split at hz
        · rename_i hw
          cases hz
          exact d.write_eq h1 (d.sector_of_lt h hc hoff) hw
        · rename_i hw
          exact ih (d.write_eq h1 (d.sector_of_lt h hc hoff) hw) hz
    · cases hz
      exact h

end

lemma freeClusterChain_keeps (hz : Frees I D) (h : I s) (hc : isCluster c → D c) :
    Ensures (· = .fuel) I (freeClusterChainUnlocked fuel s c) := by
  induction fuel generalizing s c with
  | zero =>
    rw [freeClusterChainUnlocked]
    split_ifs
    · exact (rfl : Stop.fuel = .fuel)
    · exact h
  | succ fuel ih =>
    rw [freeClusterChainUnlocked]
    split_ifs with hcl
    · rcases hnext : getNextClusterUnlocked s c with ⟨next, s1⟩
      obtain ⟨h1, hlink⟩ := d.next h (hc hcl) hnext
      exact ih (hz h1 (hc hcl)) hlink
    · exact h

/-! ### Directories -/

lemma walkDir_keeps (h : I s) (hc : isCluster c → D c) :
    I (walkDir s c n).2 ∧ (isCluster (walkDir s c n).1 → D (walkDir s c n).1) := by
  induction n generalizing s c with
  | zero => exact ⟨h, hc⟩
  | succ n ih =>
    rw [walkDir]
    split_ifs with hcl
    · rcases hnext : getNextClusterUnlocked s c with ⟨next, s1⟩
      obtain ⟨h1, hlink⟩ := d.next h (hc hcl) hnext
      exact ih h1 hlink
    · exact ⟨h, hc⟩

lemma storeStartAndSize_keeps (h : I s) (hc : isCluster c → D c) : I (storeStartAndSize s nd c).2 := by
  rw [storeStartAndSize]
  dsimp only
  split_ifs with hcl
  · rw [d.vol h]
    split
    · rename_i hread
      exact d.read h hread
    · rename_i hread
      exact d.write _ (d.read h hread) (d.sector _ h (hc hcl))
  · exact h

section Locking

variable (hl : ∀ {s} (b : Bool), I s → I { s with locked := b })

include hl

lemma getNextCluster_keeps (h : I s) (hc : D c) :
    Ensures (fun _ => True) (fun r => I r.2 ∧ (isCluster r.1 → D r.1)) (getNextCluster s c) := by
  rw [getNextCluster, Fat.lock]
  split_ifs
  · trivial
  · rcases hnext : getNextClusterUnlocked { s with locked := true } c with ⟨next, s1⟩
    obtain ⟨h1, hlink⟩ := d.next (hl true h) hc hnext
    rw [ensures_bind_ok, hnext]
    exact ⟨hl false h1, hlink⟩

lemma walkDirLocking_keeps (h : I s) (hc : isCluster c → D c) :
    Ensures (fun _ => True) (fun r => I r.2 ∧ (isCluster r.1 → D r.1)) (walkDirLocking s c n) := by
  induction n generalizing s c with
  | zero => exact ⟨h, hc⟩
  | succ n ih =>
    rw [walkDirLocking]
    split_ifs with hcl
    · apply (getNextCluster_keeps d hl h (hc hcl)).bind
      rintro ⟨next, s1⟩ ⟨h1, hlink⟩
      exact ih h1 hlink
    · exact ⟨h, hc⟩

lemma updateDirEntry_keeps (h : I s) (hnd : isCluster nd.parentDirCluster → D nd.parentDirCluster) :
    Ensures (fun _ => True) (fun r => I r.2) (updateDirEntry s nd) := by
  rw [updateDirEntry]
  split_ifs
  · exact h
  · apply (walkDirLocking_keeps d hl h hnd).bind
    rintro ⟨cl, s1⟩ ⟨h1, hc⟩
    exact storeStartAndSize_keeps d h1 hc

end Locking

lemma markDeleted_keeps (h : I s) (hW : W lba) : I (markDeleted s lba off) := by
  rw [markDeleted]
  rcases hread : ataReadSectors s lba 1 with ⟨_ | sec, s1⟩
  · exact d.read h hread
  · exact d.write _ (d.read h hread) hW

lemma deleteDirEntry_keeps (h : I s) (hnd : isCluster nd.parentDirCluster → D nd.parentDirCluster) :
    I (deleteDirEntry s nd) := by
  rw [deleteDirEntry]
  have hwalk := walkDir_keeps d (n := nd.dirEntryOffset / s.vol.clusterSizeBytes) h hnd
  rcases hw : walkDir s nd.parentDirCluster (nd.dirEntryOffset / s.vol.clusterSizeBytes) with ⟨cl, s1⟩
  rw [hw] at hwalk
  dsimp only
  split_ifs with hcl
  · rw [d.vol hwalk.1]
    exact markDeleted_keeps d hwalk.1 (d.sector _ hwalk.1 (hwalk.2 hcl))
  · exact hwalk.1

omit d in
lemma freeSlotIn_lt {i size : ℕ} (h : freeSlotIn buf size = some i) : i < size := by
  rw [freeSlotIn, Option.map_eq_some_iff] at h
  obtain ⟨j, hj, rfl⟩ := h
  have hmem := List.mem_of_find?_eq_some hj
  rw [List.mem_range] at hmem
  omega

lemma findSlot_keeps {extend : Bool} {base : ℕ} (h : I s) (hc : isCluster c → D c) :
    Ensures (· = .fuel) (fun r => I r.2 ∧ ∀ slot, r.1 = .ok slot → W slot.1)
      (findSlot extend fuel s c base) := by
  induction fuel generalizing s c base with
  | zero => exact (rfl : Stop.fuel = .fuel)
  | succ fuel ih =>
    rw [findSlot]
    split_ifs with hcl
    · dsimp only
      rcases hread : ataReadSectors s (clusterToLba s.vol c) (bufSectors s.vol) with ⟨_ | buf, s1⟩
      · exact ⟨d.read h hread, nofun⟩
      · have h1 := d.read h hread
        cases hslot : freeSlotIn buf s1.vol.clusterSizeBytes with
        | some i =>
          have hi := freeSlotIn_lt hslot
          rw [d.vol h1] at hi
          simp only [hslot]
          refine ⟨h1, ?_⟩
          rintro slot ⟨⟩
          rw [d.vol h]
          exact d.sector_of_lt h (hc hcl) hi
        | none =>
          rcases hnext : getNextClusterUnlocked s1 c with ⟨next, s2⟩
          obtain ⟨h2, hlink⟩ := d.next h1 (hc hcl) hnext
          rcases halloc : allocCluster s2 with ⟨new, s3⟩
          obtain ⟨h3, hnew⟩ := d.alloc h2 halloc
          simp only [hslot, hnext, halloc]
          split_ifs with hmore hlt
          · exact ih h2 hlink
          · exact ⟨h3, nofun⟩
          · have hd := hnew (Nat.not_lt.mp hlt)
            refine ⟨d.link h3 (hc hcl) (.inr hd), ?_⟩
            rintro slot ⟨⟩
            rw [d.vol h3]
            exact d.cluster h3 hd
    · exact ⟨h, nofun⟩

end Helpers

/-! ### What the helpers leave alone -/

variable {P : FatRest → Prop}

/-- A property of what is neither on the disk nor kept about it. -/
lemma DriverInv.of_rest {v : Volume} (hP : ∀ r, P r → r.vol = v) :
    DriverInv v (fun s => P s.rest) (fun _ => True) fun _ => True where
  vol h := hP _ h
  read h hr := by rwa [ataReadSectors_rest hr]
  next h _ hx := ⟨by rwa [getNextClusterUnlocked_rest' hx], fun _ => trivial⟩
  alloc h hx := ⟨by rwa [allocCluster_rest' hx], fun _ => trivial⟩
  link h _ _ := by rwa [setFatEntry_rest]
  write _ h _ := by rwa [ataWriteSectors_rest]
  cluster _ _ := trivial
  sector _ _ _ := trivial

lemma frees_rest : Frees (fun s => P s.rest) fun _ => True := by
  intro s c h _
  rwa [setFatEntry_rest]

section Rest

variable {nd : FatNode} {c : ℕ}

lemma DriverInv.rest (s : Fat) : DriverInv s.vol (fun s' => s'.rest = s.rest) (fun _ => True) fun _ => True :=
  .of_rest (P := (· = s.rest)) fun _ h => congrArg FatRest.vol h

lemma deleteDirEntry_rest (s : Fat) (nd : FatNode) : (deleteDirEntry s nd).rest = s.rest :=
  deleteDirEntry_keeps (.rest s) rfl fun _ => trivial

lemma storeStartAndSize_rest (s : Fat) : (storeStartAndSize s nd c).2.rest = s.rest :=
  storeStartAndSize_keeps (.rest s) rfl fun _ => trivial

end Rest

/-! ## Calls that hold the lock -/

section Calls

variable {v : Volume} {E : Stop → Prop} {I Q : Fat → Prop} {D W : ℕ → Prop} {s s' : Fat}
  {cwd : Option CwdNode} {fuel : ℕ}

/-- The lock is taken, and released from each state in `I`. -/
lemma locked_call (I : Fat → Prop) {α : Type} {f : Fat → Except Stop (α × Fat)} (hE : E .fuel)
    (hl : s.locked → E .deadlock) (h : Ensures (· = .fuel) (fun r => I r.2) (f { s with locked := true }))
    (hu : ∀ s, I s → Q s.unlock) :
    Ensures E (fun r => Q r.2) (do
      let s ← s.lock
      let (r, s) ← f s
      return (r, s.unlock)) := by
  rw [Fat.lock]
  split_ifs with hlocked
  · exact hl hlocked
  · exact (h.weaken fun e he => he ▸ hE).bind fun _ h => hu _ h

/-! ### Writing and resizing -/

/-- The calls on the node `n` keep `I`, in which the node satisfies `N`. -/
structure NodeInv (v : Volume) (E : Stop → Prop) (I : Fat → Prop) (D W : ℕ → Prop) (n : ℕ)
    (N : FatNode → Prop) : Prop extends DriverInv v I D W where
  fuel : ∀ e, e = .fuel → E e
  node : ∀ {s}, I s → N (s.node n)
  setNode : ∀ {s nd}, I s → N nd → I (s.setNode n nd)
  update : ∀ {s nd}, I s → N nd → Ensures E (fun r => I r.2 ∧ r.2.node n = s.node n) (updateDirEntry s nd)
  data : ∀ {nd}, N nd → 2 ≤ nd.startCluster → D nd.startCluster
  start : ∀ {nd c}, N nd → c < 2 ∨ D c → N { nd with startCluster := c }
  size : ∀ {nd k}, N nd → N { nd with fileSize := k }

section Node

variable {n size needed old : ℕ} {N : FatNode → Prop} (d : NodeInv v E I D W n N)

include d

lemma NodeInv.data_node (h : I s) (hge : 2 ≤ (s.node n).startCluster) : D (s.node n).startCluster :=
  d.data (d.node h) hge

lemma ensureStart_keeps (h : I s) :
    Ensures E (fun r => I r.2 ∧ (r.1 = true → D (r.2.node n).startCluster)) (ensureStart s n) := by
  rw [ensureStart]
  split_ifs with hge
  · exact ⟨h, fun _ => d.data_node h hge⟩
  · rcases halloc : allocCluster s with ⟨new, s1⟩
    obtain ⟨h1, hnew⟩ := d.alloc h halloc
    have hN : N { s1.node n with startCluster := new } := d.start (d.node h1) ((Nat.lt_or_ge new 2).imp_right hnew)
    dsimp only
    split_ifs with hlt
    · exact ⟨d.setNode h1 hN, nofun⟩
    · apply (d.update (d.setNode h1 hN) hN).bind
      rintro ⟨ok, s2⟩ ⟨h2, hnode⟩
      refine ⟨h2, fun _ => ?_⟩
      rw [hnode, Fat.setNode_self]
      exact hnew (Nat.not_lt.mp hlt)

lemma finishWrite_keeps (h : I s) : Ensures E I (finishWrite s n size) := by
  rw [finishWrite]
  split_ifs
  · have hN : N { s.node n with fileSize := size } := d.size (d.node h)
    exact (d.update (d.setNode h hN) hN).bind fun _ h1 => h1.1
  · exact h

variable {ok : Bool}

lemma resizeStart_keeps (h : I s) (hs : resizeStart s n needed = (ok, s')) : I s' := by
  rw [resizeStart] at hs
  rcases halloc : allocCluster s with ⟨new, s1⟩
  obtain ⟨h1, hnew⟩ := d.alloc h halloc
  simp only [halloc] at hs
  split_ifs at hs with hcond hlt
  · cases hs
    exact h1
  · cases hs
    exact d.setNode h1 (d.start (d.node h1) (.inr (hnew (Nat.not_lt.mp hlt))))
  · cases hs
    exact h

lemma resizeGrow_keeps (h : I s) (hg : resizeGrow s n needed old = (ok, s')) : I s' := by
  rw [resizeGrow] at hg
  split_ifs at hg with hcond
  · rcases hw : walkChain s (s.node n).startCluster (old - 1) with ⟨⟨last, steps⟩, s1⟩
    obtain ⟨h1, hlast⟩ := walkChain_keeps d.toDriverInv h (d.data_node h hcond.2) hw
    rw [hw] at hg
    exact growChain_keeps d.toDriverInv h1 hlast hg
  · cases hg
    exact h

lemma resizeZeroTail_keeps (h : I s) (hz : resizeZeroTail s n size = (ok, s')) : I s' := by
  rw [resizeZeroTail] at hz
  split_ifs at hz with hcond
  · rcases hw : walkChain s (s.node n).startCluster (((s.node n).fileSize - 1) / s.vol.clusterSizeBytes)
      with ⟨⟨last, steps⟩, s1⟩
    obtain ⟨h1, hlast⟩ := walkChain_keeps d.toDriverInv h (d.data_node h hcond.2.2.2) hw
    simp only [hw, zeroClusterTail, d.vol h1] at hz
    exact zeroTailFrom_keeps d.toDriverInv h1 hlast hz
  · cases hz
    exact h

lemma resizeShrink_keeps (hz : Frees I D) (h : I s) : Ensures E I (resizeShrink fuel s n needed old) := by
  rw [resizeShrink]
  split_ifs with hcond hzero
  · apply ((freeClusterChain_keeps d.toDriverInv hz h fun _ => d.data_node h hcond.2).weaken d.fuel).bind
    intro s1 h1
    exact d.setNode h1 (d.start (d.node h1) (.inl Nat.two_pos))
  · rcases hw : walkChain s (s.node n).startCluster (needed - 1) with ⟨⟨last, steps⟩, s1⟩
    obtain ⟨h1, hlast⟩ := walkChain_keeps d.toDriverInv h (d.data_node h hcond.2) hw
    rcases hnext : getNextClusterUnlocked s1 last with ⟨tail, s2⟩
    obtain ⟨h2, hlink⟩ := d.next h1 hlast hnext
    have h3 := d.link h2 hlast (.inl rfl)
    simp only [hnext]
    split_ifs
    · exact (freeClusterChain_keeps d.toDriverInv hz h3 hlink).weaken d.fuel
    · exact h3
  · exact h

end Node

variable {n size offset : ℕ} {N : FatNode → Prop} {data : List (BitVec 8)}

lemma writeNode_keeps (hd : s.vol.mounted → NodeInv s.vol E I D W n N) (hl : s.locked → E .deadlock)
    (hs : Q s) (h : I { s with locked := true }) (hu : ∀ s, I s → Q s.unlock) :
    Ensures E (fun r => Q r.2) (writeNode s n offset data) := by
  rw [writeNode]
  split_ifs with hguard
  · exact hs
  · have d := hd (by_contra fun hm => hguard (.inl hm))
    rw [Fat.lock]
    split_ifs with hlocked
    · exact hl hlocked
    · apply (ensureStart_keeps d h).bind
      rintro ⟨_ | _, s1⟩ ⟨h1, hstart⟩
      · exact hu _ h1
      · dsimp only
        rcases hadv : advanceAlloc s1 (s1.node n).startCluster (offset / s1.vol.clusterSizeBytes)
          with ⟨_ | c, s2⟩
        · exact hu _ (advanceAlloc_keeps d.toDriverInv h1 (hstart rfl) hadv).1
        · obtain ⟨h2, hc⟩ := advanceAlloc_keeps d.toDriverInv h1 (hstart rfl) hadv
          apply ((writeLoop_keeps d.toDriverInv h2 (hc c rfl)).weaken d.fuel).bind
          rintro ⟨_ | written, s3⟩ h3
          · exact hu _ h3
          · exact (finishWrite_keeps d h3).bind fun _ h4 => hu _ h4

lemma resizeNode_keeps (hd : s.vol.mounted → NodeInv s.vol E I D W n N) (hz : Frees I D)
    (hl : s.locked → E .deadlock) (hs : Q s) (h : I { s with locked := true }) (hu : ∀ s, I s → Q s.unlock) :
    Ensures E (fun r => Q r.2) (resizeNode fuel s n size) := by
  rw [resizeNode]
  by_cases hm : s.vol.mounted
  · have d := hd hm
    rw [if_neg (not_not.mpr hm), Fat.lock]
    split_ifs with hbig hlocked
    · exact hs
    · exact hl hlocked
    · rw [ensures_bind_ok]
      dsimp only
      rcases hstart : resizeStart { s with locked := true } n (clustersFor s.vol size) with ⟨_ | _, s1⟩
      · exact hu _ (resizeStart_keeps d h hstart)
      · have h1 := resizeStart_keeps d h hstart
        dsimp only
        rcases hg : resizeGrow s1 n (clustersFor s.vol size) (clustersFor s.vol (s.node n).fileSize)
          with ⟨_ | _, s2⟩
        · exact hu _ (resizeGrow_keeps d h1 hg)
        · have h2 := resizeGrow_keeps d h1 hg
          dsimp only
          rcases hzero : resizeZeroTail s2 n size with ⟨_ | _, s3⟩
          · exact hu _ (resizeZeroTail_keeps d h2 hzero)
          · apply (resizeShrink_keeps d hz (resizeZeroTail_keeps d h2 hzero)).bind
            intro s4 h4
            have hN : N { s4.node n with fileSize := size } := d.size (d.node h4)
            exact (d.update (d.setNode h4 hN) hN).bind fun _ h5 => hu _ h5.1
  · rw [if_pos hm]
    exact hs

/-! ### Creating and removing -/

/-- Nodes and the name space may change. -/
def IgnoresNodes (I : Fat → Prop) : Prop :=
  ∀ {s : Fat} (node count vfs), I s → I { s with node := node, nodeCount := count, vfs := vfs }

variable {child path : PathName} {nd : FatNode} {parent new : ℕ} {slot : ℕ × ℕ × ℕ}

lemma addNode_keeps (hI : IgnoresNodes I) (h : I s) :
    Ensures (· = .fuel) (fun r => I r.2) (addNode cwd fuel s path child nd) := by
  rw [addNode]
  split_ifs
  · exact h
  · dsimp only
    split
    · exact (rfl : Stop.fuel = .fuel)
    · exact hI (s := s) _ _ _ h

section Create

variable (d : DriverInv v I D W) (hI : IgnoresNodes I)

include d hI

lemma enterFile_keeps (h : I s) (hs : W slot.1) :
    Ensures (· = .fuel) (fun r => I r.2) (enterFile cwd fuel s path child parent slot) := by
  obtain ⟨lba, off, entry⟩ := slot
  rw [enterFile]
  rcases hread : ataReadSectors s lba 1 with ⟨_ | sec, s1⟩
  · exact d.read h hread
  · have h1 := d.read h hread
    dsimp only
    split
    · rename_i hw
      exact d.write_eq h1 hs hw
    · rename_i hw
      exact addNode_keeps hI (d.write_eq h1 hs hw)

lemma createFileLocked_keeps (h : I s) (hd : ∀ vp, isCluster (dirCluster s vp) → D (dirCluster s vp)) :
    Ensures (· = .fuel) (fun r => I r.2) (createFileLocked cwd fuel s path) := by
  rw [createFileLocked]
  split
  · exact h
  · split
    · exact h
    · rename_i dvp _
      apply (findSlot_keeps d h (hd dvp)).bind
      rintro ⟨_ | slot, s1⟩ ⟨h1, hslot⟩
      · exact h1
      · exact enterFile_keeps d hI h1 (hslot slot rfl)

lemma enterDir_keeps (h : I s) (hs : W slot.1) :
    Ensures (· = .fuel) (fun r => I r.2) (enterDir cwd fuel s path child parent new slot) := by
  obtain ⟨lba, off, entry⟩ := slot
  rw [enterDir]
  rcases hread : ataReadSectors s lba 1 with ⟨sec, s1⟩
  exact addNode_keeps hI (d.write _ (d.read h hread) hs)

lemma makeDir_keeps (h : I s) (hnew : D new) (hp : isCluster parent → D parent) :
    Ensures (· = .fuel) (fun r => I r.2) (makeDir cwd fuel s path parent new) := by
  rw [makeDir, d.vol h]
  have h1 := d.write (k := 1) (dotEntries new (dotdotCluster v parent)) h (d.cluster h hnew)
  apply (findSlot_keeps d h1 hp).bind
  rintro ⟨_ | slot, s2⟩ ⟨h2, hslot⟩
  · exact h2
  · exact enterDir_keeps d hI h2 (hslot slot rfl)

lemma createDirLocked_keeps (h : I s) (hd : ∀ vp, isCluster (dirCluster s vp) → D (dirCluster s vp)) :
    Ensures (· = .fuel) (fun r => I r.2) (createDirLocked cwd fuel s path) := by
  rw [createDirLocked]
  split
  · exact h
  · rename_i dvp _
    rcases halloc : allocCluster s with ⟨new, s1⟩
    obtain ⟨h1, hnew⟩ := d.alloc h halloc
    dsimp only
    split_ifs with hlt
    · exact h1
    · exact makeDir_keeps d hI h1 (hnew (Nat.not_lt.mp hlt)) (hd dvp)

lemma emptyNode_keeps (hz : Frees I D) (h : I s)
    (hn : 2 ≤ (s.node n).startCluster → D (s.node n).startCluster) :
    Ensures (· = .fuel) I (emptyNode fuel s n) := by
  rw [emptyNode]
  split_ifs with hge
  · exact (freeClusterChain_keeps d hz h fun _ => hn hge).bind fun s1 h1 => hI _ s1.nodeCount s1.vfs h1
  · exact hI _ s.nodeCount s.vfs h

lemma unlinkFileLocked_keeps (hz : Frees I D) (h : I s)
    (hn : ∀ n, 2 ≤ (s.node n).startCluster → D (s.node n).startCluster)
    (hp : ∀ n, isCluster (s.node n).parentDirCluster → D (s.node n).parentDirCluster) :
    Ensures (· = .fuel) (fun r => I r.2) (unlinkFileLocked cwd fuel s path) := by
  rw [unlinkFileLocked]
  split
  · exact h
  · rename_i n _
    split_ifs
    · exact h
    · have hnode := Fat.node_eq (deleteDirEntry_rest s (s.node n))
      have h1 := deleteDirEntry_keeps d h (hp n)
      apply (emptyNode_keeps d hI hz h1 ?_).bind
      · exact fun _ h2 => h2
      · rw [hnode]
        exact hn n
  · exact h

end Create

end Calls

/-! ## Calls that take the lock for each step -/

/-- What reading and scanning keeps. -/
structure ReadInv (E : Stop → Prop) (I : Fat → Prop) : Prop where
  fuel : E .fuel
  read : ∀ {s s' lba k r}, I s → ataReadSectors s lba k = (r, s') → I s'
  next : ∀ {s c}, I s → Ensures E (fun r => I r.2) (getNextCluster s c)
  nodes : IgnoresNodes I

section Read

variable {E : Stop → Prop} {I : Fat → Prop} (d : ReadInv E I) {s : Fat} {c n size fuel : ℕ}
  {cwd : Option CwdNode}

include d

lemma skipClusters_keeps (h : I s) : Ensures E (fun r => I r.2) (skipClusters s c n) := by
  induction n generalizing s c with
  | zero => exact h
  | succ n ih =>
    rw [skipClusters]
    apply (d.next h).bind
    rintro ⟨next, s1⟩ h1
    dsimp only
    split_ifs
    · exact ih h1
    · exact h1

variable {left off : ℕ} {parent : PathName}

lemma readLoop_keeps {acc : List (BitVec 8)} (h : I s) :
    Ensures E (fun r => I r.2) (readLoop fuel s c off left acc) := by
  induction fuel generalizing s c off left acc with
  | zero => exact d.fuel
  | succ fuel ih =>
    rw [readLoop]
    split_ifs
    · rcases hread : ataReadSectors s (clusterToLba s.vol c) (bufSectors s.vol) with ⟨_ | buf, s1⟩
      · exact d.read h hread
      · dsimp only
        split_ifs
        · apply (d.next (d.read h hread)).bind
          rintro ⟨next, s2⟩ h2
          exact ih h2
        · exact d.read h hread
    · exact h

lemma readFile_keeps {start offset len : ℕ} (h : I s) :
    Ensures E (fun r => I r.2) (readFile s start size offset len) := by
  rw [readFile]
  split_ifs
  · exact h
  all_goals
    apply (skipClusters_keeps d h).bind
    rintro ⟨_ | c, s1⟩ h1
    · exact h1
    · exact readLoop_keeps d h1

variable {step : Fat → Lfn → Bytes → ℕ → Except Stop (Bool × Fat × Lfn)} {lfn : Lfn} {base : ℕ}

omit d in
lemma scanEntries_keeps (hstep : ∀ s lfn entry off, I s → Ensures E (fun r => I r.2.1) (step s lfn entry off))
    {buf : Bytes} {is : List ℕ} (h : I s) :
    Ensures E (fun r => I r.2.1) (scanEntries step buf base is s lfn) := by
  induction is generalizing s lfn with
  | nil => exact h
  | cons i is ih =>
    rw [scanEntries]
    apply (hstep s lfn _ _ h).bind
    rintro ⟨stop, s1, lfn1⟩ h1
    dsimp only
    split_ifs
    · exact h1
    · exact ih h1

lemma scanClusters_keeps (hstep : ∀ s lfn entry off, I s → Ensures E (fun r => I r.2.1) (step s lfn entry off))
    (h : I s) : Ensures E I (scanClusters step fuel s lfn c base) := by
  induction fuel generalizing s lfn c base with
  | zero =>
    rw [scanClusters]
    split_ifs
    · exact d.fuel
    · exact h
  | succ fuel ih =>
    rw [scanClusters]
    split_ifs
    · rcases hread : ataReadSectors s (clusterToLba s.vol c) (bufSectors s.vol) with ⟨_ | buf, s1⟩
      · exact d.read h hread
      · apply (scanEntries_keeps hstep (d.read h hread)).bind
        rintro ⟨stop, s2, lfn2⟩ h2
        dsimp only
        split_ifs
        · exact h2
        · apply (d.next h2).bind
          rintro ⟨next, s3⟩ h3
          exact ih h3
    · exact h

lemma scanEntry_keeps {scan : Fat → ℕ → PathName → Except Stop Fat} {dir depth : ℕ}
    {entry : Bytes} (hscan : ∀ s c path, I s → Ensures E I (scan s c path)) (h : I s) :
    Ensures E (fun r => I r.2.1) (scanEntry cwd fuel scan dir parent depth s lfn entry off) := by
  rw [scanEntry]
  dsimp only
  split_ifs
  · exact h
  · exact h
  · exact h
  · exact h
  · rw [scanNode]
    apply Ensures.bind
    · exact ((addNode_keeps d.nodes h).weaken fun e he => he ▸ d.fuel).bind fun _ h1 => h1
    · intro s1 h1
      rw [scanBelow]
      split_ifs
      · exact (hscan s1 _ _ h1).bind fun s2 h2 => h2
      · exact h1
  · exact h

lemma scanDirectory_keeps (h : I s) : Ensures E I (scanDirectory cwd fuel left s c parent) := by
  induction left generalizing s c parent with
  | zero => exact h
  | succ left ih =>
    rw [scanDirectory]
    exact scanClusters_keeps d (fun _ _ _ _ h => scanEntry_keeps d (fun _ _ _ h => ih h) h) h

end Read

end Chimera
