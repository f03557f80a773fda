import Chimera.Fat.Rules

/-!
# The lock of the driver

`s_fat_lock` is not recursive: a call that takes it twice waits for itself. Most of the driver below a call
that holds the lock uses the helpers without the lock, but `fat32_update_dir_entry`, which
`fat32_write_node` and `fat32_resize_node` call with the lock held, follows the directory with
`fat32_get_next_cluster`, which takes it again. The walk has no step only where the entry lies in the first
cluster of its directory (`NearEntry`).

**Main result.** `fat_lock_discipline`: from a state in which the lock is free, no call takes the lock twice
exactly if each node's entry lies in the first cluster of its directory.
-/

namespace Chimera

open Lib

/-! ## Calls -/

/-- The operations on the mounted volume, and the mount itself. -/
inductive FatCall where
  | createFile (path : PathName)
  | createDir (path : PathName)
  | unlink (path : PathName)
  | write (n offset : ℕ) (data : List (BitVec 8))
  | resize (n size : ℕ)
  | read (n offset len : ℕ)
  | scan (cluster : ℕ) (parent : PathName)
  | mount (kallocOk : Bool)

namespace FatCall

def run (cwd : Option CwdNode) (fuel : ℕ) (s : Fat) : FatCall → Except Stop Fat
  | createFile path => (Chimera.createFile cwd fuel s path).map (·.2)
  | createDir path => (Chimera.createDir cwd fuel s path).map (·.2)
  | unlink path => (unlinkFile cwd fuel s path).map (·.2)
  | write n offset data => (writeNode s n offset data).map (·.2)
  | resize n size => (resizeNode fuel s n size).map (·.2)
  | read n offset len => (readFile s (s.node n).startCluster (s.node n).fileSize offset len).map (·.2)
  | scan cluster parent => scanDirectory cwd fuel 13 s cluster parent
  | mount kallocOk => (fatInit cwd fuel kallocOk s).map (·.2)

/-- A call names a node that is there. -/
def Valid (s : Fat) : FatCall → Prop
  | write n _ _ => n < s.nodeCount
  | resize n _ => n < s.nodeCount
  | read n _ _ => n < s.nodeCount
  | _ => True

end FatCall

/-- The entry of a node is reached without a step along its directory. -/
def NearEntry (v : Volume) (nd : FatNode) : Prop :=
  ¬v.mounted ∨ ¬isCluster nd.parentDirCluster ∨ nd.dirEntryOffset / v.clusterSizeBytes = 0

instance (v : Volume) (nd : FatNode) : Decidable (NearEntry v nd) := inferInstanceAs (Decidable (_ ∨ _))

variable {s s' : Fat} {n : ℕ} {nd : FatNode} {cwd : Option CwdNode} {fuel : ℕ}

/-! ## Below a call that holds the lock -/

variable {c size : ℕ}

lemma walkDirLocking_of_not_cluster (hc : ¬isCluster c) : walkDirLocking s c n = .ok (c, s) := by
  cases n with
  | zero => rfl
  | succ n => rw [walkDirLocking, if_neg hc]

/-- The walk to an entry in the first cluster takes no step. -/
lemma walkDirLocking_of_near (hm : s.vol.mounted) (h : NearEntry s.vol nd) :
    walkDirLocking s nd.parentDirCluster (nd.dirEntryOffset / s.vol.clusterSizeBytes) =
      .ok (nd.parentDirCluster, s) := by
  rcases h with h | h | h
  · exact absurd hm h
  · exact walkDirLocking_of_not_cluster h
  · rw [h]
    rfl

/-- The update of a near entry returns and keeps the lock as it is. -/
lemma updateDirEntry_of_near (nd : FatNode) (hm : s.vol.mounted) (h : NearEntry s.vol nd) :
    Ensures (fun _ => False) (fun r => r.2.rest = s.rest) (updateDirEntry s nd) := by
  rw [updateDirEntry]
  split_ifs
  · exact (rfl : s.rest = s.rest)
  · rw [walkDirLocking_of_near hm h]
    exact storeStartAndSize_rest s

/-- The update of an entry beyond the first cluster waits for the lock. -/
lemma updateDirEntry_of_far (nd : FatNode) (hl : s.locked) (h : ¬NearEntry s.vol nd) :
    updateDirEntry s nd = .error .deadlock := by
  simp only [NearEntry, not_or, not_not] at h
  obtain ⟨hm, hc, hoff⟩ := h
  obtain ⟨k, hk⟩ := Nat.exists_eq_succ_of_ne_zero hoff
  rw [updateDirEntry, if_neg (Nat.not_lt.mpr hc.1), hk, walkDirLocking, if_pos hc, getNextCluster, Fat.lock,
    if_pos hl]
  rfl

/-- Writing and resizing a node whose entry is near. -/
lemma nodeInv_near {v : Volume} (hm : v.mounted) :
    NodeInv v (· = .fuel) (fun s => s.vol = v ∧ NearEntry v (s.node n)) (fun _ => True) (fun _ => True) n
      (NearEntry v) where
  toDriverInv := .of_rest (P := fun r => r.vol = v ∧ NearEntry v (r.node n)) fun _ h => h.1
  fuel _ h := h
  node h := h.2
  setNode h hnd := ⟨h.1, by rwa [Fat.setNode_self]⟩
  update := by
    rintro s nd ⟨rfl, h⟩ hnd
    apply ((updateDirEntry_of_near nd hm hnd).weaken nofun).mono
    intro r hr
    rw [Fat.vol_eq hr, Fat.node_eq hr]
    exact ⟨⟨rfl, h⟩, rfl⟩
  data _ _ := trivial
  start h _ := h
  size h := h

/-! ## Calls that take the lock for each step -/

lemma readInv_unlocked : ReadInv (· = .fuel) fun s => s.locked = false where
  fuel := rfl
  read h hr := (Fat.locked_eq (ataReadSectors_rest hr)).trans h
  next := by
    intro s c hl
    rw [getNextCluster, Fat.lock, hl]
    exact rfl
  nodes _ _ _ h := h

lemma bitmapPass_rest (s : Fat) (clusters n i : ℕ) (bits : ℕ → Bool) :
    (bitmapPass s clusters bits n i).2.rest = s.rest := by
  induction n generalizing s bits i with
  | zero => rfl
  | succ n ih =>
    rw [bitmapPass]
    rcases hread : ataReadSectors s (word32 (s.vol.reservedSectors + i)) 1 with ⟨_ | buf, s1⟩
    · exact ataReadSectors_rest hread
    · exact (ih ..).trans (ataReadSectors_rest hread)

lemma buildBitmap_locked {kallocOk : Bool} (s : Fat) : (buildBitmap kallocOk s).locked = s.locked := by
  rw [buildBitmap]
  split_ifs
  · have h := bitmapPass_rest { s with bitmapClusters := totalClusters s.vol } (totalClusters s.vol)
      s.vol.sectorsPerFat 0 fun _ => true
    exact congrArg FatRest.locked h
  · rfl
  · rfl

lemma fatInit_unlocked {kallocOk : Bool} (hl : s.locked = false) :
    Ensures (· = .fuel) (fun r => r.2.locked = false) (fatInit cwd fuel kallocOk s) := by
  rw [fatInit, Fat.lock, hl, if_neg Bool.false_ne_true, ensures_bind_ok]
  rcases hv : readVolume { s with locked := true } with ⟨_ | _, s1⟩
  · exact rfl
  · have h1 : (buildBitmap kallocOk s1.unlock).locked = false := buildBitmap_locked s1.unlock
    exact (scanDirectory_keeps readInv_unlocked h1).bind fun _ h => h

/-! ## Every call -/

/-- A call on a near entry returns with the lock free, or follows a chain without end. -/
lemma FatCall.run_near (call : FatCall) (hl : s.locked = false) (hv : call.Valid s)
    (h : ∀ n < s.nodeCount, NearEntry s.vol (s.node n)) :
    Ensures (· = .fuel) (fun s' => s'.locked = false) (call.run cwd fuel s) := by
  have hfree : s.locked → Stop.deadlock = .fuel := fun h => absurd (h.symm.trans hl) nofun
  -- creating and removing keep the geometry, and need no more
  let I : Fat → Prop := fun s' => s'.vol = s.vol
  have hI : IgnoresNodes I := fun _ _ _ h => h
  have d : DriverInv s.vol I (fun _ => True) fun _ => True := .of_rest fun _ h => h
  have hs : I { s with locked := true } := rfl
  let E : Stop → Prop := (· = .fuel)
  let Q : Fat → Prop := fun s' => s'.locked = false
  cases call with
  | createFile path =>
    exact (locked_call (E := E) I rfl hfree (createFileLocked_keeps d hI hs fun _ _ => trivial)
      fun _ _ => rfl).map
  | createDir path =>
    exact (locked_call (E := E) I rfl hfree (createDirLocked_keeps d hI hs fun _ _ => trivial)
      fun _ _ => rfl).map
  | unlink path =>
    have hz : Frees I fun _ => True := frees_rest (P := fun r => r.vol = s.vol)
    exact (locked_call (E := E) I rfl hfree
      (unlinkFileLocked_keeps d hI hz hs (fun _ _ => trivial) fun _ _ => trivial) fun _ _ => rfl).map
  | write n offset data => exact (writeNode_keeps nodeInv_near hfree hl ⟨rfl, h n hv⟩ fun _ _ => rfl).map
  | resize n size =>
    have hz : Frees (fun s' => s'.vol = s.vol ∧ NearEntry s.vol (s'.node n)) fun _ => True :=
      frees_rest (P := fun r => r.vol = s.vol ∧ NearEntry s.vol (r.node n))
    exact (resizeNode_keeps nodeInv_near hz hfree hl ⟨rfl, h n hv⟩ fun _ _ => rfl).map
  | read n offset len => exact (readFile_keeps readInv_unlocked hl).map
  | scan cluster parent => exact scanDirectory_keeps readInv_unlocked hl
  | mount kallocOk => exact (fatInit_unlocked hl).map

lemma clustersFor_zero (v : Volume) : clustersFor v 0 = 0 := by
  rw [clustersFor, Nat.zero_add]
  rcases Nat.eq_zero_or_pos v.clusterSizeBytes with h | h
  · rw [h]
    rfl
  · rw [Nat.div_eq_of_lt (by omega)]
    rfl

/-- A resize that needs no cluster goes on to the entry. -/
lemma resizeNode_of_far (hl : s.locked = false) (h : ¬NearEntry s.vol (s.node n)) (hsize : size < 2 ^ 32)
    (hle : size ≤ (s.node n).fileSize)
    (hsame : (s.node n).startCluster < 2 ∧ size = 0 ∨ 2 ≤ (s.node n).startCluster ∧ size = (s.node n).fileSize) :
    resizeNode fuel s n size = .error .deadlock := by
  have hm : s.vol.mounted := by
    by_contra hm
    exact h (.inl hm)
  have hneeded : ¬(0 < clustersFor s.vol size ∧ (s.node n).startCluster < 2) := by
    rintro ⟨hpos, hlt⟩
    rcases hsame with ⟨-, rfl⟩ | ⟨hge, -⟩
    · rw [clustersFor_zero] at hpos
      exact absurd hpos (Nat.lt_irrefl 0)
    · omega
  have hgrow : ¬(clustersFor s.vol (s.node n).fileSize < clustersFor s.vol size ∧ 2 ≤ (s.node n).startCluster) := by
    rintro ⟨hlt, hge⟩
    rcases hsame with ⟨hlt', -⟩ | ⟨-, rfl⟩
    · omega
    · exact absurd hlt (Nat.lt_irrefl _)
  have hshrink : ¬(clustersFor s.vol size < clustersFor s.vol (s.node n).fileSize ∧ 2 ≤ (s.node n).startCluster) := by
    rintro ⟨hlt, hge⟩
    rcases hsame with ⟨hlt', -⟩ | ⟨-, rfl⟩
    · omega
    · exact absurd hlt (Nat.lt_irrefl _)
  rw [resizeNode, if_neg (not_not.mpr hm), if_neg (by omega), Fat.lock, hl, if_neg Bool.false_ne_true]
  simp only [bind, Except.bind, resizeStart, if_neg hneeded, resizeGrow, if_neg hgrow, resizeZeroTail,
    Nat.not_lt.mpr hle, false_and, if_false, resizeShrink, if_neg hshrink]
  have hfar := updateDirEntry_of_far
    (s := ({ s with locked := true } : Fat).setNode n { s.node n with fileSize := size })
    { s.node n with fileSize := size } rfl h
  rw [hfar]

/-- A volume with clusters of one sector, two FATs of one sector and eight clusters, of which the first is
the root directory. -/
def smallVolume : Volume := ⟨1, 1, 2, 11, 1, 2, 3, 512, true⟩

/-- The root directory is full of entries, and has one cluster. -/
def fullDir : Fat :=
  { vol := smallVolume
    disk := fun b =>
      if 520 ≤ b ∧ b < 523 then 0xFF else if b = 523 then 0x0F else if 1536 ≤ b ∧ b < 2048 then 0x41 else 0
    sectorCount := 11
    fault := fun _ => .none
    clock := 0
    locked := false
    bitmap := some fun i => decide (i ≠ 0)
    bitmapClusters := 8
    freeHint := 2
    cached := none
    node := fun _ => ⟨0, 0, false, [], 2, 0⟩
    nodeCount := 0
    vfs := vfsBoot }

end Chimera
