import Chimera.Ipc.Model

/-!
# The table of a space

A name carries the generation of its entry, which is counted up when the entry is freed and again when
it is handed out. So a live entry has an even generation, a free one an odd one, and every name that
was given up has a smaller generation than its entry has now (`SpaceOk`). `SpaceOk.occupy` and
`SpaceOk.freeName` are the two ways an entry changes.
-/

namespace Chimera

open Lib

/-- The entry a word of the free list leads to. -/
def nameLink (w : ℕ) : Option ℕ := if u32 w = nameNull then none else some (ipcNameIndex (u32 w))

/-- **The invariant of a space**, with the names it has given up. If `whole`, the free list has every
free entry, and its length is counted. -/
structure SpaceOk (whole : Prop) (x : IpcSpace) (dead : Set ℕ) : Prop where
  size : x.tableSize = ipcSpaceInitialCapacity
  used : 1 ≤ x.tableUsed ∧ x.tableUsed ≤ ipcSpaceInitialCapacity
  head_lt : x.freeHead < 2 ^ 32
  free : ∃ L, Chain (fun i => nameLink (x.table i).object) (nameLink x.freeHead) L ∧
    (∀ i ∈ L, 1 ≤ i ∧ i < x.tableUsed ∧ (x.table i).bits = typeNone) ∧
    (whole → x.freeCount = L.length ∧
      ∀ i, 1 ≤ i → i < x.tableUsed → (x.table i).bits = typeNone → i ∈ L)
  zero : (x.table 0).bits = typeNone
  gen_lt : ∀ i, (x.table i).gen < 256
  live : ∀ i, (x.table i).bits ≠ typeNone → Even (x.table i).gen
  idle : ∀ i, 1 ≤ i → i < x.tableUsed → (x.table i).bits = typeNone → Odd (x.table i).gen
  unused : ∀ i, x.tableUsed ≤ i → (x.table i).gen = 0 ∧ (x.table i).bits = typeNone
  dead_lt : ∀ n ∈ dead, 1 ≤ ipcNameIndex n ∧ ipcNameIndex n < x.tableUsed ∧
    ipcNameGen n < (x.table (ipcNameIndex n)).gen

section space

variable {whole : Prop} {x x' : IpcSpace} {dead : Set ℕ} {i g hd n p used count : ℕ}

lemma ipcNameIndex_make (hi : i < 64) : ipcNameIndex (ipcNameMake g i) = i := by
  unfold ipcNameIndex ipcNameMake
  omega

lemma ipcNameGen_make (hg : g < 256) : ipcNameGen (ipcNameMake g i) = g := by
  unfold ipcNameGen ipcNameMake
  omega

lemma ipcNameMake_ne_null (hi : 1 ≤ i) (hi' : i < 64) : ipcNameMake g i ≠ nameNull := by
  unfold ipcNameMake nameNull
  omega

lemma nameLink_make (hi : 1 ≤ i) (hi' : i < 64) : nameLink (ipcNameMake g i) = some i := by
  have hu : u32 (ipcNameMake g i) = ipcNameMake g i := by
    unfold u32 ipcNameMake
    omega
  rw [nameLink, hu, if_neg (ipcNameMake_ne_null hi hi'), ipcNameIndex_make hi']

lemma nameLink_u32 (w : ℕ) : nameLink (u32 w) = nameLink w := by
  have hu : u32 (u32 w) = u32 w := Nat.mod_mod_of_dvd _ dvd_rfl
  rw [nameLink, nameLink, hu]

/-- A dead name is not the name of its entry. -/
lemma SpaceOk.gen_ne (h : SpaceOk whole x dead) (hn : n ∈ dead) :
    ipcNameGen n ≠ (x.table (ipcNameIndex n)).gen := (h.dead_lt n hn).2.2.ne

/-- **A dead name is stale.** -/
lemma SpaceOk.stale (h : SpaceOk whole x dead) (hn : n ∈ dead) : staleName x n = true :=
  decide_eq_true (Or.inr (h.gen_ne hn))

/-- The free list does not hand out a generation a second time. -/
def headInRange (x : IpcSpace) : Prop :=
  0 < x.freeCount → x.freeHead ≠ nameNull → (x.table (ipcNameIndex x.freeHead)).gen ≠ 255

instance : Decidable (headInRange x) := inferInstanceAs (Decidable (_ → _ → _))

/-- Entry `i` of the table is `e` now, and the free list begins at `hd` and is counted as `count`. -/
structure SetTo (x x' : IpcSpace) (i : ℕ) (e : IpcEntry) (hd used count : ℕ) : Prop where
  self : x'.table i = e
  other : ∀ j ≠ i, x'.table j = x.table j
  head : x'.freeHead = hd
  used : x'.tableUsed = used
  count : x'.freeCount = count
  size : x'.tableSize = x.tableSize
  active : x'.active = x.active

lemma SetTo.chain {e : IpcEntry} (t : SetTo x x' i e hd used count) {L : List ℕ} {o : Option ℕ}
    (h : Chain (fun j => nameLink (x.table j).object) o L) (hi : i ∉ L) :
    Chain (fun j => nameLink (x'.table j).object) o L := by
  refine h.congr fun j hj => ?_
  rw [t.other j fun e => hi (e ▸ hj)]

/-- What an entry that is handed out is like: it was free or unused, and its generation `g` is one that
no dead name has. -/
structure Handed (whole : Prop) (x : IpcSpace) (dead : Set ℕ) (i g hd used count : ℕ) : Prop where
  range : 1 ≤ i ∧ i < used ∧ used ≤ ipcSpaceInitialCapacity
  used_le : x.tableUsed ≤ used
  between : ∀ j, x.tableUsed ≤ j → j < used → j = i
  wasNone : (x.table i).bits = typeNone
  gen_lt : g < 256
  even : Even g
  dead_lt : ∀ n ∈ dead, ipcNameIndex n = i → ipcNameGen n < g
  head_lt : hd < 2 ^ 32
  list : ∃ L, Chain (fun j => nameLink (x.table j).object) (nameLink hd) L ∧ i ∉ L ∧
    (∀ j ∈ L, 1 ≤ j ∧ j < x.tableUsed ∧ (x.table j).bits = typeNone) ∧
    (whole → count = L.length ∧
      ∀ j ≠ i, 1 ≤ j → j < x.tableUsed → (x.table j).bits = typeNone → j ∈ L)

section

variable (h : SpaceOk whole x dead)
include h

lemma SpaceOk.occupy {object bits : ℕ} (d : Handed whole x dead i g hd used count)
    (t : SetTo x x' i ⟨object, bits, 1, g⟩ hd used count) (hbits : bits ≠ typeNone) :
    SpaceOk whole x' dead := by
  obtain ⟨hi, hiu, hus⟩ := d.range
  have hi0 : 0 ≠ i := by omega
  refine ⟨t.size.trans h.size, ?_, ?_, ?_, (t.other 0 hi0) ▸ h.zero, fun j => ?_, fun j hj => ?_,
    fun j hj hju hb => ?_, fun j hj => ?_, fun n hn => ?_⟩
  · rw [t.used]
    exact ⟨by omega, hus⟩
  · rw [t.head]
    exact d.head_lt
  · obtain ⟨L, hL, hiL, hfree, hall⟩ := d.list
    rw [t.head, t.used, t.count]
    refine ⟨L, t.chain hL hiL, fun j hj => ?_, fun hw => ⟨(hall hw).1, fun j hj hju hb => ?_⟩⟩
    · obtain ⟨h1, h2, h3⟩ := hfree j hj
      rw [t.other j fun e => hiL (e ▸ hj)]
      exact ⟨h1, h2.trans_le d.used_le, h3⟩
    · have hji : j ≠ i := by
        rintro rfl
        rw [t.self] at hb
        exact hbits hb
      rw [t.other j hji] at hb
      exact (hall hw).2 j hji hj (not_le.mp fun hle => hji (d.between j hle hju)) hb
  · by_cases hji : j = i
    · rw [hji, t.self]
      exact d.gen_lt
    · rw [t.other j hji]
      exact h.gen_lt j
  · by_cases hji : j = i
    · rw [hji, t.self]
      exact d.even
    · rw [t.other j hji] at hj ⊢
      exact h.live j hj
  · have hji : j ≠ i := by
      rintro rfl
      rw [t.self] at hb
      exact hbits hb
    rw [t.used] at hju
    rw [t.other j hji] at hb ⊢
    exact h.idle j hj (not_le.mp fun hle => hji (d.between j hle hju)) hb
  · rw [t.used] at hj
    rw [t.other j fun e => absurd hiu (not_lt.mpr (e ▸ hj))]
    exact h.unused j (d.used_le.trans hj)
  · obtain ⟨h1, h2, h3⟩ := h.dead_lt n hn
    rw [t.used]
    refine ⟨h1, h2.trans_le d.used_le, ?_⟩
    by_cases hni : ipcNameIndex n = i
    · rw [hni, t.self]
      exact d.dead_lt n hn hni
    · rwa [t.other _ hni]

/-- **What `space_alloc_name` hands out**, when the table is not full. -/
lemma SpaceOk.spaceAllocName_cases (hhead : dead.Nonempty → headInRange x) :
    ((spaceAllocName x).1 = nameNull ∧ (spaceAllocName x).2 = x) ∨
      ∃ i g hd used count, Handed whole x dead i g hd used count ∧ (spaceAllocName x).1 = ipcNameMake g i ∧
        ∀ object bits, SetTo x (setRight (spaceAllocName x).2 (spaceAllocName x).1 object bits) i
          ⟨object, bits, 1, g⟩ hd used count := by
  obtain ⟨hu1, hu2⟩ := h.used
  unfold spaceAllocName
  by_cases hpop : 0 < x.freeCount ∧ x.freeHead ≠ nameNull
  · rw [if_pos hpop]
    right
    obtain ⟨L, hL, hfree, hall⟩ := h.free
    have hhd : nameLink x.freeHead = some (ipcNameIndex x.freeHead) := by
      have hu : u32 x.freeHead = x.freeHead := Nat.mod_eq_of_lt h.head_lt
      rw [nameLink, hu, if_neg hpop.2]
    cases L with
    | nil =>
      rw [hhd] at hL
      cases hL
    | cons i L =>
      have hnd := hL.nodup
      obtain ⟨hi, hL'⟩ := hL
      obtain rfl : ipcNameIndex x.freeHead = i := Option.some.inj (hhd.symm.trans hi)
      set i := ipcNameIndex x.freeHead
      obtain ⟨h1, h2, h3⟩ := hfree i List.mem_cons_self
      -- a free entry has an odd generation, so the next one is even
      have hodd := h.idle i h1 h2 h3
      have hlt := h.gen_lt i
      have heven : Even (((x.table i).gen + 1) % 256) := by
        rw [Nat.even_iff]
        rw [Nat.odd_iff] at hodd
        omega
      have hi64 : i < 64 := h2.trans_le hu2
      refine ⟨i, ((x.table i).gen + 1) % 256, u32 (x.table i).object, x.tableUsed, x.freeCount - 1,
        ⟨⟨h1, h2, hu2⟩, le_rfl, fun j hj hj' => by omega, h3, Nat.mod_lt _ (by decide), heven, ?_,
          Nat.mod_lt _ (by decide), L, ?_, (List.nodup_cons.mp hnd).1, fun j hj => ?_, fun hw => ?_⟩, rfl, ?_⟩
      · intro n hn hni
        have hdead := (h.dead_lt n hn).2.2
        have hne : (x.table i).gen ≠ 255 := hhead ⟨n, hn⟩ hpop.1 hpop.2
        rw [hni] at hdead
        omega
      · rw [nameLink_u32]
        exact hL'
      · exact hfree j (List.mem_cons_of_mem _ hj)
      · obtain ⟨hcount, hmem⟩ := hall hw
        rw [List.length_cons] at hcount
        refine ⟨by omega, fun j hj hj1 hju hb => ?_⟩
        exact (List.mem_cons.mp (hmem j hj1 hju hb)).resolve_left hj
      · intro object bits
        simp only [setRight, ipcNameIndex_make hi64]
        exact ⟨by simp, fun j hj => by simp [hj], rfl, rfl, rfl, rfl, rfl⟩
  · rw [if_neg hpop]
    split_ifs with hfull
    · exact .inl ⟨rfl, rfl⟩
    · right
      rw [h.size, ge_iff_le, not_le] at hfull
      obtain ⟨hgen, hnone⟩ := h.unused x.tableUsed le_rfl
      obtain ⟨L, hL, hfree, hall⟩ := h.free
      refine ⟨x.tableUsed, 0, x.freeHead, x.tableUsed + 1, x.freeCount,
        ⟨⟨hu1, Nat.lt_succ_self _, hfull⟩, Nat.le_succ _, fun j hj hj' => by omega, hnone, by decide,
          Even.zero, ?_, h.head_lt, L, hL, fun hmem => (hfree _ hmem).2.1.false, hfree,
          fun hw => ⟨(hall hw).1, fun j _ => (hall hw).2 j⟩⟩, ?_, ?_⟩
      · intro n hn hni
        have hused := (h.dead_lt n hn).2.1
        omega
      · rw [hgen]
      · intro object bits
        simp only [setRight, hgen, ipcNameIndex_make hfull]
        exact ⟨by simp, fun j hj => by simp [hj], rfl, rfl, rfl, rfl, rfl⟩

/-- A live entry has an even generation, so the byte does not come round when it is freed. -/
lemma SpaceOk.gen_ne_max (hb : (x.table i).bits ≠ typeNone) :
    (x.table i).gen + 1 < 256 := by
  have hlt := h.gen_lt i
  have hne : (x.table i).gen ≠ 255 := by
    intro h255
    have heven := h.live i hb
    rw [h255] at heven
    exact absurd heven (by decide)
  omega

/-- What freeing a live entry does to the table. -/
lemma SpaceOk.spaceFreeName_set (hb : (x.table i).bits ≠ typeNone) :
    SetTo x (spaceFreeName x i) i ⟨x.freeHead, typeNone, 0, (x.table i).gen + 1⟩
      (ipcNameMake ((x.table i).gen + 1) i) x.tableUsed (u32 (x.freeCount + 1)) := by
  have hmod : ((x.table i).gen + 1) % 256 = (x.table i).gen + 1 := Nat.mod_eq_of_lt (h.gen_ne_max hb)
  unfold spaceFreeName
  simp only [hmod]
  exact ⟨by simp, fun j hj => by simp [hj], rfl, rfl, rfl, rfl, rfl⟩

end

/-- The values that stand for one and the same name. -/
def sameName (n : ℕ) : Set ℕ := {m | ipcNameIndex m = ipcNameIndex n ∧ ipcNameGen m = ipcNameGen n}

/-- **An entry is freed**, and its name is dead. -/
lemma SpaceOk.freeName (h : SpaceOk whole x dead) (hi : 1 ≤ i) (hiu : i < x.tableUsed)
    (hb : (x.table i).bits ≠ typeNone) (hn : ipcNameIndex n = i) (hg : ipcNameGen n = (x.table i).gen)
    : SpaceOk whole (spaceFreeName x i) (dead ∪ sameName n) := by
  obtain ⟨hu1, hu2⟩ := h.used
  have hi64 : i < 64 := hiu.trans_le hu2
  have heven := h.live i hb
  have t := h.spaceFreeName_set hb
  obtain ⟨L, hL, hfree, hall⟩ := h.free
  have hiL : i ∉ L := fun hmem => hb (hfree i hmem).2.2
  have hi0 : 0 ≠ i := by omega
  refine ⟨t.size.trans h.size, ?_, ?_, ?_, (t.other 0 hi0) ▸ h.zero, fun j => ?_, fun j hj => ?_,
    fun j hj hju hbj => ?_, fun j hj => ?_, fun m hm => ?_⟩
  · rw [t.used]
    exact h.used
  · rw [t.head]
    unfold ipcNameMake
    omega
  · rw [t.head, t.used, t.count]
    refine ⟨i :: L, ⟨nameLink_make hi hi64, ?_⟩, fun j hj => ?_, fun hw => ⟨?_, fun j hj hju hb => ?_⟩⟩
    · dsimp only
      rw [t.self]
      exact t.chain hL hiL
    · rcases List.mem_cons.mp hj with rfl | hj
      · exact ⟨hi, hiu, by rw [t.self]⟩
      · rw [t.other j fun e => hiL (e ▸ hj)]
        exact hfree j hj
    · -- the list has no entry twice, so its length fits the counter
      have hsub : L.toFinset ⊆ Finset.range 64 := fun j hj =>
        Finset.mem_range.mpr ((hfree j (List.mem_toFinset.mp hj)).2.1.trans_le hu2)
      have hle := Finset.card_le_card hsub
      rw [List.toFinset_card_of_nodup hL.nodup, Finset.card_range] at hle
      rw [(hall hw).1, List.length_cons]
      exact Nat.mod_eq_of_lt (by omega)
    · by_cases hji : j = i
      · exact hji ▸ List.mem_cons_self
      · rw [t.other j hji] at hb
        exact List.mem_cons_of_mem _ ((hall hw).2 j hj hju hb)
  · by_cases hji : j = i
    · rw [hji, t.self]
      exact h.gen_ne_max hb
    · rw [t.other j hji]
      exact h.gen_lt j
  · have hji : j ≠ i := by
      rintro rfl
      rw [t.self] at hj
      exact hj rfl
    rw [t.other j hji] at hj ⊢
    exact h.live j hj
  · rw [t.used] at hju
    by_cases hji : j = i
    · rw [hji, t.self]
      exact heven.add_one
    · rw [t.other j hji] at hbj ⊢
      exact h.idle j hj hju hbj
  · rw [t.used] at hj
    rw [t.other j fun e => absurd hiu (not_lt.mpr (e ▸ hj))]
    exact h.unused j hj
  · rw [t.used]
    rcases hm with hm | ⟨hmi, hmg⟩
    · obtain ⟨h1, h2, h3⟩ := h.dead_lt m hm
      refine ⟨h1, h2, ?_⟩
      by_cases hmi : ipcNameIndex m = i
      · rw [hmi, t.self]
        rw [hmi] at h3
        exact h3.trans (Nat.lt_succ_self _)
      · rwa [t.other _ hmi]
    · rw [hmi, hn, hmg, hg, t.self]
      exact ⟨hi, hiu, Nat.lt_succ_self _⟩

lemma setUrefs_table (u j : ℕ) : ((x.setEntry i { x.table i with urefs := u }).table j).object = (x.table j).object ∧
      ((x.setEntry i { x.table i with urefs := u }).table j).bits = (x.table j).bits ∧
      ((x.setEntry i { x.table i with urefs := u }).table j).gen = (x.table j).gen := by
  rw [IpcSpace.table_setEntry]
  split_ifs with hji
  · rw [hji]
    exact ⟨rfl, rfl, rfl⟩
  · exact ⟨rfl, rfl, rfl⟩

/-- The invariant does not look at user references. -/
lemma SpaceOk.setUrefs (h : SpaceOk whole x dead) (i u : ℕ) :
    SpaceOk whole (x.setEntry i { x.table i with urefs := u }) dead := by
  have hobject := fun j => (setUrefs_table (x := x) (i := i) u j).1
  have hbits := fun j => (setUrefs_table (x := x) (i := i) u j).2.1
  have hgen := fun j => (setUrefs_table (x := x) (i := i) u j).2.2
  refine ⟨h.size, h.used, h.head_lt, ?_, (hbits 0).trans h.zero, fun j => ?_, fun j hj => ?_,
    fun j hj hju hb => ?_, fun j hj => ?_, fun n hn => ?_⟩
  · obtain ⟨L, hL, hfree, hall⟩ := h.free
    refine ⟨L, hL.congr fun j _ => by rw [hobject], fun j hj => ?_, fun hw => ⟨(hall hw).1, fun j => ?_⟩⟩ <;>
      rw [hbits]
    · exact hfree j hj
    · exact (hall hw).2 j
  · rw [hgen]
    exact h.gen_lt j
  · rw [hbits] at hj
    rw [hgen]
    exact h.live j hj
  · rw [hbits] at hb
    rw [hgen]
    exact h.idle j hj hju hb
  · rw [hbits, hgen]
    exact h.unused j hj
  · rw [hgen]
    exact h.dead_lt n hn

lemma SpaceOk.mono (h : SpaceOk whole x dead) {dead' : Set ℕ} (hd : dead' ⊆ dead) : SpaceOk whole x dead' :=
  ⟨h.size, h.used, h.head_lt, h.free, h.zero, h.gen_lt, h.live, h.idle, h.unused, fun n hn => h.dead_lt n (hd hn)⟩

/-- Port `p` is the object of name `n`, with the right to receive and to send. -/
structure BoundName (x : IpcSpace) (n p : ℕ) : Prop where
  range : 1 ≤ ipcNameIndex n ∧ ipcNameIndex n < x.tableUsed
  gen : ipcNameGen n = (x.table (ipcNameIndex n)).gen
  object : (x.table (ipcNameIndex n)).object = p
  bits : (x.table (ipcNameIndex n)).bits = typeSendReceive

lemma BoundName.bits_ne (b : BoundName x n p) : (x.table (ipcNameIndex n)).bits ≠ typeNone := by
  rw [b.bits]
  decide

lemma BoundName.set {e : IpcEntry} (b : BoundName x n p) (t : SetTo x x' i e hd used count)
    (hu : x.tableUsed ≤ used) (hi : ipcNameIndex n ≠ i) : BoundName x' n p := by
  refine ⟨?_, ?_, ?_, ?_⟩
  · rw [t.used]
    exact ⟨b.range.1, b.range.2.trans_le hu⟩
  · rw [t.other _ hi]
    exact b.gen
  · rw [t.other _ hi]
    exact b.object
  · rw [t.other _ hi]
    exact b.bits

lemma BoundName.setUrefs (b : BoundName x n p) (i u : ℕ) :
    BoundName (x.setEntry i { x.table i with urefs := u }) n p := by
  obtain ⟨hobject, hbits, hgen⟩ := setUrefs_table u (ipcNameIndex n)
  exact ⟨b.range, b.gen.trans hgen.symm, hobject.trans b.object, hbits.trans b.bits⟩

/-- A name that is bound is not dead. -/
lemma SpaceOk.notMem_of_bound (h : SpaceOk whole x dead) (b : BoundName x n p) : n ∉ dead :=
  fun hn => h.gen_ne hn b.gen

end space

end Chimera
