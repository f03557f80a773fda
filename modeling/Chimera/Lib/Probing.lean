import Mathlib.Data.Fintype.Card
import Mathlib.Data.Nat.ModEq

/-!
# Hash tables with linear probing

A table of `n` slots. A key `k` is looked for at the positions `h k`, `h k + 1`, … modulo `n`, up to the
first slot that was never used; a slot that was cleared is stepped over. `Probed` is the invariant that
makes this right: there is no unused slot between the home of a key and its slot. A table with the
invariant stands for a map (`Holds`), `find` reads it, `insert` and `remove` update it.

`insert` reuses the first cleared slot on its way, but only if it gets to an unused one: it fails when no
slot is unused (`insert_eq_none`).
-/

namespace Lib

open Function (update update_self update_of_ne)

/-- A slot of a table: never used, cleared, or in use. -/
inductive Slotted (κ ν : Type*) where
  | unused
  | cleared
  | used (k : κ) (v : ν)
  deriving DecidableEq, Repr

namespace Probing

variable {κ ν : Type*} [DecidableEq κ] (n : ℕ) (h : κ → ℕ)

/-- Position and value of a key; `m` slots are left to look at, from `i` on. -/
def findFrom (t : ℕ → Slotted κ ν) (k : κ) : ℕ → ℕ → Option (ℕ × ν)
  | 0, _ => none
  | m + 1, i =>
      match t i with
      | .unused => none
      | .cleared => findFrom t k m ((i + 1) % n)
      | .used k' v => if k' = k then some (i, v) else findFrom t k m ((i + 1) % n)

/-- Where a key goes; `d` is the first cleared slot so far. -/
def placeFrom (t : ℕ → Slotted κ ν) (k : κ) : ℕ → ℕ → Option ℕ → Option ℕ
  | 0, _, _ => none
  | m + 1, i, d =>
      match t i with
      | .unused => some (d.getD i)
      | .cleared => placeFrom t k m ((i + 1) % n) (d.or (some i))
      | .used k' _ => if k' = k then some i else placeFrom t k m ((i + 1) % n) d

def find (t : ℕ → Slotted κ ν) (k : κ) : Option (ℕ × ν) := findFrom n t k n (h k % n)

def insert (t : ℕ → Slotted κ ν) (k : κ) (v : ν) : Option (ℕ → Slotted κ ν) :=
  (placeFrom n t k n (h k % n) none).map fun i => update t i (.used k v)

def remove (t : ℕ → Slotted κ ν) (k : κ) : Option (ℕ → Slotted κ ν) :=
  (find n h t k).map fun r => update t r.1 .cleared

/-- The position of a key after `d` steps. -/
def pos (k : κ) (d : ℕ) : ℕ := (h k + d) % n

/-- Slot `d` steps from the home of a key is reached: all slots before it have been used. -/
def Reached (t : ℕ → Slotted κ ν) (k : κ) (d : ℕ) : Prop :=
  d < n ∧ ∀ e, e < d → t (pos n h k e) ≠ .unused

/-- **The invariant**: a key is in one slot at most, and it is reached from its home. -/
structure Probed (t : ℕ → Slotted κ ν) : Prop where
  one : ∀ i j k v w, i < n → j < n → t i = .used k v → t j = .used k w → i = j
  reached : ∀ i k v, i < n → t i = .used k v → ∃ d, i = pos n h k d ∧ Reached n h t k d

/-- **The map** that a table stands for. -/
def Holds (t : ℕ → Slotted κ ν) (m : κ → Option ν) : Prop :=
  ∀ k v, m k = some v ↔ ∃ i, i < n ∧ t i = .used k v

variable {n h} {t : ℕ → Slotted κ ν} {m : κ → Option ν} {k : κ} {v : ν} {d i j : ℕ}

omit [DecidableEq κ] in
lemma pos_succ : (pos n h k d + 1) % n = pos n h k (d + 1) := by rw [pos, pos, Nat.mod_add_mod, Nat.add_assoc]

omit [DecidableEq κ] in
lemma pos_lt (hn : 0 < n) : pos n h k d < n := Nat.mod_lt _ hn

omit [DecidableEq κ] in
/-- Every slot is at some distance from the home of a key. -/
lemma exists_pos (hi : i < n) : ∃ d, d < n ∧ i = pos n h k d := by
  have hn : 0 < n := Nat.zero_lt_of_lt hi
  have hk : h k % n < n := Nat.mod_lt _ hn
  refine ⟨(i + (n - h k % n)) % n, Nat.mod_lt _ hn, ?_⟩
  rw [pos, Nat.add_mod_mod, ← Nat.mod_add_mod, ← Nat.add_assoc, Nat.add_comm (h k % n) i, Nat.add_assoc,
    Nat.add_sub_cancel' hk.le, Nat.add_mod_right, Nat.mod_eq_of_lt hi]

omit [DecidableEq κ] in

/-! ## Looking up -/

variable {x : ℕ} {t' : ℕ → Slotted κ ν}

/-- What a search finds is there. -/
lemma findFrom_eq_some {r : ℕ × ν} (hi : i < n) (hr : findFrom n t k x i = some r) :
    r.1 < n ∧ t r.1 = .used k r.2 := by
  induction x generalizing i with
  | zero => cases hr
  | succ x ih =>
    have hnext : (i + 1) % n < n := Nat.mod_lt _ (Nat.zero_lt_of_lt hi)
    rw [findFrom] at hr
    cases hslot : t i with
    | unused =>
      rw [hslot] at hr
      cases hr
    | cleared =>
      rw [hslot] at hr
      exact ih hnext hr
    | used k' v =>
      rw [hslot] at hr
      dsimp only at hr
      split_ifs at hr with hk
      · cases hr
        rw [← hk]
        exact ⟨hi, hslot⟩
      · exact ih hnext hr

/-- A key that is not found from `d` steps on is in no slot that is reached from there. -/
lemma findFrom_eq_none (hx : d + x = n) (hr : findFrom n t k x (pos n h k d) = none) {e : ℕ}
    (hde : d ≤ e) (hreach : Reached n h t k e) : t (pos n h k e) ≠ .used k v := by
  induction x generalizing d with
  | zero =>
    have hlt := hreach.1
    omega
  | succ x ih =>
    rw [findFrom, pos_succ] at hr
    rcases Nat.lt_or_eq_of_le hde with hlt | rfl
    · have hnext : d + 1 + x = n := by omega
      cases hslot : t (pos n h k d) with
      | unused => exact absurd hslot (hreach.2 d hlt)
      | cleared =>
        rw [hslot] at hr
        exact ih hnext hr hlt
      | used k' v' =>
        rw [hslot] at hr
        dsimp only at hr
        split_ifs at hr
        exact ih hnext hr hlt
    · intro hslot
      rw [hslot] at hr
      dsimp only at hr
      rw [if_pos rfl] at hr
      cases hr

/-- **Lookup.** -/
theorem find_eq (hn : 0 < n) (ht : Probed n h t) (hm : Holds n t m) (k : κ) : (find n h t k).map Prod.snd = m k := by
  rw [find]
  cases hr : findFrom n t k n (h k % n) with
  | some r =>
    obtain ⟨hlt, hslot⟩ := findFrom_eq_some (Nat.mod_lt _ hn) hr
    exact ((hm k r.2).mpr ⟨r.1, hlt, hslot⟩).symm
  | none =>
    cases hk : m k with
    | none => rfl
    | some v =>
      obtain ⟨i, hi, hslot⟩ := (hm k v).mp hk
      obtain ⟨d, rfl, hreach⟩ := ht.reached i k v hi hslot
      exact absurd hslot (findFrom_eq_none (Nat.zero_add n) hr (Nat.zero_le d) hreach)

/-! ## Insertion -/

/-- **Where a key goes**: to its own slot, or to one that is not in use and reached, if it is in none; or
nowhere, if no slot is unused. -/
lemma placeFrom_spec {c : Option ℕ} (hx : d + x = n)
    (hbefore : ∀ e, e < d → t (pos n h k e) ≠ .unused ∧ ∀ v, t (pos n h k e) ≠ .used k v)
    (hc : ∀ j, c = some j → ∃ e, e < d ∧ j = pos n h k e ∧ t j = .cleared) :
    (∃ j v, placeFrom n t k x (pos n h k d) c = some j ∧ j < n ∧ t j = .used k v) ∨
    (∃ j e e', placeFrom n t k x (pos n h k d) c = some j ∧ j = pos n h k e ∧ e ≤ e' ∧ e' < n ∧
      (t j = .unused ∨ t j = .cleared) ∧ t (pos n h k e') = .unused ∧
      ∀ i, i < e' → t (pos n h k i) ≠ .unused ∧ ∀ v, t (pos n h k i) ≠ .used k v) ∨
    (placeFrom n t k x (pos n h k d) c = none ∧
      ∀ e, e < n → t (pos n h k e) ≠ .unused ∧ ∀ v, t (pos n h k e) ≠ .used k v) := by
  induction x generalizing d c with
  | zero =>
    obtain rfl : d = n := by omega
    exact .inr (.inr ⟨rfl, hbefore⟩)
  | succ x ih =>
    have hd : d < n := by omega
    have hnext : d + 1 + x = n := by omega
    rw [placeFrom, pos_succ]
    have hstep : ∀ {y : Slotted κ ν}, t (pos n h k d) = y → y ≠ .unused → (∀ v, y ≠ .used k v) →
        ∀ e, e < d + 1 → t (pos n h k e) ≠ .unused ∧ ∀ v, t (pos n h k e) ≠ .used k v := by
      intro y hy hne hk e he
      rcases Nat.lt_or_eq_of_le (Nat.le_of_lt_succ he) with hlt | rfl
      · exact hbefore e hlt
      · rw [hy]
        exact ⟨hne, hk⟩
    cases hslot : t (pos n h k d) with
    | unused =>
      refine .inr (.inl ?_)
      cases c with
      | none => exact ⟨_, d, d, rfl, rfl, le_rfl, hd, .inl hslot, hslot, hbefore⟩
      | some j =>
        obtain ⟨e, he, rfl, hj⟩ := hc j rfl
        exact ⟨_, e, d, rfl, rfl, he.le, hd, .inr hj, hslot, hbefore⟩
    | cleared =>
      refine ih hnext (hstep hslot nofun nofun) fun j hj => ?_
      cases c with
      | none =>
        cases hj
        exact ⟨d, Nat.lt_succ_self d, rfl, hslot⟩
      | some j' =>
        obtain rfl := Option.some.inj hj
        obtain ⟨e, he, hpos, hj'⟩ := hc j' rfl
        exact ⟨e, Nat.lt_succ_of_lt he, hpos, hj'⟩
    | used k' v' =>
      dsimp only
      split_ifs with hk
      · refine .inl ⟨_, v', rfl, pos_lt (Nat.zero_lt_of_lt hd), ?_⟩
        rw [hslot, hk]
      · refine ih hnext (hstep hslot nofun fun v e => hk (Slotted.used.inj e).1) fun j hj => ?_
        obtain ⟨e, he, hpos, hj'⟩ := hc j hj
        exact ⟨e, Nat.lt_succ_of_lt he, hpos, hj'⟩

omit [DecidableEq κ] in
/-- Using or clearing a slot keeps the others reached. -/
lemma Reached.update {y : Slotted κ ν} (hr : Reached n h t k d) (hy : y ≠ .unused) :
    Reached n h (update t j y) k d := by
  refine ⟨hr.1, fun e he => ?_⟩
  by_cases hj : pos n h k e = j
  · rw [hj, update_self]
    exact hy
  · rw [update_of_ne hj]
    exact hr.2 e he

omit [DecidableEq κ] in
/-- Writing a key to a reached slot, if it is in no other and the slot has no other key. -/
lemma Probed.write (ht : Probed n h t) (hreach : Reached n h t k d)
    (hother : ∀ i w, i < n → i ≠ pos n h k d → t i ≠ .used k w) (v : ν) :
    Probed n h (update t (pos n h k d) (.used k v)) := by
  refine ⟨fun i j k' v' w hi hj hti htj => ?_, fun i k' v' hi hti => ?_⟩
  · by_cases hip : i = pos n h k d
    · by_cases hjp : j = pos n h k d
      · rw [hip, hjp]
      · rw [hip, update_self] at hti
        rw [update_of_ne hjp, ← (Slotted.used.inj hti).1] at htj
        exact absurd htj (hother j w hj hjp)
    · rw [update_of_ne hip] at hti
      by_cases hjp : j = pos n h k d
      · rw [hjp, update_self] at htj
        rw [← (Slotted.used.inj htj).1] at hti
        exact absurd hti (hother i v' hi hip)
      · rw [update_of_ne hjp] at htj
        exact ht.one i j k' v' w hi hj hti htj
  · by_cases hip : i = pos n h k d
    · rw [hip, update_self] at hti
      obtain ⟨rfl, -⟩ := Slotted.used.inj hti
      exact ⟨d, hip, hreach.update nofun⟩
    · rw [update_of_ne hip] at hti
      obtain ⟨e, he, hr⟩ := ht.reached i k' v' hi hti
      exact ⟨e, he, hr.update nofun⟩

lemma Holds.write (hm : Holds n t m) (hj : j < n) (hown : ∀ k' w, t j = .used k' w → k' = k)
    (hother : ∀ i w, i < n → i ≠ j → t i ≠ .used k w) (v : ν) :
    Holds n (update t j (.used k v)) (update m k (some v)) := by
  intro k' v'
  by_cases hk : k' = k
  · rw [hk, update_self]
    constructor
    · intro hv
      rw [← Option.some.inj hv]
      exact ⟨j, hj, update_self ..⟩
    · rintro ⟨i, hi, hti⟩
      by_cases hij : i = j
      · rw [hij, update_self] at hti
        rw [(Slotted.used.inj hti).2]
      · rw [update_of_ne hij] at hti
        exact absurd hti (hother i v' hi hij)
  · rw [update_of_ne hk, hm k' v']
    refine exists_congr fun i => and_congr_right fun hi => ?_
    by_cases hij : i = j
    · rw [hij, update_self]
      exact ⟨fun e => absurd (hown k' v' e) hk, fun e => absurd (Slotted.used.inj e).1.symm hk⟩
    · rw [update_of_ne hij]

/-- **Insertion**, of a new key or of a new value. -/
theorem insert_eq_some (hn : 0 < n) (ht : Probed n h t) (hm : Holds n t m) (hr : insert n h t k v = some t') :
    Probed n h t' ∧ Holds n t' (update m k (some v)) := by
  obtain ⟨j, hj, rfl⟩ := Option.map_eq_some_iff.mp hr
  have hspec := placeFrom_spec (t := t) (h := h) (k := k) (c := none) (Nat.zero_add n) nofun nofun
  rw [show pos n h k 0 = h k % n from rfl, hj] at hspec
  rcases hspec with ⟨i, w, hi, hlt, hslot⟩ | ⟨i, e, e', hi, rfl, hee, he', hfree, hunused, hbefore⟩ | ⟨hi, -⟩
  · cases hi
    have hother : ∀ i w', i < n → i ≠ j → t i ≠ .used k w' := fun i w' hin hne hti =>
      hne (ht.one i j k w' w hin hlt hti hslot)
    obtain ⟨d, rfl, hreach⟩ := ht.reached j k w hlt hslot
    refine ⟨ht.write hreach hother v, hm.write hlt (fun k' w' hk => ?_) hother v⟩
    exact (Slotted.used.inj (hk.symm.trans hslot)).1
  · cases hi
    -- a slot of the key beyond the unused one would not be reached
    have hother : ∀ i w, i < n → i ≠ pos n h k e → t i ≠ .used k w := by
      intro i w hin _ hti
      obtain ⟨d, rfl, hreach⟩ := ht.reached i k w hin hti
      rcases Nat.lt_trichotomy d e' with hlt | rfl | hgt
      · exact (hbefore d hlt).2 w hti
      · exact nomatch hti.symm.trans hunused
      · exact hreach.2 e' hgt hunused
    have hreach : Reached n h t k e := ⟨hee.trans_lt he', fun i hi => (hbefore i (hi.trans_le hee)).1⟩
    refine ⟨ht.write hreach hother v, hm.write (pos_lt hn) (fun k' w hk => ?_) hother v⟩
    rcases hfree with hf | hf
    · exact nomatch hk.symm.trans hf
    · exact nomatch hk.symm.trans hf
  · cases hi

/-- **Insertion fails** exactly if the key is in no slot and no slot is unused. -/
theorem insert_eq_none (hn : 0 < n) :
    insert n h t k v = none ↔ ∀ i, i < n → t i ≠ .unused ∧ ∀ w, t i ≠ .used k w := by
  have hspec := placeFrom_spec (t := t) (h := h) (k := k) (c := none) (Nat.zero_add n) nofun nofun
  rw [show pos n h k 0 = h k % n from rfl] at hspec
  rw [insert, Option.map_eq_none_iff]
  constructor
  · intro hr i hi
    rw [hr] at hspec
    rcases hspec with ⟨j, w, hj, -⟩ | ⟨j, e, e', hj, -⟩ | ⟨-, hall⟩
    · cases hj
    · cases hj
    · obtain ⟨d, hd, rfl⟩ := exists_pos (h := h) (k := k) hi
      exact hall d hd
  · intro hall
    rcases hspec with ⟨j, w, hj, hlt, hslot⟩ | ⟨j, e, e', hj, -, -, -, -, hunused, -⟩ | ⟨hr, -⟩
    · exact absurd hslot ((hall j hlt).2 w)
    · exact absurd hunused (hall _ (pos_lt hn)).1
    · exact hr

/-- Insertion writes to one slot: it clears none, and it uses up an unused slot at most. -/
lemma insert_slots (hr : insert n h t k v = some t') (i : ℕ) : t' i = t i ∨ t' i = .used k v := by
  obtain ⟨j, -, rfl⟩ := Option.map_eq_some_iff.mp hr
  by_cases hij : i = j
  · rw [hij, update_self]
    exact .inr rfl
  · rw [update_of_ne hij]
    exact .inl rfl

/-! ## Removal -/

/-- **Removal.** -/
theorem remove_eq_some (hn : 0 < n) (ht : Probed n h t) (hm : Holds n t m) (hr : remove n h t k = some t') :
    Probed n h t' ∧ Holds n t' (update m k none) := by
  obtain ⟨⟨j, v⟩, hj, rfl⟩ := Option.map_eq_some_iff.mp hr
  obtain ⟨hlt, hslot⟩ := findFrom_eq_some (Nat.mod_lt _ hn) hj
  -- what is in use afterwards was in use before, in another slot
  have hback : ∀ {i k' w}, update t j (.cleared : Slotted κ ν) i = .used k' w → i ≠ j ∧ t i = .used k' w := by
    intro i k' w hti
    by_cases hij : i = j
    · rw [hij, update_self] at hti
      cases hti
    · rw [update_of_ne hij] at hti
      exact ⟨hij, hti⟩
  refine ⟨⟨fun i i' k' v' w hi hi' hti hti' => ?_, fun i k' v' hi hti => ?_⟩, fun k' v' => ?_⟩
  · exact ht.one i i' k' v' w hi hi' (hback hti).2 (hback hti').2
  · obtain ⟨e, he, hreach⟩ := ht.reached i k' v' hi (hback hti).2
    exact ⟨e, he, hreach.update nofun⟩
  · by_cases hk : k' = k
    · rw [hk, update_self]
      refine ⟨nofun, ?_⟩
      rintro ⟨i, hi, hti⟩
      obtain ⟨hij, hti⟩ := hback hti
      exact absurd (ht.one i j k v' v hi hlt hti hslot) hij
    · rw [update_of_ne hk, hm k' v']
      refine exists_congr fun i => and_congr_right fun hi => ⟨fun hti => ?_, fun hti => (hback hti).2⟩
      have hij : i ≠ j := by
        rintro rfl
        exact hk (Slotted.used.inj (hti.symm.trans hslot)).1
      rw [update_of_ne hij]
      exact hti

/-- Removal fails only for a key that the map does not have. -/
theorem remove_eq_none (hn : 0 < n) (ht : Probed n h t) (hm : Holds n t m)
    (hr : remove n h t k = none) : m k = none := by
  rw [← find_eq hn ht hm k, Option.map_eq_none_iff.mp hr]
  rfl

/-! ## How many keys -/

/-- If all slots are in use, the map has `n` keys. -/
lemma card_of_all_used (ht : Probed n h t) (hm : Holds n t m) (hall : ∀ i, i < n → ∃ k v, t i = .used k v) :
    ∃ keys : Finset κ, keys.card = n ∧ ∀ k ∈ keys, m k ≠ none := by
  choose key v hkey using fun i : Fin n => hall i i.isLt
  refine ⟨Finset.univ.image key, ?_, fun k hk => ?_⟩
  · rw [Finset.card_image_of_injective _ fun i j hij => ?_, Finset.card_univ, Fintype.card_fin]
    have hj := hkey j
    rw [← hij] at hj
    exact Fin.ext (ht.one i j (key i) (v i) (v j) i.isLt j.isLt (hkey i) hj)
  · obtain ⟨i, -, rfl⟩ := Finset.mem_image.mp hk
    exact ((hm _ _).mpr ⟨i, i.isLt, hkey i⟩).trans_ne nofun

omit [DecidableEq κ] in
/-- If some slot is not in use, the map has fewer than `n` keys. -/
lemma card_lt_of_not_used {keys : Finset κ} (hm : Holds n t m) (hi : i < n)
    (hfree : ∀ k v, t i ≠ .used k v) (hkeys : ∀ k ∈ keys, m k ≠ none) : keys.card < n := by
  have hslot : ∀ k ∈ keys, ∃ j, j < n ∧ ∃ v, t j = .used k v := by
    intro k hk
    obtain ⟨v, hv⟩ := Option.ne_none_iff_exists'.mp (hkeys k hk)
    obtain ⟨j, hj, htj⟩ := (hm k v).mp hv
    exact ⟨j, hj, v, htj⟩
  choose! slot hlt hslot using hslot
  have hmaps : ∀ k ∈ keys, slot k ∈ (Finset.range n).erase i := by
    intro k hk
    refine Finset.mem_erase.mpr ⟨?_, Finset.mem_range.mpr (hlt k hk)⟩
    rintro rfl
    obtain ⟨v, hv⟩ := hslot k hk
    exact hfree k v hv
  have hinj : Set.InjOn slot keys := by
    intro k hk k' hk' heq
    obtain ⟨v, hv⟩ := hslot k hk
    obtain ⟨w, hw⟩ := hslot k' hk'
    rw [heq, hw] at hv
    exact (Slotted.used.inj hv).1.symm
  calc keys.card ≤ ((Finset.range n).erase i).card := Finset.card_le_card_of_injOn slot hmaps hinj
    _ < (Finset.range n).card := Finset.card_erase_lt_of_mem (Finset.mem_range.mpr hi)
    _ = n := Finset.card_range n

omit [DecidableEq κ] in
lemma probed_unused : Probed n h (fun _ => (.unused : Slotted κ ν)) := ⟨nofun, nofun⟩

omit [DecidableEq κ] in
lemma holds_unused : Holds n (fun _ => (.unused : Slotted κ ν)) fun _ => none := fun _ _ => ⟨nofun, nofun⟩

end Probing

end Lib
