import Chimera.Lib.Radix
import Chimera.Pmap.Model

/-!
# What the page tables say

A user page of an address space is a `Slot`: its four table indices. The `view` of a memory is the
abstract content of the page tables, a map from address spaces and slots to entries, with `0`
where a table is missing. `Shape m R` says that the tables of the address spaces `R` are what the
code takes them for: a forest of tables whose upper entries are user entries for small pages, with
no user page in a frame that holds a table.

Each write of `pmap.c` is then one exact change of the view: a leaf write changes one slot
(`Shape.writeLeaf`), a write outside the tables none (`Shape.writeData`), a new empty table none
(`Shape.graft`), a new PML4 adds an empty address space (`Shape.plant`).
-/

namespace Chimera

open Lib
open Function (update update_self update_of_ne)
open Option (elim_some elim_none bind_some)

/-! ## Slots -/

/-- A page of the user half, by its indices in the four tables. -/
abbrev Slot := Fin 256 × Fin 512 × Fin 512 × Fin 512

/-- The indices that lead to the last table. -/
def slotPath (x : Slot) : List ℕ := [x.1, x.2.1, x.2.2.1]

/-- The index in the last table. -/
def slotLast (x : Slot) : ℕ := x.2.2.2

/-- The first address of the page. -/
def slotVa (x : Slot) : ℕ := vaOf x.1 x.2.1 x.2.2.1 x.2.2.2

/-- The page an address lies in; the bits above the user half are ignored. -/
def vaSlot (va : ℕ) : Slot :=
  (⟨va / 2 ^ 39 % 256, Nat.mod_lt _ (by decide)⟩, ⟨vaIndex 3 va, Nat.mod_lt _ (by decide)⟩,
    ⟨vaIndex 2 va, Nat.mod_lt _ (by decide)⟩, ⟨vaIndex 1 va, Nat.mod_lt _ (by decide)⟩)

lemma slotVa_lt (x : Slot) : slotVa x < userEnd := by
  obtain ⟨a, b, c, d⟩ := x
  have := a.isLt
  have := b.isLt
  have := c.isLt
  have := d.isLt
  simp only [slotVa, vaOf, userEnd]
  omega

@[simp] lemma vaSlot_slotVa (x : Slot) : vaSlot (slotVa x) = x := by
  obtain ⟨a, b, c, d⟩ := x
  have ha := a.isLt
  have hb := b.isLt
  have hc := c.isLt
  have hd := d.isLt
  simp only [vaSlot, slotVa, vaOf, vaIndex, Prod.mk.injEq, Fin.ext_iff]
  omega

variable {va a b i k : ℕ} {σ : Type*} {p : List ℕ} {x : Slot}

lemma slotVa_vaSlot (h : va < userEnd) : slotVa (vaSlot va) = va / pageSize * pageSize := by
  simp only [vaSlot, slotVa, vaOf, vaIndex, userEnd, pageSize] at *
  omega

lemma vaIndex_four (h : va < userEnd) : vaIndex 4 va = (vaSlot va).1 := by
  simp only [vaSlot, vaIndex, userEnd] at *
  omega

/-- The page of the trampoline. -/
def trampSlot : Slot := vaSlot signalTrampVa

lemma vaSlot_eq_trampSlot (h : va < userEnd) : vaSlot va = trampSlot ↔ pmapIsTrampolineVa va = true := by
  have hself : slotVa trampSlot = signalTrampVa := by decide
  unfold pmapIsTrampolineVa
  rw [decide_eq_true_iff, ← slotVa_vaSlot h]
  constructor
  · intro heq
    rw [heq, hself]
  · intro heq
    rw [← vaSlot_slotVa (vaSlot va), heq, trampSlot]

/-- The pages with addresses in `[a, b)`. -/
def span (a b : ℕ) : Set Slot := {x | a ≤ slotVa x ∧ slotVa x < b}

lemma span_self (a : ℕ) : span a a = ∅ := Set.eq_empty_of_forall_notMem fun _ hx => absurd hx.2 (not_lt.mpr hx.1)

lemma span_union_span {c : ℕ} (hab : a ≤ b) (hbc : b ≤ c) : span a b ∪ span b c = span a c := by
  ext x
  simp only [span, Set.mem_union, Set.mem_ofPred_eq]
  omega

lemma span_succ (ha : pageSize ∣ a) (h : a + i * pageSize < userEnd) :
    span a (a + (i + 1) * pageSize) = insert (vaSlot (a + i * pageSize)) (span a (a + i * pageSize)) := by
  have hdvd : pageSize ∣ a + i * pageSize := ha.add (Dvd.intro_left i rfl)
  have hself : slotVa (vaSlot (a + i * pageSize)) = a + i * pageSize := by
    rw [slotVa_vaSlot h, Nat.div_mul_cancel hdvd]
  ext x
  have hx : pageSize ∣ slotVa x := by
    have := slotVa_vaSlot (slotVa_lt x)
    rw [vaSlot_slotVa] at this
    exact Dvd.intro_left _ this.symm
  have hiff : x = vaSlot (a + i * pageSize) ↔ slotVa x = a + i * pageSize := by
    constructor
    · rintro rfl
      exact hself
    · intro heq
      rw [← vaSlot_slotVa x, heq]
  rw [Set.mem_insert_iff, hiff]
  obtain ⟨c, hc⟩ := hx
  obtain ⟨d, hd⟩ := ha
  simp only [span, Set.mem_ofPred_eq, hc, hd, pageSize]
  omega

/-- **A loop over the pages of a range** in the user half does the pages of the range, each once. -/
lemma forUpTo_span (I : Set Slot → σ → Prop) {f : ℕ → σ → σ}
    (ha : pageSize ∣ a) (hb : pageSize ∣ b) (hend : b ≤ userEnd) {s : σ} (h0 : I ∅ s)
    (hstep : ∀ va < userEnd, ∀ X t, vaSlot va ∉ X → I X t → I (insert (vaSlot va) X) (f va t)) :
    I (span a b) (forUpTo (fun i t => f (a + i * pageSize) t) ((b - a + pageSize - 1) / pageSize) s) := by
  set n := (b - a + pageSize - 1) / pageSize with hn
  by_cases hab : a ≤ b
  · have hlast : a + n * pageSize = b := by
      obtain ⟨c, rfl⟩ := ha
      obtain ⟨d, rfl⟩ := hb
      simp only [hn, pageSize] at hab ⊢
      omega
    have hloop := forUpTo_invariant
      (fun i t => I (span a (a + i * pageSize)) t)
      (by rwa [Nat.zero_mul, Nat.add_zero, span_self]) (fun i hi t ht => by
        have hle : (i + 1) * pageSize ≤ n * pageSize := Nat.mul_le_mul_right _ hi
        have hva : a + i * pageSize < userEnd := by
          simp only [pageSize] at hle hlast ⊢
          omega
        rw [span_succ ha hva]
        refine hstep _ hva _ t (fun hx => ?_) ht
        have hself : slotVa (vaSlot (a + i * pageSize)) = a + i * pageSize := by
          rw [slotVa_vaSlot hva, Nat.div_mul_cancel (ha.add (Dvd.intro_left i rfl))]
        exact absurd hx.2 (by omega))
    rwa [hlast] at hloop
  · have hzero : n = 0 := by
      simp only [hn, pageSize] at hab ⊢
      omega
    have hempty : span a b = ∅ := Set.eq_empty_of_forall_notMem fun x hx => hab (hx.1.trans hx.2.le)
    rw [hzero, hempty]
    exact h0

/-! ## Tables and the view -/

/-- The paths to tables of the user half. -/
def userPaths : Set (List ℕ) := {p | p.length ≤ 3 ∧ (∀ a ∈ p.head?, a < 256) ∧ ∀ i ∈ p, i < 512}

lemma userPaths_closed : PrefixClosed userPaths where
  nil_mem := ⟨by simp, by simp, by simp⟩
  init_mem := by
    rintro p i ⟨hlen, hhead, hlt⟩
    rw [List.length_append, List.length_singleton] at hlen
    refine ⟨by omega, fun a ha => hhead a ?_, fun j hj => hlt j (List.mem_append_left _ hj)⟩
    cases p with
    | nil => cases ha
    | cons b p => exact ha

lemma mem_userPaths_of_prefix {q : List ℕ} (hq : q ∈ userPaths) (h : p <+: q) : p ∈ userPaths := by
  obtain ⟨t, rfl⟩ := h
  induction t using List.reverseRecOn with
  | nil => rwa [List.append_nil] at hq
  | append_singleton t i ih =>
    rw [← List.append_assoc] at hq
    exact ih (userPaths_closed.init_mem hq)

lemma slotPath_mem (x : Slot) : slotPath x ∈ userPaths := by
  refine ⟨le_rfl, fun a ha => ?_, fun i hi => ?_⟩
  · obtain rfl : x.1.val = a := by simpa [slotPath] using ha
    exact x.1.isLt
  · obtain ⟨a, b, c, d⟩ := x
    have ha := a.isLt
    have hb := b.isLt
    have hc := c.isLt
    simp only [slotPath, List.mem_cons, List.not_mem_nil, or_false] at hi
    omega

/-- The walk of the code goes through the tables of the slot. -/
lemma slotPath_vaSlot (h : va < userEnd) : slotPath (vaSlot va) = [vaIndex 4 va, vaIndex 3 va, vaIndex 2 va] := by
  rw [slotPath, ← vaIndex_four h]
  rfl

lemma vaPath_mem (h : va < userEnd) (hp : p <+: [vaIndex 4 va, vaIndex 3 va, vaIndex 2 va]) : p ∈ userPaths :=
  mem_userPaths_of_prefix (slotPath_mem (vaSlot va)) (slotPath_vaSlot h ▸ hp)

/-- All four indices of a slot. -/
def slotIndices (x : Slot) : List ℕ := [x.1, x.2.1, x.2.2.1, x.2.2.2]

/-- The slots whose indices begin with `p`: the pages below one table or one entry. -/
def under (p : List ℕ) : Set Slot := {x | p <+: slotIndices x}

lemma mem_under_nil (x : Slot) : x ∈ under [] := List.nil_prefix

lemma mem_under_concat : x ∈ under (p ++ [i]) ↔ x ∈ under p ∧ (slotIndices x)[p.length]? = some i := by
  constructor
  · rintro ⟨t, ht⟩
    refine ⟨⟨[i] ++ t, by rw [← ht, List.append_assoc]⟩, ?_⟩
    rw [← ht, List.append_assoc, List.getElem?_append_right le_rfl, Nat.sub_self]
    rfl
  · rintro ⟨⟨t, ht⟩, hi⟩
    rw [← ht, List.getElem?_append_right le_rfl, Nat.sub_self] at hi
    cases t with
    | nil => cases hi
    | cons j t =>
      obtain rfl : j = i := Option.some.inj hi
      exact ⟨t, by rw [← ht, List.append_assoc]; rfl⟩

/-- The index of a slot at one level is below the size of the table there. -/
lemma slotIndices_lt (h : (slotIndices x)[k]? = some i) : i < if k = 0 then 256 else 512 := by
  obtain ⟨a, b, c, d⟩ := x
  match k, h with
  | 0, h => exact Option.some.inj h ▸ a.isLt
  | 1, h => exact Option.some.inj h ▸ b.isLt
  | 2, h => exact Option.some.inj h ▸ c.isLt
  | 3, h => exact Option.some.inj h ▸ d.isLt
  | k + 4, h => cases h

lemma exists_index (x : Slot) (hk : k < 4) : ∃ i, (slotIndices x)[k]? = some i := ⟨_, List.getElem?_eq_getElem hk⟩

/-- A full list of indices is one slot. -/
lemma under_full : under (slotPath x ++ [slotLast x]) = {x} := by
  ext y
  have hx : slotPath x ++ [slotLast x] = slotIndices x := rfl
  rw [hx, Set.mem_singleton_iff]
  constructor
  · intro h
    have heq : slotIndices x = slotIndices y := List.IsPrefix.eq_of_length h rfl
    obtain ⟨a, b, c, d⟩ := x
    obtain ⟨a', b', c', d'⟩ := y
    simp only [slotIndices, List.cons.injEq, Fin.val_inj, and_true] at heq
    simp [heq]
  · rintro rfl
    exact List.prefix_rfl

/-- **A loop over one table**, each of whose rounds does the pages below one entry, does the pages below
the table. -/
lemma forUpTo_under (I : Set Slot → σ → Prop) (hlen : p.length < 4)
    {body : ℕ → σ → σ} {n : ℕ} (hn : n = if p.length = 0 then 256 else 512) {S : Set Slot} {t : σ}
    (h0 : I S t)
    (hstep : ∀ i < n, ∀ S' t', (∀ x ∈ under (p ++ [i]), x ∈ S' → x ∈ S) → I S' t' →
      I (S' ∪ under (p ++ [i])) (body i t')) : I (S ∪ under p) (forUpTo body n t) := by
  set done : ℕ → Set Slot := fun k => {x | x ∈ under p ∧ ∃ i < k, (slotIndices x)[p.length]? = some i}
    with hdone
  have hloop : I (S ∪ done n) (forUpTo body n t) := by
    refine forUpTo_invariant (fun k t' => I (S ∪ done k) t') ?_ fun i hi t' ht' => ?_
    · have hnone : S ∪ done 0 = S := by simp [hdone]
      rwa [hnone]
    · have hsucc : S ∪ done i ∪ under (p ++ [i]) = S ∪ done (i + 1) := by
        ext x
        simp only [hdone, Set.mem_union, mem_under_concat, Set.mem_ofPred_eq, or_assoc]
        refine or_congr_right ⟨?_, ?_⟩
        · rintro (⟨hx, j, hj, hxj⟩ | ⟨hx, hxi⟩)
          · exact ⟨hx, j, by omega, hxj⟩
          · exact ⟨hx, i, by omega, hxi⟩
        · rintro ⟨hx, j, hj, hxj⟩
          rcases Nat.lt_succ_iff_lt_or_eq.mp hj with hj | rfl
          · exact .inl ⟨hx, j, hj, hxj⟩
          · exact .inr ⟨hx, hxj⟩
      rw [← hsucc]
      refine hstep i hi _ t' (fun x hx hxS => ?_) ht'
      rcases hxS with hxS | ⟨-, j, hj, hxj⟩
      · exact hxS
      · rw [(mem_under_concat.mp hx).2, Option.some.injEq] at hxj
        omega
  have hall : done n = under p := by
    ext x
    refine ⟨fun hx => hx.1, fun hx => ⟨hx, ?_⟩⟩
    obtain ⟨i, hi⟩ := exists_index x hlen
    exact ⟨i, hn ▸ slotIndices_lt hi, hi⟩
  rwa [hall] at hloop

/-- The frames of the page tables of the address spaces `R`. -/
def tables (m : ℕ → ℕ → BitVec 64) (R : Finset ℕ) : Set ℕ := nodes childTable m R userPaths

/-- The last table on the way to a slot. -/
def tableOf (m : ℕ → ℕ → BitVec 64) (r : ℕ) (x : Slot) : Option ℕ := walk childTable m r (slotPath x)

/-- The entry of a slot, `0` if a table on the way is missing. -/
def view (m : ℕ → ℕ → BitVec 64) (r : ℕ) (x : Slot) : BitVec 64 :=
  (tableOf m r x).elim 0#64 fun pt => m pt (slotLast x)

/-- The page tables of the address spaces `R` are well formed. -/
structure Shape (m : ℕ → ℕ → BitVec 64) (R : Finset ℕ) : Prop where
  forest : Forest childTable m R userPaths
  upper : ∀ {r p i f}, r ∈ R → p ++ [i] ∈ userPaths → walk childTable m r p = some f →
    present (m f i) → user (m f i) ∧ ¬ large (m f i)
  leaf_user : ∀ {r x}, r ∈ R → present (view m r x) → user (view m r x)
  leaf_frame : ∀ {r x}, r ∈ R → present (view m r x) → pteFrame (view m r x) ∉ tables m R

section shape

variable {m m' : ℕ → ℕ → BitVec 64} {R : Finset ℕ} {r : ℕ} {pt f : ℕ}

lemma view_of_table (h : tableOf m r x = some pt) : view m r x = m pt (slotLast x) := by
  rw [view, h, elim_some]

/-- A present entry is in a table. -/
lemma table_of_present (h : present (view m r x) = true) :
    ∃ pt, tableOf m r x = some pt ∧ view m r x = m pt (slotLast x) := by
  cases hpt : tableOf m r x with
  | none =>
    rw [view, hpt, elim_none] at h
    simp at h
  | some pt => exact ⟨pt, rfl, view_of_table hpt⟩

lemma tableOf_mem_tables (hr : r ∈ R) (h : tableOf m r x = some pt) : pt ∈ tables m R :=
  mem_nodes hr (slotPath_mem x) h

lemma root_mem_tables (hr : r ∈ R) : r ∈ tables m R := root_mem_nodes userPaths_closed hr

/-- Below an absent upper entry there are no pages. -/
lemma view_under_absent {p : List ℕ} (hp : p ++ [i] ∈ userPaths)
    (hw : walk childTable m r p = some f) (habs : ¬ present (m f i)) (hx : x ∈ under (p ++ [i])) :
    view m r x = 0#64 := by
  have hpre : p ++ [i] <+: slotPath x :=
    List.prefix_of_prefix_length_le hx (⟨[slotLast x], rfl⟩ : slotPath x <+: slotIndices x) hp.1
  obtain ⟨t, ht⟩ := hpre
  have hnone : tableOf m r x = none := by
    rw [tableOf, ← ht, walk_append, walk_concat, hw, bind_some]
    simp [childTable, habs]
  rw [view, hnone, elim_none]

namespace Shape

variable {r' : ℕ}

/-- The table of a slot is the table of no other path. -/
lemma table_ne (h : Shape m R) (hr : r ∈ R) (hpt : tableOf m r x = some pt)
    (hr' : r' ∈ R) {p : List ℕ} {i f : ℕ} (hp : p ++ [i] ∈ userPaths)
    (hw : walk childTable m r' p = some f) : f ≠ pt := by
  rintro rfl
  obtain ⟨-, rfl⟩ := h.forest hr' hr (userPaths_closed.init_mem hp) (slotPath_mem x) hw hpt
  have hlen := hp.1
  simp [slotPath] at hlen

/-- Two slots whose entries are in one word are the same. -/
lemma slot_unique (h : Shape m R) (hr : r ∈ R) (hpt : tableOf m r x = some pt)
    (hr' : r' ∈ R) {y : Slot} (hpt' : tableOf m r' y = some pt) (hlast : slotLast y = slotLast x) :
    r' = r ∧ y = x := by
  obtain ⟨rfl, hpath⟩ := h.forest hr' hr (slotPath_mem y) (slotPath_mem x) hpt' hpt
  obtain ⟨a, b, c, d⟩ := x
  obtain ⟨a', b', c', d'⟩ := y
  simp only [slotPath, slotLast, List.cons.injEq, and_true] at hpath hlast
  simp only [Prod.mk.injEq, Fin.ext_iff, true_and]
  tauto

end Shape

/-! ## Writes that keep every table -/

lemma wordWritten_of_ne {g j : ℕ} {w : BitVec 64} (h : ¬ (f = g ∧ i = j)) :
    update m g (update (m g) j w) f i = m f i := by
  by_cases hf : f = g
  · subst hf
    rw [update_self, update_of_ne fun hi => h ⟨rfl, hi⟩]
  · rw [update_of_ne hf]

/-- The walks of the address spaces `R` are the same in both memories. -/
def SameWalks (m m' : ℕ → ℕ → BitVec 64) (R : Finset ℕ) : Prop :=
  ∀ r ∈ R, ∀ q ∈ userPaths, walk childTable m' r q = walk childTable m r q

lemma SameWalks.tables_eq (h : SameWalks m m' R) : tables m' R = tables m R := by
  ext f
  constructor
  · rintro ⟨r, hr, p, hp, hw⟩
    exact mem_nodes hr hp (h r hr p hp ▸ hw)
  · rintro ⟨r, hr, p, hp, hw⟩
    exact mem_nodes hr hp ((h r hr p hp).trans hw)

lemma SameWalks.tableOf_eq (h : SameWalks m m' R) (hr : r ∈ R) : tableOf m' r x = tableOf m r x :=
  h r hr _ (slotPath_mem x)

namespace Shape

/-- **Writing outside the tables** changes nothing in the view. -/
lemma writeData (h : Shape m R) (m' : ℕ → ℕ → BitVec 64) (hsame : ∀ f ∈ tables m R, m' f = m f) :
    Shape m' R ∧ SameWalks m m' R ∧ ∀ r ∈ R, ∀ x, view m' r x = view m r x := by
  have hwalk : SameWalks m m' R := by
    intro r hr q hq
    refine walk_eq_of_agree userPaths_closed (fun p i f hp hw => ?_) hq
    rw [hsame f (mem_nodes hr (userPaths_closed.init_mem hp) hw)]
  have hview : ∀ r ∈ R, ∀ x, view m' r x = view m r x := by
    intro r hr x
    rw [view, view, hwalk.tableOf_eq hr]
    cases hpt : tableOf m r x with
    | none => rfl
    | some pt => simp only [elim_some, hsame pt (tableOf_mem_tables hr hpt)]
  refine ⟨⟨h.forest.congr hwalk, ?_, ?_, ?_⟩, hwalk, hview⟩
  · intro r p i f hr hp hw
    have hpP := userPaths_closed.init_mem hp
    rw [hwalk r hr p hpP] at hw
    rw [hsame f (mem_nodes hr hpP hw)]
    exact h.upper hr hp hw
  · intro r x hr
    rw [hview r hr x]
    exact h.leaf_user hr
  · intro r x hr
    rw [hview r hr x, hwalk.tables_eq]
    exact h.leaf_frame hr

/-- What a write to a last table, of whatever entry, does to the walks and the view. -/
lemma leafWritten (h : Shape m R) (hr : r ∈ R) (hpt : tableOf m r x = some pt) (w : BitVec 64) :
    SameWalks m (update m pt (update (m pt) (slotLast x) w)) R ∧
      ∀ r' ∈ R, ∀ y, view (update m pt (update (m pt) (slotLast x) w)) r' y =
        if r' = r ∧ y = x then w else view m r' y := by
  have hwalk : SameWalks m (update m pt (update (m pt) (slotLast x) w)) R := by
    intro r' hr' q hq
    refine walk_eq_of_agree userPaths_closed (fun p i f hp hwp => ?_) hq
    exact wordWritten_of_ne fun hfi => h.table_ne hr hpt hr' hp hwp hfi.1
  refine ⟨hwalk, fun r' hr' y => ?_⟩
  rw [view, view, hwalk.tableOf_eq hr']
  split_ifs with hxy
  · obtain ⟨rfl, rfl⟩ := hxy
    rw [hpt, elim_some, update_self, update_self]
  · cases hpt' : tableOf m r' y with
    | none => rfl
    | some pt' =>
      rw [elim_some, elim_some]
      refine wordWritten_of_ne ?_
      rintro ⟨rfl, hlast⟩
      exact hxy (h.slot_unique hr hpt hr' hpt' hlast)

/-- **Writing a leaf** changes one slot of one address space. -/
lemma writeLeaf (h : Shape m R) (hr : r ∈ R) (hpt : tableOf m r x = some pt)
    {w : BitVec 64} (m' : ℕ → ℕ → BitVec 64) (hw : present w → user w ∧ pteFrame w ∉ tables m R)
    (hm' : m' = update m pt (update (m pt) (slotLast x) w)) :
    Shape m' R ∧ SameWalks m m' R ∧ ∀ r' ∈ R, ∀ y, view m' r' y = if r' = r ∧ y = x then w else view m r' y := by
  subst hm'
  obtain ⟨hwalk, hview⟩ := h.leafWritten hr hpt w
  refine ⟨⟨h.forest.congr hwalk, ?_, ?_, ?_⟩, hwalk, hview⟩
  · intro r' p i f hr' hp hwp
    rw [hwalk r' hr' p (userPaths_closed.init_mem hp)] at hwp
    rw [wordWritten_of_ne fun hfi => h.table_ne hr hpt hr' hp hwp hfi.1]
    exact h.upper hr' hp hwp
  · intro r' y hr'
    rw [hview r' hr' y]
    split_ifs
    · exact fun hp => (hw hp).1
    · exact h.leaf_user hr'
  · intro r' y hr'
    rw [hview r' hr' y, hwalk.tables_eq]
    split_ifs
    · exact fun hp => (hw hp).2
    · exact h.leaf_frame hr'

end Shape

/-! ## New tables -/

namespace Shape

variable {g : ℕ}

/-- **A new empty table**, in a frame that no entry names, changes nothing in the view. -/
lemma graft (h : Shape m R) (m' : ℕ → ℕ → BitVec 64) (hr : r ∈ R) {phys : ℕ}
    (hp : p ++ [i] ∈ userPaths) (hw : walk childTable m r p = some f)
    (habs : ¬ present (m f i)) (hg : g ∉ tables m R) (hphys : frameOf phys = g)
    (hfresh : ∀ r' ∈ R, ∀ x, present (view m r' x) → pteFrame (view m r' x) ≠ g)
    (hm' : m' = update (update m g fun _ => 0#64) f
      (update (update m g (fun _ => 0#64) f) i (tableEntry phys))) :
    Shape m' R ∧ walk childTable m' r (p ++ [i]) = some g ∧ tables m' R = insert g (tables m R) ∧
      ∀ r' ∈ R, ∀ x, view m' r' x = view m r' x := by
  have hfg : f ≠ g := fun hfg => hg (hfg ▸ mem_nodes hr (userPaths_closed.init_mem hp) hw)
  have hnew : m' f i = tableEntry phys := by rw [hm', update_self, update_self]
  have hzero : ∀ j, m' g j = 0#64 := by
    intro j
    rw [hm', update_of_ne hfg.symm, update_self]
  have hother : ∀ f' j, f' ≠ g → ¬ (f' = f ∧ j = i) → m' f' j = m f' j := by
    intro f' j hne hfi
    rw [hm']
    by_cases hf : f' = f
    · subst hf
      rw [update_self, update_of_ne fun hj => hfi ⟨rfl, hj⟩, update_of_ne hne]
    · rw [update_of_ne hf, update_of_ne hne]
  have hnone : childTable (m f i) = none := by simp [childTable, habs]
  have hwalk : ∀ r' ∈ R, ∀ q ∈ userPaths, walk childTable m' r' q =
      if r' = r ∧ q = p ++ [i] then some g else walk childTable m r' q := fun r' hr' q hq =>
    h.forest.walk_graft userPaths_closed hr hp hw hnone hg (by rw [hnew, childTable_tableEntry, hphys])
      (fun j => by rw [hzero j, childTable_zero]) hother hr' hq
  have hdead : walk childTable m r (p ++ [i]) = none := by rw [walk_concat, hw, bind_some, hnone]
  have htables : tables m' R = insert g (tables m R) := nodes_graft hr hp hdead hwalk
  -- the leaves under the new table were missing, and are empty now
  have hview : ∀ r' ∈ R, ∀ x, view m' r' x = view m r' x := by
    intro r' hr' x
    rw [view, view, tableOf, tableOf, hwalk r' hr' _ (slotPath_mem x)]
    split_ifs with hx
    · obtain ⟨rfl, hx⟩ := hx
      rw [hx, hdead, elim_some, elim_none, hzero]
    · cases hpt : walk childTable m r' (slotPath x) with
      | none => rfl
      | some pt =>
        rw [elim_some, elim_some]
        refine hother pt _ (fun hptg => hg (hptg ▸ tableOf_mem_tables hr' hpt)) ?_
        rintro ⟨rfl, -⟩
        exact h.table_ne hr' hpt hr hp hw rfl
  refine ⟨⟨h.forest.graft hg hwalk, ?_, ?_, ?_⟩, ?_, htables, hview⟩
  · intro r' q j f' hr' hq hwq
    have hqP := userPaths_closed.init_mem hq
    rw [hwalk r' hr' q hqP] at hwq
    split_ifs at hwq with hx
    · cases hwq
      rw [hzero j]
      simp
    · by_cases hfi : f' = f ∧ j = i
      · obtain ⟨rfl, rfl⟩ := hfi
        rw [hnew]
        simp
      · rw [hother f' j (fun hg' => hg (hg' ▸ mem_nodes hr' hqP hwq)) hfi]
        exact h.upper hr' hq hwq
  · intro r' x hr'
    rw [hview r' hr' x]
    exact h.leaf_user hr'
  · intro r' x hr' hpres
    rw [hview r' hr' x] at hpres ⊢
    rw [htables]
    rintro (hx | hx)
    · exact hfresh r' hr' x hpres hx
    · exact h.leaf_frame hr' hpres hx
  · rw [hwalk r hr _ hp, if_pos ⟨rfl, rfl⟩]

/-- **A new PML4**, with an empty user half and in a frame that no entry names, is an address
space without pages. -/
lemma plant (h : Shape m R) (m' : ℕ → ℕ → BitVec 64) (hg : g ∉ tables m R)
    (hfresh : ∀ r' ∈ R, ∀ x, present (view m r' x) → pteFrame (view m r' x) ≠ g)
    (hempty : ∀ i < 256, m' g i = 0#64) (hother : ∀ f, f ≠ g → m' f = m f) :
    Shape m' (insert g R) ∧ tables m' (insert g R) = insert g (tables m R) ∧
      (∀ r' ∈ R, ∀ x, view m' r' x = view m r' x) ∧ ∀ x, view m' g x = 0#64 := by
  have hgR : g ∉ R := fun hgR => hg (root_mem_tables hgR)
  obtain ⟨hs, hwalks, hview⟩ := h.writeData m' fun f hf => hother f fun hfg => hg (hfg ▸ hf)
  have hchild : ∀ i, [i] ∈ userPaths → childTable (m' g i) = none := by
    intro i hi
    rw [hempty i (hi.2.1 i rfl), childTable_zero]
  have hgt : g ∉ tables m' R := by rwa [hwalks.tables_eq]
  have hforest : Forest childTable m' (insert g R : Finset ℕ) userPaths := by
    rw [Finset.coe_insert]
    exact hs.forest.plant userPaths_closed hgt hchild
  have htables : tables m' (insert g R) = insert g (tables m R) := by
    rw [← hwalks.tables_eq]
    unfold tables
    rw [Finset.coe_insert]
    exact nodes_plant userPaths_closed hchild
  have hdead : ∀ {q}, q ∈ userPaths → q ≠ [] → walk childTable m' g q = none := fun hq hne =>
    walk_eq_none_of_empty hchild userPaths_closed hq hne
  have hnew : ∀ x, view m' g x = 0#64 := by
    intro x
    have hnone : tableOf m' g x = none := hdead (slotPath_mem x) (by simp [slotPath])
    rw [view, hnone, elim_none]
  refine ⟨⟨hforest, ?_, ?_, ?_⟩, htables, hview, hnew⟩
  · intro r' p i f hr' hp hw hpres
    rcases Finset.mem_insert.mp hr' with rfl | hr'
    · by_cases hne : p = []
      · subst hne
        cases hw
        rw [hempty i (hp.2.1 i rfl)] at hpres
        simp at hpres
      · rw [hdead (userPaths_closed.init_mem hp) hne] at hw
        cases hw
    · exact hs.upper hr' hp hw hpres
  · intro r' x hr' hpres
    rcases Finset.mem_insert.mp hr' with rfl | hr'
    · rw [hnew] at hpres
      simp at hpres
    · exact hs.leaf_user hr' hpres
  · intro r' x hr' hpres
    rcases Finset.mem_insert.mp hr' with rfl | hr'
    · rw [hnew] at hpres
      simp at hpres
    · rw [htables]
      rintro (hx | hx)
      · rw [hview r' hr' x] at hpres hx
        exact hfresh r' hr' x hpres hx
      · rw [← hwalks.tables_eq] at hx
        exact hs.leaf_frame hr' hpres hx

/-- **Unlinking an empty table** removes pages that were absent. -/
lemma prune (h : Shape m R) (hr : r ∈ R) (hp : p ++ [i] ∈ userPaths)
    (hw : walk childTable m r p = some f) (hlink : childTable (m f i) = some g)
    (hempty : ∀ j < 512, ¬ present (m g j))
    (hm' : m' = update m f (update (m f) i 0#64)) :
    Shape m' R ∧ (∀ f', f' ∈ tables m' R ↔ f' ∈ tables m R ∧ f' ≠ g) ∧
      (∀ r' ∈ R, ∀ q ∈ userPaths, walk childTable m' r' q =
        if r' = r ∧ q = p ++ [i] then none else walk childTable m r' q) ∧
      (∀ r' ∈ R, ∀ x, ¬ (r' = r ∧ x ∈ under (p ++ [i])) → view m' r' x = view m r' x) ∧
      ∀ x ∈ under (p ++ [i]), ¬ present (view m r x) ∧ ¬ present (view m' r x) := by
  have hother : ∀ f' j, ¬ (f' = f ∧ j = i) → m' f' j = m f' j := by
    intro f' j hfj
    rw [hm']
    by_cases hf : f' = f
    · subst hf
      rw [update_self, update_of_ne fun hj => hfj ⟨rfl, hj⟩]
    · rw [update_of_ne hf]
  have hcut : m' f i = 0#64 := by rw [hm', update_self, update_self]
  have hwg : walk childTable m r (p ++ [i]) = some g := by rw [walk_concat, hw, bind_some, hlink]
  have hwalk : ∀ r' ∈ R, ∀ q ∈ userPaths, walk childTable m' r' q =
      if r' = r ∧ q = p ++ [i] then none else walk childTable m r' q := fun r' hr' q hq =>
    h.forest.walk_prune userPaths_closed hr hp hw hlink
      (fun j hj => by simp [childTable, hempty j (hj.2.2 j (by simp))])
      (by rw [hcut, childTable_zero]) hother hr' hq
  have htables : ∀ f', f' ∈ tables m' R ↔ f' ∈ tables m R ∧ f' ≠ g := fun f' => h.forest.nodes_prune hr hp hwg hwalk
  -- a leaf table is not the one with the link
  have hleaf : ∀ {r' x pt}, r' ∈ R → tableOf m r' x = some pt → m' pt (slotLast x) = m pt (slotLast x) := by
    intro r' x pt hr' hpt
    refine hother pt _ ?_
    rintro ⟨rfl, -⟩
    exact h.table_ne hr' hpt hr hp hw rfl
  have hview : ∀ r' ∈ R, ∀ x, ¬ (r' = r ∧ x ∈ under (p ++ [i])) → view m' r' x = view m r' x := by
    intro r' hr' x hx
    have hsame : tableOf m' r' x = tableOf m r' x := by
      rw [tableOf, hwalk r' hr' _ (slotPath_mem x), if_neg]
      · rfl
      · rintro ⟨rfl, heq⟩
        exact hx ⟨rfl, [slotLast x], by rw [← heq]; rfl⟩
    rw [view, view, hsame]
    cases hpt : tableOf m r' x with
    | none => rfl
    | some pt => exact hleaf hr' hpt
  have hgone : ∀ x ∈ under (p ++ [i]), ¬ present (view m r x) ∧ ¬ present (view m' r x) := by
    intro x hx
    have hnew : view m' r x = 0#64 :=
      view_under_absent hp (by
        rw [hwalk r hr p (userPaths_closed.init_mem hp), if_neg, hw]
        rintro ⟨-, heq⟩
        have := congrArg List.length heq
        simp at this) (by rw [hcut]; simp) hx
    refine ⟨fun hpres => ?_, by rw [hnew]; simp⟩
    obtain ⟨t, ht⟩ : p ++ [i] <+: slotPath x :=
      List.prefix_of_prefix_length_le hx (⟨[slotLast x], rfl⟩ : slotPath x <+: slotIndices x) hp.1
    obtain ⟨pt, hpt, hv⟩ := table_of_present hpres
    rw [tableOf, ← ht, walk_append, hwg, bind_some] at hpt
    cases t with
    | nil =>
      cases hpt
      exact hempty _ x.2.2.2.isLt (hv ▸ hpres)
    | cons j t =>
      have hj : j < 512 := (slotPath_mem x).2.2 j (by rw [← ht]; simp)
      rw [walk_cons] at hpt
      simp [childTable, hempty j hj] at hpt
  refine ⟨⟨h.forest.prune hwalk, ?_, ?_, ?_⟩, htables, hwalk, hview, hgone⟩
  · intro r' q j f' hr' hq hwq hpres
    rw [hwalk r' hr' q (userPaths_closed.init_mem hq)] at hwq
    split_ifs at hwq
    by_cases hfj : f' = f ∧ j = i
    · rw [hfj.1, hfj.2, hcut] at hpres
      simp at hpres
    · rw [hother f' j hfj] at hpres ⊢
      exact h.upper hr' hq hwq hpres
  · intro r' x hr' hpres
    by_cases hx : r' = r ∧ x ∈ under (p ++ [i])
    · obtain ⟨rfl, hx⟩ := hx
      exact absurd hpres (hgone x hx).2
    · rw [hview r' hr' x hx] at hpres ⊢
      exact h.leaf_user hr' hpres
  · intro r' x hr' hpres
    by_cases hx : r' = r ∧ x ∈ under (p ++ [i])
    · obtain ⟨rfl, hx⟩ := hx
      exact absurd hpres (hgone x hx).2
    · rw [hview r' hr' x hx] at hpres ⊢
      rw [htables]
      exact fun hf => h.leaf_frame hr' hpres hf.1

/-- **An address space without tables** can be left out. -/
lemma uproot (h : Shape m R) (hr : r ∈ R) (hempty : ∀ i < 256, ¬ present (m r i)) :
    Shape m (R.erase r) ∧ (∀ f, f ∈ tables m (R.erase r) ↔ f ∈ tables m R ∧ f ≠ r) ∧ ∀ x, view m r x = 0#64 := by
  have hsub : ∀ {r'}, r' ∈ R.erase r → r' ∈ R := fun hr' => Finset.mem_of_mem_erase hr'
  have hchild : ∀ i, [i] ∈ userPaths → childTable (m r i) = none := by
    intro i hi
    simp [childTable, hempty i (hi.2.1 i rfl)]
  have hins : tables m R = insert r (tables m (R.erase r)) := by
    unfold tables
    rw [← nodes_plant userPaths_closed hchild, ← Finset.coe_insert, Finset.insert_erase hr]
  have hroot : r ∉ tables m (R.erase r) := by
    rintro ⟨r', hr', q, hq, hw⟩
    have hr' : r' ∈ R.erase r := hr'
    obtain ⟨heq, -⟩ := h.forest (hsub hr') hr hq userPaths_closed.nil_mem hw (walk_nil r)
    exact Finset.ne_of_mem_erase hr' heq
  have htables : ∀ f, f ∈ tables m (R.erase r) ↔ f ∈ tables m R ∧ f ≠ r := by
    intro f
    rw [hins, Set.mem_insert_iff]
    constructor
    · intro hf
      exact ⟨.inr hf, fun heq => hroot (heq ▸ hf)⟩
    · rintro ⟨rfl | hf, hne⟩
      · exact absurd rfl hne
      · exact hf
  refine ⟨⟨h.forest.mono fun r' hr' => hsub hr', ?_, ?_, ?_⟩, htables, fun x => ?_⟩
  · intro r' p i f hr' hp hw
    exact h.upper (hsub hr') hp hw
  · intro r' x hr'
    exact h.leaf_user (hsub hr')
  · intro r' x hr' hpres hf
    exact h.leaf_frame (hsub hr') hpres ((htables _).mp hf).1
  · have hnone : tableOf m r x = none :=
      walk_eq_none_of_empty hchild userPaths_closed (slotPath_mem x) (by simp [slotPath])
    rw [view, hnone, elim_none]

end Shape

end shape

end Chimera
