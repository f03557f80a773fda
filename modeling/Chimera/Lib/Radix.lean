import Mathlib.Tactic

/-!
# Radix tables in a flat memory

A memory `m f i` gives word `i` of frame `f`. Some words link to another frame (`child`), so a
root frame and a list of indices lead along links to a frame (`walk`). `Forest m R P` says that
the walks from the roots `R` along the paths `P` never meet: each table is reached in one way.

Four changes of the memory keep a forest, and what they do to its walks is exact:

* `walk_eq_of_agree`: words that no walk reads do not matter;
* `Forest.walk_graft`: linking a fresh empty table adds one walk;
* `Forest.walk_prune`: unlinking an empty table takes one walk away;
* `Forest.plant`: a fresh empty table can become a root.
-/

namespace Lib

open Option (bind_some bind_none)

variable {W : Type*} (child : W → Option ℕ)

/-- The frame reached from frame `f` along the indices `p`. -/
def walk (m : ℕ → ℕ → W) : ℕ → List ℕ → Option ℕ
  | f, [] => some f
  | f, i :: p => (child (m f i)).bind fun g => walk m g p

variable {child} {m m' : ℕ → ℕ → W}

@[simp] lemma walk_nil (f : ℕ) : walk child m f [] = some f := rfl

lemma walk_cons (f i : ℕ) (p : List ℕ) :
    walk child m f (i :: p) = (child (m f i)).bind fun g => walk child m g p := rfl

/-- A walk goes on from where its first part ends. -/
lemma walk_append (f : ℕ) (p q : List ℕ) :
    walk child m f (p ++ q) = (walk child m f p).bind fun g => walk child m g q := by
  induction p generalizing f with
  | nil => rfl
  | cons j p ih =>
    rw [List.cons_append, walk_cons, walk_cons, Option.bind_assoc]
    exact congrArg _ (funext fun g => ih g)

/-- One more index at the end is one more link. -/
lemma walk_concat (f : ℕ) (p : List ℕ) (i : ℕ) :
    walk child m f (p ++ [i]) = (walk child m f p).bind fun g => child (m g i) := by
  rw [walk_append]
  exact congrArg _ (funext fun g => Option.bind_fun_some (child (m g i)))

/-- A set of paths that holds the empty path and every initial part of its paths. -/
structure PrefixClosed (P : Set (List ℕ)) : Prop where
  nil_mem : [] ∈ P
  init_mem : ∀ {p : List ℕ} {i : ℕ}, p ++ [i] ∈ P → p ∈ P

variable (child m) in
/-- The frames that the walks from `R` along `P` reach. -/
def nodes (R : Set ℕ) (P : Set (List ℕ)) : Set ℕ :=
  {f | ∃ r ∈ R, ∃ p ∈ P, walk child m r p = some f}

variable {R : Set ℕ} {P : Set (List ℕ)}

lemma mem_nodes {r f : ℕ} {p : List ℕ} (hr : r ∈ R) (hp : p ∈ P)
    (hw : walk child m r p = some f) : f ∈ nodes child m R P :=
  ⟨r, hr, p, hp, hw⟩

lemma root_mem_nodes (hP : PrefixClosed P) {r : ℕ} (hr : r ∈ R) : r ∈ nodes child m R P :=
  mem_nodes hr hP.nil_mem (walk_nil r)

/-- **Frame rule.** Two memories that agree on the words the walks from `r` read have the same
walks from `r`. -/
lemma walk_eq_of_agree (hP : PrefixClosed P) {r : ℕ}
    (h : ∀ p i f, p ++ [i] ∈ P → walk child m r p = some f → m' f i = m f i) {q : List ℕ}
    (hq : q ∈ P) : walk child m' r q = walk child m r q := by
  induction q using List.reverseRecOn with
  | nil => rfl
  | append_singleton p i ih =>
    rw [walk_concat, walk_concat, ih (hP.init_mem hq)]
    cases hw : walk child m r p with
    | none => rfl
    | some f => simp only [bind_some, h p i f hq hw]

variable (child m R P) in
/-- No frame is reached in two ways. -/
def Forest : Prop :=
  ∀ ⦃r r' p p' f⦄, r ∈ R → r' ∈ R → p ∈ P → p' ∈ P → walk child m r p = some f →
    walk child m r' p' = some f → r = r' ∧ p = p'

/-- Walks that are the same make the same forest. -/
lemma Forest.congr (F : Forest child m R P)
    (h : ∀ r ∈ R, ∀ q ∈ P, walk child m' r q = walk child m r q) : Forest child m' R P := by
  intro r r' p p' f hr hr' hp hp' hw hw'
  rw [h r hr p hp] at hw
  rw [h r' hr' p' hp'] at hw'
  exact F hr hr' hp hp' hw hw'

lemma Forest.mono (F : Forest child m R P) {R' : Set ℕ} (h : R' ⊆ R) : Forest child m R' P :=
  fun _ _ _ _ _ hr hr' hp hp' hw hw' => F (h hr) (h hr') hp hp' hw hw'

/-! ## Linking a fresh table -/

section graft

variable {r0 f0 i0 g : ℕ} {p0 : List ℕ}

/-- **Grafting.** A link from word `i0` of the table at `(r0, p0)` to a fresh table without links
adds the walk `p0 ++ [i0]` and changes no other. -/
lemma Forest.walk_graft (F : Forest child m R P) (hP : PrefixClosed P) (hr0 : r0 ∈ R)
    (hp0 : p0 ++ [i0] ∈ P) (hw0 : walk child m r0 p0 = some f0) (hnone : child (m f0 i0) = none)
    (hg : g ∉ nodes child m R P) (hlink : child (m' f0 i0) = some g)
    (hempty : ∀ i, child (m' g i) = none)
    (hrest : ∀ f i, f ≠ g → ¬ (f = f0 ∧ i = i0) → m' f i = m f i) {r : ℕ} (hr : r ∈ R)
    {q : List ℕ} (hq : q ∈ P) :
    walk child m' r q = if r = r0 ∧ q = p0 ++ [i0] then some g else walk child m r q := by
  have hdead : walk child m r0 (p0 ++ [i0]) = none := by rw [walk_concat, hw0, bind_some, hnone]
  induction q using List.reverseRecOn with
  | nil => simp
  | append_singleton p i ih =>
    have hpP := hP.init_mem hq
    rw [walk_concat, ih hpP]
    split_ifs with h1 h2 h2
    · -- a path is not its own last part
      have := congrArg List.length (h1.2.symm.trans (List.append_inj' h2.2 rfl).1)
      simp at this
    · obtain ⟨rfl, rfl⟩ := h1
      rw [bind_some, hempty, walk_concat, hdead, bind_none]
    · obtain ⟨rfl, h2⟩ := h2
      obtain ⟨rfl, h3⟩ := List.append_inj' h2 rfl
      obtain rfl : i = i0 := by simpa using h3
      rw [hw0, bind_some, hlink]
    · rw [walk_concat]
      cases hw : walk child m r p with
      | none => rfl
      | some f =>
        have hfg : f ≠ g := fun h => hg (h ▸ mem_nodes hr hpP hw)
        rw [bind_some, bind_some, hrest f i hfg]
        rintro ⟨rfl, rfl⟩
        obtain ⟨rfl, rfl⟩ := F hr hr0 hpP (hP.init_mem hp0) hw hw0
        exact h2 ⟨rfl, rfl⟩

/-- A grafted forest is a forest. -/
lemma Forest.graft (F : Forest child m R P) (hg : g ∉ nodes child m R P)
    (hwalk : ∀ r ∈ R, ∀ q ∈ P, walk child m' r q =
      if r = r0 ∧ q = p0 ++ [i0] then some g else walk child m r q) : Forest child m' R P := by
  intro r r' p p' f hr hr' hp hp' hw hw'
  rw [hwalk r hr p hp] at hw
  rw [hwalk r' hr' p' hp'] at hw'
  split_ifs at hw hw' with h1 h2 h2
  · exact ⟨h1.1.trans h2.1.symm, h1.2.trans h2.2.symm⟩
  · cases hw
    exact absurd (mem_nodes hr' hp' hw') hg
  · cases hw'
    exact absurd (mem_nodes hr hp hw) hg
  · exact F hr hr' hp hp' hw hw'

/-- The frames a grafted forest reaches. -/
lemma nodes_graft (hr0 : r0 ∈ R) (hp0 : p0 ++ [i0] ∈ P) (hdead : walk child m r0 (p0 ++ [i0]) = none)
    (hwalk : ∀ r ∈ R, ∀ q ∈ P, walk child m' r q =
      if r = r0 ∧ q = p0 ++ [i0] then some g else walk child m r q) :
    nodes child m' R P = insert g (nodes child m R P) := by
  ext f
  constructor
  · rintro ⟨r, hr, p, hp, hw⟩
    rw [hwalk r hr p hp] at hw
    split_ifs at hw with h
    · exact .inl (Option.some.inj hw).symm
    · exact .inr (mem_nodes hr hp hw)
  · rintro (rfl | ⟨r, hr, p, hp, hw⟩)
    · refine mem_nodes hr0 hp0 ?_
      rw [hwalk r0 hr0 _ hp0, if_pos ⟨rfl, rfl⟩]
    · refine mem_nodes hr hp ?_
      rw [hwalk r hr p hp, if_neg, hw]
      rintro ⟨rfl, rfl⟩
      rw [hdead] at hw
      cases hw

end graft

/-! ## Unlinking an empty table -/

section prune

variable {r0 f0 i0 g : ℕ} {p0 : List ℕ}

/-- **Pruning.** Cutting the link to a table without links takes the walk `p0 ++ [i0]` away and
changes no other. -/
lemma Forest.walk_prune (F : Forest child m R P) (hP : PrefixClosed P) (hr0 : r0 ∈ R)
    (hp0 : p0 ++ [i0] ∈ P) (hw0 : walk child m r0 p0 = some f0) (hlink : child (m f0 i0) = some g)
    (hempty : ∀ i, p0 ++ [i0] ++ [i] ∈ P → child (m g i) = none) (hnone : child (m' f0 i0) = none)
    (hrest : ∀ f i, ¬ (f = f0 ∧ i = i0) → m' f i = m f i) {r : ℕ} (hr : r ∈ R) {q : List ℕ}
    (hq : q ∈ P) :
    walk child m' r q = if r = r0 ∧ q = p0 ++ [i0] then none else walk child m r q := by
  induction q using List.reverseRecOn with
  | nil => simp
  | append_singleton p i ih =>
    have hpP := hP.init_mem hq
    rw [walk_concat, ih hpP]
    split_ifs with h1 h2 h2
    · rfl
    · obtain ⟨rfl, rfl⟩ := h1
      rw [bind_none, walk_concat, walk_concat, hw0, bind_some, hlink, bind_some, hempty i hq]
    · obtain ⟨rfl, h2⟩ := h2
      obtain ⟨rfl, h3⟩ := List.append_inj' h2 rfl
      obtain rfl : i = i0 := by simpa using h3
      rw [hw0, bind_some, hnone]
    · rw [walk_concat]
      cases hw : walk child m r p with
      | none => rfl
      | some f =>
        rw [bind_some, bind_some, hrest f i]
        rintro ⟨rfl, rfl⟩
        obtain ⟨rfl, rfl⟩ := F hr hr0 hpP (hP.init_mem hp0) hw hw0
        exact h2 ⟨rfl, rfl⟩

/-- A pruned forest is a forest. -/
lemma Forest.prune (F : Forest child m R P) (hwalk : ∀ r ∈ R, ∀ q ∈ P, walk child m' r q =
      if r = r0 ∧ q = p0 ++ [i0] then none else walk child m r q) : Forest child m' R P := by
  intro r r' p p' f hr hr' hp hp' hw hw'
  rw [hwalk r hr p hp] at hw
  rw [hwalk r' hr' p' hp'] at hw'
  split_ifs at hw hw'
  exact F hr hr' hp hp' hw hw'

/-- The frames a pruned forest reaches. -/
lemma Forest.nodes_prune (F : Forest child m R P) (hr0 : r0 ∈ R) (hp0 : p0 ++ [i0] ∈ P)
    (hw : walk child m r0 (p0 ++ [i0]) = some g)
    (hwalk : ∀ r ∈ R, ∀ q ∈ P, walk child m' r q =
      if r = r0 ∧ q = p0 ++ [i0] then none else walk child m r q) {f : ℕ} :
    f ∈ nodes child m' R P ↔ f ∈ nodes child m R P ∧ f ≠ g := by
  constructor
  · rintro ⟨r, hr, p, hp, hwp⟩
    rw [hwalk r hr p hp] at hwp
    split_ifs at hwp with h
    refine ⟨mem_nodes hr hp hwp, ?_⟩
    rintro rfl
    exact h (F hr hr0 hp hp0 hwp hw)
  · rintro ⟨⟨r, hr, p, hp, hwp⟩, hne⟩
    refine mem_nodes hr hp ?_
    rw [hwalk r hr p hp, if_neg, hwp]
    rintro ⟨rfl, rfl⟩
    exact hne (Option.some.inj (hwp.symm.trans hw))

end prune

/-! ## A fresh root -/

section plant

variable {g : ℕ}

/-- From a table without links no other table is reached. -/
lemma walk_eq_none_of_empty (hempty : ∀ i, [i] ∈ P → child (m g i) = none) (hP : PrefixClosed P)
    {q : List ℕ} (hq : q ∈ P) (hne : q ≠ []) : walk child m g q = none := by
  induction q using List.reverseRecOn with
  | nil => exact absurd rfl hne
  | append_singleton p i ih =>
    rw [walk_concat]
    by_cases hp : p = []
    · subst hp
      exact hempty i hq
    · rw [ih (hP.init_mem hq) hp, bind_none]

/-- **Planting.** A fresh table without links, along the paths `P`, can become a root. -/
lemma Forest.plant (F : Forest child m R P) (hP : PrefixClosed P) (hg : g ∉ nodes child m R P)
    (hempty : ∀ i, [i] ∈ P → child (m g i) = none) : Forest child m (insert g R) P := by
  have hself : ∀ {p f}, p ∈ P → walk child m g p = some f → p = [] ∧ f = g := by
    intro p f hp hw
    by_cases hne : p = []
    · subst hne
      exact ⟨rfl, (Option.some.inj hw).symm⟩
    · rw [walk_eq_none_of_empty hempty hP hp hne] at hw
      cases hw
  intro r r' p p' f hr hr' hp hp' hw hw'
  rcases hr with rfl | hr <;> rcases hr' with rfl | hr'
  · exact ⟨rfl, (hself hp hw).1.trans (hself hp' hw').1.symm⟩
  · obtain ⟨-, rfl⟩ := hself hp hw
    exact absurd (mem_nodes hr' hp' hw') hg
  · obtain ⟨-, rfl⟩ := hself hp' hw'
    exact absurd (mem_nodes hr hp hw) hg
  · exact F hr hr' hp hp' hw hw'

lemma nodes_plant (hP : PrefixClosed P) (hempty : ∀ i, [i] ∈ P → child (m g i) = none) :
    nodes child m (insert g R) P = insert g (nodes child m R P) := by
  ext f
  constructor
  · rintro ⟨r, rfl | hr, p, hp, hw⟩
    · by_cases hne : p = []
      · subst hne
        exact .inl (Option.some.inj hw).symm
      · rw [walk_eq_none_of_empty hempty hP hp hne] at hw
        cases hw
    · exact .inr (mem_nodes hr hp hw)
  · rintro (rfl | ⟨r, hr, p, hp, hw⟩)
    · exact root_mem_nodes hP (.inl rfl)
    · exact mem_nodes (.inr hr) hp hw

end plant

end Lib
