import Mathlib.Data.List.Basic

/-!
# Segments of a list

`pieces s p` cuts a list at each separator `s` and drops the empty pieces; `joinSep s` puts a separator
before each piece. `pieces` undoes `joinSep`, and a list that `joinSep` does not give back from its pieces
has an empty one.
-/

namespace Lib

open List (append_nil length_cons cons_append mem_cons_of_mem mem_cons_self)

variable {α : Type*} [DecidableEq α] (s : α)

/-- The pieces of a list, with `cur` the beginning of the first one. -/
def piecesFrom (cur : List α) : List α → List (List α)
  | [] => if cur = [] then [] else [cur]
  | c :: p =>
      if c = s then (if cur = [] then [] else [cur]) ++ piecesFrom [] p else piecesFrom (cur ++ [c]) p

/-- The non-empty pieces of a list between separators. -/
def pieces (p : List α) : List (List α) := piecesFrom s [] p

/-- The pieces with a separator before each. -/
def joinSep : List (List α) → List α
  | [] => []
  | x :: l => s :: x ++ joinSep l

variable {s} {p q cur x : List α} {l : List (List α)}

@[simp] lemma pieces_nil : pieces s [] = [] := rfl

lemma piecesFrom_append_sep : piecesFrom s cur (p ++ s :: q) = piecesFrom s cur p ++ pieces s q := by
  induction p generalizing cur with
  | nil => simp only [List.nil_append, piecesFrom, if_pos, pieces]
  | cons c p ih =>
    by_cases hc : c = s
    · simp only [cons_append, piecesFrom, if_pos hc, ih, List.append_assoc]
    · simp only [cons_append, piecesFrom, if_neg hc, ih]

/-- **A separator cuts.** -/
lemma pieces_append_sep : pieces s (p ++ s :: q) = pieces s p ++ pieces s q := piecesFrom_append_sep

lemma pieces_sep_cons : pieces s (s :: q) = pieces s q := pieces_append_sep (p := [])

lemma piecesFrom_eq (hp : s ∉ p) : piecesFrom s cur p = if cur ++ p = [] then [] else [cur ++ p] := by
  induction p generalizing cur with
  | nil => simp only [piecesFrom, append_nil]
  | cons c p ih =>
    have hc : c ≠ s := fun e => hp (e ▸ mem_cons_self)
    rw [piecesFrom, if_neg hc, ih fun hs => hp (mem_cons_of_mem c hs), List.append_assoc]
    rfl

/-- **`pieces` undoes `joinSep`.** -/
lemma pieces_joinSep (hl : ∀ x ∈ l, x ≠ [] ∧ s ∉ x) : pieces s (joinSep s l) = l := by
  induction l with
  | nil => rfl
  | cons x l ih =>
    obtain ⟨hx, hsx⟩ := hl x mem_cons_self
    have hrest := ih fun y hy => hl y (mem_cons_of_mem x hy)
    have hfirst : pieces s x = [x] := by rw [pieces, piecesFrom_eq hsx, List.nil_append, if_neg hx]
    rw [joinSep, cons_append, pieces_sep_cons]
    cases l with
    | nil => rw [joinSep, append_nil, hfirst]
    | cons y l =>
      rw [joinSep, cons_append, pieces_sep_cons] at hrest
      rw [joinSep, cons_append, pieces_append_sep, hfirst, hrest]
      rfl

lemma mem_piecesFrom (hcur : s ∉ cur) (hx : x ∈ piecesFrom s cur p) : x ≠ [] ∧ s ∉ x ∧ ∀ c ∈ x, c ∈ cur ∨ c ∈ p := by
  have hflush : x ∈ (if cur = [] then [] else [cur]) → x ≠ [] ∧ x = cur := by
    intro hx
    split_ifs at hx with hnil
    · cases hx
    · obtain rfl := List.mem_singleton.mp hx
      exact ⟨hnil, rfl⟩
  induction p generalizing cur with
  | nil =>
    obtain ⟨hne, rfl⟩ := hflush hx
    exact ⟨hne, hcur, fun c hc => .inl hc⟩
  | cons c p ih =>
    by_cases hc : c = s
    · rw [piecesFrom, if_pos hc] at hx
      rcases List.mem_append.mp hx with hx | hx
      · obtain ⟨hne, rfl⟩ := hflush hx
        exact ⟨hne, hcur, fun c hc => .inl hc⟩
      · have hmem := ih List.not_mem_nil hx fun hx => absurd hx (by simp)
        refine ⟨hmem.1, hmem.2.1, fun b hb => .inr ?_⟩
        rcases hmem.2.2 b hb with hnil | hb
        · cases hnil
        · exact mem_cons_of_mem c hb
    · rw [piecesFrom, if_neg hc] at hx
      have hcur' : s ∉ cur ++ [c] := by
        rintro hs
        rcases List.mem_append.mp hs with hs | hs
        · exact hcur hs
        · exact hc (List.mem_singleton.mp hs).symm
      have hmem := ih hcur' hx fun hx => by
        rw [if_neg (by simp)] at hx
        exact ⟨by rw [List.mem_singleton.mp hx]; simp, List.mem_singleton.mp hx⟩
      refine ⟨hmem.1, hmem.2.1, fun b hb => ?_⟩
      rcases hmem.2.2 b hb with hb | hb
      · rcases List.mem_append.mp hb with hb | hb
        · exact .inl hb
        · exact .inr (List.mem_singleton.mp hb ▸ mem_cons_self)
      · exact .inr (mem_cons_of_mem c hb)

/-- A piece is not empty, has no separator, and its elements are elements of the list. -/
lemma mem_pieces (hx : x ∈ pieces s p) : x ≠ [] ∧ s ∉ x ∧ ∀ c ∈ x, c ∈ p := by
  obtain ⟨hne, hs, hmem⟩ := mem_piecesFrom List.not_mem_nil hx
  exact ⟨hne, hs, fun c hc => (hmem c hc).resolve_left List.not_mem_nil⟩

/-- Nothing but separators is lost. -/
lemma flatten_piecesFrom : (piecesFrom s cur p).flatten = cur ++ p.filter (· ≠ s) := by
  have hflush : (if cur = [] then [] else [cur]).flatten = cur := by
    split_ifs with hnil
    · exact hnil.symm
    · exact List.flatten_singleton
  induction p generalizing cur with
  | nil => rw [piecesFrom, hflush, List.filter_nil, append_nil]
  | cons c p ih =>
    by_cases hc : c = s
    · rw [piecesFrom, if_pos hc, List.flatten_append, hflush, ih rfl,
        List.filter_cons_of_neg (by simpa using hc), List.nil_append]
    · rw [piecesFrom, if_neg hc, ih (by rw [if_neg (by simp), List.flatten_singleton]),
        List.filter_cons_of_pos (by simpa using hc), List.append_assoc]
      rfl

lemma flatten_pieces : (pieces s p).flatten = p.filter (· ≠ s) := flatten_piecesFrom

omit [DecidableEq α] in
lemma joinSep_append {l' : List (List α)} : joinSep s (l ++ l') = joinSep s l ++ joinSep s l' := by
  induction l with
  | nil => rfl
  | cons x l ih => rw [cons_append, joinSep, joinSep, ih, List.append_assoc]

omit [DecidableEq α] in
/-- Joined pieces end or go on with a separator. -/
lemma joinSep_eq_nil_or : joinSep s l = [] ∨ (joinSep s l).head? = some s := by
  cases l with
  | nil => exact .inl rfl
  | cons x l => exact .inr rfl

lemma length_joinSep_piecesFrom : (joinSep s (piecesFrom s cur p)).length ≤ cur.length + 1 + p.length := by
  have hflush : (joinSep s (if cur = [] then [] else [cur])).length ≤ cur.length + 1 := by
    split_ifs
    · exact Nat.zero_le _
    · have hone : (joinSep s [cur]).length = cur.length + 1 := by
        rw [joinSep, joinSep, append_nil, length_cons]
      exact Nat.le_of_eq hone
  induction p generalizing cur with
  | nil => exact hflush
  | cons c p ih =>
    rw [piecesFrom]
    by_cases hc : c = s
    · have hrest : (joinSep s (piecesFrom s [] p)).length ≤ _ := ih (by simp [joinSep])
      rw [List.length_nil] at hrest
      rw [if_pos hc, joinSep_append, List.length_append, length_cons]
      omega
    · have hnext : (joinSep s (piecesFrom s (cur ++ [c]) p)).length ≤ _ := ih (by simp [joinSep])
      rw [List.length_append, List.length_singleton] at hnext
      rw [if_neg hc, length_cons]
      omega

/-- Behind a separator, cutting and joining makes a list no longer. -/
lemma length_joinSep_pieces (p : List α) : (joinSep s (pieces s (s :: p))).length ≤ p.length + 1 := by
  have hlen : (joinSep s (piecesFrom s [] p)).length ≤ _ := length_joinSep_piecesFrom
  rw [List.length_nil] at hlen
  rw [pieces_sep_cons, pieces]
  omega

/-- A list that is the join of its pieces stays so up to any separator. -/
lemma joinSep_pieces_of_append (h : joinSep s (pieces s (s :: p ++ s :: q)) = s :: p ++ s :: q) :
    joinSep s (pieces s (s :: p)) = s :: p := by
  rw [pieces_append_sep, joinSep_append] at h
  have hp := length_joinSep_pieces (s := s) p
  have hq := length_joinSep_pieces (s := s) q
  rw [pieces_sep_cons] at hq
  have hlen := congrArg List.length h
  rw [List.length_append, List.length_append, length_cons, length_cons] at hlen
  exact (List.append_inj h (by rw [length_cons]; omega)).1

/-- Separators at the end do not matter. -/
lemma pieces_append_of_all_sep (hq : ∀ c ∈ q, c = s) : pieces s (p ++ q) = pieces s p := by
  induction q with
  | nil => rw [append_nil]
  | cons c q ih =>
    have hsep : ∀ c ∈ q, c = s := fun b hb => hq b (mem_cons_of_mem c hb)
    obtain rfl : c = s := hq c mem_cons_self
    have hnil : pieces c q = [] := by
      clear ih hq
      induction q with
      | nil => rfl
      | cons b q ih =>
        obtain rfl : b = c := hsep b mem_cons_self
        rw [pieces_sep_cons, ih fun x hx => hsep x (mem_cons_of_mem b hx)]
    rw [pieces_append_sep, hnil, append_nil]

/-- If the pieces stay the same, only separators were added. -/
lemma all_sep_of_pieces_append (h : pieces s (p ++ q) = pieces s p) : ∀ c ∈ q, c = s := by
  have hfilter : q.filter (· ≠ s) = [] := by
    have hflat := congrArg List.flatten h
    rw [flatten_pieces, flatten_pieces, List.filter_append] at hflat
    exact List.append_right_eq_self.mp hflat
  intro c hc
  by_contra hne
  exact List.filter_eq_nil_iff.mp hfilter c hc (decide_eq_true hne)

/-- The first piece is what stands before the first separator. -/
lemma takeWhile_ne_append (hp : s ∉ p) (hq : q = [] ∨ q.head? = some s) : (p ++ q).takeWhile (· ≠ s) = p := by
  have hall : ∀ c ∈ p, (decide (c ≠ s)) = true := fun c hc => decide_eq_true fun e => hp (e ▸ hc)
  rw [List.takeWhile_append_of_pos hall]
  rcases hq with rfl | hq
  · rw [List.takeWhile_nil, append_nil]
  · cases q with
    | nil => cases hq
    | cons c q =>
      cases hq
      rw [List.takeWhile_cons_of_neg (by simp), append_nil]

end Lib
