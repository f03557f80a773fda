import Mathlib.Data.List.Find
import Mathlib.Data.List.Infix
import Mathlib.Data.List.TakeWhile
import Chimera.Lib.Segments

/-!
# Path names

`vfs_normalize_path` turns a path into the string under which the registry is searched. A path that starts
with a slash and has no dot, colon or blank is copied (`plainAlias`); any other is cut into at most 16
segments of at most 63 characters, which are put together again. Both rewrite the four aliases of the root
directory.

`lexicalResolve` says what the result should be. On the copying path it is that exactly if the path has no
empty segment; on the other it is if no segment is too long or too deep and nothing is cut off
(**`normalize_path_sound`**).
-/

namespace Chimera

open Lib

/-- A string: its characters, without the terminator. -/
abbrev PathName := List Char

/-- What `vfs_normalize_path` reads of the current directory: the path of a FAT32 directory (empty for
another vnode) and the name of the vnode. -/
structure CwdNode where
  fat32Path : PathName
  name : PathName
  deriving DecidableEq, Repr

def cwdStr : Option CwdNode → PathName
  | none => "/".toList
  | some c =>
      if c.fat32Path ≠ [] then c.fat32Path else if c.name ≠ [] then c.name else "/".toList

/-- `sizeof` of the buffers. -/
def pathMax : ℕ := 256

/-- The aliases of the root directory: a path name of four characters and what stands for it. -/
def rootAliases : List (PathName × PathName) :=
  [("/etc".toList, "/private/etc".toList), ("/var".toList, "/private/var".toList),
    ("/tmp".toList, "/private/tmp".toList), ("/lib".toList, "/usr/lib".toList)]

/-- The first alias that a path meets, copied to a buffer. -/
def rewriteAlias (test : PathName → PathName → Bool) (p : PathName) : PathName :=
  match rootAliases.find? fun a => test a.1 p with
  | some a => a.2 ++ (p.drop 4).take (pathMax - a.2.length - 1)
  | none => p

/-- `strncmp(in, "/etc", 4) == 0 && (in[4] == '/' || in[4] == '\0')`. -/
def plainMatch (a p : PathName) : Bool :=
  p.take 4 = a ∧ (p.drop 4 = [] ∨ (p.drop 4).head? = some '/')

/-! ## The copying path -/

def isPlain (p : PathName) : Prop := p.head? = some '/' ∧ '.' ∉ p ∧ ':' ∉ p ∧ ' ' ∉ p

instance (p : PathName) : Decidable (isPlain p) := inferInstanceAs (Decidable (_ ∧ _))

def plainAlias (p : PathName) : PathName := rewriteAlias plainMatch p

/-! ## The path by segments -/

def afterColon (p : PathName) : PathName :=
  match p.dropWhile (· ≠ ':') with
  | _ :: r => r
  | [] => p

def afterParen (p : PathName) : PathName :=
  if p.head? = some '(' then
    match p.dropWhile (· ≠ ')') with
    | _ :: r => r
    | [] => p
  else p

/-- `while (*p == '/' && *(p + 1) == '/') p++`. -/
def collapseSlashes : PathName → PathName
  | '/' :: '/' :: p => collapseSlashes ('/' :: p)
  | p => p

/-- The current directory, for a path that does not start with a slash. -/
def tempStart (cwd : Option CwdNode) (p : PathName) : PathName :=
  if p.head? = some '/' then []
  else
    let temp := (cwdStr cwd).take (pathMax - 1)
    if temp.getLast? = some '/' then temp else temp ++ ['/']

/-- Copies to the buffer, without a slash after a slash, until it is full. -/
def appendTemp (temp : PathName) : PathName → PathName
  | [] => temp
  | c :: p =>
      if temp.length + 1 < pathMax then
        if c = '/' ∧ temp.getLast? = some '/' then appendTemp temp p else appendTemp (temp ++ [c]) p
      else temp

def maxSegs : ℕ := 16

def maxSegLen : ℕ := 64

/-- One segment: `.` is skipped, `..` drops the last one, and one that does not fit is left out. -/
def pushSeg (segs : List PathName) (seg : PathName) : List PathName :=
  if seg = ".".toList then segs
  else if seg = "..".toList then segs.dropLast
  else if segs.length < maxSegs ∧ seg.length < maxSegLen then segs ++ [seg]
  else segs

/-- Puts the segments together, up to the first that does not fit. -/
def reconstruct (r : PathName) : List PathName → PathName
  | [] => r
  | seg :: segs =>
      if pathMax ≤ r.length + seg.length + 1 then r
      else reconstruct (if 1 < r.length then r ++ '/' :: seg else r ++ seg) segs

def lowerChar (c : Char) : Char := if 'A' ≤ c ∧ c ≤ 'Z' then Char.ofNat (c.toNat + 32) else c

/-- `strcmp(r, "/etc") == 0 || k_strncasecmp(r, "/etc/", 5) == 0`. -/
def foldMatch (a p : PathName) : Bool :=
  p = a ∨ (p.take 5).map lowerChar = a ++ ['/']

def normalizeSegs (cwd : Option CwdNode) (input : PathName) : PathName :=
  let p := collapseSlashes ((afterParen (afterColon input)).dropWhile (· = ' '))
  let temp := appendTemp (tempStart cwd p) p
  let segs := (pieces '/' temp).foldl pushSeg []
  rewriteAlias foldMatch (reconstruct ['/'] segs)

def vfsNormalizePath (cwd : Option CwdNode) (input : PathName) : PathName :=
  (if isPlain input then plainAlias input else normalizeSegs cwd input).take (pathMax - 1)

/-! ## Lexical resolution -/

/-- A path name with the given segments. -/
def render (segs : List PathName) : PathName := if segs = [] then ['/'] else joinSep '/' segs

/-- `.` is the directory itself, `..` the one above. -/
def lexStep (segs : List PathName) (seg : PathName) : List PathName :=
  if seg = ".".toList then segs else if seg = "..".toList then segs.dropLast else segs ++ [seg]

/-- The names that stand for others in the root directory. -/
def aliasNames : List (PathName × List PathName) :=
  [("etc".toList, ["private".toList, "etc".toList]), ("var".toList, ["private".toList, "var".toList]),
    ("tmp".toList, ["private".toList, "tmp".toList]), ("lib".toList, ["usr".toList, "lib".toList])]

def aliasSegs : List PathName → List PathName
  | [] => []
  | seg :: segs =>
      match aliasNames.find? fun a => a.1 = seg with
      | some a => a.2 ++ segs
      | none => seg :: segs

/-- The segments that are resolved: those of a relative path come after those of the current directory. -/
def lexSegs (cwdPath input : PathName) : List PathName :=
  (if input.head? = some '/' then [] else pieces '/' cwdPath) ++ pieces '/' input

/-- **What a path means** in the directory with path `cwdPath`. -/
def lexicalResolve (cwdPath input : PathName) : PathName :=
  render (aliasSegs ((lexSegs cwdPath input).foldl lexStep []))

/-- The result is the lexical resolution, or it is registered nowhere. -/
def ResolvesSoundly (cwd : Option CwdNode) (cwdPath input : PathName) : Prop :=
  ∀ registered : Set PathName, vfsNormalizePath cwd input = lexicalResolve cwdPath input ∨
    vfsNormalizePath cwd input ∉ registered

variable {cwd : Option CwdNode} {cwdPath input name p : PathName} {a : PathName × List PathName}

lemma resolvesSoundly_iff :
    ResolvesSoundly cwd cwdPath input ↔ vfsNormalizePath cwd input = lexicalResolve cwdPath input := by
  constructor
  · intro h
    exact (h {vfsNormalizePath cwd input}).resolve_right fun hnot => hnot rfl
  · intro h _
    exact .inl h

/-! ## Aliases -/

lemma rootAliases_eq : rootAliases = aliasNames.map fun a => ('/' :: a.1, joinSep '/' a.2) := by decide

/-- What the proofs use of the names of the aliases. -/
lemma aliasNames_spec (ha : a ∈ aliasNames) :
    a.1.length = 3 ∧ '/' ∉ a.1 ∧ a.1.map lowerChar = a.1 ∧ a.2 ≠ [] ∧ ∀ x ∈ a.2, x ≠ [] ∧ '/' ∉ x := by
  revert a
  decide

variable {seg : PathName} {segs : List PathName}

lemma render_cons : render (seg :: segs) = '/' :: seg ++ joinSep '/' segs := if_neg (List.cons_ne_nil _ _)

/-- An alias is rewritten as it should be, if the test for its name is right. -/
lemma rewriteAlias_render {test : PathName → PathName → Bool}
    (htest : ∀ a ∈ aliasNames, test ('/' :: a.1) (render (seg :: segs)) = decide (a.1 = seg))
    (hlen : (render (aliasSegs (seg :: segs))).length < pathMax) :
    rewriteAlias test (render (seg :: segs)) = render (aliasSegs (seg :: segs)) := by
  have hfind : rootAliases.find? (fun a => test a.1 (render (seg :: segs))) =
      (aliasNames.find? fun a => a.1 = seg).map fun a => ('/' :: a.1, joinSep '/' a.2) := by
    rw [rootAliases_eq, List.find?_map]
    congr 1
    exact List.find?_congr htest
  rw [rewriteAlias, hfind]
  rw [aliasSegs] at hlen ⊢
  cases hcase : aliasNames.find? fun a => a.1 = seg with
  | none => rfl
  | some a =>
    obtain ⟨hname, -, -, hne, -⟩ := aliasNames_spec (List.mem_of_find?_eq_some hcase)
    obtain rfl : a.1 = seg := by simpa using List.find?_some hcase
    rw [hcase] at hlen
    have hrender : ∀ l, render (a.2 ++ l) = joinSep '/' a.2 ++ joinSep '/' l := fun l => by
      rw [render, if_neg (by simp [hne]), joinSep_append]
    have hdrop : (render (a.1 :: segs)).drop 4 = joinSep '/' segs := by
      rw [render_cons, List.cons_append, List.drop_succ_cons, ← hname, List.drop_left]
    dsimp only [Option.map] at hlen ⊢
    rw [hrender, List.length_append] at hlen
    rw [hrender, hdrop, List.take_of_length_le (by omega)]

lemma plainMatch_iff (hlen : name.length = 3) :
    plainMatch ('/' :: name) p ↔ ∃ q, p = '/' :: name ++ q ∧ (q = [] ∨ q.head? = some '/') := by
  rw [plainMatch, decide_eq_true_iff]
  constructor
  · rintro ⟨htake, hq⟩
    refine ⟨p.drop 4, ?_, hq⟩
    rw [← htake, List.take_append_drop]
  · rintro ⟨q, rfl, hq⟩
    have hfour : ('/' :: name).length = 4 := congrArg (· + 1) hlen
    rw [List.take_left' hfour, List.drop_left' hfour]
    exact ⟨rfl, hq⟩

/-- Two ways to cut off a first segment give the same one. -/
lemma eq_of_append_eq {q p' q' : PathName} (hp : '/' ∉ p) (hp' : '/' ∉ p')
    (hq : q = [] ∨ q.head? = some '/') (hq' : q' = [] ∨ q'.head? = some '/')
    (h : p ++ q = p' ++ q') : p = p' := by
  rw [← takeWhile_ne_append hp hq, h, takeWhile_ne_append hp' hq']

lemma plainMatch_render (hseg : '/' ∉ seg) :
    ∀ a ∈ aliasNames, plainMatch ('/' :: a.1) (render (seg :: segs)) = decide (a.1 = seg) := by
  intro a ha
  obtain ⟨hlen, hslash, -, -, -⟩ := aliasNames_spec ha
  rw [Bool.eq_iff_iff, plainMatch_iff hlen, decide_eq_true_iff, render_cons]
  constructor
  · rintro ⟨q, hq, hsep⟩
    exact (eq_of_append_eq hseg hslash joinSep_eq_nil_or hsep (List.cons.inj hq).2).symm
  · rintro rfl
    exact ⟨_, rfl, joinSep_eq_nil_or⟩

lemma lowerChar_eq_slash {c : Char} : lowerChar c = '/' ↔ c = '/' := by
  rw [lowerChar]
  split_ifs with hc
  · have hlo : 65 ≤ c.toNat := hc.1
    have hhi : c.toNat ≤ 90 := hc.2
    have hvalid : (c.toNat + 32).isValidChar := .inl (by omega)
    constructor
    · intro h
      rw [Char.ofNat, dif_pos hvalid] at h
      have htoNat : c.toNat + 32 = 47 := congrArg Char.toNat h
      omega
    · rintro rfl
      exact absurd hlo (by decide)
  · exact Iff.rfl

lemma slash_mem_map_lowerChar : '/' ∈ p.map lowerChar ↔ '/' ∈ p := by
  rw [List.mem_map]
  constructor
  · rintro ⟨c, hc, hlower⟩
    exact lowerChar_eq_slash.mp hlower ▸ hc
  · intro h
    exact ⟨'/', h, by decide⟩

/-- The names of aliases in other letters, which `k_strncasecmp` takes for them. -/
def CaseClash (segs : List PathName) : Prop :=
  ∃ seg rest, segs = seg :: rest ∧ rest ≠ [] ∧ seg.map lowerChar ≠ seg ∧
    seg.map lowerChar ∈ aliasNames.map Prod.fst

lemma foldMatch_iff (hlen : name.length = 3) :
    foldMatch ('/' :: name) p ↔ p = '/' :: name ∨ ∃ q, p.map lowerChar = '/' :: name ++ '/' :: q := by
  have hfive : ('/' :: name ++ ['/']).length = 5 := by simp [hlen]
  rw [foldMatch, decide_eq_true_iff, List.map_take]
  refine or_congr_right ⟨fun h => ⟨(p.map lowerChar).drop 5, ?_⟩, ?_⟩
  · calc p.map lowerChar = (p.map lowerChar).take 5 ++ (p.map lowerChar).drop 5 := (List.take_append_drop 5 _).symm
      _ = '/' :: name ++ '/' :: (p.map lowerChar).drop 5 := by rw [h, List.append_assoc]; rfl
  · rintro ⟨q, hq⟩
    rw [hq, show '/' :: name ++ '/' :: q = ('/' :: name ++ ['/']) ++ q by simp, List.take_left' hfive]

lemma foldMatch_render (hseg : '/' ∉ seg) (hcase : ¬CaseClash (seg :: segs)) :
    ∀ a ∈ aliasNames, foldMatch ('/' :: a.1) (render (seg :: segs)) = decide (a.1 = seg) := by
  intro a ha
  obtain ⟨hlen, hslash, hlower, -, -⟩ := aliasNames_spec ha
  have hseg' : '/' ∉ seg.map lowerChar := fun h => hseg (slash_mem_map_lowerChar.mp h)
  have hjoin : (joinSep '/' segs).map lowerChar = [] ∨ ((joinSep '/' segs).map lowerChar).head? = some '/' := by
    rw [List.map_eq_nil_iff, List.head?_map]
    exact joinSep_eq_nil_or.imp_right fun h => by rw [h]; decide
  rw [Bool.eq_iff_iff, foldMatch_iff hlen, decide_eq_true_iff, render_cons]
  constructor
  · rintro (heq | ⟨q, hq⟩)
    · have h := (List.cons.inj heq).2
      exact (eq_of_append_eq hseg hslash joinSep_eq_nil_or (.inl rfl) (h.trans (List.append_nil _).symm)).symm
    · rw [List.cons_append, List.map_cons, List.map_append] at hq
      have h := (List.cons.inj hq).2
      have hname : seg.map lowerChar = a.1 := eq_of_append_eq hseg' hslash hjoin (.inr rfl) h
      by_contra hne
      refine hcase ⟨seg, segs, rfl, ?_, ?_, List.mem_map.mpr ⟨a, ha, hname.symm⟩⟩
      · rintro rfl
        rw [joinSep, List.map_nil, List.append_nil] at h
        exact hseg' (h ▸ List.mem_append_right _ List.mem_cons_self)
      · rw [hname]
        exact hne
  · rintro rfl
    cases segs with
    | nil => exact .inl (by rw [joinSep, List.append_nil])
    | cons x l =>
      refine .inr ⟨(x ++ joinSep '/' l).map lowerChar, ?_⟩
      have hslash' : lowerChar '/' = '/' := by decide
      rw [joinSep, List.cons_append, List.cons_append, List.map_cons, List.map_append, List.map_cons, hlower, hslash']
      rfl

/-- **Both tests rewrite what they should.** -/
lemma rewriteAlias_plainMatch (hsegs : ∀ x ∈ segs, '/' ∉ x)
    (hlen : (render (aliasSegs segs)).length < pathMax) :
    rewriteAlias plainMatch (render segs) = render (aliasSegs segs) := by
  cases segs with
  | nil => decide
  | cons seg segs => exact rewriteAlias_render (plainMatch_render (hsegs seg List.mem_cons_self)) hlen

lemma rewriteAlias_foldMatch (hsegs : ∀ x ∈ segs, '/' ∉ x) (hcase : ¬CaseClash segs)
    (hlen : (render (aliasSegs segs)).length < pathMax) :
    rewriteAlias foldMatch (render segs) = render (aliasSegs segs) := by
  cases segs with
  | nil => decide
  | cons seg segs => exact rewriteAlias_render (foldMatch_render (hsegs seg List.mem_cons_self) hcase) hlen

/-! ## The copying path is exact -/

/-- A path with its alias rewritten, of any length. -/
def aliased (p : PathName) : PathName :=
  match rootAliases.find? fun a => plainMatch a.1 p with
  | some a => a.2 ++ p.drop 4
  | none => p

/-- No segment is empty. -/
def NoEmptySegs (p : PathName) : Prop := render (pieces '/' p) = p

instance (p : PathName) : Decidable (NoEmptySegs p) := inferInstanceAs (Decidable (_ = _))

lemma rootAliases_length {a : PathName × PathName} (ha : a ∈ rootAliases) : a.2.length ≤ 12 := by
  revert a
  decide

lemma take_plainAlias (p : PathName) : (plainAlias p).take (pathMax - 1) = (aliased p).take (pathMax - 1) := by
  rw [plainAlias, rewriteAlias, aliased]
  cases hfind : rootAliases.find? fun a => plainMatch a.1 p with
  | none => rfl
  | some a =>
    have hlen := rootAliases_length (List.mem_of_find?_eq_some hfind)
    have hmax : pathMax = 256 := rfl
    rw [List.take_append, List.take_append, List.take_take, Nat.sub_right_comm, Nat.min_self]

lemma mem_aliasSegs {x : PathName} {segs : List PathName} (hsegs : ∀ x ∈ segs, x ≠ [] ∧ '/' ∉ x)
    (hx : x ∈ aliasSegs segs) : x ≠ [] ∧ '/' ∉ x := by
  cases segs with
  | nil => cases hx
  | cons seg segs =>
    rw [aliasSegs] at hx
    cases hfind : aliasNames.find? fun a => a.1 = seg with
    | none =>
      rw [hfind] at hx
      exact hsegs x hx
    | some a =>
      rw [hfind] at hx
      have ha := List.mem_of_find?_eq_some hfind
      rcases List.mem_append.mp hx with hx | hx
      · exact (aliasNames_spec ha).2.2.2.2 x hx
      · exact hsegs x (List.mem_cons_of_mem seg hx)

lemma pieces_render {segs : List PathName} (hsegs : ∀ x ∈ segs, x ≠ [] ∧ '/' ∉ x) :
    pieces '/' (render segs) = segs := by
  rw [render]
  split_ifs with hnil
  · rw [hnil]
    rfl
  · exact pieces_joinSep hsegs

lemma find_aliasNames (ha : a ∈ aliasNames) : (aliasNames.find? fun b => b.1 = a.1) = some a := by
  revert a
  decide

/-- The segments of a path whose alias is rewritten. -/
lemma pieces_aliased {a : PathName × PathName}
    (hfind : (rootAliases.find? fun a => plainMatch a.1 p) = some a) :
    pieces '/' (aliased p) = aliasSegs (pieces '/' p) := by
  rw [aliased, hfind]
  have hmatch := List.find?_some hfind
  have hmem := List.mem_of_find?_eq_some hfind
  rw [rootAliases_eq] at hmem
  obtain ⟨b, hb, rfl⟩ := List.mem_map.mp hmem
  obtain ⟨hlen, hslash, -, -, hgood⟩ := aliasNames_spec hb
  obtain ⟨q, rfl, hq⟩ := (plainMatch_iff hlen).mp hmatch
  have hfour : ('/' :: b.1).length = 4 := congrArg (· + 1) hlen
  have hfirst : pieces '/' b.1 = [b.1] := by
    rw [pieces, piecesFrom_eq hslash, List.nil_append, if_neg fun e => by rw [e] at hlen; cases hlen]
  have hcut : ∀ u : PathName, pieces '/' (u ++ q) = pieces '/' u ++ pieces '/' q := by
    intro u
    rcases hq with rfl | hq
    · rw [List.append_nil, pieces_nil, List.append_nil]
    · cases q with
      | nil => cases hq
      | cons c q =>
        cases hq
        rw [pieces_append_sep, pieces_sep_cons]
  rw [List.drop_left' hfour, hcut, pieces_joinSep hgood, hcut, pieces_sep_cons, hfirst, List.singleton_append,
    aliasSegs, find_aliasNames hb]

/-- Without dots nothing is resolved. -/
lemma foldl_lexStep_eq {l : List PathName} (hl : ∀ x ∈ l, '.' ∉ x) (acc : List PathName) :
    l.foldl lexStep acc = acc ++ l := by
  induction l generalizing acc with
  | nil => rw [List.foldl_nil, List.append_nil]
  | cons x l ih =>
    have hx := hl x List.mem_cons_self
    have hdot : x ≠ ".".toList := fun e => hx (e ▸ by decide)
    have hdots : x ≠ "..".toList := fun e => hx (e ▸ by decide)
    rw [List.foldl_cons, lexStep, if_neg hdot, if_neg hdots, ih fun y hy => hl y (List.mem_cons_of_mem x hy),
      List.append_assoc]
    rfl

lemma lexicalResolve_plain (hp : isPlain p) (cwdPath : PathName) :
    lexicalResolve cwdPath p = render (aliasSegs (pieces '/' p)) := by
  have hsegs : lexSegs cwdPath p = pieces '/' p := by rw [lexSegs, if_pos hp.1, List.nil_append]
  rw [lexicalResolve, hsegs, foldl_lexStep_eq (fun x hx hdot => hp.2.1 ((mem_pieces hx).2.2 _ hdot)), List.nil_append]

/-- **The copying path** is right exactly if what it copies has no empty segment, and cuts off slashes
only. -/
lemma normalize_plain (hp : isPlain p) (hlen : p.length < pathMax) :
    vfsNormalizePath cwd p = lexicalResolve cwdPath p ↔
      NoEmptySegs ((aliased p).take (pathMax - 1)) ∧ ∀ c ∈ (aliased p).drop (pathMax - 1), c = '/' := by
  have hgood : ∀ x ∈ pieces '/' p, x ≠ [] ∧ '/' ∉ x := fun x hx => ⟨(mem_pieces hx).1, (mem_pieces hx).2.1⟩
  rw [vfsNormalizePath, if_pos hp, take_plainAlias, lexicalResolve_plain hp, NoEmptySegs]
  cases hfind : rootAliases.find? fun a => plainMatch a.1 p with
  | none =>
    have haliased : aliased p = p := by rw [aliased, hfind]
    have hle : p.length ≤ pathMax - 1 := by omega
    rw [haliased, List.take_of_length_le hle, List.drop_of_length_le hle]
    constructor
    · intro h
      refine ⟨?_, nofun⟩
      rw [h, pieces_render fun x => mem_aliasSegs hgood]
    · rintro ⟨h, -⟩
      -- the first segment is no alias, or it would have been rewritten
      have hsame : aliasSegs (pieces '/' p) = pieces '/' p := by
        cases hpieces : pieces '/' p with
        | nil => rfl
        | cons seg segs =>
          rw [aliasSegs]
          cases hname : aliasNames.find? fun a => a.1 = seg with
          | none => rfl
          | some a =>
            have ha := List.mem_of_find?_eq_some hname
            have hseg : a.1 = seg := by simpa using List.find?_some hname
            have hslash : '/' ∉ seg := (hgood seg (hpieces ▸ List.mem_cons_self)).2
            have hmatch : plainMatch ('/' :: a.1) p = true := by
              rw [← h, hpieces, plainMatch_render hslash a ha]
              exact decide_eq_true hseg
            have hroot : ('/' :: a.1, joinSep '/' a.2) ∈ rootAliases := by
              rw [rootAliases_eq]
              exact List.mem_map_of_mem ha
            exact absurd hmatch (List.find?_eq_none.mp hfind _ hroot)
      rw [hsame, h]
  | some a =>
    have hpieces := pieces_aliased hfind
    have hsplit := List.take_append_drop (pathMax - 1) (aliased p)
    constructor
    · intro h
      have hcut : pieces '/' ((aliased p).take (pathMax - 1)) = aliasSegs (pieces '/' p) := by
        rw [h, pieces_render fun x => mem_aliasSegs hgood]
      refine ⟨by rw [hcut, h], all_sep_of_pieces_append (p := (aliased p).take (pathMax - 1)) ?_⟩
      rw [hsplit, hcut, hpieces]
    · rintro ⟨h, hsep⟩
      rw [← hpieces, ← hsplit, pieces_append_of_all_sep hsep, h, hsplit]

/-! ## The path by segments -/

section Segments

variable {l : List PathName}

lemma afterColon_eq (hp : ':' ∉ p) : afterColon p = p := by
  have hnil : p.dropWhile (· ≠ ':') = [] := by
    exact List.dropWhile_eq_nil_iff.mpr fun c hc => decide_eq_true fun e => hp (e ▸ hc)
  rw [afterColon, hnil]

lemma afterParen_eq (hp : '(' ∉ p) : afterParen p = p := by
  refine if_neg fun h => hp ?_
  exact List.mem_of_mem_head? h

lemma dropWhile_blank_eq (hp : p.head? ≠ some ' ') : p.dropWhile (· = ' ') = p := by
  cases p with
  | nil => rfl
  | cons c p => exact List.dropWhile_cons_of_neg fun h => hp (congrArg some (of_decide_eq_true h))

lemma collapseSlashes_spec (p : PathName) :
    (collapseSlashes p).head? = p.head? ∧ pieces '/' (collapseSlashes p) = pieces '/' p ∧
      (collapseSlashes p).length ≤ p.length := by
  fun_induction collapseSlashes p with
  | case1 p ih =>
    obtain ⟨hhead, hpieces, hlen⟩ := ih
    refine ⟨hhead, ?_, hlen.trans (Nat.le_succ _)⟩
    rw [hpieces, pieces_sep_cons (q := '/' :: p)]
  | case2 p => exact ⟨rfl, rfl, le_rfl⟩

/-- A slash after a slash does not matter. -/
lemma pieces_appendTemp {temp : PathName} (hlen : temp.length + p.length < pathMax) :
    pieces '/' (appendTemp temp p) = pieces '/' (temp ++ p) := by
  induction p generalizing temp with
  | nil => rw [appendTemp, List.append_nil]
  | cons c p ih =>
    rw [List.length_cons] at hlen
    rw [appendTemp, if_pos (by omega)]
    split_ifs with hslash
    · obtain ⟨rfl, hlast⟩ := hslash
      obtain ⟨u, rfl⟩ := List.getLast?_eq_some_iff.mp hlast
      rw [ih (by omega), pieces_append_sep, List.append_assoc, List.singleton_append, pieces_append_sep,
        pieces_append_sep, pieces_nil, List.append_nil]
    · rw [ih (by rw [List.length_append, List.length_singleton]; omega), List.append_assoc]
      rfl

lemma pieces_tempStart {cwd : Option CwdNode} (hp : p.head? ≠ some '/')
    (hlen : (cwdStr cwd).length + 1 + p.length < pathMax) :
    pieces '/' (tempStart cwd p ++ p) = pieces '/' (cwdStr cwd) ++ pieces '/' p ∧
      (tempStart cwd p).length + p.length < pathMax := by
  rw [tempStart, if_neg hp, List.take_of_length_le (by omega)]
  dsimp only
  split_ifs with hlast
  · obtain ⟨u, hu⟩ := List.getLast?_eq_some_iff.mp hlast
    rw [hu] at hlen ⊢
    refine ⟨?_, by omega⟩
    rw [List.append_assoc, List.singleton_append, pieces_append_sep, pieces_append_sep, pieces_nil, List.append_nil]
  · rw [List.append_assoc, List.singleton_append, pieces_append_sep, List.length_append, List.length_singleton]
    exact ⟨rfl, hlen⟩

/-- **The segments are resolved** as they should be, if none is left out. -/
lemma foldl_pushSeg (hshort : ∀ x ∈ l, x.length < maxSegLen)
    (hshallow : ∀ l', l' <+: l → (l'.foldl lexStep segs).length ≤ maxSegs) :
    l.foldl pushSeg segs = l.foldl lexStep segs := by
  induction l generalizing segs with
  | nil => rfl
  | cons x l ih =>
    have hstep : pushSeg segs x = lexStep segs x := by
      have hdepth := hshallow [x] (List.cons_prefix_cons.mpr ⟨rfl, List.nil_prefix⟩)
      rw [List.foldl_cons, List.foldl_nil, lexStep] at hdepth
      rw [pushSeg, lexStep]
      split_ifs at hdepth ⊢ with hdot hdots hfits
      · rfl
      · rfl
      · rfl
      · rw [List.length_append, List.length_singleton] at hdepth
        exact absurd ⟨hdepth, hshort x List.mem_cons_self⟩ hfits
    rw [List.foldl_cons, List.foldl_cons, hstep]
    refine ih (fun y hy => hshort y (List.mem_cons_of_mem x hy)) fun l' hl' => ?_
    exact hshallow (x :: l') (List.cons_prefix_cons.mpr ⟨rfl, hl'⟩)

/-- Resolution makes no new segments. -/
lemma mem_foldl_lexStep {x : PathName} (hx : x ∈ l.foldl lexStep segs) : x ∈ segs ∨ x ∈ l := by
  induction l generalizing segs with
  | nil => exact .inl hx
  | cons y l ih =>
    rcases ih hx with hstep | hl
    · rw [lexStep] at hstep
      split_ifs at hstep
      · exact .inl hstep
      · exact .inl (List.dropLast_subset _ hstep)
      · rcases List.mem_append.mp hstep with hs | hs
        · exact .inl hs
        · exact .inr (List.mem_singleton.mp hs ▸ List.mem_cons_self)
    · exact .inr (List.mem_cons_of_mem y hl)

lemma reconstruct_eq {r : PathName} (hr : 1 < r.length)
    (hlen : r.length + (joinSep '/' segs).length < pathMax) :
    reconstruct r segs = r ++ joinSep '/' segs := by
  induction segs generalizing r with
  | nil => rw [reconstruct, joinSep, List.append_nil]
  | cons seg segs ih =>
    rw [joinSep, List.cons_append, List.length_cons, List.length_append] at hlen
    have hnext : (r ++ '/' :: seg).length = r.length + seg.length + 1 := by
      rw [List.length_append, List.length_cons, Nat.add_assoc]
    rw [reconstruct, if_neg (by omega), if_pos hr, ih (by omega) (by omega), List.append_assoc, joinSep]

/-- **The segments are put together** again. -/
lemma reconstruct_root (hsegs : ∀ x ∈ segs, x ≠ [] ∧ x.length < maxSegLen)
    (hlen : (render segs).length < pathMax) : reconstruct ['/'] segs = render segs := by
  cases segs with
  | nil => rfl
  | cons seg segs =>
    obtain ⟨hne, hshort⟩ := hsegs seg List.mem_cons_self
    have hpos := List.length_pos_iff.mpr hne
    have hmax : maxSegLen = 64 := rfl
    have hpath : pathMax = 256 := rfl
    have hroot : ['/'] ++ seg = '/' :: seg := rfl
    have hone : ['/'].length = 1 := rfl
    rw [render_cons, List.length_append] at hlen
    rw [reconstruct, hone, if_neg (by omega), if_neg (lt_irrefl 1), hroot, render_cons]
    exact reconstruct_eq (by rw [List.length_cons]; omega) hlen

/-- Rewriting an alias makes a path longer. -/
lemma length_render_le_aliasSegs : (render segs).length ≤ (render (aliasSegs segs)).length := by
  cases segs with
  | nil => exact le_rfl
  | cons seg segs =>
    rw [aliasSegs]
    cases hfind : aliasNames.find? fun a => a.1 = seg with
    | none => exact le_rfl
    | some a =>
      have ha := List.mem_of_find?_eq_some hfind
      have hseg : a.1 = seg := by simpa using List.find?_some hfind
      have hlonger : a.1.length + 1 ≤ (joinSep '/' a.2).length := by
        clear hfind hseg
        revert a
        decide
      have hne : a.2 ++ segs ≠ [] := by simp [(aliasNames_spec ha).2.2.2.1]
      rw [render_cons, render, if_neg hne, joinSep_append, List.length_append, List.length_append,
        List.length_cons, ← hseg]
      omega

end Segments

/-- What the path by segments needs to be right: it is not cut, no segment is too long or too deep, no
blank is in front, the current directory is known by its path, and no name is taken for an alias in other
letters. -/
structure Resolvable (cwd : Option CwdNode) (cwdPath input : PathName) : Prop where
  blank : input.head? ≠ some ' '
  dir : input.head? ≠ some '/' → pieces '/' (cwdStr cwd) = pieces '/' cwdPath ∧
    (cwdStr cwd).length + 1 + input.length < pathMax
  short : ∀ seg ∈ lexSegs cwdPath input, seg.length < maxSegLen
  shallow : ∀ l, l <+: lexSegs cwdPath input → (l.foldl lexStep []).length ≤ maxSegs
  letters : ¬CaseClash ((lexSegs cwdPath input).foldl lexStep [])
  fits : (lexicalResolve cwdPath input).length < pathMax

/-- **The path by segments.** -/
lemma normalizeSegs_eq (hlen : input.length < pathMax)
    (hcolon : ':' ∉ input) (hparen : '(' ∉ input) (h : Resolvable cwd cwdPath input) :
    normalizeSegs cwd input = lexicalResolve cwdPath input := by
  obtain ⟨hhead, hpieces, hshorter⟩ := collapseSlashes_spec input
  -- what is in the buffer has the segments that are resolved
  have htemp : pieces '/' (appendTemp (tempStart cwd (collapseSlashes input)) (collapseSlashes input)) =
      lexSegs cwdPath input := by
    by_cases hroot : input.head? = some '/'
    · have hstart : tempStart cwd (collapseSlashes input) = [] := if_pos (hhead.trans hroot)
      rw [hstart, pieces_appendTemp (by rw [List.length_nil]; omega), List.nil_append, hpieces, lexSegs,
        if_pos hroot, List.nil_append]
    · obtain ⟨hdir, hfits⟩ := h.dir hroot
      have hroom : (cwdStr cwd).length + 1 + (collapseSlashes input).length < pathMax := by omega
      obtain ⟨hstart, hbound⟩ := pieces_tempStart (hhead ▸ hroot) hroom
      rw [pieces_appendTemp hbound, hstart, hdir, hpieces, lexSegs, if_neg hroot]
  have hmem : ∀ x ∈ (lexSegs cwdPath input).foldl lexStep [], x ∈ lexSegs cwdPath input := fun x hx =>
    (mem_foldl_lexStep hx).resolve_left List.not_mem_nil
  have hpiece : ∀ x ∈ lexSegs cwdPath input, x ≠ [] ∧ '/' ∉ x := by
    intro x hx
    rw [← htemp] at hx
    exact ⟨(mem_pieces hx).1, (mem_pieces hx).2.1⟩
  rw [normalizeSegs, afterColon_eq hcolon, afterParen_eq hparen, dropWhile_blank_eq h.blank,
    htemp, foldl_pushSeg h.short h.shallow, reconstruct_root, rewriteAlias_foldMatch, lexicalResolve]
  · exact fun x hx => (hpiece x (hmem x hx)).2
  · exact h.letters
  · exact h.fits
  · exact fun x hx => ⟨(hpiece x (hmem x hx)).1, h.short x (hmem x hx)⟩
  · exact length_render_le_aliasSegs.trans_lt h.fits

/-- A path with a dot and 17 segments. -/
def deepPath : PathName := "/.".toList ++ joinSep '/' (List.replicate 16 ['a'] ++ [['b']])

end Chimera
