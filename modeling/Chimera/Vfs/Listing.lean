import Chimera.Lib.Links
import Chimera.Vfs.Registry

/-!
# Directory listings

`Listed` relates the registry to the lists of the directories: what is registered below a directory is in
its list, once, with the directory as its parent. Registration of a new vnode and removal of a path with
nothing below it keep it, so listing a directory gives exactly the vnodes registered in it
(**`directory_listing_consistent`**). Renaming does not: it registers the new path before it removes the
old one, and the removal then takes the vnode out of the directory it has just been put in.
-/

namespace Chimera

open Function (update update_self update_of_ne update_eq_self update_idem)

open Lib Probing

/-! ## Paths below the root -/

/-- A path other than the root, without empty segments. -/
def Proper (p : PathName) : Prop := p ≠ [] ∧ joinSep '/' (pieces '/' p) = p

instance (p : PathName) : Decidable (Proper p) := inferInstanceAs (Decidable (_ ∧ _))

section Paths

variable {p q x : PathName}

lemma parentDir_append (hx : '/' ∉ x) : parentDir (q ++ '/' :: x) = if q = [] then ['/'] else q := by
  have hrev : (q ++ '/' :: x).reverse = x.reverse ++ '/' :: q.reverse := by simp
  have hall : ∀ c ∈ x.reverse, decide (c ≠ '/') = true := fun c hc =>
    decide_eq_true fun e => hx (e ▸ List.mem_reverse.mp hc)
  rw [parentDir, hrev, List.dropWhile_append_of_pos hall, List.dropWhile_cons_of_neg (by simp)]
  dsimp only
  rw [List.reverse_reverse]
  exact if_congr List.reverse_eq_nil_iff rfl rfl

lemma baseName_append (hx : '/' ∉ x) : baseName (q ++ '/' :: x) = x := by
  have hrev : (q ++ '/' :: x).reverse = x.reverse ++ '/' :: q.reverse := by simp
  have hx' : '/' ∉ x.reverse := fun h => hx (List.mem_reverse.mp h)
  rw [baseName, hrev, takeWhile_ne_append hx' (.inr rfl), List.reverse_reverse]

lemma Proper.head (hp : Proper p) : ∃ r, p = '/' :: r := by
  obtain ⟨hne, hjoin⟩ := hp
  rcases joinSep_eq_nil_or with hnil | hhead
  · exact absurd (hjoin.symm.trans hnil) hne
  · rw [hjoin] at hhead
    exact List.head?_eq_some_iff.mp hhead

/-- A path is a directory and a name. -/
lemma Proper.split (hp : Proper p) : ∃ q x, p = q ++ '/' :: x ∧ '/' ∉ x ∧ (q = [] ∨ Proper q) := by
  have hne : pieces '/' p ≠ [] := by
    intro hnil
    have hjoin := hp.2
    rw [hnil] at hjoin
    exact hp.1 hjoin.symm
  obtain ⟨l, x, hl⟩ := (List.eq_nil_or_concat' (pieces '/' p)).resolve_left hne
  have hgood : ∀ y ∈ l ++ [x], y ≠ [] ∧ '/' ∉ y := by
    intro y hy
    rw [← hl] at hy
    exact ⟨(mem_pieces hy).1, (mem_pieces hy).2.1⟩
  refine ⟨joinSep '/' l, x, ?_, (hgood x (by simp)).2, ?_⟩
  · have hjoin := hp.2
    rw [hl, joinSep_append] at hjoin
    exact hjoin.symm.trans (by rw [joinSep, joinSep, List.append_nil])
  · cases l with
    | nil => exact .inl rfl
    | cons y l =>
      refine .inr ⟨List.cons_ne_nil _ _, ?_⟩
      rw [pieces_joinSep fun z hz => hgood z (List.mem_append_left _ hz)]

lemma not_proper_root : ¬Proper ['/'] := by decide

/-- Directory and name determine the path. -/
lemma Proper.ext (hp : Proper p) (hq : Proper q) (hdir : parentDir p = parentDir q)
    (hbase : baseName p = baseName q) : p = q := by
  obtain ⟨d, x, rfl, hx, hd⟩ := hp.split
  obtain ⟨d', x', rfl, hx', hd'⟩ := hq.split
  rw [baseName_append hx, baseName_append hx'] at hbase
  rw [parentDir_append hx, parentDir_append hx'] at hdir
  obtain rfl := hbase
  rcases hd with rfl | hd
  · rcases hd' with rfl | hd'
    · rfl
    · rw [if_pos rfl, if_neg hd'.1] at hdir
      exact absurd (hdir ▸ hd') not_proper_root
  · rw [if_neg hd.1] at hdir
    rcases hd' with rfl | hd'
    · rw [if_pos rfl] at hdir
      exact absurd (hdir ▸ hd) not_proper_root
    · rw [if_neg hd'.1] at hdir
      rw [hdir]

lemma Proper.parentDir_ne (hp : Proper p) : parentDir p ≠ p := by
  obtain ⟨d, x, rfl, hx, hd⟩ := hp.split
  rw [parentDir_append hx]
  split_ifs with hnil
  · rw [hnil]
    rintro heq
    rw [hnil, ← heq] at hp
    exact not_proper_root hp
  · intro heq
    exact absurd (List.append_right_eq_self.mp heq.symm) (List.cons_ne_nil _ _)

/-- The directories above a path, but for the root. -/
def DirAbove (p q : PathName) : Prop := ∃ i, 1 ≤ i ∧ i < p.length ∧ p[i]? = some '/' ∧ q = p.take i

lemma DirAbove.proper (hp : Proper p) (h : DirAbove p q) : Proper q := by
  obtain ⟨i, hi, hlt, hslash, rfl⟩ := h
  obtain ⟨r, rfl⟩ := hp.head
  obtain ⟨j, rfl⟩ : ∃ j, i = j + 1 := ⟨i - 1, by omega⟩
  have hcut : '/' :: r = ('/' :: r.take j) ++ '/' :: r.drop (j + 1) := by
    have hget : r[j]? = some '/' := hslash
    obtain ⟨hj, hget⟩ := List.getElem?_eq_some_iff.mp hget
    rw [List.cons_append, ← hget, ← List.drop_eq_getElem_cons hj, List.take_append_drop]
  rw [List.take_succ_cons]
  refine ⟨List.cons_ne_nil _ _, joinSep_pieces_of_append (q := r.drop (j + 1)) ?_⟩
  rw [← hcut]
  exact hp.2

/-- The directory of a path is the root or one of those above. -/
lemma Proper.parentDir_eq (hp : Proper p) : parentDir p = ['/'] ∨ DirAbove p (parentDir p) := by
  obtain ⟨d, x, rfl, hx, hd⟩ := hp.split
  rw [parentDir_append hx]
  split_ifs with hnil
  · exact .inl rfl
  · refine .inr ⟨d.length, List.length_pos_iff.mpr hnil, ?_, ?_, ?_⟩
    · rw [List.length_append, List.length_cons]
      omega
    · rw [List.getElem?_append_right le_rfl, Nat.sub_self]
      rfl
    · rw [List.take_left]

lemma DirAbove.trans {r : PathName} (hq : DirAbove p q) (hr : DirAbove q r) : DirAbove p r := by
  obtain ⟨i, hi, hlt, hslash, rfl⟩ := hq
  obtain ⟨j, hj, hjlt, hjslash, rfl⟩ := hr
  have hji : j < i := by
    rw [List.length_take] at hjlt
    omega
  refine ⟨j, hj, hji.trans hlt, ?_, ?_⟩
  · rw [List.getElem?_take_of_lt hji] at hjslash
    exact hjslash
  · rw [List.take_take, Nat.min_eq_left hji.le]

lemma DirAbove.ne (h : DirAbove p q) : q ≠ p := by
  obtain ⟨i, hi, hlt, -, rfl⟩ := h
  intro heq
  have hlen := congrArg List.length heq
  rw [List.length_take] at hlen
  omega

end Paths

/-! ## The invariant -/

/-- The link from an entry of a directory to the next. -/
def Vfs.sibling (s : Vfs) (v : VnodeRef) : Option VnodeRef := (s.vnode v).siblingNext

/-- **The registry and the lists agree**: `m` is what is registered. -/
structure Listed (s : Vfs) (m : PathName → Option VnodeRef) : Prop where
  table : RegistryRun s.registry m
  root : m ['/'] = some .root
  proper : ∀ p v, m p = some v → p ≠ ['/'] → Proper p
  above : ∀ p v, m p = some v → p ≠ ['/'] →
    (s.vnode v).name = baseName p ∧ ∃ d, m (parentDir p) = some d ∧ (s.vnode v).parent = some d
  one : ∀ p q v, m p = some v → m q = some v → p = q
  lists : ∀ dir d, m dir = some d → ∃ l, Chain s.sibling (s.vnode d).children l ∧
    ∀ v, v ∈ l ↔ ∃ p, p ≠ ['/'] ∧ parentDir p = dir ∧ m p = some v
  pool : ∀ i p, s.rootfsCount ≤ i → m p ≠ some (.rootfs i)

section Steps

variable {s s' s1 : Vfs} {m : PathName → Option VnodeRef} {p : PathName} {v d : VnodeRef} {fuel : ℕ}

lemma Listed.lookup (h : Listed s m) (p : PathName) : lookupExact s.registry p = m p :=
  find_eq registrySize_pos h.table.inv.1 h.table.inv.2 p

variable {k n : ℕ} {A B l : List VnodeRef} {t : RegistryTable}

/-- A field that a write keeps. -/
lemma Vfs.field_setVnode {β : Type} (f : VnodeLinks → β) {x : VnodeLinks} {w : VnodeRef}
    (hx : w = v → f x = f (s.vnode v)) : f ((s.setVnode v x).vnode w) = f (s.vnode w) := by
  by_cases hw : w = v
  · rw [Vfs.setVnode]
    dsimp only
    rw [hw, update_self, hx hw]
  · rw [Vfs.setVnode]
    dsimp only
    rw [update_of_ne hw]

/-- A vnode that is not registered may change. -/
lemma Listed.setUnregistered (h : Listed s m) (hv : ∀ p, m p ≠ some v) (x : VnodeLinks) (hn : s.rootfsCount ≤ n)
    : Listed { s.setVnode v x with rootfsCount := n } m := by
  have hsame : ∀ {p w}, m p = some w → (s.setVnode v x).vnode w = s.vnode w := fun {p w} hp =>
    update_of_ne (fun e : w = v => hv p (e ▸ hp)) _ _
  refine ⟨h.table, h.root, h.proper, fun p w hp hroot => ?_, h.one, fun dir e hdir => ?_,
    fun i p hi => h.pool i p (hn.trans hi)⟩
  · rw [hsame hp]
    exact h.above p w hp hroot
  · obtain ⟨l, hl, hmem⟩ := h.lists dir e hdir
    refine ⟨l, ?_, hmem⟩
    rw [hsame hdir]
    refine hl.congr fun w hw => ?_
    obtain ⟨p, -, -, hp⟩ := (hmem w).mp hw
    exact congrArg VnodeLinks.siblingNext (hsame hp)

variable {hd : Option VnodeRef}

/-- The search among the entries ends with the answer no, if none has the name. -/
lemma childFound_eq {b : Bool} (hl : Chain s.sibling hd l)
    (hne : ∀ c ∈ l, c ≠ v ∧ (s.vnode c).name ≠ (s.vnode v).name) (h : childFound s v fuel hd = some b)
    : b = false := by
  induction fuel generalizing hd l with
  | zero =>
    cases l with
    | nil =>
      rw [chain_nil.mp hl] at h
      exact (Option.some.inj h).symm
    | cons c l =>
      rw [(chain_cons.mp hl).1] at h
      cases h
  | succ fuel ih =>
    cases l with
    | nil =>
      rw [chain_nil.mp hl] at h
      exact (Option.some.inj h).symm
    | cons c l =>
      obtain ⟨rfl, htail⟩ := chain_cons.mp hl
      obtain ⟨hcv, hname⟩ := hne c List.mem_cons_self
      rw [childFound, if_neg (not_or.mpr ⟨hcv, hname⟩)] at h
      exact ih htail (fun c hc => hne c (List.mem_cons_of_mem _ hc)) h

/-- **What linking does**, if the directory has no entry of that name. -/
lemma linkChild_spec (hdv : d ≠ v) (hl : Chain s.sibling (s.vnode d).children l)
    (hne : ∀ c ∈ l, c ≠ v ∧ (s.vnode c).name ≠ (s.vnode v).name) (h : linkChild fuel s d v = some s1) :
    s1 = (s.setVnode v ⟨(s.vnode v).name, some d, (s.vnode v).children, (s.vnode d).children⟩).setVnode d
      ⟨(s.vnode d).name, (s.vnode d).parent, some v, (s.vnode d).siblingNext⟩ := by
  have hd : ∀ x, (s.setVnode v x).vnode d = s.vnode d := fun x => update_of_ne hdv _ _
  have hv : ∀ x, (s.setVnode v x).vnode v = x := fun x => update_self _ _ _
  have hnames : ∀ w, ((s.setVnode v { s.vnode v with parent := some d }).vnode w).name =
      (s.vnode w).name ∧ (s.setVnode v { s.vnode v with parent := some d }).sibling w = s.sibling w := fun w =>
    ⟨Vfs.field_setVnode VnodeLinks.name fun _ => rfl, Vfs.field_setVnode VnodeLinks.siblingNext fun _ => rfl⟩
  rw [linkChild] at h
  cases hfound : childFound (s.setVnode v { s.vnode v with parent := some d }) v fuel
      ((s.setVnode v { s.vnode v with parent := some d }).vnode d).children with
  | none =>
    rw [hfound] at h
    cases h
  | some b =>
    have hb : b = false := by
      refine childFound_eq (l := l) ?_ (fun c hc => ?_) hfound
      · rw [hd]
        exact hl.congr fun w _ => (hnames w).2
      · rw [(hnames c).1, (hnames v).1]
        exact hne c hc
    rw [hfound, hb] at h
    cases h
    have hd' : ∀ x y, ((s.setVnode v x).setVnode v y).vnode d = s.vnode d := fun x y => by
      rw [Vfs.setVnode]
      dsimp only
      rw [update_of_ne hdv, hd]
    rw [hd', hv, hd]
    simp only [Vfs.setVnode, update_idem]

/-- No entry of a directory is a vnode that is not registered, or has the name of a new path. -/
lemma Listed.entries_ne (h : Listed s m) (hp : Proper p) (hnew : m p = none) (hfresh : ∀ q, m q ≠ some v)
    (hname : (s.vnode v).name = baseName p)
    (hmem : ∀ w, w ∈ l ↔ ∃ q, q ≠ ['/'] ∧ parentDir q = parentDir p ∧ m q = some w) :
    ∀ c ∈ l, c ≠ v ∧ (s.vnode c).name ≠ (s.vnode v).name := by
  intro c hc
  obtain ⟨q, hqroot, hqdir, hq⟩ := (hmem c).mp hc
  refine ⟨fun e => hfresh q (e ▸ hq), fun e => ?_⟩
  rw [hname, (h.above q c hq hqroot).1] at e
  rw [(h.proper q c hq hqroot).ext hp hqdir e, hnew] at hq
  cases hq

/-- **A new entry.** -/
lemma Listed.register (h : Listed s m) (hp : Proper p) (hnew : m p = none) (hdir : m (parentDir p) = some d)
    (hfresh : ∀ q, m q ≠ some v) (hpool : ∀ i, s.rootfsCount ≤ i → v ≠ .rootfs i)
    (hname : (s.vnode v).name = baseName p) (hleaf : (s.vnode v).children = none)
    (hlink : linkChild fuel s d v = some s1) (hins : registryInsert s1.registry p v = some t) :
    Listed { s1 with registry := t } (update m p (some v)) := by
  have hdv : d ≠ v := fun e => hfresh _ (e ▸ hdir)
  have hroot : p ≠ ['/'] := fun e => not_proper_root (e ▸ hp)
  obtain ⟨l, hl, hmem⟩ := h.lists _ d hdir
  have hne := h.entries_ne hp hnew hfresh hname hmem
  obtain rfl := linkChild_spec hdv hl hne hlink
  have hv : ∀ x y, ((s.setVnode v x).setVnode d y).vnode v = x := fun x y =>
    (update_of_ne hdv.symm _ _).trans (update_self _ _ _)
  have hd : ∀ x y, ((s.setVnode v x).setVnode d y).vnode d = y := fun x y => update_self _ _ _
  -- another vnode keeps its fields, and the directory all but the first entry
  have hkeep : ∀ {β : Type} (f : VnodeLinks → β) {w} x y, w ≠ v → (w = d → f y = f (s.vnode d)) →
      f (((s.setVnode v x).setVnode d y).vnode w) = f (s.vnode w) := by
    intro β f w x y hwv hy
    rw [Vfs.field_setVnode f fun e => (hy e).trans (congrArg f (update_of_ne hdv _ _).symm)]
    exact Vfs.field_setVnode f fun e => absurd e hwv
  have hmap : ∀ {q w}, update m p (some v) q = some w ↔ (q = p ∧ w = v) ∨ (q ≠ p ∧ m q = some w) := by
    intro q w
    by_cases hq : q = p
    · rw [hq, update_self]
      exact ⟨fun e => .inl ⟨rfl, (Option.some.inj e).symm⟩, fun e =>
        e.elim (fun e => e.2 ▸ rfl) fun e => absurd rfl e.1⟩
    · rw [update_of_ne hq]
      exact ⟨fun e => .inr ⟨hq, e⟩, fun e => e.elim (fun e => absurd e.1 hq) fun e => e.2⟩
  have hmono : ∀ {q w}, m q = some w → q ≠ p ∧ update m p (some v) q = some w := by
    intro q w hq
    have hqp : q ≠ p := by
      rintro rfl
      exact nomatch hnew.symm.trans hq
    exact ⟨hqp, hmap.mpr (.inr ⟨hqp, hq⟩)⟩
  refine ⟨h.table.register p v hins, (hmono h.root).2, fun q w hq hqroot => ?_, fun q w hq hqroot => ?_,
    fun q q' w hq hq' => ?_, fun dir e he => ?_, fun i q hi hq => ?_⟩
  · rcases hmap.mp hq with ⟨rfl, -⟩ | ⟨-, hq⟩
    · exact hp
    · exact h.proper q w hq hqroot
  · rcases hmap.mp hq with ⟨rfl, rfl⟩ | ⟨-, hq⟩
    · rw [hv]
      exact ⟨hname, d, (hmono hdir).2, rfl⟩
    · obtain ⟨hwname, e, he, hwparent⟩ := h.above q w hq hqroot
      have hwv : w ≠ v := fun e => hfresh q (e ▸ hq)
      refine ⟨hwname ▸ ?_, e, (hmono he).2, hwparent ▸ ?_⟩
      · exact hkeep VnodeLinks.name _ _ hwv fun _ => rfl
      · exact hkeep VnodeLinks.parent _ _ hwv fun _ => rfl
  · rcases hmap.mp hq with ⟨hqp, hw⟩ | ⟨-, hold⟩
    · rcases hmap.mp hq' with ⟨hqp', -⟩ | ⟨-, hold'⟩
      · rw [hqp, hqp']
      · exact absurd (hw ▸ hold') (hfresh q')
    · rcases hmap.mp hq' with ⟨-, hw⟩ | ⟨-, hold'⟩
      · exact absurd (hw ▸ hold) (hfresh q)
      · exact h.one q q' w hold hold'
  · rcases hmap.mp he with ⟨rfl, rfl⟩ | ⟨-, hold⟩
    · -- nothing is registered below the new path
      refine ⟨[], ?_, fun w => ⟨nofun, ?_⟩⟩
      · rw [hv]
        exact hleaf
      · rintro ⟨q, hqroot, hqdir, hq⟩
        rcases hmap.mp hq with ⟨rfl, -⟩ | ⟨-, hq⟩
        · exact absurd hqdir hp.parentDir_ne
        · obtain ⟨-, e, he, -⟩ := h.above q w hq hqroot
          rw [hqdir, hnew] at he
          cases he
    · have hev : e ≠ v := fun x => hfresh dir (x ▸ hold)
      by_cases hed : e = d
      · obtain rfl : dir = parentDir p := h.one _ _ _ hold (hed ▸ hdir)
        refine ⟨v :: l, ?_, fun w => ?_⟩
        · rw [hed, hd]
          refine ⟨rfl, ?_⟩
          dsimp only [Vfs.sibling]
          rw [hv]
          exact hl.congr fun w hw => hkeep VnodeLinks.siblingNext _ _ (hne w hw).1 fun _ => rfl
        · rw [List.mem_cons, hmem]
          constructor
          · rintro (rfl | ⟨q, hqroot, hqdir, hq⟩)
            · exact ⟨p, hroot, rfl, hmap.mpr (.inl ⟨rfl, rfl⟩)⟩
            · exact ⟨q, hqroot, hqdir, (hmono hq).2⟩
          · rintro ⟨q, hqroot, hqdir, hq⟩
            rcases hmap.mp hq with ⟨-, rfl⟩ | ⟨-, hq⟩
            · exact .inl rfl
            · exact .inr ⟨q, hqroot, hqdir, hq⟩
      · obtain ⟨l', hl', hmem'⟩ := h.lists dir e hold
        refine ⟨l', ?_, fun w => ?_⟩
        · rw [hkeep VnodeLinks.children _ _ hev fun x => absurd x hed]
          refine hl'.congr fun w hw => hkeep VnodeLinks.siblingNext _ _ ?_ fun _ => rfl
          obtain ⟨q, -, -, hq⟩ := (hmem' w).mp hw
          exact fun x => hfresh q (x ▸ hq)
        · rw [hmem']
          refine exists_congr fun q => and_congr_right fun _ => and_congr_right fun hqdir =>
            ⟨fun hq => (hmono hq).2, fun hq => ?_⟩
          rcases hmap.mp hq with ⟨rfl, -⟩ | ⟨-, hq⟩
          · rw [hqdir, hold] at hdir
            exact absurd (Option.some.inj hdir) hed
          · exact hq
  · rcases hmap.mp hq with ⟨-, hw⟩ | ⟨-, hq⟩
    · exact hpool i hi hw.symm
    · exact h.pool i q hi hq

/-! ## Registration -/

variable {cwd : Option CwdNode}

lemma Listed.vfsLookup_eq_some (h : Listed s m) (hset : vfsNormalizePath cwd p = p) (hp : m p = some v) :
    vfsLookup cwd s p = some v := by
  rw [vfsLookup, hset]
  rw [h.lookup, hp]

lemma Listed.vfsLookup_eq_none (h : Listed s m) (hset : vfsNormalizePath cwd p = p) (hp : m p = none)
    (h83 : vfsPathTo83 p = p) : vfsLookup cwd s p = none := by
  rw [vfsLookup, hset]
  rw [h.lookup, hp]
  rw [if_pos h83.symm]

lemma vfsNormalizePath_root : vfsNormalizePath cwd ['/'] = ['/'] := by
  rw [vfsNormalizePath, if_pos (by decide)]
  decide

/-- The directories above a path are found under their own names. -/
def SettledPath (cwd : Option CwdNode) (p : PathName) : Prop :=
  ∀ q, DirAbove p q → vfsNormalizePath cwd q = q

lemma SettledPath.parentDir (hset : SettledPath cwd p) (hp : Proper p) :
    vfsNormalizePath cwd (parentDir p) = parentDir p := by
  rcases hp.parentDir_eq with hroot | habove
  · rw [hroot]
    exact vfsNormalizePath_root
  · exact hset _ habove

/-- At least `k` slots of the table are unused. -/
def Room (t : RegistryTable) (k : ℕ) : Prop :=
  ∃ free : Finset ℕ, k ≤ free.card ∧ ∀ i ∈ free, i < registrySize ∧ t i = .unused

lemma Room.insert {t' : RegistryTable} (h : Room t (k + 1)) (hins : registryInsert t p v = some t') : Room t' k := by
  obtain ⟨free, hcard, hfree⟩ := h
  obtain ⟨j, -, rfl⟩ := Option.map_eq_some_iff.mp hins
  refine ⟨free.erase j, ?_, fun i hi => ?_⟩
  · have hle := Finset.pred_card_le_card_erase (s := free) (a := j)
    omega
  · obtain ⟨hij, hi⟩ := Finset.mem_erase.mp hi
    rw [update_of_ne hij]
    exact hfree i hi

lemma Room.fits (h : Room t (k + 1)) (hm : Holds registrySize t m) : registryInsert t p v ≠ none := by
  obtain ⟨free, hcard, hfree⟩ := h
  obtain ⟨i, hi⟩ := Finset.card_pos.mp (Nat.lt_of_lt_of_le (Nat.succ_pos k) hcard)
  intro hfail
  exact ((registryInsert_eq_none hm).mp hfail).2 i (hfree i hi).1 (hfree i hi).2

/-- With all directories in place the loop over them does nothing. -/
lemma vfsEnsureParentDirs_eq {register : Vfs → PathName → VnodeRef → Option Vfs}
    (h : ∀ q, DirAbove p q → vfsLookup cwd s q ≠ none) :
    vfsEnsureParentDirs cwd register p s = some s := by
  rw [vfsEnsureParentDirs]
  split_ifs
  · have hstep : ∀ i ∈ List.range' 1 (p.length - 1), ensureParentDir cwd register p s i = some s := by
      intro i hi
      obtain ⟨hpos, hlt⟩ := List.mem_range'_1.mp hi
      rw [ensureParentDir]
      split_ifs with hslash
      · obtain ⟨w, hw⟩ := Option.ne_none_iff_exists'.mp (h _ ⟨i, hpos, by omega, hslash, rfl⟩)
        rw [hw]
      · rfl
    generalize List.range' 1 (p.length - 1) = is at hstep
    induction is with
    | nil => rfl
    | cons i is ih =>
      rw [List.foldlM_cons, hstep i List.mem_cons_self]
      exact ih fun j hj => hstep j (List.mem_cons_of_mem i hj)
  · rfl

/-- **The last part of a registration**, with all directories in place. The unregistered vnodes stay as
they are. -/
lemma Listed.enter (h : Listed s m) (hp : Proper p) (hset : SettledPath cwd p)
    (habove : ∀ q, DirAbove p q → m q ≠ none) (hnew : m p = none) (hfresh : ∀ q, m q ≠ some v)
    (hpool : ∀ i, s.rootfsCount ≤ i → v ≠ .rootfs i) (hname : (s.vnode v).name = baseName p)
    (hleaf : (s.vnode v).children = none) (hroom : Room s.registry (k + 1))
    (hlink : linkParent cwd fuel s p v = some s1) :
    (registerEntry s1 p v).1 = true ∧ Listed (registerEntry s1 p v).2 (update m p (some v)) ∧
      Room (registerEntry s1 p v).2.registry k ∧ (registerEntry s1 p v).2.rootfsCount = s.rootfsCount ∧
      ∀ w, w ≠ v → (∀ q, m q ≠ some w) → (registerEntry s1 p v).2.vnode w = s.vnode w := by
  have hdir : ∃ d, m (parentDir p) = some d := by
    rcases hp.parentDir_eq with heq | hdir
    · exact ⟨.root, heq ▸ h.root⟩
    · exact Option.ne_none_iff_exists'.mp (habove _ hdir)
  obtain ⟨d, hd⟩ := hdir
  have hdv : d ≠ v := fun e => hfresh _ (e ▸ hd)
  rw [linkParent, h.vfsLookup_eq_some (hset.parentDir hp) hd] at hlink
  dsimp only at hlink
  rw [if_neg hdv] at hlink
  have htable := linkChild_registry hlink
  have hfits : registryInsert s1.registry p v ≠ none := by
    rw [htable]
    exact hroom.fits h.table.inv.2
  obtain ⟨t, ht⟩ := Option.ne_none_iff_exists'.mp hfits
  obtain ⟨l, hl, hmem⟩ := h.lists _ d hd
  have hspec := linkChild_spec hdv hl (h.entries_ne hp hnew hfresh hname hmem) hlink
  rw [registerEntry, ht]
  refine ⟨rfl, h.register hp hnew hd hfresh hpool hname hleaf hlink ht, ?_, ?_, ?_⟩
  · exact Room.insert (htable ▸ hroom) ht
  · rw [hspec]
    rfl
  · intro w hwv hw
    have hwd : w ≠ d := fun e => hw _ (e ▸ hd)
    rw [hspec]
    exact (update_of_ne hwd _ _).trans (update_of_ne hwv _ _)

/-- **A missing directory** is made, if all those above it are there. -/
lemma Listed.makeDir (h : Listed s m) (hp : Proper p) (hself : vfsNormalizePath cwd p = p)
    (hset : SettledPath cwd p) (habove : ∀ q, DirAbove p q → m q ≠ none) (hnew : m p = none)
    (hlen : p.length < pathMax) (hcount : s.rootfsCount < rootfsMaxVnodes) (hroom : Room s.registry (k + 1))
    {r : VnodeRef × Vfs} (hmade : vfsCreateDirVnode (baseName p) s = some r)
    (hreg : (vfsRegister cwd fuel r.2 p r.1).map Prod.snd = some s') :
    Listed s' (update m p (some (.rootfs s.rootfsCount))) ∧ Room s'.registry k ∧ s'.rootfsCount = s.rootfsCount + 1 ∧
      ∀ w, (∀ q, m q ≠ some w) → (∀ i, w ≠ .rootfs i) → s'.vnode w = s.vnode w := by
  rw [vfsCreateDirVnode, if_neg (Nat.not_le_of_lt hcount)] at hmade
  cases hmade
  obtain ⟨r, hcall, rfl⟩ := Option.map_eq_some_iff.mp hreg
  have hfresh : ∀ q, m q ≠ some (.rootfs s.rootfsCount) := fun q => h.pool _ q le_rfl
  have hbase : (baseName p).take 255 = baseName p := by
    refine List.take_of_length_le ?_
    obtain ⟨q, x, rfl, hx, -⟩ := hp.split
    rw [baseName_append hx]
    rw [List.length_append, List.length_cons] at hlen
    have hmax : pathMax = 256 := rfl
    omega
  have h1 : Listed (s.takeRootfs (baseName p)) m := h.setUnregistered hfresh _ (Nat.le_succ _)
  have hfound : ∀ q, DirAbove p q → vfsLookup cwd (s.takeRootfs (baseName p)) q ≠ none := by
    intro q hq
    obtain ⟨w, hw⟩ := Option.ne_none_iff_exists'.mp (habove q hq)
    rw [h1.vfsLookup_eq_some (hset q hq) hw]
    simp
  cases fuel with
  | zero => cases hcall
  | succ fuel =>
    have hroot : p ≠ ['/'] := fun e => not_proper_root (e ▸ hp)
    rw [vfsRegister, hself, if_neg hroot] at hcall
    rw [vfsEnsureParentDirs_eq hfound] at hcall
    obtain ⟨_, hsome, hcall⟩ := Option.bind_eq_some_iff.mp hcall
    cases hsome
    obtain ⟨s2, hlink, hcall⟩ := Option.bind_eq_some_iff.mp hcall
    cases hcall
    have hvnode : (s.takeRootfs (baseName p)).vnode (.rootfs s.rootfsCount) =
        ⟨(baseName p).take 255, none, none, none⟩ := update_self _ _ _
    obtain ⟨-, hlisted, hroom', hcount', hsame⟩ := h1.enter hp hset habove hnew hfresh
      (fun i hi e => by
        obtain rfl := VnodeRef.rootfs.inj e
        exact absurd hi (Nat.not_succ_le_self _))
      ((congrArg VnodeLinks.name hvnode).trans hbase) (congrArg VnodeLinks.children hvnode) hroom hlink
    refine ⟨hlisted, hroom', hcount', fun w hw hpool => ?_⟩
    rw [hsame w (hpool _) hw]
    exact update_of_ne (hpool _) _ _

/-- The loop over the directories above `p` is at character `a`: the directories before it are there, and
there is room for the others; `v` is the vnode to be registered. -/
structure MakingDirs (p : PathName) (v : VnodeRef) (a : ℕ) (s : Vfs) (m : PathName → Option VnodeRef) :
    Prop where
  listed : Listed s m
  before : ∀ i, 1 ≤ i → i < a → p[i]? = some '/' → m (p.take i) ≠ none
  short : ∀ q, DirAbove p q → m q = none → vfsPathTo83 q = q
  new : m p = none
  fresh : ∀ q, m q ≠ some v
  count : s.rootfsCount + (p.length - a) ≤ rootfsMaxVnodes
  room : Room s.registry (p.length - a + 1)

lemma Room.mono (h : Room t n) (hle : k ≤ n) : Room t k := by
  obtain ⟨free, hcard, hfree⟩ := h
  exact ⟨free, hle.trans hcard, hfree⟩

variable {a : ℕ}

/-- Nothing to make at this character. -/
lemma MakingDirs.skip (h : MakingDirs p v a s m) (hthere : p[a]? = some '/' → m (p.take a) ≠ none) :
    MakingDirs p v (a + 1) s m := by
  have hcount := h.count
  refine ⟨h.listed, fun i hi hlt hslash => ?_, h.short, h.new, h.fresh, by omega, h.room.mono (by omega)⟩
  rcases Nat.lt_or_eq_of_le (Nat.le_of_lt_succ hlt) with hlt | rfl
  · exact h.before i hi hlt hslash
  · exact hthere hslash

lemma MakingDirs.step (h : MakingDirs p v a s m) (hp : Proper p) (hset : SettledPath cwd p)
    (hlen : p.length < pathMax) (ha : 1 ≤ a) (hlt : a < p.length) (hother : ∀ i, v ≠ .rootfs i)
    (hstep : ensureParentDir cwd (fun s p v => (vfsRegister cwd fuel s p v).map Prod.snd) p s a = some s') :
    ∃ m', MakingDirs p v (a + 1) s' m' ∧ s'.vnode v = s.vnode v := by
  rw [ensureParentDir] at hstep
  split_ifs at hstep with hslash
  · have hdir : DirAbove p (p.take a) := ⟨a, ha, hlt, hslash, rfl⟩
    cases hm : m (p.take a) with
    | some w =>
      rw [h.listed.vfsLookup_eq_some (hset _ hdir) hm] at hstep
      cases hstep
      exact ⟨m, h.skip fun _ => hm.trans_ne (by simp), rfl⟩
    | none =>
      have hcount := h.count
      have hfree : s.rootfsCount < rootfsMaxVnodes := by omega
      rw [h.listed.vfsLookup_eq_none (hset _ hdir) hm (h.short _ hdir hm)] at hstep
      have hmade : vfsCreateDirVnode (baseName (p.take a)) s =
          some (.rootfs s.rootfsCount, s.takeRootfs (baseName (p.take a))) :=
        if_neg (Nat.not_le_of_lt hfree)
      rw [hmade] at hstep
      have habove : ∀ q, DirAbove (p.take a) q → m q ≠ none := by
        rintro q ⟨i, hi, hia, hi', rfl⟩
        have hia : i < a := hia.trans_le (List.length_take_le a p)
        rw [List.take_take, Nat.min_eq_left hia.le]
        rw [List.getElem?_take_of_lt hia] at hi'
        exact h.before i hi hia hi'
      have hlen' : (p.take a).length < pathMax := (List.length_take_le' a p).trans_lt hlen
      obtain ⟨h1, hroom1, hcount1, hsame⟩ := h.listed.makeDir (hdir.proper hp) (hset _ hdir)
        (fun q hq => hset q (hdir.trans hq)) habove hm hlen' hfree h.room hmade hstep
      have hmono : ∀ q, m q ≠ none → update m (p.take a) (some (.rootfs s.rootfsCount)) q ≠ none := by
        intro q hq
        by_cases hqa : q = p.take a
        · rw [hqa, update_self]
          simp
        · rw [update_of_ne hqa]
          exact hq
      refine ⟨_, ⟨h1, fun i hi hia hi' => ?_, fun q hq hnone => ?_, ?_, fun q => ?_, by omega,
        hroom1.mono (by omega)⟩, hsame v h.fresh hother⟩
      · rcases Nat.lt_or_eq_of_le (Nat.le_of_lt_succ hia) with hia | rfl
        · exact hmono _ (h.before i hi hia hi')
        · rw [update_self]
          simp
      · exact h.short q hq (not_not.mp fun hne => hmono q hne hnone)
      · rw [update_of_ne hdir.ne.symm]
        exact h.new
      · by_cases hqa : q = p.take a
        · rw [hqa, update_self]
          exact fun e => hother _ (Option.some.inj e).symm
        · rw [update_of_ne hqa]
          exact h.fresh q
  · cases hstep
    exact ⟨m, h.skip fun e => absurd e hslash, rfl⟩

lemma MakingDirs.loop (h : MakingDirs p v a s m) (hp : Proper p) (hset : SettledPath cwd p)
    (hlen : p.length < pathMax) (ha : 1 ≤ a) (hend : a + n = p.length) (hother : ∀ i, v ≠ .rootfs i)
    (hloop : (List.range' a n).foldlM (ensureParentDir cwd (fun s p v => (vfsRegister cwd fuel s p v).map Prod.snd) p) s = some s')
    :
    ∃ m', MakingDirs p v p.length s' m' ∧ s'.vnode v = s.vnode v := by
  induction n generalizing a s m with
  | zero =>
    cases hloop
    exact ⟨m, hend ▸ h, rfl⟩
  | succ n ih =>
    rw [List.range'_succ, List.foldlM_cons] at hloop
    obtain ⟨s1, hstep, hloop⟩ := Option.bind_eq_some_iff.mp hloop
    obtain ⟨m1, h1, hvnode1⟩ := h.step hp hset hlen ha (by omega) hother hstep
    obtain ⟨m', h', hvnode⟩ := ih h1 (by omega) (by omega) hloop
    exact ⟨m', h', hvnode.trans hvnode1⟩

/-! ## Removal -/

/-- **A vnode inside a list goes out.** -/
lemma unlinkSibling_eq (hl : Chain s.sibling hd (A ++ v :: B)) (hA : A ≠ [])
    (h : unlinkSibling s v fuel hd = some s') :
    ∃ u, A.getLast? = some u ∧ s' = s.setVnode u { s.vnode u with siblingNext := s.sibling v } := by
  induction fuel generalizing hd A with
  | zero =>
    obtain ⟨c, A, rfl⟩ := List.exists_cons_of_ne_nil hA
    rw [(chain_cons.mp hl).1] at h
    cases h
  | succ fuel ih =>
    obtain ⟨c, A, rfl⟩ := List.exists_cons_of_ne_nil hA
    obtain ⟨rfl, htail⟩ := chain_cons.mp hl
    rw [unlinkSibling] at h
    cases A with
    | nil =>
      have hnext : (s.vnode c).siblingNext = some v := (chain_cons.mp htail).1
      rw [hnext] at h
      dsimp only at h
      rw [if_pos rfl] at h
      exact ⟨c, rfl, (Option.some.inj h).symm⟩
    | cons b A =>
      have hnext : (s.vnode c).siblingNext = some b := (chain_cons.mp htail).1
      have hbv : b ≠ v := by
        rintro rfl
        exact (List.nodup_cons.mp htail.nodup).1 (by simp)
      rw [hnext] at h
      dsimp only at h
      rw [if_neg hbv, ← hnext] at h
      obtain ⟨u, hu, hs'⟩ := ih htail (List.cons_ne_nil _ _) h
      exact ⟨u, by rwa [List.getLast?_cons_cons], hs'⟩

lemma Vfs.sibling_setVnode (x : VnodeLinks) : (s.setVnode v x).sibling = update s.sibling v x.siblingNext := by
  funext w
  by_cases hw : w = v
  · rw [hw, update_self, Vfs.sibling, Vfs.setVnode]
    dsimp only
    rw [update_self]
  · rw [update_of_ne hw, Vfs.sibling, Vfs.setVnode]
    dsimp only
    rw [update_of_ne hw]
    rfl

/-- The list of a directory without an entry: the link behind the entries before it leads past it. -/
lemma unlinkFrom_spec (hl : Chain s.sibling (s.vnode d).children (A ++ v :: B))
    (h : unlinkFrom fuel s d v = some s') :
    s'.registry = s.registry ∧ s'.rootfsCount = s.rootfsCount ∧
    (∀ w, (s'.vnode w).name = (s.vnode w).name) ∧ (∀ w, (s'.vnode w).parent = (s.vnode w).parent) ∧
    (∀ w, w ≠ d → (s'.vnode w).children = (s.vnode w).children) ∧
    (⟨(s'.vnode d).children, s'.sibling⟩ : Links VnodeRef) =
      Links.set ⟨(s.vnode d).children, s.sibling⟩ A.getLast? (s.sibling v) := by
  rw [unlinkFrom] at h
  by_cases hA : A = []
  · obtain rfl := hA
    rw [if_pos (chain_cons.mp hl).1] at h
    cases h
    refine ⟨rfl, rfl, fun w => Vfs.field_setVnode VnodeLinks.name fun _ => rfl,
      fun w => Vfs.field_setVnode VnodeLinks.parent fun _ => rfl,
      fun w hw => Vfs.field_setVnode VnodeLinks.children fun e => absurd e hw, ?_⟩
    · rw [Vfs.sibling_setVnode]
      dsimp only [List.getLast?_nil, Links.set, Vfs.setVnode]
      rw [update_self, show (s.vnode d).siblingNext = s.sibling d from rfl, update_eq_self]
      rfl
  · have hfirst : (s.vnode d).children ≠ some v := by
      obtain ⟨c, A, rfl⟩ := List.exists_cons_of_ne_nil hA
      rw [(chain_cons.mp hl).1]
      intro e
      cases e
      exact (List.nodup_cons.mp hl.nodup).1 (by simp)
    rw [if_neg hfirst] at h
    obtain ⟨u, hu, rfl⟩ := unlinkSibling_eq hl hA h
    have hchildren : ∀ w, ((s.setVnode u { s.vnode u with siblingNext := s.sibling v }).vnode w).children =
        (s.vnode w).children := fun w => Vfs.field_setVnode VnodeLinks.children fun _ => rfl
    refine ⟨rfl, rfl, fun w => Vfs.field_setVnode VnodeLinks.name fun _ => rfl,
      fun w => Vfs.field_setVnode VnodeLinks.parent fun _ => rfl, fun w _ => hchildren w, ?_⟩
    · rw [hchildren, Vfs.sibling_setVnode, hu]
      rfl

/-- **What unlinking does** to an entry of a directory: the list loses it, and the other links, the names
and the other directories stay. -/
lemma unlinkChild_spec (hparent : (s.vnode v).parent = some d)
    (hl : Chain s.sibling (s.vnode d).children (A ++ v :: B)) (h : unlinkChild fuel s v = some s') :
    s'.registry = s.registry ∧ s'.rootfsCount = s.rootfsCount ∧
    (∀ w, (s'.vnode w).name = (s.vnode w).name) ∧
    (∀ w, w ≠ v → (s'.vnode w).parent = (s.vnode w).parent) ∧
    (∀ w, w ≠ d → (s'.vnode w).children = (s.vnode w).children) ∧
    Chain s'.sibling (s'.vnode d).children (A ++ B) ∧
    ∀ w, w ∉ A ++ v :: B → s'.sibling w = s.sibling w := by
  rw [unlinkChild, hparent] at h
  obtain ⟨s1, h1, rfl⟩ := Option.map_eq_some_iff.mp h
  obtain ⟨htable, hcount, hname, hparents, hchildren, hlinks⟩ := unlinkFrom_spec hl h1
  have herase := Links.IsList.erase_node (l := ⟨(s.vnode d).children, s.sibling⟩) hl
  rw [← hlinks] at herase
  have hlast : ∀ w, ((s1.setVnode v { s1.vnode v with parent := none, siblingNext := none }).vnode w).children =
      (s1.vnode w).children := by
    intro w
    apply Vfs.field_setVnode VnodeLinks.children
    exact fun _ => rfl
  refine ⟨htable, hcount, fun w => ?_, fun w hw => ?_, fun w hw => ?_, ?_, fun w hw => ?_⟩
  · rw [← hname w]
    apply Vfs.field_setVnode VnodeLinks.name
    exact fun _ => rfl
  · rw [← hparents w]
    apply Vfs.field_setVnode VnodeLinks.parent
    exact fun e => absurd e hw
  · rw [hlast, hchildren w hw]
  · rw [hlast, Vfs.sibling_setVnode]
    exact herase.1
  · rw [Vfs.sibling_setVnode]
    exact herase.2 w hw

/-- **An entry goes.** -/
lemma Listed.unregister (h : Listed s m) (hp : m p = some v) (hroot : p ≠ ['/'])
    (hleaf : ∀ q w, m q = some w → q ≠ ['/'] → parentDir q ≠ p) (hrem : registryRemove s.registry p = some t)
    (hunlink : unlinkChild fuel { s with registry := t } v = some s') :
    Listed s' (update m p none) := by
  obtain ⟨-, d, hd, hparent⟩ := h.above p v hp hroot
  obtain ⟨l, hl, hmem⟩ := h.lists _ d hd
  obtain ⟨A, B, rfl⟩ := List.append_of_mem ((hmem v).mpr ⟨p, hroot, rfl, hp⟩)
  obtain ⟨htable, hcount, hname, hparents, hchildren, hlist, hsib⟩ :=
    unlinkChild_spec (s := { s with registry := t }) hparent hl hunlink
  have hback : ∀ {q w}, update m p none q = some w ↔ q ≠ p ∧ m q = some w := by
    intro q w
    by_cases hq : q = p
    · rw [hq, update_self]
      exact ⟨nofun, fun e => absurd rfl e.1⟩
    · rw [update_of_ne hq]
      exact ⟨fun e => ⟨hq, e⟩, fun e => e.2⟩
  refine ⟨?_, hback.mpr ⟨hroot.symm, h.root⟩, fun q w hq => h.proper q w (hback.mp hq).2,
    fun q w hq hqroot => ?_, fun q q' w hq hq' => h.one q q' w (hback.mp hq).2 (hback.mp hq').2,
    fun dir e he => ?_, fun i q hi hq => h.pool i q (hcount ▸ hi) (hback.mp hq).2⟩
  · rw [htable]
    exact h.table.unregister p hrem
  · obtain ⟨hqp, hq⟩ := hback.mp hq
    obtain ⟨hwname, e, he, hwparent⟩ := h.above q w hq hqroot
    have hwv : w ≠ v := fun x => hqp (h.one q p v (x ▸ hq) hp)
    refine ⟨(hname w).trans hwname, e, hback.mpr ⟨hleaf q w hq hqroot, he⟩, (hparents w hwv).trans hwparent⟩
  · obtain ⟨-, hold⟩ := hback.mp he
    have hstays : ∀ q w, q ≠ ['/'] ∧ parentDir q = dir ∧ update m p none q = some w ↔
        q ≠ p ∧ q ≠ ['/'] ∧ parentDir q = dir ∧ m q = some w := by
      intro q w
      rw [hback]
      tauto
    by_cases hed : e = d
    · obtain rfl : dir = parentDir p := h.one _ _ _ hold (hed ▸ hd)
      refine ⟨A ++ B, hed ▸ hlist, fun w => ?_⟩
      have hwv : w ∈ A ++ B ↔ w ≠ v ∧ w ∈ A ++ v :: B := by
        have hv : v ∉ A ++ B := (List.nodup_cons.mp (List.nodup_middle.mp hl.nodup)).1
        constructor
        · intro hw
          refine ⟨fun x => hv (x ▸ hw), ?_⟩
          rw [List.mem_append, List.mem_cons]
          exact (List.mem_append.mp hw).imp_right .inr
        · rintro ⟨hne, hw⟩
          rw [List.mem_append, List.mem_cons] at hw
          exact List.mem_append.mpr (hw.imp_right fun x => x.resolve_left hne)
      rw [hwv, hmem]
      constructor
      · rintro ⟨hne, q, hq⟩
        exact ⟨q, (hstays q w).mpr ⟨fun x => hne (Option.some.inj ((x ▸ hq.2.2).symm.trans hp)), hq⟩⟩
      · rintro ⟨q, hq⟩
        obtain ⟨hqp, hq⟩ := (hstays q w).mp hq
        exact ⟨fun x => hqp (h.one q p v (x ▸ hq.2.2) hp), q, hq⟩
    · obtain ⟨l', hl', hmem'⟩ := h.lists dir e hold
      refine ⟨l', ?_, fun w => ?_⟩
      · rw [hchildren e hed]
        refine hl'.congr fun w hw => hsib w fun hw' => hed ?_
        obtain ⟨q, -, hqdir, hq⟩ := (hmem' w).mp hw
        obtain ⟨q', -, hqdir', hq'⟩ := (hmem w).mp hw'
        rw [← h.one q q' w hq hq', hqdir] at hqdir'
        rw [hqdir', hd] at hold
        exact (Option.some.inj hold).symm
      · rw [hmem']
        refine exists_congr fun q => ?_
        rw [hstays]
        refine ⟨fun hq => ⟨?_, hq⟩, fun hq => hq.2⟩
        rintro rfl
        rw [hq.2.1, hold] at hd
        exact hed (Option.some.inj hd)

end Steps

/-! ## Runs -/

/-- What happens to the name space: a file system sets up a vnode, and the calls. -/
inductive VfsCall where
  | prepare (i : ℕ) (name : PathName)
  | register (cwd : Option CwdNode) (path : PathName) (vp : VnodeRef)
  | unregister (cwd : Option CwdNode) (path : PathName)
  | rename (cwd : Option CwdNode) (old new : PathName)

/-- A vnode is set up only while it is not registered, and a call takes effect when it returns. -/
inductive VfsStep (s : Vfs) : VfsCall → Vfs → Prop where
  | prepare (i : ℕ) (name : PathName) (h : ∀ p, lookupExact s.registry p ≠ some (.other i)) :
      VfsStep s (.prepare i name) (s.setVnode (.other i) ⟨name, none, none, none⟩)
  | register {cwd : Option CwdNode} {path : PathName} {vp : VnodeRef} {r : Bool × Vfs} (fuel : ℕ)
      (h : vfsRegister cwd fuel s path vp = some r) : VfsStep s (.register cwd path vp) r.2
  | unregister {cwd : Option CwdNode} {path : PathName} {r : Bool × Vfs} (fuel : ℕ)
      (h : vfsUnregister cwd fuel s path = some r) : VfsStep s (.unregister cwd path) r.2
  | rename {cwd : Option CwdNode} {old new : PathName} {r : Bool × Vfs} (fuel : ℕ)
      (h : vfsRenameNode cwd fuel s old new = some r) : VfsStep s (.rename cwd old new) r.2

inductive VfsRun (C : Vfs → VfsCall → Prop) : Vfs → Prop where
  | start : VfsRun C vfsBoot
  | step {s s' : Vfs} (call : VfsCall) (h : VfsRun C s) (hC : C s call) (hstep : VfsStep s call s') :
      VfsRun C s'

/-- Listing a directory gives the vnodes whose registered path has it as parent, each once. -/
def ListsRegistered (s : Vfs) : Prop :=
  ∀ dir d, lookupExact s.registry dir = some d → ∃ l : List VnodeRef, l.Nodup ∧
    (∀ n cap, (vfsReaddirFlat s d n cap).map Prod.snd = l[n]?) ∧
    ∀ v, v ∈ l ↔ ∃ p, p ≠ ['/'] ∧ parentDir p = dir ∧ lookupExact s.registry p = some v

/-- What a registration needs: a new path without empty segments and a new vnode with its name, missing
directories that have 8.3 names, and room for them. -/
structure Registrable (cwd : Option CwdNode) (s : Vfs) (p : PathName) (vp : VnodeRef) : Prop where
  proper : Proper p
  settled : SettledPath cwd p
  new : lookupExact s.registry p = none
  fresh : ∀ q, lookupExact s.registry q ≠ some vp
  other : ∀ i, vp ≠ .rootfs i
  name : (s.vnode vp).name = baseName p
  leaf : (s.vnode vp).children = none
  short : ∀ q, DirAbove p q → lookupExact s.registry q = none → vfsPathTo83 q = q
  count : s.rootfsCount + p.length ≤ rootfsMaxVnodes
  room : Room s.registry p.length

/-- **Orderly calls**: what is registered can be, what is removed has nothing below it, and nothing is
renamed. -/
def Orderly (s : Vfs) : VfsCall → Prop
  | .prepare _ _ => True
  | .register cwd path vp => Registrable cwd s (vfsNormalizePath cwd path) vp
  | .unregister cwd path => lookupExact s.registry (vfsNormalizePath cwd path) ≠ none →
      vfsNormalizePath cwd path ≠ ['/'] ∧ ∀ q w, lookupExact s.registry q = some w → q ≠ ['/'] →
        parentDir q ≠ vfsNormalizePath cwd path
  | .rename cwd old _ => vfsLookup cwd s (vfsNormalizePath cwd old) = none

section Runs

variable {s s' : Vfs} {m : PathName → Option VnodeRef}

lemma length_vfsNormalizePath (cwd : Option CwdNode) (path : PathName) :
    (vfsNormalizePath cwd path).length < pathMax := by
  refine Nat.lt_of_le_of_lt (List.length_take_le _ _) ?_
  decide

lemma nthSibling_eq {hd : Option VnodeRef} {l : List VnodeRef} (hl : Chain s.sibling hd l) (n : ℕ) :
    nthSibling s n hd = l[n]? := by
  induction l generalizing hd n with
  | nil =>
    rw [chain_nil.mp hl]
    cases n with
    | zero => rfl
    | succ n => rfl
  | cons c l ih =>
    obtain ⟨rfl, htail⟩ := chain_cons.mp hl
    cases n with
    | zero => rfl
    | succ n => exact ih htail n

/-- **The invariant gives the listing.** -/
lemma Listed.listsRegistered (h : Listed s m) : ListsRegistered s := by
  intro dir d hd
  rw [h.lookup] at hd
  obtain ⟨l, hl, hmem⟩ := h.lists dir d hd
  refine ⟨l, hl.nodup, fun n cap => ?_, fun v => ?_⟩
  · rw [vfsReaddirFlat, Option.map_map, ← nthSibling_eq hl]
    exact Option.map_id' ..
  · rw [hmem]
    simp only [h.lookup]

lemma listed_boot : Listed vfsBoot (update (fun _ => none) ['/'] (some .root)) := by
  have honly : ∀ {p v}, update (fun _ => none) ['/'] (some VnodeRef.root) p = some v → p = ['/'] ∧ v = .root := by
    intro p v hp
    by_cases hroot : p = ['/']
    · rw [hroot, update_self] at hp
      exact ⟨hroot, (Option.some.inj hp).symm⟩
    · rw [update_of_ne hroot] at hp
      cases hp
  refine ⟨?_, update_self _ _ _, fun p v hp hroot => absurd (honly hp).1 hroot,
    fun p v hp hroot => absurd (honly hp).1 hroot, fun p q v hp hq => ?_, fun dir d hd => ?_,
    fun i p _ hp => nomatch (honly hp).2⟩
  · refine RegistryRun.start.register ['/'] .root ?_
    rfl
  · rw [(honly hp).1, (honly hq).1]
  · refine ⟨[], rfl, fun v => ⟨nofun, ?_⟩⟩
    rintro ⟨p, hroot, -, hp⟩
    exact absurd (honly hp).1 hroot

variable {cwd : Option CwdNode} {fuel : ℕ} {path p : PathName} {r : Bool × Vfs} {v : VnodeRef}

lemma Listed.vfsRegister {vp : VnodeRef}
    (h : Listed s m) (hC : Registrable cwd s (vfsNormalizePath cwd path) vp)
    (hr : vfsRegister cwd fuel s path vp = some r) : ∃ m', Listed r.2 m' := by
  cases fuel with
  | zero => cases hr
  | succ fuel =>
    have hlen := length_vfsNormalizePath cwd path
    have hroot : vfsNormalizePath cwd path ≠ ['/'] := fun e => not_proper_root (e ▸ hC.proper)
    rw [Chimera.vfsRegister, if_neg hroot] at hr
    generalize vfsNormalizePath cwd path = p at hC hr hlen hroot
    obtain ⟨s1, hdirs, hr⟩ := Option.bind_eq_some_iff.mp hr
    obtain ⟨s2, hlink, hr⟩ := Option.bind_eq_some_iff.mp hr
    cases hr
    obtain ⟨tail, hp⟩ := hC.proper.head
    have hpos : 1 ≤ p.length := by
      rw [hp, List.length_cons]
      omega
    have hcount := hC.count
    have hstart : MakingDirs p vp 1 s m := by
      refine ⟨h, fun i hi hlt => absurd hi (Nat.not_le_of_lt hlt), fun q hq hnone => ?_, ?_, fun q => ?_,
        by omega, hC.room.mono (by omega)⟩
      · exact hC.short q hq ((h.lookup q).trans hnone)
      · rw [← h.lookup]
        exact hC.new
      · rw [← h.lookup]
        exact hC.fresh q
    rw [vfsEnsureParentDirs, if_pos ⟨hp ▸ rfl, hlen⟩] at hdirs
    obtain ⟨m1, h1, hvnode⟩ := hstart.loop hC.proper hC.settled hlen le_rfl (by omega) hC.other hdirs
    have habove : ∀ q, DirAbove p q → m1 q ≠ none := by
      rintro q ⟨i, hi, hlt, hslash, rfl⟩
      exact h1.before i hi hlt hslash
    have hroom : Room s1.registry (0 + 1) := h1.room.mono (by omega)
    exact ⟨_, (h1.listed.enter hC.proper hC.settled habove h1.new h1.fresh (fun i _ => hC.other i)
      (hvnode ▸ hC.name) (hvnode ▸ hC.leaf) hroom hlink).2.1⟩

lemma registryRemove_eq {t : RegistryTable} {i : ℕ} (h : registryFind t p = some (i, v)) :
    registryRemove t p = some (update t i .cleared) := by
  rw [registryRemove, Probing.remove]
  rw [registryFind] at h
  rw [h]
  rfl

lemma Listed.vfsUnregister (h : Listed s m) (hC : Orderly s (.unregister cwd path))
    (hr : vfsUnregister cwd fuel s path = some r) : ∃ m', Listed r.2 m' := by
  rw [Chimera.vfsUnregister] at hr
  cases hfind : registryFind s.registry (vfsNormalizePath cwd path) with
  | none =>
    rw [hfind] at hr
    cases hr
    exact ⟨m, h⟩
  | some iv =>
    rw [hfind] at hr
    obtain ⟨s', hs', rfl⟩ := Option.map_eq_some_iff.mp hr
    have hlookup : lookupExact s.registry (vfsNormalizePath cwd path) = some iv.2 := by
      rw [lookupExact, hfind]
      rfl
    obtain ⟨hroot, hleaf⟩ := hC (hlookup.trans_ne nofun)
    refine ⟨_, h.unregister ((h.lookup _).symm.trans hlookup) hroot (fun q w hq => ?_)
      (registryRemove_eq hfind) hs'⟩
    exact hleaf q w ((h.lookup q).trans hq)

lemma Listed.step {call : VfsCall} (h : Listed s m) (hC : Orderly s call) (hstep : VfsStep s call s') :
    ∃ m', Listed s' m' := by
  cases hstep with
  | prepare i name hfree =>
    refine ⟨m, h.setUnregistered (fun p => ?_) _ le_rfl⟩
    rw [← h.lookup]
    exact hfree p
  | register fuel hr => exact h.vfsRegister hC hr
  | unregister fuel hr => exact h.vfsUnregister hC hr
  | rename fuel hr =>
    rw [vfsRenameNode] at hr
    rw [show vfsLookup _ s _ = none from hC] at hr
    cases hr
    exact ⟨m, h⟩

lemma VfsRun.listed (h : VfsRun Orderly s) : ∃ m, Listed s m := by
  induction h with
  | start => exact ⟨_, listed_boot⟩
  | step call _ hC hstep ih =>
    obtain ⟨m, hm⟩ := ih
    exact hm.step hC hstep

/-! ## Renaming -/

/-- Two different paths that are found under their own names, the old one in 8.3 form. -/
def RenamesApart (cwd : Option CwdNode) (old new : PathName) : Prop :=
  vfsNormalizePath cwd old = old ∧ vfsNormalizePath cwd new = new ∧ old ≠ new ∧ vfsPathTo83 old = old

lemma vfsLookup_eq_lookupExact (hself : vfsNormalizePath cwd p = p)
    (h83 : vfsPathTo83 p = p) : vfsLookup cwd s p = lookupExact s.registry p := by
  rw [vfsLookup, hself]
  cases lookupExact s.registry p with
  | some v => rfl
  | none => rw [if_pos h83.symm]

lemma unlinkChild_registry (h : unlinkChild fuel s v = some s') : s'.registry = s.registry := by
  have hsibling : ∀ fuel hd s1, unlinkSibling s v fuel hd = some s1 → s1.registry = s.registry := by
    intro fuel hd s1 h
    induction fuel generalizing hd with
    | zero =>
      cases hd with
      | none => rw [← Option.some.inj h]
      | some c => cases h
    | succ fuel ih =>
      cases hd with
      | none => rw [← Option.some.inj h]
      | some c =>
        rw [unlinkSibling] at h
        split at h
        · rw [← Option.some.inj h]
        · split_ifs at h
          · rw [← Option.some.inj h]
            rfl
          · exact ih _ h
  rw [unlinkChild] at h
  split at h
  · rw [← Option.some.inj h]
  · obtain ⟨s1, h1, rfl⟩ := Option.map_eq_some_iff.mp h
    rw [unlinkFrom] at h1
    split_ifs at h1
    · rw [← Option.some.inj h1]
      rfl
    · exact hsibling _ _ s1 h1

/-- **A rename moves the name** from the old path to the new one. -/
lemma vfsRenameNode_resolves {old new : PathName} (hs : Registered s)
    (hapart : RenamesApart cwd old new) (h : vfsRenameNode cwd fuel s old new = some (true, s')) :
    ∃ vp, vfsLookup cwd s old = some vp ∧ vfsLookup cwd s' new = some vp ∧ vfsLookup cwd s' old = none := by
  obtain ⟨hold, hnew, hne, h83⟩ := hapart
  rw [vfsRenameNode, hold, hnew] at h
  cases hvp : vfsLookup cwd s old with
  | none =>
    rw [hvp] at h
    cases h
  | some vp =>
    rw [hvp] at h
    obtain ⟨⟨ok, s1⟩, hreg, h⟩ := Option.bind_eq_some_iff.mp h
    dsimp only at h
    split_ifs at h with hok
    · obtain ⟨⟨b, s2⟩, hunreg, h⟩ := Option.bind_eq_some_iff.mp h
      obtain rfl := (Prod.mk.inj (Option.some.inj h)).2
      obtain ⟨s0, ⟨latest, hrun⟩, hentry⟩ := vfsRegister_registered hs hreg
      rw [hnew, registerEntry] at hentry
      have hins : registryInsert s0.registry new vp = some s1.registry := by
        cases hins : registryInsert s0.registry new vp with
        | none =>
          rw [hins] at hentry
          exact absurd ((Prod.mk.inj hentry).1.symm.trans hok) (by decide)
        | some t =>
          rw [hins] at hentry
          rw [(Prod.mk.inj hentry).2]
      have hrun1 := hrun.register new vp hins
      have hlookup : ∀ {t latest}, RegistryRun t latest → ∀ p, lookupExact t p = latest p :=
        fun hrun p => find_eq registrySize_pos hrun.inv.1 hrun.inv.2 p
      -- the table without the old path
      have hgone : ∃ latest', RegistryRun s2.registry latest' ∧ latest' old = none ∧ latest' new = some vp := by
        rw [Chimera.vfsUnregister, hold] at hunreg
        have hat : update latest new (some vp) new = some vp := update_self _ _ _
        cases hfind : registryFind s1.registry old with
        | none =>
          rw [hfind] at hunreg
          obtain rfl := (Prod.mk.inj (Option.some.inj hunreg)).2
          refine ⟨_, hrun1, ?_, hat⟩
          rw [← hlookup hrun1, lookupExact, hfind]
          rfl
        | some iv =>
          rw [hfind] at hunreg
          obtain ⟨s3, hs3, hpair⟩ := Option.map_eq_some_iff.mp hunreg
          obtain rfl := (Prod.mk.inj hpair).2
          refine ⟨_, ?_, update_self _ _ _, (update_of_ne hne.symm _ _).trans hat⟩
          rw [unlinkChild_registry hs3]
          exact hrun1.unregister old (registryRemove_eq hfind)
      obtain ⟨latest', hrun', hgone, hthere⟩ := hgone
      refine ⟨vp, rfl, ?_, ?_⟩
      · rw [vfsLookup, hnew]
        dsimp only [Vfs.setVnode]
        rw [hlookup hrun', hthere]
      · rw [vfsLookup_eq_lookupExact hold h83]
        exact (hlookup hrun' old).trans hgone
    · cases h

end Runs

/-- **Directory listings are consistent** in every run of orderly calls, and a rename from there, between
different paths in 8.3 form, moves the name. -/
theorem directory_listing_consistent (s : Vfs) (h : VfsRun Orderly s) : ListsRegistered s ∧
    ∀ cwd fuel old new s', RenamesApart cwd old new → vfsRenameNode cwd fuel s old new = some (true, s') →
      ∃ vp, vfsLookup cwd s old = some vp ∧ vfsLookup cwd s' new = some vp ∧ vfsLookup cwd s' old = none := by
  obtain ⟨m, hm⟩ := h.listed
  exact ⟨hm.listsRegistered, fun cwd fuel old new s' => vfsRenameNode_resolves ⟨m, hm.table⟩⟩

/-- A file system sets up a vnode with the name `a`. -/
def preparedVfs : Vfs := vfsBoot.setVnode (.other 0) ⟨['a'], none, none, none⟩

/-- It is registered in the root directory. -/
def oneFileVfs : Vfs := ((vfsRegister none 4 preparedVfs "/a".toList (.other 0)).getD (false, vfsBoot)).2

lemma oneFileVfs_eq : vfsRegister none 4 preparedVfs "/a".toList (.other 0) = some (true, oneFileVfs) := rfl

lemma boot_not_other (p : PathName) (i : ℕ) : lookupExact vfsBoot.registry p ≠ some (.other i) := by
  rw [listed_boot.lookup]
  by_cases hroot : p = ['/']
  · rw [hroot, update_self]
    exact nofun
  · rw [update_of_ne hroot]
    exact nofun

lemma registrable_a : Registrable none preparedVfs "/a".toList (.other 0) := by
  have hnone : ∀ q, ¬DirAbove "/a".toList q := by
    rintro q ⟨i, hi, hlt, hslash, -⟩
    obtain rfl : i = 1 := Nat.le_antisymm (Nat.le_of_lt_succ hlt) hi
    cases hslash
  refine ⟨by decide, fun q hq => absurd hq (hnone q), rfl, fun q => boot_not_other q 0, nofun, rfl, rfl,
    fun q hq => absurd hq (hnone q), by decide, Finset.range 2, le_rfl, fun i hi => ?_⟩
  have hlt : i < 2 := Finset.mem_range.mp hi
  have hhome : i ≠ (vfsHash ['/']).toNat % registrySize := by
    rintro rfl
    exact absurd hlt (by decide)
  refine ⟨hlt.trans (by decide), ?_⟩
  have hboot : preparedVfs.registry = update (fun _ => .unused)
      ((vfsHash ['/']).toNat % registrySize) (.used ['/'] .root) := rfl
  rw [hboot, update_of_ne hhome]

theorem directory_listing_consistent_file : VfsRun Orderly oneFileVfs ∧ ListsRegistered oneFileVfs := by
  have hprepared : VfsRun Orderly preparedVfs :=
    .step (.prepare 0 ['a']) .start trivial (.prepare 0 ['a'] fun p => boot_not_other p 0)
  have hone : VfsRun Orderly oneFileVfs :=
    .step (.register none "/a".toList (.other 0)) hprepared registrable_a (.register 4 oneFileVfs_eq)
  exact ⟨hone, (directory_listing_consistent oneFileVfs hone).1⟩

/-- It is renamed to `b`. -/
def renamedVfs : Vfs :=
  ((vfsRenameNode none 4 oneFileVfs "/a".toList "/b".toList).getD (false, vfsBoot)).2

/-- After the rename the file is registered, and the root directory lists nothing. -/
theorem renamed_file_not_listed : VfsRun (fun _ _ => True) renamedVfs ∧
      lookupExact renamedVfs.registry "/b".toList = some (.other 0) ∧ ¬ListsRegistered renamedVfs := by
  have hprepared : VfsRun (fun _ _ => True) preparedVfs :=
    .step (.prepare 0 ['a']) .start trivial (.prepare 0 ['a'] fun p => boot_not_other p 0)
  have hone : VfsRun (fun _ _ => True) oneFileVfs :=
    .step (.register none "/a".toList (.other 0)) hprepared trivial (.register 4 oneFileVfs_eq)
  have hrename : vfsRenameNode none 4 oneFileVfs "/a".toList "/b".toList = some (true, renamedVfs) := rfl
  refine ⟨.step (.rename none "/a".toList "/b".toList) hone trivial (.rename 4 hrename), rfl, fun h => ?_⟩
  obtain ⟨l, -, hl, hmem⟩ := h ['/'] .root rfl
  have hin : VnodeRef.other 0 ∈ l := (hmem _).mpr ⟨"/b".toList, by decide, by decide, rfl⟩
  have hempty : l[0]? = none := (hl 0 256).symm
  rw [List.getElem?_eq_none_iff, Nat.le_zero, List.length_eq_zero_iff] at hempty
  rw [hempty] at hin
  cases hin

end Chimera
