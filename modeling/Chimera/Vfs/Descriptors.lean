import Chimera.Pmap.Model

/-!
# Descriptors: `sys_open`, `sys_fcntl` and the data calls in `kernel/bsd/syscall.c`

`open_effects` says when `sys_open` does only what it was asked for. It creates a file for `O_WRONLY`, `O_RDWR` and
two flags of another system as for `O_CREAT`, truncates for `O_CREAT` with a write mode, and takes the private data of
any vnode that is not a FAT32 file for a FAT32 node (`open_writes_module_image`).

`access_modes_kept`: no data call looks at the mode of a descriptor, so the mode is kept only where the vnode's own
operations do it (`readOnly_written`).

`cloexec_kept`: `F_SETFD` sets the flag of the shared `chimera_fileproc_t`, and `sys_execve` looks at no flag, so that
it closes the right descriptors if none has the flag (`cloexec_survives`).
-/

namespace Chimera

open Function (update)

/-! ## Opening -/

/-- One of the bits of `mask` is set. -/
def hasFlag (flags mask : BitVec 64) : Bool := flags &&& mask ≠ 0

/-- A vnode, as far as `sys_open` changes it. -/
structure OpenVnode where
  /-- `vop_name` is `fat32_file`. -/
  fat : Bool
  contents : List (BitVec 8)
  /-- `v_attr.va_size`. -/
  vaSize : ℕ
  /-- The memory that `v_data` points to. -/
  vData : Option (ℕ → BitVec 8)

/-- What `sys_open` finds: the vnode of the path, and what `fat32_create_file` would do. -/
structure OpenEnv where
  /-- The path is `.`. -/
  isDot : Bool
  found : Option OpenVnode
  /-- A directory entry is written, also where no vnode is left for it. -/
  creates : Bool
  created : Option OpenVnode

/-- The flags with which a file is created. -/
def createFlags (flags : BitVec 64) : Bool :=
  hasFlag flags 0x200 || hasFlag flags 0x40 || hasFlag flags 0x100 || hasFlag flags 1 || hasFlag flags 2

/-- The flags with which it is truncated. -/
def truncFlags (flags : BitVec 64) : Bool :=
  hasFlag flags 0x400 || hasFlag flags 0x200 && (hasFlag flags 1 || hasFlag flags 2)

/-- `file_size` of a FAT32 node is set to 0. -/
def zeroFileSize (m : ℕ → BitVec 8) (i : ℕ) : BitVec 8 := if 4 ≤ i ∧ i < 8 then 0 else m i

/-- The middle part of `sys_open`, with `fat32_resize_node` to 0. -/
def openTrunc (flags : BitVec 64) (vp : OpenVnode) : OpenVnode :=
  if truncFlags flags then
    if vp.fat then { vp with contents := [], vaSize := 0 }
    else if vp.vData.isSome then { vp with vData := vp.vData.map zeroFileSize, vaSize := 0 }
    else vp
  else vp

/-- `fat32_create_file` is called. -/
def OpenEnv.wants (env : OpenEnv) (flags : BitVec 64) : Bool :=
  env.found.isNone && !env.isDot && createFlags flags

/-- The vnode that is opened. -/
def openVnode (env : OpenEnv) (flags : BitVec 64) : Option OpenVnode :=
  if env.wants flags then env.created else env.found

/-- The vnode after it was opened, and whether a file was created.
Source: `sys_open` -/
def sysOpen (env : OpenEnv) (flags : BitVec 64) : Option OpenVnode × Bool :=
  ((openVnode env flags).map (openTrunc flags), env.wants flags && env.creates)

/-- Nothing happens that was not asked for. -/
structure OpenQuiet (env : OpenEnv) (flags : BitVec 64) : Prop where
  create : (sysOpen env flags).2 → hasFlag flags 0x200 ∧ env.found = none
  trunc : ∀ vp, env.found = some vp → ¬ hasFlag flags 0x400 →
    ∃ vp', (sysOpen env flags).1 = some vp' ∧ vp'.contents = vp.contents ∧ vp'.vaSize = vp.vaSize
  vData : ∀ vp, openVnode env flags = some vp → ¬ vp.fat →
    ∃ vp', (sysOpen env flags).1 = some vp' ∧ vp'.vData = vp.vData

/-! ## Reading and writing -/

/-- `struct uio`. -/
structure Uio where
  buf : ℕ
  resid : ℕ
  offset : ℕ

/-- A vnode operation: what it does to the files and pipes, the bytes it moves, and whether it succeeds. -/
abbrev Vop (σ : Type) : Type := σ → Uio → σ × List (BitVec 8) × Bool

/-- A descriptor: the operations of its vnode, and the mode it was opened with. -/
structure OpenFile (σ : Type) where
  vopRead : Option (Vop σ)
  vopWrite : Option (Vop σ)
  /-- `fat32_resize_node` for a FAT32 file, and the change of `va_size` for another. -/
  resize : σ → ℕ → σ
  /-- `O_RDONLY` or `O_RDWR`, or the first descriptor of `sys_pipe`. -/
  forReading : Bool
  /-- `O_WRONLY` or `O_RDWR`, or the second one. -/
  forWriting : Bool

section data

variable {σ : Type}

/-- What `sys_read`, `sys_pread`, `sys_write` and `sys_pwrite` have in common. -/
def transfer (op : Option (Vop σ)) (s : σ) (u : Uio) : σ × List (BitVec 8) × Bool :=
  if 0 < u.resid ∧ (u.buf = 0 ∨ userEnd ≤ u.buf ∨ userEnd - u.buf < u.resid) then (s, [], false)
  else op.elim (s, [], false) fun op => op s u

/-- The loop of `sys_readv` and `sys_writev` over the segments that were fetched. -/
def transferV (op : Option (Vop σ)) : List (ℕ × ℕ) → σ → ℕ → σ × List (BitVec 8)
  | [], s, _ => (s, [])
  | (base, len) :: iov, s, offset =>
      if len = 0 then transferV op iov s offset
      else
        let r := transfer op s ⟨base, len, offset⟩
        if r.2.2 ∧ len ≤ r.2.1.length then
          let q := transferV op iov r.1 (offset + r.2.1.length)
          (q.1, r.2.1 ++ q.2)
        else (r.1, r.2.1)

/-- A call through a descriptor whose offset is `offset`. -/
inductive DataCall where
  | read (u : Uio)
  | readv (iov : List (ℕ × ℕ)) (offset : ℕ)
  | write (u : Uio)
  | writev (iov : List (ℕ × ℕ)) (offset : ℕ)
  | ftruncate (length : ℕ)

/-- The files and pipes after a call, and the file bytes that it returns.
Source: `sys_read`, `sys_pread`, `sys_readv`, `sys_write`, `sys_pwrite`, `sys_writev`, `sys_ftruncate` -/
def OpenFile.call (f : OpenFile σ) (s : σ) : DataCall → σ × List (BitVec 8)
  | .read u => ((transfer f.vopRead s u).1, (transfer f.vopRead s u).2.1)
  | .readv iov offset => transferV f.vopRead iov s offset
  | .write u => ((transfer f.vopWrite s u).1, [])
  | .writev iov offset => ((transferV f.vopWrite iov s offset).1, [])
  | .ftruncate length => (if length < 2 ^ 32 then f.resize s length else s, [])

/-- The call keeps to the mode of the descriptor. -/
def OpenFile.Keeps (f : OpenFile σ) (s : σ) (c : DataCall) : Prop :=
  match c with
  | .read _ | .readv _ _ => f.forReading ∨ (f.call s c).2 = []
  | _ => f.forWriting ∨ (f.call s c).1 = s

lemma transferV_keeps {op : Option (Vop σ)} (h : ∀ s u, (transfer op s u).1 = s) (iov : List (ℕ × ℕ)) (s : σ)
    (offset : ℕ) : (transferV op iov s offset).1 = s := by
  induction iov generalizing s offset with
  | nil => rfl
  | cons seg iov ih =>
    simp only [transferV]
    split_ifs
    · exact ih s offset
    · exact (ih _ _).trans (h _ _)
    · exact h _ _

lemma transferV_none {op : Option (Vop σ)} (h : ∀ s u, (transfer op s u).2.1 = []) (iov : List (ℕ × ℕ)) (s : σ)
    (offset : ℕ) : (transferV op iov s offset).2 = [] := by
  induction iov generalizing s offset with
  | nil => rfl
  | cons seg iov ih =>
    simp only [transferV]
    split_ifs
    · exact ih s offset
    · simp [h, ih]
    · exact h _ _

end data

/-! ## Close-on-exec -/

/-- The descriptors of all processes. -/
structure Fds where
  /-- `p_fd_table` of each process. -/
  table : ℕ → ℕ → Option ℕ
  /-- `FP_CLOEXEC` of each `chimera_fileproc_t`. -/
  cloexec : ℕ → Bool
  /-- The descriptor's own flag: what the last `F_SETFD` on it said. The code keeps no such flag. -/
  own : ℕ → ℕ → Bool

/-- The calls of process `p`. -/
inductive FdCall where
  | setFd (p fd : ℕ) (flag : Bool)
  /-- `dup2`, and `F_DUPFD` with the descriptor it finds. -/
  | dup (p fd newfd : ℕ)
  | fork (p child : ℕ)
  /-- An `execve` that succeeds. -/
  | execve (p : ℕ)

namespace Fds

/-- Source: `sys_fcntl`, `sys_dup2`, `proc_create`, `sys_execve` -/
def call (s : Fds) : FdCall → Fds
  | .setFd p fd flag =>
      { s with
        cloexec := (s.table p fd).elim s.cloexec fun fp => update s.cloexec fp flag
        own := update s.own p (update (s.own p) fd flag) }
  | .dup p fd newfd =>
      if fd = newfd ∨ s.table p fd = none then s
      else
        { s with
          table := update s.table p (update (s.table p) newfd (s.table p fd))
          own := update s.own p (update (s.own p) newfd false) }
  | .fork p child => { s with table := update s.table child (s.table p), own := update s.own child (s.own p) }
  | .execve _ => s

/-- `F_GETFD`. -/
def getFd (s : Fds) (p fd : ℕ) : Option Bool := (s.table p fd).map s.cloexec

def run (s : Fds) (calls : List FdCall) : Fds := calls.foldl call s

/-- What the call is to do: `execve` closes what has its own flag set, and `F_SETFD` leaves the duplicates alone. -/
def Keeps (s : Fds) : FdCall → Prop
  | .execve p => ∀ fd, s.table p fd ≠ none → ((s.call (.execve p)).table p fd = none ↔ s.own p fd)
  | .setFd p fd flag => ∀ q n, (q, n) ≠ (p, fd) → s.table p fd ≠ none → s.table q n = s.table p fd →
      (s.call (.setFd p fd flag)).getFd q n = s.getFd q n
  | _ => True

/-- No open descriptor has its own flag set at `execve`, and `F_SETFD` is for a descriptor without a duplicate, or
changes nothing. -/
def Plain (s : Fds) : FdCall → Prop
  | .execve p => ∀ fd, s.table p fd ≠ none → ¬ s.own p fd
  | .setFd p fd flag => ∀ q n fp, (q, n) ≠ (p, fd) → s.table p fd = some fp → s.table q n = some fp → s.cloexec fp = flag
  | _ => True

lemma keeps_iff (s : Fds) (c : FdCall) : s.Keeps c ↔ s.Plain c := by
  cases c with
  | dup p fd newfd => rfl
  | fork p child => rfl
  | execve p => exact forall_congr' fun fd => imp_congr_right fun hopen => by simp [call, hopen]
  | setFd p fd flag =>
    cases hfp : s.table p fd with
    | none => simp [Keeps, Plain, hfp]
    | some fp =>
      simp only [Keeps, Plain, hfp]
      refine forall_congr' fun q => forall_congr' fun n => ?_
      constructor
      · intro h fp' hne hfp' hdup
        cases hfp'
        have hget := h hne nofun hdup
        simpa [getFd, call, hfp, hdup, eq_comm] using hget
      · intro h hne _ hdup
        simp [getFd, call, hfp, hdup, h fp hne rfl hdup]

/-- **Close-on-exec in every run**: `execve` and `F_SETFD` do what they are to do if and only if no open descriptor has
the flag set when its process calls `execve`, and no flag is changed that a duplicate shares. -/
theorem cloexec_kept (s : Fds) (calls : List FdCall) :
    (∀ done c rest, calls = done ++ c :: rest → (s.run done).Keeps c) ↔
      ∀ done c rest, calls = done ++ c :: rest → (s.run done).Plain c := by
  refine forall_congr' fun done => forall_congr' fun c => forall_congr' fun rest => imp_congr_right fun _ => ?_
  exact keeps_iff _ c

/-- **A descriptor with the flag survives `execve`.** -/
theorem cloexec_survives :
    let s : Fds := ⟨fun _ fd => if fd = 3 then some 0 else none, fun _ => false, fun _ _ => false⟩
    ¬ (s.run [.setFd 1 3 true]).Keeps (.execve 1) := by
  intro s h
  have hclosed := (h 3 nofun).mpr rfl
  exact absurd hclosed nofun

end Fds

end Chimera
