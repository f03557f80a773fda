import Mathlib.Data.UInt
import Chimera.Lib.Probing
import Chimera.Vfs.Path

/-!
# The name space

All vnodes are found through one table, `s_registry`, from the normalised path to the vnode. A directory
lists its entries through `v_children` and `v_sibling_next`. `vfs_register` makes the missing directories
above a path, links the vnode to its directory and enters it in the table; `vfs_unregister` takes it out of
both; `vfs_rename_node` is the one after the other.

A loop over a list of siblings need not end, and `vfs_register` calls itself: the functions have a bound on
that, and return `none` when it is used up.
-/

namespace Chimera

open Lib

/-- A vnode: that of the root directory, one of `s_rootfs_vnodes`, or one that a file system has made. -/
inductive VnodeRef where
  | root
  | rootfs (i : ℕ)
  | other (i : ℕ)
  deriving DecidableEq, Repr

/-- What the name space uses of a vnode. -/
structure VnodeLinks where
  name : PathName
  parent : Option VnodeRef
  children : Option VnodeRef
  siblingNext : Option VnodeRef
  deriving DecidableEq, Repr

structure Vfs where
  registry : ℕ → Slotted PathName VnodeRef
  vnode : VnodeRef → VnodeLinks
  rootfsCount : ℕ

namespace Vfs

def setVnode (s : Vfs) (v : VnodeRef) (x : VnodeLinks) : Vfs :=
  { s with vnode := Function.update s.vnode v x }

end Vfs

/-! ## The table -/

def registrySize : ℕ := 16384

def vfsHash (path : PathName) : UInt32 :=
  path.foldl (fun h c => ((h <<< 5) + h) ^^^ c.toNat.toUInt8.toUInt32) 5381

/-- The slots: a path whose first character is the terminator, the tombstone, or anything else. -/
abbrev RegistryTable := ℕ → Slotted PathName VnodeRef

def registryFind (t : RegistryTable) (path : PathName) : Option (ℕ × VnodeRef) :=
  Probing.find registrySize (fun p => (vfsHash p).toNat) t path

def registryInsert (t : RegistryTable) (path : PathName) (vp : VnodeRef) : Option RegistryTable :=
  Probing.insert registrySize (fun p => (vfsHash p).toNat) t path vp

def registryRemove (t : RegistryTable) (path : PathName) : Option RegistryTable :=
  Probing.remove registrySize (fun p => (vfsHash p).toNat) t path

/-- The search for one string. -/
def lookupExact (t : RegistryTable) (path : PathName) : Option VnodeRef := (registryFind t path).map Prod.snd

/-! ## Lookup -/

/-- A segment in 8.3 form: eight characters up to the first dot, three after it, in small letters. -/
def seg83 (seg : PathName) : PathName :=
  ((seg.takeWhile (· ≠ '.')).take 8).map lowerChar ++
    match seg.dropWhile (· ≠ '.') with
    | [] => []
    | _ :: ext => '.' :: (ext.take 3).map lowerChar

def path83From (cur : PathName) : PathName → PathName
  | [] => seg83 cur
  | c :: p => if c = '/' then seg83 cur ++ '/' :: path83From [] p else path83From (cur ++ [c]) p

def vfsPathTo83 (path : PathName) : PathName := (path83From [] path).take (pathMax - 1)

def vfsLookup (cwd : Option CwdNode) (s : Vfs) (path : PathName) : Option VnodeRef :=
  let norm := vfsNormalizePath cwd path
  match lookupExact s.registry norm with
  | some vp => some vp
  | none =>
      let path83 := vfsPathTo83 norm
      if norm = path83 then none else lookupExact s.registry path83

/-! ## Registration -/

def rootfsMaxVnodes : ℕ := 2048

/-- The next of `s_rootfs_vnodes` is set up. -/
def Vfs.takeRootfs (s : Vfs) (name : PathName) : Vfs :=
  { s.setVnode (.rootfs s.rootfsCount) ⟨name.take 255, none, none, none⟩ with
    rootfsCount := s.rootfsCount + 1 }

def vfsCreateDirVnode (name : PathName) (s : Vfs) : Option (VnodeRef × Vfs) :=
  if rootfsMaxVnodes ≤ s.rootfsCount then none else some (.rootfs s.rootfsCount, s.takeRootfs name)

/-- What stands after the last slash. -/
def baseName (path : PathName) : PathName := (path.reverse.takeWhile (· ≠ '/')).reverse

/-- What stands before the last slash, or the root directory. -/
def parentDir (path : PathName) : PathName :=
  match path.reverse.dropWhile (· ≠ '/') with
  | [] => path
  | _ :: above => if above = [] then ['/'] else above.reverse

/-- The loop of `vfs_ensure_parent_dirs`, at character `i`; `register` is `vfs_register`. -/
def ensureParentDir (cwd : Option CwdNode) (register : Vfs → PathName → VnodeRef → Option Vfs)
    (path : PathName) (s : Vfs) (i : ℕ) : Option Vfs :=
  if path[i]? = some '/' then
    match vfsLookup cwd s (path.take i) with
    | some _ => some s
    | none =>
        match vfsCreateDirVnode (baseName (path.take i)) s with
        | none => some s
        | some (dvp, s) => register s (path.take i) dvp
  else some s

def vfsEnsureParentDirs (cwd : Option CwdNode) (register : Vfs → PathName → VnodeRef → Option Vfs)
    (path : PathName) (s : Vfs) : Option Vfs :=
  if path.head? = some '/' ∧ path.length < pathMax then
    (List.range' 1 (path.length - 1)).foldlM (ensureParentDir cwd register path) s
  else some s

/-- Whether the directory already has the vnode, or one with its name. -/
def childFound (s : Vfs) (vp : VnodeRef) : ℕ → Option VnodeRef → Option Bool
  | _, none => some false
  | 0, some _ => none
  | fuel + 1, some c =>
      if c = vp ∨ (s.vnode c).name = (s.vnode vp).name then some true
      else childFound s vp fuel (s.vnode c).siblingNext

/-- Makes a vnode an entry of a directory. -/
def linkChild (fuel : ℕ) (s : Vfs) (dvp vp : VnodeRef) : Option Vfs :=
  let s := s.setVnode vp { s.vnode vp with parent := some dvp }
  match childFound s vp fuel (s.vnode dvp).children with
  | none => none
  | some true => some s
  | some false =>
      let s := s.setVnode vp { s.vnode vp with siblingNext := (s.vnode dvp).children }
      some (s.setVnode dvp { s.vnode dvp with children := some vp })

def linkParent (cwd : Option CwdNode) (fuel : ℕ) (s : Vfs) (norm : PathName) (vp : VnodeRef) : Option Vfs :=
  match vfsLookup cwd s (parentDir norm) with
  | none => some s
  | some dvp => if dvp = vp then some s else linkChild fuel s dvp vp

/-- The part under the lock: whether the path is now in the table, and the state. -/
def registerEntry (s : Vfs) (norm : PathName) (vp : VnodeRef) : Bool × Vfs :=
  match registryInsert s.registry norm vp with
  | some t => (true, { s with registry := t })
  | none => (false, s)

def vfsRegister (cwd : Option CwdNode) : ℕ → Vfs → PathName → VnodeRef → Option (Bool × Vfs)
  | 0, _, _, _ => none
  | fuel + 1, s, path, vp =>
      let norm := vfsNormalizePath cwd path
      if norm = ['/'] then some (registerEntry s norm vp)
      else do
        let s ← vfsEnsureParentDirs cwd (fun s p v => (vfsRegister cwd fuel s p v).map Prod.snd) norm s
        let s ← linkParent cwd fuel s norm vp
        return registerEntry s norm vp

/-! ## Removal and renaming -/

/-- Takes a vnode that is not the first out of a list of siblings. -/
def unlinkSibling (s : Vfs) (vp : VnodeRef) : ℕ → Option VnodeRef → Option Vfs
  | _, none => some s
  | 0, some _ => none
  | fuel + 1, some c =>
      match (s.vnode c).siblingNext with
      | none => some s
      | some d =>
          if d = vp then
            some (s.setVnode c { s.vnode c with siblingNext := (s.vnode vp).siblingNext })
          else unlinkSibling s vp fuel (some d)

/-- Takes a vnode out of the list of a directory. -/
def unlinkFrom (fuel : ℕ) (s : Vfs) (dvp vp : VnodeRef) : Option Vfs :=
  if (s.vnode dvp).children = some vp then
    some (s.setVnode dvp { s.vnode dvp with children := (s.vnode vp).siblingNext })
  else unlinkSibling s vp fuel (s.vnode dvp).children

def unlinkChild (fuel : ℕ) (s : Vfs) (vp : VnodeRef) : Option Vfs :=
  match (s.vnode vp).parent with
  | none => some s
  | some dvp =>
      (unlinkFrom fuel s dvp vp).map fun s =>
        s.setVnode vp { s.vnode vp with parent := none, siblingNext := none }

def vfsUnregister (cwd : Option CwdNode) (fuel : ℕ) (s : Vfs) (path : PathName) : Option (Bool × Vfs) :=
  let norm := vfsNormalizePath cwd path
  match registryFind s.registry norm with
  | none => some (false, s)
  | some (i, vp) =>
      (unlinkChild fuel { s with registry := Function.update s.registry i .cleared } vp).map (true, ·)

/-- The last segment, as `vfs_rename_node` finds it: a slash at the end is part of it. -/
def renamedBase (path : PathName) : PathName :=
  if path.getLast? = some '/' then baseName path.dropLast ++ ['/'] else baseName path

def vfsRenameNode (cwd : Option CwdNode) (fuel : ℕ) (s : Vfs) (old new : PathName) : Option (Bool × Vfs) :=
  let normOld := vfsNormalizePath cwd old
  let normNew := vfsNormalizePath cwd new
  match vfsLookup cwd s normOld with
  | none => some (false, s)
  | some vp => do
      let (ok, s) ← vfsRegister cwd fuel s normNew vp
      if ok then
        let (_, s) ← vfsUnregister cwd fuel s normOld
        return (true, s.setVnode vp { s.vnode vp with name := renamedBase normNew })
      else return (false, s)

/-- What `vfs_init` starts from: the root directory is registered. -/
def vfsBoot : Vfs where
  registry := Function.update (fun _ => .unused) ((vfsHash ['/']).toNat % registrySize) (.used ['/'] .root)
  vnode := fun v => ⟨if v = .root then ['/'] else [], none, none, none⟩
  rootfsCount := 0

/-! ## Listing -/

/-- The `n`-th entry of a list of siblings. -/
def nthSibling (s : Vfs) : ℕ → Option VnodeRef → Option VnodeRef
  | _, none => none
  | 0, some c => some c
  | n + 1, some c => nthSibling s n (s.vnode c).siblingNext

def vfsReaddirFlat (s : Vfs) (dvp : VnodeRef) (index : ℕ) (nameCap : ℕ) : Option (PathName × VnodeRef) :=
  (nthSibling s index (s.vnode dvp).children).map fun c => ((s.vnode c).name.take (nameCap - 1), c)

end Chimera
