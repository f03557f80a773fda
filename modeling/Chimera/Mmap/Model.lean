import Chimera.Exec.MachO

/-!
# The memory of a task

What a task of `kernel/bsd/syscall.c` maps, and the records it keeps of shared mappings.
-/

namespace Chimera

/-! ## State -/

/-- `CHIMERA_MMAP_KIND_*`. -/
inductive MmapKind where
  | shm
  | surface
  | fb
  deriving DecidableEq, Repr

/-- `chimera_mmap_record_t`, a live shared mapping. -/
structure MmapRecord where
  start : ℕ
  len : ℕ
  kind : MmapKind
  index : ℕ
  deriving DecidableEq, Repr

/-- The memory fields of `chimera_task_t`: `ta_vm_map`, `ta_mmap_next`, `ta_mmap_records`. -/
structure TaskVm where
  vmMap : ℕ
  mmapNext : ℕ
  mmapRecords : List MmapRecord
  deriving DecidableEq, Repr

end Chimera
