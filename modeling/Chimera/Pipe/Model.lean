import Chimera.Lib.Ring

/-!
# Pipes: `kernel/vfs/pipe.c`

A pipe is a ring of `PIPE_BUF_SIZE` bytes with a count of readers and of writers. A read or a write moves
one chunk of at most 256 bytes at a time; the lock is held for the length of a chunk. So a round of the
loop of `pipe_read_vop_read` or `pipe_write_vop_write` is one step here.

The lock, the wait queues and the vnodes are left out; a round that sleeps does nothing else.
-/

namespace Chimera

open Lib

/-- `PIPE_BUF_SIZE`. -/
def pipeBufSize : ℕ := 65536

/-- `sizeof(tmp)`: the largest chunk. -/
def pipeChunk : ℕ := 256

/-- `chimera_pipe_t`. -/
structure Pipe where
  buf : ℕ → BitVec 8
  /-- The write offset. -/
  head : ℕ
  /-- The read offset. -/
  tail : ℕ
  /-- The bytes in the buffer. -/
  count : ℕ
  readers : ℕ
  writers : ℕ
  active : Bool

/-- A slot of `s_pipes` as `pipe_create` sets it up; the bytes of its last life stay.
Source: `pipe_create` -/
def pipeInit (p : Pipe) : Pipe :=
  { p with head := 0, tail := 0, count := 0, readers := 1, writers := 1, active := true }

/-- How a round of a read ends. -/
inductive PipeRead where
  /-- The end of the file, or all that there was. -/
  | done
  | sleep
  | chunk (bytes : List (BitVec 8))
  deriving DecidableEq, Repr

/-- A round of the loop of a read that has `resid` bytes to go and has got `totalRead`.
Source: `pipe_read_vop_read` -/
def pipeReadRound (p : Pipe) (resid totalRead : ℕ) : PipeRead × Pipe :=
  if p.count = 0 then
    if p.writers = 0 ∨ 0 < totalRead then (.done, p) else (.sleep, p)
  else
    let toRead := min (min resid pipeChunk) p.count
    (.chunk (ringContents pipeBufSize p.buf p.tail toRead),
      { p with tail := (p.tail + toRead) % pipeBufSize, count := p.count - toRead })

/-- How a round of a write ends. -/
inductive PipeWrite where
  /-- `-EPIPE`. -/
  | broken
  | sleep
  | wrote (n : ℕ)
  deriving DecidableEq, Repr

/-- A round of the loop of a write that has the bytes `data` to go.
Source: `pipe_write_vop_write` -/
def pipeWriteRound (p : Pipe) (data : List (BitVec 8)) : PipeWrite × Pipe :=
  let tmp := data.take pipeChunk
  if p.readers = 0 then (.broken, p)
  else if pipeBufSize ≤ p.count then (.sleep, p)
  else
    let toWrite := min tmp.length (pipeBufSize - p.count)
    (.wrote toWrite, { p with
      buf := ringWrite pipeBufSize p.buf p.head (fun i => tmp.getD i 0) toWrite
      head := (p.head + toWrite) % pipeBufSize
      count := p.count + toWrite })

/-- Source: `pipe_read_vop_close` -/
def pipeReadClose (p : Pipe) : Pipe :=
  let readers := p.readers - 1
  { p with readers := readers, active := if readers = 0 ∧ p.writers = 0 then false else p.active }

/-- Source: `pipe_write_vop_close` -/
def pipeWriteClose (p : Pipe) : Pipe :=
  let writers := p.writers - 1
  { p with writers := writers, active := if p.readers = 0 ∧ writers = 0 then false else p.active }

end Chimera
