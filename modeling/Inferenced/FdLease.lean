import Mathlib.Algebra.Order.Ring.Nat

/-!
# Sealed memory files (crates/inferenced-core/src/fd_lease.rs)

`create_sealed_memfd` makes an anonymous file of the declared size, copies the
data into it in as many `write` calls as the kernel asks for, and seals it. The
answers of the kernel are an environment: a `write` may fail, and it may take
any part of what it is offered.
-/

namespace Inferenced.FdLease

/-- The `Errno` of `Error::SystemCall`. -/
abbrev Errno := ℕ

inductive Seal where
  | seal
  | grow
  | shrink
  | write
  deriving DecidableEq

structure MemFile where
  content : List UInt8 := []
  offset : ℕ := 0
  seals : List Seal := []
  deriving DecidableEq

def MemFile.truncate (f : MemFile) (size : ℕ) : MemFile :=
  { f with content := f.content.take size ++ List.replicate (size - f.content.length) 0 }

/-- `write` of the bytes that the kernel takes. -/
def MemFile.write (f : MemFile) (bytes : List UInt8) : MemFile :=
  let before := f.content.take f.offset ++ List.replicate (f.offset - f.content.length) 0
  { f with
    content := before ++ bytes ++ f.content.drop (f.offset + bytes.length)
    offset := f.offset + bytes.length }

/-- What the kernel answers; `write` is indexed by the number of the call, and
its count is capped by the bytes offered. -/
structure KernelEnv where
  memfdCreate : String → Except Errno Unit
  ftruncate : Except Errno Unit
  write : ℕ → Except Errno ℕ
  seek : Except Errno Unit
  addSeals : Except Errno Unit

/-- The copy loop (fd_lease.rs:31-38). -/
def copyLoop (write : ℕ → Except Errno ℕ) (data : List UInt8) (call written : ℕ) (file : MemFile) :
    Except Errno MemFile :=
  if written < data.length then
    match write call with
    | .error e => .error e
    | .ok count =>
      let n := min count (data.length - written)
      if n = 0 then .ok file
      else copyLoop write data (call + 1) (written + n) (file.write ((data.drop written).take n))
  else .ok file
termination_by data.length - written

/-- `create_sealed_memfd` (fd_lease.rs:19-48). -/
def createSealedMemfd (env : KernelEnv) (name : String) (sizeBytes : UInt64)
    (initialData : Option (List UInt8)) : Except Errno MemFile := do
  env.memfdCreate name
  env.ftruncate
  let file := MemFile.truncate {} sizeBytes.toNat
  let file ← match initialData with
    | some data => copyLoop env.write data 0 0 file
    | none => .ok file
  env.seek
  env.addSeals
  return { file with offset := 0, seals := [.seal, .grow, .shrink, .write] }

/-- `MemfdPaging::create_sealed_model` (paging.rs:80-83). -/
def createSealedModel (env : KernelEnv) (name : String) (data : List UInt8) : Except Errno MemFile :=
  createSealedMemfd env name (UInt64.ofNat data.length) (some data)

end Inferenced.FdLease
