import Pfs3.Lib.Bytes

/-!
# Errors and checked access

`Error` is the library's error type.  A call can also end in a Rust panic: an index or a
slice out of range, a division by zero, an arithmetic overflow of a build with checks.
`Fault` is either.  State changed before a fault stays changed, which is what `EStateM`
does, so every stateful function of the library is an `EStateM Fault σ`.
-/

namespace Pfs3

open ByteList

/-- PFS3 library error type (`error.rs`). -/
inductive Error
  | io
  | tooShort (what : String)
  | badMagic (what : String) (magic : ℕ)
  | badBlockId (what : String) (expected got : ℕ)
  | blockOutOfRange (block : ℕ)
  | anodeNotFound (anodenr : ℕ)
  | notFound (what : String)
  | alreadyExists (what : String)
  | diskFull (what : String)
  | corrupt (what : String)
  | notADirectory
  | notEmpty
  | invalidPartition (what : String)
  | readOnly
  deriving DecidableEq, Repr

/-- The ways a call ends without a value: an `Err`, or a panic. -/
inductive Fault
  | err (e : Error)
  | panic
  deriving DecidableEq, Repr

/-- `2^32`: values of the code's `u32` stay below it. -/
def U32 : ℕ := 4294967296

/-- A state-free fallible computation inside a stateful one. -/
instance instMonadLiftExceptEStateM {ε σ : Type} : MonadLift (Except ε) (EStateM ε σ) where
  monadLift
    | .ok a => pure a
    | .error f => throw f

/-- `Err(e)` as the result of a call. -/
def fail {σ α : Type} (e : Error) : EStateM Fault σ α := throw (.err e)

/-- Run a computation on a component of the state. -/
def zoom {σ τ α : Type} (get : σ → τ) (set : τ → σ → σ) (m : EStateM Fault τ α) :
    EStateM Fault σ α := fun s =>
  match m (get s) with
  | .ok a t => .ok a (set t s)
  | .error f t => .error f (set t s)

/-- The value of a call as an `Option`, an `Err` dropped; state changes stay, a panic too. -/
def tryOk {σ α : Type} (m : EStateM Fault σ α) : EStateM Fault σ (Option α) := fun s =>
  match m s with
  | .ok a s' => .ok (some a) s'
  | .error (.err _) s' => .ok none s'
  | .error .panic s' => .error .panic s'

/-! ## Checked reads and arithmetic -/

/-- `u16::from_be_bytes(data[off..off + 2])`. -/
def readU16 (d : Bytes) (off : ℕ) : Except Fault ℕ :=
  if off + 2 ≤ d.length then .ok (be16 d off) else .error .panic

/-- `u32::from_be_bytes(data[off..off + 4])`. -/
def readU32 (d : Bytes) (off : ℕ) : Except Fault ℕ :=
  if off + 4 ≤ d.length then .ok (be32 d off) else .error .panic

/-- `data[off]`. -/
def readU8 (d : Bytes) (off : ℕ) : Except Fault ℕ :=
  if off < d.length then .ok (d.getD off 0).toNat else .error .panic

/-- `data[off..off + src.len()].copy_from_slice(src)`. -/
def putBytes (d : Bytes) (off : ℕ) (src : Bytes) : Except Fault Bytes :=
  if off + src.length ≤ d.length then .ok (splice d off src) else .error .panic

/-- Write a big-endian u32 at byte offset `off`. -/
def putU32 (d : Bytes) (off v : ℕ) : Except Fault Bytes := putBytes d off (enc32 v)

/-- Write a big-endian u16 at byte offset `off`. -/
def putU16 (d : Bytes) (off v : ℕ) : Except Fault Bytes := putBytes d off (enc16 v)

/-- `a + b` on `u32`. -/
def addU32 (a b : ℕ) : Except Fault ℕ := if a + b < U32 then .ok (a + b) else .error .panic

/-- `a - b` on an unsigned type. -/
def subU32 (a b : ℕ) : Except Fault ℕ := if b ≤ a then .ok (a - b) else .error .panic

end Pfs3
