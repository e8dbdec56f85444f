import Mathlib.Algebra.GroupWithZero.Nat
import Mathlib.Data.Int.Notation
import Mathlib.Data.Nat.Notation

/-!
# Octets, frames and time

The data every layer of the primary station shares.  The library below it names
nothing of this program; everything above it starts from these few types.

* `Byte`, `Bytes` — an octet and a Python `bytes` value.
* `Seq` — a sequence number: the code keeps V(S) and V(R) in `0 … 7` by masking
  every update with `& 7`, which is the addition of `Fin 8`.
* `Frame` — one HDLC frame after de-stuffing, as `hdlc.parse_frames` and
  `hdlc.Deframer` hand it on: address, control octet, payload.
* `Time` — a reading of `time.monotonic()`, in microseconds.  The source counts
  in floating-point seconds, with constants that are whole milliseconds; the
  model counts in integers, so no statement about it rests on rounding.
* `hex2`, `hexSp` — the two hexadecimal renderings the messages use.
-/

namespace OpenAisg

/-- An octet. -/
abbrev Byte := BitVec 8

/-- A Python `bytes` value. -/
abbrev Bytes := List Byte

/-- A sequence number modulo 8. -/
abbrev Seq := Fin 8

/-- Equality of octets is lawful, which lets lists of octets be searched and split. -/
instance byteLawfulBEq : LawfulBEq Byte := inferInstance

/-- What the literals of `Seq` rest on. -/
instance seqNeZero : NeZero 8 := ⟨by decide⟩

/-- A reading of the monotonic clock, or a duration, in microseconds. -/
abbrev Time := ℤ

/-- Milliseconds as a duration. -/
def ms (n : ℤ) : Time := 1000 * n

/-- One HDLC frame: address, control octet, payload.  Flags, stuffing and checksum are gone. -/
structure Frame where
  addr : Byte
  ctrl : Byte
  payload : Bytes := []
  deriving DecidableEq, Repr, Inhabited

/-! ## Rendering -/

/-- A hexadecimal digit; `ten` is the code point of the digit for ten. -/
def hexDigit (ten n : ℕ) : Char :=
  if n < 10 then Char.ofNat (48 + n) else Char.ofNat (ten + n - 10)

/-- `f"0x{b:02X}"`. -/
def hex2 (b : Byte) : String :=
  String.ofList ['0', 'x', hexDigit 65 (b.toNat / 16), hexDigit 65 (b.toNat % 16)]

/-- `data.hex(' ')`. -/
def hexSp : Bytes → String
  | [] => ""
  | [b] => String.ofList [hexDigit 97 (b.toNat / 16), hexDigit 97 (b.toNat % 16)]
  | b :: bs =>
      String.ofList [hexDigit 97 (b.toNat / 16), hexDigit 97 (b.toNat % 16), ' '] ++ hexSp bs

end OpenAisg
