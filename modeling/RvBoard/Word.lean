/-!
# Machine words

The operations on 64-bit and 32-bit words that every part of the board shares: sign extension,
natural alignment, and the two 32-bit halves of a 64-bit register.
-/

set_option autoImplicit false

namespace RvBoard

def signExtend (bits : Nat) (value : UInt64) : UInt64 :=
  let shift := UInt64.ofNat (64 - bits)
  ((value <<< shift).toInt64 >>> shift.toInt64).toUInt64

def signExtend32 (value : UInt32) : UInt64 :=
  signExtend 32 value.toUInt64

def byteCount (size : Nat) : Nat :=
  1 <<< size

def aligned (size : Nat) (address : UInt64) : Bool :=
  address.toNat % byteCount size == 0

def truncate (size : Nat) (value : UInt64) : UInt64 :=
  match size with
  | 0 => value &&& 0xff
  | 1 => value &&& 0xffff
  | 2 => value &&& 0xffffffff
  | _ => value

def replaceHalf (old : UInt64) (value : UInt32) (high : Bool) : UInt64 :=
  if high then (old &&& 0xffffffff) ||| (value.toUInt64 <<< (32 : UInt64))
  else (old &&& 0xffffffff00000000) ||| value.toUInt64

def highHalf (value : UInt64) : UInt32 :=
  (value >>> 32).toUInt32

def checkedAdd (a b : UInt64) : Option UInt64 :=
  if a.toNat + b.toNat < UInt64.size then some (a + b) else none

def saturatingAdd (a b : UInt64) : UInt64 :=
  if a.toNat + b.toNat < UInt64.size then a + b else 0xffffffffffffffff

theorem checkedAdd_eq_some {a b c : UInt64} (sum : checkedAdd a b = some c) :
    c.toNat = a.toNat + b.toNat := by
  unfold checkedAdd at sum
  split at sum
  · next fits =>
    cases sum
    rw [UInt64.toNat_add]
    exact Nat.mod_eq_of_lt fits
  · cases sum

theorem toNat_saturatingAdd (a b : UInt64) :
    (saturatingAdd a b).toNat = min (a.toNat + b.toNat) (UInt64.size - 1) := by
  unfold saturatingAdd
  split
  · next fits =>
    rw [UInt64.toNat_add, Nat.mod_eq_of_lt fits]
    omega
  · next exceeds =>
    show UInt64.size - 1 = _
    omega

end RvBoard
