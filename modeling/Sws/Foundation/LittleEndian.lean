import Mathlib.Tactic.Common
import Mathlib.Tactic.Ring

/-!
# Little-Endian Numbers

A number as a fixed count of bytes, lowest byte first, and back.  Encoding drops what does
not fit, so that decoding an encoding gives the number modulo the range of the width.
-/

namespace Sws.Foundation

/-- The lowest `width` bytes of `n`, lowest first. -/
def toBytes : (width n : ℕ) → List UInt8
  | 0, _ => []
  | width + 1, n => UInt8.ofNat n :: toBytes width (n / 256)

/-- The number whose bytes, lowest first, are given. -/
def ofBytes : List UInt8 → ℕ
  | [] => 0
  | b :: bs => 256 * ofBytes bs + b.toNat

@[simp] theorem length_toBytes (width n : ℕ) : (toBytes width n).length = width := by
  induction width generalizing n with
  | zero => rfl
  | succ width ih => simp [toBytes, ih]

/-- Decoding an encoding reduces modulo the range of the width. -/
theorem ofBytes_toBytes (width n : ℕ) : ofBytes (toBytes width n) = n % 256 ^ width := by
  induction width generalizing n with
  | zero => simp [toBytes, ofBytes, Nat.mod_one]
  | succ width ih =>
    -- the lowest byte and the rest reduce apart
    have hlow : (UInt8.ofNat n).toNat = n % 256 := rfl
    rw [toBytes, ofBytes, ih, hlow, Nat.pow_succ', Nat.mod_mul, Nat.add_comm]

theorem ofBytes_toBytes_of_lt {width n : ℕ} (h : n < 256 ^ width) :
    ofBytes (toBytes width n) = n := by
  rw [ofBytes_toBytes, Nat.mod_eq_of_lt h]

/-- An encoding has one byte list: what decodes to the same number is the same bytes. -/
theorem toBytes_ofBytes (bs : List UInt8) : toBytes bs.length (ofBytes bs) = bs := by
  induction bs with
  | nil => rfl
  | cons b bs ih =>
    have hb : b.toNat < 256 := b.toNat_lt
    -- the first byte is the remainder by 256, and the others encode the quotient
    have hlow : UInt8.ofNat (256 * ofBytes bs + b.toNat) = b := by
      apply UInt8.toNat_inj.mp
      simp
    have hrest : (256 * ofBytes bs + b.toNat) / 256 = ofBytes bs := by omega
    rw [List.length_cons, ofBytes, toBytes, hlow, hrest, ih]

/-- Only the number modulo the range of the width is encoded. -/
theorem toBytes_eq_iff {width m n : ℕ} :
    toBytes width m = toBytes width n ↔ m % 256 ^ width = n % 256 ^ width := by
  constructor
  · intro h
    rw [← ofBytes_toBytes, h, ofBytes_toBytes]
  · intro h
    have hm := toBytes_ofBytes (toBytes width m)
    have hn := toBytes_ofBytes (toBytes width n)
    rw [length_toBytes, ofBytes_toBytes] at hm hn
    rw [← hm, h, hn]

theorem ofBytes_lt (bs : List UInt8) : ofBytes bs < 256 ^ bs.length := by
  induction bs with
  | nil => simp [ofBytes]
  | cons b bs ih =>
    have hb : b.toNat < 256 := b.toNat_lt
    rw [ofBytes, List.length_cons, Nat.pow_succ]
    omega

example : ofBytes (toBytes 2 0x1234) = 0x1234 := by decide

end Sws.Foundation
