import Sws.Foundation.LittleEndian

/-!
# Fixed-Width Values

The fixed-width types a packet reads and writes, with the bytes of their object
representation on a little-endian machine.  `float` and `double` are their bit patterns.
-/

namespace Sws

open Sws.Foundation

/-- The types with an overload of `<<` and `>>`, `std::string` and `Packet` apart. -/
inductive ScalarType
  | bool | char
  | int8 | uint8
  | int16 | uint16
  | int32 | uint32
  | int64 | uint64
  | float | double
  deriving DecidableEq, Repr

namespace ScalarType

/-- `sizeof(T)`. -/
def size : ScalarType → ℕ
  | bool | char | int8 | uint8 => 1
  | int16 | uint16 => 2
  | int32 | uint32 | float => 4
  | int64 | uint64 | double => 8

/-- The values of the type. -/
@[reducible] def Val : ScalarType → Type
  | bool => Bool
  | char | int8 => Int8
  | uint8 => UInt8
  | int16 => Int16
  | uint16 => UInt16
  | int32 => Int32
  | uint32 | float => UInt32
  | int64 => Int64
  | uint64 | double => UInt64

/-- The object representation of a value, read as one number. -/
def bits : (t : ScalarType) → t.Val → ℕ
  | bool, b => b.toNat
  | char, v | int8, v => v.toUInt8.toNat
  | uint8, v => v.toNat
  | int16, v => v.toUInt16.toNat
  | uint16, v => v.toNat
  | int32, v => v.toUInt32.toNat
  | uint32, v | float, v => v.toNat
  | int64, v => v.toUInt64.toNat
  | uint64, v | double, v => v.toNat

/-- The value with a given object representation.  For `bool` every representation other
than `0` is read as `true`. -/
def ofBits : (t : ScalarType) → ℕ → t.Val
  | bool, n => n != 0
  | char, n | int8, n => (UInt8.ofNat n).toInt8
  | uint8, n => UInt8.ofNat n
  | int16, n => (UInt16.ofNat n).toInt16
  | uint16, n => UInt16.ofNat n
  | int32, n => (UInt32.ofNat n).toInt32
  | uint32, n | float, n => UInt32.ofNat n
  | int64, n => (UInt64.ofNat n).toInt64
  | uint64, n | double, n => UInt64.ofNat n

/-- The bytes of a value in memory. -/
def encode (t : ScalarType) (v : t.Val) : List UInt8 := toBytes t.size (t.bits v)

/-- The value whose bytes in memory are given. -/
def decode (t : ScalarType) (bytes : List UInt8) : t.Val := t.ofBits (ofBytes bytes)

theorem size_pos (t : ScalarType) : 0 < t.size := by
  cases t <;> decide

@[simp] theorem length_encode (t : ScalarType) (v : t.Val) : (t.encode v).length = t.size :=
  length_toBytes ..

theorem length_encode_pos (t : ScalarType) (v : t.Val) : 0 < (t.encode v).length := by
  rw [length_encode]
  exact t.size_pos

theorem bits_lt (t : ScalarType) (v : t.Val) : t.bits v < 256 ^ t.size := by
  cases t with
  | bool => cases v <;> decide
  | char | int8 => exact v.toUInt8.toNat_lt
  | uint8 | uint16 | uint32 | uint64 | float | double => exact v.toNat_lt
  | int16 => exact v.toUInt16.toNat_lt
  | int32 => exact v.toUInt32.toNat_lt
  | int64 => exact v.toUInt64.toNat_lt

theorem ofBits_bits (t : ScalarType) (v : t.Val) : t.ofBits (t.bits v) = v := by
  cases t with
  | bool => cases v <;> rfl
  | char | int8 | int16 | int32 | int64 => simp [ofBits, bits]
  | uint8 | uint16 | uint32 | uint64 | float | double => simp [ofBits, bits]

/-- Every value survives the way through memory. -/
@[simp] theorem decode_encode (t : ScalarType) (v : t.Val) : t.decode (t.encode v) = v := by
  rw [decode, encode, ofBytes_toBytes_of_lt (t.bits_lt v), ofBits_bits]

/-- Every number of the right size is the representation of a value, but for a `bool`. -/
theorem bits_ofBits {t : ScalarType} (ht : t ≠ .bool) {n : ℕ} (hn : n < 256 ^ t.size) :
    t.bits (t.ofBits n) = n := by
  cases t with
  | bool => exact absurd rfl ht
  | char | int8 | int16 | int32 | int64 =>
    simp only [size] at hn
    simp [ofBits, bits]
    omega
  | uint8 | uint16 | uint32 | uint64 | float | double =>
    simp only [size] at hn
    simp [ofBits, bits]
    omega

/-- Bytes that were decoded are those of the value. -/
theorem encode_decode {t : ScalarType} (ht : t ≠ .bool) {bytes : List UInt8}
    (hbytes : bytes.length = t.size) : t.encode (t.decode bytes) = bytes := by
  have hlt := ofBytes_lt bytes
  rw [hbytes] at hlt
  rw [encode, decode, bits_ofBits ht hlt, ← hbytes, toBytes_ofBytes]

end ScalarType

end Sws
