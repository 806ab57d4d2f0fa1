import Sws.Packet.FailedReads

/-!
# Two Interfaces to Decode With

`read` tells by its count whether there was a value, `>>` by an exception.  Each type has a
decoder for either; they accept the same bytes and give the same values, but for a `bool`, of
which only `>>` looks at the byte.

## Key Results

- `scalar_agrees`, `string_agrees`: types whose decoders agree wherever they are used.
- `bool_agrees_iff`: a `bool` has to be one.
- `decodersAgree_iff`: all types.
-/

namespace Sws.Packet

open Sws.Foundation

/-! ## Decoders -/

/-- The types that can be read.  `beyond` is what lies in memory behind the temporary buffer of
a string. -/
inductive Decodable
  | scalar (t : ScalarType)
  | string (beyond : List UInt8)

namespace Decodable

/-- `read(x)`. -/
def read : Decodable → ReadingM ℕ
  | scalar t => readTo t
  | string beyond => readStringTo beyond

/-- `packet >> x`. -/
def extract : Decodable → ReadingM Unit
  | scalar t => extractTo t
  | string beyond => extractStringTo beyond

/-- A variable of the type can have these bytes. -/
def Sized : Decodable → List UInt8 → Prop
  | scalar t, bytes => bytes.length = t.size
  | string _, _ => True

/-- The bytes are those of a value of the type. -/
def IsValue : Decodable → List UInt8 → Prop
  | scalar t, bytes => ∃ v : t.Val, bytes = t.encode v
  | string _, _ => True

end Decodable

/-- `packet >> x` succeeds exactly when `read(x)` gives a count other than 0, and then both have
the same effect and give a value; and it throws when `read(x)` gives 0 or throws. -/
structure DecodersAgree (d : Decodable) (r : Reading) : Prop where
  succeeds : ∀ s, d.extract.run r = .ok () s ↔ ∃ count, count ≠ 0 ∧ d.read.run r = .ok count s
  value : ∀ count s, count ≠ 0 → d.read.run r = .ok count s → d.IsValue s.dest
  fails : (∃ s, d.read.run r = .ok 0 s) ∨ (∃ e s, Caught e ∧ d.read.run r = .error e s) →
    ∃ e s, Caught e ∧ d.extract.run r = .error e s

section Agreement

variable {r : Reading}

/-- Decoders agree where neither gives a value. -/
theorem DecodersAgree.of_neither {d : Decodable} {e : Fault} {s s' : Reading}
    (hread : d.read.run r = .ok 0 s) (hextract : d.extract.run r = .error e s')
    (he : Caught e) : DecodersAgree d r where
  succeeds t := by
    rw [hread, hextract]
    constructor
    · intro h
      cases h
    · rintro ⟨count, hcount, h⟩
      cases h
      exact absurd rfl hcount
  value count t hcount h := by
    rw [hread] at h
    cases h
    exact absurd rfl hcount
  fails _ := ⟨e, s', he, hextract⟩

/-- Decoders agree where both give the same value. -/
theorem DecodersAgree.of_both {d : Decodable} {count : ℕ} {s : Reading} (hcount : count ≠ 0)
    (hread : d.read.run r = .ok count s) (hextract : d.extract.run r = .ok () s)
    (hvalue : d.IsValue s.dest) : DecodersAgree d r where
  succeeds t := by
    rw [hread, hextract]
    constructor
    · intro h
      cases h
      exact ⟨count, hcount, rfl⟩
    · rintro ⟨_, -, h⟩
      cases h
      rfl
  value _ t _ h := by
    rw [hread] at h
    cases h
    exact hvalue
  fails h := by
    rw [hread] at h
    rcases h with ⟨t, h⟩ | ⟨e, t, -, h⟩
    · cases h
      exact absurd rfl hcount
    · cases h

/-! ## Values -/

/-- The bytes of a variable are replaced as a whole. -/
theorem splice_front {n : ℕ} (hdest : r.dest.length = n) (hn : n ≤ r.packet.left) :
    splice r.dest 0 (r.packet.front n) = r.packet.front n := by
  rw [splice_zero, length_front hn, List.drop_of_length_le (Nat.le_of_eq hdest), List.append_nil]

/-- What `>>` throws if there is no value. -/
theorem readEnforcedTo_run (t : ScalarType) (r : Reading) :
    (readEnforcedTo t).run r =
      match (readDataTo t.size true).run r with
      | .ok n s => if n = t.size then .ok () s else
          .error (.thrown (.logicError "Failed to read data from packet.")) s
      | .error e s => .error e s := by
  rw [readEnforcedTo, EStateM.run_bind]
  cases (readDataTo t.size true).run r with
  | ok n s => exact enforce_run ..
  | error e s => rfl

/-- A value that is read into the variable itself. -/
theorem scalar_agrees {t : ScalarType} (ht : t ≠ .bool) (hr : Readable r.packet)
    (hdest : r.dest.length = t.size) : DecodersAgree (.scalar t) r := by
  have hpos := t.size_pos
  have hextract : Decodable.extract (.scalar t) = readEnforcedTo t := by
    cases t with
    | bool => exact absurd rfl ht
    | char | int8 | uint8 | int16 | uint16 | int32 | uint32 | int64 | uint64 | float | double =>
      rfl
  have hrun := readEnforcedTo_run t r
  rw [← hextract] at hrun
  rcases readDataTo_whole hr t.size with ⟨-, hread⟩ | ⟨⟨-, hall⟩, hread⟩
  · have hshort : ¬0 = t.size := by omega
    simp only [hread, if_neg hshort] at hrun
    exact .of_neither hread hrun trivial
  · simp only [hread, if_true] at hrun
    refine .of_both (by omega) hread hrun ⟨t.decode (r.packet.front t.size), ?_⟩
    rw [splice_front hdest hall, ScalarType.encode_decode ht (length_front hall)]

theorem decode_byte (b : UInt8) : (ScalarType.uint8.decode [b] : UInt8) = b := by
  simp [ScalarType.decode, ScalarType.ofBits, ofBytes]

/-- The bytes of a `bool` are 0 and 1. -/
theorem isBool_iff (b : UInt8) : (∃ v : Bool, [b] = ScalarType.bool.encode v) ↔ b ≤ 1 := by
  constructor
  · rintro ⟨v, h⟩
    cases v <;> · cases h; decide
  · intro h
    have hnat : b.toNat ≤ 1 := UInt8.le_iff_toNat_le.mp h
    rcases Nat.le_one_iff_eq_zero_or_eq_one.mp hnat with hzero | hone
    · obtain rfl : b = 0 := UInt8.toNat_inj.mp hzero
      exact ⟨false, rfl⟩
    · obtain rfl : b = 1 := UInt8.toNat_inj.mp hone
      exact ⟨true, rfl⟩

theorem encode_beq_one {b : UInt8} (h : b ≤ 1) : ScalarType.bool.encode (b == 1) = [b] := by
  obtain ⟨v, hv⟩ := (isBool_iff b).mpr h
  cases v <;> · cases hv; rfl

/-- A `bool` is read as a byte, which has to be that of a `bool`. -/
theorem bool_agrees_iff (hr : Readable r.packet) (hdest : r.dest.length = 1) :
    DecodersAgree (.scalar .bool) r ↔ ¬OutOfRange r.packet := by
  rcases readDataTo_whole hr 1 with ⟨hnone, hread⟩ | ⟨⟨-, hall⟩, hread⟩
  · -- there is no byte
    rcases readByte_cases hr with ⟨hleft, e, hbyte⟩ | ⟨hleft, -⟩
    · have hfrom : (fromPacket (readEnforced .uint8)).run r = .error (.thrown e) r :=
        zoom_run_of_error hbyte
      have hextract : (Decodable.extract (.scalar .bool)).run r = .error (.thrown e) r := by
        simp only [Decodable.extract, extractTo, EStateM.run_bind, hfrom]
      refine iff_of_true (.of_neither hread hextract trivial) ?_
      exact fun hout => by have := hout.1; omega
    · omega
  · rcases readByte_cases hr with ⟨hleft, -⟩ | ⟨-, hbyte⟩
    · omega
    obtain ⟨b, hb⟩ := List.length_eq_one_iff.mp (length_front hall)
    rw [splice_front hdest hall, hb] at hread
    rw [hb, decode_byte] at hbyte
    have hout : OutOfRange r.packet ↔ ¬b ≤ 1 := by
      rw [OutOfRange, hb, decode_byte, UInt8.not_le, and_iff_right hall]
    have hfrom : (fromPacket (readEnforced .uint8)).run r = .ok b ⟨r.packet.advanced 1, r.dest⟩ :=
      zoom_run_of_ok hbyte
    rw [hout, not_not]
    by_cases hin : b ≤ 1
    · have hextract : (Decodable.extract (.scalar .bool)).run r =
          .ok () ⟨r.packet.advanced 1, [b]⟩ := by
        simp only [Decodable.extract, extractTo, EStateM.run_bind, hfrom, enforce_run, if_pos hin,
          EStateM.run_modify, encode_beq_one hin]
      exact iff_of_true (.of_both one_ne_zero hread hextract ((isBool_iff b).mpr hin)) hin
    · -- `read` gives the byte, and `>>` throws
      have hextract : (Decodable.extract (.scalar .bool)).run r =
          .error (.thrown (.logicError "bool value out of range"))
            ⟨r.packet.advanced 1, r.dest⟩ := by
        simp only [Decodable.extract, extractTo, EStateM.run_bind, hfrom, enforce_run, if_neg hin]
      refine iff_of_false (fun h => ?_) hin
      have hsucceeds := (h.succeeds _).mpr ⟨1, one_ne_zero, hread⟩
      rw [hextract] at hsucceeds
      cases hsucceeds

/-! ## Strings -/

/-- A string is read by `read`, and `>>` looks at the count. -/
theorem extractStringTo_run (beyond : List UInt8) (r : Reading) :
    (extractStringTo beyond).run r =
      match (readStringTo beyond).run r with
      | .ok n s => if n ≠ 0 then .ok () s else
          .error (.thrown (.logicError "Failed to read string from packet.")) s
      | .error e s => .error e s := by
  rw [extractStringTo, EStateM.run_bind]
  cases (readStringTo beyond).run r with
  | ok n s => exact enforce_run ..
  | error e s => rfl

theorem string_agrees (beyond : List UInt8) (r : Reading) :
    DecodersAgree (.string beyond) r := by
  have hextract : (Decodable.extract (.string beyond)).run r = _ := extractStringTo_run beyond r
  cases hread : (readStringTo beyond).run r with
  | error e s =>
    simp only [hread] at hextract
    refine ⟨fun t => ?_, fun _ _ _ _ => trivial, ?_⟩
    · rw [hextract, Decodable.read, hread]
      simp
    · rintro (⟨t, h⟩ | ⟨e', t, he, h⟩)
      · rw [Decodable.read, hread] at h
        cases h
      · -- what `read` throws, `>>` throws
        rw [Decodable.read, hread] at h
        cases h
        exact ⟨e, s, he, hextract⟩
  | ok n s =>
    simp only [hread] at hextract
    by_cases hn : n ≠ 0
    · rw [if_pos hn] at hextract
      exact .of_both hn hread hextract trivial
    · rw [if_neg hn] at hextract
      rw [not_not.mp hn] at hread
      exact .of_neither hread hextract trivial

/-! ## All types -/

/-- **Decoders agree** on every type and all bytes, unless the type is `bool` and there is a
byte that is no `bool`. -/
theorem decodersAgree_iff (hr : Readable r.packet) (d : Decodable) (hdest : d.Sized r.dest) :
    DecodersAgree d r ↔ ¬(d = .scalar .bool ∧ OutOfRange r.packet) := by
  cases d with
  | scalar t =>
    rcases eq_or_ne t .bool with rfl | ht
    · rw [bool_agrees_iff hr hdest]
      simp
    · refine iff_of_true (scalar_agrees ht hr hdest) ?_
      rintro ⟨h, -⟩
      injection h with h
      exact ht h
  | string beyond =>
    refine iff_of_true (string_agrees beyond r) ?_
    rintro ⟨h, -⟩
    cases h

/-- A packet whose payload is the byte 2, which is no `bool`. -/
def notBool : Packet := { data := [1, 0, 2], readPos := 2, writePos := 3 }

/-- As a number the byte is a value for both. -/
theorem decodersAgree_iff_uint8 : DecodersAgree (.scalar .uint8) ⟨notBool, [9]⟩ :=
  (decodersAgree_iff (r := ⟨notBool, [9]⟩) ⟨by decide, by decide⟩ (.scalar .uint8) rfl).mpr
    (by rintro ⟨h, -⟩; cases h)

/-- As a `bool` it is one for `read`, and for `>>` it is not. -/
theorem not_decodersAgree_bool :
    (Decodable.read (.scalar .bool)).run ⟨notBool, [0]⟩ = .ok 1 ⟨notBool.advanced 1, [2]⟩ ∧
    (Decodable.extract (.scalar .bool)).run ⟨notBool, [0]⟩ =
      .error (.thrown (.logicError "bool value out of range")) ⟨notBool.advanced 1, [0]⟩ ∧
    Readable notBool ∧ ¬DecodersAgree (.scalar .bool) ⟨notBool, [0]⟩ := by
  have hreadable : Readable notBool := ⟨by decide, by decide⟩
  refine ⟨rfl, rfl, hreadable, ?_⟩
  rw [bool_agrees_iff (r := ⟨notBool, [0]⟩) hreadable rfl, not_not]
  exact ⟨by decide, by decide⟩

end Agreement

end Sws.Packet
