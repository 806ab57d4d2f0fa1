import Sws.Packet.Valid

/-!
# Reading Back What Was Written

Bytes that were written behind the write cursor are there, and reading them gives them back;
what is written piece by piece is what is written at once.  With the encodings of the
fixed-width types this gives the round trip of whole lists of values.

## Key Results

- `written_written`: two writes in a row are one.
- `readData_of_prefixed`: a read of the bytes that lie behind the read cursor.
- `insertAll_run`, `extractAll_of_prefixed`: lists of values.
-/

namespace Sws.Packet

open Sws.Foundation

/-! ## Raw bytes -/

section Bytes

variable {p : Packet}

/-- The packet after a write, by its payload. -/
theorem written_eq (bytes : List UInt8) (hpos : 2 ≤ p.writePos ∧ p.writePos ≤ p.data.length) :
    p.written bytes =
      { p with
        data := frame (splice (p.data.drop 2) (p.writePos.toNat - 2) bytes)
        writePos := p.writePos + bytes.length } := by
  have hdata : (p.written bytes).data =
      frame (splice (p.data.drop 2) (p.writePos.toNat - 2) bytes) := by
    rw [← drop_written bytes hpos]
    exact data_of_verifySize (written_verifySize bytes p)
  rw [← hdata]
  rfl

/-- The bytes of a write lie behind the old write cursor. -/
theorem prefix_written (bytes : List UInt8) (hpos : 2 ≤ p.writePos ∧ p.writePos ≤ p.data.length) :
    bytes <+: (p.written bytes).data.drop p.writePos.toNat := by
  have hsplit : p.writePos.toNat = 2 + (p.writePos.toNat - 2) := by omega
  rw [hsplit, ← List.drop_drop, drop_written bytes hpos]
  exact prefix_drop_splice _ _ (by rw [List.length_drop]; omega)

/-- Two writes in a row are one write. -/
theorem written_written (a b : List UInt8)
    (hpos : 2 ≤ p.writePos ∧ p.writePos ≤ p.data.length) :
    (p.written a).written b = p.written (a ++ b) := by
  have hlen := length_written a p
  have hcursor : (p.written a).writePos = p.writePos + a.length := rfl
  have hnat : (p.writePos + a.length).toNat - 2 = p.writePos.toNat - 2 + a.length := by omega
  have hpayload : p.writePos.toNat - 2 ≤ (p.data.drop 2).length := by
    rw [List.length_drop]; omega
  -- both sides are the frame of one payload, and the splices join
  rw [written_eq b (by rw [hcursor]; omega), drop_written a hpos, hcursor, hnat,
    splice_append _ _ _ hpayload, written_eq (a ++ b) hpos, List.length_append]
  push_cast
  rw [← Int.add_assoc]
  rfl

/-- Reading the bytes that lie behind the read cursor. -/
theorem readData_of_prefixed (bytes : List UInt8) (whole : Bool)
    (hpos : 2 ≤ p.readPos ∧ p.readPos ≤ p.data.length) (hlen : p.data.length < 2 ^ 62)
    (hpre : bytes <+: p.data.drop p.readPos.toNat) (hne : bytes ≠ []) :
    (readData bytes.length whole).run p =
      .ok bytes { p with readPos := p.readPos + bytes.length } := by
  have hle := hpre.length_le
  rw [List.length_drop] at hle
  -- all that is asked for lies behind the read cursor
  have havailable : p.available bytes.length = bytes.length := by
    rw [available]; omega
  have hlong := List.length_pos_iff.mpr hne
  rw [readData_ok (by omega) hlen (by omega), havailable, ← List.prefix_iff_eq_take.mp hpre]

end Bytes

/-! ## Fixed-width values -/

section Values

variable {p : Packet}

/-- A write that ends below the capacity takes all of its bytes, if it has a byte to write, or one
to refer to. -/
theorem writeData_written (bytes : List UInt8) (whole : Bool) (hlen : p.data.length < datagramSize)
    (hpos : 2 ≤ p.writePos) (hfits : p.writePos.toNat + bytes.length < datagramSize)
    (hbyte : 0 < bytes.length ∨ p.writePos < p.data.length) :
    (writeData bytes whole).run p = .ok bytes.length (p.written bytes) := by
  have hrefuses : ¬Refuses p bytes.length whole := by
    rintro (hfull | ⟨-, hlong⟩) <;> omega
  have hroom : p.room bytes.length = bytes.length := by rw [room]; omega
  have hwrite := writeData_ok hrefuses hlen hpos (not_pointsOutside hbyte (by omega))
    (by rw [hroom]; exact hfits)
  rwa [hroom, List.take_length] at hwrite

/-- A primitive write that ends below the capacity. -/
theorem writeEnforced_ok (bytes : List UInt8) (hlen : p.data.length < datagramSize)
    (hpos : 2 ≤ p.writePos) (hfits : p.writePos.toNat + bytes.length < datagramSize)
    (hsome : 0 < bytes.length) :
    (writeEnforced bytes).run p = .ok () (p.written bytes) := by
  show (do let written ← writeData bytes true
           enforce (written = bytes.length) "Failed to write data to packet.").run p = _
  rw [EStateM.run_bind, writeData_written bytes true hlen hpos hfits (.inl hsome)]
  simp only [enforce_run, if_true]

/-- A primitive read of a value that lies behind the read cursor. -/
theorem readEnforced_of_prefixed {t : ScalarType} (bytes : List UInt8)
    (hbytes : bytes.length = t.size)
    (hpos : 2 ≤ p.readPos ∧ p.readPos ≤ p.data.length) (hlen : p.data.length < 2 ^ 62)
    (hpre : bytes <+: p.data.drop p.readPos.toNat) :
    (readEnforced t).run p =
      .ok (t.decode bytes) { p with readPos := p.readPos + bytes.length } := by
  have hne : bytes ≠ [] := by
    rintro rfl
    exact absurd t.size_pos (by rw [← hbytes]; exact Nat.lt_irrefl 0)
  have hread := readData_of_prefixed bytes true hpos hlen hpre hne
  rw [hbytes] at hread
  rw [readEnforced, EStateM.run_bind, hread]
  simp only [EStateM.run_bind, enforce_run, hbytes, if_true]
  rfl

theorem insert_ok {t : ScalarType} {v : t.Val} (hlen : p.data.length < datagramSize)
    (hpos : 2 ≤ p.writePos) (hfits : p.writePos.toNat + t.size < datagramSize) :
    (insert t v).run p = .ok () (p.written (t.encode v)) := by
  have hwrite := writeEnforced_ok (t.encode v) hlen hpos
    (by rw [ScalarType.length_encode]; exact hfits) (t.length_encode_pos v)
  cases t <;> exact hwrite

theorem extract_of_prefixed {t : ScalarType} {v : t.Val}
    (hpos : 2 ≤ p.readPos ∧ p.readPos ≤ p.data.length) (hlen : p.data.length < 2 ^ 62)
    (hpre : t.encode v <+: p.data.drop p.readPos.toNat) :
    (extract t).run p = .ok v { p with readPos := p.readPos + t.size } := by
  have hread := fun u => readEnforced_of_prefixed (p := p) (t := u) (t.encode v)
  rw [ScalarType.length_encode] at hread
  cases t with
  | bool =>
    -- read as a number first, which is checked to be a truth value
    have hrun := hread .uint8 rfl hpos hlen hpre
    rw [extract, EStateM.run_bind, hrun]
    cases v <;> rfl
  | char =>
    have hrun := hread .int8 rfl hpos hlen hpre
    rw [extract, hrun]
    exact congrArg (EStateM.Result.ok · _) (ScalarType.decode_encode .int8 v)
  | int8 | uint8 | int16 | uint16 | int32 | uint32 | int64 | uint64 | float | double =>
    have hrun := hread _ rfl hpos hlen hpre
    rw [ScalarType.decode_encode] at hrun
    exact hrun

end Values

/-! ## Lists of values -/

/-- A value with its type. -/
abbrev Value : Type := Σ t : ScalarType, t.Val

/-- The encodings of the values, one behind the other. -/
def encodeAll (vs : List Value) : List UInt8 := vs.flatMap fun v => v.1.encode v.2

/-- `<<` for each of the values in order. -/
def insertAll : List Value → PacketM Unit
  | [] => pure ()
  | ⟨t, v⟩ :: vs => do
    insert t v
    insertAll vs

/-- `>>` for each of the types in order. -/
def extractAll : List ScalarType → PacketM (List Value)
  | [] => pure []
  | t :: ts => do
    let v ← extract t
    return ⟨t, v⟩ :: (← extractAll ts)

section Lists

variable {p : Packet}

theorem written_nil (h : p.Valid) : p.written [] = p := by
  rw [written_eq [] h.writePos, splice_nil, ← data_of_verifySize h.consistent]
  simp

/-- Inserting values is one write of their encodings. -/
theorem insertAll_run (vs : List Value) (hp : p.Valid) (hlen : p.data.length < datagramSize)
    (hfits : p.writePos.toNat + (encodeAll vs).length < datagramSize) :
    (insertAll vs).run p = .ok () (p.written (encodeAll vs)) := by
  induction vs generalizing p with
  | nil => rw [encodeAll, List.flatMap_nil, written_nil hp]; rfl
  | cons v vs ih =>
    obtain ⟨t, v⟩ := v
    have hwrite := hp.writePos
    have hsplit : encodeAll (⟨t, v⟩ :: vs) = t.encode v ++ encodeAll vs := List.flatMap_cons ..
    rw [hsplit, List.length_append, ScalarType.length_encode] at hfits
    have hlen' := length_written (t.encode v) p
    have hcursor : (p.written (t.encode v)).writePos = p.writePos + t.size := by
      show p.writePos + (t.encode v).length = _
      rw [ScalarType.length_encode]
    rw [ScalarType.length_encode] at hlen'
    -- the first value leaves a valid packet with room for the others
    have hrest := ih (written_valid (t.encode v) hp) (by rw [hlen']; omega)
      (by rw [hcursor]; omega)
    rw [insertAll, EStateM.run_bind, insert_ok hlen hwrite.1 (by omega)]
    simp only [hrest, hsplit, written_written _ _ hwrite]

/-- Extracting values that lie behind the read cursor gives them back in order. -/
theorem extractAll_of_prefixed (vs : List Value) (hpos : 2 ≤ p.readPos ∧ p.readPos ≤ p.data.length)
    (hlen : p.data.length < 2 ^ 62) (hpre : encodeAll vs <+: p.data.drop p.readPos.toNat) :
    (extractAll (vs.map Sigma.fst)).run p =
      .ok vs { p with readPos := p.readPos + (encodeAll vs).length } := by
  induction vs generalizing p with
  | nil =>
    rw [encodeAll, List.flatMap_nil, List.length_nil, Nat.cast_zero, Int.add_zero]
    rfl
  | cons v vs ih =>
    obtain ⟨t, v⟩ := v
    have hsplit : encodeAll (⟨t, v⟩ :: vs) = t.encode v ++ encodeAll vs := List.flatMap_cons ..
    rw [hsplit] at hpre
    have hle := hpre.length_le
    rw [List.length_append, List.length_drop, ScalarType.length_encode] at hle
    have hfirst := extract_of_prefixed hpos hlen ((List.prefix_append _ _).trans hpre)
    have hnat : (p.readPos + t.size).toNat = p.readPos.toNat + (t.encode v).length := by
      rw [ScalarType.length_encode]; omega
    -- behind the first value lie the encodings of the others
    have hrest := ih (p := { p with readPos := p.readPos + t.size })
      (by show 2 ≤ p.readPos + t.size ∧ p.readPos + t.size ≤ p.data.length; omega) hlen
      (by
        obtain ⟨tail, htail⟩ := hpre
        show encodeAll vs <+: p.data.drop (p.readPos + t.size).toNat
        rw [hnat, ← List.drop_drop, ← htail, List.append_assoc, List.drop_left]
        exact List.prefix_append _ _)
    rw [List.map_cons, extractAll, EStateM.run_bind, hfirst]
    simp only [EStateM.run_bind, hrest, hsplit, List.length_append, ScalarType.length_encode,
      Nat.cast_add, Int.add_assoc]
    rfl

end Lists

end Sws.Packet
