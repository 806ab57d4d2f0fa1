import Sws.Packet.FailedReads
import Sws.Packet.Sound

/-!
# Moves

A move takes the bytes, the cursors and the progress of transfers along.  In its source it
empties the buffer and resets the progress, but the cursors stay where they stood, which is
behind the end of the empty buffer.

## Key Results

- `insertAll_returns`, `extractAll_returns`: where the cursors are after values were written or
  read, for any packet.
- `insertAll_reaching`: a packet that was moved from takes values as if its buffer reached up
  to the write cursor.
- `moves_iff`: after which moves what is written can be read back.
-/

namespace Sws.Packet

open Sws.Foundation

/-! ## Values written and read, for any packet -/

section Returns

variable {p q : Packet}

/-- `q` is `p` after a write of `size` bytes at its write cursor that returned. -/
structure Grown (p q : Packet) (size : ℕ) : Prop where
  frame : q = { p with data := q.data, writePos := p.writePos + size }
  length_eq : q.data.length = max p.data.length (p.writePos.toNat + size)
  length_le : q.data.length ≤ datagramSize
  length_lt : 0 < p.writePos → q.data.length < datagramSize

/-- A primitive write that returns has copied all of its bytes. -/
theorem writeEnforced_returns {bytes : List UInt8} (hp : p.InLimits) (hsome : bytes ≠ [])
    (hrun : (writeEnforced bytes).run p = .ok () q) : Grown p q bytes.length := by
  have hpos := hp.2
  have hlong := List.length_pos_iff.mpr hsome
  have hcopied := length_copyIn bytes p
  have hwrite : (writeEnforced bytes).run p = EStateM.run (do
      let written ← writeData bytes true
      enforce (written = bytes.length) "Failed to write data to packet.") p := rfl
  rw [hwrite, EStateM.run_bind] at hrun
  by_cases hrefuses : Refuses p bytes.length true
  · -- a write that is refused does not return
    have hshort : ¬0 = bytes.length := by omega
    rw [writeData_refused hrefuses] at hrun
    simp only [enforce_run, if_neg hshort] at hrun
    cases hrun
  have hspace := hp.1
  have hend : p.writePos.toNat + bytes.length ≤ datagramSize := by
    simp only [Refuses, true_and, not_or] at hrefuses
    omega
  have hroom : p.room bytes.length = bytes.length := by
    rw [room]
    omega
  have hin : ¬PointsOutside p bytes.length := not_pointsOutside_of_pos hlong (by omega)
  have hcopies := writeDataWith_copies (u := updateSize) hrefuses hpos hin
  rw [hroom, List.take_length] at hcopies
  rw [writeData, hcopies] at hrun
  rcases Int.lt_or_le 0 p.writePos with hbehind | hzero
  · rw [if_pos hbehind] at hrun
    have hlimits : (p.copyIn bytes).InLimits :=
      ⟨by omega, by rw [writePos_copyIn]; omega⟩
    -- of the ends of the header update only one returns
    rcases updateSize_cases hlimits with ⟨-, hupdate⟩ | ⟨hlt, -, hupdate⟩ | ⟨-, -, msg, hupdate⟩
    · rw [hupdate] at hrun
      cases hrun
    · rw [hupdate] at hrun
      simp only [enforce_run, if_true] at hrun
      cases hrun
      have hlen : (p.copyIn bytes).stamped.data.length = _ := length_stamped (p.copyIn bytes)
      have hsame : (p.copyIn bytes).stamped.data.length =
          max p.data.length (p.writePos.toNat + bytes.length) := by omega
      exact ⟨rfl, hsame, by rw [hsame]; omega, fun _ => by rw [hsame]; omega⟩
    · rw [hupdate] at hrun
      cases hrun
  · rw [if_neg (by omega)] at hrun
    simp only [EStateM.run_pure, enforce_run, if_true] at hrun
    cases hrun
    exact ⟨rfl, hcopied, by rw [hcopied]; omega, fun hbehind => by omega⟩

theorem insert_returns {t : ScalarType} {v : t.Val} (hp : p.InLimits)
    (hrun : (insert t v).run p = .ok () q) : Grown p q (t.encode v).length := by
  have hlen := ScalarType.length_encode t v
  have hsize := t.size_pos
  have hsome : t.encode v ≠ [] := List.length_pos_iff.mp (by omega)
  cases t <;> exact writeEnforced_returns hp hsome hrun

namespace Grown

variable {r : Packet} {m n : ℕ}

theorem writePos (h : Grown p q m) : q.writePos = p.writePos + m := by rw [h.frame]

theorem inLimits (h : Grown p q m) (hp : p.InLimits) : q.InLimits := by
  have hpos := hp.2
  have hle := h.length_le
  have hlen := h.length_eq
  refine ⟨hle, ?_⟩
  rw [h.writePos]
  omega

theorem trans (h : Grown p q m) (hnext : Grown q r n) (hpos : 0 ≤ p.writePos) :
    Grown p r (m + n) := by
  have hcursor := h.writePos
  have hfirst := h.length_eq
  have hsecond := hnext.length_eq
  refine ⟨?_, by omega, hnext.length_le, fun hbehind => hnext.length_lt (by omega)⟩
  rw [hnext.frame, h.frame]
  simp only [Nat.cast_add, Int.add_assoc]

end Grown

/-- Values that are written one after the other are written at once. -/
theorem insertAll_returns {vs : List Value} (hp : p.InLimits)
    (hrun : (insertAll vs).run p = .ok () q) (hne : vs ≠ []) :
    Grown p q (encodeAll vs).length := by
  induction vs generalizing p with
  | nil => exact absurd rfl hne
  | cons v vs ih =>
    obtain ⟨t, v⟩ := v
    have hsplit : encodeAll (⟨t, v⟩ :: vs) = t.encode v ++ encodeAll vs := List.flatMap_cons ..
    rw [insertAll, EStateM.run_bind] at hrun
    cases hfirst : (insert t v).run p with
    | error e p' =>
      rw [hfirst] at hrun
      cases hrun
    | ok _ p' =>
      rw [hfirst] at hrun
      have hgrown := insert_returns hp hfirst
      rw [hsplit, List.length_append]
      rcases eq_or_ne vs [] with rfl | hmore
      · -- the last of the values
        cases hrun
        exact hgrown
      · exact hgrown.trans (ih (hgrown.inLimits hp) hrun hmore) hp.2.1

/-- A value that is read moves the read cursor behind it. -/
theorem readEnforced_returns {t : ScalarType} {v : t.Val} (hpos : 0 ≤ p.readPos)
    (hrun : (readEnforced t).run p = .ok v q) : q = p.advanced t.size := by
  have hsize := t.size_pos
  rw [readEnforced, EStateM.run_bind] at hrun
  rcases readData_cases t.size true p with hread | ⟨k, hk, hread⟩ | hread
  · -- nothing is less than a value
    have hshort : ¬([] : List UInt8).length = t.size := by rw [List.length_nil]; omega
    rw [hread] at hrun
    simp only [EStateM.run_bind, enforce_run, if_neg hshort] at hrun
    cases hrun
  · have hlen : ((p.data.drop p.readPos.toNat).take k).length = k := by
      rw [List.length_take, List.length_drop]
      omega
    rw [hread] at hrun
    simp only [EStateM.run_bind, enforce_run, hlen] at hrun
    split_ifs at hrun with hall
    cases hrun
    rw [← hall]
    rfl
  · rw [hread] at hrun
    cases hrun

theorem extract_returns {t : ScalarType} {v : t.Val} (hpos : 0 ≤ p.readPos)
    (hrun : (extract t).run p = .ok v q) : q = p.advanced t.size := by
  cases t with
  | bool =>
    rw [extract, EStateM.run_bind] at hrun
    cases hread : (readEnforced .uint8).run p with
    | error e p' =>
      rw [hread] at hrun
      cases hrun
    | ok temp p' =>
      -- the check that follows does not move the cursor
      obtain rfl := readEnforced_returns hpos hread
      rw [hread] at hrun
      simp only [EStateM.run_bind, enforce_run] at hrun
      split_ifs at hrun
      cases hrun
      rfl
  | char | int8 | uint8 | int16 | uint16 | int32 | uint32 | int64 | uint64 | float | double =>
    exact readEnforced_returns hpos hrun

/-- So do values that are read one after the other. -/
theorem extractAll_returns {ts : List ScalarType} {vs : List Value} (hpos : 0 ≤ p.readPos)
    (hrun : (extractAll ts).run p = .ok vs q) :
    q = p.advanced (ts.map ScalarType.size).sum := by
  -- a read that returns has moved the cursor behind its value
  induction ts generalizing p q vs with
  | nil =>
    cases hrun
    simp [advanced]
  | cons t ts ih =>
    rw [extractAll, EStateM.run_bind] at hrun
    cases hfirst : (extract t).run p with
    | error e p' =>
      rw [hfirst] at hrun
      cases hrun
    | ok v p' =>
      obtain rfl := extract_returns hpos hfirst
      rw [hfirst] at hrun
      simp only [EStateM.run_bind] at hrun
      cases hrest : (extractAll ts).run (p.advanced t.size) with
      | error e p' =>
        rw [hrest] at hrun
        cases hrun
      | ok us p' =>
        have hnext : 0 ≤ (p.advanced t.size).readPos := by
          show 0 ≤ p.readPos + t.size
          omega
        obtain rfl := ih hnext hrest
        rw [hrest] at hrun
        cases hrun
        simp only [advanced, List.map_cons, List.sum_cons, Nat.cast_add, Int.add_assoc]

/-- The values take as many bytes as their types. -/
theorem length_encodeAll (vs : List Value) :
    (encodeAll vs).length = ((vs.map Sigma.fst).map ScalarType.size).sum := by
  rw [encodeAll, List.length_flatMap, List.map_map]
  simp [Function.comp_def]

end Returns

/-! ## Packets that were moved from -/

section MovedFrom

variable {p : Packet}

/-- A packet whose buffer reaches up to the write cursor, with nothing but zeros in it. -/
def reaching (p : Packet) : Packet :=
  { p with data := frame (List.replicate (p.writePos.toNat - 2) 0) }

@[simp] theorem length_reaching (hpos : 2 ≤ p.writePos) :
    p.reaching.data.length = p.writePos.toNat := by
  show (frame _).length = _
  rw [length_frame, List.length_replicate]
  omega

/-- What a packet holds behind its header after a write is what was copied there. -/
theorem data_written (bytes : List UInt8) (p : Packet) :
    (p.written bytes).data = frame ((p.copyIn bytes).data.drop 2) := by
  rw [data_of_verifySize (written_verifySize bytes p)]
  exact congrArg frame (drop_stamped _)

/-- The gap in front of the write cursor is filled with zeros before the bytes are copied. -/
theorem written_reaching {bytes : List UInt8} (hsome : bytes ≠ []) (hpos : 2 ≤ p.writePos)
    (hempty : p.data = []) : p.written bytes = p.reaching.written bytes := by
  have hlong := List.length_pos_iff.mpr hsome
  have hreach := length_reaching hpos
  have hcopied : (p.copyIn bytes).data =
      List.replicate p.writePos.toNat 0 ++ bytes := by
    simp only [copyIn, makeRoom, hempty]
    rw [if_pos (by rw [List.length_nil]; omega), takeD_eq_append, splice]
    simp
  have hcopied' : (p.reaching.copyIn bytes).data = p.reaching.data ++ bytes := by
    have hcursor : p.reaching.writePos = p.writePos := rfl
    rw [data_copyIn (by rw [hcursor]; omega), hcursor, splice, ← hreach, List.take_length,
      List.drop_of_length_le (by omega), List.append_nil]
  have hdata : (p.written bytes).data = (p.reaching.written bytes).data := by
    rw [data_written, data_written, hcopied, hcopied',
      List.drop_append_of_le_length (by rw [List.length_replicate]; omega),
      List.drop_append_of_le_length (by omega), List.drop_replicate]
    congr 2
  show { (p.written bytes) with data := (p.written bytes).data } = _
  rw [hdata]
  rfl

/-- So values are written as into a packet that reaches up to the write cursor. -/
theorem insertAll_reaching {vs : List Value} (hne : vs ≠ []) (hpos : 2 ≤ p.writePos)
    (hempty : p.data = []) (hfits : p.writePos.toNat + (encodeAll vs).length < datagramSize) :
    (insertAll vs).run p = (insertAll vs).run p.reaching := by
  cases vs with
  | nil => exact absurd rfl hne
  | cons v vs =>
    obtain ⟨t, v⟩ := v
    have hsplit : encodeAll (⟨t, v⟩ :: vs) = t.encode v ++ encodeAll vs := List.flatMap_cons ..
    rw [hsplit, List.length_append, ScalarType.length_encode] at hfits
    have hcursor : p.reaching.writePos = p.writePos := rfl
    have hreach := length_reaching hpos
    have hsize := t.size_pos
    have hsome : t.encode v ≠ [] :=
      List.length_pos_iff.mp (by rw [ScalarType.length_encode]; exact hsize)
    -- after the first value the two packets are the same
    have hfirst := insert_ok (v := v) (p := p)
      (by rw [hempty, List.length_nil]; omega) hpos (by omega)
    have hfirst' := insert_ok (v := v) (p := p.reaching) (by omega) hpos (by omega)
    rw [insertAll, EStateM.run_bind, EStateM.run_bind, hfirst, hfirst',
      written_reaching hsome hpos hempty]

theorem reaching_valid (hpos : 2 ≤ p.writePos) (hread : p.readPos = p.writePos) :
    p.reaching.Valid where
  consistent := by
    have hlen := length_reaching hpos
    rw [verifySize_iff, hlen]
    refine ⟨by omega, ?_⟩
    show (frame _).take 2 = _
    rw [frame, List.take_append_of_le_length (by simp), List.take_of_length_le (by simp),
      List.length_replicate]
  readPos := by
    have hlen := length_reaching hpos
    show 2 ≤ p.readPos ∧ p.readPos ≤ p.reaching.data.length
    omega
  writePos := by
    have hlen := length_reaching hpos
    show 2 ≤ p.writePos ∧ p.writePos ≤ p.reaching.data.length
    omega

end MovedFrom

/-! ## Moves -/

/-- Values can be written into the packet with `<<` and read back with `>>`, and then the
packet has been read to its end. -/
def Refills (p : Packet) (vs : List Value) : Prop :=
  ∃ q r, (insertAll vs).run p = .ok () q ∧ (extractAll (vs.map Sigma.fst)).run q = .ok vs r ∧
    r.atEnd = true

/-- The ways to move a packet to another one. -/
inductive Move
  | construct
  | assign (self : Packet)

/-- The packet a move makes, and what it leaves of the other. -/
def Move.apply : Move → Packet → Packet × Packet
  | .construct, other => moveConstruct other
  | .assign self, other => moveAssign self other

/-- The move transfers everything, and leaves a packet that can be used for the values. -/
structure Moves (m : Move) (p : Packet) (vs : List Value) : Prop where
  transferred : (m.apply p).1 = p
  emptied : (m.apply p).2.empty = true
  refills : (m.apply p).2.Refills vs

section Moves

variable {p : Packet} {vs : List Value}

/-- A packet with an empty buffer takes values if its cursors stand at the same place. -/
theorem refills_iff (hlimits : p.InLimits) (hread : InRange p.readPos) (hempty : p.data = []) :
    p.Refills vs ↔
      vs ≠ [] ∧ p.readPos = p.writePos ∧ p.writePos + (encodeAll vs).length < datagramSize := by
  have hrange := hread
  simp only [InRange, datagramSize] at hrange
  have hwrite := hlimits.2
  constructor
  · rintro ⟨q, r, hinsert, hextract, hend⟩
    have hne : vs ≠ [] := by
      rintro rfl
      -- the read cursor of an empty buffer stands behind its end
      cases hinsert
      cases hextract
      rw [atEnd, toSize_of_nonneg (by omega) (by omega), realSize, hempty, beq_iff_eq,
        List.length_nil] at hend
      omega
    have hgrown := insertAll_returns hlimits hinsert hne
    have hcursor : q.readPos = p.readPos := by rw [hgrown.frame]
    have hle := hgrown.length_le
    have hlen := hgrown.length_eq
    rw [hempty, List.length_nil] at hlen
    obtain rfl := extractAll_returns (by omega) hextract
    rw [← length_encodeAll] at hend
    have hlast : (q.advanced (encodeAll vs).length).readPos =
        p.readPos + (encodeAll vs).length := by rw [← hcursor]; rfl
    have hsize : (q.advanced (encodeAll vs).length).realSize = q.data.length := rfl
    simp only [datagramSize] at hle
    rw [atEnd, beq_iff_eq, hlast, hsize, toSize_of_nonneg (by omega) (by omega)] at hend
    -- the end of what was read is the end of what was written
    have hsame : p.readPos = p.writePos := by omega
    have hlt := hgrown.length_lt (by omega)
    exact ⟨hne, hsame, by omega⟩
  · rintro ⟨hne, hsame, hfits⟩
    have hpos : 2 ≤ p.writePos := by omega
    have hvalid := reaching_valid hpos hsame
    have hlen := length_reaching hpos
    have hcursor : p.reaching.writePos = p.writePos := rfl
    simp only [datagramSize] at hfits
    have hinsert := insertAll_run vs hvalid (by simp only [datagramSize]; omega)
      (by simp only [datagramSize]; omega)
    have hlen' := length_written (encodeAll vs) p.reaching
    have hstart : (p.reaching.written (encodeAll vs)).readPos = p.reaching.writePos := hsame
    have hextract := extractAll_of_prefixed (p := p.reaching.written (encodeAll vs)) vs
      (by rw [hstart]; omega) (by omega)
      (by rw [hstart]; exact prefix_written _ hvalid.writePos)
    refine ⟨_, _, ?_, hextract, ?_⟩
    · rw [insertAll_reaching hne hpos hempty (by simp only [datagramSize]; omega)]
      exact hinsert
    · show (toSize ((p.reaching.written (encodeAll vs)).readPos + _) ==
        (p.reaching.written (encodeAll vs)).data.length) = true
      rw [hstart, toSize_of_nonneg (by omega) (by omega), beq_iff_eq]
      omega

/-- **Moves.** Every move transfers everything.  What it leaves can be used for a list of values
exactly when the list is not empty, both cursors stood at the same place, and the values fit
behind that place. -/
theorem moves_iff (hp : Reachable p) (m : Move) :
    Moves m p vs ↔
      vs ≠ [] ∧ p.readPos = p.writePos ∧ p.writePos + (encodeAll vs).length < datagramSize := by
  have hsound := reachable_sound hp
  have hleft : (m.apply p).2 = p.movedFrom := by cases m <;> rfl
  have htransferred : (m.apply p).1 = p := by cases m <;> rfl
  have hiff : p.movedFrom.Refills vs ↔
      vs ≠ [] ∧ p.readPos = p.writePos ∧ p.writePos + (encodeAll vs).length < datagramSize :=
    refills_iff hsound.movedFrom.inLimits hsound.movedFrom.readPos rfl
  constructor
  · intro h
    have hrefills := h.refills
    rw [hleft] at hrefills
    exact hiff.mp hrefills
  · intro h
    refine ⟨htransferred, ?_, ?_⟩
    · rw [hleft]
      rfl
    · rw [hleft]
      exact hiff.mpr h

/-- A new packet, which is moved from and then takes one byte. -/
theorem moves_iff_fresh : Moves .construct fresh [⟨.uint8, 7⟩] :=
  (moves_iff reachable_fresh .construct).mpr (by decide)

/-- A packet to which four bytes have been written: what is written after the move is put
behind them, and what is read is the gap that was left. -/
theorem not_moves_written :
    let p : Packet := { data := [4, 0, 1, 2, 3, 4], readPos := 2, writePos := 6 }
    Reachable p ∧ ¬Moves .construct p [⟨.uint8, 7⟩] := by
  have hp : Reachable { data := [4, 0, 1, 2, 3, 4], readPos := 2, writePos := 6 } :=
    reachable_written [1, 2, 3, 4] rfl
  refine ⟨hp, ?_⟩
  rw [moves_iff hp]
  decide

end Moves

end Sws.Packet
