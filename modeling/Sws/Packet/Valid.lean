import Sws.Packet.Spec

/-!
# Valid Packets

A packet is valid when its header holds the size of its payload and both cursors stand in
the payload or at its end.  Constructors and `clear` give valid packets, and a write that
does not throw keeps a packet valid.
-/

namespace Sws.Packet

open Sws.Foundation

/-! ## The header -/

/-- The header holds exactly the size of the payload. -/
theorem verifySize_iff (p : Packet) :
    p.verifySize = true ↔ 2 ≤ p.data.length ∧ p.data.take 2 = toBytes 2 (p.data.length - 2) := by
  simp only [verifySize, workSize_eq, Bool.and_eq_true, decide_eq_true_eq, beq_iff_eq,
    packetlenSize]
  refine and_congr_right fun hlen => ?_
  have htake : (p.data.take 2).length = 2 := by rw [List.length_take]; omega
  -- two bytes are determined by the number they hold, and the other way round
  constructor
  · intro h
    have hbytes := toBytes_ofBytes (p.data.take 2)
    rw [htake, h] at hbytes
    rw [← hbytes, toBytes_eq_iff]
    norm_num
  · intro h
    rw [h, ofBytes_toBytes]
    norm_num

/-- The bytes of a packet with a given payload. -/
def frame (payload : List UInt8) : List UInt8 := toBytes 2 payload.length ++ payload

@[simp] theorem length_frame (payload : List UInt8) :
    (frame payload).length = payload.length + 2 := by
  simp [frame, Nat.add_comm]

@[simp] theorem drop_frame (payload : List UInt8) : (frame payload).drop 2 = payload := by
  rw [frame, List.drop_append_of_le_length (by simp), List.drop_of_length_le (by simp),
    List.nil_append]

/-- A packet with a consistent header is the frame of its payload. -/
theorem data_of_verifySize {p : Packet} (h : p.verifySize = true) :
    p.data = frame (p.data.drop 2) := by
  obtain ⟨-, htake⟩ := p.verifySize_iff.mp h
  rw [frame, List.length_drop, ← htake, List.take_append_drop]

/-- A header that has just been written is right. -/
theorem stamped_verifySize (p : Packet) : p.stamped.verifySize = true := by
  rw [verifySize_iff, take_stamped, workSize_eq, length_stamped]
  exact ⟨Nat.le_max_right .., by congr 1; omega⟩

/-! ## Validity -/

/-- The header is consistent and both cursors lie in `[2, data_.size()]`. -/
structure Valid (p : Packet) : Prop where
  consistent : p.verifySize = true
  readPos : 2 ≤ p.readPos ∧ p.readPos ≤ p.data.length
  writePos : 2 ≤ p.writePos ∧ p.writePos ≤ p.data.length

/-- The packet a constructor makes. -/
def fresh : Packet := { data := [0, 0], readPos := 2, writePos := 2 }

theorem construct_eq : construct = .ok () fresh := clear_run {}

theorem constructReserve_of_ge {reserve : ℕ} (h : reserve ≥ 2) :
    constructReserve reserve = .ok () fresh := by
  show EStateM.run _ _ = _
  rw [EStateM.run_bind, enforce_run, if_pos h]
  exact clear_run {}

/-- A constructor made the packet. -/
def Constructed (p : Packet) : Prop :=
  construct = .ok () p ∨ ∃ reserve, constructReserve reserve = .ok () p

/-- Every constructor makes the same packet. -/
theorem constructed_iff {p : Packet} : Constructed p ↔ p = fresh := by
  have heq : ∀ {q : Packet}, (EStateM.Result.ok () fresh : EStateM.Result Fault Packet Unit) =
      .ok () q ↔ q = fresh := by
    intro q
    constructor
    · intro h
      cases h
      rfl
    · rintro rfl
      rfl
  constructor
  · rintro (h | ⟨reserve, h⟩)
    · rwa [construct_eq, heq] at h
    · rcases Nat.lt_or_ge reserve 2 with hsmall | henough
      · -- a reserve too small for the header throws
        have hrun : constructReserve reserve = EStateM.run _ _ := rfl
        rw [hrun, EStateM.run_bind, enforce_run, if_neg (not_le.mpr hsmall)] at h
        cases h
      · rwa [constructReserve_of_ge henough, heq] at h
  · rintro rfl
    exact .inl construct_eq

theorem fresh_valid : fresh.Valid :=
  ⟨by decide, by decide, by decide⟩

theorem cleared_valid (p : Packet) : p.cleared.Valid :=
  ⟨by simp [cleared, verifySize, workSize, ofBytes], by simp [cleared], by simp [cleared]⟩

/-! ## Writing into a valid packet -/

section Written

variable {p : Packet}

theorem length_written (bytes : List UInt8) (p : Packet) :
    (p.written bytes).data.length =
      max (max p.data.length (p.writePos.toNat + bytes.length)) 2 := by
  rw [written, length_stamped, length_copyIn]

/-- The header after a write is up to date. -/
theorem written_verifySize (bytes : List UInt8) (p : Packet) :
    (p.written bytes).verifySize = true :=
  (p.copyIn bytes).stamped_verifySize

/-- The payload after a write: the bytes are put at the write cursor, and what lies behind
them stays. -/
theorem drop_written (bytes : List UInt8)
    (hpos : 2 ≤ p.writePos ∧ p.writePos ≤ p.data.length) :
    (p.written bytes).data.drop 2 =
      splice (p.data.drop 2) (p.writePos.toNat - 2) bytes := by
  have hsplit : p.writePos.toNat = 2 + (p.writePos.toNat - 2) := by omega
  show (p.copyIn bytes).stamped.data.drop 2 = _
  rw [drop_stamped, data_copyIn hpos.2]
  -- the position behind the header, counted from the end of the header
  conv_lhs => rw [hsplit]
  exact drop_splice _ _ (by omega)

theorem written_valid (bytes : List UInt8) (h : p.Valid) : (p.written bytes).Valid := by
  have hread := h.readPos
  have hwrite := h.writePos
  have hlen := length_written bytes p
  refine ⟨written_verifySize bytes p, ?_, ?_⟩
  · show 2 ≤ p.readPos ∧ p.readPos ≤ (p.written bytes).data.length
    omega
  · show 2 ≤ p.writePos + bytes.length ∧ p.writePos + bytes.length ≤ (p.written bytes).data.length
    omega

end Written

end Sws.Packet
