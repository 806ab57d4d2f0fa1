import Sws.Packet.StringFormat

/-!
# Packets Appended to Packets

`<<` with a packet writes its payload, as one primitive write, and then compares the count with
the size of the packet that was written.  With the packet itself that is the size after the
write, which has changed if the packet has grown.

## Key Results

- `insertItems_ok`, `insertItems_returns`: lists of values and strings are one write.
- `appendsOther_iff`, `appendsSelf_iff`: when a packet is appended as a copy of its payload is.
- `appends_iff`: both at once.
-/

namespace Sws.Packet

open Sws.Foundation

/-! ## Values and strings -/

/-- What `<<` writes, packets apart. -/
inductive Item
  | value (t : ScalarType) (v : t.Val)
  | string (order : EvalOrder) (s : List UInt8)

namespace Item

def insert : Item → PacketM Unit
  | value t v => Packet.insert t v
  | string order s => insertString order s

/-- The bytes the item takes in a packet. -/
def encode : Item → List UInt8
  | value t v => t.encode v
  | string order s => encodeString order s

/-- A string is not too long to be written. -/
def Short : Item → Prop
  | value _ _ => True
  | string _ s => s.length ≤ maxStringLength

/-- A string has characters. -/
def HasBytes : Item → Prop
  | value _ _ => True
  | string _ s => s ≠ []

/-- The writes of the item have a byte to write, or one of the packet to refer to. -/
def Inside (p : Packet) : Item → Prop
  | value _ _ => True
  | string order s => CharsInside order p s

theorem HasBytes.inside {p : Packet} {i : Item} (h : i.HasBytes) : i.Inside p := by
  cases i with
  | value t v => trivial
  | string order s => exact .inl h

theorem length_encode_pos (i : Item) : 0 < i.encode.length := by
  cases i with
  | value t v => exact t.length_encode_pos v
  | string order s =>
    rw [encode, length_encodeString]
    omega

end Item

/-- `<<` for each of the items in order. -/
def insertItems : List Item → PacketM Unit
  | [] => pure ()
  | i :: is => do
    i.insert
    insertItems is

/-- The bytes of the items, one behind the other. -/
def encodeItems (is : List Item) : List UInt8 := is.flatMap Item.encode

section Items

variable {p q : Packet} {i : Item} {is : List Item}

/-- Two writes return only if both have been made. -/
theorem writeBoth_returns {a b : List UInt8} {n : ℕ} (hp : p.Valid) (hlen : p.data.length < 2 ^ 62)
    (hsome : 0 < a.length + b.length) (hrun : (writeBoth a b).run p = .ok n q) :
    WritesWhole p (a.length + b.length) ∧ ¬NoByte p a.length ∧
      ¬NoByte (p.written a) b.length := by
  have hwrite := hp.writePos
  rw [writeBoth_run] at hrun
  rcases writeData_whole hp hlen a with
    ⟨hrefuses, hfirst⟩ | ⟨-, q', hfirst, -⟩ | ⟨-, hfirst⟩ | ⟨hfits, hbyte, hfirst⟩
  · -- a packet that refuses the first has no room for the second either, or it falls short
    rw [refuses_iff hp] at hrefuses
    simp only [hfirst, Nat.zero_add] at hrun
    rcases writeData_whole hp hlen b with
      ⟨-, hsecond⟩ | ⟨-, q', hsecond, -⟩ | ⟨-, hsecond⟩ | ⟨⟨hfull, hend, -⟩, -, hsecond⟩
    · have hshort : ¬0 = a.length + b.length := by omega
      simp only [hsecond, if_neg hshort, reduceCtorEq] at hrun
    · simp only [hsecond, reduceCtorEq] at hrun
    · simp only [hsecond, reduceCtorEq] at hrun
    · have hshort : ¬b.length = a.length + b.length := by omega
      simp only [hsecond, if_neg hshort, reduceCtorEq] at hrun
  · simp only [hfirst, reduceCtorEq] at hrun
  · simp only [hfirst, reduceCtorEq] at hrun
  · simp only [hfirst] at hrun
    have hlen' := length_written a p
    have hcursor : (p.written a).writePos = p.writePos + a.length := rfl
    obtain ⟨hfull, hend, hless⟩ := hfits
    simp only [datagramSize] at hend
    rcases writeData_whole (written_valid a hp) (by omega) b with
      ⟨hrefuses, hsecond⟩ | ⟨-, q', hsecond, -⟩ | ⟨-, hsecond⟩ |
        ⟨⟨hfull', hend', hless'⟩, hbyte', hsecond⟩
    · -- a second write that is refused is one of something
      rw [refuses_iff (written_valid a hp)] at hrefuses
      simp only [datagramSize] at hrefuses hfull hless
      have hshort : ¬a.length + 0 = a.length + b.length := by omega
      simp only [hsecond, if_neg hshort, reduceCtorEq] at hrun
    · simp only [hsecond, reduceCtorEq] at hrun
    · simp only [hsecond, reduceCtorEq] at hrun
    · refine ⟨⟨hfull, by omega, fun hlt => ?_⟩, hbyte, hbyte'⟩
      have hbelow := hless hlt
      have hbelow' := hless' (by omega)
      omega

/-- An item for which there is room is written as its bytes. -/
theorem Item.insert_ok (hp : p.Valid) (hlen : p.data.length < 2 ^ 62) (hshort : i.Short)
    (hfits : WritesWhole p i.encode.length) (hinside : i.Inside p) :
    i.insert.run p = .ok () (p.written i.encode) := by
  cases i with
  | value t v =>
    have hinsert : Packet.insert t v = writeEnforced (t.encode v) := by cases t <;> rfl
    have hbyte : ¬NoByte p (t.encode v).length := fun hnone =>
      (t.length_encode_pos v).ne' hnone.1
    have hwrite := writeData_whole_ok hp hlen hfits hbyte
    show (Packet.insert t v).run p = _
    rw [hinsert, writeEnforced, writeEnforcedWith, EStateM.run_bind]
    rw [writeData] at hwrite
    simp only [Item.encode] at hwrite
    simp only [hwrite, enforce_run, if_true, Item.encode]
  | string order s =>
    rw [Item.encode, length_encodeString] at hfits
    have hwrite := writeString_written order hp hlen hshort hfits hinside
    show (insertString order s).run p = _
    rw [insertString, EStateM.run_bind, hwrite]
    rfl

/-- A value whose write returns was written: a write that is refused gives 0, which is the size of
no value. -/
theorem writesWhole_of_insert {t : ScalarType} {v : t.Val} (hp : p.Valid)
    (hlen : p.data.length < 2 ^ 62) (hrun : (Packet.insert t v).run p = .ok () q) :
    WritesWhole p (t.encode v).length := by
  have hinsert : Packet.insert t v = writeEnforced (t.encode v) := by cases t <;> rfl
  have hsize := t.length_encode_pos v
  rw [hinsert, writeEnforced, writeEnforcedWith, EStateM.run_bind, ← writeData] at hrun
  rcases writeData_whole hp hlen (t.encode v) with
    ⟨-, hwrite⟩ | ⟨-, q', hwrite, -⟩ | ⟨⟨hnone, -⟩, -⟩ | ⟨hfits, -⟩
  · rw [hwrite] at hrun
    simp only [enforce_run, if_neg (show ¬0 = (t.encode v).length by omega)] at hrun
    cases hrun
  · rw [hwrite] at hrun
    cases hrun
  · omega
  · exact hfits

/-- The two writes of a string return only if both have been made, in either order. -/
theorem inOrder_returns {order : EvalOrder} {s : List UInt8} {n : ℕ} (hp : p.Valid)
    (hlen : p.data.length < 2 ^ 62) (hrun : (inOrder order s).run p = .ok n q) :
    WritesWhole p (2 + s.length) ∧ CharsInside order p s := by
  have hwrite := hp.writePos
  have hlength := length_lengthPrefix s
  have hlen' := length_written (lengthPrefix s) p
  have hcursor : (p.written (lengthPrefix s)).writePos = p.writePos + 2 := rfl
  rw [hlength] at hlen'
  rw [CharsInside, ← List.length_pos_iff]
  cases order with
  | leftFirst =>
    obtain ⟨hwhole, -, hbyte⟩ := writeBoth_returns hp hlen (by omega) hrun
    rw [hlength] at hwhole
    refine ⟨hwhole, ?_⟩
    -- the characters come behind the length
    obtain ⟨hfull, hend, hless⟩ := hwhole
    simp only [NoByte, hcursor, lengthAhead] at hbyte ⊢
    omega
  | rightFirst =>
    obtain ⟨hwhole, hbyte, -⟩ := writeBoth_returns hp hlen (by omega) hrun
    rw [hlength, Nat.add_comm] at hwhole
    refine ⟨hwhole, ?_⟩
    obtain ⟨hfull, hend, hless⟩ := hwhole
    simp only [NoByte, lengthAhead] at hbyte ⊢
    omega

/-- An item whose write returns was written as its bytes. -/
theorem Item.insert_returns (hp : p.Valid) (hlen : p.data.length < 2 ^ 62)
    (hrun : i.insert.run p = .ok () q) :
    i.Short ∧ WritesWhole p i.encode.length ∧ i.Inside p := by
  cases i with
  | value t v => exact ⟨trivial, writesWhole_of_insert hp hlen hrun, trivial⟩
  | string order s =>
    have hrun' : (insertString order s).run p = .ok () q := hrun
    rw [insertString, EStateM.run_bind] at hrun'
    -- a string that is too long throws before anything is written
    rcases Nat.lt_or_ge maxStringLength s.length with hlong | hs
    · have hthrows : (writeString order s).run p =
          .error (.thrown (.logicError "String too long!")) p := by
        simp only [writeString, EStateM.run_bind, enforce_run, if_neg (not_le.mpr hlong)]
      rw [hthrows] at hrun'
      cases hrun'
    · refine ⟨hs, ?_⟩
      rw [Item.encode, length_encodeString]
      rw [writeString_run order hs] at hrun'
      cases hboth : (inOrder order s).run p with
      | error e q' =>
        rw [hboth] at hrun'
        cases hrun'
      | ok n q' => exact inOrder_returns hp hlen hboth

/-- A list of items is one write of their bytes. -/
theorem insertItems_ok (hp : p.Valid) (hlen : p.data.length < 2 ^ 62)
    (hshort : ∀ i ∈ is, i.Short) (hbytes : ∀ i ∈ is, i.HasBytes)
    (hfits : WritesWhole p (encodeItems is).length) :
    (insertItems is).run p = .ok () (p.written (encodeItems is)) := by
  induction is generalizing p with
  | nil => rw [encodeItems, List.flatMap_nil, written_nil hp]; rfl
  | cons i is ih =>
    have hsplit : encodeItems (i :: is) = i.encode ++ encodeItems is := List.flatMap_cons ..
    have hwrite := hp.writePos
    have hlen' := length_written i.encode p
    rw [hsplit, List.length_append] at hfits
    obtain ⟨-, hend, -⟩ := hfits.left
    simp only [datagramSize] at hend
    -- the first item leaves a valid packet with room for the others
    have hrest := ih (written_valid i.encode hp) (by omega)
      (fun j hj => hshort j (List.mem_cons_of_mem i hj))
      (fun j hj => hbytes j (List.mem_cons_of_mem i hj)) (hfits.right hp)
    rw [insertItems, EStateM.run_bind, Item.insert_ok hp hlen (hshort i List.mem_cons_self)
      hfits.left (hbytes i List.mem_cons_self).inside]
    simp only [hrest, hsplit, written_written _ _ hwrite]

/-- If the writes of a list return, the first has been made, and the others start behind it. -/
theorem insertItems_cons_returns (hp : p.Valid) (hlen : p.data.length < 2 ^ 62)
    (hrun : (insertItems (i :: is)).run p = .ok () q) :
    i.Short ∧ i.Inside p ∧ (p.written i.encode).data.length < 2 ^ 62 ∧
      (insertItems is).run (p.written i.encode) = .ok () q := by
  have hwrite := hp.writePos
  have hlen' := length_written i.encode p
  rw [insertItems, EStateM.run_bind] at hrun
  cases hfirst : i.insert.run p with
  | error e p' =>
    rw [hfirst] at hrun
    cases hrun
  | ok _ p' =>
    obtain ⟨hshort, hfits, hinside⟩ := Item.insert_returns hp hlen hfirst
    have hwritten := Item.insert_ok hp hlen hshort hfits hinside
    rw [hfirst] at hwritten
    cases hwritten
    rw [hfirst] at hrun
    obtain ⟨-, hend, -⟩ := hfits
    simp only [datagramSize] at hend
    exact ⟨hshort, hinside, by omega, hrun⟩

/-- Items whose writes return were written as their bytes. -/
theorem insertItems_returns (hp : p.Valid) (hlen : p.data.length < 2 ^ 62)
    (hrun : (insertItems is).run p = .ok () q) :
    (∀ i ∈ is, i.Short) ∧ q = p.written (encodeItems is) := by
  induction is generalizing p with
  | nil =>
    cases hrun
    refine ⟨fun _ hi => absurd hi List.not_mem_nil, ?_⟩
    rw [encodeItems, List.flatMap_nil, written_nil hp]
  | cons i is ih =>
    have hsplit : encodeItems (i :: is) = i.encode ++ encodeItems is := List.flatMap_cons ..
    obtain ⟨hshort, -, hlen', hrest⟩ := insertItems_cons_returns hp hlen hrun
    obtain ⟨hothers, rfl⟩ := ih (written_valid i.encode hp) hlen' hrest
    exact ⟨List.forall_mem_cons.mpr ⟨hshort, hothers⟩,
      by rw [hsplit, written_written _ _ hp.writePos]⟩

/-- At the end of a packet no empty string is written. -/
theorem hasBytes_of_insertItems (hp : p.Valid) (hlen : p.data.length < 2 ^ 62)
    (hend : p.writePos = p.data.length) (hrun : (insertItems is).run p = .ok () q) :
    ∀ i ∈ is, i.HasBytes := by
  induction is generalizing p with
  | nil => exact fun _ hi => absurd hi List.not_mem_nil
  | cons i is ih =>
    have hwrite := hp.writePos
    have hsize := length_written i.encode p
    have hcursor : (p.written i.encode).writePos = p.writePos + i.encode.length := rfl
    obtain ⟨-, hinside, hlen', hrest⟩ := insertItems_cons_returns hp hlen hrun
    -- the packet has grown, and its write cursor stands at the end again
    refine List.forall_mem_cons.mpr ⟨?_, ih (written_valid i.encode hp) hlen' (by omega) hrest⟩
    cases i with
    | value t v => trivial
    | string order s => exact hinside.resolve_right (by omega)

end Items

/-! ## Appending -/

/-- What a packet holds behind its header. -/
def payload (p : Packet) : List UInt8 := p.data.drop 2

/-- A write of a copy of the bytes, if there are any. -/
def writeCopy (bytes : List UInt8) : PacketM ℕ := do
  if bytes = [] then return 0
  writeData bytes true

/-- `p << q` leaves `q` alone and makes of `p` what a write of a copy of the payload of `q` does;
and what the writes do that have made `q`. -/
def AppendsOther (p q : Packet) : Prop :=
  ∃ p', (writeCopy q.payload).run p = .ok q.payload.length p' ∧
    appendPacket.run ⟨p, q⟩ = .ok () ⟨p', q⟩ ∧
    ∀ is, (insertItems is).run fresh = .ok () q → (insertItems is).run p = .ok () p'

/-- `p << p` does what a write of a copy of the payload does. -/
def AppendsSelf (p : Packet) : Prop :=
  ∃ p', (writeCopy p.payload).run p = .ok p.payload.length p' ∧
    insertSelf.run p = .ok () p'

section Appending

variable {p q : Packet}

/-- The payload of a packet made by writing items holds their bytes. -/
theorem payload_of_insertItems {is : List Item} (hrun : (insertItems is).run fresh = .ok () q) :
    (∀ i ∈ is, i.Short) ∧ (∀ i ∈ is, i.HasBytes) ∧ q.payload = encodeItems is := by
  have hbytes := hasBytes_of_insertItems fresh_valid (by decide) rfl hrun
  obtain ⟨hshort, rfl⟩ := insertItems_returns fresh_valid (by decide) hrun
  refine ⟨hshort, hbytes, ?_⟩
  rw [payload, drop_written _ fresh_valid.writePos]
  simp [fresh, splice]

/-- A copy of the payload is written as a whole, unless the packet is full. -/
theorem writeCopy_payload (hp : p.Valid) (hlen : p.data.length < 2 ^ 62)
    (hfits : p.writePos + q.workSize ≤ 65535) (hroom : p.data.length ≠ datagramSize) :
    WritesWhole p q.payload.length ∧
      (writeCopy q.payload).run p = .ok q.payload.length (p.written q.payload) := by
  have hsize : q.payload.length = q.workSize := length_payload q
  have hwhole : WritesWhole p q.payload.length := by
    simp only [WritesWhole, datagramSize] at hroom ⊢
    omega
  refine ⟨hwhole, ?_⟩
  rcases eq_or_ne q.payload [] with hnone | hsome
  · rw [writeCopy, if_pos hnone, hnone, written_nil hp]
    rfl
  · have hbyte : ¬NoByte p q.payload.length :=
      fun h => hsome (List.length_eq_zero_iff.mp h.1)
    rw [writeCopy, if_neg hsome]
    exact writeData_whole_ok hp hlen hwhole hbyte

/-- Writing a packet is one primitive write of its payload, or nothing if there is none. -/
theorem writePacket_run (hp : p.Valid) (hlen : p.data.length < 2 ^ 62)
    (hfits : p.writePos + q.workSize ≤ 65535) (hroom : p.data.length ≠ datagramSize) :
    (writePacket q).run p = .ok q.workSize (p.written q.payload) := by
  obtain ⟨-, hwrite⟩ := writeCopy_payload hp hlen hfits hroom
  cases hempty : q.empty with
  | true =>
    have hnone : q.workSize = 0 := beq_iff_eq.mp hempty
    have hpayload : q.payload = [] := by
      apply List.length_eq_zero_iff.mp
      rw [payload, length_payload, hnone]
    rw [writePacket, if_pos hempty, hpayload, written_nil hp, hnone]
    rfl
  | false =>
    have hsome : q.payload ≠ [] := fun hnone => by
      have hsize : q.payload.length = q.workSize := length_payload q
      rw [hnone, List.length_nil] at hsize
      rw [empty, ← hsize] at hempty
      cases hempty
    rw [writeCopy, if_neg hsome] at hwrite
    rw [writePacket_eq hempty, ← length_payload q]
    exact hwrite

theorem appendPacket_run (p q : Packet) :
    appendPacket.run ⟨p, q⟩ =
      match (writePacket q).run p with
      | .ok n p' => if n = q.workSize then .ok () ⟨p', q⟩ else
          .error (.thrown (.logicError "Failed to write packet data to packet instance.")) ⟨p', q⟩
      | .error e p' => .error e ⟨p', q⟩ := by
  simp only [appendPacket, EStateM.run_bind, EStateM.run_get]
  cases hrun : (writePacket q).run p with
  | error e p' =>
    rw [zoom_run_of_error hrun]
  | ok n p' =>
    rw [zoom_run_of_ok hrun]
    exact enforce_run ..

/-- **Another packet** is appended as its payload is, if there is none or the packet it is
appended to is not full. -/
theorem appendsOther_iff (hp : p.Valid) (hlen : p.data.length < 2 ^ 62)
    (hfits : p.writePos + q.workSize ≤ 65535) :
    AppendsOther p q ↔ q.empty = true ∨ p.data.length ≠ datagramSize := by
  have hsize : q.payload.length = q.workSize := length_payload q
  rcases eq_or_ne p.data.length datagramSize with hfull | hroom
  · have hrefused : (writeCopy q.payload).run p = .ok 0 p := by
      rw [writeCopy]
      split
      · rfl
      · exact writeData_refused (.inl hfull)
    constructor
    · rintro ⟨p', hwrite, -⟩
      -- a full packet takes nothing, so nothing was there to be taken
      rw [hrefused] at hwrite
      injection hwrite with hnone
      exact .inl (beq_iff_eq.mpr (by omega))
    · rintro (hempty | hroom)
      · have hnone : q.workSize = 0 := beq_iff_eq.mp hempty
        have hnothing : (writePacket q).run p = .ok 0 p := by
          rw [writePacket, if_pos hempty]
          rfl
        refine ⟨p, by rw [hrefused, hsize, hnone], ?_, fun is his => ?_⟩
        · rw [appendPacket_run, hnothing]
          exact if_pos hnone.symm
        · -- the only list that leaves a new packet empty is the empty list
          obtain ⟨-, -, hpayload⟩ := payload_of_insertItems his
          cases is with
          | nil => rfl
          | cons i is =>
            have hlong := i.length_encode_pos
            have hsplit : encodeItems (i :: is) = i.encode ++ encodeItems is :=
              List.flatMap_cons ..
            rw [hpayload, hsplit, List.length_append] at hsize
            omega
      · exact absurd hfull hroom
  · obtain ⟨hwhole, hwrite⟩ := writeCopy_payload hp hlen hfits hroom
    refine iff_of_true ⟨p.written q.payload, hwrite, ?_, fun is his => ?_⟩ (.inr hroom)
    · rw [appendPacket_run, writePacket_run hp hlen hfits hroom]
      exact if_pos rfl
    · obtain ⟨hshort, hbytes, hpayload⟩ := payload_of_insertItems his
      rw [hpayload] at hwhole ⊢
      exact insertItems_ok hp hlen hshort hbytes hwhole

/-- **The packet itself** is appended as its payload is, if there is none or it is written over
itself: otherwise the packet grows, and the count falls short of its new size. -/
theorem appendsSelf_iff (hp : p.Valid) (hlen : p.data.length < 2 ^ 62)
    (hfits : p.writePos + p.workSize ≤ 65535) :
    AppendsSelf p ↔ p.empty = true ∨ p.writePos = 2 := by
  have hwrite := hp.writePos
  have hsize : p.payload.length = p.workSize := length_payload p
  have hwork := workSize_eq p
  have hroom : p.data.length ≠ datagramSize := by simp only [datagramSize]; omega
  obtain ⟨-, hcopy⟩ := writeCopy_payload hp hlen hfits hroom
  have hgrown : (p.written p.payload).workSize = max p.data.length
      (p.writePos.toNat + p.workSize) - 2 := by
    rw [workSize_eq, length_written, hsize]
    omega
  -- the count is compared with the size after the write
  have hself : insertSelf.run p =
      if p.workSize = (p.written p.payload).workSize then .ok () (p.written p.payload)
      else .error (.thrown (.logicError "Failed to write packet data to packet instance."))
        (p.written p.payload) := by
    simp only [insertSelf, EStateM.run_bind, EStateM.run_get,
      writePacket_run hp hlen hfits hroom, enforce_run]
  have hempty : p.empty = true ↔ p.workSize = 0 := beq_iff_eq
  constructor
  · rintro ⟨p', -, hrun⟩
    rw [hself] at hrun
    split_ifs at hrun with hsame
    rw [hempty]
    omega
  · intro h
    rw [hempty] at h
    refine ⟨_, hcopy, ?_⟩
    rw [hself]
    exact if_pos (by omega)

/-- **Appending packets.** For all packets and all payloads that fit. -/
theorem appends_iff (hp : p.Valid) (hlen : p.data.length < 2 ^ 62) :
    (∀ q, q.Valid → p.writePos + q.workSize ≤ 65535 →
      (AppendsOther p q ↔ q.empty = true ∨ p.data.length ≠ datagramSize)) ∧
    (p.writePos + p.workSize ≤ 65535 →
      (AppendsSelf p ↔ p.empty = true ∨ p.writePos = 2)) :=
  ⟨fun _ _ hfits => appendsOther_iff hp hlen hfits, appendsSelf_iff hp hlen⟩

/-- A packet with two bytes, and its payload once more. -/
def twoBytes : Packet := { data := [2, 0, 1, 2], readPos := 2, writePos := 4 }

theorem twoBytes_valid : twoBytes.Valid := ⟨by decide, by decide, by decide⟩

/-- It can be appended to another packet. -/
theorem appends_iff_twoBytes : AppendsOther fresh twoBytes :=
  ((appends_iff fresh_valid (by decide)).1 twoBytes twoBytes_valid (by decide)).mpr
    (.inr (by decide))

/-- Appended to itself it has been written as a whole when the exception is thrown. -/
theorem not_appendsSelf :
    insertSelf.run twoBytes =
      .error (.thrown (.logicError "Failed to write packet data to packet instance."))
        { data := [4, 0, 1, 2, 1, 2], readPos := 2, writePos := 6 } ∧
    twoBytes.Valid ∧ ¬AppendsSelf twoBytes := by
  refine ⟨rfl, twoBytes_valid, ?_⟩
  rw [appendsSelf_iff twoBytes_valid (by decide) (by decide)]
  decide

end Appending

end Sws.Packet
