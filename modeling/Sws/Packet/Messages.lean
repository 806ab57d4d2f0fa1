import Sws.Packet.Appending
import Sws.Packet.Decoding
import Sws.Packet.Moving

/-!
# Messages of Values and Strings

A message is written with `<<`, one field after another, and read with `>>`, one type after
another.  What is read need not be what was written: of a string only the part in front of its
first NUL comes back, an empty one cannot be read at all, and where the characters are written in
front of the length, they are taken for it.

The order in which the two operands of the `+` in `write(const std::string&)` run is the same for
all strings of a program, and a parameter of this module.

## Key Results

- `extractField_of_prefixed`: the fields that are read as they are.
- `extractField_returns`: what is read of a field is never shorter than what was written.
- `messageReturns_iff`: the messages that come back, whatever else they are made of.
-/

namespace Sws.Packet

open Sws.Foundation

/-! ## Fields -/

/-- What a message is made of. -/
inductive Field
  | value (t : ScalarType) (v : t.Val)
  | string (s : List UInt8)

namespace Field

variable (order : EvalOrder)

/-- How a field is written. -/
def item : Field → Item
  | value t v => .value t v
  | string s => .string order s

def encode (x : Field) : List UInt8 := (x.item order).encode

/-- What `>>` gives back: a value of the type it is asked for, and a string that has characters,
none of them NUL, if there is a NUL in memory behind its temporary buffer and if its bytes are those
of its length and then its characters, as they always are when the length is written first. -/
def Survives : Field → Decodable → Prop
  | value t _, .scalar u => t = u
  | string s, .string beyond =>
    s ≠ [] ∧ 0 ∉ s ∧ 0 ∈ beyond ∧ encodeString order s = lengthPrefix s ++ s
  | _, _ => False

end Field

/-- `packet >> x` for a new variable `x`. -/
def extractField : Decodable → PacketM Field
  | .scalar t => do return .value t (← extract t)
  | .string beyond => do return .string ((← extractString beyond).getD [])

/-- `>>` for each of the types in order. -/
def extractFields : List Decodable → PacketM (List Field)
  | [] => pure []
  | d :: ds => do
    let x ← extractField d
    return x :: (← extractFields ds)

/-! ## One field -/

section One

variable {order : EvalOrder} {p q : Packet} {x : Field} {d : Decodable}

/-- Behind what was read lies the rest. -/
theorem prefix_advanced {a b : List UInt8} (hp : Readable p)
    (hpre : a ++ b <+: p.data.drop p.readPos.toNat) :
    Readable (p.advanced a.length) ∧
      b <+: (p.advanced a.length).data.drop (p.advanced a.length).readPos.toNat := by
  have hpos := hp.readPos
  have hle := hpre.length_le
  rw [List.length_append, List.length_drop] at hle
  refine ⟨hp.advanced (by rw [left]; omega), ?_⟩
  have hnat : (p.readPos + a.length).toNat = p.readPos.toNat + a.length := by omega
  obtain ⟨tail, htail⟩ := hpre
  show b <+: p.data.drop (p.readPos + a.length).toNat
  rw [hnat, ← List.drop_drop, ← htail, List.append_assoc, List.drop_left]
  exact List.prefix_append ..

/-- A string that has characters is read as what its pointer shows of it. -/
theorem extractString_of_prefixed {s beyond : List UInt8} (hp : Readable p)
    (hs : s.length ≤ maxStringLength) (hne : s ≠ []) (hnul : 0 ∈ s ++ beyond)
    (hpre : lengthPrefix s ++ s <+: p.data.drop p.readPos.toNat) :
    (extractString beyond).run p = .ok (some (viewed s beyond)) (p.advanced (2 + s.length)) := by
  have hread : (readString beyond).run p = _ :=
    readString_of_prefixed hs hne hp.readPos hp.length_lt hpre
  have hview := stringFromPointer_ok hnul (p.skippedFrom p.readPos s)
  have hcount : 2 + s.length ≠ 0 := by omega
  have hend : p.skippedFrom p.readPos s = p.advanced (2 + s.length) := by
    rw [skippedFrom, advanced, Nat.cast_add, ← Int.add_assoc]
    rfl
  rw [extractString_run, hread, hview]
  simp only [if_pos hcount, hend]

/-- A field that survives is read as it is. -/
theorem extractField_of_prefixed (hp : Readable p) (hshort : (x.item order).Short)
    (hx : x.Survives order d) (hpre : x.encode order <+: p.data.drop p.readPos.toNat) :
    (extractField d).run p = .ok x (p.advanced (x.encode order).length) := by
  cases x with
  | value t v =>
    cases d with
    | scalar u =>
      obtain rfl : t = u := hx
      have hread := extract_of_prefixed hp.readPos hp.length_lt hpre
      have hlen : ((Field.value t v).encode order).length = t.size := ScalarType.length_encode t v
      rw [extractField, EStateM.run_bind, hread, hlen]
      rfl
    | string beyond => exact hx.elim
  | string s =>
    cases d with
    | scalar u => exact hx.elim
    | string beyond =>
      -- its length is in front of its characters, whichever was written first
      obtain ⟨hne, hclean, hbeyond, hbytes⟩ := hx
      have hpre' : lengthPrefix s ++ s <+: p.data.drop p.readPos.toNat := by rwa [← hbytes]
      have hread := extractString_of_prefixed hp hshort hne (List.mem_append_right s hbeyond) hpre'
      have hlen : ((Field.string s).encode order).length = 2 + s.length :=
        length_encodeString order s
      rw [extractField, EStateM.run_bind, hread, (viewed_eq_iff s beyond).mpr hclean, hlen]
      rfl

/-- What the constructor sees of the characters, it has from the front of them. -/
theorem viewed_prefix (s beyond : List UInt8) : viewed s beyond <+: s := by
  have hpre : viewed s beyond <+: s ++ beyond :=
    (List.take_prefix _ _).trans (List.takeWhile_prefix _)
  have hlen : (viewed s beyond).length ≤ s.length := List.length_take_le ..
  exact (List.prefix_append_right_inj []).mp
    (List.prefix_of_prefix_length_le hpre (List.prefix_append s beyond) hlen)

/-- A string that was read is what the constructor sees of characters whose length was there. -/
theorem extractString_returns {beyond : List UInt8} {o : Option (List UInt8)} (hp : Readable p)
    (hrun : (extractString beyond).run p = .ok o q) :
    (2 ≤ p.left ∧ ¬CutShort p) ∧ 0 ∈ p.characters ++ beyond ∧
      o = some (viewed p.characters beyond) ∧ q = p.advanced (2 + p.characters.length) := by
  rw [extractString_run] at hrun
  rcases readString_cases beyond hp with ⟨-, hread⟩ | ⟨-, hread | ⟨e, hread⟩⟩ | ⟨⟨hsome, hcut⟩, -⟩
  · rw [hread] at hrun
    simp at hrun
  · rw [hread] at hrun
    simp at hrun
  · rw [hread] at hrun
    cases hrun
  -- a string is assigned only where all characters are there
  have hread := readString_whole beyond hp hsome hcut
  by_cases hnul : 0 ∈ p.characters ++ beyond
  · rw [stringFromPointer_ok hnul] at hread
    have hcount : 2 + p.characters.length ≠ 0 := by omega
    rw [hread] at hrun
    simp only [if_pos hcount] at hrun
    cases hrun
    refine ⟨⟨hsome, hcut⟩, hnul, rfl, ?_⟩
    rw [(length_characters hp hsome hcut).1, advanced, advanced, advanced, Nat.cast_add,
      ← Int.add_assoc]
  · rw [stringFromPointer_outOfBounds hnul] at hread
    rw [hread] at hrun
    cases hrun

/-- The bytes of a string that lies behind the read cursor. -/
theorem lengthPrefix_of_characters {s : List UInt8} (hp : Readable p) (hsome : 2 ≤ p.left)
    (hcut : ¬CutShort p) (hs : s.length ≤ maxStringLength) (hchars : p.characters = s) :
    lengthPrefix s ++ s <+: p.data.drop p.readPos.toNat := by
  obtain ⟨hlen, hpos⟩ := length_characters hp hsome hcut
  have hannounced : (ScalarType.int16.decode (p.front 2)).toInt = s.length := by
    have hsize : (ScalarType.int16.decode (p.front 2)).toInt = p.announcedLength := rfl
    rw [hchars] at hlen
    omega
  -- the length determines its two bytes
  have hvalue : ScalarType.int16.decode (p.front 2) = Int16.ofNat s.length := by
    apply Int16.toInt_inj.mp
    rw [hannounced, Int16.toInt_ofNat_of_lt (by simp only [maxStringLength] at hs; omega)]
  have hlength : lengthPrefix s = p.front 2 := by
    rw [lengthPrefix, ← hvalue]
    exact ScalarType.encode_decode (by decide) (length_front hsome)
  have hnat : (p.readPos + (2 : ℕ)).toNat = p.readPos.toNat + 2 := by
    have := hp.readPos
    omega
  have hrest : s <+: (p.data.drop p.readPos.toNat).drop 2 := by
    rw [← hchars, List.drop_drop, ← hnat]
    exact List.take_prefix ..
  obtain ⟨tail, htail⟩ := hrest
  refine ⟨tail, ?_⟩
  rw [hlength, front, List.append_assoc, htail, List.take_append_drop]

/-- There are not enough bytes for a value. -/
theorem readEnforced_short {t : ScalarType} (hp : Readable p) (hfew : p.left < t.size) :
    ∃ e, (readEnforced t).run p = .error (.thrown e) p := by
  have hsize := t.size_pos
  rcases readData_whole hp t.size with ⟨-, hread⟩ | ⟨⟨-, hall⟩, -⟩
  · have hshort : ¬([] : List UInt8).length = t.size := by rw [List.length_nil]; omega
    rw [readEnforced, EStateM.run_bind, hread]
    simp only [EStateM.run_bind, enforce_run, if_neg hshort]
    exact ⟨_, rfl⟩
  · omega

theorem extract_short {t : ScalarType} (hp : Readable p) (hfew : p.left < t.size) :
    ∃ e, (extract t).run p = .error (.thrown e) p := by
  cases t with
  | bool =>
    obtain ⟨e, hread⟩ := readEnforced_short (t := .uint8) hp hfew
    exact ⟨e, by rw [extract, EStateM.run_bind, hread]⟩
  | char => exact readEnforced_short (t := .int8) hp hfew
  | int8 | uint8 | int16 | uint16 | int32 | uint32 | int64 | uint64 | float | double =>
    exact readEnforced_short hp hfew

/-- **What is read of a field** is at least as long as what was written, and no longer only if the
field survives. -/
theorem extractField_returns (hp : Readable p) (hshort : (x.item order).Short)
    (hrun : (extractField d).run p = .ok x q) :
    ∃ k, (q = p.advanced k ∧ k ≤ p.left) ∧ (x.encode order).length ≤ k ∧
      ((x.encode order).length = k → x.encode order <+: p.data.drop p.readPos.toNat →
        x.Survives order d) := by
  cases d with
  | scalar u =>
    -- a value has the type it was read as
    rw [extractField, EStateM.run_bind] at hrun
    cases hread : (extract u).run p with
    | error e p' => simp only [hread, reduceCtorEq] at hrun
    | ok v p' =>
      simp only [hread] at hrun
      cases hrun
      have hlen : ((Field.value u v).encode order).length = u.size := ScalarType.length_encode u v
      have hpos := hp.readPos
      refine ⟨u.size, ⟨extract_returns (by omega) hread, ?_⟩, hlen.le, fun _ _ => rfl⟩
      by_contra hfew
      obtain ⟨e, hthrows⟩ := extract_short hp (not_le.mp hfew)
      rw [hthrows] at hread
      cases hread
  | string beyond =>
    rw [extractField, EStateM.run_bind] at hrun
    cases hread : (extractString beyond).run p with
    | error e p' => simp only [hread, reduceCtorEq] at hrun
    | ok o p' =>
      simp only [hread] at hrun
      cases hrun
      obtain ⟨⟨hsome, hcut⟩, hnul, rfl, hend⟩ := extractString_returns hp hread
      obtain ⟨hchars, hpos⟩ := length_characters hp hsome hcut
      have hview := viewed_prefix p.characters beyond
      have hlen : ((Field.string (viewed p.characters beyond)).encode order).length =
          2 + (viewed p.characters beyond).length := length_encodeString order _
      have hle := hview.length_le
      refine ⟨2 + p.characters.length, ⟨hend, ?_⟩, ?_, fun hall hpre => ?_⟩
      · simp only [CutShort, not_and_or, not_or] at hcut
        omega
      · rw [Option.getD_some, hlen]
        omega
      · -- all of the characters were seen, and they are those that were written
        rw [Option.getD_some, hlen] at hall
        have hsame : viewed p.characters beyond = p.characters :=
          hview.eq_of_length (by omega)
        have hclean := (viewed_eq_iff p.characters beyond).mp hsame
        rw [Option.getD_some, hsame] at hpre hshort ⊢
        have hbytes := lengthPrefix_of_characters hp hsome hcut hshort rfl
        have hsize : (encodeString order p.characters).length =
            (lengthPrefix p.characters ++ p.characters).length := by
          rw [length_encodeString, List.length_append, length_lengthPrefix]
        refine ⟨List.length_pos_iff.mp (by omega), hclean,
          (List.mem_append.mp hnul).resolve_left hclean, ?_⟩
        exact (List.prefix_of_prefix_length_le hpre hbytes hsize.le).eq_of_length hsize

end One

/-! ## Messages -/

section Messages

variable {order : EvalOrder} {p q : Packet} {xs : List Field} {ds : List Decodable}

/-- Two reads in a row are one. -/
theorem advanced_advanced (p : Packet) (m n : ℕ) :
    (p.advanced m).advanced n = p.advanced (m + n) := by
  rw [advanced, advanced, advanced, Nat.cast_add, ← Int.add_assoc]

/-- A message all of whose fields survive is read as it is. -/
theorem extractFields_of_prefixed (hp : Readable p) (hshort : ∀ x ∈ xs, (x.item order).Short)
    (hall : List.Forall₂ (Field.Survives order) xs ds)
    (hpre : xs.flatMap (Field.encode order) <+: p.data.drop p.readPos.toNat) :
    (extractFields ds).run p = .ok xs (p.advanced (xs.flatMap (Field.encode order)).length) := by
  induction hall generalizing p with
  | nil =>
    show EStateM.Result.ok [] p = .ok [] (p.advanced 0)
    rw [advanced, Nat.cast_zero, Int.add_zero]
  | @cons x d xs ds hx _ ih =>
    rw [List.forall_mem_cons] at hshort
    rw [List.flatMap_cons] at hpre
    obtain ⟨hp', hpre'⟩ := prefix_advanced hp hpre
    have hfirst := extractField_of_prefixed hp hshort.1 hx ((List.prefix_append _ _).trans hpre)
    have hrest := ih hp' hshort.2 hpre'
    rw [advanced_advanced, ← List.length_append, ← List.flatMap_cons] at hrest
    rw [extractFields, EStateM.run_bind, hfirst]
    simp only [EStateM.run_bind, hrest]
    rfl

/-- What is read of a message is at least as long as what was written, and no longer only if every
field of it survives. -/
theorem extractFields_returns (hp : Readable p) (hshort : ∀ x ∈ xs, (x.item order).Short)
    (hrun : (extractFields ds).run p = .ok xs q) :
    ∃ k, q = p.advanced k ∧ (xs.flatMap (Field.encode order)).length ≤ k ∧
      ((xs.flatMap (Field.encode order)).length = k →
        xs.flatMap (Field.encode order) <+: p.data.drop p.readPos.toNat →
        List.Forall₂ (Field.Survives order) xs ds) := by
  induction ds generalizing p xs with
  | nil =>
    cases hrun
    refine ⟨0, ?_, Nat.le_refl 0, fun _ _ => .nil⟩
    rw [advanced, Nat.cast_zero, Int.add_zero]
  | cons d ds ih =>
    rw [extractFields, EStateM.run_bind] at hrun
    cases hone : (extractField d).run p with
    | error e p' => simp only [hone, reduceCtorEq] at hrun
    | ok x p' =>
      cases hall : (extractFields ds).run p' with
      | error e p'' => simp only [hone, EStateM.run_bind, hall, reduceCtorEq] at hrun
      | ok ys p'' =>
        simp only [hone, EStateM.run_bind, hall] at hrun
        cases hrun
        rw [List.forall_mem_cons] at hshort
        obtain ⟨m, ⟨rfl, hm⟩, hfirst, hx⟩ := extractField_returns hp hshort.1 hone
        obtain ⟨n, rfl, hrest, hxs⟩ := ih (hp.advanced hm) hshort.2 hall
        simp only [List.flatMap_cons, List.length_append]
        refine ⟨m + n, advanced_advanced .., by omega, fun hsum hpre => ?_⟩
        -- neither the first field nor the others were read for longer than they are
        obtain rfl : (x.encode order).length = m := by omega
        exact .cons (hx rfl ((List.prefix_append _ _).trans hpre))
          (hxs (by omega) (prefix_advanced hp hpre).2)

/-- Writes that return have not made a packet too large to be read. -/
theorem insertItems_length {is : List Item} (hp : p.Valid) (hlen : p.data.length < 2 ^ 62)
    (hrun : (insertItems is).run p = .ok () q) : q.data.length < 2 ^ 62 := by
  induction is generalizing p with
  | nil =>
    cases hrun
    exact hlen
  | cons i is ih =>
    obtain ⟨-, -, hlen', hrest⟩ := insertItems_cons_returns hp hlen hrun
    exact ih (written_valid i.encode hp) hlen' hrest

/-- The message is read as it is, from where the read cursor stands up to the write cursor. -/
def MessageReturns (q : Packet) (xs : List Field) (ds : List Decodable) : Prop :=
  ∃ r, (extractFields ds).run q = .ok xs r ∧ r.readPos = r.writePos

/-- **Messages.** What has been written is read again as it was exactly if it is asked for by its
types, no string in it is empty or holds a NUL, there is a NUL behind every string, and the bytes of
every string are those of its length and then its characters. -/
theorem messageReturns_iff (hp : p.Valid) (hlen : p.data.length < 2 ^ 62)
    (hcursors : p.readPos = p.writePos)
    (hrun : (insertItems (xs.map (Field.item order))).run p = .ok () q) (ds : List Decodable) :
    MessageReturns q xs ds ↔ List.Forall₂ (Field.Survives order) xs ds := by
  have hlong := insertItems_length hp hlen hrun
  obtain ⟨hshort, rfl⟩ := insertItems_returns hp hlen hrun
  have hbytes : encodeItems (xs.map (Field.item order)) = xs.flatMap (Field.encode order) :=
    List.flatMap_map ..
  rw [hbytes] at hlong ⊢
  rw [List.forall_mem_map] at hshort
  have hwrite := hp.writePos
  have hlen' := length_written (xs.flatMap (Field.encode order)) p
  -- the message lies behind the read cursor, which has not moved
  have hread : Readable (p.written (xs.flatMap (Field.encode order))) := by
    refine ⟨?_, hlong⟩
    show 2 ≤ p.readPos ∧ p.readPos ≤ (p.written (xs.flatMap (Field.encode order))).data.length
    omega
  have hpre := prefix_written (xs.flatMap (Field.encode order)) hwrite
  rw [← hcursors] at hpre
  constructor
  · rintro ⟨r, hreturns, hend⟩
    obtain ⟨k, rfl, -, hall⟩ := extractFields_returns hread hshort hreturns
    have hcursor : p.readPos + k = p.writePos + (xs.flatMap (Field.encode order)).length := hend
    exact hall (by omega) hpre
  · intro hall
    refine ⟨_, extractFields_of_prefixed hread hshort hall hpre, ?_⟩
    show p.readPos + (xs.flatMap (Field.encode order)).length =
      p.writePos + (xs.flatMap (Field.encode order)).length
    rw [hcursors]

/-- A number, two letters and a truth value, in a new packet. -/
theorem messageReturns_iff_fresh :
    MessageReturns (fresh.written [42, 2, 0, 104, 105, 1])
      [.value .uint8 42, .string [104, 105], .value .bool true]
      [.scalar .uint8, .string [0], .scalar .bool] :=
  (messageReturns_iff fresh_valid (by decide) rfl
    (show (insertItems (List.map (Field.item .leftFirst) _)).run fresh = _ from rfl) _).mpr
    (.cons rfl (.cons ⟨by decide, by decide, List.mem_cons_self, rfl⟩ (.cons rfl .nil)))

end Messages

end Sws.Packet
