import Sws.Packet.Spec

/-!
# What the Operations Do Inside the Limits of the Class

Exceptions leave packets behind whose write cursor stands outside the buffer, at 0, or at the
end of a full buffer.  For every packet inside the limits of the class, consistent or not,
this is what a header update, a resize, a write and a seek can do to it.

## Key Results

- `updateSize_cases`: the three ends of a header update.
- `updateSize_rebuilds`, `resize_rebuilds`, `writeData_rebuilds`: only the buffer and the write
  cursor change, and the buffer has the size these say.
- `seekImpl_effect`: a seek puts its cursor into the payload or leaves it.
-/

namespace Sws.Packet

open Sws.Foundation

/-! ## The limits -/

/-- The buffer and the write cursor keep to the limits of the class. -/
def InLimits (p : Packet) : Prop :=
  p.data.length ≤ datagramSize ∧ 0 ≤ p.writePos ∧ p.writePos ≤ datagramSize

theorem inLimits_cleared (p : Packet) : p.cleared.InLimits := by
  refine ⟨?_, ?_⟩ <;> simp [cleared, datagramSize]

/-- `q` is `p` with a buffer of `length` bytes, and with the write cursor anywhere inside the
limits. -/
structure Rebuilt (p q : Packet) (length : ℕ) : Prop where
  frame : q = { p with data := q.data, writePos := q.writePos }
  length_eq : q.data.length = length
  writePos : 0 ≤ q.writePos ∧ q.writePos ≤ datagramSize

namespace Rebuilt

variable {p q : Packet} {n : ℕ}

theorem readPos (h : Rebuilt p q n) : q.readPos = p.readPos := by rw [h.frame]

theorem sendPos (h : Rebuilt p q n) : q.sendPos = p.sendPos := by rw [h.frame]

theorem recvPos (h : Rebuilt p q n) : q.recvPos = p.recvPos := by rw [h.frame]

theorem recvTarget (h : Rebuilt p q n) : q.recvTarget = p.recvTarget := by rw [h.frame]

end Rebuilt

/-! ## The header update -/

section Update

variable {p : Packet}

/-- These are all the ways a header update can end. -/
theorem updateSize_cases (hp : p.InLimits) :
    (p.data.length = datagramSize ∧
      updateSize.run p = .error writeFailed { p with writePos := 0 }) ∨
    (p.data.length < datagramSize ∧ (2 ≤ p.writePos ∧ p.writePos ≤ max p.data.length 2) ∧
      updateSize.run p = .ok () { p.stamped with writePos := p.writePos }) ∨
    (p.data.length < datagramSize ∧ ¬(2 ≤ p.writePos ∧ p.writePos ≤ max p.data.length 2) ∧
      ∃ msg, updateSize.run p = .error (.thrown (.logicError msg)) p.stamped) := by
  obtain ⟨hlen, hpos⟩ := hp
  simp only [datagramSize] at hlen hpos
  by_cases hfull : p.data.length = datagramSize
  · exact .inl ⟨hfull, updateSize_full hfull⟩
  · have hlt : p.data.length < 65536 := by simp only [datagramSize] at hfull; omega
    by_cases hin : 2 ≤ p.writePos ∧ p.writePos ≤ max p.data.length 2
    · exact .inr (.inl ⟨hlt, hin, updateSize_ok hfull (by omega) hin⟩)
    · exact .inr (.inr ⟨hlt, hin, updateSize_throws hfull (by omega) (by omega) hin⟩)

theorem rebuilt_stamped (p : Packet) (pos : Int) (hpos : 0 ≤ pos ∧ pos ≤ datagramSize) :
    Rebuilt p { p.stamped with writePos := pos } (max p.data.length 2) where
  frame := by rw [stamped_eq]
  length_eq := length_stamped p
  writePos := hpos

/-- Whichever way it ends, a header update makes room for the header at most. -/
theorem updateSize_rebuilds (hp : p.InLimits) :
    Ensures (· = p) updateSize (fun _ q => Rebuilt p q (max p.data.length 2))
      (fun e q => Caught e ∧ Rebuilt p q (max p.data.length 2)) := by
  have hlen := hp.1
  rcases updateSize_cases hp with ⟨hfull, hrun⟩ | ⟨-, -, hrun⟩ | ⟨-, -, msg, hrun⟩
  · refine Ensures.of_error hrun ⟨trivial, rfl, ?_, by simp⟩
    simp only [hfull, datagramSize]
    omega
  · exact Ensures.of_ok hrun (rebuilt_stamped p _ hp.2)
  · exact Ensures.of_error hrun ⟨trivial, rebuilt_stamped p 2 (by simp [datagramSize])⟩

end Update

/-! ## Resizing and writing -/

section Buffer

variable {p : Packet}

/-- Whichever way it ends, a resize leaves a buffer of the size asked for, within bounds. -/
theorem resize_rebuilds (hp : p.InLimits) (size : ℕ) :
    Ensures (· = p) (resize size) (fun _ q => Rebuilt p q (clampSize size))
      (fun e q => Caught e ∧ Rebuilt p q (clampSize size)) := by
  have hclamp := clampSize_mem size
  have hlen : (p.data.takeD (clampSize size) 0).length = clampSize size := List.takeD_length ..
  have hupdate := updateSize_rebuilds (p := { p with data := p.data.takeD (clampSize size) 0 })
    ⟨by rw [hlen]; exact hclamp.2, hp.2⟩
  have hmax : max (p.data.takeD (clampSize size) 0).length 2 = clampSize size := by
    rw [hlen]; omega
  refine ⟨fun q hq => ?_⟩
  rw [hq]
  have hend := hupdate.run _ rfl
  rw [show resize size p = updateSize { p with data := p.data.takeD (clampSize size) 0 } from rfl]
  rw [hmax] at hend
  -- the buffer has its new size before the header is touched
  have hframe : ∀ q, Rebuilt { p with data := p.data.takeD (clampSize size) 0 } q
      (clampSize size) → Rebuilt p q (clampSize size) :=
    fun q hq => ⟨hq.frame, hq.length_eq, hq.writePos⟩
  cases hrun : updateSize { p with data := p.data.takeD (clampSize size) 0 } with
  | ok a q =>
    rw [hrun] at hend
    exact hframe q hend
  | error e q =>
    rw [hrun] at hend
    exact ⟨hend.1, hframe q hend.2⟩

/-- A resize to the capacity, or one that leaves the write cursor outside, throws. -/
theorem resize_throws (hp : p.InLimits) (size : ℕ)
    (h : ¬(clampSize size < datagramSize ∧ 2 ≤ p.writePos ∧ p.writePos ≤ clampSize size)) :
    ∃ e q, (resize size).run p = .error e q ∧ Caught e ∧ Rebuilt p q (clampSize size) := by
  have hclamp := clampSize_mem size
  have hend := (resize_rebuilds hp size).run p rfl
  have hlen : (p.data.takeD (clampSize size) 0).length = clampSize size := List.takeD_length ..
  have hlimits : InLimits { p with data := p.data.takeD (clampSize size) 0 } :=
    ⟨by rw [hlen]; exact hclamp.2, hp.2⟩
  -- of the three ends of the header update the second is excluded
  have hthrows : ∃ e q, (resize size).run p = .error e q := by
    rcases updateSize_cases hlimits with ⟨-, hrun⟩ | ⟨hlt, hpos, -⟩ | ⟨-, -, msg, hrun⟩
    · exact ⟨_, _, hrun⟩
    · rw [hlen] at hlt hpos
      have hcursor : 2 ≤ p.writePos ∧ p.writePos ≤ max (clampSize size) 2 := hpos
      exact absurd ⟨hlt, by omega⟩ h
    · exact ⟨_, _, hrun⟩
  obtain ⟨e, q, hrun⟩ := hthrows
  have hrun' : resize size p = .error e q := hrun
  rw [hrun'] at hend
  exact ⟨e, q, hrun, hend⟩

/-- The size of the buffer after a write of `size` bytes. -/
def lengthAfter (p : Packet) (size : ℕ) (whole : Bool) : ℕ :=
  if Refuses p size whole then p.data.length
  else max p.data.length (max (p.writePos.toNat + p.room size) (if p.writePos = 0 then 0 else 2))

theorem lengthAfter_le {p : Packet} (hp : p.InLimits) (size : ℕ) (whole : Bool) :
    p.lengthAfter size whole ≤ datagramSize := by
  obtain ⟨hlen, hpos⟩ := hp
  simp only [lengthAfter, room, datagramSize] at *
  split
  · exact hlen
  · split <;> omega

/-- The end of a write that refers to a byte behind the buffer. -/
structure Strays (p : Packet) (size : ℕ) (whole : Bool) (e : Fault) (q : Packet) : Prop where
  taken : ¬Refuses p size whole
  outside : PointsOutside p size
  undefined : e = .undefined .outOfBounds
  grown : q = p.makeRoom 0

theorem Strays.rebuilt {q : Packet} {size : ℕ} {whole : Bool} {e : Fault} (hp : p.InLimits)
    (h : Strays p size whole e q) : Rebuilt p q p.writePos.toNat where
  frame := by rw [h.grown]; rfl
  length_eq := by
    have hout := h.outside.2
    rw [h.grown, length_makeRoom]
    omega
  writePos := by rw [h.grown]; exact hp.2

/-- Whichever way it ends, a write that is not refused leaves the buffer reaching at least to
its end; one without a byte to refer to has grown the buffer to the write cursor. -/
theorem writeData_rebuilds (hp : p.InLimits) (bytes : List UInt8) (whole : Bool) :
    Ensures (· = p) (writeData bytes whole)
      (fun _ q => Rebuilt p q (p.lengthAfter bytes.length whole))
      (fun e q => Strays p bytes.length whole e q ∨
        (Caught e ∧ Rebuilt p q (p.lengthAfter bytes.length whole))) := by
  by_cases hrefuses : Refuses p bytes.length whole
  · refine Ensures.of_ok (writeData_refused hrefuses) ⟨rfl, ?_, hp.2⟩
    rw [lengthAfter, if_pos hrefuses]
  obtain ⟨hlen, hpos⟩ := hp
  by_cases hout : PointsOutside p bytes.length
  · exact Ensures.of_error (writeData_outside hrefuses hpos hout) (.inl ⟨hrefuses, hout, rfl, rfl⟩)
  have hroom : p.room bytes.length ≤ bytes.length := Nat.min_le_right ..
  have hspace : p.writePos.toNat + p.room bytes.length ≤ datagramSize := by
    simp only [room, datagramSize] at *; omega
  have hcopied := length_copyIn (bytes.take (p.room bytes.length)) p
  have hcursor := writePos_copyIn (bytes.take (p.room bytes.length)) p
  rw [List.length_take, Nat.min_eq_left hroom] at hcopied hcursor
  have hlimits : (p.copyIn (bytes.take (p.room bytes.length))).InLimits := by
    refine ⟨by rw [hcopied]; omega, by rw [hcursor]; omega⟩
  rw [lengthAfter, if_neg hrefuses]
  -- the copy stays inside the limits, whatever comes of the header
  by_cases hzero : p.writePos = 0
  · -- at 0 only the bytes are copied
    refine Ensures.of_ok (writeData_header hrefuses hzero hout) ⟨copyIn_eq .., ?_, hlimits.2⟩
    rw [hcopied, if_pos hzero]
    omega
  · have hrun := writeDataWith_copies (u := updateSize) hrefuses hpos hout
    rw [if_pos (by omega)] at hrun
    have hend := (updateSize_rebuilds hlimits).run _ rfl
    have hmax : max (p.copyIn (bytes.take (p.room bytes.length))).data.length 2 =
        max p.data.length (max (p.writePos.toNat + p.room bytes.length)
          (if p.writePos = 0 then 0 else 2)) := by
      rw [hcopied, if_neg hzero]
      omega
    rw [hmax] at hend
    cases hupdate : updateSize (p.copyIn (bytes.take (p.room bytes.length))) with
    | ok a q =>
      rw [hupdate] at hend
      have hrun' : updateSize.run (p.copyIn (bytes.take (p.room bytes.length))) = .ok a q :=
        hupdate
      rw [hrun'] at hrun
      exact Ensures.of_ok hrun ⟨hend.frame, hend.length_eq, hend.writePos⟩
    | error e q =>
      rw [hupdate] at hend
      have hrun' : updateSize.run (p.copyIn (bytes.take (p.room bytes.length))) = .error e q :=
        hupdate
      rw [hrun'] at hrun
      exact Ensures.of_error hrun
        (.inr ⟨hend.1, hend.2.frame, hend.2.length_eq, hend.2.writePos⟩)

end Buffer

/-! ## Seeking and reading -/

/-- A read gives nothing, or the bytes behind the read cursor, or runs out of bounds. -/
theorem readData_cases (size : ℕ) (whole : Bool) (p : Packet) :
    (readData size whole).run p = .ok [] p ∨
    (∃ k : ℕ, p.readPos + k ≤ p.data.length ∧ (readData size whole).run p =
      .ok ((p.data.drop p.readPos.toNat).take k) { p with readPos := p.readPos + k }) ∨
    (readData size whole).run p = .error (.undefined .outOfBounds) p := by
  simp only [readData, EStateM.run_bind, EStateM.run_get]
  -- the checks of the source, one after the other
  by_cases hempty : p.empty = true
  · exact .inl (by rw [if_pos hempty]; rfl)
  rw [if_neg hempty]
  by_cases hnone : min (toSize (p.realSize - p.readPos)) size = 0 ∨
      (whole = true ∧ min (toSize (p.realSize - p.readPos)) size < size)
  · exact .inl (by rw [if_pos hnone]; rfl)
  rw [if_neg hnone]
  by_cases hout : p.readPos + (min (toSize (p.realSize - p.readPos)) size : ℕ) > p.data.length
  · exact .inr (.inr (by rw [if_pos hout]; rfl))
  · exact .inr (.inl ⟨_, not_lt.mp hout, by rw [if_neg hout]; rfl⟩)

/-- A seek puts its cursor into the payload, or at its end, or leaves it where it was. -/
theorem seekImpl_effect {workSize : ℕ} (hsize : workSize < 2 ^ 62) (type : SeekType)
    (value : Int64) (pos : Int) :
    Ensures (· = pos) (seekImpl workSize type value)
      (fun _ pos' => 2 ≤ pos' ∧ pos' ≤ workSize + 2) (fun e pos' => pos' = pos ∧ e ≠ .pending) := by
  have hmax := value.toInt_lt
  have hthrown : ∀ {msg : String} {c : Prop}, ∀ s, s = pos → ¬c →
      s = pos ∧ Fault.thrown (.logicError msg) ≠ .pending :=
    fun _ hs _ => ⟨hs, by simp⟩
  -- the last check holds, since the target was checked before
  have hput : ∀ {target : Int}, 0 ≤ target → target ≤ workSize →
      Ensures (· = pos) (do
        set (toPtrdiff (target + packetlenSize))
        let pos ← get
        enforce (pos ≥ packetlenSize) "I fucked up")
      (fun _ pos' => 2 ≤ pos' ∧ pos' ≤ workSize + 2)
      (fun e pos' => pos' = pos ∧ e ≠ .pending) := by
    intro target h₀ hle
    have hpos : toPtrdiff (target + packetlenSize) = target + 2 :=
      toPtrdiff_of_mem (by simp only [packetlenSize]; omega) (by simp only [packetlenSize]; omega)
    rw [hpos]
    refine Ensures.bind (Q := fun _ pos' => pos' = target + 2) (Ensures.set fun _ _ => rfl)
      fun _ => Ensures.get_bind fun pos' hpos' => ?_
    subst hpos'
    refine (ensures_enforce ?_).weaken (fun _ h => h) ?_ (fun _ _ h => h)
    · rintro _ - hfail
      exact absurd (by simp only [packetlenSize]; omega) hfail
    · rintro _ _ ⟨rfl, -⟩
      omega
  refine Ensures.get_bind fun s hs => ?_
  rw [hs]
  cases type with
  | fromStart =>
    refine ensures_enforce_bind hthrown fun h₀ => ensures_enforce_bind hthrown fun hin => ?_
    rw [toSize_of_nonneg h₀ (by omega)] at hin
    exact hput h₀ (by omega)
  | relative =>
    refine Ensures.ite (fun _ => ?_) fun hwrap => ?_
    · -- a sum outside `ptrdiff_t` is undefined
      exact Ensures.bind (Q := fun _ _ => False) (Ensures.throw fun _ h => ⟨h, by simp⟩) fun _ =>
        ⟨fun _ h => h.elim⟩
    · refine ensures_enforce_bind hthrown fun h₀ => ensures_enforce_bind hthrown fun hin => ?_
      have hmem := toPtrdiff_mem (toPtrdiff (pos - packetlenSize) + value.toInt)
      rw [not_not.mp hwrap] at hmem
      rw [toSize_of_nonneg h₀ (by omega)] at hin
      exact hput h₀ (by omega)
  | fromEnd =>
    refine ensures_enforce_bind hthrown fun h₀ => ensures_enforce_bind hthrown fun hin => ?_
    have hsub : toPtrdiff (workSize - value.toInt) = workSize - value.toInt :=
      toPtrdiff_of_mem (by omega) (by omega)
    rw [hsub] at hin ⊢
    exact hput hin (by omega)

end Sws.Packet
