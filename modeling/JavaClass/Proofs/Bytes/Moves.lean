/-
  Scans that are run further on.

  The same bytes may stand at another offset.  `Moves n value s t` compares two scans in that case:
  run `n` bytes further on, `t` does what `s` does.  It comes to the value of `s` as changed by
  `value`, or to its failure, with every place that is mentioned `n` bytes further on as well.  Most
  scans do not look at their offset, and move to themselves without any change; where one does, what
  is done with the two offsets is compared (`moves_position_bind`).
-/
import JavaClass.ReadError

namespace JavaClass

/-! ## Places further on

  Bytes that are put behind others stand further on.  All that changes in a failure are the
  offsets that it mentions; numbers that were read or that count bytes stay. -/

/-- The same bytes, `n` bytes further on. -/
def Cursor.moved (n : Nat) (c : Cursor) : Cursor := ⟨c.rest, c.position + n⟩

/-- A rule that is broken `n` bytes further on. -/
def Violation.moved (n : Nat) : Violation → Violation
  | .text position => .text (position + n)
  | .offsetRange position => .offsetRange (position + n)
  | .tableSwitchBounds low high offset => .tableSwitchBounds low high (offset + n)
  | .lookupSwitchCount count offset => .lookupSwitchCount count (offset + n)
  | .notWidenable op offset => .notWidenable op (offset + n)
  | violation => violation

/-- A failure to read a value `n` bytes further on. -/
def ScanError.moved (n : Nat) : ScanError → ScanError
  | .endOfData position requested available => .endOfData (position + n) requested available
  | .invalidText position => .invalidText (position + n)

/-- A failure to read a class file `n` bytes further on. -/
def ReadError.moved (n : Nat) : ReadError → ReadError
  | .endOfInput position requested available => .endOfInput (position + n) requested available
  | .unknownOpCode byte offset => .unknownOpCode byte (offset + n)
  | .malformed violation => .malformed (violation.moved n)
  | e => e

/-- A failure moves the same way before and after it is renamed. -/
theorem ReadError.moved_ofScan (n : Nat) (e : ScanError) :
    (ReadError.ofScan e).moved n = .ofScan (e.moved n) := by
  cases e <;> rfl

namespace Scan

/-- The failures that mention places. -/
class Movable (ε : Type) where
  /-- The failure `n` bytes further on. -/
  moved (n : Nat) : ε → ε

instance : Movable ScanError := ⟨ScanError.moved⟩

instance : Movable ReadError := ⟨ReadError.moved⟩

section
variable {ε α β : Type} [Movable ε] {n : Nat} {value : β → β}

/-- What a run comes to `n` bytes further on. -/
def movedResult (n : Nat) (value : α → α) :
    EStateM.Result ε Cursor α → EStateM.Result ε Cursor α
  | .ok a c => .ok (value a) (c.moved n)
  | .error e c => .error (Movable.moved n e) (c.moved n)

/-- Run `n` bytes further on, `t` does what `s` does, but for a change of the value. -/
def Moves (n : Nat) (value : α → α) (s t : Scan ε α) : Prop :=
  ∀ c, t (c.moved n) = movedResult n value (s c)

/-- A value that is given does not depend on the offset. -/
theorem Moves.pure (a : α) : Moves n id (Pure.pure a : Scan ε α) (Pure.pure a) := fun _ => rfl

/-- A failure moves with the offset in it. -/
theorem Moves.throw (e : ε) :
    Moves n id (throw e : Scan ε α) (throw (Movable.moved n e)) := fun _ => rfl

/-- A scan behind another one moves with it. -/
theorem Moves.bind {s t : Scan ε α} {f g : α → Scan ε β} (h₁ : Moves n id s t)
    (h₂ : ∀ a, Moves n value (f a) (g a)) : Moves n value (s >>= f) (t >>= g) := by
  intro c
  show EStateM.bind t g (c.moved n) = movedResult n value (EStateM.bind s f c)
  unfold EStateM.bind
  rw [h₁ c]
  cases s c with
  | ok a d => exact h₂ a d
  | error e d => rfl

/-- A scan that moves to itself still does so when it is repeated. -/
theorem Moves.times {s : Scan ε α} (h : Moves n id s s) (count : Nat) :
    Moves n id (Scan.times count s) (Scan.times count s) := by
  -- what has been read so far is the same in both runs
  have hafter : ∀ (count : Nat) (done : List α),
      Moves n id (Scan.timesAfter s done count) (Scan.timesAfter s done count) := by
    intro count
    induction count with
    | zero => exact fun done => .pure _
    | succ count ih => exact fun done => h.bind fun a => ih (a :: done)
  exact hafter count []

/-- Scans that look at their offset see two offsets. -/
theorem moves_position_bind {f g : Nat → Scan ε β} (h : ∀ p, Moves n value (f p) (g (p + n))) :
    Moves n value (position >>= f) (position >>= g) :=
  fun c => h c.position c

/-- A missing value is reported with the offset moved. -/
theorem moves_ofOption (e : ε) (found : Option α) :
    Moves n id (ofOption e found) (ofOption (Movable.moved n e) found) := by
  cases found with
  | some a => exact .pure a
  | none => exact .throw e

/-- A condition that does not hold is reported with the offset moved. -/
theorem moves_require (condition : Prop) [Decidable condition] (e : ε) :
    Moves n id (require condition e) (require condition (Movable.moved n e)) := by
  unfold require
  split
  · exact .pure ()
  · exact .throw e

end

/-! ## The primitives

  None of them looks at its offset except to report it. -/

variable {α : Type} {n : Nat}

/-- Bytes are the same wherever they stand. -/
theorem moves_bytes (count : Nat) : Moves n id (bytes count) (bytes count) := by
  intro c
  rcases Nat.lt_or_ge c.remaining count with hlt | hge
  · rw [bytes_of_lt hlt, bytes_of_lt (c := c.moved n) hlt]
    rfl
  · rw [bytes_of_le hge, bytes_of_le (c := c.moved n) hge, Cursor.advance, Cursor.moved,
      Nat.add_right_comm]
    rfl

/-- So is the next byte. -/
theorem moves_peek : Moves n id peek peek := by
  rintro ⟨rest, p⟩
  cases rest <;> rfl

/-- So is a number, as it is made of its bytes alone. -/
theorem moves_word (width : Nat) : Moves n id (word width) (word width) :=
  (moves_bytes width).bind fun _ => .pure _

theorem moves_u8 : Moves n id u8 u8 := (moves_word 1).bind fun _ => .pure _
theorem moves_u16 : Moves n id u16 u16 := (moves_word 2).bind fun _ => .pure _
theorem moves_u32 : Moves n id u32 u32 := (moves_word 4).bind fun _ => .pure _
theorem moves_i8 : Moves n id i8 i8 := moves_u8.bind fun _ => .pure _
theorem moves_i16 : Moves n id i16 i16 := moves_u16.bind fun _ => .pure _
theorem moves_i32 : Moves n id i32 i32 := moves_u32.bind fun _ => .pure _

/-- Lifting keeps what a failure says about places. -/
theorem Moves.lift {s t : Scan ScanError α} (h : Moves n id s t) :
    Moves n id (liftM s : Scan ReadError α) (liftM t) := by
  intro c
  show t.mapError ReadError.ofScan (c.moved n) = movedResult n id (s.mapError ReadError.ofScan c)
  unfold mapError
  rw [h c]
  cases s c with
  | ok a d => rfl
  | error e d =>
    show EStateM.Result.error (ReadError.ofScan (e.moved n)) _ = _
    rw [← ReadError.moved_ofScan]
    rfl

end Scan

end JavaClass
