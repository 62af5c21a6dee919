/-
  A cursor: a place in a byte string.

  It holds what is still to be read and how much has been read, so its own bytes never need to be
  looked up by index.  Reading from it is the business of `JavaClass.Bytes.Scan`.
-/

namespace JavaClass

/-- A place in a byte string: the bytes after it, and their offset in the whole. -/
structure Cursor where
  /-- The bytes still to be read. -/
  rest : List UInt8
  /-- How many bytes lie before them. -/
  position : Nat
deriving DecidableEq, Repr

namespace Cursor

/-- The start of a byte string. -/
def start (bytes : List UInt8) : Cursor := ⟨bytes, 0⟩

/-- How many bytes are still to be read. -/
def remaining (c : Cursor) : Nat := c.rest.length

/-- Whether nothing is left to be read. -/
def atEnd (c : Cursor) : Bool := c.rest.isEmpty

/-- The place `n` bytes further on. -/
def advance (c : Cursor) (n : Nat) : Cursor := ⟨c.rest.drop n, c.position + n⟩

theorem atEnd_iff (c : Cursor) : c.atEnd = true ↔ c.rest = [] := by simp [atEnd]

/-- `c.Reaches d read`: going from `c` to `d` passes exactly the bytes `read`. -/
def Reaches (c d : Cursor) (read : List UInt8) : Prop :=
  c.rest = read ++ d.rest ∧ d.position = c.position + read.length

theorem Reaches.refl (c : Cursor) : c.Reaches c [] := by simp [Reaches]

theorem Reaches.trans {c d e : Cursor} {first second : List UInt8}
    (h₁ : c.Reaches d first) (h₂ : d.Reaches e second) : c.Reaches e (first ++ second) := by
  refine ⟨by rw [h₁.1, h₂.1, List.append_assoc], ?_⟩
  rw [h₂.2, h₁.2, List.length_append, Nat.add_assoc]

/-- Behind two byte strings, the end of the first has been passed. -/
theorem Reaches.split {c e : Cursor} {first second : List UInt8}
    (h : c.Reaches e (first ++ second)) : ∃ d, c.Reaches d first ∧ d.Reaches e second := by
  refine ⟨⟨second ++ e.rest, c.position + first.length⟩, ⟨?_, rfl⟩, rfl, ?_⟩
  · rw [h.1, List.append_assoc]
  · rw [h.2, List.length_append, Nat.add_assoc]

theorem reaches_nil {c d : Cursor} : c.Reaches d [] ↔ d = c := by
  constructor
  · rintro ⟨hrest, hposition⟩
    obtain ⟨rest, position⟩ := c
    obtain ⟨rest', position'⟩ := d
    cases hrest
    cases hposition
    rfl
  · rintro rfl
    exact .refl d

/-- Advancing passes the bytes it skips, if there are that many. -/
theorem reaches_advance {c : Cursor} {n : Nat} (h : n ≤ c.remaining) :
    c.Reaches (c.advance n) (c.rest.take n) := by
  refine ⟨by simp [advance], ?_⟩
  simp only [advance, List.length_take]
  unfold remaining at h
  omega

end Cursor

end JavaClass
