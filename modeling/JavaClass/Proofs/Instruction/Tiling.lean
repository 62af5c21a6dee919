/-
  The instructions of a code array cover it.

  A decoded code array is cut into its instructions without gap or overlap: the first stands at
  offset 0, every one takes at least a byte and starts where the one before it ends, and the last
  ends with the array.  `Tiles` says this of bytes that stand at any offset, so that it can be
  built up from the last instruction to the first (`Tiles.cons`); ends are natural numbers, so that
  nothing wraps at the sixteenth bit.
-/
import JavaClass.Proofs.Instruction.Accepts

namespace JavaClass.Instruction

open Scan

/-- The instructions `is` cover the bytes `code`, the first of which stands at `start`. -/
structure Tiles (start : Nat) (code : List UInt8) (is : List Instruction) : Prop where
  /-- The first instruction stands at the start. -/
  first : ∀ i, is[0]? = some i → i.offset.toNat = start
  /-- Every other stands where the one before it ends. -/
  contiguous : ∀ k i j, is[k]? = some i → is[k + 1]? = some j → j.offset.toNat = i.next
  /-- The last ends where the bytes do. -/
  last : ∀ i, is.getLast? = some i → i.next = start + code.length
  /-- The lengths add up to the number of bytes. -/
  total : is.foldr (fun i n => i.length + n) 0 = code.length
  /-- Every instruction takes a byte or more. -/
  length_pos : ∀ i ∈ is, 1 ≤ i.length
  /-- Only an empty array has no instruction. -/
  empty : is = [] → code = []
  /-- At the offset of an instruction stands its op code byte. -/
  opCode : ∀ i ∈ is, ∃ k, i.offset.toNat = start + k ∧ code[k]? = some i.op.byte

theorem Tiles.nil (start : Nat) : Tiles start [] [] where
  first := fun _ h => nomatch h
  contiguous := fun _ _ _ h => nomatch h
  last := fun _ h => nomatch h
  total := rfl
  length_pos := fun _ h => nomatch h
  empty := fun _ => rfl
  opCode := fun _ h => nomatch h

/-- An instruction in front of instructions that cover the bytes behind it. -/
theorem Tiles.cons {start : Nat} {operands rest : List UInt8} {i : Instruction}
    {is : List Instruction} (hoffset : i.offset.toNat = start)
    (hlength : i.length = operands.length + 1)
    (h : Tiles (start + (operands.length + 1)) rest is) :
    Tiles start (i.op.byte :: operands ++ rest) (i :: is) := by
  have hnext : i.next = start + (operands.length + 1) := by rw [next, hoffset, hlength]
  have hbytes : (i.op.byte :: operands ++ rest).length = operands.length + 1 + rest.length := by
    rw [List.length_append, List.length_cons]
  constructor
  case first =>
    intro j hj
    obtain rfl : i = j := Option.some.inj hj
    exact hoffset
  case contiguous =>
    intro k j j' hj hj'
    rw [List.getElem?_cons_succ] at hj'
    -- the instruction in front is followed by the first of the others, where these start
    cases k with
    | zero =>
      obtain rfl : i = j := Option.some.inj hj
      rw [hnext]
      exact h.first j' hj'
    | succ k =>
      rw [List.getElem?_cons_succ] at hj
      exact h.contiguous k j j' hj hj'
  case last =>
    intro j hj
    rw [hbytes, ← Nat.add_assoc]
    -- without others, what they would cover is empty
    cases is with
    | nil =>
      obtain rfl : i = j := Option.some.inj hj
      rw [h.empty rfl, hnext]
      rfl
    | cons i' is =>
      rw [List.getLast?_cons_cons] at hj
      exact h.last j hj
  case total =>
    rw [List.foldr_cons, h.total, hbytes, hlength]
  case length_pos =>
    intro j hj
    rcases List.mem_cons.mp hj with rfl | hj
    · rw [hlength]
      exact Nat.le_add_left 1 _
    · exact h.length_pos j hj
  case empty =>
    intro hnil
    nomatch hnil
  case opCode =>
    intro j hj
    rcases List.mem_cons.mp hj with rfl | hj
    -- the op codes of the others stand behind the bytes of the instruction in front
    · exact ⟨0, hoffset, rfl⟩
    · obtain ⟨k, hk, hbyte⟩ := h.opCode j hj
      have hskip : (i.op.byte :: operands).length = operands.length + 1 := List.length_cons
      refine ⟨operands.length + 1 + k, by rw [hk, Nat.add_assoc], ?_⟩
      rw [List.getElem?_append_right (by rw [hskip]; omega), hskip, Nat.add_sub_cancel_left]
      exact hbyte

/-- Instructions that are accepted one after the other cover the bytes they are accepted as. -/
theorem tiles_of_acceptsAll {start : Nat} {code : List UInt8} {is : List Instruction}
    (h : scan.AcceptsAll start code is) : Tiles start code is := by
  induction is generalizing start code with
  | nil =>
    obtain rfl : code = [] := h
    exact .nil start
  | cons i is ih =>
    obtain ⟨first, rest, rfl, hi, hrest⟩ := h
    obtain ⟨-, hoffset, hlength, operands, rfl, -⟩ := accepts_scan.mp hi
    exact .cons hoffset hlength (ih hrest)

/-- **Decoding covers the code array.**  The instructions of a decoded code array cover it from its
    first byte to its last; an array of more than 65535 bytes is never decoded. -/
theorem decode_tiles (code : List UInt8) :
    (∀ is, decode code = .ok is → Tiles 0 code is) ∧
      (65535 < code.length → decode code = .error (.malformed (.codeTooLong code.length))) := by
  constructor
  · intro is h
    exact tiles_of_acceptsAll (decode_eq_ok.mp h).2
  · intro h
    exact decode_of_length_lt h

/-- The theorem at a wide increment followed by a return, and at an array that is too long. -/
theorem decode_tiles_wide_iinc :
    (∃ is, decode [0xc4, 0x84, 0x01, 0x00, 0xff, 0xff, 0xb1] = .ok is ∧
      Tiles 0 [0xc4, 0x84, 0x01, 0x00, 0xff, 0xff, 0xb1] is) ∧
    decode (List.replicate 65536 0) = .error (.malformed (.codeTooLong 65536)) := by
  constructor
  · have h : ∃ is, decode [0xc4, 0x84, 0x01, 0x00, 0xff, 0xff, 0xb1] = .ok is := ⟨_, by cbv⟩
    obtain ⟨is, his⟩ := h
    exact ⟨is, his, (decode_tiles _).1 is his⟩
  · have hlen : (List.replicate 65536 (0 : UInt8)).length = 65536 := List.length_replicate
    have h := (decode_tiles (List.replicate 65536 0)).2 (by rw [hlen]; decide)
    rwa [hlen] at h

end JavaClass.Instruction
