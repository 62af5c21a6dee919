/-
  Code arrays that are cut off.

  Every instruction of a code array is read off its own bytes, so cutting the array between two
  instructions leaves those in front of the cut as they are.  A cut inside an instruction is a lack
  of input, and nothing else: whatever is checked of an instruction is checked on bytes in front of
  those that are missing.  The failure is reported behind the op code of that instruction, at an
  offset that is still within the array.
-/
import JavaClass.Proofs.Instruction.Tiling

namespace JavaClass.Instruction

open Scan

/-- The offset `n` lies in front of all instructions, or right behind one of them. -/
def IsBoundary (is : List Instruction) (n : Nat) : Prop := n = 0 ∨ ∃ i ∈ is, i.next = n

instance (is : List Instruction) (n : Nat) : Decidable (IsBoundary is n) :=
  inferInstanceAs (Decidable (_ ∨ _))

/-- The offset `n` lies inside the instruction: there are bytes of it on both sides. -/
def Straddles (i : Instruction) (n : Nat) : Prop := i.offset.toNat < n ∧ n < i.next

/-! ## Where instructions stand

  The instructions in front of a cut are those that start in front of it, if it is a boundary. -/

/-- Instructions that are accepted one after the other stand within the bytes that they are
    accepted as. -/
theorem bounds_of_acceptsAll {start : Nat} {code : List UInt8} {is : List Instruction}
    (h : scan.AcceptsAll start code is) :
    ∀ i ∈ is, start ≤ i.offset.toNat ∧ i.offset.toNat < i.next ∧ i.next ≤ start + code.length := by
  induction is generalizing start code with
  | nil =>
    intro i hi
    nomatch hi
  | cons i is ih =>
    obtain ⟨first, rest, rfl, hi, hrest⟩ := h
    obtain ⟨-, hoffset, hlength, operands, rfl, -⟩ := accepts_scan.mp hi
    rw [List.length_cons] at hlength
    have hbytes : (i.op.byte :: operands ++ rest).length = operands.length + 1 + rest.length := by
      rw [List.length_append, List.length_cons]
    have hnext : i.next = start + (operands.length + 1) := by rw [next, hoffset, hlength]
    intro j hj
    rcases List.mem_cons.mp hj with rfl | hj
    -- the first one starts the run, and the others stay behind it
    · omega
    · have hbound := ih hrest j hj
      rw [List.length_cons] at hbound
      omega

/-- The end of the bytes is a boundary of the instructions that they are accepted as. -/
theorem isBoundary_of_acceptsAll {code : List UInt8} {is : List Instruction}
    (h : scan.AcceptsAll 0 code is) : IsBoundary is code.length := by
  have htiles := tiles_of_acceptsAll h
  cases hlast : is.getLast? with
  | none =>
    obtain rfl := List.getLast?_eq_none_iff.mp hlast
    rw [htiles.empty rfl]
    exact Or.inl rfl
  | some i =>
    have hnext := htiles.last i hlast
    rw [Nat.zero_add] at hnext
    exact Or.inr ⟨i, List.mem_of_getLast? hlast, hnext⟩

/-- Of instructions one behind the other, those that start in front of the end of the first ones are
    the first ones. -/
theorem filter_offset_lt {first rest : List UInt8} {before after : List Instruction}
    (hbefore : scan.AcceptsAll 0 first before) (hafter : scan.AcceptsAll first.length rest after) :
    (before ++ after).filter (·.offset.toNat < first.length) = before := by
  have hin : before.filter (·.offset.toNat < first.length) = before := by
    refine List.filter_eq_self.mpr fun i hi => decide_eq_true ?_
    have := bounds_of_acceptsAll hbefore i hi
    omega
  have hout : after.filter (·.offset.toNat < first.length) = [] := by
    refine List.filter_eq_nil_iff.mpr fun i hi => ?_
    rw [decide_eq_true_eq]
    have := bounds_of_acceptsAll hafter i hi
    omega
  rw [List.filter_append, hin, hout, List.append_nil]

/-! ## A lack of input

  Of the failures of an instruction only one is left if bytes of it are missing: the checks are
  made on bytes that are there, and they were passed. -/

/-- Where there is an op code, a lack of input is reported behind it. -/
theorem lt_position_of_scan {byte : UInt8} {rest : List UInt8} {p : Nat} {d : Cursor}
    {position requested available : Nat}
    (h : scan ⟨byte :: rest, p⟩ = .error (.endOfInput position requested available) d) :
    p < position := by
  rcases bind_eq_error.mp h with h | ⟨start, c, hc, h⟩
  · nomatch h
  cases hc
  cases hb : OpCode.ofByte? byte with
  | none =>
    have hfail := scan_opCode_unassigned hb rest p
    rcases bind_eq_error.mp h with h | ⟨op, c, hc, -⟩
    · rw [hfail] at h
      nomatch h
    · rw [hfail] at hc
      nomatch hc
  | some op =>
    have hop := scan_opCode_cons hb rest p
    rcases bind_eq_error.mp h with h | ⟨op', c, hc, h⟩
    · rw [hop] at h
      nomatch h
    · rw [hop] at hc
      cases hc
      -- what is left to read starts behind the op code, and reports nothing in front of that
      have hrest := (incremental_scanOperands p op.layout).bind fun operands =>
        (incremental_checkedOffset p).bind fun offset => incremental_position.bind fun stop =>
          .pure (⟨offset, op, operands, stop - p⟩ : Instruction)
      exact (hrest.starves h).1

/-- An instruction that is cut off is a lack of input. -/
theorem decodeAfter_take {p n : Nat} {around : List UInt8} {i : Instruction}
    (h : scan.Accepts p around i) (hpos : 0 < n) (hn : n < around.length)
    (done : List Instruction) :
    ∃ position requested available,
      decodeAfter done ⟨around.take n, p⟩ = .error (.endOfInput position requested available) ∧
      p < position ∧ position + available = p + n ∧ available < requested := by
  obtain ⟨position, requested, available, d, hd⟩ := incremental_scan.take_of_accepts h hn
  obtain ⟨-, -, -, operands, rfl, -⟩ := accepts_scan.mp h
  -- there is a byte at least, so the op code is still there
  obtain ⟨m, rfl⟩ : ∃ m, n = m + 1 := ⟨n - 1, by omega⟩
  have hlen : (i.op.byte :: operands).take (m + 1) = i.op.byte :: operands.take m := rfl
  have hcut : ((i.op.byte :: operands).take (m + 1)).length = m + 1 :=
    List.length_take_of_le (Nat.le_of_lt hn)
  obtain ⟨-, hend, hlt, -⟩ := incremental_scan.starves hd
  have hend : position + available = p + (m + 1) := by
    rw [hend, Cursor.remaining, hcut]
  refine ⟨position, requested, available, ?_, ?_, hend, hlt⟩
  · refine decodeAfter_of_error ?_ hd done
    rw [hlen]
    exact List.cons_ne_nil _ _
  -- what is missing is missing behind the op code
  · rw [hlen] at hd
    exact lt_position_of_scan hd

/-! ## Cut-off code arrays

  A cut is at a boundary or inside an instruction, and there is exactly one instruction that it is
  inside of. -/

theorem decode_eq_error {code : List UInt8} {e : ReadError} (hlen : code.length ≤ maxCodeLength)
    (h : decodeAfter [] ⟨code, 0⟩ = .error e) : decode code = .error e := by
  rw [decode, if_neg (Nat.not_lt.mpr hlen)]
  exact h

/-- An instruction among others that are accepted one after the other is the one around the cut, or
    stands on one side of it. -/
theorem eq_or_beside {first around rest : List UInt8} {before after : List Instruction}
    {i j : Instruction} (hbefore : scan.AcceptsAll 0 first before)
    (hafter : scan.AcceptsAll (first.length + around.length) rest after)
    (hj : j ∈ before ++ i :: after) :
    j = i ∨ j.next ≤ first.length ∨ first.length + around.length ≤ j.offset.toNat := by
  rcases List.mem_append.mp hj with hj | hj
  · have := bounds_of_acceptsAll hbefore j hj
    omega
  · rcases List.mem_cons.mp hj with rfl | hj
    · exact Or.inl rfl
    · have := bounds_of_acceptsAll hafter j hj
      omega

/-- **Cut-off code arrays.**  Cut between two instructions, a decoded code array decodes to the
    instructions in front of the cut; cut inside an instruction, it fails for lack of input, at an
    offset behind the start of that instruction and within the array. -/
theorem decode_take {code : List UInt8} {is : List Instruction} (h : decode code = .ok is)
    {n : Nat} (hn : n ≤ code.length) :
    (IsBoundary is n → decode (code.take n) = .ok (is.filter (·.offset.toNat < n))) ∧
    (¬ IsBoundary is n → ∃ i ∈ is, i.Straddles n ∧ (∀ j ∈ is, j.Straddles n → j = i) ∧
      ∃ position requested available,
        decode (code.take n) = .error (.endOfInput position requested available) ∧
        i.offset.toNat < position ∧ position ≤ n ∧ position + available = n ∧
        available < requested) := by
  obtain ⟨hmax, hall⟩ := decode_eq_ok.mp h
  have htake : (code.take n).length ≤ maxCodeLength :=
    Nat.le_trans (List.length_take_le' n code) hmax
  cases hall.cutAt hn with
  -- cut between two instructions: those in front are decoded as before
  | @between first rest before after length front back =>
    subst length
    rw [Nat.zero_add] at back
    have hboundary : IsBoundary (before ++ after) first.length := by
      rcases isBoundary_of_acceptsAll front with h₀ | ⟨i, hi, hnext⟩
      · exact Or.inl h₀
      · exact Or.inr ⟨i, List.mem_append_left after hi, hnext⟩
    refine ⟨fun _ => ?_, fun hno => absurd hboundary hno⟩
    rw [List.take_left] at htake ⊢
    rw [filter_offset_lt front back]
    exact decode_eq_ok.mpr ⟨htake, front⟩
  -- cut inside an instruction, which no other one can reach
  | @inside first around rest before after i start stop front middle back =>
    rw [Nat.zero_add] at middle back
    obtain ⟨-, hoffset, hlength, -⟩ := accepts_scan.mp middle
    have hnext : i.next = first.length + around.length := by rw [next, hoffset, hlength]
    have hi : i ∈ before ++ i :: after := List.mem_append_right before List.mem_cons_self
    have hstraddles : i.Straddles n := ⟨by omega, by omega⟩
    have hno : ¬ IsBoundary (before ++ i :: after) n := by
      rintro (rfl | ⟨j, hj, rfl⟩)
      · omega
      · have hbound := bounds_of_acceptsAll hall j hj
        rcases eq_or_beside front back hj with rfl | hle | hge
        · omega
        · omega
        · omega
    refine ⟨fun hyes => absurd hyes hno, fun _ => ⟨i, hi, hstraddles, ?_, ?_⟩⟩
    -- another one that straddled the cut would have to stand in front or behind
    · rintro j hj ⟨hstart, hstop⟩
      rcases eq_or_beside front back hj with rfl | hle | hge
      · rfl
      · omega
      · omega
    -- behind the instructions in front, the one that is cut fails for want of input
    · obtain ⟨position, requested, available, hrun, hlt, hend, hshort⟩ :=
        decodeAfter_take middle (n := n - first.length) (by omega) (by omega)
          (before.reverse ++ [])
      refine ⟨position, requested, available, decode_eq_error htake ?_, by omega, by omega,
        by omega, hshort⟩
      rw [List.take_append, List.take_of_length_le (Nat.le_of_lt start),
        List.take_append_of_le_length (by omega), decodeAfter_append front, Nat.zero_add]
      exact hrun

/-- A table switch with one key, between two other instructions. -/
def switchCode : List UInt8 :=
  [0x00, 0xaa, 0xcc, 0xcc, 0x00, 0x00, 0x00, 0x14, 0x00, 0x00, 0x00, 0x05,
    0x00, 0x00, 0x00, 0x05, 0x00, 0x00, 0x00, 0x13, 0xb1]

/-- The theorem at a code array that is cut behind its table switch, and inside the padding. -/
theorem decode_take_switchCode :
    ∃ is, decode switchCode = .ok is ∧ IsBoundary is 20 ∧ ¬ IsBoundary is 3 ∧
      decode (switchCode.take 20) = .ok (is.filter (·.offset.toNat < 20)) ∧
      ∃ i ∈ is, i.Straddles 3 ∧ (∀ j ∈ is, j.Straddles 3 → j = i) ∧
        ∃ position requested available,
          decode (switchCode.take 3) = .error (.endOfInput position requested available) ∧
          i.offset.toNat < position ∧ position ≤ 3 ∧ position + available = 3 ∧
          available < requested := by
  have h : ∃ is, decode switchCode = .ok is ∧
      is = [⟨0, ⟨0x00, by decide⟩, .none, 1⟩, ⟨1, ⟨0xaa, by decide⟩, .switch ⟨20, [(5, 19)]⟩, 19⟩,
        ⟨20, ⟨0xb1, by decide⟩, .none, 1⟩] := ⟨_, by cbv, rfl⟩
  obtain ⟨is, his, rfl⟩ := h
  refine ⟨_, his, by decide, by decide, ?_, ?_⟩
  · exact (decode_take his (n := 20) (by decide)).1 (by decide)
  · exact (decode_take his (n := 3) (by decide)).2 (by decide)

end JavaClass.Instruction
