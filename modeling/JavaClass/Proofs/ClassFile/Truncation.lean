/-
  Class files that are cut off, and class files that go on.

  Reading a class file is incremental (`incremental_classFile`).  Seen from outside, where there is
  no cursor, this says what becomes of the result when bytes are added or taken away at the end:

    * a class is read from as many bytes as it takes; more of them change nothing, and fewer are a
      lack of input, never another failure and never a smaller class;
    * a failure other than a lack of input is final;
    * a lack of input tells exactly how many bytes there are, and stays until those that were asked
      for have arrived.
-/
import JavaClass.Proofs.ClassFile.Incremental

namespace JavaClass

/-- A result that is the failure for lack of input. -/
def IsEndOfInput {α : Type} (result : Except ReadError α) : Prop :=
  ∃ position requested available, result = .error (.endOfInput position requested available)

/-- The result of reading a byte string is that of its shortest prefix which is not too short. -/
structure PrefixStable {α : Type} (read : List UInt8 → Except ReadError α) : Prop where
  /-- A success stays when bytes are added. -/
  ok_append : ∀ {data : List UInt8} {a : α}, read data = .ok a →
    ∀ more, read (data ++ more) = .ok a
  /-- A success is that of a certain number of bytes; fewer are too few. -/
  ok_take : ∀ {data : List UInt8} {a : α}, read data = .ok a →
    ∃ needed, needed ≤ data.length ∧
      (∀ n, needed ≤ n → read (data.take n) = .ok a) ∧
      (∀ n, n < needed → IsEndOfInput (read (data.take n)))
  /-- A failure other than a lack of input stays when bytes are added. -/
  error_append : ∀ {data : List UInt8} {e : ReadError}, read data = .error e →
    ¬ IsEndOfInput (read data) → ∀ more, read (data ++ more) = .error e
  /-- A lack of input is about the end of the bytes, and stays until enough are added. -/
  endOfInput : ∀ {data : List UInt8} {position requested available : Nat},
    read data = .error (.endOfInput position requested available) →
      position + available = data.length ∧ available < requested ∧
      ∀ more : List UInt8, more.length < requested - available →
        read (data ++ more) = .error (.endOfInput position requested (available + more.length))

namespace ClassFile

open Scan

theorem ofBytes_eq_ok {data : List UInt8} {c : ClassFile} :
    ofBytes data = .ok c ↔ ∃ d, scan (Cursor.start data) = .ok c d := by
  unfold ofBytes
  cases h : scan (Cursor.start data) with
  | ok c' d =>
    constructor
    · intro hc
      cases hc
      exact ⟨d, rfl⟩
    · rintro ⟨d', hd⟩
      cases hd
      rfl
  | error e d =>
    constructor
    · intro hc
      nomatch hc
    · rintro ⟨d', hd⟩
      nomatch hd

theorem ofBytes_eq_error {data : List UInt8} {e : ReadError} :
    ofBytes data = .error e ↔ ∃ d, scan (Cursor.start data) = .error e d := by
  unfold ofBytes
  cases h : scan (Cursor.start data) with
  | ok c' d =>
    constructor
    · intro hc
      nomatch hc
    · rintro ⟨d', hd⟩
      nomatch hd
  | error e d =>
    constructor
    · intro hc
      cases hc
      exact ⟨d, rfl⟩
    · rintro ⟨d', hd⟩
      cases hd
      rfl

/-- A class is read from any byte string that starts with bytes it is accepted as. -/
theorem ofBytes_of_accepts {read : List UInt8} {c : ClassFile} (h : scan.Accepts 0 read c)
    (more : List UInt8) : ofBytes (read ++ more) = .ok c :=
  ofBytes_eq_ok.mpr ⟨_, h more⟩

/-- A byte string that a class is read from starts with bytes it is accepted as. -/
theorem accepts_of_ofBytes {data : List UInt8} {c : ClassFile} (h : ofBytes data = .ok c) :
    ∃ read rest, data = read ++ rest ∧ scan.Accepts 0 read c := by
  obtain ⟨d, hd⟩ := ofBytes_eq_ok.mp h
  obtain ⟨read, hr, ha⟩ := incremental_classFile.accepts hd
  exact ⟨read, d.rest, hr.1, ha⟩

/-- Bytes cut off from those that a class is accepted as are too few. -/
theorem isEndOfInput_of_accepts {read : List UInt8} {c : ClassFile} (h : scan.Accepts 0 read c)
    {n : Nat} (hn : n < read.length) : IsEndOfInput (ofBytes (read.take n)) := by
  obtain ⟨position, requested, available, d, hd⟩ := incremental_classFile.take_of_accepts h hn
  exact ⟨position, requested, available, ofBytes_eq_error.mpr ⟨d, hd⟩⟩

/-- **Cut-off and continued class files.**  What is read depends only on the bytes it takes. -/
theorem prefixStable_ofBytes : PrefixStable ofBytes := by
  constructor
  case ok_append =>
    intro data c h more
    obtain ⟨read, rest, rfl, ha⟩ := accepts_of_ofBytes h
    rw [List.append_assoc]
    exact ofBytes_of_accepts ha _
  case ok_take =>
    intro data c h
    obtain ⟨read, rest, rfl, ha⟩ := accepts_of_ofBytes h
    refine ⟨read.length, by rw [List.length_append]; omega, ?_, ?_⟩
    · intro n hn
      rw [List.take_append, List.take_of_length_le hn]
      exact ofBytes_of_accepts ha _
    · intro n hn
      rw [List.take_append_of_le_length (Nat.le_of_lt hn)]
      exact isEndOfInput_of_accepts ha hn
  case error_append =>
    intro data e h hne more
    obtain ⟨d, hd⟩ := ofBytes_eq_error.mp h
    have hshort : ¬ IsShortage e := by
      rintro ⟨position, requested, available, rfl⟩
      exact hne ⟨position, requested, available, h⟩
    exact ofBytes_eq_error.mpr (incremental_classFile.rejects hd hshort more)
  case endOfInput =>
    intro data position requested available h
    obtain ⟨d, hd⟩ := ofBytes_eq_error.mp h
    obtain ⟨-, hend, hlt, hmore⟩ := incremental_classFile.starves hd
    have hstart : (Cursor.start data).position + (Cursor.start data).remaining = data.length :=
      Nat.zero_add _
    rw [hstart] at hend
    exact ⟨hend, hlt, fun more hm => ofBytes_eq_error.mpr (hmore more hm)⟩

/-- The theorem at a class without members and one byte more, at four bytes that start no class
    file and one more, and at the first byte of a class file and one more. -/
theorem prefixStable_ofBytes_shortest :
    (∃ c, ofBytes ([0xCA, 0xFE, 0xBA, 0xBE, 0, 0, 0, 52, 0, 1, 0, 0x21, 0, 0, 0, 0, 0, 0, 0, 0,
      0, 0, 0, 0] ++ [0xFF]) = .ok c) ∧
    ofBytes ([0x50, 0x4B, 0x03, 0x04] ++ [0x14]) = .error (.notAClassFile 0x504B0304) ∧
    ofBytes ([0xCA] ++ [0xFE]) = .error (.endOfInput 0 4 2) := by
  refine ⟨?_, ?_, ?_⟩
  · have h : ∃ c, ofBytes [0xCA, 0xFE, 0xBA, 0xBE, 0, 0, 0, 52, 0, 1, 0, 0x21, 0, 0, 0, 0, 0, 0,
        0, 0, 0, 0, 0, 0] = .ok c := ⟨_, by cbv⟩
    obtain ⟨c, hc⟩ := h
    exact ⟨c, prefixStable_ofBytes.ok_append hc [0xFF]⟩
  · have h : ofBytes [0x50, 0x4B, 0x03, 0x04] = .error (.notAClassFile 0x504B0304) := rfl
    refine prefixStable_ofBytes.error_append h ?_ [0x14]
    rintro ⟨position, requested, available, he⟩
    rw [h] at he
    cases he
  · have h : ofBytes [0xCA] = .error (.endOfInput 0 4 1) := rfl
    exact (prefixStable_ofBytes.endOfInput h).2.2 [0xFE] (by decide)

end ClassFile

end JavaClass
