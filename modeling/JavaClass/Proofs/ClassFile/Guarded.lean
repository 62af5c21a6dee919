/-
  Numbers stay in their range.

  Three numbers of the class file reader are only right as long as they fit: the slot of a constant
  and the index of an entry are cut down to 16 bits, and the length of a method's code is a
  difference of two offsets.  `Guarded` is the reader with a guard at each of these places, one that
  ends the run with a fault of its own.  It is shown to be the reader itself, on every byte string:
  no guard is ever hit (`scanPool_eq`, `scanCode_eq`, and from them the whole file).

  The decoder of code arrays carries guards of its own, for code that is too long and for offsets
  beyond 16 bits.  The reader lets no such code pass, so the instructions of a method that was read
  never fail for these reasons (`Method.listed_instructions`).
-/
import JavaClass.Proofs.ClassFile.Consistent
import JavaClass.Proofs.ClassFile.MethodAttributes
import JavaClass.Proofs.Instruction.Undecodable

namespace JavaClass

/-- What ends a guarded run. -/
inductive Fault where
  /-- The input, as it ends a run without guards. -/
  | input (cause : ReadError)
  /-- A number has left its range. -/
  | range
deriving DecidableEq, Repr

instance : MonadLift (Scan ReadError) (Scan Fault) := ⟨Scan.mapError .input⟩

open Scan

/-! ## The reader with its guards

  The same definitions, with a guard at each number that is cut down.  Parts of a class file
  without such a number are taken from the reader as they are. -/

namespace Guarded

/-- A number as a 16-bit word, if it is one. -/
def narrow (n : Nat) : Except Fault UInt16 :=
  if n < 65536 then .ok (UInt16.ofNat n) else .error .range

/-- A difference, if the second number is not above the first. -/
def minus (a b : Nat) : Except Fault Nat :=
  if b ≤ a then .ok (a - b) else .error .range

/-- The constants up to the declared count; the slot of each has to be a 16-bit number. -/
def scanFrom (count index : Nat) (pool : ConstantPool) : Scan Fault (ConstantPool × Nat) :=
  if index < count then do
    let slot ← Scan.ofExcept (narrow index)
    let constant ← Constant.scan slot
    have := constant.slots_pos
    scanFrom count (index + constant.slots) (pool.add constant)
  else return (pool, index)
termination_by count - index

/-- The constant pool at the cursor. -/
def scanPool : Scan Fault ConstantPool := do
  let count ← u16
  let (pool, index) ← scanFrom count.toNat 1 .empty
  require (count = 0 ∨ index = count.toNat) (.input (.malformed (.poolSlots count.toNat index)))
  return pool

/-- The constants in order, each with its index, which has to be a 16-bit number. -/
def entries (pool : ConstantPool) : Except Fault (List (UInt16 × Constant)) :=
  let occupied := pool.slots.toList.zipIdx.filterMap fun (slot, i) => slot.map fun constant =>
    (i, constant)
  occupied.mapM fun (i, constant) => do
    let index ← narrow (i + 1)
    return (index, constant)

/-- The code of a method, whose length has to be a difference of offsets. -/
def scanCode (pool : ConstantPool) (declared : Nat) : Scan Fault Code := do
  let start ← position
  let body ← Code.scanBody pool
  let lines ← Scan.mapError .input (Scan.ofExcept (Code.linesOf body.attributes))
  let stop ← position
  let actual ← Scan.ofExcept (minus stop start)
  require (actual = declared) (.input (.malformed (.codeAttributeLength declared actual)))
  return { body with lines }

/-- An attribute of a method, taken apart if it is code. -/
def scanPart (pool : ConstantPool) : Scan Fault Method.Part := do
  let header ← Attribute.scanHeader pool
  if header.name = "Code" then return .code (← scanCode pool header.length)
  else return .other (← Attribute.scanContent header)

/-- A method. -/
def scanMethod (pool : ConstantPool) : Scan Fault Method := do
  let accessFlags ← u16
  let nameIndex ← u16
  let name ← resolve (pool.utf8 nameIndex)
  let descriptorIndex ← u16
  let descriptor ← resolve (pool.utf8 descriptorIndex)
  let parts ← counted u16 (scanPart pool)
  return { accessFlags, nameIndex, descriptorIndex, name, descriptor,
           attributes := Method.attributesOf parts, code := Method.codeOf parts }

/-- A class file. -/
def scan : Scan Fault ClassFile := do
  let found ← u32
  require (found = ClassFile.magic) (.input (.notAClassFile found))
  let minor ← u16
  let major ← u16
  let constants ← scanPool
  let accessFlags ← u16
  let thisClass ← u16
  let superClass ← u16
  let interfaces ← counted u16 u16
  let fields ← counted u16 (liftM (Field.scan constants))
  let methods ← counted u16 (scanMethod constants)
  let attributes ← Attribute.scanAll constants
  return { version := { major, minor }, constants, accessFlags, thisClass, superClass, interfaces,
           fields, methods, attributes }

/-- The class in a byte string. -/
def ofBytes (bytes : List UInt8) : Except Fault ClassFile :=
  match scan (Cursor.start bytes) with
  | .ok classFile _ => .ok classFile
  | .error fault _ => .error fault

/-! ## The guards let through what is in range

  A guard that is not hit does nothing. -/

theorem narrow_of_lt {n : Nat} (h : n < 65536) : narrow n = .ok (UInt16.ofNat n) := if_pos h

theorem minus_of_le {a b : Nat} (h : b ≤ a) : minus a b = .ok (a - b) := if_pos h

end Guarded

/-! ## Renaming failures

  The guarded reader has one more way to fail, so its other failures go by another name.  Renaming
  passes through everything that scans are made of. -/

namespace Scan

variable {ε ε' α β : Type}

/-- Renaming the failures of a check renames the one it has. -/
theorem mapError_require (f : ε → ε') (condition : Prop) [Decidable condition] (e : ε) :
    mapError f (require condition e) = require condition (f e) := by
  unfold require
  split
  · rfl
  · rfl

/-- Renaming the failures of a repeated scan renames those of each run. -/
theorem mapError_timesAfter (f : ε → ε') (scan : Scan ε α) (done : List α) (n : Nat) :
    mapError f (timesAfter scan done n) = timesAfter (mapError f scan) done n := by
  induction n generalizing done with
  | zero => rfl
  | succ n ih =>
    rw [timesAfter, timesAfter, mapError_bind]
    exact congrArg (mapError f scan >>= ·) (funext fun a => ih (a :: done))

/-- Renaming the failures of a counted list renames those of its count and of its items. -/
theorem mapError_counted (f : ε → ε') (count : Scan ε UInt16) (scan : Scan ε α) :
    mapError f (counted count scan) = counted (mapError f count) (mapError f scan) := by
  rw [counted, counted, mapError_bind]
  exact congrArg (mapError f count >>= ·) (funext fun n => mapError_timesAfter f scan [] n.toNat)

/-- What follows a scan matters only behind what the scan yields. -/
theorem bind_congr_ok {scan : Scan ε α} {next next' : α → Scan ε β} {c : Cursor}
    (h : ∀ a d, scan c = .ok a d → next a d = next' a d) :
    (scan >>= next) c = (scan >>= next') c := by
  change EStateM.bind scan next c = EStateM.bind scan next' c
  unfold EStateM.bind
  cases hc : scan c with
  | ok a d => exact h a d hc
  | error e d => rfl

/-- A scan that only takes bytes does not lower the position. -/
theorem Incremental.position_le {scan : Scan ReadError α} (h : Incremental scan) {c d : Cursor}
    {a : α} (hc : scan.mapError Fault.input c = .ok a d) : c.position ≤ d.position := by
  obtain ⟨read, hr, -⟩ := h.accepts (mapError_eq_ok.mp hc)
  rw [hr.2]
  exact Nat.le_add_right _ _

end Scan

namespace Guarded

/-! ## No guard is hit

  By the definitions of the reader, from the inside out.  The slot of a constant is below a count
  of 16 bits, and the cursor never moves back. -/

/-- Every slot that a constant is read for lies below the declared count. -/
theorem scanFrom_eq {count : Nat} (hcount : count < 65536) (index : Nat) (pool : ConstantPool) :
    scanFrom count index pool = Scan.mapError .input (ConstantPool.scanFrom count index pool) := by
  fun_induction ConstantPool.scanFrom count index pool with
  | case1 index pool hlt ih =>
    have hslot : narrow index = .ok (UInt16.ofNat index) := narrow_of_lt (Nat.lt_trans hlt hcount)
    rw [scanFrom, if_pos hlt, hslot, mapError_bind]
    exact congrArg (Scan.mapError .input (Constant.scan (UInt16.ofNat index)) >>= ·)
      (funext fun constant => ih constant)
  | case2 index pool hge =>
    rw [scanFrom, if_neg hge]
    rfl

/-- With bounded words, a pool is read as without, since no slot lies beyond sixteen bits. -/
theorem scanPool_eq : scanPool = Scan.mapError .input ConstantPool.scan := by
  simp only [scanPool, ConstantPool.scan, mapError_bind]
  refine congrArg _ (funext fun count => ?_)
  rw [scanFrom_eq count.toNat_lt]
  refine congrArg _ (funext fun result => ?_)
  rw [mapError_require]
  rfl

/-- Reading the parts of a method's code moves forward, so the offset behind them is not below the
    one in front. -/
theorem scanCode_eq (pool : ConstantPool) (declared : Nat) :
    scanCode pool declared = Scan.mapError .input (Code.scan pool declared) := by
  simp only [Code.scan_eq, scanCode, Code.checkBody, mapError_bind]
  funext c
  refine bind_congr_ok fun start c₁ hstart => bind_congr_ok fun body c₂ hbody =>
    bind_congr_ok fun lines c₃ hlines => bind_congr_ok fun stop c₄ hstop => ?_
  cases hstart
  cases hstop
  have hle : c.position ≤ c₃.position :=
    Nat.le_trans ((Code.incremental_scanBody pool).position_le hbody)
      ((incremental_linesOf body.attributes).position_le hlines)
  have hactual : minus c₃.position c.position = .ok (c₃.position - c.position) := minus_of_le hle
  rw [hactual, mapError_require]
  rfl

/-- No difference of lengths in an attribute of a method is negative. -/
theorem scanPart_eq (pool : ConstantPool) :
    scanPart pool = Scan.mapError .input (Method.scanPart pool) := by
  simp only [scanPart, Method.scanPart, scanCode_eq, mapError_bind]
  refine congrArg _ (funext fun header => ?_)
  by_cases hname : header.name = "Code"
  · rw [if_pos hname, if_pos hname, mapError_bind]
    rfl
  · rw [if_neg hname, if_neg hname, mapError_bind]
    rfl

/-- A method is read the same with bounded words. -/
theorem scanMethod_eq (pool : ConstantPool) :
    scanMethod pool = Scan.mapError .input (Method.scan pool) := by
  simp only [scanMethod, Method.scan, scanPart_eq, mapError_bind, mapError_counted]
  rfl

/-- So is a whole class. -/
theorem scan_eq : scan = Scan.mapError .input ClassFile.scan := by
  simp only [scan, ClassFile.scan, scanPool_eq, scanMethod_eq, mapError_bind, mapError_counted,
    mapError_require]
  rfl

/-- The reader with its guards is the reader. -/
theorem ofBytes_eq (data : List UInt8) :
    ofBytes data = (ClassFile.ofBytes data).mapError .input := by
  unfold ofBytes ClassFile.ofBytes
  rw [scan_eq, Scan.mapError]
  cases ClassFile.scan (Cursor.start data) with
  | ok c d => rfl
  | error e d => rfl

/-! ## Indexes of entries

  A pool may be built by hand with more slots than there are indexes, so this is about pools of
  the size that a class file can have. -/

/-- Steps that all succeed yield all their results. -/
theorem mapM_eq_ok {ε α β : Type} {step : α → Except ε β} {result : α → β} {as : List α}
    (h : ∀ a ∈ as, step a = .ok (result a)) : as.mapM step = .ok (as.map result) := by
  induction as with
  | nil => rfl
  | cons a as ih =>
    obtain ⟨ha, has⟩ := List.forall_mem_cons.mp h
    rw [List.mapM_cons, ha, ih has]
    rfl

/-- The entries of a pool that can be numbered in 16 bits have the indexes that they say. -/
theorem entries_eq {pool : ConstantPool} (hsize : pool.size ≤ 65535) :
    entries pool = .ok pool.entries := by
  have hentries : pool.entries = (pool.slots.toList.zipIdx.filterMap fun (slot, i) =>
      slot.map fun constant => (i, constant)).map fun (i, constant) =>
        (UInt16.ofNat (i + 1), constant) := by
    rw [List.map_filterMap]
    simp only [ConstantPool.entries, Option.map_map]
    rfl
  rw [hentries]
  refine mapM_eq_ok ?_
  rintro ⟨i, constant⟩ hmem
  obtain ⟨⟨slot, n⟩, hslot, hentry⟩ := List.mem_filterMap.mp hmem
  obtain ⟨_, -, heq⟩ := Option.map_eq_some_iff.mp hentry
  cases heq
  have hlt : i < pool.size :=
    ConstantPool.lt_size_of_getElem? (List.mem_zipIdx_iff_getElem?.mp hslot)
  have hindex : narrow (i + 1) = .ok (UInt16.ofNat (i + 1)) := narrow_of_lt (by omega)
  simp only [hindex]
  rfl

end Guarded

/-! ## The instructions of a method

  The decoder is given the array of a method that was read, whose length was checked when it was. -/

/-- The ways in which a code array of permitted length fails to be decoded. -/
inductive ReadError.OfCode : ReadError → Prop
  | endOfInput (position requested available : Nat) :
    OfCode (.endOfInput position requested available)
  | unknownOpCode (byte : UInt8) (offset : Nat) : OfCode (.unknownOpCode byte offset)
  | notWidenable (op : OpCode) (offset : Nat) : OfCode (.malformed (.notWidenable op offset))
  | tableSwitchBounds (low high : Int32) (offset : Nat) :
    OfCode (.malformed (.tableSwitchBounds low high offset))
  | lookupSwitchCount (count : Int32) (offset : Nat) :
    OfCode (.malformed (.lookupSwitchCount count offset))

theorem Instruction.Undecodable.ofCode {start : Nat} {stored : List UInt8} {e : ReadError}
    (h : Undecodable start stored e) : e.OfCode := by
  cases h with
  | unknown => exact .unknownOpCode _ _
  | unknownWidened => exact .unknownOpCode _ _
  | notWidenable => exact .notWidenable _ _
  | tableSwitchBounds => exact .tableSwitchBounds _ _ _
  | lookupSwitchCount => exact .lookupSwitchCount _ _
  | missing => exact .endOfInput _ _ _

/-- Neither the length of the code nor an offset in it is ever at fault. -/
theorem Instruction.ofCode_of_decode {code : List UInt8} {e : ReadError}
    (hlen : code.length ≤ 65535) (h : decode code = .error e) : e.OfCode := by
  have hmax : ¬ maxCodeLength < code.length := Nat.not_lt.mpr hlen
  rw [decode, if_neg hmax] at h
  obtain ⟨first, rest, is, d, hcode, hne, -, hfail⟩ := exists_of_decodeAfter_eq_error h
  obtain rfl : code = first ++ rest := hcode
  rw [Cursor.start, Nat.zero_add] at hfail
  rw [List.length_append] at hlen
  have hpos : 0 < rest.length := List.length_pos_iff.mpr hne
  exact (undecodable_of_scan (by omega) hne hfail).ofCode

/-- What asking a method for its instructions comes to. -/
inductive Method.Listed (m : Method) : Except ReadError (List Instruction) → Prop
  /-- A method without code has no instructions. -/
  | none (abstract : m.code = none) : Listed m (.ok [])
  | decoded {code : Code} {is : List Instruction} (body : m.code = some code)
    (decodes : Instruction.decode code.array = .ok is) : Listed m (.ok is)
  /-- A failure names the method, and tells what is wrong with its code. -/
  | undecodable {code : Code} {e : ReadError} (body : m.code = some code)
    (fails : Instruction.decode code.array = .error e) (cause : e.OfCode) :
    Listed m (.error (.methodCode (m.name ++ m.descriptor) e))

/-- The instructions of a consistent method are listed, or fail for a reason that is about code. -/
theorem Method.listed_instructions {pool : ConstantPool} {m : Method} (h : m.Consistent pool) :
    m.Listed m.instructions := by
  unfold instructions
  cases hbody : m.code with
  | none => exact .none hbody
  | some code =>
    have hlen := (h.code code hbody).array_le
    simp only [Code.instructions]
    cases hdecode : Instruction.decode code.array with
    | ok is => exact .decoded hbody hdecode
    | error e => exact .undecodable hbody hdecode (Instruction.ofCode_of_decode hlen hdecode)

/-! ## The whole pipeline -/

namespace ClassFile

/-- **Nothing leaves its range.**  On every byte string the reader does what it does with its
    guards; the entries of every pool in it have the indexes that they say; and the methods of a
    class that is read yield their instructions, or fail for what is in their code. -/
theorem withinRange_ofBytes (data : List UInt8) :
    Guarded.ofBytes data = (ofBytes data).mapError .input ∧
    (∀ p pool d, ConstantPool.scan ⟨data.drop p, p⟩ = .ok pool d →
      Guarded.entries pool = .ok pool.entries) ∧
    ∀ c, ofBytes data = .ok c →
      Guarded.entries c.constants = .ok c.constants.entries ∧
      ∀ m ∈ c.methods, m.Listed m.instructions := by
  refine ⟨Guarded.ofBytes_eq data, ?_, ?_⟩
  · intro p pool d h
    have hsize := ConstantPool.ensures_scan _ _ _ h
    exact Guarded.entries_eq (by omega)
  · intro c h
    obtain ⟨d, hscan⟩ := ofBytes_eq_ok.mp h
    have hc := ensures_scan _ _ _ hscan
    have hsize := hc.constants
    exact ⟨Guarded.entries_eq (by omega), fun m hm => Method.listed_instructions (hc.methods m hm)⟩

/-- The theorem at a class with three constants and a method, of whose two code attributes the one
    that is kept has two instructions. -/
theorem withinRange_ofBytes_twoCodes :
    ofBytes twoCodes.written = .ok twoCodes.classFile ∧
      Guarded.ofBytes twoCodes.written = .ok twoCodes.classFile ∧
      Guarded.entries twoCodes.pool =
        .ok [(1, .utf8 "Code"), (2, .utf8 "run"), (3, .utf8 "()V")] ∧
      ∀ m ∈ twoCodes.classFile.methods, m.Listed m.instructions := by
  have hread : ofBytes twoCodes.written = .ok twoCodes.classFile :=
    ofBytes_eq_ok_iff.mpr ⟨twoCodes, valid_twoCodes, ⟨[], (List.append_nil _).symm⟩, rfl⟩
  obtain ⟨hguarded, -, hclass⟩ := withinRange_ofBytes twoCodes.written
  obtain ⟨hentries, hmethods⟩ := hclass _ hread
  rw [hread] at hguarded
  exact ⟨hread, hguarded, hentries, hmethods⟩

end ClassFile

end JavaClass
