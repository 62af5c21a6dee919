/-
  The encoding of instructions.

  The format is written down without mention of the decoder, in two steps.  `opCodesOf` lists the op
  code bytes of each layout, and `OperandBytes` gives for each layout the operands with the bytes
  that they may be stored as.  Numbers are given by their values, so an operand that is narrower than
  the number it becomes shows up as a bound on that number.  Bytes of no meaning are free, which is
  why this is a relation and no function.

  `Encodes` puts the op codes in front and the instructions in a row; it carries the offset, on
  which the padding of a switch depends.  That the table of the instruction set has the layouts of
  the format is a fact of its own (`bytesOf_eq`).  `decode_iff_encodes` is the round trip in both
  directions: what decodes is what is encoded, and an encoding decodes to what it encodes.
-/
import JavaClass.Proofs.Instruction.Accepts

namespace JavaClass.Instruction

open Scan
open BigEndian (bytes signedBytes)

/-! ## The format -/

/-- The op codes that are widened without an increment: the loads, the stores, and `ret`. -/
def wideLocals : List UInt8 :=
  [0x15, 0x16, 0x17, 0x18, 0x19, 0x36, 0x37, 0x38, 0x39, 0x3a, 0xa9]

/-- The bytes from one to another, both included. -/
def bytesFrom (first last : UInt8) : List UInt8 :=
  (List.range' first.toNat (last.toNat + 1 - first.toNat)).map UInt8.ofNat

/-- The op codes of each layout.  This is the assignment of the class file format, written down by
    layout and apart from the table that instructions are decoded by. -/
def opCodesOf : Layout → List UInt8
  -- constants that are implied, the shortest loads and stores, arithmetic, returns, array accesses
  | .nothing => bytesFrom 0x00 0x0f ++ bytesFrom 0x1a 0x35 ++ bytesFrom 0x3b 0x83 ++
      bytesFrom 0x85 0x98 ++ bytesFrom 0xac 0xb1 ++ [0xbe, 0xbf, 0xc2, 0xc3]
  -- `bipush`, `sipush`, `ldc`
  | .signedByte => [0x10]
  | .signedShort => [0x11]
  | .constantByte => [0x12]
  -- `ldc_w` and `ldc2_w`, fields and methods, and the instructions that name a class
  | .constant => [0x13, 0x14] ++ bytesFrom 0xb2 0xb8 ++ [0xbb, 0xbd, 0xc0, 0xc1]
  | .localSlot => wideLocals
  -- conditions, `goto` and `jsr`, comparisons with null
  | .branch => bytesFrom 0x99 0xa8 ++ [0xc6, 0xc7]
  | .branchWide => [0xc8, 0xc9]
  -- one instruction each: `newarray`, `iinc`, `invokeinterface`, `invokedynamic`, `multianewarray`
  | .elementType => [0xbc]
  | .increment => [0x84]
  | .interfaceCall => [0xb9]
  | .dynamicCall => [0xba]
  | .multiArray => [0xc5]
  | .tableSwitch => [0xaa]
  | .lookupSwitch => [0xab]
  | .widened => [0xc4]

/-- `OperandBytes start layout operands stored`: behind the op code at the offset `start`, the
    bytes `stored` are operands of that layout. -/
inductive OperandBytes (start : Nat) : Layout → Operands → List UInt8 → Prop
  | nothing : OperandBytes start .nothing .none []
  | signedByte {n : Int32} (range : -0x80 ≤ n.toInt ∧ n.toInt < 0x80) :
    OperandBytes start .signedByte (.one (.immediate n)) (signedBytes 1 n.toInt)
  | signedShort {n : Int32} (range : -0x8000 ≤ n.toInt ∧ n.toInt < 0x8000) :
    OperandBytes start .signedShort (.one (.immediate n)) (signedBytes 2 n.toInt)
  | constantByte {index : UInt16} (range : index.toNat < 0x100) :
    OperandBytes start .constantByte (.one (.constant index)) (bytes 1 index.toNat)
  | constant {index : UInt16} :
    OperandBytes start .constant (.one (.constant index)) (bytes 2 index.toNat)
  | localSlot {slot : UInt16} (range : slot.toNat < 0x100) :
    OperandBytes start .localSlot (.one (.localSlot slot)) (bytes 1 slot.toNat)
  | branch {jump : Int32} (range : -0x8000 ≤ jump.toInt ∧ jump.toInt < 0x8000) :
    OperandBytes start .branch (.one (.branch jump)) (signedBytes 2 jump.toInt)
  | branchWide {jump : Int32} :
    OperandBytes start .branchWide (.one (.branch jump)) (signedBytes 4 jump.toInt)
  | elementType {code : UInt8} :
    OperandBytes start .elementType (.one (.elementType code)) (bytes 1 code.toNat)
  | increment {slot : UInt16} {n : Int32} (slotRange : slot.toNat < 0x100)
    (range : -0x80 ≤ n.toInt ∧ n.toInt < 0x80) :
    OperandBytes start .increment (.two (.localSlot slot) (.immediate n))
      (bytes 1 slot.toNat ++ signedBytes 1 n.toInt)
  | interfaceCall {index : UInt16} {count : Int32} {reserved : UInt8}
    (range : 0 ≤ count.toInt ∧ count.toInt < 0x100) :
    OperandBytes start .interfaceCall (.two (.constant index) (.immediate count))
      (bytes 2 index.toNat ++ bytes 1 count.toInt.toNat ++ [reserved])
  | dynamicCall {index : UInt16} {reserved₁ reserved₂ : UInt8} :
    OperandBytes start .dynamicCall (.one (.constant index))
      (bytes 2 index.toNat ++ [reserved₁, reserved₂])
  | multiArray {index : UInt16} {dimensions : Int32}
    (range : 0 ≤ dimensions.toInt ∧ dimensions.toInt < 0x100) :
    OperandBytes start .multiArray (.two (.constant index) (.immediate dimensions))
      (bytes 2 index.toNat ++ bytes 1 dimensions.toInt.toNat)
  /-- One jump for every key from `low` to `high`, in ascending order; the keys are not stored. -/
  | tableSwitch {table : SwitchTable} {padding : List UInt8} {low high : Int32}
    (aligned : padding.length = 3 - start % 4) (bounds : low.toInt ≤ high.toInt)
    (keys : table.targets.map (·.1.toInt) =
      (List.range (high.toInt - low.toInt + 1).toNat).map (fun k : Nat => low.toInt + k)) :
    OperandBytes start .tableSwitch (.switch table)
      (padding ++ signedBytes 4 table.default.toInt ++ signedBytes 4 low.toInt ++
        signedBytes 4 high.toInt ++ table.targets.flatMap (signedBytes 4 ·.2.toInt))
  /-- A count that is not negative as a signed number, and the keys with their jumps. -/
  | lookupSwitch {table : SwitchTable} {padding : List UInt8}
    (aligned : padding.length = 3 - start % 4) (count : table.targets.length < 0x80000000) :
    OperandBytes start .lookupSwitch (.switch table)
      (padding ++ signedBytes 4 table.default.toInt ++ bytes 4 table.targets.length ++
        table.targets.flatMap fun t => signedBytes 4 t.1.toInt ++ signedBytes 4 t.2.toInt)
  | wideIncrement {op : OpCode} {slot : UInt16} {n : Int16} (iinc : op.byte = 0x84) :
    OperandBytes start .widened (.wide op slot (some n))
      (op.byte :: (bytes 2 slot.toNat ++ signedBytes 2 n.toInt))
  | wideLocal {op : OpCode} {slot : UInt16} (widenable : op.byte ∈ wideLocals) :
    OperandBytes start .widened (.wide op slot none) (op.byte :: bytes 2 slot.toNat)

/-- `Encodes start instructions code`: the bytes `code`, which begin at the offset `start`, are
    these op codes with these operands, one behind the other.  The operands are laid out as the
    op code byte demands. -/
inductive Encodes : Nat → List (OpCode × Operands) → List UInt8 → Prop
  | nil {start : Nat} : Encodes start [] []
  | cons {start : Nat} {op : OpCode} {layout : Layout} {operands : Operands}
    {stored code : List UInt8} {instructions : List (OpCode × Operands)}
    (format : op.byte ∈ opCodesOf layout) (first : OperandBytes start layout operands stored)
    (rest : Encodes (start + (op.byte :: stored).length) instructions code) :
    Encodes start ((op, operands) :: instructions) (op.byte :: stored ++ code)

/-! ## Narrow operands

  A number is within the bounds of a narrow one exactly if it was read as a narrow one. -/

/-- The numbers that fit a signed byte. -/
theorem int8_range {n : Int32} :
    -0x80 ≤ n.toInt ∧ n.toInt < 0x80 ↔ ∃ v : Int8, v.toInt32 = n := by
  constructor
  · rintro ⟨hle, hlt⟩
    refine ⟨Int8.ofInt n.toInt, Int32.toInt_inj.mp ?_⟩
    rw [Int8.toInt_toInt32, Int8.toInt_ofInt_of_le hle hlt]
  · rintro ⟨v, rfl⟩
    rw [Int8.toInt_toInt32]
    exact ⟨v.le_toInt, v.toInt_lt⟩

/-- The numbers that fit a signed word of 16 bits. -/
theorem int16_range {n : Int32} :
    -0x8000 ≤ n.toInt ∧ n.toInt < 0x8000 ↔ ∃ v : Int16, v.toInt32 = n := by
  constructor
  · rintro ⟨hle, hlt⟩
    refine ⟨Int16.ofInt n.toInt, Int32.toInt_inj.mp ?_⟩
    rw [Int16.toInt_toInt32, Int16.toInt_ofInt_of_le hle hlt]
  · rintro ⟨v, rfl⟩
    rw [Int16.toInt_toInt32]
    exact ⟨v.le_toInt, v.toInt_lt⟩

/-- The indexes that fit a byte. -/
theorem uint8_range {k : UInt16} : k.toNat < 0x100 ↔ ∃ v : UInt8, v.toUInt16 = k := by
  constructor
  · intro hlt
    refine ⟨UInt8.ofNat k.toNat, UInt16.toNat_inj.mp ?_⟩
    rw [UInt8.toNat_toUInt16, UInt8.toNat_ofNat_of_lt' hlt]
  · rintro ⟨v, rfl⟩
    rw [UInt8.toNat_toUInt16]
    exact v.toNat_lt

/-- A byte that counts something keeps its value as a number. -/
theorem toInt_count (v : UInt8) : v.toUInt32.toInt32.toInt = v.toNat := by
  have hlt := v.toNat_lt
  have hsmall : 2 * v.toUInt32.toBitVec.toNat < 2 ^ 32 := by
    show 2 * v.toNat < 2 ^ 32
    omega
  exact BitVec.toInt_eq_toNat_of_lt hsmall

/-- The counts that fit a byte. -/
theorem count_range {n : Int32} :
    0 ≤ n.toInt ∧ n.toInt < 0x100 ↔ ∃ v : UInt8, v.toUInt32.toInt32 = n := by
  constructor
  · rintro ⟨hle, hlt⟩
    have hv : (UInt8.ofNat n.toInt.toNat).toNat = n.toInt.toNat :=
      UInt8.toNat_ofNat_of_lt' (show n.toInt.toNat < 256 by omega)
    refine ⟨UInt8.ofNat n.toInt.toNat, Int32.toInt_inj.mp ?_⟩
    rw [toInt_count, hv]
    omega
  · rintro ⟨v, rfl⟩
    have hlt := v.toNat_lt
    rw [toInt_count]
    omega

/-! ## Switch tables

  The keys of a `tableswitch` are not stored, so its targets are compared key by key with the
  numbers from the lowest key on.  The bound on the size of a table comes from the keys: no key
  leaves the range of a signed word. -/

/-- Padding is any bytes up to the next multiple of four. -/
theorem accepts_skipPadding {p : Nat} {read : List UInt8} {u : Unit} :
    SwitchTable.skipPadding.Accepts p read u ↔ read.length = (4 - p % 4) % 4 := by
  rw [SwitchTable.skipPadding, accepts_position_bind, accepts_map (incremental_bytes _)]
  constructor
  · rintro ⟨taken, h, -⟩
    exact (accepts_bytes.mp h).1
  · intro h
    exact ⟨read, accepts_bytes.mpr ⟨h, rfl⟩, rfl⟩

/-- Behind the op code of a switch, the padding ends at a multiple of four. -/
theorem accepts_skipPadding_bind {β : Type} {next : Unit → Scan ReadError β} {start : Nat}
    {read : List UInt8} {b : β} :
    (liftM SwitchTable.skipPadding >>= next).Accepts (start + 1) read b ↔
      ∃ padding rest, read = padding ++ rest ∧ padding.length = 3 - start % 4 ∧
        (next ()).Accepts (start + 1 + padding.length) rest b := by
  have hlen : (4 - (start + 1) % 4) % 4 = 3 - start % 4 := by omega
  rw [accepts_bind incremental_skipPadding.lift]
  constructor
  · rintro ⟨padding, rest, _, rfl, hp, hb⟩
    have hp := accepts_skipPadding.mp (accepts_lift.mp hp)
    exact ⟨padding, rest, rfl, hlen ▸ hp, hb⟩
  · rintro ⟨padding, rest, rfl, hp, hb⟩
    exact ⟨padding, rest, (), rfl, accepts_lift.mpr (accepts_skipPadding.mpr (hlen ▸ hp)), hb⟩

/-- A pair is its key and its jump. -/
theorem accepts_scanTarget {p : Nat} {read : List UInt8} {t : Int32 × Int32} :
    SwitchTable.scanTarget.Accepts p read t ↔
      read = signedBytes 4 t.1.toInt ++ signedBytes 4 t.2.toInt := by
  rw [SwitchTable.scanTarget, accepts_bind incremental_i32]
  constructor
  · rintro ⟨first, second, key, rfl, hkey, h⟩
    obtain ⟨jump, hjump, rfl⟩ := (accepts_map incremental_i32).mp h
    rw [accepts_i32.mp hkey, accepts_i32.mp hjump]
  · rintro rfl
    exact ⟨_, _, t.1, rfl, accepts_i32.mpr rfl,
      (accepts_map incremental_i32).mpr ⟨t.2, accepts_i32.mpr rfl, rfl⟩⟩

/-- Numbering the jumps from the lowest key on gives the targets with exactly those keys. -/
theorem targets_eq_iff {low : Int32} {count : Nat} {jumps : List Int32}
    {targets : List (Int32 × Int32)} (hlow : low.toInt + count ≤ 0x80000000) :
    (jumps.length = count ∧
      jumps.zipIdx.map (fun (jump, i) => (Int32.ofInt (low.toInt + i), jump)) = targets) ↔
    targets.map (·.1.toInt) = (List.range count).map (fun k : Nat => low.toInt + k) ∧
      jumps = targets.map (·.2) := by
  have hmin := low.le_toInt
  constructor
  · rintro ⟨rfl, rfl⟩
    constructor
    -- the keys, as numbers, are those from `low` on: none of them wraps
    · apply List.ext_getElem
      · simp
      · intro k hk hk'
        have hlt : k < jumps.length := by simpa using hk
        simp only [List.getElem_map, List.getElem_zipIdx, List.getElem_range, Nat.zero_add]
        exact Int32.toInt_ofInt_of_le (by omega) (by omega)
    -- and numbering does not change the jumps
    · apply List.ext_getElem
      · simp
      · intro k hk hk'
        simp
  · rintro ⟨hkeys, rfl⟩
    have hcount : targets.length = count := by simpa using congrArg List.length hkeys
    refine ⟨by rw [List.length_map, hcount], ?_⟩
    apply List.ext_getElem
    · simp
    · intro k hk hk'
      -- the key of each target is known by its place, so it is the number that is given to it
      have hkey : (targets.map (·.1.toInt))[k]? = some targets[k].1.toInt := by simp [hk']
      rw [hkeys] at hkey
      have hval : low.toInt + k = targets[k].1.toInt := by
        simpa [hcount ▸ hk'] using hkey
      simp only [List.getElem_map, List.getElem_zipIdx, Nat.zero_add, hval, Int32.ofInt_toInt]

/-- The jumps of a table are accepted one after the other. -/
theorem accepts_jumps {p n : Nat} {read : List UInt8} {jumps : List Int32} :
    (times n (liftM i32 : Scan ReadError Int32)).Accepts p read jumps ↔
      jumps.length = n ∧ read = jumps.flatMap (signedBytes 4 ·.toInt) := by
  rw [accepts_times incremental_i32.lift, acceptsAll_iff (accepts_lift.trans accepts_i32)]

/-- The operands of a `tableswitch` are its padding, default, bounds and jumps. -/
theorem accepts_scanRange {start : Nat} {read : List UInt8} {table : SwitchTable} :
    (SwitchTable.scanRange start).Accepts (start + 1) read table ↔
      OperandBytes start .tableSwitch (.switch table) read := by
  -- a table ends at its highest key, which is a signed word
  have hroom : ∀ low high : Int32, low.toInt ≤ high.toInt →
      low.toInt + (high.toInt - low.toInt + 1).toNat ≤ 0x80000000 := by
    intro low high hle
    have hmax := high.toInt_lt
    omega
  simp only [SwitchTable.scanRange, accepts_skipPadding_bind, accepts_i32_bind,
    accepts_require_bind]
  constructor
  · rintro ⟨padding, _, rfl, hpad, default, _, rfl, low, _, rfl, high, _, rfl, hle, h⟩
    obtain ⟨jumps, hjumps, rfl⟩ := (accepts_map (incremental_i32.lift.times _)).mp h
    obtain ⟨hcount, rfl⟩ := accepts_jumps.mp hjumps
    obtain ⟨hkeys, hjumps⟩ := (targets_eq_iff (hroom low high hle)).mp ⟨hcount, rfl⟩
    have hstored : OperandBytes start .tableSwitch (.switch ⟨default, jumps.zipIdx.map
        fun (jump, i) => (Int32.ofInt (low.toInt + i), jump)⟩) _ := .tableSwitch hpad hle hkeys
    -- the jumps that are stored are those of the numbered targets
    have hflat := congrArg (List.flatMap (signedBytes 4 ·.toInt)) hjumps
    rw [List.flatMap_map] at hflat
    simpa only [List.append_assoc, ← hflat] using hstored
  · intro h
    cases h with
    | @tableSwitch _ padding low high hpad hle hkeys =>
      obtain ⟨hcount, htargets⟩ := (targets_eq_iff (hroom low high hle)).mpr ⟨hkeys, rfl⟩
      refine ⟨padding, _, ?_, hpad, table.default, _, rfl, low, _, rfl, high, _, rfl, hle,
        (accepts_map (incremental_i32.lift.times _)).mpr
          ⟨_, accepts_jumps.mpr ⟨hcount, rfl⟩, ?_⟩⟩
      · rw [List.flatMap_map]
        simp only [List.append_assoc]
      · rw [htargets]

/-- A length below `2 ^ 31` is stored alike as a signed number and as an unsigned one. -/
theorem signedBytes_four_natCast {n : Nat} (h : n < 0x80000000) :
    signedBytes 4 (n : Int) = bytes 4 n := by
  have hrange : BigEndian.range 4 = 0x100000000 := rfl
  have hmod : ((n : Int) % (0x100000000 : Nat)).toNat = n := by omega
  rw [signedBytes, hrange, hmod]

/-- The operands of a `lookupswitch` are its padding, default, count and pairs. -/
theorem accepts_scanPairs {start : Nat} {read : List UInt8} {table : SwitchTable} :
    (SwitchTable.scanPairs start).Accepts (start + 1) read table ↔
      OperandBytes start .lookupSwitch (.switch table) read := by
  have htargets : ∀ {p n : Nat} {read : List UInt8} {targets : List (Int32 × Int32)},
      (times n (liftM SwitchTable.scanTarget : Scan ReadError _)).Accepts p read targets ↔
        targets.length = n ∧ read = targets.flatMap fun t =>
          signedBytes 4 t.1.toInt ++ signedBytes 4 t.2.toInt := by
    intro p n read targets
    rw [accepts_times incremental_scanTarget.lift,
      acceptsAll_iff (accepts_lift.trans accepts_scanTarget)]
  simp only [SwitchTable.scanPairs, accepts_skipPadding_bind, accepts_i32_bind,
    accepts_require_bind]
  constructor
  · rintro ⟨padding, _, rfl, hpad, default, _, rfl, count, _, rfl, hle, h⟩
    obtain ⟨targets, ht, rfl⟩ := (accepts_map (incremental_scanTarget.lift.times _)).mp h
    obtain ⟨hcount, rfl⟩ := htargets.mp ht
    have hmax := count.toInt_lt
    have hlen : targets.length < 0x80000000 := by omega
    -- the count is not negative, so it is stored as a natural number would be
    have hint : count.toInt = (targets.length : Int) := by omega
    have hstored : OperandBytes start .lookupSwitch (.switch ⟨default, targets⟩) _ :=
      .lookupSwitch hpad hlen
    rw [hint, signedBytes_four_natCast hlen]
    simpa only [List.append_assoc] using hstored
  · intro h
    cases h with
    | @lookupSwitch _ padding hpad hlen =>
      have hint : (Int32.ofInt table.targets.length).toInt = (table.targets.length : Int) :=
        Int32.toInt_ofInt_of_le (by omega) (by omega)
      refine ⟨padding, _, ?_, hpad, table.default, _, rfl, Int32.ofInt table.targets.length, _,
        rfl, by omega, (accepts_map (incremental_scanTarget.lift.times _)).mpr
          ⟨table.targets, htargets.mpr ⟨by omega, rfl⟩, rfl⟩⟩
      rw [hint, signedBytes_four_natCast hlen]
      simp only [List.append_assoc]

/-! ## The instruction set

  The table is searched by op code and the format is listed by layout.  One pass over the table
  turns it round, and then the two are compared as closed terms, one layout at a time. -/

/-- The layout of an op code is that of its row of the table. -/
theorem layout_eq_iff {op : OpCode} {layout : Layout} :
    op.layout = layout ↔ instructionSet[op.byte.toNat]?.map (·.2) = some layout := by
  have hrow : instructionSet[op.byte.toNat]? = some op.row :=
    Array.getElem?_eq_getElem (size_instructionSet ▸ op.assigned)
  rw [hrow, Option.map_some, Option.some_inj]
  rfl

/-- The op code bytes of the instructions with a layout, in one pass over the table. -/
def bytesOf (layout : Layout) : List UInt8 :=
  (instructionSet.toList.zipIdx.filter (·.1.2 = layout)).map fun row => UInt8.ofNat row.2

/-- An op code has a layout exactly if the pass over the table meets it. -/
theorem layout_eq_iff_mem_bytesOf (op : OpCode) (layout : Layout) :
    op.layout = layout ↔ op.byte ∈ bytesOf layout := by
  have hrow : ∀ row n, (row, n) ∈ instructionSet.toList.zipIdx ↔ instructionSet[n]? = some row := by
    intro row n
    rw [List.mem_zipIdx_iff_getElem?, Array.getElem?_toList]
  rw [layout_eq_iff, Option.map_eq_some_iff]
  constructor
  · rintro ⟨row, hget, hlayout⟩
    have hmem := (hrow _ _).mpr hget
    refine List.mem_map.mpr ⟨(row, op.byte.toNat), List.mem_filter.mpr ⟨hmem, ?_⟩, ?_⟩
    · exact decide_eq_true hlayout
    · exact UInt8.ofNat_toNat
  · intro h
    obtain ⟨⟨row, n⟩, hmem, hbyte⟩ := List.mem_map.mp h
    obtain ⟨hget, hlayout⟩ := List.mem_filter.mp hmem
    have hget := (hrow _ _).mp hget
    -- no row is lost when its number is made a byte
    have hlt : n < 0xca := by
      rw [← size_instructionSet]
      exact (Array.getElem?_eq_some_iff.mp hget).1
    have hn : (UInt8.ofNat n).toNat = n := UInt8.toNat_ofNat_of_lt' (show n < 256 by omega)
    rw [← hbyte, hn]
    exact ⟨row, hget, of_decide_eq_true hlayout⟩

/-- The table has for each layout the op codes that the format assigns to it, and no others. -/
theorem bytesOf_eq (layout : Layout) : bytesOf layout = opCodesOf layout := by
  cases layout <;> decide +kernel

/-- Instructions are decoded by the layouts of the format. -/
theorem layout_eq_iff_mem (op : OpCode) (layout : Layout) :
    op.layout = layout ↔ op.byte ∈ opCodesOf layout := by
  rw [layout_eq_iff_mem_bytesOf, bytesOf_eq]

/-- One instruction of the table increments a local variable: `iinc`. -/
theorem layout_eq_increment (op : OpCode) : op.layout = .increment ↔ op.byte = 0x84 :=
  (layout_eq_iff_mem op _).trans List.mem_singleton

/-- One is the table switch. -/
theorem layout_eq_tableSwitch (op : OpCode) : op.layout = .tableSwitch ↔ op.byte = 0xaa :=
  (layout_eq_iff_mem op _).trans List.mem_singleton

/-- One is the lookup switch. -/
theorem layout_eq_lookupSwitch (op : OpCode) : op.layout = .lookupSwitch ↔ op.byte = 0xab :=
  (layout_eq_iff_mem op _).trans List.mem_singleton

/-- One widens another: `wide`. -/
theorem layout_eq_widened (op : OpCode) : op.layout = .widened ↔ op.byte = 0xc4 :=
  (layout_eq_iff_mem op _).trans List.mem_singleton

/-- Eleven instructions of the table do no more than name a local variable. -/
theorem layout_eq_localSlot (op : OpCode) : op.layout = .localSlot ↔ op.byte ∈ wideLocals :=
  layout_eq_iff_mem op _

/-! ## Widened instructions

  Behind `wide` stands an op code of its own.  Which of the two forms its operands have is decided
  by its layout in the table, and by its byte in the format. -/

/-- What stands behind `wide` is accepted as an op code with a longer operand, or with two. -/
theorem accepts_scanWidened {start p : Nat} {read : List UInt8} {operands : Operands} :
    scanWidened.Accepts p read operands ↔ OperandBytes start .widened operands read := by
  rw [scanWidened, accepts_position_bind, accepts_bind incremental_opCode]
  constructor
  · rintro ⟨_, _, op, rfl, hop, hrest⟩
    obtain rfl := accepts_opCode.mp hop
    obtain ⟨hwide, hrest⟩ := accepts_require_bind.mp hrest
    obtain ⟨slot, rest, hread, h⟩ := accepts_u16_bind.mp hrest
    rw [hread]
    -- either form begins with an index of 16 bits; only `iinc` has another number behind it
    by_cases hinc : op.layout = .increment
    · rw [if_pos hinc] at h
      obtain ⟨n, hn, rfl⟩ := (accepts_map incremental_i16.lift).mp h
      rw [accepts_i16.mp (accepts_lift.mp hn)]
      exact .wideIncrement ((layout_eq_increment op).mp hinc)
    · rw [if_neg hinc] at h
      obtain ⟨rfl, rfl⟩ := accepts_pure.mp h
      -- of the op codes that may be widened, those without an increment are the rest
      have hslot : op.layout = .localSlot := by
        simpa [OpCode.isWidenable, hinc] using hwide
      rw [List.append_nil]
      exact .wideLocal ((layout_eq_localSlot op).mp hslot)
  · intro h
    cases h with
    | @wideIncrement op slot n iinc =>
      have hinc := (layout_eq_increment op).mpr iinc
      refine ⟨[op.byte], _, op, rfl, accepts_opCode.mpr rfl, accepts_require_bind.mpr ⟨?_, ?_⟩⟩
      · simp [OpCode.isWidenable, hinc]
      · refine accepts_u16_bind.mpr ⟨slot, _, rfl, ?_⟩
        rw [if_pos hinc]
        exact (accepts_map incremental_i16.lift).mpr
          ⟨n, accepts_lift.mpr (accepts_i16.mpr rfl), rfl⟩
    | @wideLocal op slot hmem =>
      have hslot := (layout_eq_localSlot op).mpr hmem
      refine ⟨[op.byte], _, op, rfl, accepts_opCode.mpr rfl, accepts_require_bind.mpr ⟨?_, ?_⟩⟩
      · simp [OpCode.isWidenable, hslot]
      · refine accepts_u16_bind.mpr ⟨slot, [], (List.append_nil _).symm, ?_⟩
        rw [if_neg (by rw [hslot]; decide)]
        exact accepts_pure.mpr ⟨rfl, rfl⟩

/-! ## Operands -/

/-- A byte of no meaning is any byte. -/
theorem reserved_eq_bytes (reserved : UInt8) : [reserved] = bytes 1 reserved.toNat := by
  rw [BigEndian.bytes_one, UInt8.ofNat_toNat]

/-- Two bytes of no meaning are any word. -/
theorem reserved_iff {stored : List UInt8} :
    (∃ w : UInt16, stored = bytes 2 w.toNat) ↔ ∃ r₁ r₂, stored = [r₁, r₂] := by
  constructor
  · rintro ⟨w, rfl⟩
    exact ⟨_, _, rfl⟩
  · rintro ⟨r₁, r₂, rfl⟩
    have hrange : BigEndian.range 2 = 0x10000 := rfl
    have hlt : BigEndian.value [r₁, r₂] < BigEndian.range 2 := BigEndian.value_lt [r₁, r₂]
    rw [hrange] at hlt
    refine ⟨UInt16.ofNat (BigEndian.value [r₁, r₂]), ?_⟩
    rw [UInt16.toNat_ofNat_of_lt' hlt]
    exact (BigEndian.bytes_value [r₁, r₂]).symm

/-- A number that is read in a narrow width and widened is any number within the bounds of that
    width, stored as itself. -/
theorem accepts_narrow {α β : Type} {number : Scan ScanError α} {widen : α → β}
    {layout : β → List UInt8} {range : β → Prop} (hi : Incremental number)
    (hs : ∀ {p read v}, number.Accepts p read v ↔ read = layout (widen v))
    (hr : ∀ {n}, range n ↔ ∃ v, widen v = n) {make : β → Operands} {p : Nat}
    {stored : List UInt8} {operands : Operands} :
    (liftM number >>= fun v => pure (make (widen v)) : Scan ReadError _).Accepts p stored operands ↔
      ∃ n, range n ∧ stored = layout n ∧ make n = operands := by
  rw [accepts_map hi.lift]
  constructor
  · rintro ⟨v, hv, rfl⟩
    exact ⟨widen v, hr.mpr ⟨v, rfl⟩, hs.mp (accepts_lift.mp hv), rfl⟩
  · rintro ⟨n, hn, rfl, rfl⟩
    obtain ⟨v, rfl⟩ := hr.mp hn
    exact ⟨v, accepts_lift.mpr (hs.mpr rfl), rfl⟩

section
variable {p start : Nat} {stored : List UInt8} {operands : Operands}

/-- A number that is not widened is any number, stored as itself. -/
theorem accepts_whole {α : Type} {number : Scan ScanError α} {layout : α → List UInt8}
    (hi : Incremental number) (hs : ∀ {p read v}, number.Accepts p read v ↔ read = layout v)
    (make : α → Operands) :
    (liftM number >>= fun v => pure (make v) : Scan ReadError _).Accepts p stored operands ↔
      ∃ v, True ∧ stored = layout v ∧ make v = operands :=
  accepts_narrow hi hs ⟨fun _ => ⟨_, rfl⟩, fun _ => trivial⟩

theorem accepts_narrow_i8 (make : Int32 → Operands) :
    (liftM i8 >>= fun v => pure (make v.toInt32) : Scan ReadError _).Accepts p stored operands ↔
      ∃ n : Int32, (-0x80 ≤ n.toInt ∧ n.toInt < 0x80) ∧ stored = signedBytes 1 n.toInt ∧
        make n = operands :=
  accepts_narrow incremental_i8 (by simp only [Int8.toInt_toInt32, accepts_i8, implies_true])
    int8_range

theorem accepts_narrow_i16 (make : Int32 → Operands) :
    (liftM i16 >>= fun v => pure (make v.toInt32) : Scan ReadError _).Accepts p stored operands ↔
      ∃ n : Int32, (-0x8000 ≤ n.toInt ∧ n.toInt < 0x8000) ∧ stored = signedBytes 2 n.toInt ∧
        make n = operands :=
  accepts_narrow incremental_i16 (by simp only [Int16.toInt_toInt32, accepts_i16, implies_true])
    int16_range

theorem accepts_narrow_index (make : UInt16 → Operands) :
    (liftM u8 >>= fun v => pure (make v.toUInt16) : Scan ReadError _).Accepts p stored operands ↔
      ∃ k : UInt16, k.toNat < 0x100 ∧ stored = bytes 1 k.toNat ∧ make k = operands :=
  accepts_narrow incremental_u8 (by simp only [UInt8.toNat_toUInt16, accepts_u8, implies_true])
    uint8_range

theorem accepts_narrow_count (make : Int32 → Operands) :
    (liftM u8 >>= fun v => pure (make v.toUInt32.toInt32) : Scan ReadError _).Accepts p stored
        operands ↔
      ∃ n : Int32, (0 ≤ n.toInt ∧ n.toInt < 0x100) ∧ stored = bytes 1 n.toInt.toNat ∧
        make n = operands :=
  accepts_narrow incremental_u8
    (by simp only [toInt_count, Int.toNat_natCast, accepts_u8, implies_true]) count_range

/-- A slot and an increment of one byte each. -/
theorem accepts_increment :
    (scanOperands start .increment).Accepts p stored operands ↔
      OperandBytes start .increment operands stored := by
  rw [scanOperands, accepts_u8_bind]
  constructor
  · rintro ⟨slot, _, rfl, h⟩
    obtain ⟨n, range, rfl, rfl⟩ :=
      (accepts_narrow_i8 fun n => .two (.localSlot slot.toUInt16) (.immediate n)).mp h
    rw [← UInt8.toNat_toUInt16]
    exact .increment (uint8_range.mpr ⟨slot, rfl⟩) range
  · intro h
    cases h with
    | increment slotRange range =>
      obtain ⟨slot, rfl⟩ := uint8_range.mp slotRange
      rw [UInt8.toNat_toUInt16]
      exact ⟨slot, _, rfl, (accepts_narrow_i8 fun n => .two _ (.immediate n)).mpr
        ⟨_, range, rfl, rfl⟩⟩

/-- An index, a count and a reserved byte that is not looked at. -/
theorem accepts_interfaceCall :
    (scanOperands start .interfaceCall).Accepts p stored operands ↔
      OperandBytes start .interfaceCall operands stored := by
  rw [scanOperands, accepts_u16_bind]
  simp only [accepts_u8_bind, accepts_map incremental_u8.lift, accepts_lift, accepts_u8]
  constructor
  · rintro ⟨index, _, rfl, count, _, rfl, reserved, rfl, rfl⟩
    have h := @OperandBytes.interfaceCall start index _ reserved (count_range.mpr ⟨count, rfl⟩)
    rw [toInt_count, reserved_eq_bytes, List.append_assoc] at h
    exact h
  · intro h
    cases h with
    | @interfaceCall index count reserved range =>
      obtain ⟨count, rfl⟩ := count_range.mp range
      rw [toInt_count, reserved_eq_bytes, List.append_assoc]
      exact ⟨index, _, rfl, count, _, rfl, reserved, rfl, rfl⟩

/-- An index and two reserved bytes that are not looked at. -/
theorem accepts_dynamicCall :
    (scanOperands start .dynamicCall).Accepts p stored operands ↔
      OperandBytes start .dynamicCall operands stored := by
  rw [scanOperands, accepts_u16_bind]
  simp only [accepts_map incremental_u16.lift, accepts_lift, accepts_u16]
  constructor
  · rintro ⟨index, stored, rfl, w, hw, rfl⟩
    obtain ⟨r₁, r₂, rfl⟩ := reserved_iff.mp ⟨w, hw⟩
    exact .dynamicCall
  · intro h
    cases h with
    | @dynamicCall index r₁ r₂ =>
      obtain ⟨w, hw⟩ := reserved_iff.mpr ⟨r₁, r₂, rfl⟩
      exact ⟨index, _, rfl, w, hw, rfl⟩

/-- An index and a number of dimensions. -/
theorem accepts_multiArray :
    (scanOperands start .multiArray).Accepts p stored operands ↔
      OperandBytes start .multiArray operands stored := by
  rw [scanOperands, accepts_u16_bind]
  constructor
  · rintro ⟨index, _, rfl, h⟩
    obtain ⟨dimensions, range, rfl, rfl⟩ :=
      (accepts_narrow_count fun n => .two (.constant index) (.immediate n)).mp h
    exact .multiArray range
  · intro h
    cases h with
    | multiArray range =>
      exact ⟨_, _, rfl, (accepts_narrow_count fun n => .two _ (.immediate n)).mpr
        ⟨_, range, rfl, rfl⟩⟩

end

/-- What is accepted as the forms of certain values is accepted as a layout, if that is made of the
    same forms. -/
theorem accepts_layout {β : Type} {scan : Scan ReadError Operands} {layout : Layout}
    {Valid : β → Prop} {form : β → List UInt8} {make : β → Operands} {start p : Nat}
    {operands : Operands} {stored : List UInt8}
    (accepted : scan.Accepts p stored operands ↔
      ∃ b, Valid b ∧ stored = form b ∧ make b = operands)
    (forms : ∀ b, Valid b → OperandBytes start layout (make b) (form b))
    (noOther : ∀ {operands stored}, OperandBytes start layout operands stored →
      ∃ b, Valid b ∧ stored = form b ∧ make b = operands) :
    scan.Accepts p stored operands ↔ OperandBytes start layout operands stored := by
  rw [accepted]
  constructor
  · rintro ⟨b, hb, rfl, rfl⟩
    exact forms b hb
  · exact noOther

/-- A table is accepted as the operands that it is by itself. -/
theorem accepts_table {scan : Scan ReadError SwitchTable} {layout : Layout} {start p : Nat}
    {operands : Operands} {stored : List UInt8} (hi : Incremental scan)
    (accepted : ∀ {table}, scan.Accepts p stored table ↔
      OperandBytes start layout (.switch table) stored)
    (noOther : OperandBytes start layout operands stored → ∃ table, .switch table = operands) :
    (scan >>= fun table => pure (.switch table)).Accepts p stored operands ↔
      OperandBytes start layout operands stored := by
  rw [accepts_map hi]
  constructor
  · rintro ⟨table, h, rfl⟩
    exact accepted.mp h
  · intro h
    obtain ⟨table, rfl⟩ := noOther h
    exact ⟨table, accepted.mpr h, rfl⟩

/-- The operands of a layout are accepted as the bytes that they may be stored as. -/
theorem accepts_scanOperands {start : Nat} {layout : Layout} {operands : Operands}
    {stored : List UInt8} :
    (scanOperands start layout).Accepts (start + 1) stored operands ↔
      OperandBytes start layout operands stored := by
  cases layout with
  | nothing =>
    rw [scanOperands, accepts_pure]
    constructor
    · rintro ⟨rfl, rfl⟩
      exact .nothing
    · rintro ⟨⟩
      exact ⟨rfl, rfl⟩
  -- a single number, as wide as its operand or narrower
  | signedByte =>
    exact accepts_layout (accepts_narrow_i8 fun n => .one (.immediate n)) (fun _ => .signedByte)
      fun | .signedByte range => ⟨_, range, rfl, rfl⟩
  | signedShort =>
    exact accepts_layout (accepts_narrow_i16 fun n => .one (.immediate n)) (fun _ => .signedShort)
      fun | .signedShort range => ⟨_, range, rfl, rfl⟩
  | constantByte =>
    exact accepts_layout (accepts_narrow_index fun index => .one (.constant index))
      (fun _ => .constantByte) fun | .constantByte range => ⟨_, range, rfl, rfl⟩
  | constant =>
    exact accepts_layout (accepts_whole incremental_u16 accepts_u16 fun k => .one (.constant k))
      (fun _ _ => .constant) fun | .constant => ⟨_, trivial, rfl, rfl⟩
  | localSlot =>
    exact accepts_layout (accepts_narrow_index fun slot => .one (.localSlot slot))
      (fun _ => .localSlot) fun | .localSlot range => ⟨_, range, rfl, rfl⟩
  | branch =>
    exact accepts_layout (accepts_narrow_i16 fun jump => .one (.branch jump)) (fun _ => .branch)
      fun | .branch range => ⟨_, range, rfl, rfl⟩
  | branchWide =>
    exact accepts_layout (accepts_whole incremental_i32 accepts_i32 fun jump => .one (.branch jump))
      (fun _ _ => .branchWide) fun | .branchWide => ⟨_, trivial, rfl, rfl⟩
  | elementType =>
    exact accepts_layout (accepts_whole incremental_u8 accepts_u8 fun k => .one (.elementType k))
      (fun _ _ => .elementType) fun | .elementType => ⟨_, trivial, rfl, rfl⟩
  -- several numbers in a row
  | increment => exact accepts_increment
  | interfaceCall => exact accepts_interfaceCall
  | dynamicCall => exact accepts_dynamicCall
  | multiArray => exact accepts_multiArray
  -- layouts of their own
  | tableSwitch =>
    exact accepts_table (incremental_scanRange start) accepts_scanRange
      fun | .tableSwitch _ _ _ => ⟨_, rfl⟩
  | lookupSwitch =>
    exact accepts_table (incremental_scanPairs start) accepts_scanPairs
      fun | .lookupSwitch _ _ => ⟨_, rfl⟩
  | widened => exact accepts_scanWidened

/-! ## Code arrays

  Offsets and lengths are no part of an encoding; they follow from where the instructions stand.
  An instruction is rebuilt from its op code and operands by numbering the bytes. -/

/-- What is encoded at an offset is accepted there as instructions with these op codes and
    operands; their offsets and lengths follow, as long as the offsets are 16-bit numbers. -/
theorem acceptsAll_iff_encodes {start : Nat} {code : List UInt8}
    {instructions : List (OpCode × Operands)} (hend : start + code.length ≤ 0x10000) :
    (∃ is, scan.AcceptsAll start code is ∧ is.map (fun i => (i.op, i.operands)) = instructions) ↔
      Encodes start instructions code := by
  constructor
  · rintro ⟨is, h, rfl⟩
    -- induction on the instructions: each is one step of the encoding
    clear hend
    induction is generalizing start code with
    | nil =>
      obtain rfl : code = [] := h
      exact .nil
    | cons i is ih =>
      obtain ⟨first, rest, rfl, hi, hrest⟩ := h
      obtain ⟨-, -, -, stored, rfl, hstored⟩ := accepts_scan.mp hi
      have hformat := (layout_eq_iff_mem i.op i.op.layout).mp rfl
      exact .cons hformat (accepts_scanOperands.mp hstored) (ih hrest)
  · intro h
    -- induction on the encoding: each step gives an instruction at its offset
    induction h with
    | nil => exact ⟨[], rfl, rfl⟩
    | @cons start op layout operands stored code instructions format first rest ih =>
      obtain rfl : op.layout = layout := (layout_eq_iff_mem op layout).mpr format
      rw [List.length_append] at hend
      have hlen : (op.byte :: stored).length = stored.length + 1 := List.length_cons
      obtain ⟨is, his, hmap⟩ := ih (by omega)
      have hstart : start < 0x10000 := by omega
      let i : Instruction := ⟨UInt16.ofNat start, op, operands, stored.length + 1⟩
      have hi : scan.Accepts start (op.byte :: stored) i :=
        accepts_scan.mpr ⟨hstart, UInt16.toNat_ofNat_of_lt' hstart, hlen.symm, stored, rfl,
          accepts_scanOperands.mpr first⟩
      refine ⟨i :: is, ⟨_, code, rfl, hi, his⟩, ?_⟩
      rw [List.map_cons, hmap]

/-- **Decoding inverts the encoding.**  A code array of permitted length decodes to instructions
    with exactly these op codes and operands if and only if it is an encoding of them. -/
theorem decode_iff_encodes {code : List UInt8} {instructions : List (OpCode × Operands)}
    (hlen : code.length ≤ 65535) :
    (∃ is, decode code = .ok is ∧ is.map (fun i => (i.op, i.operands)) = instructions) ↔
      Encodes 0 instructions code := by
  rw [← acceptsAll_iff_encodes (by omega)]
  simp only [decode_eq_ok, maxCodeLength, hlen, true_and]

/-- The theorem at a table switch with the largest key there is, two bytes of padding behind it. -/
theorem decode_iff_encodes_largest_key :
    Encodes 0 [(⟨0x00, by decide⟩, .none),
        (⟨0xaa, by decide⟩, .switch ⟨20, [(0x7fffffff, -1)]⟩)]
      [0x00, 0xaa, 0xcc, 0xcc, 0x00, 0x00, 0x00, 0x14, 0x7f, 0xff, 0xff, 0xff,
        0x7f, 0xff, 0xff, 0xff, 0xff, 0xff, 0xff, 0xff] := by
  refine (decode_iff_encodes (by decide)).mp ?_
  have h : ∃ is, decode [0x00, 0xaa, 0xcc, 0xcc, 0x00, 0x00, 0x00, 0x14, 0x7f, 0xff, 0xff, 0xff,
      0x7f, 0xff, 0xff, 0xff, 0xff, 0xff, 0xff, 0xff] = .ok is ∧
      is = [⟨0, ⟨0x00, by decide⟩, .none, 1⟩,
        ⟨1, ⟨0xaa, by decide⟩, .switch ⟨20, [(0x7fffffff, -1)]⟩, 19⟩] :=
    ⟨_, by cbv, rfl⟩
  obtain ⟨is, his, rfl⟩ := h
  exact ⟨_, his, rfl⟩

end JavaClass.Instruction
