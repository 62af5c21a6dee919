/-
  Line number tables.

  A table tells at which offsets of a code array the code of a source line begins.  It may be
  declared in any order; it is kept sorted by offset, entries of one offset in their declared order.
-/
import JavaClass.Bytes.Scan

namespace JavaClass

/-- The code of a source line begins at an offset. -/
structure LineEntry where
  pc : UInt16
  line : UInt16
deriving DecidableEq, Repr

/-- The entries of a line number table, sorted by offset. -/
structure LineNumberTable where
  entries : List LineEntry
deriving DecidableEq, Repr

namespace LineNumberTable

/-- The table of the given entries: a stable sort by offset. -/
def ofEntries (entries : List LineEntry) : LineNumberTable :=
  ⟨entries.mergeSort fun a b => a.pc.toNat ≤ b.pc.toNat⟩

/-- Where an offset lies among the entries. -/
inductive Site where
  /-- At the entry of this index. -/
  | entry (index : Nat)
  /-- At none: in front of the entry of this index, and behind those before it. -/
  | gap (index : Nat)
deriving DecidableEq, Repr

/-- How many entries lie at or before an offset, if those in front of the index `low` do and those
    from the index `high` on do not.  The entries in between are halved. -/
def countUpTo (table : LineNumberTable) (pc : UInt16) (low high : Nat) : Nat :=
  if low < high then
    let middle := (low + high) / 2
    if table.entries[middle]?.any fun e => e.pc.toNat ≤ pc.toNat then
      table.countUpTo pc (middle + 1) high
    else table.countUpTo pc low middle
  else low
termination_by high - low

/-- The binary search for an offset: the last entry of the offset, or the gap that it falls into. -/
def search (table : LineNumberTable) (pc : UInt16) : Site :=
  match table.countUpTo pc 0 table.entries.length with
  | 0 => .gap 0
  | last + 1 =>
    if table.entries[last]?.any fun e => e.pc = pc then .entry last else .gap (last + 1)

/-- The line at a site.  In a gap it is that of the entry in front; in front of the first entry
    there is none. -/
def lineAt (table : LineNumberTable) : Site → Option UInt16
  | .entry index => table.entries[index]?.map (·.line)
  | .gap 0 => none
  | .gap (index + 1) => table.entries[index]?.map (·.line)

/-- The line of an offset: that of an entry at the offset, or else of the last entry before it. -/
def lookup (table : LineNumberTable) (pc : UInt16) : Option UInt16 :=
  table.lineAt (table.search pc)

open Scan

/-- An entry: its offset and its line. -/
def scanEntry : Scan ScanError LineEntry := return ⟨← u16, ← u16⟩

/-- The table that a byte string is: a 16-bit count and that many entries, with nothing behind. -/
def ofBytes? (bytes : List UInt8) : Option LineNumberTable :=
  match counted u16 scanEntry (Cursor.start bytes) with
  | .ok entries rest => if rest.atEnd then some (ofEntries entries) else none
  | .error _ _ => none

end LineNumberTable

end JavaClass
