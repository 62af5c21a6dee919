/-
  Reads in a row.

  Whatever is read from the start of a byte string, in whatever order and whether it fails or not,
  the cursor stays a place in that string: what it has passed and what is left make up the whole.
  One read keeps this (`reaches_next`), so a run of reads does (`reaches_after`), and `KeepsPlace`
  is what follows for the next read.

  The cursor counts with unbounded numbers.  A machine keeps its offset in a 64-bit word instead,
  where the difference to the end and the sum with the size of a read could wrap around.  They do
  not at the places that reads lead to, so `WordCursor` takes the same steps there
  (`bytes_ofCursor`, `peek_ofCursor`).
-/
import JavaClass.Proofs.Bytes.Reads

namespace JavaClass

/-! ## Where reads lead

  A read moves forwards or stays.  So the bytes between two places have been passed by the reads
  between them, and a place is given by how many bytes lie in front of it. -/

namespace Read

/-- Where a read leaves the cursor, whether it yields a value or fails. -/
def next (r : Read) (c : Cursor) : Cursor :=
  match r.scan c with
  | .ok _ d => d
  | .error _ d => d

/-- The bytes between the place in front of a read and the place behind it. -/
def passed (r : Read) (c : Cursor) : List UInt8 := c.rest.take ((r.next c).position - c.position)

section
variable {r : Read} {c : Cursor}

theorem next_of_lt (h : c.remaining < r.size) : r.next c = c := by
  rw [next, scan_eq_iff.mpr (.short h)]

/-- If there are enough bytes, a read moves even if it fails. -/
theorem next_of_le (h : r.size ≤ c.remaining) : r.next c = c.advance r.width := by
  have houtcome := outcome_scan r c
  -- a value and a text that is none are both found out behind the bytes
  unfold next
  generalize r.scan c = result at houtcome
  cases houtcome with
  | short few => omega
  | value => rfl
  | noText => rfl

theorem width_le_size (r : Read) : r.width ≤ r.size := by
  cases r with
  | peek => exact Nat.zero_le _
  | _ => exact Nat.le_refl _

/-- A read only ever passes bytes. -/
theorem reaches_next (r : Read) (c : Cursor) : c.Reaches (r.next c) (r.passed c) := by
  -- a read that asks for too much stays, and any other moves by its width
  rcases Nat.lt_or_ge c.remaining r.size with hfew | henough
  · rw [passed, next_of_lt hfew, Nat.sub_self]
    exact .refl c
  · have hwidth : r.width ≤ c.remaining := Nat.le_trans r.width_le_size henough
    have hmoved : (c.advance r.width).position - c.position = r.width :=
      Nat.add_sub_cancel_left _ _
    rw [passed, next_of_le henough, hmoved]
    exact Cursor.reaches_advance hwidth

end

end Read

namespace Cursor

/-- Where reads in a row leave the cursor. -/
def after (c : Cursor) (reads : List Read) : Cursor := reads.foldl (fun c r => r.next c) c

/-- The bytes that reads in a row pass, one read after the other. -/
def passed (c : Cursor) : List Read → List UInt8
  | [] => []
  | r :: reads => r.passed c ++ (r.next c).passed reads

/-- Reads in a row only ever pass bytes. -/
theorem reaches_after (c : Cursor) (reads : List Read) :
    c.Reaches (c.after reads) (c.passed reads) := by
  -- the later reads start from where the first one stops
  induction reads generalizing c with
  | nil => exact .refl c
  | cons r reads ih => exact (r.reaches_next c).trans (ih (r.next c))

/-- A place in a byte string: an offset of it, with the bytes behind that offset. -/
structure IsIn (c : Cursor) (data : List UInt8) : Prop where
  position_le : c.position ≤ data.length
  rest : c.rest = data.drop c.position

section
variable {c : Cursor} {data read : List UInt8}

/-- What is passed on the way to a place is what lies in front of it. -/
theorem reaches_start_iff :
    (start data).Reaches c read ↔ c.IsIn data ∧ read = data.take c.position := by
  constructor
  · rintro ⟨hdata, hposition⟩
    have hdata : data = read ++ c.rest := hdata
    have hlen : c.position = read.length := hposition.trans (Nat.zero_add _)
    refine ⟨⟨?_, ?_⟩, ?_⟩
    · rw [hlen, hdata, List.length_append]
      exact Nat.le_add_right _ _
    · rw [hlen, hdata, List.drop_left]
    · rw [hlen, hdata, List.take_left]
  · rintro ⟨⟨hle, hrest⟩, rfl⟩
    refine ⟨?_, ?_⟩
    · rw [hrest]
      exact (List.take_append_drop _ _).symm
    · rw [List.length_take_of_le hle]
      exact (Nat.zero_add _).symm

theorem isIn_after (data : List UInt8) (reads : List Read) :
    ((start data).after reads).IsIn data :=
  (reaches_start_iff.mp ((start data).reaches_after reads)).1

theorem passed_start (data : List UInt8) (reads : List Read) :
    (start data).passed reads = data.take ((start data).after reads).position :=
  (reaches_start_iff.mp ((start data).reaches_after reads)).2

theorem IsIn.remaining_add (h : c.IsIn data) : c.remaining + c.position = data.length := by
  have hle := h.position_le
  rw [remaining, h.rest, List.length_drop]
  omega

end

end Cursor

/-! ## One byte at a time

  A read of several bytes comes to the same as that many reads of one byte, as far as bytes are
  concerned. -/

namespace Scan

theorem u8_cons (byte : UInt8) (rest : List UInt8) (position : Nat) :
    u8 ⟨byte :: rest, position⟩ = .ok byte ⟨rest, position + 1⟩ := by
  have henough : 1 ≤ Cursor.remaining ⟨byte :: rest, position⟩ :=
    Nat.succ_le_succ (Nat.zero_le _)
  have hstored : Read.Stores .u8 [byte] byte := (Nat.zero_add _).symm
  have hread : Read.Outcome .u8 ⟨byte :: rest, position⟩ (.ok byte ⟨rest, position + 1⟩) :=
    .value henough hstored
  exact Read.scan_eq_iff.mpr hread

theorem timesAfter_u8 (done : List UInt8) {n : Nat} {c : Cursor} (h : n ≤ c.remaining) :
    timesAfter u8 done n c = .ok (done.reverse ++ c.rest.take n) (c.advance n) := by
  -- what has been read is kept latest first, so each byte moves from the rest to its front
  obtain ⟨rest, position⟩ := c
  induction n generalizing done rest position with
  | zero =>
    rw [List.take_zero, List.append_nil]
    rfl
  | succ n ih =>
    cases rest with
    | nil => exact absurd h (Nat.not_succ_le_zero n)
    | cons byte rest =>
      have hrest := ih (byte :: done) rest (position + 1) (Nat.le_of_succ_le_succ h)
      refine bind_eq_ok.mpr ⟨_, _, u8_cons byte rest position, hrest.trans ?_⟩
      simp only [List.reverse_cons, List.append_assoc, List.singleton_append, List.take_succ_cons,
        Cursor.advance, List.drop_succ_cons, Nat.add_assoc, Nat.add_comm 1]

/-- As many bytes as are left can be read one at a time. -/
theorem times_u8 {n : Nat} {c : Cursor} (h : n ≤ c.remaining) :
    times n u8 c = .ok (c.rest.take n) (c.advance n) := timesAfter_u8 [] h

end Scan

/-! ## Offsets in machine words -/

/-- A cursor as a machine keeps it: the whole byte string, and the offset in it as a 64-bit word. -/
structure WordCursor where
  data : List UInt8
  position : UInt64

namespace WordCursor

/-- How many bytes are still to be read, if the difference does not wrap around. -/
def remaining (w : WordCursor) : UInt64 := UInt64.ofNat w.data.length - w.position

/-- Exactly the next `size` bytes, if the sum that says where they end does not wrap around. -/
def bytes (size : UInt64) : EStateM ScanError WordCursor (List UInt8) := fun w =>
  if w.remaining < size then
    .error (.endOfData w.position.toNat size.toNat w.remaining.toNat) w
  else
    .ok (w.data.extract w.position.toNat (w.position + size).toNat)
      { w with position := w.position + size }

/-- The next byte, left where it is. -/
def peek : EStateM ScanError WordCursor UInt8 := fun w =>
  match w.data[w.position.toNat]? with
  | some byte => .ok byte w
  | none => .error (.endOfData w.position.toNat 1 0) w

/-- A place in a byte string, as a machine keeps it. -/
def ofCursor (data : List UInt8) (c : Cursor) : WordCursor := ⟨data, UInt64.ofNat c.position⟩

/-- What a scan comes to, with the cursor as a machine keeps it. -/
def ofResult {α : Type} (data : List UInt8) :
    EStateM.Result ScanError Cursor α → EStateM.Result ScanError WordCursor α
  | .ok a d => .ok a (ofCursor data d)
  | .error e d => .error e (ofCursor data d)

section
variable {data : List UInt8} {c : Cursor}

theorem position_ofCursor (h : c.IsIn data) (hdata : data.length < UInt64.size) :
    (ofCursor data c).position.toNat = c.position :=
  UInt64.toNat_ofNat_of_lt' (Nat.lt_of_le_of_lt h.position_le hdata)

/-- The difference to the end does not wrap around. -/
theorem remaining_ofCursor (h : c.IsIn data) (hdata : data.length < UInt64.size) :
    (ofCursor data c).remaining.toNat = c.remaining := by
  have hlen : (UInt64.ofNat data.length).toNat = data.length := UInt64.toNat_ofNat_of_lt' hdata
  have hposition := position_ofCursor h hdata
  have hle : (ofCursor data c).position ≤ UInt64.ofNat data.length := by
    rw [UInt64.le_iff_toNat_le, hposition, hlen]
    exact h.position_le
  have hadd := h.remaining_add
  show (UInt64.ofNat data.length - (ofCursor data c).position).toNat = c.remaining
  rw [UInt64.toNat_sub_of_le _ _ hle, hlen, hposition]
  omega

/-- Neither does the sum that says where the next bytes end, if there are enough of them. -/
theorem stop_ofCursor (h : c.IsIn data) (hdata : data.length < UInt64.size) {size : UInt64}
    (henough : size.toNat ≤ c.remaining) :
    ((ofCursor data c).position + size).toNat = c.position + size.toNat := by
  have hadd := h.remaining_add
  have hstop : c.position + size.toNat < UInt64.size := by omega
  rw [UInt64.toNat_add, position_ofCursor h hdata]
  exact Nat.mod_eq_of_lt hstop

theorem bytes_ofCursor (h : c.IsIn data) (hdata : data.length < UInt64.size) (size : UInt64) :
    bytes size (ofCursor data c) = ofResult data (Scan.bytes size.toNat c) := by
  have hposition := position_ofCursor h hdata
  have hremaining := remaining_ofCursor h hdata
  -- the comparison of words is that of numbers, since neither side wraps
  rcases Nat.lt_or_ge c.remaining size.toNat with hfew | henough
  · have hlt : (ofCursor data c).remaining < size := by
      rwa [UInt64.lt_iff_toNat_lt, hremaining]
    rw [Scan.bytes_of_lt hfew, bytes, if_pos hlt, hposition, hremaining]
    rfl
  · have hge : ¬ (ofCursor data c).remaining < size := by
      rw [UInt64.lt_iff_toNat_lt, hremaining]
      exact Nat.not_lt.mpr henough
    have hstop := stop_ofCursor h hdata henough
    have htaken : data.extract c.position (c.position + size.toNat) = c.rest.take size.toNat := by
      rw [List.extract_eq_take_drop, Nat.add_sub_cancel_left, h.rest]
    have hplace : (ofCursor data c).position + size = UInt64.ofNat (c.position + size.toNat) := by
      rw [← hstop, UInt64.ofNat_toNat]
    rw [Scan.bytes_of_le henough, bytes, if_neg hge, hposition, hstop, hplace, ← htaken]
    rfl

theorem peek_ofCursor (h : c.IsIn data) (hdata : data.length < UInt64.size) :
    peek (ofCursor data c) = ofResult data (Scan.peek c) := by
  have hposition := position_ofCursor h hdata
  have hbyte : (ofCursor data c).data[c.position]? = c.rest.head? := by
    rw [h.rest, List.head?_drop]
    rfl
  rw [peek, hposition, hbyte]
  unfold Scan.peek
  cases c.rest <;> rfl

end

end WordCursor

/-! ## What holds wherever reads lead

  `KeepsPlace` collects what may be relied on between two reads.  It speaks of the place and of
  the next read only; what the reads so far have come to is no longer visible. -/

/-- What is promised of a place that reads lead to, and of the next read there. -/
structure KeepsPlace (data : List UInt8) (reads : List Read) (c : Cursor) : Prop where
  /-- The place is one of the byte string. -/
  position_le : c.position ≤ data.length
  /-- What lies in front of it and what is left make up the whole. -/
  remaining_add : c.remaining + c.position = data.length
  /-- There is more data exactly if something is left. -/
  more : c.atEnd = false ↔ 0 < c.remaining
  /-- The bytes that the reads have passed are those in front of it. -/
  passed : (Cursor.start data).passed reads = data.take c.position
  /-- A lack of data is reported exactly if a read asks for more bytes than are left; it says how
      many, and nothing has moved. -/
  short : ∀ (r : Read) position requested available d,
    r.scan c = .error (.endOfData position requested available) d ↔
      c.remaining < r.size ∧ position = c.position ∧ requested = r.size ∧
        available = c.remaining ∧ d = c
  /-- Otherwise the read moves by as many bytes as it asks for, and a look by none. -/
  moves : ∀ r : Read, r.size ≤ c.remaining → r.next c = c.advance r.width
  /-- A value is that of the next bytes. -/
  value : ∀ (r : Read) v d, r.scan c = .ok v d ↔
    r.size ≤ c.remaining ∧ r.Stores ((data.drop c.position).take r.size) v ∧
      d = c.advance r.width
  /-- A wide read agrees with the same bytes read one at a time. -/
  bytewise : ∀ (r : Read) v d, r.scan c = .ok v d → ∃ stored,
    Scan.times r.size Scan.u8 c = .ok stored (c.advance r.size) ∧ r.Stores stored v
  /-- With the offset in a 64-bit word, neither the difference to the end nor the sum with the size
      of a read that is granted wraps around. -/
  noWrap : data.length < UInt64.size →
    (WordCursor.ofCursor data c).remaining.toNat = c.remaining ∧
    ∀ size : UInt64, size.toNat ≤ c.remaining →
      ((WordCursor.ofCursor data c).position + size).toNat = c.position + size.toNat
  /-- So reading with such offsets comes to the same. -/
  words : data.length < UInt64.size →
    (∀ size : UInt64, WordCursor.bytes size (WordCursor.ofCursor data c) =
      WordCursor.ofResult data (Scan.bytes size.toNat c)) ∧
    WordCursor.peek (WordCursor.ofCursor data c) = WordCursor.ofResult data (Scan.peek c)

/-- **Reads in a row.**  Whatever has been read from the start of a byte string, the cursor is at a
    place of it, and the next read is exact. -/
theorem keepsPlace_after (data : List UInt8) (reads : List Read) :
    KeepsPlace data reads ((Cursor.start data).after reads) := by
  have hin := Cursor.isIn_after data reads
  have hpassed := Cursor.passed_start data reads
  generalize (Cursor.start data).after reads = c at hin hpassed
  constructor
  case position_le => exact hin.position_le
  case remaining_add => exact hin.remaining_add
  case more => exact List.isEmpty_eq_false_iff.trans List.length_pos_iff.symm
  case passed => exact hpassed
  case short =>
    intro r position requested available d
    exact Read.scan_eq_endOfData_iff
  case moves => exact fun r => Read.next_of_le
  case value =>
    intro r v d
    rw [← hin.rest]
    exact Read.scan_eq_ok_iff
  case bytewise =>
    intro r v d h
    obtain ⟨henough, hstored, -⟩ := Read.scan_eq_ok_iff.mp h
    exact ⟨_, Scan.times_u8 henough, hstored⟩
  case noWrap =>
    intro hdata
    exact ⟨WordCursor.remaining_ofCursor hin hdata, fun size => WordCursor.stop_ofCursor hin hdata⟩
  case words =>
    intro hdata
    exact ⟨WordCursor.bytes_ofCursor hin hdata, WordCursor.peek_ofCursor hin hdata⟩

/-- The theorem behind a byte, two bytes that spell no text, and two reads that ask for too much:
    the place is that behind the text, and the number there is negative. -/
theorem keepsPlace_after_failures :
    Read.scan .i16 ((Cursor.start [0x01, 0xff, 0xff, 0x80, 0x02]).after
      [.u8, .text 2, .i32, .bytes 0xffffffffffffffff]) = .ok (-32766) ⟨[], 5⟩ := by
  have hplace : (Cursor.start [0x01, 0xff, 0xff, 0x80, 0x02]).after
      [.u8, .text 2, .i32, .bytes 0xffffffffffffffff] = ⟨[0x80, 0x02], 3⟩ := by decide
  have hkeeps := keepsPlace_after [0x01, 0xff, 0xff, 0x80, 0x02]
    [.u8, .text 2, .i32, .bytes 0xffffffffffffffff]
  rw [hplace] at hkeeps ⊢
  exact (hkeeps.value .i16 (-32766) ⟨[], 5⟩).mpr ⟨by decide, rfl, rfl⟩

end JavaClass
