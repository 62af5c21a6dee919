/-
  Spellings of class names.

  The parts of a class name stand between dots or between slashes, or between some of each.
  `SpellsLike` says that two texts spell the same name: they agree character by character, with no
  difference made between a dot and a slash.  Of all spellings of a name, the binary form is the one
  without a dot (`binary_eq_iff`), so two names are spelled alike exactly if they have one binary
  form (`binary_eq_binary_iff`).

  A class path is asked for the binary form alone, and a directory makes the file of a class from
  it.  So two spellings of a name cannot be told apart by what becomes of the class, up to the
  report that it was not found, which repeats the name as it was given (`SameOutcome`).  Any two
  names that are not spelled alike can be told apart: an entry may have the class of the one and not
  of the other.
-/
import JavaClass.Proofs.ClassPath.SearchOrder
import Mathlib.Data.List.Forall2

namespace JavaClass

/-! ## Spellings

  A dot and a slash stand for the same mark, and every other character stands for itself.  The
  binary form writes the mark as a slash. -/

namespace ClassName

variable {n m : String} {c d : Char}

/-- A character of a name in binary form. -/
def slashed (c : Char) : Char := if c = '.' then '/' else c

/-- What may stand in the same place of two spellings of a name. -/
inductive SameMark : Char → Char → Prop
  | refl (c : Char) : SameMark c c
  | dotSlash : SameMark '.' '/'
  | slashDot : SameMark '/' '.'

/-- Two texts spell the same class name. -/
def SpellsLike (n m : String) : Prop := List.Forall₂ SameMark n.toList m.toList

theorem toList_binary (n : String) : (binary n).toList = n.toList.map slashed := by
  rw [binary, String.toList_map]
  rfl

theorem sameMark_iff : SameMark c d ↔ slashed c = slashed d := by
  constructor
  · rintro (_ | _ | _) <;> rfl
  · intro h
    unfold slashed at h
    -- a dot becomes a slash, and nothing else is changed
    by_cases hc : c = '.'
    · by_cases hd : d = '.'
      · rw [hc, hd]
        exact .refl '.'
      · rw [if_pos hc, if_neg hd] at h
        rw [hc, ← h]
        exact .dotSlash
    · by_cases hd : d = '.'
      · rw [if_neg hc, if_pos hd] at h
        rw [h, hd]
        exact .slashDot
      · rw [if_neg hc, if_neg hd] at h
        rw [h]
        exact .refl d

/-- Names are spelled alike exactly if they have one binary form. -/
theorem binary_eq_binary_iff : binary n = binary m ↔ SpellsLike n m := by
  rw [← String.toList_inj, toList_binary, toList_binary, ← List.forall₂_eq_eq_eq,
    List.forall₂_map_left_iff, List.forall₂_map_right_iff]
  simp only [← sameMark_iff]
  rfl

theorem dot_not_mem_binary (n : String) : '.' ∉ (binary n).toList := by
  rw [toList_binary]
  intro hmem
  obtain ⟨c, -, hc⟩ := List.mem_map.mp hmem
  unfold slashed at hc
  split at hc
  · nomatch hc
  · contradiction

/-- A name without a dot is in binary form. -/
theorem binary_of_dot_not_mem (h : '.' ∉ n.toList) : binary n = n := by
  have hmark : ∀ c ∈ n.toList, slashed c = c := by
    intro c hc
    refine if_neg ?_
    rintro rfl
    exact h hc
  rw [← String.toList_inj, toList_binary, List.map_congr_left hmark, List.map_id']

theorem binary_binary (n : String) : binary (binary n) = binary n :=
  binary_of_dot_not_mem (dot_not_mem_binary n)

/-- The binary form is the spelling of a name that has no dot. -/
theorem binary_eq_iff : binary n = m ↔ SpellsLike n m ∧ '.' ∉ m.toList := by
  constructor
  · rintro rfl
    exact ⟨binary_eq_binary_iff.mp (binary_binary n).symm, dot_not_mem_binary n⟩
  · rintro ⟨hspells, hdot⟩
    rw [binary_eq_binary_iff.mpr hspells, binary_of_dot_not_mem hdot]

/-- The file of a class depends on the binary form of its name alone. -/
theorem file_binary (n : String) : file (binary n) = file n := by
  rw [file, binary_binary, file]

theorem file_eq_of_binary_eq (h : binary n = binary m) : file n = file m := by
  rw [file, h, file]

end ClassName

/-! ## Classes under two names -/

namespace ClassPath

open ClassName (SpellsLike binary file)

/-- What becomes of a class that is asked for under two names.  It is the same under both, but for
    the name in the report that the class was not found. -/
inductive SameOutcome {α : Type} (n m : String) : Except LoadError α → Except LoadError α → Prop
  | ok (a : α) : SameOutcome n m (.ok a) (.ok a)
  /-- An entry cannot read the class, which is reported under the binary form of both names. -/
  | unreadable {name : String} (first : binary n = name) (second : binary m = name)
    (cause : UnreadableFile) :
    SameOutcome n m (.error (.unreadable name cause)) (.error (.unreadable name cause))
  | invalidClass (cause : ReadError) :
    SameOutcome n m (.error (.invalidClass cause)) (.error (.invalidClass cause))
  /-- No entry has the class, which is reported under either name as it was given. -/
  | classNotFound : SameOutcome n m (.error (.classNotFound n)) (.error (.classNotFound m))

section
variable {n m : String} {α β : Type}

/-- What is made of the same is the same. -/
theorem SameOutcome.bind {first second : Except LoadError α} {next : α → Except LoadError β}
    (h : SameOutcome n m first second) (hnext : ∀ a, SameOutcome n m (next a) (next a)) :
    SameOutcome n m (first >>= next) (second >>= next) := by
  cases h with
  | ok a => exact hnext a
  | unreadable hn hm cause => exact .unreadable hn hm cause
  | invalidClass cause => exact .invalidClass cause
  | classNotFound => exact .classNotFound

/-- The entries of a class path do not see how the name is spelled. -/
theorem sameOutcome_read (h : binary n = binary m) (path : ClassPath) :
    SameOutcome n m (path.read n) (path.read m) := by
  unfold read
  rw [h]
  cases path.find (binary m) with
  | error cause => exact .unreadable h rfl cause
  | ok answer =>
    cases answer with
    | none => exact .classNotFound
    | some bytes => exact .ok bytes

theorem sameOutcome_load (h : binary n = binary m) (path : ClassPath) :
    SameOutcome n m (path.load n) (path.load m) := by
  refine (sameOutcome_read h path).bind fun bytes => ?_
  cases ClassFile.ofBytes bytes with
  | error cause => exact .invalidClass cause
  | ok c => exact .ok c

theorem find_ofDirectory_eq_of_file_eq (h : file n = file m) (fs : FileSystem)
    (directory : String) :
    (Entry.ofDirectory fs directory).find n = (Entry.ofDirectory fs directory).find m := by
  simp only [Entry.ofDirectory, h]

/-- An entry that has one class. -/
def Entry.ofClass (name : String) (bytes : List UInt8) : Entry where
  label := "memory"
  find asked := if asked = name then .ok (some bytes) else .ok none

/-- A class path that has a class has it under no name with another binary form. -/
theorem read_ofClass (n m : String) (bytes : List UInt8) :
    read [.ofClass (binary n) bytes] m =
      if binary m = binary n then .ok bytes else .error (.classNotFound m) := by
  by_cases h : binary m = binary n
  · simp only [read, find, Entry.ofClass, h, if_true]
  · simp only [read, find, Entry.ofClass, h, if_false]

end

/-! ## Names that can be used for each other -/

/-- Two names can be used for each other. -/
structure Interchangeable (n m : String) : Prop where
  /-- On every class path they lead to the same bytes, or fail alike. -/
  read : ∀ path : ClassPath, SameOutcome n m (path.read n) (path.read m)
  /-- They lead to the same class, or fail alike. -/
  load : ∀ path : ClassPath, SameOutcome n m (path.load n) (path.load m)
  /-- A directory has one answer to both, also if no class path stands in front of it. -/
  directory : ∀ fs directory, (Entry.ofDirectory fs directory).find n =
    (Entry.ofDirectory fs directory).find m

/-- **Dots and slashes are interchangeable, and nothing else is.**  Two names can be used for each
    other exactly if they have one binary form, which is to say that they are spelled alike.  The
    binary form is the one spelling without a dot; it is its own binary form, and has the file of
    the name that it was made of. -/
theorem interchangeable_iff (n m : String) :
    (Interchangeable n m ↔ binary n = binary m) ∧ (binary n = binary m ↔ SpellsLike n m) ∧
      (binary n = m ↔ SpellsLike n m ∧ '.' ∉ m.toList) ∧
      binary (binary n) = binary n ∧ file n = file (binary n) := by
  refine ⟨⟨?_, ?_⟩, ClassName.binary_eq_binary_iff, ClassName.binary_eq_iff,
    ClassName.binary_binary n, (ClassName.file_binary n).symm⟩
  · intro h
    by_contra hne
    -- an entry that has the class of the first name only tells the two apart
    have hread := h.read [.ofClass (binary n) []]
    rw [read_ofClass, read_ofClass, if_pos rfl, if_neg (Ne.symm hne)] at hread
    nomatch hread
  · intro h
    exact { read := sameOutcome_read h
            load := sameOutcome_load h
            directory := find_ofDirectory_eq_of_file_eq (ClassName.file_eq_of_binary_eq h) }

/-- The theorem at names with a dot and a slash in different places, and at a name with another mark
    in between. -/
theorem interchangeable_iff_mixed :
    Interchangeable "a.b/c" "a/b.c" ∧ ¬ Interchangeable "a.b/c" "a-b.c" := by
  constructor
  · have hspells : SpellsLike "a.b/c" "a/b.c" :=
      .cons (.refl 'a') (.cons .dotSlash (.cons (.refl 'b') (.cons .slashDot
        (.cons (.refl 'c') .nil))))
    obtain ⟨hbinary, hspelled, -⟩ := interchangeable_iff "a.b/c" "a/b.c"
    exact hbinary.mpr (hspelled.mpr hspells)
  · intro h
    have hne : binary "a.b/c" ≠ binary "a-b.c" := by cbv
    exact hne ((interchangeable_iff _ _).1.mp h)

end ClassPath

end JavaClass
