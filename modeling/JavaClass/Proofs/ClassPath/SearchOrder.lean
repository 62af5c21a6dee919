/-
  The order in which a class path is searched.

  `FirstAnswer` says what a class path answers without following the search: an entry that has an
  answer decides, if all entries in front of it do not have the class.  The search comes to exactly
  that (`find_eq_iff`), so entries that are put behind others are asked only for the classes that
  the others do not have (`find_append`).

  Loading a class adds another way to fail: bytes that are no class file.  That too ends the search
  and is not made good by a later entry.  `load_eq` reads what becomes of a class off the answer
  about it, and `searchesInOrder` puts the two layers together.
-/
import JavaClass.ClassPath.Loader

namespace JavaClass.ClassPath

/-! ## The first answer

  An entry answers in one of three ways: it has the class, it does not, or it cannot read it.
  Only the second leaves the question to the next entry. -/

/-- What the entries of a class path come to, taken in order. -/
inductive FirstAnswer (path : ClassPath) (name : String) (answer : Answer) : Prop
  /-- An entry has an answer, and those in front of it do not have the class. -/
  | decided {front back : ClassPath} {entry : Entry} (split : path = front ++ entry :: back)
    (passed : ∀ e ∈ front, e.find name = .ok none) (answers : entry.find name = answer)
    (found : answer ≠ .ok none)
  /-- No entry has the class. -/
  | notFound (passed : ∀ e ∈ path, e.find name = .ok none) (none : answer = .ok none)

section
variable {path front : ClassPath} {entry : Entry} {name : String} {answer : Answer}

theorem find_cons_of_passed (h : entry.find name = .ok none) (path : ClassPath) :
    find (entry :: path) name = find path name := by
  simp only [find, h]

theorem find_cons_of_found (h : entry.find name ≠ .ok none) (path : ClassPath) :
    find (entry :: path) name = entry.find name := by
  unfold find
  split
  · contradiction
  · rfl

/-- Entries that do not have the class leave it to those behind them. -/
theorem find_append_of_passed (h : ∀ e ∈ front, e.find name = .ok none) (back : ClassPath) :
    find (front ++ back) name = find back name := by
  induction front with
  | nil => rfl
  | cons e front ih =>
    obtain ⟨he, hfront⟩ := List.forall_mem_cons.mp h
    rw [List.cons_append, find_cons_of_passed he, ih hfront]

/-- The search comes to the first answer. -/
theorem firstAnswer_find (path : ClassPath) (name : String) :
    path.FirstAnswer name (path.find name) := by
  -- induction on the entries: the first of them answers, or it leaves the answer to the others
  induction path with
  | nil => exact .notFound (fun e he => nomatch he) rfl
  | cons e path ih =>
    by_cases he : e.find name = .ok none
    · rw [find_cons_of_passed he]
      cases ih with
      | decided split passed answers found =>
        exact .decided (congrArg (e :: ·) split) (List.forall_mem_cons.mpr ⟨he, passed⟩) answers found
      | notFound passed none => exact .notFound (List.forall_mem_cons.mpr ⟨he, passed⟩) none
    · rw [find_cons_of_found he]
      exact @FirstAnswer.decided _ _ _ [] path e rfl (fun _ h => nomatch h) rfl he

/-- There is no other first answer. -/
theorem find_eq_iff : path.find name = answer ↔ path.FirstAnswer name answer := by
  constructor
  · rintro rfl
    exact firstAnswer_find path name
  · intro h
    cases h with
    | decided split passed answers found =>
      subst split answers
      rw [find_append_of_passed passed, find_cons_of_found found]
    | notFound passed none =>
      subst none
      have hall := find_append_of_passed passed []
      rwa [List.append_nil] at hall

/-- A class is not found exactly if no entry has it. -/
theorem find_eq_notFound_iff : path.find name = .ok none ↔ ∀ e ∈ path, e.find name = .ok none := by
  rw [find_eq_iff]
  constructor
  · rintro (⟨-, -, -, found⟩ | ⟨passed, -⟩)
    · exact absurd rfl found
    · exact passed
  · intro passed
    exact .notFound passed rfl

/-- Entries behind others are asked only for what the others do not have. -/
theorem find_append (path later : ClassPath) (name : String) :
    find (path ++ later) name = match path.find name with
      | .ok none => later.find name
      | answer => answer := by
  -- either nothing was found, or what was found stays
  split
  · rename_i hnone
    exact find_append_of_passed (find_eq_notFound_iff.mp hnone) later
  · rename_i hfound
    have hanswer := firstAnswer_find path name
    cases hanswer with
    | @decided front back entry split passed answers found =>
      refine find_eq_iff.mpr
        (@FirstAnswer.decided _ _ _ front (back ++ later) entry ?_ passed answers found)
      rw [split, List.append_assoc, List.cons_append]
    | notFound passed none => exact absurd none hfound

end

/-! ## Loading

  The name is put into binary form before the entries are asked, and the bytes are read as a class
  after one of them has answered.  The two failures of a class that was not found and of a file
  that cannot be read keep the names apart: the one says the name as it was given, the other its
  binary form. -/

/-- What becomes of a class that is loaded: the first answer about its binary name decides. -/
inductive Loads (path : ClassPath) (name : String) : Except LoadError ClassFile → Prop
  /-- The bytes found are those of a class. -/
  | loaded {bytes : List UInt8} {c : ClassFile}
    (found : path.FirstAnswer (ClassName.binary name) (.ok (some bytes)))
    (reads : ClassFile.ofBytes bytes = .ok c) : Loads path name (.ok c)
  /-- The bytes found are not; what is wrong with them is passed on. -/
  | invalidClass {bytes : List UInt8} {cause : ReadError}
    (found : path.FirstAnswer (ClassName.binary name) (.ok (some bytes)))
    (fails : ClassFile.ofBytes bytes = .error cause) :
    Loads path name (.error (.invalidClass cause))
  /-- An entry has the class but cannot read it. -/
  | unreadable {cause : UnreadableFile}
    (found : path.FirstAnswer (ClassName.binary name) (.error cause)) :
    Loads path name (.error (.unreadable (ClassName.binary name) cause))
  /-- No entry has the class, which is reported under the name as it was given. -/
  | classNotFound (passed : ∀ e ∈ path, e.find (ClassName.binary name) = .ok none) :
    Loads path name (.error (.classNotFound name))

section
variable {path : ClassPath} {name : String}

theorem load_of_found {bytes : List UInt8}
    (h : path.find (ClassName.binary name) = .ok (some bytes)) :
    path.load name = (ClassFile.ofBytes bytes).mapError .invalidClass := by
  simp only [load, read, h]
  rfl

theorem load_of_notFound (h : path.find (ClassName.binary name) = .ok none) :
    path.load name = .error (.classNotFound name) := by
  simp only [load, read, h]
  rfl

theorem load_of_unreadable {cause : UnreadableFile}
    (h : path.find (ClassName.binary name) = .error cause) :
    path.load name = .error (.unreadable (ClassName.binary name) cause) := by
  simp only [load, read, h]
  rfl

/-- Loading a class comes to what the first answer decides, and to nothing else. -/
theorem load_eq_iff {result : Except LoadError ClassFile} :
    path.load name = result ↔ path.Loads name result := by
  constructor
  · rintro rfl
    -- a failure, no class, or bytes, which are a class or not
    cases hfind : path.find (ClassName.binary name) with
    | error cause =>
      rw [load_of_unreadable hfind]
      exact .unreadable (find_eq_iff.mp hfind)
    | ok found =>
      cases found with
      | none =>
        rw [load_of_notFound hfind]
        exact .classNotFound (find_eq_notFound_iff.mp hfind)
      | some bytes =>
        rw [load_of_found hfind]
        cases hbytes : ClassFile.ofBytes bytes with
        | ok c => exact .loaded (find_eq_iff.mp hfind) hbytes
        | error cause => exact .invalidClass (find_eq_iff.mp hfind) hbytes
  · intro h
    cases h with
    | loaded found reads =>
      rw [load_of_found (find_eq_iff.mpr found), reads]
      rfl
    | invalidClass found fails =>
      rw [load_of_found (find_eq_iff.mpr found), fails]
      rfl
    | unreadable found => exact load_of_unreadable (find_eq_iff.mpr found)
    | classNotFound passed => exact load_of_notFound (find_eq_notFound_iff.mpr passed)

end

/-! ## The two layers together -/

/-- A class path searches its entries in order. -/
structure SearchesInOrder (path : ClassPath) (name : String) : Prop where
  /-- What it answers about a class is the first answer of its entries. -/
  find : ∀ answer, path.find name = answer ↔ path.FirstAnswer name answer
  /-- Entries behind it are asked only for what it does not have. -/
  append : ∀ later : ClassPath, ClassPath.find (path ++ later) name =
    match path.find name with
    | .ok none => later.find name
    | answer => answer
  /-- A further entry changes only what was not found. -/
  push : ∀ entry, (path.push entry).find name ≠ path.find name → path.find name = .ok none
  /-- What becomes of a class that is loaded hangs on the first answer about its binary name. -/
  load : ∀ result, path.load name = result ↔ path.Loads name result

/-- **The search order of a class path.**  The first entry that has an answer about a class decides,
    whether the answer is bytes or a failure; a failure to read the file, or to make a class of its
    bytes, is not made good by a later entry. -/
theorem searchesInOrder (path : ClassPath) (name : String) : path.SearchesInOrder name where
  find _ := find_eq_iff
  append later := find_append path later name
  push := by
    intro entry hchanged
    have happend := find_append path [entry] name
    split at happend
    · assumption
    · exact absurd happend hchanged
  load _ := load_eq_iff

/-- An entry that answers the same about every class. -/
def Entry.ofAnswer (answer : Answer) : Entry where
  label := "memory"
  find _ := answer

/-- The theorem at three entries, of which the first does not have the class and the second cannot
    read it: the bytes of the third are never looked at. -/
theorem searchesInOrder_behind_failure :
    ClassPath.load [.ofAnswer (.ok none), .ofAnswer (.error ⟨"a/b.class", "disk on fire"⟩),
        .ofAnswer (.ok (some [0xca, 0xfe]))] "a.b" =
      .error (.unreadable "a/b" ⟨"a/b.class", "disk on fire"⟩) := by
  have hname : ClassName.binary "a.b" = "a/b" := by decide +kernel
  refine ((searchesInOrder _ _).load _).mpr (hname ▸ .unreadable ?_)
  refine @FirstAnswer.decided _ _ _ [.ofAnswer (.ok none)] _ _ rfl ?_ rfl (fun h => nomatch h)
  intro e he
  rw [List.mem_singleton.mp he]
  rfl

end JavaClass.ClassPath
