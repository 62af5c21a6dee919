/-
  Which file a directory opens for a class.

  The name of a class becomes a path, and that path is put behind the directory.  The dots of the
  name become slashes first, so the only dot that is left is the one in `.class`: no step of the
  path leads up (`up_not_mem_steps_file`), and the file lies below the directory.

  There is one way out.  A name that begins with a dot or a slash becomes an absolute path, and
  that takes the place of the directory (`joinPath_of_rooted`).  `find_ofDirectory` tells the two
  kinds of names apart, and `rooted_name_escapes` shows what becomes of a rooted one.
-/
import JavaClass.ClassPath.Basic

namespace JavaClass

/-! ## The parts between separators

  Splitting a text loses its separators and nothing else.  What is needed of it is how it goes
  with a separator, with any other character, and with two texts in a row. -/

theorem splitParts_cons_self (separator : Char) (text : List Char) :
    splitParts separator (separator :: text) = [] :: splitParts separator text := by
  rw [splitParts, List.foldr_cons, if_pos rfl]
  rfl

/-- A character that is no separator belongs to the first part. -/
theorem splitParts_cons_of_ne {separator c : Char} (h : c ≠ separator) (text : List Char) :
    ∃ part parts, splitParts separator text = part :: parts ∧
      splitParts separator (c :: text) = (c :: part) :: parts := by
  cases hparts : splitParts separator text with
  | nil =>
    -- there is always a first part
    exfalso
    cases text with
    | nil => nomatch hparts
    | cons d text =>
      rw [splitParts, List.foldr_cons] at hparts
      split at hparts
      · nomatch hparts
      · split at hparts
        · nomatch hparts
        · nomatch hparts
  | cons part parts =>
    refine ⟨part, parts, rfl, ?_⟩
    have hfold : text.foldr _ _ = part :: parts := hparts
    rw [splitParts, List.foldr_cons, if_neg h, hfold]

/-- A separator ends one text and begins another. -/
theorem splitParts_append (separator : Char) (front back : List Char) :
    splitParts separator (front ++ separator :: back) =
      splitParts separator front ++ splitParts separator back := by
  -- induction on the text in front of the separator
  induction front with
  | nil => exact splitParts_cons_self separator back
  | cons c front ih =>
    by_cases h : c = separator
    · subst h
      rw [List.cons_append, splitParts_cons_self, splitParts_cons_self, ih, List.cons_append]
    · obtain ⟨part, parts, hfront, hcons⟩ := splitParts_cons_of_ne h front
      obtain ⟨part', parts', hall, hcons'⟩ :=
        splitParts_cons_of_ne h (front ++ separator :: back)
      rw [ih, hfront, List.cons_append] at hall
      obtain ⟨rfl, rfl⟩ := List.cons.inj hall
      rw [List.cons_append, hcons', hcons, List.cons_append]

/-- The parts together are the text without its separators. -/
theorem flatten_splitParts (separator : Char) (text : List Char) :
    (splitParts separator text).flatten = text.filter (· ≠ separator) := by
  induction text with
  | nil => rfl
  | cons c text ih =>
    by_cases h : c = separator
    · subst h
      rw [splitParts_cons_self, List.flatten_cons, ih, List.filter_cons_of_neg (by simp)]
      rfl
    · obtain ⟨part, parts, htext, hcons⟩ := splitParts_cons_of_ne h text
      rw [htext, List.flatten_cons] at ih
      rw [hcons, List.flatten_cons, List.cons_append, ih,
        List.filter_cons_of_pos (by simpa using h)]

/-! ## The steps of a path

  A path is taken step by step, and steps that are empty stay where they are.  To lie below a
  directory is to take its steps first, and then others none of which goes up. -/

/-- The steps that a path takes; an empty one stays where it is. -/
def pathSteps (path : String) : List (List Char) :=
  (splitParts '/' path.toList).filter (· ≠ [])

/-- The path leads from the same place as the directory through it and further down, without ever
    going up again. -/
structure LexicallyBelow (directory path : String) : Prop where
  origin : isAbsolute path = isAbsolute directory
  down : ∃ steps, steps ≠ [] ∧ ['.', '.'] ∉ steps ∧ pathSteps path = pathSteps directory ++ steps

theorem flatten_pathSteps (path : String) :
    (pathSteps path).flatten = path.toList.filter (· ≠ '/') := by
  have hempty : ∀ parts : List (List Char), (parts.filter (· ≠ [])).flatten = parts.flatten := by
    intro parts
    induction parts with
    | nil => rfl
    | cons part parts ih =>
      cases part with
      | nil => rw [List.filter_cons_of_neg (by simp), ih]; rfl
      | cons c part => rw [List.filter_cons_of_pos (by simp), List.flatten_cons, ih]; rfl
  rw [pathSteps, hempty, flatten_splitParts]

/-- The path `file` in a directory: with a slash in between, if the directory does not end with
    one. -/
def inDirectory (directory file : String) : String :=
  if directory.toList.getLast? = some '/' then directory ++ file else directory ++ "/" ++ file

/-- Steps are taken one after the other. -/
theorem pathSteps_slash (directory file : String) :
    pathSteps (directory ++ "/" ++ file) = pathSteps directory ++ pathSteps file := by
  have htext : (directory ++ "/" ++ file).toList = directory.toList ++ '/' :: file.toList := by
    simp
  rw [pathSteps, htext, splitParts_append, List.filter_append]
  rfl

theorem pathSteps_inDirectory (directory file : String) :
    pathSteps (inDirectory directory file) = pathSteps directory ++ pathSteps file := by
  unfold inDirectory
  -- the slash is there already, or it is put in between
  split
  · rename_i hlast
    obtain ⟨front, hfront⟩ := List.getLast?_eq_some_iff.mp hlast
    have hdirectory : pathSteps directory = (splitParts '/' front).filter (· ≠ []) := by
      rw [pathSteps, hfront, splitParts_append, List.filter_append]
      exact List.append_nil _
    have htext : (directory ++ file).toList = front ++ '/' :: file.toList := by
      rw [String.toList_append, hfront, List.append_assoc]
      rfl
    rw [hdirectory, pathSteps, htext, splitParts_append, List.filter_append]
    rfl
  · exact pathSteps_slash directory file

/-! ## The file of a class

  The file of a class is its binary name with an ending.  The binary name has no dot, so the only
  step with one is the last, and it is not the step that goes up. -/

namespace ClassName

theorem toList_file (name : String) : (file name).toList =
    name.toList.map (fun c => if c = '.' then '/' else c) ++ ".class".toList := by
  rw [file, binary, String.toList_append, String.toList_map]

/-- Whether a name begins like an absolute path, once its dots are slashes. -/
def Rooted (name : String) : Prop :=
  name.toList.head? = some '.' ∨ name.toList.head? = some '/'

instance (name : String) : Decidable (Rooted name) := by
  unfold Rooted
  infer_instance

theorem isAbsolute_file (name : String) : isAbsolute (file name) = true ↔ Rooted name := by
  unfold isAbsolute Rooted
  rw [toList_file]
  -- the first character decides, and a dot counts as the slash that it becomes
  cases name.toList with
  | nil => decide
  | cons c rest =>
    by_cases hdot : c = '.'
    · simp [hdot]
    · simp [hdot]

/-- The one dot in the path of a class is that of its ending. -/
theorem count_dot_file (name : String) : (file name).toList.count '.' = 1 := by
  have hbinary : (name.toList.map fun c => if c = '.' then '/' else c).count '.' = 0 := by
    rw [List.count_eq_zero]
    intro hmem
    obtain ⟨c, -, hc⟩ := List.mem_map.mp hmem
    split at hc
    · nomatch hc
    · contradiction
  rw [toList_file, List.count_append, hbinary]
  rfl

/-- No step on the way to the file of a class goes up. -/
theorem up_not_mem_steps_file (name : String) : ['.', '.'] ∉ pathSteps (file name) := by
  intro hmem
  -- a step that goes up has two dots, and there is one in the whole path
  have hle := (List.sublist_flatten_of_mem hmem).count_le '.'
  have hdots : ((file name).toList.filter (· ≠ '/')).count '.' = (file name).toList.count '.' :=
    List.count_filter (by decide)
  rw [flatten_pathSteps, hdots, count_dot_file] at hle
  exact absurd hle (by decide)

theorem steps_file_ne_nil (name : String) : pathSteps (file name) ≠ [] := by
  intro hnil
  have hflat := flatten_pathSteps (file name)
  rw [hnil, toList_file, List.filter_append] at hflat
  nomatch (List.append_eq_nil_iff.mp hflat.symm).2

end ClassName

/-! ## Where it is looked for

  A path that is joined to a directory replaces it if it is absolute.  So whether a class is
  looked for in the directory depends on how its name begins. -/

namespace ClassPath

/-- A rooted name leads to the same file from every directory. -/
theorem joinPath_of_rooted {name : String} (h : ClassName.Rooted name) (directory : String) :
    joinPath directory (ClassName.file name) = ClassName.file name :=
  if_pos ((ClassName.isAbsolute_file name).mpr h)

/-- Any other name leads to a file in the directory. -/
theorem joinPath_of_not_rooted {name : String} (h : ¬ ClassName.Rooted name) {directory : String}
    (hne : directory ≠ "") :
    joinPath directory (ClassName.file name) = inDirectory directory (ClassName.file name) := by
  have hrelative : ¬ isAbsolute (ClassName.file name) = true :=
    fun habs => h ((ClassName.isAbsolute_file name).mp habs)
  rw [joinPath, if_neg hrelative, inDirectory]
  simp only [hne, false_or]

theorem isAbsolute_inDirectory {directory : String} (hne : directory ≠ "") (file : String) :
    isAbsolute (inDirectory directory file) = isAbsolute directory := by
  have hchars : directory.toList ≠ [] := fun h => hne (String.toList_eq_nil_iff.mp h)
  obtain ⟨c, rest, hdirectory⟩ := List.exists_cons_of_ne_nil hchars
  unfold inDirectory isAbsolute
  split <;> simp [hdirectory]

/-- A file that a class name leads to in a directory lies below it. -/
theorem below_inDirectory {directory : String} (hne : directory ≠ "") (name : String) :
    LexicallyBelow directory (inDirectory directory (ClassName.file name)) where
  origin := isAbsolute_inDirectory hne _
  down := ⟨pathSteps (ClassName.file name), ClassName.steps_file_ne_nil name,
    ClassName.up_not_mem_steps_file name, pathSteps_inDirectory directory _⟩

/-- The content of a file, or that there is none, decides what a directory says about a class. -/
theorem find_ofDirectory_eq_ok_some {fs : FileSystem} {directory name : String}
    {bytes : List UInt8} : (Entry.ofDirectory fs directory).find name = .ok (some bytes) ↔
      fs.readFile? (joinPath directory (ClassName.file name)) = some (.ok bytes) := by
  simp only [Entry.ofDirectory]
  split
  · rename_i hnone
    simp [hnone]
  · rename_i content hcontent
    simp [hcontent]
  · rename_i cause hcause
    simp [hcause]

/-- An entry searches a directory: what it says about a class is decided by what the file system has
    at the one path that leads from the directory to the file of the class. -/
structure Entry.Searches (fs : FileSystem) (directory : String) (entry : Entry) : Prop where
  /-- It has the bytes that the file holds. -/
  found : ∀ name bytes, entry.find name = .ok (some bytes) ↔
    fs.readFile? (joinPath directory (ClassName.file name)) = some (.ok bytes)
  /-- It does not have the class if there is no file. -/
  absent : ∀ name, entry.find name = .ok none ↔
    fs.readFile? (joinPath directory (ClassName.file name)) = none
  /-- It fails if there is a file that cannot be read, and passes on why. -/
  unreadable : ∀ name failure, entry.find name = .error failure ↔
    ∃ cause, fs.readFile? (joinPath directory (ClassName.file name)) = some (.error cause) ∧
      failure = { file := ClassName.file name, cause }

theorem searches_ofDirectory (fs : FileSystem) (directory : String) :
    Entry.Searches fs directory (.ofDirectory fs directory) where
  found _ _ := find_ofDirectory_eq_ok_some
  absent name := by
    simp only [Entry.ofDirectory]
    cases fs.readFile? (joinPath directory (ClassName.file name)) with
    | none => simp
    | some content => cases content <;> simp
  unreadable name failure := by
    simp only [Entry.ofDirectory]
    cases fs.readFile? (joinPath directory (ClassName.file name)) with
    | none => simp
    | some content => cases content <;> simp [eq_comm]

/-- **The file that a directory opens for a class.**  What a directory says about a class depends on
    one file alone, and it returns no other content than that of this file.  For a name that
    begins with neither a dot nor a slash, it is the file of the class in the directory, and lies
    below it; for any other name it is the file at the absolute path that the name becomes,
    whatever the directory is. -/
theorem find_ofDirectory (fs : FileSystem) {directory : String} (hne : directory ≠ "")
    (name : String) : ∃ path,
      (∀ fs' : FileSystem, fs'.readFile? path = fs.readFile? path →
        (Entry.ofDirectory fs' directory).find name = (Entry.ofDirectory fs directory).find name) ∧
      (∀ bytes, (Entry.ofDirectory fs directory).find name = .ok (some bytes) ↔
        fs.readFile? path = some (.ok bytes)) ∧
      (¬ ClassName.Rooted name → path = inDirectory directory (ClassName.file name) ∧
        LexicallyBelow directory path) ∧
      (ClassName.Rooted name → path = ClassName.file name) := by
  refine ⟨joinPath directory (ClassName.file name), ?_, ?_, ?_, ?_⟩
  · intro fs' hsame
    simp only [Entry.ofDirectory, hsame]
  · intro bytes
    exact find_ofDirectory_eq_ok_some
  · intro hname
    rw [joinPath_of_not_rooted hname hne]
    exact ⟨rfl, below_inDirectory hne name⟩
  · intro hname
    exact joinPath_of_rooted hname directory

/-- A directory `lib` with the files of two classes. -/
def libTree : FileTree where
  items := [(["lib", "a.class"], some [0xca, 0xfe]), (["lib", "a", "b.class"], some [0xba, 0xbe])]

/-- A path that leads into a tree leads to the file of the names that it comes to. -/
theorem readFile?_of_locate {tree : FileTree} {path : String} {names : List String}
    (h : tree.locate path = some (.inside names)) :
    tree.toFileSystem.readFile? path = (tree.file? names).map .ok := by
  simp only [FileTree.toFileSystem, h]

/-- The theorem at a name with two dots in the middle, which leads down all the same. -/
theorem find_ofDirectory_doubled_dot :
    ¬ ClassName.Rooted "a..b" ∧ LexicallyBelow "lib" "lib/a//b.class" ∧
      (Entry.ofDirectory libTree.toFileSystem "lib").find "a..b" = .ok (some [0xba, 0xbe]) := by
  have hname : ¬ ClassName.Rooted "a..b" := by decide
  have hpath : inDirectory "lib" (ClassName.file "a..b") = "lib/a//b.class" := by decide +kernel
  have hlocate : libTree.locate "lib/a//b.class" = some (.inside ["lib", "a", "b.class"]) := by
    decide +kernel
  obtain ⟨path, -, hbytes, hbelow, -⟩ :=
    find_ofDirectory libTree.toFileSystem (show "lib" ≠ "" by decide) "a..b"
  obtain ⟨rfl, hlower⟩ := hbelow hname
  rw [hpath] at hlower hbytes
  refine ⟨hname, hlower, (hbytes _).mpr ?_⟩
  rw [readFile?_of_locate hlocate]
  rfl

/-- A directory `lib`, and one file, which is not in it. -/
def fileOutside : FileSystem where
  isDirectory path := path == "lib"
  readFile? path := if path = "/a.class" then some (.ok [0xca, 0xfe]) else none

/-- A rooted name does not stay in the directory: the file that it names there is not opened, and a
    file that is not below the directory is. -/
theorem rooted_name_escapes :
    (libTree.toFileSystem.readFile? (inDirectory "lib" (ClassName.file "/a")) =
        some (.ok [0xca, 0xfe]) ∧
      (Entry.ofDirectory libTree.toFileSystem "lib").find "/a" = .ok none) ∧
    (¬ LexicallyBelow "lib" "/a.class" ∧
      (∀ path, path ≠ "/a.class" → fileOutside.readFile? path = none) ∧
      (Entry.ofDirectory fileOutside "lib").find "/a" = .ok (some [0xca, 0xfe])) := by
  have hpath : inDirectory "lib" (ClassName.file "/a") = "lib//a.class" := by decide +kernel
  have habsolute : joinPath "lib" (ClassName.file "/a") = "/a.class" := by decide +kernel
  have hlocate : libTree.locate "lib//a.class" = some (.inside ["lib", "a.class"]) := by
    decide +kernel
  have hnowhere : libTree.locate "/a.class" = none := by decide +kernel
  refine ⟨⟨?_, ?_⟩, ⟨?_, ?_, ?_⟩⟩
  · rw [hpath, readFile?_of_locate hlocate]
    rfl
  · simp only [Entry.ofDirectory, habsolute, FileTree.toFileSystem, hnowhere]
  · intro h
    have horigin := h.origin
    revert horigin
    decide
  · intro path hpath
    exact if_neg hpath
  · rw [find_ofDirectory_eq_ok_some, habsolute]
    rfl

end ClassPath

end JavaClass
