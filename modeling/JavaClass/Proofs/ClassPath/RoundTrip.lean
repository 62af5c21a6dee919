/-
  Class paths as texts.

  The components of a text are what its separators leave.  `AreComponents` says so without
  following the split: joined by separators they are the text again, and there is no separator in
  any of them.  Every text has exactly one such list (`areComponents_iff`), and an empty component
  counts like any other, so `lib:` has two components and the empty text has one.

  What becomes of a text hangs on its components alone: each has to be a directory
  (`parse_eq_ok_iff`), and the first that is none is the one that the failure names
  (`parse_eq_error_iff`).  The entries carry the components as labels, which is why a class path
  that was parsed shows as the text that it was parsed from.

  A separator between two texts puts the components of the second behind those of the first, and so
  it does with their class paths (`parse_append`).  What the two find together then follows from
  the order of the search.
-/
import JavaClass.Proofs.ClassPath.Directory
import JavaClass.Proofs.ClassPath.SearchOrder
import JavaClass.Proofs.Failures
import Mathlib.Data.List.Basic

namespace JavaClass

/-! ## Splitting and joining

  The split into parts is that of the library, so what is known of it there holds here. -/

/-- The parts between separators are those of the library. -/
theorem splitParts_eq_splitOn (separator : Char) (text : List Char) :
    splitParts separator text = text.splitOn separator := by
  induction text with
  | nil => rfl
  | cons c text ih =>
    rw [List.splitOn_cons_eq_if_modifyHead, ← ih]
    by_cases h : c = separator
    · subst h
      rw [splitParts_cons_self, if_pos (beq_self_eq_true c)]
    · obtain ⟨part, parts, htext, hcons⟩ := splitParts_cons_of_ne h text
      rw [hcons, htext, if_neg (by simpa using h), List.modifyHead_cons]

/-- There is always a part, if only an empty one. -/
theorem splitParts_ne_nil (separator : Char) (text : List Char) :
    splitParts separator text ≠ [] := by
  rw [splitParts_eq_splitOn]
  exact List.splitOn_ne_nil separator text

/-- There is no separator in a part. -/
theorem not_mem_of_mem_splitParts {separator : Char} {text part : List Char}
    (h : part ∈ splitParts separator text) : separator ∉ part := by
  intro hmem
  have hfilter : separator ∈ text.filter (· ≠ separator) :=
    flatten_splitParts separator text ▸ List.mem_flatten_of_mem h hmem
  simpa using (List.mem_filter.mp hfilter).2

/-- There is one part more than there are separators. -/
theorem length_splitParts (separator : Char) (text : List Char) :
    (splitParts separator text).length = text.count separator + 1 := by
  induction text with
  | nil => rfl
  | cons c text ih =>
    by_cases h : c = separator
    · subst h
      rw [splitParts_cons_self, List.length_cons, ih, List.count_cons_self]
    · obtain ⟨part, parts, htext, hcons⟩ := splitParts_cons_of_ne h text
      rw [htext, List.length_cons] at ih
      rw [hcons, List.length_cons, ih, List.count_cons_of_ne h]

namespace ClassPath

/-! ## Components

  Being the components of a text is said without the split, by joining.  That there is exactly one
  list of them is what makes a text and its components the same thing. -/

/-- The components of the text of a class path: what is left of it without its separators. -/
structure AreComponents (text : String) (cs : List String) : Prop where
  /-- There is at least one, be it empty. -/
  nonempty : cs ≠ []
  /-- Joined by separators they are the text. -/
  joined : separator.toString.intercalate cs = text
  /-- There is no separator in any of them. -/
  free : ∀ c ∈ cs, separator ∉ c.toList

section
variable {text s t : String} {cs ds : List String}

/-- The components are the parts between the separators. -/
theorem toList_components (text : String) :
    (components text).map String.toList = splitParts separator text.toList := by
  rw [components, List.map_map]
  have hinverse : String.toList ∘ String.ofList = id := funext fun _ => String.toList_ofList
  rw [hinverse, List.map_id]

/-- Texts are joined as their characters are. -/
theorem toList_intercalate_separator (cs : List String) :
    (separator.toString.intercalate cs).toList = [separator].intercalate (cs.map String.toList) :=
  String.toList_intercalate

/-- Splitting a text gives texts without a separator that join to it. -/
theorem areComponents_components (text : String) : AreComponents text (components text) where
  nonempty := by
    intro hnil
    have hparts := toList_components text
    rw [hnil] at hparts
    exact splitParts_ne_nil separator text.toList hparts.symm
  joined := by
    apply String.toList_injective
    rw [toList_intercalate_separator, toList_components, splitParts_eq_splitOn]
    exact List.intercalate_splitOn separator
  free := by
    intro c hc
    have hpart : c.toList ∈ splitParts separator text.toList := by
      rw [← toList_components]
      exact List.mem_map_of_mem hc
    exact not_mem_of_mem_splitParts hpart

/-- A text has no other components than those that it is split into. -/
theorem AreComponents.eq_components (h : AreComponents text cs) : cs = components text := by
  have hinjective : Function.Injective (List.map String.toList) :=
    List.map_injective_iff.mpr fun _ _ => String.toList_injective
  apply hinjective
  have hfree : ∀ part ∈ cs.map String.toList, separator ∉ part := by
    intro part hpart
    obtain ⟨c, hc, rfl⟩ := List.mem_map.mp hpart
    exact h.free c hc
  -- joining undoes splitting, since there is no separator in a part
  calc cs.map String.toList
      = ([separator].intercalate (cs.map String.toList)).splitOn separator :=
        (List.splitOn_intercalate separator hfree (by simpa using h.nonempty)).symm
    _ = text.toList.splitOn separator := by rw [← toList_intercalate_separator, h.joined]
    _ = (components text).map String.toList := by
        rw [toList_components, splitParts_eq_splitOn]

/-- No other texts without a separator join to it. -/
theorem areComponents_iff : AreComponents text cs ↔ cs = components text := by
  constructor
  · exact AreComponents.eq_components
  · rintro rfl
    exact areComponents_components text

/-- There is one component more than there are separators. -/
theorem length_components (text : String) :
    (components text).length = text.toList.count separator + 1 := by
  rw [← length_splitParts, ← toList_components, List.length_map]

/-- A separator ends one list of components and begins another. -/
theorem AreComponents.append (hs : AreComponents s cs) (ht : AreComponents t ds) :
    AreComponents (s ++ separator.toString ++ t) (cs ++ ds) where
  nonempty := List.append_ne_nil_of_left_ne_nil hs.nonempty ds
  joined := by
    rw [String.intercalate_append_of_ne_nil hs.nonempty ht.nonempty, hs.joined, ht.joined]
  free c hc := (List.mem_append.mp hc).elim (hs.free c) (ht.free c)

/-- A separator between two texts parts their components. -/
theorem components_append (s t : String) :
    components (s ++ separator.toString ++ t) = components s ++ components t :=
  ((areComponents_components s).append (areComponents_components t)).eq_components.symm

end

/-! ## From a text to a class path

  Every component is opened on its own.  What becomes of all of them is the list of what becomes
  of each, or the first failure. -/

section
variable {fs : FileSystem} {text c : String} {cs : List String} {path : ClassPath}

/-- A component is made an entry if it is a directory. -/
theorem ofPath_eq_ok_iff {entry : Entry} : Entry.ofPath fs c = .ok entry ↔
    fs.isDirectory c = true ∧ Entry.ofDirectory fs c = entry := by
  unfold Entry.ofPath
  split <;> simp [*]

/-- It fails if and only if it is no directory. -/
theorem failure?_ofPath_eq_none : failure? (Entry.ofPath fs c) = none ↔
    fs.isDirectory c = true := by
  rw [failure?_eq_none]
  simp [ofPath_eq_ok_iff]

/-- The failure names the component. -/
theorem failure?_ofPath_eq_some {d : InvalidDirectory} :
    failure? (Entry.ofPath fs c) = some d ↔ fs.isDirectory c = false ∧ c = d.path := by
  obtain ⟨p⟩ := d
  unfold Entry.ofPath
  split <;> simp [failure?, *]

/-- A list of directories becomes the class path of them, one entry for each. -/
theorem ofPaths_eq_ok_iff : ofPaths fs cs = .ok path ↔
    (∀ c ∈ cs, fs.isDirectory c = true) ∧ cs.map (Entry.ofDirectory fs) = path := by
  rw [ofPaths, mapM_eq_ok_iff]
  simp only [ofPath_eq_ok_iff]
  rw [List.forall₂_and_left, ← List.forall₂_map_left_iff, List.forall₂_eq_eq_eq]

/-- The first that is no directory is the one that the failure names. -/
theorem ofPaths_eq_error_iff {d : InvalidDirectory} : ofPaths fs cs = .error d ↔
    ∃ front back, cs = front ++ d.path :: back ∧ (∀ c ∈ front, fs.isDirectory c = true) ∧
      fs.isDirectory d.path = false := by
  rw [← failure?_eq_some, ofPaths, failure?_mapM, List.findSome?_eq_some_iff]
  simp only [failure?_ofPath_eq_none, failure?_ofPath_eq_some]
  constructor
  · rintro ⟨front, c, back, hsplit, ⟨hfails, rfl⟩, hfront⟩
    exact ⟨front, back, hsplit, hfront, hfails⟩
  · rintro ⟨front, back, hsplit, hfront, hfails⟩
    exact ⟨front, d.path, back, hsplit, ⟨hfails, rfl⟩, hfront⟩

/-- A class path is read if all its components are directories. -/
theorem parse_eq_ok_iff : parse fs text = .ok path ↔
    (∀ c ∈ components text, fs.isDirectory c = true) ∧
      (components text).map (Entry.ofDirectory fs) = path := by
  rw [← ofPaths_eq_ok_iff, parse]
  cases ofPaths fs (components text) <;> simp [Except.mapError]

/-- Otherwise the first that is none is reported. -/
theorem parse_eq_error_iff {e : LoadError} : parse fs text = .error e ↔
    ∃ front c back, components text = front ++ c :: back ∧
      (∀ d ∈ front, fs.isDirectory d = true) ∧ fs.isDirectory c = false ∧ .invalidEntry c = e := by
  have hfails : parse fs text = .error e ↔
      ∃ d, ofPaths fs (components text) = .error d ∧ .invalidEntry d.path = e := by
    rw [parse]
    cases ofPaths fs (components text) <;> simp [Except.mapError]
  rw [hfails]
  constructor
  · rintro ⟨d, hd, he⟩
    obtain ⟨front, back, hsplit, hfront, hc⟩ := ofPaths_eq_error_iff.mp hd
    exact ⟨front, d.path, back, hsplit, hfront, hc, he⟩
  · rintro ⟨front, c, back, hsplit, hfront, hc, he⟩
    exact ⟨⟨c⟩, ofPaths_eq_error_iff.mpr ⟨front, back, hsplit, hfront, hc⟩, he⟩

/-- Entries of directories show as what they were made of. -/
theorem text_map_ofDirectory (fs : FileSystem) (cs : List String) :
    ClassPath.text (cs.map (Entry.ofDirectory fs)) = separator.toString.intercalate cs := by
  rw [ClassPath.text, List.map_map]
  have hlabel : (·.label) ∘ Entry.ofDirectory fs = id := rfl
  rw [hlabel, List.map_id]

/-- A separator puts one class path behind another, and a failure in front comes first. -/
theorem parse_append (fs : FileSystem) (s t : String) :
    parse fs (s ++ separator.toString ++ t) = (do
      let path ← parse fs s
      let later ← parse fs t
      return path ++ later) := by
  rw [parse, components_append, ofPaths, List.mapM_append, parse, parse, ofPaths, ofPaths]
  cases (components s).mapM (Entry.ofPath fs) with
  | error d => rfl
  | ok path => cases (components t).mapM (Entry.ofPath fs) <;> rfl

end

/-! ## There and back -/

/-- What the text of a class path stands for. -/
structure RoundTrips (fs : FileSystem) (text : String) (cs : List String) : Prop where
  /-- These are its components, and there are no others. -/
  components : ∀ cs', AreComponents text cs' ↔ cs' = cs
  /-- It is a class path exactly if each of them is a directory. -/
  opens : (∃ path, parse fs text = .ok path) ↔ ∀ c ∈ cs, fs.isDirectory c = true
  /-- The class path has one entry more than the text has separators: for each component the one
      that searches it, in order.  It shows as the text. -/
  reads : ∀ path, parse fs text = .ok path →
    path.length = text.toList.count separator + 1 ∧ path = cs.map (Entry.ofDirectory fs) ∧
      path.text = text
  /-- Each entry has the classes whose files the file system has in its component, and no others. -/
  searches : ∀ path, parse fs text = .ok path → List.Forall₂ (Entry.Searches fs) cs path
  /-- A failure names the first component that is no directory. -/
  fails : ∀ e, parse fs text = .error e ↔ ∃ front c back, cs = front ++ c :: back ∧
    (∀ d ∈ front, fs.isDirectory d = true) ∧ fs.isDirectory c = false ∧ e = .invalidEntry c
  /-- What is put behind it is asked only for what it does not have. -/
  behind : ∀ t path later, parse fs text = .ok path → parse fs t = .ok later →
    ∃ whole, parse fs (text ++ separator.toString ++ t) = .ok whole ∧
      ∀ name, whole.find name = match path.find name with
        | .ok none => later.find name
        | answer => answer

/-- **Class paths as texts.**  In every file system, a text is a class path exactly if each of its
    components, the empty ones included, is a directory; its entries are those components in
    order, and it shows as the text again.  Otherwise the first component that is no directory is
    reported.  Of two class paths with a separator in between, the second is asked only for what
    the first does not have. -/
theorem roundTrips (fs : FileSystem) (text : String) : ∃ cs, RoundTrips fs text cs := by
  refine ⟨components text, ?_, ?_, ?_, ?_, ?_, ?_⟩
  · intro cs'
    exact areComponents_iff
  · simp only [parse_eq_ok_iff, exists_and_left, exists_eq', and_true]
  · intro path hpath
    obtain ⟨-, rfl⟩ := parse_eq_ok_iff.mp hpath
    refine ⟨?_, rfl, ?_⟩
    · rw [List.length_map, length_components]
    · rw [text_map_ofDirectory, (areComponents_components text).joined]
  · intro path hpath
    obtain ⟨-, rfl⟩ := parse_eq_ok_iff.mp hpath
    rw [List.forall₂_map_right_iff, List.forall₂_same]
    exact fun c _ => searches_ofDirectory fs c
  · intro e
    rw [parse_eq_error_iff]
    simp only [eq_comm]
  · intro t path later hpath hlater
    refine ⟨path ++ later, ?_, find_append path later⟩
    rw [parse_append, hpath, hlater]
    rfl

/-- The theorem at two texts.  With a separator between two directories there is a class path, which
    shows as its text, and its second entry has the class that is in the second directory; with two
    separators, the empty component in the middle is reported. -/
theorem roundTrips_doubled_separator :
    (∃ first second, parse libTree.toFileSystem "lib:lib/a" = .ok [first, second] ∧
      text [first, second] = "lib:lib/a" ∧ second.find "b" = .ok (some [0xba, 0xbe])) ∧
    parse libTree.toFileSystem "lib::lib/a" = .error (.invalidEntry "") := by
  constructor
  · obtain ⟨cs, h⟩ := roundTrips libTree.toFileSystem "lib:lib/a"
    have hcs : ["lib", "lib/a"] = cs := (h.components _).mp
      { nonempty := by decide, joined := by decide +kernel, free := by decide }
    have hdirectories : ∀ c ∈ cs, libTree.toFileSystem.isDirectory c = true := by
      rw [← hcs]
      decide +kernel
    obtain ⟨path, hpath⟩ := h.opens.mpr hdirectories
    obtain ⟨-, -, htext⟩ := h.reads path hpath
    have hsearches := h.searches path hpath
    rw [← hcs] at hsearches
    obtain _ | ⟨-, _ | ⟨hsecond, ⟨⟩⟩⟩ := hsearches
    have hlocate : libTree.locate (joinPath "lib/a" (ClassName.file "b")) =
        some (.inside ["lib", "a", "b.class"]) := by decide +kernel
    refine ⟨_, _, hpath, htext, (hsecond.found "b" _).mpr ?_⟩
    rw [readFile?_of_locate hlocate]
    rfl
  · obtain ⟨cs, h⟩ := roundTrips libTree.toFileSystem "lib::lib/a"
    have hcs : ["lib", "", "lib/a"] = cs := (h.components _).mp
      { nonempty := by decide, joined := by decide +kernel, free := by decide }
    refine (h.fails _).mpr ⟨["lib"], "", ["lib/a"], hcs.symm, ?_, ?_, rfl⟩
    · decide +kernel
    · decide +kernel

end ClassPath

end JavaClass
