/-
  What a disassembly shows, and when there is one.

  A disassembly is made of lines: those of the heading, and a section of lines for each method that
  is selected, with the listing of the constants in between if it is asked for.  `HasHeading` and
  `HasSection` say which lines these are; `Shows` puts them together (`disassemble_eq_ok_iff`).

  There is no disassembly in part.  `failures` lists what can go wrong in the order of the text, and
  the first item of it that did go wrong is the failure of the whole (`failure?_disassemble`).  The
  options appear in it only through the selected methods, so what they leave out cannot fail, and
  what they leave in stays as it is (`allOrNothing_disassemble`).
-/
import JavaClass.CommandLine
import JavaClass.Proofs.Failures
import JavaClass.Proofs.Text.Lines

namespace JavaClass

/-! ## What is shown

  The text is made by appending, and it is described by lines.  For each of its parts there is one
  statement: the part is this text exactly if the text is these lines. -/

namespace ClassFile

/-- The methods of a name, or all of them if there is none. -/
def selected (c : ClassFile) : Option String → List Method
  | none => c.methods
  | some name => c.methods.filter (·.name = name)

theorem filter_includes (c : ClassFile) (s : Selection) :
    c.methods.filter s.includes = c.selected s.method := by
  obtain ⟨constants, method⟩ := s
  cases method with
  | none => exact List.filter_eq_self.mpr fun _ _ => rfl
  | some name => rfl

/-- The lines about a class, given the names in them. -/
def headingLines (c : ClassFile) (name : String) (superName sourceFile : Option String) :
    List String :=
  ("class " ++ name ++ superName.elim "" (" extends " ++ ·)) ::
    ((sourceFile.map ("  compiled from: " ++ ·)).toList ++
      ["  version: " ++ c.version.text, "  flags: " ++ c.flagsText])

/-- The lines about a class whose names can be resolved. -/
inductive HasHeading (c : ClassFile) (lines : List String) : Prop
  | intro {name : String} {superName sourceFile : Option String}
    (className : c.className = .ok name) (superclass : c.superName = .ok superName)
    (source : c.sourceFile = .ok sourceFile) (shown : lines = c.headingLines name superName sourceFile)

/-- The lines about a method whose code can be decoded: a blank one, the method, and one for each
    instruction. -/
inductive HasSection (m : Method) (lines : List String) : Prop
  | intro {is : List Instruction} (decodes : m.instructions = .ok is)
    (shown : lines = "" :: m.text :: is.map ("  " ++ ·.text))

/-- The selected parts of a class, in their order. -/
inductive Shows (c : ClassFile) (s : Selection) (text : String) : Prop
  | intro {heading : List String} {sections : List (List String)} (names : c.HasHeading heading)
    (methods : List.Forall₂ HasSection (c.selected s.method) sections)
    (shown : text = ofLines heading ++ (if s.constants then c.constants.listing else "") ++
      ofLines sections.flatten)

theorem heading_of_ok {c : ClassFile} {name : String} {superName sourceFile : Option String}
    (hname : c.className = .ok name) (hsuper : c.superName = .ok superName)
    (hsource : c.sourceFile = .ok sourceFile) :
    c.heading = .ok (ofLines (c.headingLines name superName sourceFile)) := by
  simp only [heading, hname, hsuper, hsource]
  refine congrArg Except.ok ?_
  -- with or without a superclass, with or without a source file
  cases superName <;> cases sourceFile <;>
    simp only [headingLines, ofLines, Option.elim, Option.map, Option.toList, List.cons_append,
      List.nil_append, String.append_assoc, String.append_empty]

theorem heading_eq_ok_iff {c : ClassFile} {text : String} :
    c.heading = .ok text ↔ ∃ lines, c.HasHeading lines ∧ text = ofLines lines := by
  constructor
  · intro h
    obtain ⟨name, hname, hrest⟩ := bind_eq_ok_iff.mp h
    obtain ⟨superName, hsuper, hrest⟩ := bind_eq_ok_iff.mp hrest
    obtain ⟨sourceFile, hsource, -⟩ := bind_eq_ok_iff.mp hrest
    rw [heading_of_ok hname hsuper hsource] at h
    exact ⟨_, ⟨hname, hsuper, hsource, rfl⟩, (Except.ok.inj h).symm⟩
  · rintro ⟨lines, ⟨className, superclass, source, rfl⟩, rfl⟩
    exact heading_of_ok className superclass source

/-- A line for each instruction, behind what stands in front. -/
theorem foldl_instructions (start : String) (is : List Instruction) :
    is.foldl (fun text i => text ++ "  " ++ i.text ++ "\n") start =
      start ++ ofLines (is.map ("  " ++ ·.text)) :=
  foldl_ofLines (fun _ _ => by simp only [String.append_assoc]) start is

theorem methodSection_of_ok {m : Method} {is : List Instruction} (h : m.instructions = .ok is) :
    methodSection m = .ok (ofLines ("" :: m.text :: is.map ("  " ++ ·.text))) := by
  have hlines := foldl_instructions ("\n" ++ m.text ++ "\n") is
  simp only [methodSection, h]
  refine congrArg Except.ok (hlines.trans ?_)
  simp only [ofLines, String.append_assoc, String.empty_append]

theorem methodSection_eq_ok_iff {m : Method} {text : String} :
    methodSection m = .ok text ↔ ∃ lines, HasSection m lines ∧ text = ofLines lines := by
  constructor
  · intro h
    obtain ⟨is, his, -⟩ := bind_eq_ok_iff.mp h
    rw [methodSection_of_ok his] at h
    exact ⟨_, ⟨his, rfl⟩, (Except.ok.inj h).symm⟩
  · rintro ⟨lines, ⟨decodes, rfl⟩, rfl⟩
    exact methodSection_of_ok decodes

/-- A section fails as the instructions of its method do. -/
theorem failure?_methodSection (m : Method) :
    failure? (methodSection m) = failure? m.instructions := by
  unfold methodSection
  cases m.instructions <;> rfl

theorem mapM_methodSection_eq_ok_iff {methods : List Method} {texts : List String} :
    methods.mapM methodSection = .ok texts ↔
      ∃ sections, List.Forall₂ HasSection methods sections ∧ texts = sections.map ofLines := by
  rw [mapM_eq_ok_iff]
  constructor
  · intro h
    -- induction on the methods: each has its lines, and is shown as them
    induction h with
    | nil => exact ⟨[], .nil, rfl⟩
    | cons hm _ ih =>
      obtain ⟨lines, hlines, rfl⟩ := methodSection_eq_ok_iff.mp hm
      obtain ⟨sections, hsections, rfl⟩ := ih
      exact ⟨lines :: sections, .cons hlines hsections, rfl⟩
  · rintro ⟨sections, hsections, rfl⟩
    induction hsections with
    | nil => exact .nil
    | cons hm _ ih => exact .cons (methodSection_eq_ok_iff.mpr ⟨_, hm, rfl⟩) ih

/-- A disassembly shows the selected parts, and nothing else. -/
theorem disassemble_eq_ok_iff {c : ClassFile} {s : Selection} {text : String} :
    c.disassemble s = .ok text ↔ c.Shows s text := by
  unfold disassemble
  rw [filter_includes]
  constructor
  · intro h
    obtain ⟨heading, hheading, h⟩ := bind_eq_ok_iff.mp h
    obtain ⟨texts, htexts, h⟩ := bind_eq_ok_iff.mp h
    obtain ⟨lines, hlines, rfl⟩ := heading_eq_ok_iff.mp hheading
    obtain ⟨sections, hsections, rfl⟩ := mapM_methodSection_eq_ok_iff.mp htexts
    refine ⟨hlines, hsections, ?_⟩
    rw [← intercalate_ofLines]
    exact (Except.ok.inj h).symm
  · rintro ⟨hlines, hsections, rfl⟩
    refine bind_eq_ok_iff.mpr ⟨_, heading_eq_ok_iff.mpr ⟨_, hlines, rfl⟩, ?_⟩
    refine bind_eq_ok_iff.mpr ⟨_, mapM_methodSection_eq_ok_iff.mpr ⟨_, hsections, rfl⟩, ?_⟩
    rw [intercalate_ofLines]
    rfl

/-! ## What can fail

  A disassembly is a row of steps of which each may fail, and such a row fails as the first step
  that does.  So the failures of the parts are listed in order, with `none` for a part that can be
  shown, and the first of the list decides. -/

/-- What the parts of a disassembly fail with, in the order of the text. -/
def failures (c : ClassFile) (s : Selection) : List (Option ReadError) :=
  [failure? c.className, failure? c.superName, failure? c.sourceFile] ++
    (c.selected s.method).map fun m => failure? m.instructions

theorem failure?_heading (c : ClassFile) : failure? c.heading =
    [failure? c.className, failure? c.superName, failure? c.sourceFile].findSome? id := by
  have hsource : failure? c.heading = (failure? c.className).or
      ((failure? c.superName).or ((failure? c.sourceFile).or none)) :=
    failure?_bind fun _ => failure?_bind fun _ => failure?_bind fun _ => rfl
  rw [hsource]
  simp only [List.findSome?_cons, List.findSome?_nil, id_eq]
  cases failure? c.className <;> cases failure? c.superName <;> cases failure? c.sourceFile <;> rfl

/-- The first part that fails decides. -/
theorem failure?_disassemble (c : ClassFile) (s : Selection) :
    failure? (c.disassemble s) = (c.failures s).findSome? id := by
  have hparts : failure? (c.disassemble s) = (failure? c.heading).or
      ((failure? ((c.methods.filter s.includes).mapM methodSection)).or none) :=
    failure?_bind fun _ => failure?_bind fun _ => rfl
  -- the parts in order: the heading with its three names, then the methods
  rw [hparts, failure?_heading, failure?_mapM, filter_includes, Option.or_none, failures,
    List.findSome?_append, List.findSome?_map]
  simp only [failure?_methodSection, Function.comp_def, id_eq]

theorem disassemble_eq_error_iff {c : ClassFile} {s : Selection} {e : ReadError} :
    c.disassemble s = .error e ↔ (c.failures s).findSome? id = some e := by
  rw [← failure?_disassemble, failure?_eq_some]

/-- There is a disassembly exactly if no part fails. -/
theorem exists_disassemble_iff {c : ClassFile} {s : Selection} :
    (∃ text, c.disassemble s = .ok text) ↔
      (∃ name, c.className = .ok name) ∧ (∃ name, c.superName = .ok name) ∧
        (∃ file, c.sourceFile = .ok file) ∧
        ∀ m ∈ c.selected s.method, ∃ is, m.instructions = .ok is := by
  rw [← failure?_eq_none, failure?_disassemble, List.findSome?_eq_none_iff]
  simp only [failures, id_eq, List.forall_mem_append, List.forall_mem_cons, List.forall_mem_map,
    failure?_eq_none, List.not_mem_nil, false_imp_iff, implies_true, and_true, and_assoc]

/-! ## Selections -/

/-- The sections of the methods of a name, among those of all methods. -/
def sectionsOf (c : ClassFile) (name : String) (sections : List (List String)) :
    List (List String) :=
  ((c.methods.zip sections).filter (·.1.name = name)).map (·.2)

/-- What is picked from one list stands beside what goes with it in the other. -/
theorem forall₂_filter {α β : Type} {R : α → β → Prop} {as : List α} {bs : List β}
    (h : List.Forall₂ R as bs) (p : α → Bool) :
    List.Forall₂ R (as.filter p) (((as.zip bs).filter (p ·.1)).map (·.2)) := by
  -- induction on the two lists: a pair stays or goes as a whole
  induction h with
  | nil => exact .nil
  | @cons a b as bs hab _ ih =>
    rw [List.zip_cons_cons]
    by_cases hp : p a = true
    · rw [List.filter_cons_of_pos hp, List.filter_cons_of_pos (a := (a, b)) hp]
      exact .cons hab ih
    · rw [List.filter_cons_of_neg hp, List.filter_cons_of_neg (a := (a, b)) hp]
      exact ih

/-- The part of a text in front of the methods. -/
def frontText (c : ClassFile) (constants : Bool) (heading : List String) : String :=
  ofLines heading ++ if constants then c.constants.listing else ""

/-- A disassembly is there as a whole or not at all, and its options only select. -/
structure AllOrNothing (c : ClassFile) : Prop where
  /-- It is there if the names of the class resolve and the selected methods can be decoded. -/
  succeeds : ∀ s, (∃ text, c.disassemble s = .ok text) ↔
    (∃ name, c.className = .ok name) ∧ (∃ name, c.superName = .ok name) ∧
      (∃ file, c.sourceFile = .ok file) ∧
      ∀ m ∈ c.selected s.method, ∃ is, m.instructions = .ok is
  /-- Otherwise it fails as the first of these parts does that cannot be shown. -/
  fails : ∀ s e, c.disassemble s = .error e ↔ (c.failures s).findSome? id = some e
  /-- It is the text of the selected parts. -/
  shows : ∀ s text, c.disassemble s = .ok text ↔ c.Shows s text
  /-- Asking for the constants adds their listing and changes nothing else. -/
  constants : ∀ method,
    (∀ e, c.disassemble ⟨true, method⟩ = .error e ↔ c.disassemble ⟨false, method⟩ = .error e) ∧
    ∀ text, c.disassemble ⟨false, method⟩ = .ok text → ∃ heading methods,
      c.HasHeading heading ∧ text = c.frontText false heading ++ methods ∧
        c.disassemble ⟨true, method⟩ = .ok (c.frontText true heading ++ methods)
  /-- Asking for the methods of a name leaves out the sections of the others. -/
  method : ∀ constants text, c.disassemble ⟨constants, none⟩ = .ok text → ∃ heading sections,
    c.HasHeading heading ∧ List.Forall₂ HasSection c.methods sections ∧
      text = c.frontText constants heading ++ ofLines sections.flatten ∧
      ∀ name, c.disassemble ⟨constants, some name⟩ =
        .ok (c.frontText constants heading ++ ofLines (c.sectionsOf name sections).flatten)
  /-- A run of the program that gets as far as this class prints the text, or nothing at all and
      reports the failure.  What a log has to say comes on top of the report. -/
  prints : ∀ fs arguments request path,
    CommandLine.parse arguments = .ok (.disassemble request) →
    ClassPath.parse fs request.classPath = .ok path → path.load request.className = .ok c →
    (∀ text, c.disassemble request.selection = .ok text →
      CommandLine.run fs arguments = { exitCode := 0, stdout := text, stderr := "" }) ∧
    ∀ e, c.disassemble request.selection = .error e →
      CommandLine.run fs arguments = { exitCode := 1, stdout := "", stderr := e.message ++ "\n" }

/-- A run that gets as far as a class is decided by the disassembly of it. -/
theorem run_of_answer {fs : FileSystem} {arguments : List String} {request : CommandLine.Request}
    {path : ClassPath} {c : ClassFile}
    (hparse : CommandLine.parse arguments = .ok (.disassemble request))
    (hpath : ClassPath.parse fs request.classPath = .ok path)
    (hload : path.load request.className = .ok c) :
    CommandLine.run fs arguments = match c.disassemble request.selection with
      | .ok text => { exitCode := 0, stdout := text, stderr := "" }
      | .error e => { exitCode := 1, stdout := "", stderr := e.message ++ "\n" } := by
  -- the class path and the class are found, so the answer is the disassembly
  have hloading : CommandLine.answer fs request =
      (path.load request.className).mapError (CommandLine.loadFailure request.className) >>=
        fun classFile => (classFile.disassemble request.selection).mapError ReadError.message := by
    unfold CommandLine.answer
    rw [hpath]
    rfl
  have hanswer : CommandLine.answer fs request =
      (c.disassemble request.selection).mapError ReadError.message := by
    rw [hloading, hload]
    rfl
  simp only [CommandLine.run, hparse, hanswer]
  cases c.disassemble request.selection <;> rfl

/-- **A disassembly is all or nothing, and its options only select.** -/
theorem allOrNothing_disassemble (c : ClassFile) : c.AllOrNothing where
  succeeds _ := exists_disassemble_iff
  fails _ _ := disassemble_eq_error_iff
  shows _ _ := disassemble_eq_ok_iff
  constants := by
    intro method
    refine ⟨fun e => ?_, fun text h => ?_⟩
    · -- what can fail hangs on the selected methods alone
      rw [disassemble_eq_error_iff, disassemble_eq_error_iff]
      rfl
    · obtain ⟨names, methods, rfl⟩ := disassemble_eq_ok_iff.mp h
      exact ⟨_, _, names, rfl, disassemble_eq_ok_iff.mpr ⟨names, methods, rfl⟩⟩
  method := by
    intro constants text h
    obtain ⟨names, methods, rfl⟩ := disassemble_eq_ok_iff.mp h
    exact ⟨_, _, names, methods, rfl, fun name =>
      disassemble_eq_ok_iff.mpr ⟨names, forall₂_filter methods _, rfl⟩⟩
  prints := by
    intro fs arguments request path hparse hpath hload
    have hrun := run_of_answer hparse hpath hload
    refine ⟨fun text htext => ?_, fun e he => ?_⟩
    · rw [hrun, htext]
    · rw [hrun, he]

/-- A class with two methods of one name, one of them abstract, in front of a method whose code
    cannot be decoded. -/
def overloaded : ClassFile where
  version := { major := 52, minor := 0 }
  constants := ConstantPool.ofList
    [.utf8 "A", .classRef 1, .utf8 "Code", .utf8 "run", .utf8 "()V", .utf8 "(I)V", .utf8 "halt"]
  accessFlags := 0x421
  thisClass := 2
  superClass := 0
  interfaces := []
  fields := []
  methods := [
    { accessFlags := 9, nameIndex := 4, descriptorIndex := 5, name := "run", descriptor := "()V"
      attributes := []
      code := some { maxStack := 0, maxLocals := 0, array := [0xb1], handlers := []
                     attributes := [], lines := none } },
    { accessFlags := 0x401, nameIndex := 4, descriptorIndex := 6, name := "run"
      descriptor := "(I)V", attributes := [], code := none },
    { accessFlags := 1, nameIndex := 7, descriptorIndex := 5, name := "halt", descriptor := "()V"
      attributes := []
      code := some { maxStack := 0, maxLocals := 0, array := [0xff], handlers := []
                     attributes := [], lines := none } }]
  attributes := []

/-- The bytes of this class: its constants, what is said of the class itself, and its methods. -/
def overloadedData : List UInt8 :=
  [0xca, 0xfe, 0xba, 0xbe, 0, 0, 0, 52,
    0, 8, 1, 0, 1, 0x41, 7, 0, 1, 1, 0, 4, 0x43, 0x6f, 0x64, 0x65, 1, 0, 3, 0x72, 0x75, 0x6e,
    1, 0, 3, 0x28, 0x29, 0x56, 1, 0, 4, 0x28, 0x49, 0x29, 0x56, 1, 0, 4, 0x68, 0x61, 0x6c, 0x74,
    4, 0x21, 0, 2, 0, 0, 0, 0, 0, 0,
    0, 3,
    0, 9, 0, 4, 0, 5, 0, 1, 0, 3, 0, 0, 0, 13, 0, 0, 0, 0, 0, 0, 0, 1, 0xb1, 0, 0, 0, 0,
    4, 1, 0, 4, 0, 6, 0, 0,
    0, 1, 0, 7, 0, 5, 0, 1, 0, 3, 0, 0, 0, 13, 0, 0, 0, 0, 0, 0, 0, 1, 0xff, 0, 0, 0, 0,
    0, 0]

/-- A working directory with nothing but the file of this class. -/
def overloadedFiles : FileSystem := FileTree.toFileSystem ⟨[(["A.class"], some overloadedData)]⟩

/-- The class is found in the working directory. -/
theorem load_overloaded :
    ClassPath.load [.ofDirectory overloadedFiles "."] "A" = .ok overloaded := by
  have hread : ClassPath.read [.ofDirectory overloadedFiles "."] "A" = .ok overloadedData := by
    decide +kernel
  have hparse : ofBytes overloadedData = .ok overloaded := by decide +kernel
  show ClassPath.read [.ofDirectory overloadedFiles "."] "A" >>= _ = _
  rw [hread]
  exact congrArg (Except.mapError LoadError.invalidClass) hparse

/-- The theorem at this class: it cannot be shown as a whole, with or without its constants, and a
    run that is asked for it prints nothing, but the methods of the one name can be shown and are
    printed. -/
theorem allOrNothing_disassemble_overloaded :
    (∀ constants, overloaded.disassemble ⟨constants, none⟩ =
      .error (.methodCode "halt()V" (.unknownOpCode 0xff 0))) ∧
    (∃ text, overloaded.disassemble ⟨true, some "run"⟩ = .ok text) ∧
    CommandLine.run overloadedFiles ["A"] =
      { exitCode := 1, stdout := ""
        stderr := (ReadError.methodCode "halt()V" (.unknownOpCode 0xff 0)).message ++ "\n" } ∧
    CommandLine.run overloadedFiles ["-m", "run", "A"] =
      { exitCode := 0
        stdout := "class A\n  version: 52.0 (Jdk8)\n  flags: PUBLIC | SUPER | ABSTRACT\n\n" ++
          "PUBLIC | STATIC run()V\n  0: return\n\nPUBLIC | ABSTRACT run(I)V\n"
        stderr := "" } := by
  have h := allOrNothing_disassemble overloaded
  have hname : ∃ name, overloaded.className = .ok name := ⟨"A", by cbv⟩
  have hrun : ∀ m ∈ overloaded.selected (some "run"), ∃ is, m.instructions = .ok is := by
    intro m hm
    rcases List.mem_cons.mp hm with rfl | hm
    · exact ⟨_, by cbv⟩
    · obtain rfl := List.mem_singleton.mp hm
      exact ⟨[], rfl⟩
  -- the names and the methods in front can be shown
  have hparts : overloaded.failures ⟨false, none⟩ = [none, none, none, none, none,
      some (.methodCode "halt()V" (.unknownOpCode 0xff 0))] := by cbv
  have hwhole : overloaded.disassemble ⟨false, none⟩ =
      .error (.methodCode "halt()V" (.unknownOpCode 0xff 0)) := by
    rw [h.fails, hparts]
    rfl
  -- both requests look for the class in the working directory
  have hprints := fun arguments request hparse hpath =>
    h.prints overloadedFiles arguments request [.ofDirectory overloadedFiles "."] hparse hpath
  refine ⟨fun constants => ?_, (h.succeeds _).mpr ⟨hname, ⟨none, rfl⟩, ⟨none, rfl⟩, hrun⟩, ?_, ?_⟩
  · cases constants with
    | false => exact hwhole
    | true => exact ((h.constants none).1 _).mpr hwhole
  · exact (hprints ["A"] ⟨".", ⟨false, none⟩, "A"⟩ (by decide +kernel) rfl
      load_overloaded).2 _ hwhole
  · exact (hprints ["-m", "run", "A"] ⟨".", ⟨false, some "run"⟩, "A"⟩ (by decide +kernel) rfl
      load_overloaded).1 _ (by decide +kernel)

end ClassFile

end JavaClass
