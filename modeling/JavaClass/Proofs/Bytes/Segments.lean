/-
  Byte strings cut into segments, some of which may be overwritten.

  What is stored for a value is cut into segments: those that say how the rest is to be read stay as
  they are, and those that are taken as they are carry a name.  An `Overwriting` puts other bytes in
  the place of the named ones, each time as many as there were.

  `CutInto segments stored changed` ties such a cut to the values: the segments are the bytes
  `stored`, and overwriting them gives the bytes that `changed` writes for the changed value.  A cut
  of a value is put together from the cuts of its parts, and its proof by the same rules.
-/
import JavaClass.Proofs.Bytes.Words
import JavaClass.Proofs.ClassFile.Stored

namespace JavaClass

open BigEndian (bytes)

variable {Name Outer α : Type}

/-- A stretch of bytes, with a name if it may be overwritten. -/
structure Segment (Name : Type) where
  name : Option Name
  content : List UInt8

namespace Segment

/-- Bytes that stay as they are. -/
def fixed (content : List UInt8) : Segment Name := ⟨none, content⟩

/-- Bytes that may be overwritten. -/
def free (name : Name) (content : List UInt8) : Segment Name := ⟨some name, content⟩

/-- The segment as one of a larger part, where it has another name. -/
def within (outer : Name → Outer) (s : Segment Name) : Segment Outer :=
  ⟨s.name.map outer, s.content⟩

/-- The bytes of segments. -/
def contents (segments : List (Segment Name)) : List UInt8 := segments.flatMap (·.content)

/-- The segments of a list, its count in front. -/
def ofList (segments : Nat → α → List (Segment Name)) (items : List α) : List (Segment Name) :=
  fixed (bytes 2 items.length) :: (items.mapIdx segments).flatten

/-- The names of segments, in order. -/
def names (segments : List (Segment Name)) : List Name := segments.filterMap (·.name)

/-- No two of the segments have the same name, and all names are of one kind. -/
structure Distinct (segments : List (Segment Name)) (kind : Name → Prop) : Prop where
  nodup : (names segments).Nodup
  kind : ∀ name ∈ names segments, kind name

namespace Distinct

variable {segments first second : List (Segment Name)} {kind kind₁ kind₂ : Name → Prop}

/-- Less may be said of the names. -/
theorem mono (h : Distinct segments kind₁) (hkind : ∀ name, kind₁ name → kind₂ name) :
    Distinct segments kind₂ := ⟨h.nodup, fun name hmem => hkind name (h.kind name hmem)⟩

theorem nil : Distinct ([] : List (Segment Name)) kind := ⟨List.nodup_nil, nofun⟩

/-- Two lists of names without repetition stay so together if they have nothing in common. -/
theorem append (h₁ : Distinct first kind₁) (h₂ : Distinct second kind₂)
    (apart : ∀ name, kind₁ name → ¬ kind₂ name) :
    Distinct (first ++ second) fun name => kind₁ name ∨ kind₂ name := by
  have hnames : names (first ++ second) = names first ++ names second := List.filterMap_append
  constructor
  · rw [hnames, List.nodup_append]
    refine ⟨h₁.nodup, h₂.nodup, ?_⟩
    rintro name hfirst _ hsecond rfl
    exact apart name (h₁.kind name hfirst) (h₂.kind name hsecond)
  · intro name hmem
    rw [hnames] at hmem
    exact (List.mem_append.mp hmem).imp (h₁.kind name) (h₂.kind name)

/-- A single name is not repeated. -/
theorem free (name : Name) (content : List UInt8) :
    Distinct [Segment.free name content] (· = name) :=
  ⟨List.pairwise_singleton _ name, fun _ hmem => List.mem_singleton.mp hmem⟩

/-- Bytes that stay as they are have no name. -/
theorem fixed_cons (h : Distinct segments kind) (content : List UInt8) :
    Distinct (fixed content :: segments) kind := ⟨h.nodup, h.kind⟩

/-- Putting names below an outer one keeps them apart. -/
theorem within (h : Distinct segments kind) {outer : Name → Outer}
    (injective : ∀ m n, outer m = outer n → m = n) :
    Distinct (segments.map (.within outer)) fun name => ∃ inner, outer inner = name := by
  have hnames : names (segments.map (.within outer)) = (names segments).map outer := by
    rw [names, names, List.filterMap_map, List.map_filterMap]
    rfl
  constructor
  · rw [hnames]
    exact List.Pairwise.map outer (fun m n hne heq => hne (injective m n heq)) h.nodup
  · intro name hmem
    rw [hnames] at hmem
    obtain ⟨inner, -, hname⟩ := List.mem_map.mp hmem
    exact ⟨inner, hname⟩

/-- Lists of names stay apart if each has names of a kind of its own. -/
theorem flatten {segments : Nat → α → List (Segment Name)} {kind : Nat → Name → Prop}
    (h : ∀ i a, Distinct (segments i a) (kind i))
    (apart : ∀ i j name, kind i name → kind j name → i = j) (items : List α) :
    Distinct (items.mapIdx segments).flatten fun name => ∃ i, kind i name := by
  induction items generalizing segments kind with
  | nil => exact nil
  | cons a items ih =>
    have hrest := ih (fun i => h (i + 1)) fun i j name hi hj =>
      Nat.succ_inj.mp (apart (i + 1) (j + 1) name hi hj)
    have hapart : ∀ name, kind 0 name → ¬ ∃ i, kind (i + 1) name := by
      rintro name hzero ⟨i, hi⟩
      nomatch apart 0 (i + 1) name hzero hi
    rw [List.mapIdx_cons, List.flatten_cons]
    refine ((h 0 a).append hrest hapart).mono ?_
    rintro name (hzero | ⟨i, hi⟩)
    · exact ⟨0, hzero⟩
    · exact ⟨i + 1, hi⟩

/-- The items of a list have different names if their names tell which item they are in. -/
theorem ofList {segments : Nat → α → List (Segment Name)} {kind : Nat → Name → Prop}
    (h : ∀ i a, Distinct (segments i a) (kind i))
    (apart : ∀ i j name, kind i name → kind j name → i = j) (items : List α) :
    Distinct (Segment.ofList segments items) fun name => ∃ i, kind i name :=
  (flatten h apart items).fixed_cons _

/-- Numbering the items keeps the names within each of them apart from those within the others. -/
theorem ofList_within {segments : α → List (Segment Name)} {outer : Nat → Name → Outer}
    (h : ∀ a, Distinct (segments a) kind)
    (injective : ∀ i j m n, outer i m = outer j n → i = j ∧ m = n) (items : List α) :
    Distinct (Segment.ofList (fun i a => (segments a).map (.within (outer i))) items)
      fun name => ∃ i inner, outer i inner = name := by
  refine ofList (fun i a => (h a).within fun m n heq => (injective i i m n heq).2) ?_ items
  rintro i j _ ⟨m, rfl⟩ ⟨n, heq⟩
  exact (injective j i n m heq).1.symm

end Distinct

end Segment

/-- Other bytes for those that have a name, as many as there are. -/
structure Overwriting (Name : Type) where
  replace : Name → List UInt8 → List UInt8
  length_replace : ∀ name content, (replace name content).length = content.length

namespace Overwriting

/-- What is overwritten in a part of a larger whole. -/
def within (f : Overwriting Outer) (outer : Name → Outer) : Overwriting Name where
  replace name := f.replace (outer name)
  length_replace name := f.length_replace (outer name)

/-- The bytes of a segment after overwriting. -/
def apply (f : Overwriting Name) (s : Segment Name) : List UInt8 :=
  match s.name with
  | none => s.content
  | some name => f.replace name s.content

/-- The bytes of segments after overwriting. -/
def contents (f : Overwriting Name) (segments : List (Segment Name)) : List UInt8 :=
  segments.flatMap f.apply

/-- The word that stands in the place of another. -/
def u16 (f : Overwriting Name) (name : Name) (old : UInt16) : UInt16 :=
  UInt16.ofNat (BigEndian.value (f.replace name (bytes 2 old.toNat)))

/-- Every named byte is overwritten by the same one. -/
def fill (byte : UInt8) : Overwriting Name where
  replace _ content := List.replicate content.length byte
  length_replace _ _ := List.length_replicate

/-- Overwriting keeps every segment as long as it is. -/
theorem length_apply (f : Overwriting Name) (s : Segment Name) :
    (f.apply s).length = s.content.length := by
  unfold apply
  split
  · rfl
  · exact f.length_replace _ _

/-- Overwriting changes no length. -/
theorem length_contents (f : Overwriting Name) (segments : List (Segment Name)) :
    (f.contents segments).length = (Segment.contents segments).length := by
  induction segments with
  | nil => rfl
  | cons s segments ih =>
    have hcons : f.contents (s :: segments) = f.apply s ++ f.contents segments := rfl
    have hcons' : Segment.contents (s :: segments) = s.content ++ Segment.contents segments := rfl
    rw [hcons, hcons', List.length_append, List.length_append, f.length_apply, ih]

/-- A segment below an outer name is overwritten as what the outer name makes of the overwriting. -/
theorem apply_within (f : Overwriting Outer) (outer : Name → Outer) (s : Segment Name) :
    f.apply (s.within outer) = (f.within outer).apply s := by
  obtain ⟨name, content⟩ := s
  cases name with
  | none => rfl
  | some name => rfl

/-- The new word is written as the bytes that were put there. -/
theorem bytes_u16 (f : Overwriting Name) (name : Name) (old : UInt16) :
    bytes 2 (f.u16 name old).toNat = f.replace name (bytes 2 old.toNat) := by
  have hlen : (f.replace name (bytes 2 old.toNat)).length = 2 := by
    rw [f.length_replace, BigEndian.length_bytes]
  have hlt := BigEndian.value_lt (f.replace name (bytes 2 old.toNat))
  have hbytes := BigEndian.bytes_value (f.replace name (bytes 2 old.toNat))
  rw [hlen] at hlt hbytes
  rw [u16, UInt16.toNat_ofNat_of_lt' hlt, hbytes]

end Overwriting

/-! ## Cuts of what is stored -/

/-- The segments are the stored bytes, and overwriting them gives the bytes of the changed value. -/
structure CutInto (segments : List (Segment Name)) (stored : List UInt8)
    (changed : Overwriting Name → List UInt8) : Prop where
  contents : Segment.contents segments = stored
  overwritten : ∀ f : Overwriting Name, f.contents segments = changed f

namespace CutInto

variable {segments first second : List (Segment Name)} {stored front back : List UInt8}
  {changed changed₁ changed₂ : Overwriting Name → List UInt8}

theorem nil : CutInto ([] : List (Segment Name)) [] fun _ => [] := ⟨rfl, fun _ => rfl⟩

/-- Two byte strings in a row are cut into the segments of the one and then those of the other. -/
theorem append (h₁ : CutInto first front changed₁) (h₂ : CutInto second back changed₂) :
    CutInto (first ++ second) (front ++ back) fun f => changed₁ f ++ changed₂ f where
  contents := by rw [← h₁.contents, ← h₂.contents]; exact List.flatMap_append
  overwritten f := by rw [← h₁.overwritten, ← h₂.overwritten]; exact List.flatMap_append

/-- Bytes that have no name stay as they are. -/
theorem fixed (content : List UInt8) :
    CutInto [(Segment.fixed content : Segment Name)] content fun _ => content where
  contents := List.flatMap_singleton ..
  overwritten _ := List.flatMap_singleton ..

/-- Bytes that have a name are replaced as the name says. -/
theorem free (name : Name) (content : List UInt8) :
    CutInto [Segment.free name content] content fun f => f.replace name content where
  contents := List.flatMap_singleton ..
  overwritten _ := List.flatMap_singleton ..

/-- A word is overwritten by a word. -/
theorem u16 (name : Name) (v : UInt16) :
    CutInto [Segment.free name (bytes 2 v.toNat)] (bytes 2 v.toNat)
      fun f => bytes 2 (f.u16 name v).toNat where
  contents := (free name _).contents
  overwritten f := by rw [(free name _).overwritten, f.bytes_u16]

/-- Below an outer name, the same bytes are cut into the same segments. -/
theorem within (h : CutInto segments stored changed) (outer : Name → Outer) :
    CutInto (segments.map (.within outer)) stored fun f => changed (f.within outer) where
  contents := by rw [← h.contents]; exact List.flatMap_map ..
  overwritten f := by
    rw [← h.overwritten, Overwriting.contents, List.flatMap_map]
    simp only [f.apply_within, Overwriting.contents]

/-- Items one behind the other are cut into their segments. -/
theorem flatten {stored : α → List UInt8} {segments : Nat → α → List (Segment Name)}
    {change : Overwriting Name → Nat → α → α}
    (h : ∀ i a, CutInto (segments i a) (stored a) fun f => stored (change f i a))
    (items : List α) :
    CutInto (items.mapIdx segments).flatten (items.flatMap stored)
      fun f => (items.mapIdx (change f)).flatMap stored := by
  induction items generalizing segments change with
  | nil => exact nil
  | cons a items ih =>
    simp only [List.mapIdx_cons, List.flatten_cons, List.flatMap_cons]
    exact (h 0 a).append (ih fun i => h (i + 1))

/-- So is a counted list. -/
theorem list {stored : α → List UInt8} {segments : Nat → α → List (Segment Name)}
    {change : Overwriting Name → Nat → α → α}
    (h : ∀ i a, CutInto (segments i a) (stored a) fun f => stored (change f i a))
    (items : List α) :
    CutInto (Segment.ofList segments items) (storedList stored items)
      fun f => storedList stored (items.mapIdx (change f)) := by
  simp only [storedList, List.length_mapIdx]
  exact (fixed (bytes 2 items.length)).append (flatten h items)

/-- A changed value takes as many bytes as before. -/
theorem length_eq (h : CutInto segments stored changed) (f : Overwriting Name) :
    (changed f).length = stored.length := by
  rw [← h.overwritten, ← h.contents, f.length_contents]

end CutInto

end JavaClass
