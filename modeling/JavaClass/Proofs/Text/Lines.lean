/-
  Texts made of lines.

  A text that is built line by line, behind what is there already, is the text of the list of its
  lines (`foldl_ofLines`), and texts of lines behind each other are the text of all of them.
-/

namespace JavaClass

/-- Lines as a text, each of them ended. -/
def ofLines : List String → String
  | [] => ""
  | line :: lines => line ++ "\n" ++ ofLines lines

theorem ofLines_append (front back : List String) :
    ofLines (front ++ back) = ofLines front ++ ofLines back := by
  induction front with
  | nil => exact String.empty_append.symm
  | cons line front ih => simp only [List.cons_append, ofLines, ih, String.append_assoc]

/-- Texts of lines, put behind each other, are the text of all the lines. -/
theorem intercalate_ofLines (sections : List (List String)) :
    "".intercalate (sections.map ofLines) = ofLines sections.flatten := by
  induction sections with
  | nil => rfl
  | cons lines sections ih =>
    rw [List.flatten_cons, ofLines_append, ← ih]
    cases sections with
    | nil => exact String.intercalate_singleton.trans String.append_empty.symm
    | cons next sections =>
      rw [List.map_cons, List.map_cons, String.intercalate_cons_cons, String.append_empty]

/-- Lines that are written one by one, behind what stands in front. -/
theorem foldl_ofLines {α : Type} {write : String → α → String} {line : α → String}
    (h : ∀ text a, write text a = text ++ (line a ++ "\n")) (start : String) (as : List α) :
    as.foldl write start = start ++ ofLines (as.map line) := by
  induction as generalizing start with
  | nil => exact String.append_empty.symm
  | cons a as ih =>
    rw [List.foldl_cons, ih, h, List.map_cons, ofLines]
    simp only [String.append_assoc]

end JavaClass
