/-
  The text of a byte string stored in a class file.

  Compilers write modified UTF-8; other producers write standard UTF-8, which agrees with it
  except for U+0000 and the characters above U+FFFF.  Both are accepted, the standard form
  first.  A byte string that mixes what only one of them allows belongs to neither and has no text.
-/
import JavaClass.Text.Modified

namespace JavaClass.Text

/-- The text of a stored byte string: standard UTF-8 if it is that, otherwise modified UTF-8. -/
def decode? (bytes : List UInt8) : Option String :=
  match String.fromUTF8? bytes.toByteArray with
  | some text => some text
  | none => (Modified.decode bytes).map String.ofList

end JavaClass.Text
