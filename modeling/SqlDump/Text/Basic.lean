/-!
# Texts

A text is the list of its characters, and the rest of a reading is the list of
the characters not yet read.
-/

namespace SqlDump

abbrev Text := List Char

namespace Text

/-- The part behind `head`, if the text begins with `head`. -/
def after? : Text → Text → Option Text
  | [], text => some text
  | _ :: _, [] => none
  | wanted :: head, found :: text =>
      if wanted = found then after? head text else none

def endsWith (text ending : Text) : Bool :=
  ending.isSuffixOf text

def dropEndWhile (drops : Char → Bool) (text : Text) : Text :=
  (text.reverse.dropWhile drops).reverse

/-- The words of `pieces` with `separator` between neighbours. -/
def join (separator : Text) : List Text → Text
  | [] => []
  | [piece] => piece
  | piece :: pieces => piece ++ separator ++ join separator pieces

def ofNat (number : Nat) : Text :=
  (Nat.repr number).toList

def padStart (width : Nat) (text : Text) : Text :=
  List.replicate (width - text.length) ' ' ++ text

theorem after?_eq_some_iff {head text rest : Text} :
    after? head text = some rest ↔ text = head ++ rest := by
  induction head generalizing text with
  | nil => simp [after?]
  | cons wanted head ih =>
      cases text with
      | nil => simp [after?]
      | cons found text =>
          by_cases same : wanted = found
          · subst found
            simp [after?, ih]
          · simp [after?, same, Ne.symm same]

end Text

end SqlDump
