import SqlDump.Proofs.Lexer.Cut
import SqlDump.Proofs.Lexer.Waiting
import SqlDump.Proofs.Unwrap.Pieces

/-!
# Seams

Unwrapping joins texts that were lexed apart.  The copied characters keep their
lexical places in the text that leaves if and only if that text is in top-level
code at both ends of every copy.  A body that ends in a line comment, or a
marker that comes together at an edge, breaks this, and what follows is then
read as something else.
-/

namespace SqlDump

/-- The places of a stretch of a text that is lexed from its start. -/
def placesAt (text : Text) (start length : Nat) : List Lexer.Place :=
  ((({} : Lexer).places text).drop start).take length

/-- Every copied character is where it was, with regard to literals, comments
and guards. -/
def KeepsPlaces (pieces : List Piece) : Prop :=
  ∀ before text after, pieces = before ++ .copied text :: after →
    placesAt (results pieces) (results before).length text.length =
      placesAt (originals pieces) (originals before).length text.length

/-- Every copied character has the lexical class that it had. -/
def KeepsClasses (pieces : List Piece) : Prop :=
  ∀ before text after, pieces = before ++ .copied text :: after →
    (placesAt (results pieces) (results before).length text.length).map
      Lexer.Place.lexicalClass =
      (placesAt (originals pieces) (originals before).length text.length).map
        Lexer.Place.lexicalClass

/-- The text that leaves is in code at both ends of every copy. -/
def SeamsInCode (pieces : List Piece) : Prop :=
  ∀ before text after, pieces = before ++ .copied text :: after → text ≠ [] →
    ({} : Lexer).inCodeAt (results pieces) (results before).length = true ∧
      (after ≠ [] →
        ({} : Lexer).inCodeAt (results pieces)
          ((results before).length + text.length) = true)

/-- No copy begins with a literal, a comment or a guard. -/
def BeginsPlain (pieces : List Piece) : Prop :=
  ∀ before text after, pieces = before ++ .copied text :: after →
    ∀ place ∈
      (placesAt (originals pieces) (originals before).length text.length).head?,
      place = .code

section

variable {front rest : Text} {count : Nat}

theorem placesAt_of_inCodeAt
    (inCode : ({} : Lexer).inCodeAt (front ++ rest) front.length = true)
    (length : Nat) :
    placesAt (front ++ rest) front.length length =
      (({} : Lexer).places rest).take length := by
  rw [placesAt, Lexer.places_drop Lexer.proper_start inCode, List.drop_left]

theorem getElem?_placesAt {text : Text} {start length index : Nat}
    (within : index < length) :
    (placesAt text start length)[index]? =
      (({} : Lexer).places text)[start + index]? := by
  rw [placesAt, List.getElem?_take_of_lt within, List.getElem?_drop]

theorem inCodeAt_through
    (inCode : ({} : Lexer).inCodeAt (front ++ rest) front.length = true)
    (more : Nat) :
    ({} : Lexer).inCodeAt (front ++ rest) (front.length + more) =
      ({} : Lexer).inCodeAt rest more := by
  rw [Lexer.inCodeAt_add more Lexer.proper_start inCode, List.drop_left]

end

namespace Document

theorem CutsInCode.inCodeAt {before after : List Piece}
    (cuts : CutsInCode (before ++ after)) (more : after ≠ []) :
    ({} : Lexer).inCodeAt (originals before ++ originals after)
      (originals before).length =
      true := by
  induction before with
  | nil => exact Lexer.inCodeAt_zero _ _
  | cons piece before ih =>
      obtain ⟨atEnd, later⟩ := cuts
      have here : ({} : Lexer).inCodeAt (originals (piece :: (before ++ after)))
          piece.original.length = true :=
        atEnd (List.append_ne_nil_of_right_ne_nil before more)
      rw [originals_cons, originals_append] at here
      rw [originals_cons, List.length_append, List.append_assoc,
        inCodeAt_through here]
      exact ih later

theorem CutsInCode.behind {before after : List Piece}
    (cuts : CutsInCode (before ++ after)) :
    CutsInCode after := by
  induction before with
  | nil => exact cuts
  | cons piece before ih => exact ih cuts.2

end Document

section

variable {front text rest newFront newRest : Text}

private theorem placesAt_eq_of_seams
    (inFront : ({} : Lexer).inCodeAt (front ++ (text ++ rest)) front.length =
        true)
    (outFront : ({} : Lexer).inCodeAt (newFront ++ (text ++ newRest))
        newFront.length = true)
    (ends : (rest = [] ∧ newRest = []) ∨
      (({} : Lexer).inCodeAt (text ++ rest) text.length = true ∧
      ({} : Lexer).inCodeAt (text ++ newRest) text.length = true)) :
    placesAt (newFront ++ (text ++ newRest)) newFront.length text.length =
      placesAt (front ++ (text ++ rest)) front.length text.length := by
  rw [placesAt_of_inCodeAt inFront, placesAt_of_inCodeAt outFront]
  rcases ends with ⟨rfl, rfl⟩ | ⟨inEnd, outEnd⟩
  · rfl
  · exact Lexer.places_take_congr outEnd inEnd

/-- A character that begins a step in the one text begins a step in the other,
if its place is the same and the copy ends in code. -/
theorem inCodeAt_of_samePlace {head : Char} {tail : Text}
    {behind : LexicalClass}
    (here : (({} : Lexer).places (head :: tail ++ rest))[0]? =
        some ⟨.code, behind⟩)
    (there :
      (({} : Lexer).places
        (newFront ++ (head :: tail ++ newRest)))[newFront.length]? =
        some ⟨.code, behind⟩)
    (ends : rest = [] ∨ ({} : Lexer).inCodeAt (head :: tail ++ rest)
        (head :: tail).length = true) :
    ({} : Lexer).inCodeAt (newFront ++ (head :: tail ++ newRest))
      newFront.length = true := by
  rcases Lexer.inCodeAt_of_begins there with
      inCode | ⟨leaves, first, later, split, inside⟩
  · exact inCode
  · exfalso
    rw [List.drop_left, List.cons_append] at split
    obtain ⟨rfl, rfl⟩ := List.cons.inj split
    rw [List.cons_append] at here
    rcases inside with plain | ⟨rfl, noDash⟩
    · rw [Lexer.places_of_plain (tail ++ rest) rfl plain] at here
      rw [List.getElem?_cons_zero, Lexer.Place.code] at here
      exact leaves (Lexer.Place.mk.inj (Option.some.inj here)).2.symm
    · have code : ({} : Lexer).lex = .code := rfl
      rcases Lexer.dash_cases code (tail ++ rest) with
          ⟨one, same⟩ | ⟨two, -, dash⟩
      · rw [Lexer.getElem?_places_of_lt (by omega), same] at here
        exact leaves (Lexer.Place.mk.inj (Option.some.inj here)).2.symm
      · cases tail with
        | cons second tail =>
            exact noDash dash
        | nil =>
            rcases ends with rfl | inEnd
            · simp at dash
            · obtain ⟨-, one, -⟩ := Lexer.inCodeAt_dash code inEnd
              exact absurd (one.symm.trans two) (by decide)

/-- A copy that ends in code ends in code in the other text, if the last place
is the same. -/
theorem inCodeAt_of_sameEnd {count : Nat} (last : count + 1 = text.length)
    (inEnd : ({} : Lexer).inCodeAt (text ++ rest) text.length = true)
    (same :
      (({} : Lexer).places (newFront ++ (text ++ newRest)))[newFront.length +
      count]? = (({} : Lexer).places (text ++ rest))[count]?) :
    ({} : Lexer).inCodeAt (newFront ++ (text ++ newRest))
      (newFront.length + text.length) =
      true := by
  have within : count < text.length := by omega
  rw [← last] at inEnd
  obtain ⟨class_, place, noStar⟩ :=
    Lexer.ends_of_inCodeAt (by rw [List.length_append]; omega) inEnd
  rw [place] at same
  rcases Lexer.inCodeAt_of_ends same with inCode | ⟨star, nested⟩
  · rwa [Nat.add_assoc, last] at inCode
  · rw [List.getElem?_append_right (by omega), Nat.add_sub_cancel_left,
      List.getElem?_append_left within] at star
    rw [List.getElem?_append_left within] at noStar
    rw [noStar star] at nested
    exact absurd nested Bool.false_ne_true

/-- A copy that ends in code and begins in code in the other text ends in code
there, if a last place of code is kept. -/
theorem inCodeAt_of_sameCode (positive : 0 < text.length)
    (inEnd : ({} : Lexer).inCodeAt (text ++ rest) text.length = true)
    (outFront : ({} : Lexer).inCodeAt (newFront ++ (text ++ newRest))
        newFront.length = true)
    (sameCode : (({} : Lexer).places (text ++ rest))[text.length - 1]? =
        some .code →
      (({} : Lexer).places (newFront ++ (text ++ newRest)))[newFront.length +
      (text.length - 1)]? = some .code) :
    ({} : Lexer).inCodeAt (newFront ++ (text ++ newRest))
      (newFront.length + text.length) =
      true := by
  have fits : text.length ≤ (({} : Lexer).places (text ++ rest)).length := by
    rw [Lexer.length_places, List.length_append]
    omega
  have lastPlace :
      ((({} : Lexer).places (text ++ rest)).take text.length).getLast? =
        (({} : Lexer).places (text ++ rest))[text.length - 1]? := by
    rw [List.getLast?_eq_getElem?, List.length_take, Nat.min_eq_left fits,
      List.getElem?_take_of_lt (by omega)]
  by_cases code : (({} : Lexer).places (text ++ rest))[text.length - 1]? =
    some .code
  · exact inCodeAt_of_sameEnd (Nat.sub_add_cancel positive) inEnd
      ((sameCode code).trans code.symm)
  · rw [inCodeAt_through outFront]
    exact Lexer.inCodeAt_of_last inEnd (by rwa [lastPlace])

theorem Lexer.Place.eq_code {place : Lexer.Place}
    (code : place.lexicalClass = .code) :
    place = .code := by
  obtain ⟨front, behind⟩ := place
  unfold lexicalClass at code
  split at code
  · next frontCode =>
      simp only at frontCode code
      subst frontCode code
      rfl
  · next frontOther => exact absurd code frontOther

/-- Only in code does the class of a character determine its place. -/
theorem getElem?_of_sameClass {first second : List Lexer.Place} {count : Nat}
    (same : first.map Lexer.Place.lexicalClass =
        second.map Lexer.Place.lexicalClass)
    (code : second[count]? = some .code) : first[count]? = some .code := by
  have sameClass := congrArg (·[count]?) same
  simp only [List.getElem?_map, code] at sameClass
  obtain ⟨place, found, codeClass⟩ := Option.map_eq_some_iff.mp sameClass
  rw [found, Lexer.Place.eq_code codeClass]

end

section

variable {pieces before after : List Piece} {text : Text}

/-- In the text that is unwrapped, a copy begins in code, and it ends in code or
with the text. -/
theorem copy_inCode (cuts : Document.CutsInCode pieces)
    (split : pieces = before ++ .copied text :: after) :
    originals pieces = originals before ++ (text ++ originals after) ∧
      ({} : Lexer).inCodeAt (originals before ++ (text ++ originals after))
        (originals before).length = true ∧
      (after ≠ [] → ({} : Lexer).inCodeAt (text ++ originals after)
        text.length = true) := by
  subst split
  refine ⟨by rw [originals_append, originals_cons]; rfl, ?_, ?_⟩
  · exact cuts.inCodeAt (List.cons_ne_nil _ _)
  · exact cuts.behind.1

theorem results_split (split : pieces = before ++ .copied text :: after) :
    results pieces = results before ++ (text ++ results after) := by
  rw [split, results_append, results_cons]
  rfl

theorem keepsPlaces_of_seamsInCode (cuts : Document.CutsInCode pieces)
    (seams : SeamsInCode pieces) : KeepsPlaces pieces := by
  intro before text after split
  by_cases empty : text = []
  · subst empty
    rfl
  · obtain ⟨originalEq, inFront, inEnd⟩ := copy_inCode cuts split
    obtain ⟨outFront, outEnd⟩ := seams before text after split empty
    rw [results_split split] at outFront outEnd ⊢
    rw [originalEq]
    apply placesAt_eq_of_seams inFront outFront
    by_cases last : after = []
    · subst last
      exact .inl ⟨rfl, rfl⟩
    · have outEnd := outEnd last
      rw [inCodeAt_through outFront] at outEnd
      exact .inr ⟨inEnd last, outEnd⟩

private theorem seamsInCode_of_keepsPlaces (cuts : Document.CutsInCode pieces)
    (keeps : KeepsPlaces pieces) : SeamsInCode pieces := by
  intro before text after split nonempty
  obtain ⟨originalEq, inFront, inEnd⟩ := copy_inCode cuts split
  have same := keeps before text after split
  rw [results_split split] at same ⊢
  rw [originalEq, placesAt_of_inCodeAt inFront] at same
  have samePlace (count : Nat) (within : count < text.length) :
      (({} : Lexer).places
        (results before ++ (text ++ results after)))[(results before).length +
          count]? =
        (({} : Lexer).places (text ++ originals after))[count]? := by
    rw [← getElem?_placesAt within, same, List.getElem?_take_of_lt within]
  constructor
  · cases text with
    | nil => exact absurd rfl nonempty
    | cons head tail =>
        have here := samePlace 0 (Nat.succ_pos _)
        have progress := ({} : Lexer).taken_pos head (tail ++ originals after)
        obtain ⟨behind, begins⟩ : ∃ behind,
            (({} : Lexer).places (head :: tail ++ originals after))[0]? =
              some ⟨.code, behind⟩ := by
          rw [List.cons_append, Lexer.getElem?_places_of_lt progress]
          exact ⟨_, rfl⟩
        rw [begins] at here
        apply inCodeAt_of_samePlace begins here
        by_cases last : after = []
        · subst last
          exact .inl rfl
        · exact .inr (inEnd last)
  · intro more
    have positive := List.length_pos_iff.mpr nonempty
    exact inCodeAt_of_sameEnd (Nat.sub_add_cancel positive) (inEnd more)
      (samePlace _ (by omega))

private theorem keepsClasses_of_keepsPlaces (keeps : KeepsPlaces pieces) :
    KeepsClasses pieces := by
  intro before text after split
  rw [keeps before text after split]

private theorem seamsInCode_of_keepsClasses (cuts : Document.CutsInCode pieces)
    (plain : BeginsPlain pieces) (keeps : KeepsClasses pieces) :
    SeamsInCode pieces := by
  intro before text after split nonempty
  obtain ⟨originalEq, inFront, inEnd⟩ := copy_inCode cuts split
  have same := keeps before text after split
  have begins := plain before text after split
  have positive := List.length_pos_iff.mpr nonempty
  rw [results_split split] at same ⊢
  rw [originalEq, placesAt_of_inCodeAt inFront] at same begins
  have sameCode (count : Nat) (within : count < text.length)
      (code : (({} : Lexer).places (text ++ originals after))[count]? =
          some .code) :
      (({} : Lexer).places
        (results before ++ (text ++ results after)))[(results before).length +
          count]? = some .code := by
    rw [← getElem?_placesAt within]
    exact getElem?_of_sameClass same (by rwa [List.getElem?_take_of_lt within])
  have outFront :
      ({} : Lexer).inCodeAt (results before ++ (text ++ results after))
      (results before).length = true := by
    obtain ⟨first, firstEq⟩ : ∃ first,
        (({} : Lexer).places (text ++ originals after))[0]? = some first :=
      ⟨_, List.getElem?_eq_getElem
        (by rw [Lexer.length_places, List.length_append]; omega)⟩
    have firstCode : first = .code := by
      apply begins first
      rw [List.head?_eq_getElem?, List.getElem?_take_of_lt positive, firstEq]
      rfl
    rcases Lexer.inCodeAt_of_begins (sameCode 0 positive (firstCode ▸ firstEq))
      with
      inCode | ⟨leaves, -⟩
    · exact inCode
    · exact absurd rfl leaves
  refine ⟨outFront, fun more => ?_⟩
  exact inCodeAt_of_sameCode positive (inEnd more) outFront
    (sameCode _ (by omega))

end

/-- A text is unwrapped piece by piece.  What is copied keeps its lexical places
exactly if what leaves is in code at both ends of every copy.  It keeps its
lexical classes then, and only then if every copy begins in plain code. -/
theorem unwrap_keepsPlaces_iff (threshold : Nat) (collapse : Collapse)
    (text : Text) :
    let pieces := (documentOf text).pieces threshold collapse
    originals pieces = text ∧
      (Unwrapper.unwrap { threshold := threshold, collapse := collapse }
        (segmentsOf text)).2 = results pieces ∧
      (KeepsPlaces pieces ↔ SeamsInCode pieces) ∧
      (SeamsInCode pieces → KeepsClasses pieces) ∧
      (BeginsPlain pieces → (KeepsClasses pieces ↔ SeamsInCode pieces)) := by
  intro pieces
  have cuts : Document.CutsInCode pieces := (lexed_documentOf text).cutsInCode
  have keepsClasses (seams : SeamsInCode pieces) : KeepsClasses pieces :=
    keepsClasses_of_keepsPlaces (keepsPlaces_of_seamsInCode cuts seams)
  refine ⟨?_, unwrap_segmentsOf threshold collapse text, ?_, keepsClasses,
    fun plain => ?_⟩
  · rw [Document.originals_pieces, text_documentOf]
  · exact ⟨seamsInCode_of_keepsPlaces cuts, keepsPlaces_of_seamsInCode cuts⟩
  · exact ⟨seamsInCode_of_keepsClasses cuts plain, keepsClasses⟩

/-- A statement that goes on behind a guard whose text ends in a line
comment. -/
def noteDump : Text := "/*!40101 SET a=1 -- n */, b=2;\nSET c=3;\n".toList

theorem unwrap_reclassifies :
    ¬KeepsClasses ((documentOf noteDump).pieces defaultThreshold .any) := by
  have split : (documentOf noteDump).pieces defaultThreshold .any =
      [.copied [],
        .replaced "/*!40101 SET a=1 -- n */".toList "SET a=1 -- n".toList] ++
        .copied ", b=2;\nSET c=3;\n".toList :: [] := by decide +kernel
  intro keeps
  have same := keeps _ _ _ split
  rw [split] at same
  revert same
  decide +kernel

end SqlDump
