import SqlDump.Ddl
import SqlDump.Proofs.Lexer.Seam
import SqlDump.Proofs.Pipeline.ZoneStatement

/-!
# What a statement reads of its table

The words and names in front of a column list have no open literal and no open
comment.  So behind the name of its table a statement is in code, and what is
left is the end of the statement.
-/

namespace SqlDump

namespace Ddl

theorem afterWordBlanks?_of_ne {head wanted : Char} {word tail : Text}
    (other : foldLetter head ≠ foldLetter wanted) :
    afterWordBlanks? (wanted :: word) (head :: tail) = none := by
  rw [afterWordBlanks?, afterWord?_of_ne other]
  rfl

/-- From code the text is read to code. -/
def ReadsTo (text rest : Text) : Prop :=
  ∃ steps, Lexer.Reads {} text steps {} rest

variable {text middle word name rest : Text} {create : CreateTable}

theorem ReadsTo.refl (text : Text) : ReadsTo text text := ⟨[], .done _ _⟩

theorem ReadsTo.trans (first : ReadsTo text middle)
    (second : ReadsTo middle rest) :
    ReadsTo text rest := by
  obtain ⟨steps, reads⟩ := first
  obtain ⟨later, readsOn⟩ := second
  exact ⟨steps ++ later, reads.trans readsOn⟩

theorem ReadsTo.suffix (reads : ReadsTo text rest) : rest <:+ text := by
  obtain ⟨steps, reads⟩ := reads
  obtain ⟨piece, split⟩ := reads.suffix
  exact ⟨piece, split.symm⟩

theorem readsTo_plain {piece : Text} (rest : Text)
    (plain : ∀ character ∈ piece, character ∉ Lexer.openers) :
    ReadsTo (piece ++ rest) rest :=
  Lexer.Reads.plains {} rest rfl plain

theorem readsTo_afterWord? (found : Text.afterWord? word text = some rest)
    (plain : Lexer.openers.all (fun opener =>
      !(word.map foldLetter).contains opener) = true) :
    ReadsTo text rest := by
  obtain ⟨read, rfl, isWord⟩ := afterWord?_spec found
  exact readsTo_plain rest (not_mem_openers_of_isWord isWord plain)

theorem readsTo_trimStart (text : Text) : ReadsTo text text.trimStart := by
  obtain ⟨blanks, split, blank⟩ := trimStart_spec text
  have reads :=
    readsTo_plain text.trimStart (not_mem_openers_of_isAllBlank blank)
  rwa [← split] at reads

theorem readsTo_afterBlanks? (found : Text.afterBlanks? text = some rest) :
    ReadsTo text rest := by
  obtain ⟨blanks, rfl, -, blank⟩ := afterBlanks?_spec found
  exact readsTo_plain rest (not_mem_openers_of_isAllBlank blank)

theorem readsTo_afterWordBlanks?
    (found : afterWordBlanks? word text = some rest)
    (plain : Lexer.openers.all (fun opener =>
      !(word.map foldLetter).contains opener) = true) :
    ReadsTo text rest := by
  obtain ⟨middle, wordFound, blanksFound⟩ := Option.bind_eq_some_iff.mp found
  exact (readsTo_afterWord? wordFound plain).trans
    (readsTo_afterBlanks? blanksFound)

private theorem readsTo_afterCreateTable?
    (found : afterCreateTable? text = some rest) :
    ReadsTo text rest := by
  obtain ⟨behindCreate, createFound, found⟩ := Option.bind_eq_some_iff.mp found
  refine (readsTo_afterWordBlanks? createFound (by decide)).trans ?_
  have tableFound := fun middle (temporary : ReadsTo behindCreate middle)
      (found : Text.afterWord? "TABLE".toList middle = some rest) =>
    temporary.trans (readsTo_afterWord? found (by decide))
  dsimp only at found
  cases temporary : afterWordBlanks? "TEMPORARY".toList behindCreate with
  | none =>
      rw [temporary, Option.getD_none] at found
      exact tableFound _ (.refl _) found
  | some behind =>
      rw [temporary, Option.getD_some] at found
      exact tableFound _ (readsTo_afterWordBlanks? temporary (by decide)) found

private theorem readsTo_afterIfNotExists?
    (found : afterIfNotExists? text = some rest) :
    ReadsTo text rest := by
  obtain ⟨behindIf, ifFound, found⟩ := Option.bind_eq_some_iff.mp found
  obtain ⟨behindNot, notFound, found⟩ := Option.bind_eq_some_iff.mp found
  exact (readsTo_afterWordBlanks? ifFound (by decide)).trans
    ((readsTo_afterWordBlanks? notFound (by decide)).trans
      (readsTo_afterWordBlanks? found (by decide)))

private theorem readsTo_quoted (inner behind : Text)
    (noQuote : backtick ∉ inner) :
    ReadsTo (backtick :: (inner ++ backtick :: behind)) behind := by
  have opening :
      ({} : Lexer).step true (backtick :: (inner ++ backtick :: behind)) =
        (.skip 1, { lex := .quoted backtick }) := rfl
  have closing :
      ({ lex := .quoted backtick } : Lexer).step true (backtick :: behind) =
        (.skip 1, {}) := rfl
  have opens := Lexer.Reads.of_decided opening (by decide)
  have closes := Lexer.Reads.of_decided closing (by decide)
  have name : ∃ steps,
      Lexer.Reads { lex := .quoted backtick } (inner ++ backtick :: behind)
      steps { lex := .quoted backtick } (backtick :: behind) := by
    clear opening opens
    induction inner with
    | nil => exact ⟨[], .done _ _⟩
    | cons head tail ih =>
        simp only [List.mem_cons, not_or] at noQuote
        obtain ⟨steps, reads⟩ := ih noQuote.2
        have stepEq : ({ lex := .quoted backtick } : Lexer).step true
            (head :: (tail ++ backtick :: behind)) =
              (.skip 1, { lex := .quoted backtick }) := by
          simp [Lexer.step, Ne.symm noQuote.1]
        have one := Lexer.Reads.of_decided stepEq (by simp)
        exact ⟨_, one.trans reads⟩
  obtain ⟨steps, reads⟩ := name
  exact ⟨_, (opens.trans reads).trans closes⟩

private theorem quotedName?_spec
    (found : quotedName? text = some (name, rest)) :
    text = backtick :: (name ++ backtick :: rest) ∧ backtick ∉ name := by
  unfold quotedName? at found
  split at found
  · next inner =>
      have parts : inner.takeWhile (· != '\x60') ++
          inner.dropWhile (· != '\x60') = inner :=
        List.takeWhile_append_dropWhile
      split at found
      · next head word other behind taken dropped =>
          obtain ⟨rfl, rfl⟩ := Prod.mk.inj (Option.some.inj found)
          have last := List.head?_dropWhile_not (· != '\x60') inner
          rw [dropped] at last
          obtain rfl : other = '\x60' := by simpa using last
          refine ⟨?_, fun member => ?_⟩
          · rw [← parts, taken, dropped]
            rfl
          · rw [← taken] at member
            have noQuote := List.all_eq_true.mp List.all_takeWhile _ member
            simp [backtick] at noQuote
      · simp at found
  · simp at found

theorem readsTo_name? (found : name? isWord text = some (name, rest)) :
    ReadsTo text rest := by
  rcases Option.or_eq_some_iff.mp found with quoted | ⟨-, plain⟩
  · obtain ⟨rfl, noQuote⟩ := quotedName?_spec quoted
    exact readsTo_quoted name rest noQuote
  · unfold plainName? at plain
    split at plain
    · simp at plain
    · next head word taken =>
        obtain ⟨rfl, rfl⟩ := Prod.mk.inj (Option.some.inj plain)
        have parts : text.takeWhile isWord ++ text.dropWhile isWord = text :=
          List.takeWhile_append_dropWhile
        have reads : ReadsTo (text.takeWhile isWord ++ text.dropWhile isWord)
            (text.dropWhile isWord) :=
          readsTo_plain _ fun character member opener =>
            Bool.false_ne_true
              ((Lexer.not_isWord_of_mem_openers opener).symm.trans
              (List.all_eq_true.mp List.all_takeWhile _ member))
        rwa [parts] at reads

theorem readsTo_qualified? (found : qualified? text = some (name, rest)) :
    ReadsTo text rest := by
  unfold qualified? at found
  split at found
  · next dotted trimmed =>
      have plain : ∀ character ∈ ['.'], character ∉ Lexer.openers := by
        intro character member
        rw [List.mem_singleton.mp member]
        decide
      have dot : ReadsTo ('.' :: dotted) dotted := readsTo_plain dotted plain
      refine (readsTo_trimStart text).trans ?_
      rw [trimmed]
      exact dot.trans ((readsTo_trimStart dotted).trans (readsTo_name? found))
  · simp at found

theorem readsTo_tableName? (found : tableName? text = some create) :
    ReadsTo text create.rest := by
  obtain ⟨⟨first, rest⟩, firstFound, named⟩ := Option.bind_eq_some_iff.mp found
  refine (readsTo_name? firstFound).trans ?_
  dsimp only at named
  split at named
  · next table behind qualified =>
      obtain rfl := Option.some.inj named
      exact readsTo_qualified? qualified
  · obtain rfl := Option.some.inj named
    exact .refl _

/-- Behind the name of its table a statement is in code. -/
theorem readsTo_createTable? (found : createTable? text = some create) :
    ReadsTo text create.rest := by
  obtain ⟨named, tableFound, found⟩ := Option.bind_eq_some_iff.mp found
  obtain ⟨behindTable, createFound, blanksFound⟩ :=
    Option.bind_eq_some_iff.mp tableFound
  have reads := (readsTo_afterCreateTable? createFound).trans
    (readsTo_afterBlanks? blanksFound)
  refine reads.trans ?_
  rcases Option.or_eq_some_iff.mp found with existing | ⟨-, plainName⟩
  · obtain ⟨behind, words, nameFound⟩ := Option.bind_eq_some_iff.mp existing
    exact (readsTo_afterIfNotExists? words).trans (readsTo_tableName? nameFound)
  · exact readsTo_tableName? plainName

end Ddl

end SqlDump
