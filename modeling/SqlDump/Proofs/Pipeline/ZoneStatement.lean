import SqlDump.Pipeline.TimeZone
import SqlDump.Proofs.Guard.Reading
import SqlDump.Proofs.Statement.Concatenation
import SqlDump.Proofs.Text.Word

/-!
# The statement whose literal changes

What the time zone stage changes is one literal in a unit that does nothing but
set the time zone to `UTC`.  The literal stands in code, when the unit is lexed
from its start.
-/

namespace SqlDump

/-- `SET time_zone =` with the blanks behind it, in any letter case. -/
def IsZoneAssignment (text : Text) : Prop :=
  ∃ set gap zone beforeEquals behindEquals : Text,
    text = set ++ gap ++ zone ++ beforeEquals ++ '=' :: behindEquals ∧
      IsWord "SET".toList set ∧ IsWord "time_zone".toList zone ∧ gap ≠ [] ∧
      gap.isAllBlank = true ∧ beforeEquals.isAllBlank = true ∧
      behindEquals.isAllBlank = true

/-- `UTC` in any letter case, in single or in double quotes. -/
def IsUtcLiteral (text : Text) : Prop :=
  ∃ quote name, text = quote :: name ++ [quote] ∧
    (quote = singleQuote ∨ quote = doubleQuote) ∧ IsWord "UTC".toList name

def IsStatementEnd (text : Text) : Prop :=
  ∃ before semicolons behind : Text,
    text = before ++ semicolons ++ behind ∧ semicolons ≠ [] ∧
      semicolons.all (· == ';') = true ∧ before.isAllBlank = true ∧
      behind.isAllBlank = true

namespace TimeZone

private theorem afterAssignment?_spec {body value : Text}
    (found : afterAssignment? body = some value) :
    ∃ assignment, body = assignment ++ value ∧ IsZoneAssignment assignment := by
  simp only [afterAssignment?, Ddl.afterWordBlanks?, Option.bind_eq_bind,
    Option.bind_eq_some_iff, Option.some.injEq] at found
  obtain ⟨behindSet, ⟨afterSet, setFound, gapFound⟩, afterZone, zoneFound,
    afterEquals, equalsFound, rfl⟩ := found
  obtain ⟨set, bodyEq, isSet⟩ := afterWord?_spec setFound
  obtain ⟨gap, afterSetEq, gapNonempty, gapBlank⟩ := afterBlanks?_spec gapFound
  obtain ⟨zone, behindSetEq, isZone⟩ := afterWord?_spec zoneFound
  obtain ⟨beforeEquals, afterZoneEq, beforeBlank⟩ := trimStart_spec afterZone
  obtain ⟨behindEquals, afterEqualsEq, behindBlank⟩ :=
    trimStart_spec afterEquals
  have equalsEq := Text.after?_eq_some_iff.mp equalsFound
  refine ⟨set ++ gap ++ zone ++ beforeEquals ++ '=' :: behindEquals, ?_,
    set, gap, zone, beforeEquals, behindEquals, rfl, isSet, isZone, gapNonempty,
      gapBlank,
    beforeBlank, behindBlank⟩
  rw [bodyEq, afterSetEq, behindSetEq, afterZoneEq, equalsEq]
  conv => lhs; rw [afterEqualsEq]
  simp

private theorem afterZone?_spec {value rest : Text}
    (found : afterZone? value = some rest) :
    ∃ literal, value = literal ++ rest ∧ IsUtcLiteral literal := by
  unfold afterZone? at found
  split at found
  · simp at found
  · next quote text =>
      split at found
      · next isQuote =>
          simp only [Option.bind_eq_some_iff] at found
          obtain ⟨behindName, nameFound, quoteFound⟩ := found
          obtain ⟨name, textEq, isName⟩ := afterWord?_spec nameFound
          have quoteEq := Text.after?_eq_some_iff.mp quoteFound
          refine ⟨quote :: name ++ [quote], ?_, quote, name, rfl, isQuote,
            isName⟩
          rw [textEq, quoteEq]
          simp
      · simp at found

private theorem isStatementEnd_spec {text : Text}
    (ends : isStatementEnd text = true) :
    IsStatementEnd text := by
  obtain ⟨before, textEq, beforeBlank⟩ := trimStart_spec text
  unfold isStatementEnd at ends
  split at ends
  · next rest trimmed =>
      refine ⟨before, ';' :: rest.takeWhile (· == ';'),
        rest.dropWhile (· == ';'), ?_,
        List.cons_ne_nil _ _, ?_, beforeBlank, ends⟩
      · rw [List.append_assoc, List.cons_append,
          List.takeWhile_append_dropWhile, ← trimmed]
        exact textEq
      · simp [List.all_takeWhile]
  · simp at ends

theorem normalize?_spec {body normalized : Text}
    (changed : normalize? body = some normalized) :
    ∃ assignment literal ending, body = assignment ++ (literal ++ ending) ∧
      normalized = assignment ++ (offsetLiteral ++ ending) ∧
      IsZoneAssignment assignment ∧
      IsUtcLiteral literal ∧ IsStatementEnd ending := by
  simp only [normalize?, Option.bind_eq_bind, Option.bind_eq_some_iff]
    at changed
  obtain ⟨value, valueFound, rest, restFound, ends⟩ := changed
  split at ends
  · next isEnd =>
      simp only [Option.some.injEq] at ends
      obtain ⟨assignment, bodyEq, assigns⟩ := afterAssignment?_spec valueFound
      obtain ⟨literal, valueEq, isLiteral⟩ := afterZone?_spec restFound
      refine ⟨assignment, literal, rest, by rw [bodyEq, valueEq], ?_, assigns,
        isLiteral, isStatementEnd_spec isEnd⟩
      have kept : body.take (body.length - value.length) = assignment := by
        rw [bodyEq, List.length_append, Nat.add_sub_cancel]
        exact List.take_left' rfl
      rw [← ends, kept, List.append_assoc]
  · simp at ends

end TimeZone

/-- The words that set the zone hold no character that could begin a literal or
a comment. -/
theorem not_mem_openers_of_isWord {word text : Text} (isWord : IsWord word text)
    (plain : Lexer.openers.all (fun opener =>
      !(word.map foldLetter).contains opener) = true) :
    ∀ character ∈ text, character ∉ Lexer.openers := by
  have fixed : Lexer.openers.all (fun opener => foldLetter opener == opener) =
      true := by decide
  intro character member opener
  have folded : foldLetter character ∈ text.map foldLetter :=
    List.mem_map_of_mem member
  have same := List.all_eq_true.mp fixed character opener
  have absent := List.all_eq_true.mp plain character opener
  rw [beq_iff_eq] at same
  rw [isWord, same] at folded
  simp [folded] at absent

theorem not_mem_openers_of_isAllBlank {text : Text}
    (blank : text.isAllBlank = true) :
    ∀ character ∈ text, character ∉ Lexer.openers := by
  intro character member
  exact Lexer.not_mem_openers_of_isBlank
    (List.all_eq_true.mp blank character member)

private theorem not_mem_openers_of_isZoneAssignment {text : Text}
    (assigns : IsZoneAssignment text) :
    ∀ character ∈ text, character ∉ Lexer.openers := by
  obtain ⟨set, gap, zone, beforeEquals, behindEquals, rfl, isSet, isZone,
    _, gapBlank, beforeBlank, behindBlank⟩ := assigns
  intro character member
  simp only [List.mem_append, List.mem_cons] at member
  rcases member with (((inSet | inGap) | inZone) | inBefore) | rfl | inBehind
  · exact not_mem_openers_of_isWord isSet (by decide) character inSet
  · exact not_mem_openers_of_isAllBlank gapBlank character inGap
  · exact not_mem_openers_of_isWord isZone (by decide) character inZone
  · exact not_mem_openers_of_isAllBlank beforeBlank character inBefore
  · decide
  · exact not_mem_openers_of_isAllBlank behindBlank character inBehind

/-- The unit `text` behind `before` does nothing but set the time zone to `UTC`:
behind its lead the assignment begins a line, and the literal, in code, is all
that it assigns. -/
structure ZoneStatement (before text lead assignment literal ending : Text) :
    Prop where
  split : text = lead ++ (assignment ++ (literal ++ ending))
  leads : Lead lead (assignment ++ (literal ++ ending))
  beginsLine : beginsLine (before ++ lead) true = true
  assigns : IsZoneAssignment assignment
  isUtc : IsUtcLiteral literal
  ends : IsStatementEnd ending
  inCode : ∃ steps, Lexer.Reads {} text steps {} (literal ++ ending)

private theorem beginsLine_append {before lead : Text}
    (begins : beginsLine lead (endsLine before) = true) :
    beginsLine (before ++ lead) true = true := by
  unfold beginsLine at begins ⊢
  rw [List.reverse_append, List.dropWhile_append]
  cases padding : lead.reverse.dropWhile fun character => character == ' ' ||
    character == '\t' with
  | nil =>
      simp only [padding, List.isEmpty_nil, if_true] at begins ⊢
      unfold endsLine at begins
      rw [← List.head?_reverse] at begins
      cases reversed : before.reverse with
      | nil => rfl
      | cons last others =>
          simp only [reversed, List.head?_cons, beq_iff_eq] at begins
          simp [begins]
  | cons last others =>
      simp only [padding, List.isEmpty_cons, Bool.false_eq_true, if_false]
        at begins ⊢
      exact begins

namespace TimeZone

/-- The stage copies a unit, or it changes the literal of a zone statement. -/
theorem apply_spec (before : Text) (unit : StatementUnit)
    (state : PipelineState) (begins : unit.atLineStart = endsLine before) :
    apply unit.atLineStart state unit.text = (state, unit.text) ∨
      ∃ lead assignment literal ending,
        ZoneStatement before unit.text lead assignment literal ending ∧
        apply unit.atLineStart state unit.text =
          ({ state with
              counts := { state.counts with
                timeZonesNormalized := state.counts.timeZonesNormalized + 1 } },
            lead ++ (assignment ++ (offsetLiteral ++ ending))) := by
  obtain ⟨split, leads, read⟩ := splitStatement_spec unit.text
  unfold apply
  dsimp only
  split
  · next beginsLine =>
      split
      · next normalized changed =>
          obtain ⟨assignment, literal, ending, bodyEq, rfl, assigns,
            isUtc, ends⟩ :=
            normalize?_spec changed
          rw [bodyEq] at split leads read
          right
          refine ⟨(splitStatement unit.text).1, assignment, literal, ending, ?_,
            rfl⟩
          have nonempty : assignment ++ (literal ++ ending) ≠ [] := by
            obtain ⟨set, gap, zone, beforeEquals, behindEquals, rfl, _⟩ :=
              assigns
            simp
          obtain ⟨steps, reached⟩ := read nonempty
          obtain ⟨assignSteps, assigned⟩ :=
            Lexer.Reads.plains {} (literal ++ ending)
            rfl (not_mem_openers_of_isZoneAssignment assigns)
          have through := reached.trans assigned
          rw [← split] at through
          rw [begins] at beginsLine
          exact ⟨split, leads, beginsLine_append beginsLine, assigns, isUtc,
            ends, _, through⟩
      · exact .inl rfl
  · exact .inl rfl

end TimeZone

end SqlDump
