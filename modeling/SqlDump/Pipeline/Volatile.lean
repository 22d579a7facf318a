import SqlDump.Ddl
import SqlDump.Guard
import SqlDump.Pipeline.State
import SqlDump.Text.Digit

/-!
# Removing volatile values

Two exports of one schema differ in the counters of their tables and in the time
of the export.  Counters in the code of `CREATE TABLE` statements are set to
zero, and the comment that ends an export loses its time.
-/

namespace SqlDump

namespace Volatile

def completedComment : Text := "-- Dump completed".toList

def zeroCounter : Text := "AUTO_INCREMENT=0".toList

def afterCounter? (text : Text) : Option Text := do
  let rest ← Text.afterWord? "AUTO_INCREMENT".toList text
  let rest ← Text.after? ['='] rest.trimStart
  match rest.trimStart with
  | [] => none
  | digit :: more =>
      if isDecimalDigit digit then some (more.dropWhile isDecimalDigit)
      else none

theorem length_dropWhile_le (drops : Char → Bool) (text : Text) :
    (text.dropWhile drops).length ≤ text.length :=
  (List.dropWhile_sublist drops).length_le

theorem length_afterWord?_le {word text rest : Text}
    (found : Text.afterWord? word text = some rest) :
    rest.length ≤ text.length := by
  fun_induction Text.afterWord? word text with
  | case1 => simp_all
  | case2 => simp at found
  | case3 wanted word head text same ih =>
      have shorter := ih found
      simp only [List.length_cons]
      omega
  | case4 => simp at found

theorem length_afterCounter?_lt {text rest : Text}
    (found : afterCounter? text = some rest) : rest.length < text.length := by
  unfold afterCounter? at found
  simp only [Option.bind_eq_bind, Option.bind_eq_some_iff] at found
  obtain ⟨behindWord, wordFound, behindEquals, equalsFound, digitsFound⟩ :=
    found
  have wordShorter := length_afterWord?_le wordFound
  have equalsShorter :=
    congrArg List.length (Text.after?_eq_some_iff.mp equalsFound)
  have blanksShorter := length_dropWhile_le isBlank behindWord
  have laterShorter := length_dropWhile_le isBlank behindEquals
  simp only [Text.trimStart, List.length_append, List.length_cons,
    List.length_nil] at *
  split at digitsFound
  · simp at digitsFound
  · next digit more digits =>
      split at digitsFound
      · have moreShorter := length_dropWhile_le isDecimalDigit more
        simp only [Option.some.injEq] at digitsFound
        rw [digits, List.length_cons] at laterShorter
        rw [← digitsFound]
        omega
      · simp at digitsFound

/-- Set every counter that begins in top-level code to zero. -/
def resetCounters (lexer : Lexer) (before : Option Char) : Text → Text
  | [] => []
  | head :: tail =>
      match _counter :
          (if lexer.atTopLevel && endsWord before then
            afterCounter? (head :: tail) else none) with
      | some rest => zeroCounter ++ resetCounters lexer (some '0') rest
      | none =>
          let taken := lexer.taken (head :: tail)
          (head :: tail).take taken ++
            resetCounters (lexer.next (head :: tail))
              ((head :: tail).take taken).getLast?
              ((head :: tail).drop taken)
termination_by text => text.length
decreasing_by
  · have counter := _counter
    split at counter
    · exact length_afterCounter?_lt counter
    · simp at counter
  · exact lexer.length_drop_taken_lt head tail

/-- Strip the time from every closing comment that begins a line. -/
def stripTimes (atLineStart : Bool) : Text → Text
  | [] => []
  | head :: tail =>
      match _comment :
          (if atLineStart then
            Text.after? (completedComment ++ " on ".toList) (head :: tail)
          else none) with
      | some rest =>
          completedComment ++
            stripTimes false (rest.dropWhile fun character =>
              character != '\r' && character != '\n')
      | none => head :: stripTimes (head == '\n') tail
termination_by text => text.length
decreasing_by
  · have comment := _comment
    split at comment
    · have shorter := congrArg List.length (Text.after?_eq_some_iff.mp comment)
      have dropped := length_dropWhile_le
        (fun character => character != '\r' && character != '\n') rest
      have positive : 0 < completedComment.length := by decide
      simp only [List.length_append] at shorter
      omega
    · simp at comment
  · simp

def apply (state : PipelineState) (text : Text) : PipelineState × Text :=
  let (lead, body) := splitStatement text
  let newLead := stripTimes true lead
  let newBody := if Ddl.isCreateTable body then resetCounters {} none body
    else body
  let changed :=
    (if newLead = lead then 0 else 1) + (if newBody = body then 0 else 1)
  ({ state with
      counts := { state.counts with
        valuesSanitized := state.counts.valuesSanitized + changed } },
    newLead ++ newBody)

end Volatile

end SqlDump
