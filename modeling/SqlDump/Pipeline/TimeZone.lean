import SqlDump.Guard
import SqlDump.Pipeline.State
import SqlDump.Ddl

/-!
# Normalising the time zone

Servers without time zone tables refuse the named zone, so a statement that does
nothing but set the time zone to `UTC` gets the equivalent offset.
-/

namespace SqlDump

namespace TimeZone

def offsetLiteral : Text := ['\x27', '+', '0', '0', ':', '0', '0', '\x27']

/-- The rest behind the words that set the time zone, through the blanks after
the equals sign. -/
def afterAssignment? (body : Text) : Option Text := do
  let rest ← Ddl.afterWordBlanks? "SET".toList body
  let rest ← Text.afterWord? "time_zone".toList rest
  let rest ← Text.after? ['='] rest.trimStart
  some rest.trimStart

def afterZone? : Text → Option Text
  | [] => none
  | quote :: text =>
      if quote = singleQuote ∨ quote = doubleQuote then
        (Text.afterWord? "UTC".toList text).bind (Text.after? [quote])
      else none

/-- Blanks, terminators and blanks. -/
def isStatementEnd (text : Text) : Bool :=
  match text.trimStart with
  | ';' :: rest => Text.isAllBlank (rest.dropWhile (· == ';'))
  | _ => false

def normalize? (body : Text) : Option Text := do
  let value ← afterAssignment? body
  let rest ← afterZone? value
  if isStatementEnd rest then
    some (body.take (body.length - value.length) ++ offsetLiteral ++ rest)
  else none

def apply (atLineStart : Bool) (state : PipelineState) (text : Text) :
    PipelineState × Text :=
  let (lead, body) := splitStatement text
  if beginsLine lead atLineStart then
    match normalize? body with
    | some normalized =>
        ({ state with
            counts := { state.counts with
              timeZonesNormalized := state.counts.timeZonesNormalized + 1 } },
          lead ++ normalized)
    | none => (state, text)
  else (state, text)

end TimeZone

end SqlDump
