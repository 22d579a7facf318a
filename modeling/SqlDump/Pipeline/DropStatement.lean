import SqlDump.Guard
import SqlDump.Pipeline.State
import SqlDump.Text.Letter

/-!
# Removing drop statements

Every statement whose first keyword is `DROP` goes, whether it stands in a guard
or not.  Comments and guards in front of it stay.
-/

namespace SqlDump

namespace DropStatement

def keyword : Text := ['D', 'R', 'O', 'P']

/-- The first statement or guard that drops something, with the text behind it,
and whether it is a guard.  Guards in front of it are passed over. -/
def find? (body : Text) : Option (Text × Bool) :=
  let (word, guarded) := firstKeyword body
  if Text.sameAsciiWord word keyword then some (body, guarded)
  else
    match _found : Guard.behind? body with
    | some rest => find? rest
    | none => none
termination_by body.length
decreasing_by exact Guard.length_of_behind? _found

def dropLineBreak (text : Text) : Text :=
  match text.dropWhile isPadding with
  | '\r' :: '\n' :: rest => rest
  | '\n' :: rest => rest
  | _ => text

def finalLineBreak (text : Text) : Text :=
  if Text.endsWith text ['\r', '\n'] then ['\r', '\n']
  else if Text.endsWith text ['\n'] then ['\n']
  else []

/-- What remains of the text from the dropped statement on.  A guard goes with
the terminators behind it, and with its line break if it had the line for
itself. -/
def remainder (body : Text) (guarded ownLine : Bool) : Text :=
  if guarded then
    match Guard.scan body with
    | .complete _ behind =>
        let rest := behind.dropWhile (· == ';')
        if ownLine then dropLineBreak rest else rest
    | _ => []
  else []

def suppress (lead body : Text) (guarded ownLine : Bool) : Text :=
  let rest := remainder body guarded ownLine
  Text.dropEndWhile isPadding lead ++
    if Text.isAllBlank rest then (if ownLine then [] else finalLineBreak body)
    else rest

def apply (atLineStart : Bool) (state : PipelineState) (text : Text) :
    PipelineState × Text :=
  match find? (text.drop (statementOffset text)) with
  | none => (state, text)
  | some (body, guarded) =>
      let lead := text.take (text.length - body.length)
      ({ state with
          counts := { state.counts with
            dropsSuppressed := state.counts.dropsSuppressed + 1 } },
        suppress lead body guarded (beginsLine lead atLineStart))

end DropStatement

end SqlDump
