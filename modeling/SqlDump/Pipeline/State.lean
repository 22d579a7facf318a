import SqlDump.Catalog
import SqlDump.Warning

/-!
# State of a pipeline

What the stages of a pipeline share and carry from one unit to the next.
-/

namespace SqlDump

structure StageCounts where
  tablesAugmented : Nat := 0
  timeZonesNormalized : Nat := 0
  dropsSuppressed : Nat := 0
  valuesSanitized : Nat := 0
deriving DecidableEq, Repr

structure PipelineState where
  catalog : Catalog := {}
  /-- The schema of the last `USE`, or the one the run began with. -/
  schema : Option Text := none
  /-- Views that were dropped; the next table of each name is the placeholder
  that the dump creates ahead of the view. -/
  placeholders : List Text := []
  log : WarningLog := {}
  counts : StageCounts := {}
deriving DecidableEq, Repr

namespace PipelineState

def warn (state : PipelineState) (warning : Warning) : PipelineState :=
  { state with log := state.log.add warning }

def markPlaceholder (state : PipelineState) (view : Text) : PipelineState :=
  if view ∈ state.placeholders then state
  else { state with placeholders := state.placeholders ++ [view] }

def dropPlaceholder (state : PipelineState) (view : Text) : PipelineState :=
  { state with placeholders := state.placeholders.filter (· != view) }

end PipelineState

/-- The first token behind `lead` begins its line, apart from spaces and tabs;
`atLineStart` says whether `lead` itself begins one. -/
def beginsLine (lead : Text) (atLineStart : Bool) : Bool :=
  match (lead.reverse).dropWhile (fun character => character == ' ' ||
    character == '\t') with
  | [] => atLineStart
  | last :: _ => last == '\n'

end SqlDump
