import SqlDump.Pipeline.DropStatement
import SqlDump.Pipeline.TableOptions
import SqlDump.Pipeline.TimeZone
import SqlDump.Pipeline.Volatile
import SqlDump.Statement

/-!
# The pipeline

Every unit passes through a list of stages that share one state.  Directives
pass unchanged, and a unit that a stage emptied meets no further stage.
-/

namespace SqlDump

inductive Stage where
  | tableOptions
  | timeZone
  | dropStatement
  | volatile
deriving DecidableEq, Repr

namespace Stage

def name : Stage → Text
  | .tableOptions => "create-table".toList
  | .timeZone => "time-zone".toList
  | .dropStatement => "drop".toList
  | .volatile => "ddl-sanitize".toList

def apply (stage : Stage) (atLineStart : Bool) (state : PipelineState)
    (text : Text) : PipelineState × Text :=
  match stage with
  | .tableOptions => TableOptions.apply state text
  | .timeZone => TimeZone.apply atLineStart state text
  | .dropStatement => DropStatement.apply atLineStart state text
  | .volatile => Volatile.apply state text

def applyAll (atLineStart : Bool) :
    List Stage → PipelineState → Text → PipelineState × Text
  | [], state, text => (state, text)
  | _ :: _, state, [] => (state, [])
  | stage :: stages, state, head :: tail =>
      let (after, text) := stage.apply atLineStart state (head :: tail)
      applyAll atLineStart stages after text

end Stage

structure Pipeline where
  stages : List Stage
  state : PipelineState := {}
deriving DecidableEq, Repr

namespace Pipeline

def process (pipeline : Pipeline) (unit : StatementUnit) : Pipeline × Text :=
  match unit.kind with
  | .directive => (pipeline, unit.text)
  | _ =>
      let (state, text) :=
        Stage.applyAll unit.atLineStart pipeline.stages pipeline.state unit.text
      ({ pipeline with state := state }, text)

def processAll (pipeline : Pipeline) : List StatementUnit → Pipeline × List Text
  | [] => (pipeline, [])
  | unit :: units =>
      let (processed, text) := pipeline.process unit
      let (last, texts) := processed.processAll units
      (last, text :: texts)

end Pipeline

end SqlDump
