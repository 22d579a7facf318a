import SqlDump.Text.Basic

/-!
# Command lines

A command line mixes operands and options.  Options have a long name, and some
of them a letter; a value stands behind the option or is attached to it.
Everything behind two dashes is an operand.
-/

namespace SqlDump

structure OptionSpec where
  name : Text
  secondName : Option Text := none
  letter : Option Char := none
  takesValue : Bool := false
deriving DecidableEq, Repr

inductive Refusal where
  | usage
  | helpWanted
deriving DecidableEq, Repr

structure CommandLine where
  operands : List Text := []
  /-- Options by their first name, with their values. -/
  options : List (Text × Option Text) := []
deriving DecidableEq, Repr

namespace CommandLine

def addOperand (operand : Text) (line : CommandLine) : CommandLine :=
  { line with operands := operand :: line.operands }

/-- Dashes begin an option, but a single dash is an operand. -/
def isOption : Text → Bool
  | '-' :: _ :: _ => true
  | _ => false

def named? (specs : List OptionSpec) (name : Text) : Option OptionSpec :=
  specs.find? fun spec => spec.name == name || spec.secondName == some name

def lettered? (specs : List OptionSpec) (letter : Char) : Option OptionSpec :=
  specs.find? fun spec => spec.letter == some letter

def splitValue (text : Text) : Text × Option Text :=
  let name := text.takeWhile (· != '=')
  (name, if name.length < text.length then some (text.drop (name.length + 1))
    else none)

/-- What a group of letters stands for: options, and one at its end that lacks
its value. -/
def letters (specs : List OptionSpec) :
    Text → Except Refusal (List (Text × Option Text) × Option Text)
  | [] => .ok ([], none)
  | letter :: rest =>
      match lettered? specs letter with
      | none => if letter = 'h' then .error .helpWanted else .error .usage
      | some spec =>
          if spec.takesValue then
            match rest with
            | [] => .ok ([], some spec.name)
            | '=' :: value => .ok ([(spec.name, some value)], none)
            | value => .ok ([(spec.name, some value)], none)
          else do
            let (options, waiting) ← letters specs rest
            .ok ((spec.name, none) :: options, waiting)

def long (specs : List OptionSpec) (text : Text) :
    Except Refusal (List (Text × Option Text) × Option Text) :=
  let (name, value) := splitValue text
  match named? specs name, value with
  | none, none =>
      if name = "help".toList then .error .helpWanted else .error .usage
  | none, some _ => .error .usage
  | some spec, some value =>
      if spec.takesValue then .ok ([(spec.name, some value)], none)
      else .error .usage
  | some spec, none =>
      if spec.takesValue then .ok ([], some spec.name)
      else .ok ([(spec.name, none)], none)

def optionsIn (specs : List OptionSpec) :
    Text → Except Refusal (List (Text × Option Text) × Option Text)
  | '-' :: '-' :: name => long specs name
  | argument => letters specs (argument.drop 1)

/-- Read the arguments from the first one on, so the first fault decides. -/
def parse (specs : List OptionSpec) : List Text → Except Refusal CommandLine
  | [] => .ok {}
  | argument :: rest =>
      if argument = ['-', '-'] then .ok { operands := rest }
      else if isOption argument then
        match optionsIn specs argument with
        | .error refusal => .error refusal
        | .ok (options, waiting) =>
            match waiting with
            | none =>
                (parse specs rest).map fun line =>
                  { line with options := options ++ line.options }
            | some name =>
                match rest with
                | [] => .error .usage
                | value :: others =>
                    if isOption value then .error .usage
                    else
                      (parse specs others).map fun line =>
                        { line with
                          options :=
                            options ++ (name, some value) :: line.options }
      else (parse specs rest).map (addOperand argument)

def hasRepeats (line : CommandLine) : Bool :=
  !(line.options.map (·.1)).Nodup

def isSet (line : CommandLine) (name : String) : Bool :=
  line.options.any fun option => option.1 == name.toList

def value? (line : CommandLine) (name : String) : Option Text :=
  (line.options.lookup name.toList).join

def operand? (line : CommandLine) : Option Text :=
  match line.operands with
  | [operand] => some operand
  | _ => none

end CommandLine

end SqlDump
