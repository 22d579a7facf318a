import SqlDump.Text.Basic

/-!
# Scalars of YAML

A scalar is a text with the style in which it was written and the tag in front
of it.  What it stands for depends on all three.
-/

namespace SqlDump

namespace Yaml

inductive Style where
  | plain
  | quoted
  | literal
  | folded
deriving DecidableEq, Repr

structure Scalar where
  text : Text := []
  style : Style := .plain
  tag : Option Text := none
deriving DecidableEq, Repr

namespace Scalar

def coreTag (name : String) : Text :=
  "tag:yaml.org,2002:".toList ++ name.toList

def isNullWord (text : Text) : Bool :=
  ["~", "null", "Null", "NULL"].any fun word => word.toList == text

def isVoid (scalar : Scalar) : Bool :=
  scalar.style == .plain && scalar.text == []

/-- Whether a scalar stands for no value.  One that is tagged to do so must be
written so. -/
def isAbsent? (scalar : Scalar) : Option Bool :=
  if scalar.style ≠ .plain then some false
  else
    match scalar.tag with
    | none => some (scalar.text == [] || isNullWord scalar.text)
    | some tag =>
        if tag ≠ coreTag "null" then some false
        else if isNullWord scalar.text then some true
        else none

/-- Only a plain scalar can stand for something else than its text, or a literal
one with the tag of what it stands for. -/
def isReadAs (kind : String) (scalar : Scalar) : Bool :=
  scalar.style == .plain ||
  (scalar.style == .literal && scalar.tag == some (coreTag kind))

def bool? (scalar : Scalar) : Option Bool :=
  if !scalar.isReadAs "bool" then none
  else if ["true", "True", "TRUE"].any fun word =>
    word.toList == scalar.text then some true
  else if ["false", "False", "FALSE"].any fun word =>
    word.toList == scalar.text then some false
  else none

def hexValue? (digit : Char) : Option Nat :=
  if digit.isDigit then some (digit.toNat - '0'.toNat)
  else if 'a' ≤ digit ∧ digit ≤ 'f' then some (digit.toNat - 'a'.toNat + 10)
  else if 'A' ≤ digit ∧ digit ≤ 'F' then some (digit.toNat - 'A'.toNat + 10)
  else none

def digits? (base : Nat) (digits : Text) : Option Nat :=
  if digits = [] then none
  else
    digits.foldlM (fun number digit =>
      match hexValue? digit with
      | some value =>
          if value < base then some (base * number + value) else none
      | none => none) 0

/-- A scalar written as a number without a minus sign.  Decimal digits begin
with a zero only for zero itself. -/
def number? (scalar : Scalar) : Option Nat :=
  if !scalar.isReadAs "int" then none
  else
    match match scalar.text with
      | '+' :: rest => rest
      | text => text with
    | '0' :: 'x' :: rest => digits? 16 rest
    | '0' :: 'o' :: rest => digits? 8 rest
    | '0' :: 'b' :: rest => digits? 2 rest
    | '0' :: _ :: _ => none
    | rest => digits? 10 rest

def localTag? (scalar : Scalar) : Option Text :=
  match scalar.tag with
  | some ['!'] => some ['!']
  | some ('!' :: name) => some name
  | _ => none

end Scalar

end Yaml

end SqlDump
