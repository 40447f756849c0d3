import Clausal.Assignment.Basic
import Clausal.Text.Blank

/-!
# Value lines

A solver reports its assignment in lines `v <literal> … [0]`. Each literal is applied in turn, a
zero ends the line, and a variable must not be given both values. On a fault the literals before it
have been applied.
-/

namespace Clausal

/-- Why a line is no value line, or not one that fits the values so far. -/
inductive ValueLineError
  /-- The first token is not `v`; its first character is given. -/
  | badTag (c : Char)
  /-- A variable was given both values. -/
  | conflict (v : Var)
  /-- A token is no literal. -/
  | badLiteral (token : List Char)
  /-- The line has no token. -/
  | empty
deriving DecidableEq

def ValueLineError.message : ValueLineError → String
  | badTag c => "the value line does not start with 'v' but with '" ++ c.toString ++ "'"
  | conflict v => "the solver assigned variable " ++ String.ofList v.text ++ " different values"
  | badLiteral token => "invalid literal '" ++ String.ofList token ++ "' in value line"
  | empty => "empty value line"

namespace Assignment

/-- Makes a literal true unless its variable has the other value already. -/
def addLit (a : Assignment) (l : Lit) : Except ValueLineError Assignment :=
  match a.litValue l with
  | .true => .ok a
  | .dontCare => .ok (a.assignLit l)
  | .false => .error (.conflict l.var)

/-- What a token of a value line says. -/
inductive ValueToken
  | literal (l : Lit)
  | stop
  | junk
deriving DecidableEq

def ValueToken.read (token : List Char) : ValueToken :=
  match Decimal.parseInt token with
  | none => .junk
  | some z =>
    match Lit.ofInt z with
    | .ok l => .literal l
    | .error .zeroLiteral => .stop
    | .error (.tooHigh _) => .junk

/-- Applies the tokens after the tag. The assignment is given also if a token is at fault. -/
def addTokens (a : Assignment) : List (List Char) → Assignment × Except ValueLineError Unit
  | [] => (a, .ok ())
  | token :: rest =>
    match ValueToken.read token with
    | .junk => (a, .error (.badLiteral token))
    | .stop => (a, .ok ())
    | .literal l =>
      match a.addLit l with
      | .ok b => b.addTokens rest
      | .error e => (a, .error e)

/-- Applies a value line. The assignment is given also if the line is at fault. -/
def addValueLine (a : Assignment) (line : List Char) : Assignment × Except ValueLineError Unit :=
  match tokens line with
  | ['v'] :: rest => a.addTokens rest
  | (c :: _) :: _ => (a, .error (.badTag c))
  | _ => (a, .error .empty)

def ofValueLine (line : List Char) : Except ValueLineError Assignment :=
  match empty.addValueLine line with
  | (a, .ok ()) => .ok a
  | (_, .error e) => .error e

end Assignment

end Clausal
