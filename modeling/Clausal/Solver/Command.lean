import Clausal.Text.Utf8

/-!
# Commands

A command names a program, its arguments, the variables that are set or unset for it, and the
directory it starts in. A process gets its variables as texts `name=value`, by rising names, and
looks a name up by the first text that starts with it; so a name with an equals sign is also a value
of the name in front of the sign.
-/

namespace Clausal

/-- Where the path of the instance stands among the arguments. -/
inductive ArgPosition
  | first
  | last
deriving DecidableEq

/-- A program with its arguments and surroundings. An environment variable without a value is
unset. -/
structure Command where
  program : String
  args : List String
  env : List (String × Option String)
  directory : Option String
deriving DecidableEq

/-- Whether a text holds a null character, which no process can be given. -/
def holdsNull (s : String) : Bool := s.toList.contains (Char.ofNat 0)

namespace Command

/-- The text that stands for a text with a null character. -/
def argText (s : String) : String := if holdsNull s then "<string-with-nul>" else s

/-- The command as the system takes it. -/
def sanitized (c : Command) : Command :=
  { c with
    program := argText c.program
    args := c.args.map argText
    directory := c.directory.map argText }

/-- The command with the path of the instance among its arguments. -/
def withInstance (c : Command) (path : String) : ArgPosition → Command
  | .first => { c with args := path :: c.args }
  | .last => { c with args := c.args ++ [path] }

/-! ## Variables -/

def setting (name value : String) : String := name ++ "=" ++ value

/-- The texts of the variables that are set, by rising names. -/
def settings (c : Command) : List String :=
  (c.env.mergeSort fun a b => decide (a.1 ≤ b.1)).filterMap fun (name, value) =>
    value.map (setting name)

/-- The value that a text gives to a variable. -/
def valueIn (name text : String) : Option String :=
  ((name ++ "=").toList.isPrefixOf? text.toList).map String.ofList

/-- The value of a variable among those that the command sets. No variable has the empty name. -/
def envValue? (c : Command) (name : String) : Option String :=
  if name = "" then none else c.settings.findSome? (valueIn name)

/-- Whether the command sets or unsets a variable. -/
def decides (c : Command) (name : String) : Bool := (c.env.lookup name).isSome

theorem rest_append (front rest : List Char) : front.isPrefixOf? (front ++ rest) = some rest := by
  induction front with
  | nil => rfl
  | cons c front ih =>
    show (if c == c then front.isPrefixOf? (front ++ rest) else none) = some rest
    rw [if_pos (beq_self_eq_true c), ih]

theorem valueIn_setting (name value : String) : valueIn name (setting name value) = some value := by
  have h : (setting name value).toList = (name ++ "=").toList ++ value.toList := by simp [setting]
  rw [valueIn, h, rest_append]
  exact congrArg some String.ofList_toList

/-! ## What a process can be given -/

/-- The length of the longest text that a process is given, in bytes. -/
def maxText : Nat := 131071

/-- Whether a process can be given a text. -/
def isPassable (s : String) : Bool := !holdsNull s && byteCount s.toList ≤ maxText

/-- Whether a process can be given the arguments and the variables that are set. -/
def isReady (c : Command) : Bool := c.args.all isPassable && c.settings.all isPassable

end Command

end Clausal
