import PostfixCalc.Text.Character
import PostfixCalc.Token

/-!
# Settings

The calculator is configured by environment variables.  The names of its own
variables begin with a common stem; whether colours are wanted by default also
depends on the variable `NO_COLOR`, and a home directory on `HOME` and on the accounts
of the system.

A path name is kept in normal form: empty components and components that name
the directory itself are dropped, while `..` is kept.  One leading slash makes
a path absolute, exactly two are kept as they are, and more count as one.
-/

namespace PostfixCalc

/-- A path name in normal form: its leading slashes and its components. -/
structure PathName where
  slashes : Nat
  components : List String
  deriving DecidableEq, Repr

namespace PathName

/-- Normal form of a path name. -/
def ofString (path : String) : PathName :=
  let leading := (path.toList.takeWhile (· == '/')).length
  { slashes := if leading = 2 then 2 else min leading 1
    components :=
      ((pieces (· == '/') path.toList).map String.ofList).filter fun component =>
        component != "" && component != "." }

/-- Written form; the empty path is a single point. -/
def text (path : PathName) : String :=
  let written := String.ofList (List.replicate path.slashes '/') ++
    "/".intercalate path.components
  if written = "" then "." else written

/-- Replaces a first component `~`, or `~` and the name of a user, by the home directory of
this user.  The name is empty for the user of the program.  There is no answer when the home
directory is not known or itself starts with `~`. -/
def expandHome? (home? : String → Option String) (path : PathName) : Option PathName :=
  match path.slashes, path.components with
  | 0, first :: rest =>
    match first.toList with
    | '~' :: user =>
      match home? (String.ofList user) with
      | none => none
      | some home =>
        let kept := String.ofList (home.toList.reverse.dropWhile (· == '/')).reverse
        let directory := if kept = "" then "/" else kept
        if directory.toList.head? = some '~' then none
        else
          let base := ofString directory
          some { base with components := base.components ++ rest }
    | _ => some path
  | _, _ => some path

end PathName

/-- The accounts of a system: the home directory of the user of the program, and the home
directories of users by their names. -/
structure Accounts where
  own? : Option String
  homes : List (String × String)

/-- The environment of a program: the stem of the names of its own variables, the
home directory at its start, the accounts of the system, and all variables. -/
structure Environment where
  stem : String
  home : String
  accounts : Accounts
  entries : List (String × String)

/-- The home directory that a path asks for is not known. -/
structure HomeUnknown where
  path : String
  deriving DecidableEq, Repr

def HomeUnknown.message (_ : HomeUnknown) : String :=
  "Could not determine home directory."

/-- An integer in a setting: white space around it, a sign, and digits of any script
that may be grouped. -/
def readInteger? (text : String) : Option Int := do
  let cs ← ungroup? false (trimBy isMargin text.toList)
  let (negative, cs) := Numeral.scanSign cs
  match spanDigits digitValue? cs with
  | (d :: ds, []) =>
    if (d :: ds).length ≤ integerDigitLimit then
      some (Binary.signed negative (ofDigits (d :: ds)))
    else none
  | _ => none

namespace Environment

def get? (e : Environment) (name : String) : Option String :=
  (e.entries.find? fun entry => entry.1 == name).map Prod.snd

def own? (e : Environment) (name : String) : Option String :=
  e.get? (e.stem ++ "_" ++ name)

/-- The truth value that a setting spells.  No character outside ASCII has a lower
case that occurs in these words. -/
def truth? (raw : String) : Option Bool :=
  let word := (trim raw).map Char.toLower
  if ["1", "true", "yes", "on"].contains word then some true
  else if ["0", "false", "no", "off"].contains word then some false
  else none

def flag (e : Environment) (name : String) (default : Bool) : Bool :=
  ((e.own? name).bind truth?).getD default

/-- The home directory of a user.  The variable `HOME` names that of the user of the
program, whose name is empty, unless it is not set. -/
def homeOf? (e : Environment) (user : String) : Option String :=
  if user = "" then (e.get? "HOME").or e.accounts.own?
  else (e.accounts.homes.find? fun entry => entry.1 == user).map Prod.snd

/-- File of the history.  A variable that is set to nothing turns the history off,
and a variable that is not set leaves it in the home directory. -/
def history (e : Environment) : Except HomeUnknown (Option PathName) :=
  match e.own? "HISTORY" with
  | none => .ok (some (.ofString (e.home ++ "/." ++ e.stem.map Char.toLower ++ "_history")))
  | some raw =>
    let path := trim raw
    if path.isEmpty then .ok none
    else
      match (PathName.ofString path).expandHome? e.homeOf? with
      | some expanded => .ok (some expanded)
      | none => .error ⟨path⟩

def prompt (e : Environment) : String := (e.own? "PROMPT").getD "> "

/-- Tokens of each line are listed. -/
def echo (e : Environment) : Bool := e.flag "ECHO_TOKENS" false

/-- Listings are coloured. -/
def colour (e : Environment) : Bool := e.flag "COLOR" (e.get? "NO_COLOR").isNone

def host (e : Environment) : String := (e.own? "HOST").getD "127.0.0.1"

def defaultPort : Int := 8765

def port (e : Environment) : Int :=
  ((e.own? "PORT").bind readInteger?).getD defaultPort

end Environment

end PostfixCalc
