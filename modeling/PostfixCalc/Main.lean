import PostfixCalc.ReadLoop

/-!
# Command line

The calculator as a program: it reads lines from standard input, after the
prompt, until the input ends or a line asks it to stop.
-/

namespace PostfixCalc

/-- Begins the names of the program's environment variables. -/
def variableStem : String := "CATTYWAMPUS"

/-- The variables of the environment that the program looks at. -/
def variableNames : List String :=
  (["HISTORY", "PROMPT", "ECHO_TOKENS", "COLOR", "HOST", "PORT"].map fun name =>
    variableStem ++ "_" ++ name) ++ ["NO_COLOR", "HOME"]

/-- The fields of the lines of a table. -/
def tableRows (separator : Char) (table : String) : List (List String) :=
  (ReadLoop.linesOf table).map fun line =>
    (pieces (· == separator) line.toList).map String.ofList

/-- The accounts in a password table, where the user of the program has a number. -/
def Accounts.ofTable (rows : List (List String)) (number? : Option String) : Accounts :=
  let users := rows.filterMap fun
    | name :: _ :: number :: _ :: _ :: home :: _ => some (name, number, home)
    | _ => none
  { own? := (users.find? fun user => some user.2.1 = number?).map fun user => user.2.2
    homes := users.map fun user => (user.1, user.2.2) }

/-- The text of a file, which is empty if there is none. -/
def fileText (path : String) : IO String :=
  try IO.FS.readFile path catch _ => return ""

def currentAccounts : IO Accounts := do
  let status := tableRows '\t' (← fileText "/proc/self/status")
  let number? := status.findSome? fun
    | "Uid:" :: number :: _ => some number
    | _ => none
  return .ofTable (tableRows ':' (← fileText "/etc/passwd")) number?

def currentEnvironment : IO Environment := do
  let accounts ← currentAccounts
  let entries ← variableNames.filterMapM fun name => do
    return (← IO.getEnv name).map fun value => (name, value)
  let home? := (← IO.getEnv "HOME").or accounts.own?
  return ⟨variableStem, home?.getD "", accounts, entries⟩

/-- The terminal of standard input and output. -/
def standardTerminal : IO (ReadLoop.Terminal IO) := do
  let input ← IO.getStdin
  let output ← IO.getStdout
  let print (text : String) : IO Unit := do
    output.putStr text
    output.flush
  let read (prompt : String) : IO (Except ReadLoop.InputEnd String) := do
    print prompt
    let line ← input.getLine
    if line.isEmpty then return .error .endOfInput
    return .ok (if line.endsWith "\n" then (line.dropEnd 1).toString else line)
  return ⟨read, print⟩

partial def loop (t : ReadLoop.Terminal IO) (c : Console) (prompt : String) (s : Stack) :
    IO ReadLoop.Ending := do
  match ← ReadLoop.turn t c prompt s with
  | .ok s' => loop t c prompt s'
  | .error ending => return ending

end PostfixCalc

open PostfixCalc in
def main : IO UInt32 := do
  let environment ← currentEnvironment
  match environment.history with
  | .error unknown =>
    (← IO.getStderr).putStrLn unknown.message
    return 1
  | .ok _ =>
    let console := Console.ofEnvironment .builtin environment
    match ← loop (← standardTerminal) console environment.prompt .empty with
    | .returned => return 0
    | .interrupted =>
      IO.println ""
      return 0
    | .aborted cause =>
      (← IO.getStderr).putStrLn cause.message
      return 1
