import PostfixCalc.Json.Reader
import PostfixCalc.Service
import PostfixCalc.Text.Utf8

/-!
# Connections

A connection delivers bytes in chunks of any size.  Bytes are kept until a line
is complete; each complete line that is not blank is a request in UTF-8 and is
answered by one line.  An empty chunk ends the connection, and so does a fatal
cause.
-/

namespace PostfixCalc

def Utf8.Fault.message (f : Utf8.Fault) : String :=
  let place :=
    if f.count = 1 then
      "byte 0x" ++ String.ofList (hexChars 2 f.byte.toNat) ++ " in position " ++ natText f.offset
    else
      "bytes in position " ++ natText f.offset ++ "-" ++ natText (f.offset + f.count - 1)
  let reason :=
    match f.reason with
    | .invalidStart => "invalid start byte"
    | .invalidContinuation => "invalid continuation byte"
    | .unexpectedEnd => "unexpected end of data"
  "'utf-8' codec can't decode " ++ place ++ ": " ++ reason

namespace Service

inductive Breakdown where
  | fatal (cause : Fatal)
  | integerTooLong (digits : Nat)
  | nestedTooDeep (overrun : Json.Overrun)

def Breakdown.message : Breakdown → String
  | fatal cause => cause.message
  | integerTooLong digits => (Json.ReadError.integerTooLong digits).message
  | nestedTooDeep overrun => (Json.ReadError.nestedTooDeep overrun).message

inductive Decoded where
  | request (j : Json)
  | invalid (message : String)
  | breakdown (cause : Breakdown)

def decodeLine (bytes : List UInt8) : Decoded :=
  match Utf8.decode bytes with
  | .error fault => .invalid fault.message
  | .ok cs =>
    match Json.read cs with
    | .ok j => .request j
    | .error (.integerTooLong digits) => .breakdown (.integerTooLong digits)
    | .error (.nestedTooDeep overrun) => .breakdown (.nestedTooDeep overrun)
    | .error e => .invalid e.message

def isSpaceByte (b : UInt8) : Bool := b == 0x20 || (0x09 ≤ b && b ≤ 0x0d)

def Response.line (r : Response) : String := r.json.render ++ "\n"

/-- The state of a connection: the stack of its session, the bytes of the line that is
not complete yet, the lines sent so far, and the cause that ended it, if any. -/
structure Connection where
  stack : Stack
  pending : List UInt8
  sent : List String
  ended : Option Breakdown

namespace Connection

def fresh : Connection := ⟨.empty, [], [], none⟩

def send (c : Connection) (r : Response) : Connection := { c with sent := c.sent ++ [r.line] }

/-- Takes up one complete line, without its line break. -/
def handleLine (r : Registry) (c : Connection) (line : List UInt8) : Connection :=
  if c.ended.isSome then c
  else
    match trimBy isSpaceByte line with
    | [] => c
    | bytes =>
      match decodeLine bytes with
      | .invalid message => c.send (.refused ("Invalid request: " ++ message : String))
      | .breakdown cause => { c with ended := some cause }
      | .request j =>
        match handle r c.stack j with
        | .response response s => { c with stack := s }.send response
        | .aborted cause s => { c with stack := s, ended := some (.fatal cause) }

/-- Takes up a chunk: its bytes follow those that are pending, complete lines are
taken up in order, and the rest is kept. -/
def receive (r : Registry) (c : Connection) (chunk : List UInt8) : Connection :=
  if c.ended.isSome then c
  else
    let lines := pieces (· == 0x0a) (c.pending ++ chunk)
    lines.dropLast.foldl (handleLine r) { c with pending := lines.getLastD [] }

/-- Takes up chunks up to the end of the connection. -/
def serve (r : Registry) (chunks : List (List UInt8)) : Connection :=
  (chunks.takeWhile (!·.isEmpty)).foldl (receive r) fresh

end Connection
end Service
end PostfixCalc
