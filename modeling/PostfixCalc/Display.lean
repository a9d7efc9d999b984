import PostfixCalc.Registry

/-!
# Listings

Stacks and registries are listed with or without colour.  A colour is opened by
an escape sequence in front of the text it covers and closed by a reset behind
it; paddings are computed on the text alone, so colours only add escape
sequences.

A colour sequence is an escape character, a bracket, one or more digits and an
`m`.  Deleting all of them leaves the text that a terminal without colours would
show.
-/

namespace PostfixCalc

namespace Display

def escape (code : String) : String := "\x1b[" ++ code ++ "m"

def reset : String := escape "0"

inductive Colour where
  | ofType (t : Ty)
  | function
  | depth
  deriving DecidableEq, Repr

def Colour.code : Colour → String
  | ofType .i32 => "94"
  | ofType .f32 => "96"
  | ofType .f64 => "92"
  | function => "95"
  | depth => "90"

def paint (colour : Bool) (c : Colour) (text : String) : String :=
  if colour then escape c.code ++ text ++ reset else text

def padLeft (width : Nat) (text : String) : String :=
  String.ofList (List.replicate (width - text.length) ' ') ++ text

def padRight (width : Nat) (text : String) : String :=
  text ++ String.ofList (List.replicate (width - text.length) ' ')

def value (colour : Bool) (v : Value) : String :=
  paint colour (.ofType v.type) v.text

def legend (colour : Bool) : String :=
  "Color Key: " ++ " | ".intercalate
    ([Ty.i32, Ty.f32, Ty.f64].map fun t => paint colour (.ofType t) t.label)

/-- A stack on one line, oldest value first. -/
def stack (colour : Bool) (s : Stack) : String :=
  " ".intercalate (s.toList.map (value colour))

def row (colour : Bool) (width depth : Nat) (v : Value) : String :=
  paint colour .depth (padLeft width (natText depth)) ++ "  " ++ v.type.label ++ "  " ++
    value colour v

def depthWidth (s : Stack) : Nat := (natText (s.height - 1)).length

def rows (colour : Bool) (s : Stack) : List String :=
  s.fromTop.mapIdx fun depth v => row colour (depthWidth s) depth v

/-- A stack with one row for each value, top first, below a legend if asked for. -/
def stackRows (colour showLegend : Bool) (s : Stack) : String :=
  if s.height = 0 then "(empty stack)"
  else
    "\n".intercalate
      (if showLegend then legend colour :: rows colour s else rows colour s)

def function (colour : Bool) (key : String) (f : Function) : String :=
  paint colour .function (padRight 8 key) ++ " " ++ f.text

def registry (colour : Bool) (r : Registry) : String :=
  "\n".intercalate (r.items.map fun item => function colour item.1 item.2)

/-- What follows the digits and the final letter of a colour sequence, after at least
as many digits as are still needed; nothing, if there is no such sequence. -/
def afterCode? (digitSeen : Bool) : List Char → Option (List Char)
  | [] => none
  | c :: cs =>
    if '0' ≤ c ∧ c ≤ '9' then afterCode? true cs
    else if c = 'm' ∧ digitSeen then some cs
    else none

/-- What follows a colour sequence at the start of a text. -/
def afterColour? : List Char → Option (List Char)
  | '\x1b' :: '[' :: cs => afterCode? false cs
  | _ => none

theorem length_lt_of_afterCode? {digitSeen : Bool} {cs rest : List Char}
    (h : afterCode? digitSeen cs = some rest) : rest.length < cs.length := by
  induction cs generalizing digitSeen with
  | nil => simp [afterCode?] at h
  | cons c cs ih =>
    rw [afterCode?] at h
    split at h
    · exact Nat.lt_succ_of_lt (ih h)
    · split at h
      · simp only [Option.some.injEq] at h
        simp [h]
      · simp at h

theorem length_lt_of_afterColour? {cs rest : List Char}
    (h : afterColour? cs = some rest) : rest.length < cs.length := by
  unfold afterColour? at h
  split at h
  · have := length_lt_of_afterCode? h
    simp only [List.length_cons]
    omega
  · simp at h

def plain (cs : List Char) : List Char :=
  match h : afterColour? cs with
  | some rest =>
    have := length_lt_of_afterColour? h
    plain rest
  | none =>
    match cs with
    | [] => []
    | c :: cs => c :: plain cs
termination_by cs.length

/-- The colour sequences of a text, in order. -/
def sequences (cs : List Char) : List (List Char) :=
  match h : afterColour? cs with
  | some rest =>
    have := length_lt_of_afterColour? h
    cs.take (cs.length - rest.length) :: sequences rest
  | none =>
    match cs with
    | [] => []
    | _ :: cs => sequences cs
termination_by cs.length

end Display

end PostfixCalc
