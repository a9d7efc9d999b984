/-!
# Characters

Lines are divided into words at runs of white space, which is meant in the wide
sense: every separator of Unicode counts, and so do the ASCII information
separators.

A decimal digit is a character of Unicode's category `Nd`.  Each script that has
its own digits has the ten of them at consecutive code points, so the table
lists the zeros alone.
-/

namespace PostfixCalc

def isBlank (c : Char) : Bool :=
  let n := c.toNat
  (0x09 ≤ n && n ≤ 0x0d) || (0x1c ≤ n && n ≤ 0x20) || n == 0x85 || n == 0xa0 ||
    n == 0x1680 || (0x2000 ≤ n && n ≤ 0x200a) || n == 0x2028 || n == 0x2029 ||
    n == 0x202f || n == 0x205f || n == 0x3000

/-- White space around a number that is read.  The information separators do not
count. -/
def isMargin (c : Char) : Bool :=
  isBlank c && !(0x1c ≤ c.toNat && c.toNat ≤ 0x1f)

/-- The part of a list between the given kind of elements at both ends. -/
def trimBy {α : Type} (drop : α → Bool) (xs : List α) : List α :=
  ((xs.dropWhile drop).reverse.dropWhile drop).reverse

def trim (text : String) : String :=
  String.ofList (trimBy isBlank text.toList)

/-- Maximal runs of characters that are not white space, in order. -/
def words (cs : List Char) : List (List Char) :=
  match _h : cs.dropWhile isBlank with
  | [] => []
  | c :: rest =>
    (c :: rest.takeWhile (!isBlank ·)) :: words (rest.dropWhile (!isBlank ·))
termination_by cs.length
decreasing_by
  have hrest : (c :: rest).length ≤ cs.length := by
    rw [← _h]
    exact (List.dropWhile_sublist _).length_le
  have hdrop := (List.dropWhile_sublist (l := rest) (!isBlank ·)).length_le
  simp only [List.length_cons] at hrest
  omega

/-- Pieces of a list between the separating elements; one piece more than there are
separators. -/
def pieces {α : Type} (isSeparator : α → Bool) : List α → List (List α)
  | [] => [[]]
  | x :: xs =>
    if isSeparator x then [] :: pieces isSeparator xs
    else
      match pieces isSeparator xs with
      | [] => [[x]]
      | piece :: rest => (x :: piece) :: rest

/-- Code points of the zeros of all scripts. -/
def digitZeros : List Nat :=
  [0x30, 0x660, 0x6f0, 0x7c0, 0x966, 0x9e6, 0xa66, 0xae6, 0xb66, 0xbe6, 0xc66,
   0xce6, 0xd66, 0xde6, 0xe50, 0xed0, 0xf20, 0x1040, 0x1090, 0x17e0, 0x1810,
   0x1946, 0x19d0, 0x1a80, 0x1a90, 0x1b50, 0x1bb0, 0x1c40, 0x1c50, 0xa620,
   0xa8d0, 0xa900, 0xa9d0, 0xa9f0, 0xaa50, 0xabf0, 0xff10, 0x104a0, 0x10d30,
   0x11066, 0x110f0, 0x11136, 0x111d0, 0x112f0, 0x11450, 0x114d0, 0x11650,
   0x116c0, 0x11730, 0x118e0, 0x11950, 0x11c50, 0x11d50, 0x11da0, 0x16a60,
   0x16ac0, 0x16b50, 0x1d7ce, 0x1d7d8, 0x1d7e2, 0x1d7ec, 0x1d7f6, 0x1e140,
   0x1e2f0, 0x1e950, 0x1fbf0]

/-- Value of a decimal digit of any script. -/
def digitValue? (c : Char) : Option Nat :=
  (digitZeros.find? fun z => z ≤ c.toNat && c.toNat < z + 10).map
    fun z => c.toNat - z

def asciiDigitValue? (c : Char) : Option Nat :=
  if '0' ≤ c ∧ c ≤ '9' then some (c.toNat - 48) else none

/-- Leaves out the underscores that group digits.  Each of them stands between two
digits, and there is no answer if one does not. -/
def ungroup? (afterDigit : Bool) : List Char → Option (List Char)
  | [] => some []
  | c :: cs =>
    if c = '_' then
      match cs with
      | [] => none
      | d :: _ => if afterDigit && (digitValue? d).isSome then ungroup? false cs else none
    else (ungroup? (digitValue? c).isSome cs).map (c :: ·)

/-- Longest run of digits at the start, as values, and what follows it. -/
def spanDigits (value? : Char → Option Nat) : List Char → List Nat × List Char
  | [] => ([], [])
  | c :: cs =>
    match value? c with
    | none => ([], c :: cs)
    | some d => (d :: (spanDigits value? cs).1, (spanDigits value? cs).2)

end PostfixCalc
