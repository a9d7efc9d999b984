import PostfixCalc.Text.Character
import PostfixCalc.Text.Printable

/-!
# Code points and quoted text

Text from outside is a list of code points.  Besides characters it may hold surrogates,
the halves of pairs that stand for one character; such a text is no string.

Text is quoted with single quotes, unless it holds a single quote and no double
quote.  The quote in use, the backslash, every unprintable character and every
surrogate are escaped.
-/

namespace PostfixCalc

/-- A character, or a surrogate by its place among the surrogates.  The first half of
them are high ones, and the others low. -/
inductive CodePoint where
  | char (c : Char)
  | surrogate (i : Fin 0x800)
  deriving DecidableEq, Repr

namespace CodePoint

def surrogateBase : Nat := 0xd800

def toNat : CodePoint → Nat
  | char c => c.toNat
  | surrogate i => surrogateBase + i

def char? : CodePoint → Option Char
  | char c => some c
  | surrogate _ => none

def isBlank : CodePoint → Bool
  | char c => PostfixCalc.isBlank c
  | surrogate _ => false

/-- The character for which a high surrogate and a low one behind it stand. -/
def pair? : CodePoint → CodePoint → Option Char
  | surrogate i, surrogate j =>
    if i.val < 0x400 ∧ 0x400 ≤ j.val then
      some (Char.ofNat (0x10000 + i.val * 0x400 + (j.val - 0x400)))
    else none
  | _, _ => none

end CodePoint

abbrev Text := List CodePoint

namespace Text

def ofString (s : String) : Text := s.toList.map .char

instance : Coe String Text := ⟨ofString⟩

/-- The string of a text without surrogates. -/
def string? (t : Text) : Option String := (t.mapM CodePoint.char?).map String.ofList

@[simp] theorem string?_ofString (s : String) : (ofString s).string? = some s := by
  have hchars (cs : List Char) : (cs.map CodePoint.char).mapM CodePoint.char? = some cs := by
    induction cs with
    | nil => rfl
    | cons c cs ih => simp [CodePoint.char?, ih]
  rw [string?, ofString, hchars, Option.map_some, String.ofList_toList]

theorem eq_ofString_of_string? {t : Text} {s : String} (h : t.string? = some s) :
    t = ofString s := by
  have hchars {t : Text} {cs : List Char} (h : t.mapM CodePoint.char? = some cs) :
      t = cs.map .char := by
    induction t generalizing cs with
    | nil => simp_all
    | cons p t ih =>
      cases p with
      | surrogate i => simp [CodePoint.char?] at h
      | char c =>
        simp only [List.mapM_cons, CodePoint.char?, Option.pure_def, Option.bind_eq_bind,
          Option.bind_some, Option.bind_eq_some_iff, Option.some.injEq] at h
        obtain ⟨rest, hrest, rfl⟩ := h
        rw [ih hrest, List.map_cons]
  rw [string?, Option.map_eq_some_iff] at h
  obtain ⟨cs, hcs, rfl⟩ := h
  rw [hchars hcs, ofString, String.toList_ofList]

@[simp] theorem ofString_inj {s t : String} : ofString s = ofString t ↔ s = t := by
  constructor
  · intro h
    have hstring := congrArg string? h
    simpa using hstring
  · rintro rfl
    rfl

def words (t : Text) : List Text := (pieces CodePoint.isBlank t).filter (!·.isEmpty)

end Text

def hexDigit (n : Nat) : Char :=
  Char.ofNat (if n < 10 then 48 + n else 87 + n)

/-- The lowest hexadecimal digits of a number, as many as asked for. -/
def hexChars : Nat → Nat → List Char
  | 0, _ => []
  | width + 1, n => hexChars width (n / 16) ++ [hexDigit (n % 16)]

namespace Quoted

/-- The quote that suits a text. -/
def quoteFor (cs : List Char) : Char :=
  if cs.contains '\'' && !cs.contains '"' then '"' else '\''

def escape (quote c : Char) : List Char :=
  if c = quote ∨ c = '\\' then ['\\', c]
  else if c = '\n' then ['\\', 'n']
  else if c = '\r' then ['\\', 'r']
  else if c = '\t' then ['\\', 't']
  else if isPrintable c then [c]
  else if c.toNat < 0x100 then '\\' :: 'x' :: hexChars 2 c.toNat
  else if c.toNat < 0x10000 then '\\' :: 'u' :: hexChars 4 c.toNat
  else '\\' :: 'U' :: hexChars 8 c.toNat

end Quoted

def quotedChars (cs : List Char) : List Char :=
  let quote := Quoted.quoteFor cs
  quote :: (cs.flatMap (Quoted.escape quote) ++ [quote])

def quoted (text : String) : String :=
  String.ofList (quotedChars text.toList)

namespace Text

def escape (quote : Char) : CodePoint → List Char
  | .char c => Quoted.escape quote c
  | .surrogate i => '\\' :: 'u' :: hexChars 4 (CodePoint.surrogate i).toNat

def quoted (t : Text) : String :=
  let quote := Quoted.quoteFor (t.filterMap CodePoint.char?)
  String.ofList (quote :: (t.flatMap (escape quote) ++ [quote]))

@[simp] theorem quoted_ofString (s : String) : (ofString s).quoted = PostfixCalc.quoted s := by
  have hchars : (ofString s).filterMap CodePoint.char? = s.toList := by
    rw [ofString, List.filterMap_map]
    exact List.filterMap_some
  simp only [quoted, hchars, PostfixCalc.quoted, quotedChars]
  rw [ofString, List.flatMap_map]
  rfl

end Text

end PostfixCalc
