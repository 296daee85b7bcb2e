import Spacecraft.Numeric.Binary64

/-!
# Reading a number from text

The numeral syntax a setting written as text may use: blanks around it, an optional sign,
then `inf`, `infinity` or `nan` in any case, or a decimal numeral. A decimal numeral has
digits before or after an optional point (at least one digit in all) and an optional
exponent; inside a run of digits single underscores may separate digits. The value is the
correctly rounded binary64 one.
-/

namespace Spacecraft

namespace Numeral

/-- The blanks allowed around a numeral. -/
def isBlank (c : Char) : Bool :=
  c == ' ' || ('\t' ≤ c && c ≤ '\r') || ('\x1c' ≤ c && c ≤ '\x1f') || c == '\x85' ||
    c == '\xa0' || c == '\u1680' || ('\u2000' ≤ c && c ≤ '\u200a') || c == '\u2028' ||
    c == '\u2029' || c == '\u202f' || c == '\u205f' || c == '\u3000'

/-- A run of digits with single underscores between digits, read from the front: its value,
its number of digits and what follows. An underscore not followed by a digit ends the run
and stays in the rest. -/
def digitRun : List Char → Nat → Nat → Nat × Nat × List Char
  | c :: rest, v, n =>
    if c.isDigit then digitRun rest (10 * v + (c.toNat - '0'.toNat)) (n + 1)
    else if c == '_' && n > 0 && (match rest with
        | d :: _ => d.isDigit
        | [] => false) then digitRun rest v n
    else (v, n, c :: rest)
  | [], v, n => (v, n, [])

/-- The exponent part, if the text is one: a marker, an optional sign and digits. -/
def exponentOf : List Char → Option Int
  | [] => some 0
  | e :: rest =>
    if e != 'e' && e != 'E' then none else
    let (neg, rest) := match rest with
      | '-' :: r => (true, r)
      | '+' :: r => (false, r)
      | r => (false, r)
    let (v, n, rest) := digitRun rest 0 0
    if n = 0 || !rest.isEmpty then none
    else some (if neg then -(v : Int) else v)

/-- The value of an unsigned numeral. -/
def unsigned (neg : Bool) (cs : List Char) : Option Float :=
  let word := String.ofList (cs.map Char.toLower)
  if word == "inf" || word == "infinity" then some (Binary64.signedInf neg)
  else if word == "nan" then some (0.0 / 0.0)
  else
    let (whole, wholeCount, rest) := digitRun cs 0 0
    let (frac, fracCount, rest) := match rest with
      | '.' :: r => digitRun r 0 0
      | r => (0, 0, r)
    if wholeCount + fracCount = 0 then none
    else do
      let e ← exponentOf rest
      pure (Binary64.ofDecimal neg (whole * Nat.pow 10 fracCount + frac) (e - fracCount))

/-- The number a text stands for, if it is a numeral. -/
def read? (s : String) : Option Float :=
  let cs := (s.toList.dropWhile isBlank).reverse.dropWhile isBlank |>.reverse
  match cs with
  | '-' :: rest => unsigned true rest
  | '+' :: rest => unsigned false rest
  | rest => unsigned false rest

end Numeral

end Spacecraft
