import Spacecraft.Text.Shortest

/-!
# Written forms of binary64 values

The texts a float takes in this library's output: the shortest round-trip form under a
layout (where positional notation ends, how the exponent is written), fixed places,
scientific notation with a fixed number of digits, and the aligned columns used to print a
small vector, where every entry is cut to a precision and padded to a common width.
-/

namespace Spacecraft

namespace Notation

/-- Where positional notation ends and how an exponent is written. With the value written
as `0.D × 10^p`, positional notation is used for `minPoint ≤ p ≤ maxPoint`. -/
structure Layout where
  minPoint : Int
  maxPoint : Int
  /-- A `+` before a non-negative exponent. -/
  plusSign : Bool
  /-- The least number of exponent digits. -/
  expWidth : Nat
  nanText : String
  infText : String

/-- The layout of value texts and messages: positional from `1e-4` up to below `1e16`, an
exponent of at least two digits with its sign, `nan` and `inf`. -/
def plain : Layout := ⟨-3, 16, true, 2, "nan", "inf"⟩

/-- The layout of table cells: positional from `1e-5` up to below `1e16`, a bare exponent,
`NaN` and `inf`. -/
def cell : Layout := ⟨-4, 16, false, 1, "NaN", "inf"⟩

/-- `n` written with at least `width` digits. -/
def padDigits (n : Nat) (width : Nat) : String :=
  let s := toString n
  String.ofList (List.replicate (width - s.length) '0') ++ s

/-- An exponent written after `e`. -/
def exponent (plusSign : Bool) (width : Nat) (e : Int) : String :=
  (if e < 0 then "-" else if plusSign then "+" else "") ++ padDigits e.natAbs width

/-- `count` zeros. -/
def zeros (count : Nat) : String := String.ofList (List.replicate count '0')

/-- A positive decimal written under a layout. -/
def Layout.decimal (l : Layout) (d : Decimal) : String :=
  let ds := toString d.digits
  let n := ds.length
  let p : Int := d.exp10 + n
  if l.minPoint ≤ p && p ≤ l.maxPoint then
    if p ≤ 0 then "0." ++ zeros (-p).toNat ++ ds
    else if p < n then
      String.ofList (ds.toList.take p.toNat) ++ "." ++ String.ofList (ds.toList.drop p.toNat)
    else ds ++ zeros (p.toNat - n) ++ ".0"
  else
    let mant := if n = 1 then ds
      else String.ofList (ds.toList.take 1) ++ "." ++ String.ofList (ds.toList.drop 1)
    mant ++ "e" ++ exponent l.plusSign l.expWidth (p - 1)

/-- The shortest round-trip text of a float under a layout. -/
def Layout.float (l : Layout) (x : Float) : String :=
  if x.isNaN then l.nanText
  else if x.isInf then (if x < 0.0 then "-" else "") ++ l.infText
  else
    let sign := if Binary64.signBitSet x then "-" else ""
    if x == 0.0 then sign ++ "0.0" else sign ++ l.decimal (Decimal.shortest x)

/-- The shortest round-trip text of a float, as values and messages write it. -/
def shortest (x : Float) : String := plain.float x

/-- A float with `places` digits after the point, rounded half to even from its exact value;
a negative value (or negative zero) keeps its minus sign. -/
def fixed (places : Nat) (x : Float) : String :=
  if x.isNaN then "nan"
  else if x.isInf then (if x < 0.0 then "-inf" else "inf")
  else
    let sign := if Binary64.signBitSet x then "-" else ""
    let u := Decimal.fixedUnits x places
    let whole := u / Nat.pow 10 places
    let frac := u % Nat.pow 10 places
    sign ++ toString whole ++ (if places = 0 then "" else "." ++ padDigits frac places)

/-- A float in scientific notation with `prec` digits after the point and an exponent of at
least two digits, rounded half to even from its exact value. -/
def scientific (prec : Nat) (x : Float) : String :=
  if x.isNaN then "nan"
  else if x.isInf then (if x < 0.0 then "-inf" else "inf")
  else
    let sign := if Binary64.signBitSet x then "-" else ""
    let (u, k) := Decimal.scientificUnits x prec
    let lead := u / Nat.pow 10 prec
    let rest := u % Nat.pow 10 prec
    sign ++ toString lead ++ (if prec = 0 then "" else "." ++ padDigits rest prec) ++ "e" ++
      exponent true 2 k

/-! ## Aligned columns -/

/-- The digits of `|x|` cut to at most `places` digits after the point: the shortest
round-trip digits when they fit, else the exact value rounded half to even. Trailing zeros
are dropped. -/
def cutFixed (places : Nat) (x : Float) : Decimal :=
  let d := Decimal.shortest x
  if x == 0.0 then ⟨0, 0⟩
  else if -(places : Int) ≤ d.exp10 then d
  else Decimal.normalize ⟨Decimal.fixedUnits x places, -(places : Int)⟩

/-- The integer and fraction parts of a cut decimal (the fraction may be empty). -/
def positionalParts (d : Decimal) : String × String :=
  if d.digits = 0 then ("0", "") else
  let ds := toString d.digits
  if 0 ≤ d.exp10 then (ds ++ zeros d.exp10.toNat, "")
  else
    let f := (-d.exp10).toNat
    if f < ds.length then
      (String.ofList (ds.toList.take (ds.length - f)), String.ofList (ds.toList.drop (ds.length - f)))
    else ("0", zeros (f - ds.length) ++ ds)

/-- The digits of `|x|` cut to at most `prec + 1` significant digits: the leading digit, the
following digits (trailing zeros dropped) and the decimal exponent of the leading digit. -/
def cutScientific (prec : Nat) (x : Float) : Nat × String × Int :=
  if x == 0.0 then (0, "", 0) else
  let d := Decimal.shortest x
  let n := Decimal.digitCount d.digits
  let (digits, k) :=
    if n ≤ prec + 1 then (toString d.digits, d.exp10 + n - 1)
    else
      let (u, k) := Decimal.scientificUnits x prec
      let dd := Decimal.normalize ⟨u, 0⟩
      (toString dd.digits, k)
  let lead := (digits.toList.head?.map (fun c => c.toNat - '0'.toNat)).getD 0
  (lead, String.ofList (digits.toList.drop 1), k)

/-- The sign text of a float in a column: a minus for negative values and negative zero. -/
def minus (x : Float) : String := if Binary64.signBitSet x then "-" else ""

/-- `s` padded on the left with spaces to `width`. -/
def padLeft (s : String) (width : Nat) : String :=
  String.ofList (List.replicate (width - s.length) ' ') ++ s

/-- `s` padded on the right with spaces to `width`. -/
def padRight (s : String) (width : Nat) : String :=
  s ++ String.ofList (List.replicate (width - s.length) ' ')

/-- Whether a row of values is written in scientific notation: when some nonzero finite
magnitude reaches `1e8`, falls below `1e-4`, or the largest is more than a thousand times the
smallest. -/
def needsScientific (xs : List Float) : Bool :=
  let mags := (xs.filter fun x => !x.isNaN && !x.isInf && x != 0.0).map Float.abs
  match mags with
  | [] => false
  | m :: ms =>
    let hi := ms.foldl max m
    let lo := ms.foldl min m
    hi ≥ 1e8 || lo < 1e-4 || hi / lo > 1000.0

/-- The text of a non-finite entry, right-aligned in a column of `width` characters. -/
def nonFinite (x : Float) (width : Nat) : String :=
  padLeft (if x.isNaN then "nan" else if x < 0.0 then "-inf" else "inf") width

/-- A row of floats written as aligned columns between brackets, each entry cut to
`prec` digits (after the point, or after the leading digit in scientific notation). -/
def row (prec : Nat) (xs : List Float) : String :=
  let finite := xs.filter fun x => !x.isNaN && !x.isInf
  let hasNonFinite := finite.length != xs.length
  let negInf := xs.any fun x => x.isInf && x < 0.0
  let cells : List String :=
    if needsScientific xs then
      let parts := finite.map fun x =>
        let (lead, rest, k) := cutScientific prec x
        (minus x ++ toString lead, rest, k)
      let expWidth := parts.foldl (fun w (_, _, k) => max w (max 2 (toString k.natAbs).length)) 0
      let p := parts.foldl (fun w (_, r, _) => max w r.length) 0
      let padL := parts.foldl (fun w (i, _, _) => max w i.length) 0
      let padR := expWidth + 2 + p
      let padL := if hasNonFinite then
          max padL (max (3 - (padR + 1)) (3 + (if negInf then 1 else 0) - (padR + 1)))
        else padL
      xs.map fun x =>
        if x.isNaN || x.isInf then nonFinite x (padL + padR + 1) else
        let (lead, rest, k) := cutScientific prec x
        padLeft (minus x ++ toString lead) padL ++ "." ++ rest ++ zeros (p - rest.length) ++
          "e" ++ exponent true expWidth k
    else
      let parts := finite.map fun x =>
        let (i, f) := positionalParts (cutFixed prec x)
        (minus x ++ i, f)
      let padL := parts.foldl (fun w (i, _) => max w i.length) 0
      let padR := parts.foldl (fun w (_, f) => max w f.length) 0
      let padL := if hasNonFinite then
          max padL (max (3 - (padR + 1)) (3 + (if negInf then 1 else 0) - (padR + 1)))
        else padL
      xs.map fun x =>
        if x.isNaN || x.isInf then nonFinite x (padL + padR + 1) else
        let (i, f) := positionalParts (cutFixed prec x)
        padLeft (minus x ++ i) padL ++ "." ++ padRight f padR
  "[" ++ " ".intercalate cells ++ "]"

end Notation

end Spacecraft
