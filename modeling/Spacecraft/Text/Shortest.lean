import Spacecraft.Numeric.Binary64

/-!
# Shortest decimal digits of a binary64 value

Every finite positive float `v = m · 2^q` has a rounding interval: the reals that a correctly
rounded reader turns back into `v`. Its ends are the midpoints to the two neighbouring
floats, and they belong to the interval exactly when `m` is even. The shortest digits of `v`
are those of the decimal with the fewest significant digits inside that interval, and of
those the nearest to `v` (an exact tie goes to the even last digit).

The search tries one, two, … seventeen significant digits. For `n` digits it looks at the
grid `10^(k - n + 1)`, where `10^k ≤ v < 10^(k + 1)`, and takes the grid points between the
two ends: all arithmetic is exact, on naturals.
-/

namespace Spacecraft

/-- A positive decimal `digits · 10^exp10`. -/
structure Decimal where
  digits : Nat
  exp10 : Int
deriving Repr, Inhabited, BEq

namespace Decimal

/-- The number of decimal digits of a natural, one for zero. -/
def digitCount (n : Nat) : Nat := (toString n).length

/-- Removes trailing zero digits, moving them into the exponent. -/
def normalize (d : Decimal) : Decimal :=
  go d (digitCount d.digits)
where
  go (d : Decimal) : Nat → Decimal
    | 0 => d
    | fuel + 1 =>
      if d.digits ≠ 0 && d.digits % 10 = 0 then go ⟨d.digits / 10, d.exp10 + 1⟩ fuel else d

/-- `a · 2^e2 · 10^e10` as a ratio of naturals. -/
def ratio (a : Nat) (e2 : Int) (e10 : Int) : Nat × Nat :=
  let num := a * Nat.pow 2 e2.toNat * Nat.pow 10 e10.toNat
  let den := Nat.pow 2 (-e2).toNat * Nat.pow 10 (-e10).toNat
  (num, den)

/-- Compares `a · 2^e2` with `10^k`. -/
def cmpPow10 (a : Nat) (e2 : Int) (k : Int) : Ordering :=
  let (n, d) := ratio a e2 (-k)
  compare n d

/-- The exponent `k` with `10^k ≤ a · 2^e2 < 10^(k + 1)`, for `a > 0`. -/
def log10Floor (a : Nat) (e2 : Int) : Int :=
  let l : Int := (a.log2 : Int) + e2
  let k0 : Int := Int.fdiv (l * 78913) 262144
  let k1 := if cmpPow10 a e2 k0 == .lt then k0 - 1 else k0
  let k2 := if cmpPow10 a e2 (k1 + 1) != .lt then k1 + 1 else k1
  if cmpPow10 a e2 (k2 + 1) != .lt then k2 + 1 else k2

/-- The least `d` with `d / den ≥ num` scaled, that is `⌈num / den⌉`, or the least `d` with
`d > num / den` when the end is excluded. -/
def ceilDiv (num den : Nat) (strict : Bool) : Nat :=
  if strict then num / den + 1 else (num + den - 1) / den

/-- The greatest `d` with `d ≤ num / den`, or `d < num / den` when the end is excluded. -/
def floorDiv (num den : Nat) (strict : Bool) : Int :=
  if strict && num % den = 0 then (num / den : Int) - 1 else (num / den : Int)

/-- `num / den` rounded to the nearest natural, a tie to the even one. -/
def roundHalfEven (num den : Nat) : Nat :=
  let q := num / den
  let r := num % den
  if 2 * r > den || (2 * r = den && q % 2 = 1) then q + 1 else q

/-- The decimal with `n` significant digits inside the rounding interval and nearest to the
value, if one exists. The interval is `[lo, hi] · 2^e2` (ends included when `closed`) and the
value is `v · 2^e2`; `k` is the decimal exponent of the value. -/
def candidate (v lo hi : Nat) (e2 : Int) (closed : Bool) (k : Int) (n : Nat) :
    Option Decimal :=
  let j : Int := k - n + 1
  let (ln, ld) := ratio lo e2 (-j)
  let (hn, hd) := ratio hi e2 (-j)
  let dl := ceilDiv ln ld (!closed)
  let dh := floorDiv hn hd (!closed)
  if (dl : Int) ≤ dh then
    let (vn, vd) := ratio v e2 (-j)
    let dn := roundHalfEven vn vd
    let d := if dn < dl then dl else if (dn : Int) > dh then dh.toNat else dn
    some (normalize ⟨d, j⟩)
  else none

/-- The shortest digits of a positive value `m · 2^q` (`m > 0`). -/
def shortestOf (m : Nat) (q : Int) : Decimal :=
  -- the interval in units of 2^(q-2): the value is 4m, the upper end 4m + 2, and the lower
  -- end 4m - 2, or 4m - 1 at a power of two whose lower neighbour is closer
  let lowGap := if m = Nat.pow 2 52 && q > -1074 then 1 else 2
  let v := 4 * m
  let k := log10Floor v (q - 2)
  let closed := m % 2 = 0
  let found := (List.range 17).findSome? fun i =>
    candidate v (v - lowGap) (v + 2) (q - 2) closed k (i + 1)
  found.getD (normalize ⟨m, 0⟩)

/-- The shortest digits of a finite nonzero float, ignoring its sign. -/
def shortest (x : Float) : Decimal :=
  match Binary64.decode x with
  | some d => if d.mant = 0 then ⟨0, 0⟩ else shortestOf d.mant d.exp
  | none => ⟨0, 0⟩

/-- The value rounded to `places` digits after the point, ties to even, as a natural count
of units of `10^-places`; the sign is dropped. -/
def fixedUnits (x : Float) (places : Nat) : Nat :=
  match Binary64.decode x with
  | some d =>
    let (n, den) := ratio d.mant d.exp places
    roundHalfEven n den
  | none => 0

/-- The value rounded to `prec + 1` significant digits, ties to even: the digits and the
decimal exponent of the first one. Zero gives zero digits and exponent zero. -/
def scientificUnits (x : Float) (prec : Nat) : Nat × Int :=
  match Binary64.decode x with
  | some d =>
    if d.mant = 0 then (0, 0) else
    let k := log10Floor d.mant d.exp
    let (n, den) := ratio d.mant d.exp (prec - k)
    let u := roundHalfEven n den
    if u = Nat.pow 10 (prec + 1) then (Nat.pow 10 prec, k + 1) else (u, k)
  | none => (0, 0)

end Decimal

end Spacecraft
