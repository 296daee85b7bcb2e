import Spacecraft.Fault
import Spacecraft.Numeric.Vec3

/-!
# Exponential atmosphere

A static, spherically symmetric atmosphere from sea level to 1000 km, split into bands.
Inside a band the density falls exponentially from the band's base density with the band's
scale height. Below a minimum altitude the model refuses to answer (the satellite has
re-entered); above a ceiling the density is zero.

The band of an altitude is the last band whose base lies at or below it; an altitude below
every base takes the first band and an undefined altitude the last.
-/

namespace Spacecraft

/-- One band, over some kind of number: base altitude [km], density at the base [kg/m³] and
scale height [km]. -/
structure AtmosphereBand (K : Type) where
  base : K
  density : K
  scaleHeight : K
deriving Inhabited

namespace AtmosphereBand

/-- The bands of the model, by increasing base altitude, as decimals of any kind of number. -/
def table {K : Type} [OfScientific K] : List (AtmosphereBand K) := [
  ⟨0.0, 1.225, 7.249⟩, ⟨25.0, 3.899e-2, 6.349⟩, ⟨30.0, 1.774e-2, 6.682⟩,
  ⟨40.0, 3.972e-3, 7.554⟩, ⟨50.0, 1.057e-3, 8.382⟩, ⟨60.0, 3.206e-4, 7.714⟩,
  ⟨70.0, 8.770e-5, 6.549⟩, ⟨80.0, 1.905e-5, 5.799⟩, ⟨90.0, 3.396e-6, 5.382⟩,
  ⟨100.0, 5.297e-7, 5.877⟩, ⟨110.0, 9.661e-8, 7.263⟩, ⟨120.0, 2.438e-8, 9.473⟩,
  ⟨130.0, 8.484e-9, 12.636⟩, ⟨140.0, 3.845e-9, 16.149⟩, ⟨150.0, 2.070e-9, 22.523⟩,
  ⟨180.0, 5.464e-10, 29.740⟩, ⟨200.0, 2.789e-10, 37.105⟩, ⟨250.0, 7.248e-11, 45.546⟩,
  ⟨300.0, 2.418e-11, 53.628⟩, ⟨350.0, 9.518e-12, 53.298⟩, ⟨400.0, 3.725e-12, 58.515⟩,
  ⟨450.0, 1.585e-12, 60.828⟩, ⟨500.0, 6.967e-13, 63.822⟩, ⟨600.0, 1.454e-13, 71.835⟩,
  ⟨700.0, 3.614e-14, 88.667⟩, ⟨800.0, 1.170e-14, 124.64⟩, ⟨900.0, 5.245e-15, 181.05⟩,
  ⟨1000.0, 3.019e-15, 268.00⟩]

/-- The index of the band of an altitude [m]. -/
def indexOf (altitude : Float) : Nat :=
  if altitude.isNaN then (table (K := Float)).length - 1
  else ((table (K := Float)).filter fun b => b.base * 1000.0 ≤ altitude).length - 1

/-- The band of an altitude [m]. -/
def ofAltitude (altitude : Float) : AtmosphereBand Float :=
  table.getD (indexOf altitude) default

end AtmosphereBand

/-- The density found at an altitude, with the scale height of its band. -/
structure DensitySample where
  altitude : Float
  density : Float
  scaleHeight : Float

/-- Above the ceiling the density is exactly zero. -/
def DensitySample.isVacuum (s : DensitySample) : Bool := s.density == 0.0

/-- The atmosphere: lowest valid altitude, ceiling, and the radius that turns a position
into an altitude. -/
structure Atmosphere where
  minAltitude : Float := 0.0
  maxAltitude : Float := 1000.0e3
  bodyRadius : Float := earthRadius
deriving Inhabited

namespace Atmosphere

/-- The refusal of an altitude below the valid range. -/
def belowRange (a : Atmosphere) (altitude : Float) (time : Option Float)
    (position : Option (List Float)) : Fault :=
  .outsideDomain ("Atmosphere evaluated at altitude " ++ Notation.fixed 1 altitude ++
    " m, below " ++ Notation.fixed 1 a.minAltitude ++ " m") time position

/-- Density and scale height at a geometric altitude [m]. -/
def atAltitude (a : Atmosphere) (altitude : Float) : Outcome DensitySample := do
  if altitude < a.minAltitude then throw (a.belowRange altitude none none)
  let band := AtmosphereBand.ofAltitude altitude
  let scale := band.scaleHeight * 1000.0
  if altitude > a.maxAltitude then return ⟨altitude, 0.0, scale⟩
  let density := band.density * (-(altitude - band.base * 1000.0) / scale).exp
  return ⟨altitude, density, scale⟩

/-- Density [kg/m³] at a geometric altitude [m]. -/
def density (a : Atmosphere) (altitude : Float) : Outcome Float :=
  DensitySample.density <$> a.atAltitude altitude

/-- Density [kg/m³] at an inertial position [m]; a refusal names the time and position. -/
def field (a : Atmosphere) (t : Float) (p : Vec3) : Outcome Float := do
  let altitude := p.norm - a.bodyRadius
  if altitude < a.minAltitude then throw (a.belowRange altitude (some t) (some p.toList))
  a.density altitude

/-- Densities over a list of altitudes, refused at the first altitude out of range. -/
def profile (a : Atmosphere) (altitudes : List Float) : Outcome (List Float) :=
  altitudes.mapM a.density

end Atmosphere

end Spacecraft
