import Spacecraft.Time.Epoch
import Spacecraft.Numeric.Vec3

/-!
# Sun and Moon positions

Low-precision analytic series for the geocentric positions of the Sun and the Moon in the
mean equator and equinox of J2000, the inertial frame of this library: the ecliptic
longitude, latitude and distance as trigonometric series in Julian centuries since J2000,
rotated from the ecliptic to the equator by the mean obliquity. The difference between UTC
and TT is ignored.
-/

namespace Spacecraft

namespace SunMoon

/-- One arcsecond in radians. -/
def arcsec : Float := pi / (180.0 * 3600.0)

/-- Mean obliquity of the ecliptic at J2000. -/
def obliquity : Float := radians 23.43929111

/-- Ecliptic components rotated to equatorial ones. -/
def eclipticToEquatorial (v : Vec3) : Vec3 :=
  let c := obliquity.cos
  let s := obliquity.sin
  ⟨v.x, c * v.y - s * v.z, s * v.y + c * v.z⟩

/-- Geocentric position of the Sun [m] at `seconds` after an epoch. -/
def sun (epoch : Epoch) (seconds : Float) : Vec3 :=
  let t := epoch.julianCenturies seconds
  let m := radians (357.5256 + 35999.049 * t)
  let longitude := radians 282.9400 + m + (6892.0 * m.sin + 72.0 * (2.0 * m).sin) * arcsec
  let distance := (149.619 - 2.499 * m.cos - 0.021 * (2.0 * m).cos) * 1.0e9
  eclipticToEquatorial (Vec3.smul distance ⟨longitude.cos, longitude.sin, 0.0⟩)

/-- Geocentric position of the Moon [m] at `seconds` after an epoch. -/
def moon (epoch : Epoch) (seconds : Float) : Vec3 :=
  let t := epoch.julianCenturies seconds
  let l0 := radians (218.31617 + 481267.88088 * t - 1.3972 * t)
  let l := radians (134.96292 + 477198.86753 * t)
  let lp := radians (357.52543 + 35999.04944 * t)
  let f := radians (93.27283 + 483202.01873 * t)
  let d := radians (297.85027 + 445267.11135 * t)
  let sin := Float.sin
  let cos := Float.cos
  let longitude := l0 + arcsec * (
    22640.0 * sin l + 769.0 * sin (2.0 * l)
    - 4586.0 * sin (l - 2.0 * d) + 2370.0 * sin (2.0 * d)
    - 668.0 * sin lp - 412.0 * sin (2.0 * f)
    - 212.0 * sin (2.0 * l - 2.0 * d) - 206.0 * sin (l + lp - 2.0 * d)
    + 192.0 * sin (l + 2.0 * d) - 165.0 * sin (lp - 2.0 * d)
    + 148.0 * sin (l - lp) - 125.0 * sin d
    - 110.0 * sin (l + lp) - 55.0 * sin (2.0 * f - 2.0 * d))
  let latitude := arcsec * (
    18520.0 * sin (f + longitude - l0 + arcsec * (412.0 * sin (2.0 * f) + 541.0 * sin lp))
    - 526.0 * sin (f - 2.0 * d) + 44.0 * sin (l + f - 2.0 * d)
    - 31.0 * sin (-l + f - 2.0 * d) - 25.0 * sin (-2.0 * l + f)
    - 23.0 * sin (lp + f - 2.0 * d) + 21.0 * sin (-l + f)
    + 11.0 * sin (-lp + f - 2.0 * d))
  let distance := (
    385000.0 - 20905.0 * cos l - 3699.0 * cos (2.0 * d - l)
    - 2956.0 * cos (2.0 * d) - 570.0 * cos (2.0 * l)
    + 246.0 * cos (2.0 * l - 2.0 * d) - 205.0 * cos (lp - 2.0 * d)
    - 171.0 * cos (l + 2.0 * d) - 152.0 * cos (l + lp - 2.0 * d)) * 1000.0
  eclipticToEquatorial (Vec3.smul distance
    ⟨longitude.cos * latitude.cos, longitude.sin * latitude.cos, latitude.sin⟩)

end SunMoon

end Spacecraft
