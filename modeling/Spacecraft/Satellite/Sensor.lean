import Spacecraft.Numeric.Random
import Spacecraft.Text.Notation
import Spacecraft.Fault

/-!
# Noisy sensors

A three-axis sensor reads a true vector and adds noise drawn uniformly, per axis, from
`[-n, n)` by its own seeded generator, so runs with the same seeds repeat exactly. The
magnetometer reads the geomagnetic field in body axes and the gyrometer the body rates.
A reading draws its noise first; a reading whose true value cannot be found still uses up
its draw.
-/

namespace Spacecraft

/-- A sensor: noise half-width, seed and the generator's current state. -/
structure Sensor where
  noise : Float
  seed : Nat
  gen : Pcg
deriving Inhabited

namespace Sensor

/-- The generator of a seed; a negative seed is refused. -/
def generator (seed : Int) : Outcome Pcg :=
  if seed < 0 then throw (.invalidArgument "expected non-negative integer")
  else pure (Pcg.ofSeed seed.toNat)

/-- A sensor of a noise half-width and seed; a negative half-width is refused. -/
def make (noise : Float) (seed : Int) : Outcome Sensor := do
  if noise < 0.0 then
    throw (.invalidArgument ("Noise intensity must be non-negative, got " ++ Notation.shortest noise))
  let gen ← generator seed
  pure ⟨noise, seed.toNat, gen⟩

/-- The sensor restarted from its seed. -/
def reset (s : Sensor) : Sensor := { s with gen := Pcg.ofSeed s.seed }

/-- A reading of a true vector: the noise is drawn first, so the sensor moves on even when
the true value is a fault. -/
def read (truth : Outcome Vec3) : Tracked Sensor Vec3 := do
  let s ← get
  let (noise, gen) ← Tracked.lift (s.gen.uniform3 (-s.noise) s.noise)
  set { s with gen }
  let v ← Tracked.lift truth
  pure (v + noise)

end Sensor

end Spacecraft
