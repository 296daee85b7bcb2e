import Spacecraft.Fault
import Spacecraft.Numeric.Vec3

/-!
# Seeded uniform noise

A permuted congruential generator with 128-bit state and 64-bit output (the XSL-RR
variant), seeded through a hash-based seed sequence that spreads the 32-bit words of an
integer seed over a pool of four words. Doubles take the top 53 bits of an output, and a
uniform draw on `[lo, hi)` is `lo + (hi - lo) u`. All arithmetic is on natural numbers
reduced modulo the word sizes, so a seed of any size gives a well-defined sequence.
-/

namespace Spacecraft

namespace SeedPool

/-- Reduction modulo 2³². -/
def word (x : Nat) : Nat := x % Nat.pow 2 32

/-- The initial hash constant of the pool. -/
def initA : Nat := 0x43b0d7e5
/-- The multiplier of the pool hash. -/
def multA : Nat := 0x931e8875
/-- The initial hash constant of the output. -/
def initB : Nat := 0x8b51f9dd
/-- The multiplier of the output hash. -/
def multB : Nat := 0x58f38ded
/-- Left multiplier of the word mix. -/
def mixL : Nat := 0xca01f9dd
/-- Right multiplier of the word mix. -/
def mixR : Nat := 0x4973f715

/-- A word xored with itself shifted right by 16. -/
def fold (x : Nat) : Nat := x ^^^ (x >>> 16)

/-- Hashes a word with the running constant and advances the constant. -/
def hashMix (value c : Nat) : Nat × Nat :=
  let value := value ^^^ c
  let c := word (c * multA)
  (fold (word (value * c)), c)

/-- Mixes two words into one. -/
def mix (x y : Nat) : Nat :=
  fold (word (word (mixL * x) + Nat.pow 2 32 - word (mixR * y)))

/-- The 32-bit words of a seed, least significant first; zero is one zero word. -/
def words (seed : Nat) (fuel : Nat := 64) : List Nat :=
  match fuel with
  | 0 => []
  | fuel + 1 =>
    if seed < Nat.pow 2 32 then [seed] else word seed :: words (seed / Nat.pow 2 32) fuel

/-- The four-word pool of a seed: each word hashed in, all words mixed with each other,
then the remaining seed words mixed into every pool word. -/
def ofSeed (seed : Nat) : List Nat :=
  let entropy := words seed (seed.log2 / 32 + 2)
  let (pool, c) := (List.range 4).foldl (fun (pool, c) i =>
    let (h, c) := hashMix (entropy.getD i 0) c
    (pool ++ [h], c)) ([], initA)
  let pairs := (List.range 4).flatMap fun s => ((List.range 4).filter (· != s)).map (s, ·)
  let (pool, c) := pairs.foldl (fun (pool, c) (s, d) =>
    let (h, c) := hashMix (pool.getD s 0) c
    (pool.set d (mix (pool.getD d 0) h), c)) (pool, c)
  let (pool, _) := (entropy.drop 4).foldl (fun (pool, c) e =>
    (List.range 4).foldl (fun (pool, c) d =>
      let (h, c) := hashMix e c
      (pool.set d (mix (pool.getD d 0) h), c)) (pool, c)) (pool, c)
  pool

/-- `n` output words of a pool, cycling through it. -/
def generate (pool : List Nat) (n : Nat) : List Nat :=
  let (out, _) := (List.range n).foldl (fun (out, c) i =>
    let v := pool.getD (i % 4) 0 ^^^ c
    let c := word (c * multB)
    (out ++ [fold (word (v * c))], c)) ([], initB)
  out

end SeedPool

/-- The generator: a 128-bit state and an odd 128-bit increment. -/
structure Pcg where
  state : Nat
  inc : Nat
deriving Inhabited

namespace Pcg

/-- The multiplier of the 128-bit congruential step. -/
def multiplier : Nat := 0x2360ED051FC65DA44385DF649FCCF645

/-- One congruential step. -/
def step (g : Pcg) : Pcg := ⟨(g.state * multiplier + g.inc) % Nat.pow 2 128, g.inc⟩

/-- The generator of a non-negative integer seed. -/
def ofSeed (seed : Nat) : Pcg :=
  let w := SeedPool.generate (SeedPool.ofSeed seed) 8
  let u64 (i : Nat) := w.getD (2 * i) 0 + w.getD (2 * i + 1) 0 * Nat.pow 2 32
  let initState := u64 0 * Nat.pow 2 64 + u64 1
  let initSeq := u64 2 * Nat.pow 2 64 + u64 3
  let g := step ⟨0, (initSeq * 2 + 1) % Nat.pow 2 128⟩
  step ⟨(g.state + initState) % Nat.pow 2 128, g.inc⟩

/-- A 64-bit word rotated right by `r`. -/
def rotateRight (x r : Nat) : Nat := ((x >>> r) ||| (x <<< (64 - r))) % Nat.pow 2 64

/-- The next 64-bit output: the state is stepped, then its halves are xored and rotated by
its top six bits. -/
def next (g : Pcg) : Nat × Pcg :=
  let g := g.step
  let s := g.state
  (rotateRight ((s >>> 64) ^^^ (s % Nat.pow 2 64)) (s >>> 122), g)

/-- The next double in `[0, 1)`, from the top 53 bits of an output. -/
def nextUnit (g : Pcg) : Float × Pcg :=
  let (x, g) := g.next
  (Float.ofNat (x >>> 11) * (1.0 / 9007199254740992.0), g)

/-- Three uniform draws on `[lo, hi)`; a range that is not finite or is negative is
refused. -/
def uniform3 (g : Pcg) (lo hi : Float) : Outcome (Vec3 × Pcg) := do
  let range := hi - lo
  if !range.isFinite then throw (.overflow "high - low range exceeds valid bounds")
  if Binary64.signBitSet range then throw (.invalidArgument "high - low < 0")
  let (a, g) := g.nextUnit
  let (b, g) := g.nextUnit
  let (c, g) := g.nextUnit
  pure (⟨lo + range * a, lo + range * b, lo + range * c⟩, g)

end Pcg

end Spacecraft
