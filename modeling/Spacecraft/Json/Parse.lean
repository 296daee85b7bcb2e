import Spacecraft.Json.Value

/-!
# Reading JSON text

A reader for JSON text that keeps integers apart from floats (a number with a point or an
exponent is a float) and reads floats correctly rounded. It also takes the three words
`NaN`, `Infinity` and `-Infinity` for the floats JSON cannot spell. In an object a repeated
key keeps its first place and its last value. Blanks are space, tab, line feed and carriage
return; a control character inside a string is refused. A surrogate pair written as two
`\u` escapes makes one character, and a surrogate left alone becomes the replacement
character.
-/

namespace Spacecraft

namespace Json

/-- Skips blanks. -/
def skipBlank : List Char → List Char
  | c :: rest => if c == ' ' || c == '\t' || c == '\n' || c == '\r' then skipBlank rest else c :: rest
  | [] => []

/-- The value of a hexadecimal digit. -/
def hexValue (c : Char) : Option Nat :=
  if '0' ≤ c && c ≤ '9' then some (c.toNat - '0'.toNat)
  else if 'a' ≤ c && c ≤ 'f' then some (c.toNat - 'a'.toNat + 10)
  else if 'A' ≤ c && c ≤ 'F' then some (c.toNat - 'A'.toNat + 10)
  else none

/-- The value of four hexadecimal digits. -/
def hex4Of (a b c d : Char) : Option Nat := do
  let va ← hexValue a
  let vb ← hexValue b
  let vc ← hexValue c
  let vd ← hexValue d
  pure (((va * 16 + vb) * 16 + vc) * 16 + vd)

/-- The character of a `\u` escape whose value is not a surrogate, the replacement
character for a lone surrogate. -/
def escapedChar (v : Nat) : Char :=
  if 0xD800 ≤ v && v < 0xE000 then '\uFFFD' else Char.ofNat v

/-- The characters read so far, with a high surrogate that found no low half after it
standing alone. -/
def withPending (acc : List Char) : Option Nat → List Char
  | some hi => escapedChar hi :: acc
  | none => acc

/-- The body of a string after its opening quote, up to and past the closing quote. The
`\u` escape of a high surrogate waits in `pending`, and the escape of a low surrogate right
after it makes one character with it; any other escape or character after it leaves it
alone. -/
def readString (acc : List Char) (pending : Option Nat) : List Char → Option (String × List Char)
  | [] => none
  | '"' :: rest => some (String.ofList (withPending acc pending).reverse, rest)
  | '\\' :: 'u' :: a :: b :: c :: d :: rest =>
    match hex4Of a b c d, pending with
    | none, _ => none
    | some v, some hi =>
      if 0xDC00 ≤ v && v < 0xE000 then
        readString (Char.ofNat (0x10000 + (hi - 0xD800) * 0x400 + (v - 0xDC00)) :: acc) none rest
      else if 0xD800 ≤ v && v < 0xDC00 then readString (escapedChar hi :: acc) (some v) rest
      else readString (escapedChar v :: escapedChar hi :: acc) none rest
    | some v, none =>
      if 0xD800 ≤ v && v < 0xDC00 then readString acc (some v) rest
      else readString (escapedChar v :: acc) none rest
  | '\\' :: c :: rest =>
    match c with
    | '"' => readString ('"' :: withPending acc pending) none rest
    | '\\' => readString ('\\' :: withPending acc pending) none rest
    | '/' => readString ('/' :: withPending acc pending) none rest
    | 'b' => readString ('\x08' :: withPending acc pending) none rest
    | 'f' => readString ('\x0c' :: withPending acc pending) none rest
    | 'n' => readString ('\n' :: withPending acc pending) none rest
    | 'r' => readString ('\r' :: withPending acc pending) none rest
    | 't' => readString ('\t' :: withPending acc pending) none rest
    | _ => none
  | c :: rest =>
    if c.toNat < 0x20 then none else readString (c :: withPending acc pending) none rest

/-- Digits at the front, with their count. -/
def readDigits (acc : Nat) (count : Nat) : List Char → Nat × Nat × List Char
  | c :: rest => if c.isDigit then readDigits (acc * 10 + (c.toNat - '0'.toNat)) (count + 1) rest
    else (acc, count, c :: rest)
  | [] => (acc, count, [])

/-- A number: an optional minus, an integer part without leading zeros, an optional fraction
and an optional exponent. -/
def readNumber (cs : List Char) : Option (Json × List Char) :=
  let (neg, cs) := match cs with
    | '-' :: rest => (true, rest)
    | _ => (false, cs)
  match cs with
  | 'I' :: 'n' :: 'f' :: 'i' :: 'n' :: 'i' :: 't' :: 'y' :: rest =>
    if neg then some (.float (Binary64.signedInf true), rest) else none
  | '0' :: rest => finish neg 0 rest
  | c :: rest =>
    if c.isDigit then
      let (n, _, rest) := readDigits (c.toNat - '0'.toNat) 1 rest
      finish neg n rest
    else none
  | [] => none
where
  /-- The fraction and exponent after the integer part. -/
  finish (neg : Bool) (intPart : Nat) (cs : List Char) : Option (Json × List Char) :=
    let frac : Option (Nat × Nat × List Char) := match cs with
      | '.' :: rest =>
        let (f, count, rest) := readDigits 0 0 rest
        if count = 0 then none else some (f, count, rest)
      | _ => some (0, 0, cs)
    match frac with
    | none => none
    | some (f, fcount, rest) =>
      let hasFrac := fcount > 0
      let expPart : Option (Bool × Int × List Char) := match rest with
        | e :: rest2 =>
          if e == 'e' || e == 'E' then
            let (eneg, rest3) := match rest2 with
              | '-' :: r => (true, r)
              | '+' :: r => (false, r)
              | r => (false, r)
            let (ev, ecount, rest4) := readDigits 0 0 rest3
            if ecount = 0 then none
            else some (true, if eneg then -(ev : Int) else ev, rest4)
          else some (false, 0, rest)
        | [] => some (false, 0, [])
      match expPart with
      | none => none
      | some (hasExp, ex, rest) =>
        if hasFrac || hasExp then
          let digits := intPart * Nat.pow 10 fcount + f
          some (.float (Binary64.ofDecimal neg digits (ex - fcount)), rest)
        else some (.int (if neg then -(intPart : Int) else intPart), rest)

mutual
/-- A value at the front, after blanks; `fuel` bounds the nesting depth. -/
def readValue : Nat → List Char → Option (Json × List Char)
  | 0, _ => none
  | fuel + 1, cs =>
    match skipBlank cs with
    | '{' :: rest =>
      match skipBlank rest with
      | '}' :: rest2 => some (.obj [], rest2)
      | _ => readFields fuel [] rest
    | '[' :: rest =>
      match skipBlank rest with
      | ']' :: rest2 => some (.arr [], rest2)
      | _ => readItems fuel [] rest
    | '"' :: rest => (readString [] none rest).map fun (s, r) => (.str s, r)
    | 'n' :: 'u' :: 'l' :: 'l' :: rest => some (.null, rest)
    | 't' :: 'r' :: 'u' :: 'e' :: rest => some (.bool true, rest)
    | 'f' :: 'a' :: 'l' :: 's' :: 'e' :: rest => some (.bool false, rest)
    | 'N' :: 'a' :: 'N' :: rest => some (.float (0.0 / 0.0), rest)
    | 'I' :: 'n' :: 'f' :: 'i' :: 'n' :: 'i' :: 't' :: 'y' :: rest =>
      some (.float (Binary64.signedInf false), rest)
    | cs => readNumber cs

/-- The items of an array after its opening bracket, the first one not yet read. -/
def readItems : Nat → List Json → List Char → Option (Json × List Char)
  | 0, _, _ => none
  | fuel + 1, acc, cs =>
    match readValue fuel cs with
    | none => none
    | some (v, rest) =>
      match skipBlank rest with
      | ',' :: rest2 => readItems fuel (v :: acc) rest2
      | ']' :: rest2 => some (.arr (v :: acc).reverse, rest2)
      | _ => none

/-- The fields of an object after its opening brace, the first one not yet read. -/
def readFields : Nat → List (String × Json) → List Char → Option (Json × List Char)
  | 0, _, _ => none
  | fuel + 1, acc, cs =>
    match skipBlank cs with
    | '"' :: rest =>
      match readString [] none rest with
      | none => none
      | some (k, rest2) =>
        match skipBlank rest2 with
        | ':' :: rest3 =>
          match readValue fuel rest3 with
          | none => none
          | some (v, rest4) =>
            let acc := setField acc k v
            match skipBlank rest4 with
            | ',' :: rest5 => readFields fuel acc rest5
            | '}' :: rest5 => some (.obj acc, rest5)
            | _ => none
        | _ => none
    | _ => none
end

/-- Reads a whole text as one JSON document, with only blanks after it. -/
def parse (text : String) : Option Json :=
  let cs := text.toList
  match readValue (cs.length + 1) cs with
  | some (v, rest) => if skipBlank rest = [] then some v else none
  | none => none

/-! ## Steps of the reader -/

theorem skipBlank_cons (c : Char) (rest : List Char) :
    skipBlank (c :: rest) =
      if c == ' ' || c == '\t' || c == '\n' || c == '\r' then skipBlank rest else c :: rest := by
  rw [skipBlank]

theorem withPending_none (acc : List Char) : withPending acc none = acc := by
  rw [withPending]

theorem readString_nil (acc : List Char) (pending : Option Nat) : readString acc pending [] = none := by
  rw [readString]

theorem readValue_zero (cs : List Char) : readValue 0 cs = none := by
  rw [readValue]

theorem readItems_zero (acc : List Json) (cs : List Char) : readItems 0 acc cs = none := by
  rw [readItems]

theorem readFields_zero (acc : List (String × Json)) (cs : List Char) : readFields 0 acc cs = none := by
  rw [readFields]

end Json

end Spacecraft
