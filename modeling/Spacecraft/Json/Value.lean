import Spacecraft.Text.Notation

/-!
# JSON documents

Configuration files and the answers of this library are JSON documents. A document keeps
what a reader can tell apart in the text: an integer (no point, no exponent) is not a float,
and the fields of an object keep their order. Its JSON text is written compact (`render`) or
indented with one item per line and strings in ASCII (`pretty`). Besides the JSON text a
document has a second written form, the literal form used inside messages (`None`, `True`,
`'text'`, `[1, 2.5]`), which is how a message quotes a value it refuses.
-/

namespace Spacecraft

/-- A JSON document. -/
inductive Json where
  | null
  | bool (b : Bool)
  | int (n : Int)
  | float (x : Float)
  | str (s : String)
  | arr (items : List Json)
  | obj (fields : List (String × Json))
deriving Inhabited

namespace Json

/-- The value of a field of an object, if the document is an object holding it. -/
def get? (j : Json) (key : String) : Option Json :=
  match j with
  | .obj fields => (fields.find? (·.1 == key)).map (·.2)
  | _ => none

/-- Whether the document is an object with the field. -/
def has (j : Json) (key : String) : Bool := (j.get? key).isSome

/-- The keys of an object, in order. -/
def keys (j : Json) : List String :=
  match j with
  | .obj fields => fields.map (·.1)
  | _ => []

/-- Sets a field of a list of fields: a present key keeps its place and takes the new value,
a new key goes last. -/
def setField (fields : List (String × Json)) (key : String) (v : Json) : List (String × Json) :=
  if fields.any (·.1 == key) then fields.map fun (k, w) => if k == key then (k, v) else (k, w)
  else fields ++ [(key, v)]

/-- The name of the kind of a document, as messages name the type of a value. -/
def kindName : Json → String
  | .null => "NoneType"
  | .bool _ => "bool"
  | .int _ => "int"
  | .float _ => "float"
  | .str _ => "str"
  | .arr _ => "list"
  | .obj _ => "dict"

/-! ## JSON text -/

/-- Four hexadecimal digits. -/
def hex4 (n : Nat) : String :=
  let ds := Nat.toDigits 16 n
  String.ofList (List.replicate (4 - ds.length) '0' ++ ds)

/-- A string between double quotes with JSON escapes. -/
def quote (s : String) : String :=
  let body := s.toList.foldl (fun acc c =>
    acc ++ match c with
      | '"' => "\\\""
      | '\\' => "\\\\"
      | '\n' => "\\n"
      | '\r' => "\\r"
      | '\t' => "\\t"
      | c => if c.toNat < 0x20 then "\\u" ++ hex4 c.toNat else String.singleton c) ""
  "\"" ++ body ++ "\""

/-- The JSON text of a float: the shortest round-trip form, and `NaN`, `Infinity` or
`-Infinity` for the values JSON itself cannot spell. -/
def floatText (x : Float) : String :=
  if x.isNaN then "NaN"
  else if x.isInf then (if x < 0.0 then "-Infinity" else "Infinity")
  else Notation.shortest x

mutual
/-- The compact JSON text of a document. -/
def render : Json → String
  | .null => "null"
  | .bool b => if b then "true" else "false"
  | .int n => toString n
  | .float x => floatText x
  | .str s => quote s
  | .arr items => "[" ++ renderItems items ++ "]"
  | .obj fields => "\x7b" ++ renderFields fields ++ "\x7d"

/-- The items of an array, comma separated. -/
def renderItems : List Json → String
  | [] => ""
  | [x] => render x
  | x :: rest => render x ++ ", " ++ renderItems rest

/-- The fields of an object, comma separated. -/
def renderFields : List (String × Json) → String
  | [] => ""
  | [(k, v)] => quote k ++ ": " ++ render v
  | (k, v) :: rest => quote k ++ ": " ++ render v ++ ", " ++ renderFields rest
end

/-! ## Indented JSON text -/

/-- A character as JSON text in ASCII writes it: printable ASCII stands for itself, the quote
and the backslash escaped, five control characters take short escapes, and every other
character is a \u escape of four lowercase hexadecimal digits, one beyond the Basic
Multilingual Plane a pair of such escapes of its two surrogates. -/
def asciiEscape (c : Char) : String :=
  match c with
  | '"' => "\\\""
  | '\\' => "\\\\"
  | '\x08' => "\\b"
  | '\x0c' => "\\f"
  | '\n' => "\\n"
  | '\r' => "\\r"
  | '\t' => "\\t"
  | c =>
    if ' ' ≤ c && c ≤ '~' then String.singleton c
    else if c.toNat < 0x10000 then "\\u" ++ hex4 c.toNat
    else
      let n := c.toNat - 0x10000
      "\\u" ++ hex4 (0xD800 + n / 0x400) ++ "\\u" ++ hex4 (0xDC00 + n % 0x400)

/-- A string between double quotes, in ASCII. -/
def asciiQuote (s : String) : String :=
  "\"" ++ String.join (s.toList.map asciiEscape) ++ "\""

/-- A line break and the indentation of `level` steps of `width` spaces. -/
def newline (width level : Nat) : String :=
  "\n" ++ String.ofList (List.replicate (width * level) ' ')

mutual
/-- The indented JSON text of a document at nesting `level`: each item of a nonempty array
and each field of a nonempty object stands on a line of its own, one step deeper than the
brackets, with a comma after all but the last; strings are written in ASCII. -/
def pretty (width level : Nat) : Json → String
  | .null => "null"
  | .bool b => if b then "true" else "false"
  | .int n => toString n
  | .float x => floatText x
  | .str s => asciiQuote s
  | .arr [] => "[]"
  | .arr (x :: xs) => "[" ++ prettyItems width (level + 1) (x :: xs) ++ newline width level ++ "]"
  | .obj [] => "\x7b\x7d"
  | .obj (f :: fs) =>
    "\x7b" ++ prettyFields width (level + 1) (f :: fs) ++ newline width level ++ "\x7d"

/-- The items of an array, one per line. -/
def prettyItems (width level : Nat) : List Json → String
  | [] => ""
  | [x] => newline width level ++ pretty width level x
  | x :: rest => newline width level ++ pretty width level x ++ "," ++ prettyItems width level rest

/-- The fields of an object, one per line. -/
def prettyFields (width level : Nat) : List (String × Json) → String
  | [] => ""
  | [(k, v)] => newline width level ++ asciiQuote k ++ ": " ++ pretty width level v
  | (k, v) :: rest =>
    newline width level ++ asciiQuote k ++ ": " ++ pretty width level v ++ "," ++
      prettyFields width level rest
end

/-! ## Literal text in messages -/

/-- Two hexadecimal digits. -/
def hex2 (n : Nat) : String :=
  let ds := Nat.toDigits 16 n
  String.ofList (List.replicate (2 - ds.length) '0' ++ ds)

/-- A string as a literal: single quotes, or double quotes when it holds a single quote and
no double one; backslash escapes for the quote, the backslash and control characters. -/
def literalString (s : String) : String :=
  let q := if s.contains '\'' && !s.contains '"' then '"' else '\''
  let body := s.toList.foldl (fun acc c =>
    acc ++ (if c == q then "\\" ++ String.singleton c
      else match c with
        | '\\' => "\\\\"
        | '\n' => "\\n"
        | '\r' => "\\r"
        | '\t' => "\\t"
        | c => if c.toNat < 0x20 || c.toNat == 0x7f then "\\x" ++ hex2 c.toNat
          else String.singleton c)) ""
  String.singleton q ++ body ++ String.singleton q

mutual
/-- The literal text of a document, as a message quotes a value. -/
def literal : Json → String
  | .null => "None"
  | .bool b => if b then "True" else "False"
  | .int n => toString n
  | .float x => Notation.shortest x
  | .str s => literalString s
  | .arr items => "[" ++ literalItems items ++ "]"
  | .obj fields => "\x7b" ++ literalFields fields ++ "\x7d"

/-- The items of an array in literal text. -/
def literalItems : List Json → String
  | [] => ""
  | [x] => literal x
  | x :: rest => literal x ++ ", " ++ literalItems rest

/-- The fields of an object in literal text. -/
def literalFields : List (String × Json) → String
  | [] => ""
  | [(k, v)] => literalString k ++ ": " ++ literal v
  | (k, v) :: rest => literalString k ++ ": " ++ literal v ++ ", " ++ literalFields rest
end

/-- The plain text of a document in a message: a string stands for itself, anything else is
written as a literal. -/
def plainText : Json → String
  | .str s => s
  | j => literal j

/-! ## Indented text of the smallest documents -/

theorem pretty_null (width level : Nat) : pretty width level .null = "null" := by
  rw [pretty]

theorem prettyItems_nil (width level : Nat) : prettyItems width level [] = "" := by
  rw [prettyItems]

theorem prettyFields_nil (width level : Nat) : prettyFields width level [] = "" := by
  rw [prettyFields]

end Json

end Spacecraft
