import Mathlib
import Spacecraft.Proofs.Json.Numbers
import Spacecraft.Proofs.Binary64.Bits

/-!
# Indented JSON text reads back

The indented writer `pretty` and the reader `parse` are inverse on every document whose
objects hold each key once (`parse_pretty`). The reader keeps the first place of a repeated
key, so that condition is what makes the object come back with all its fields.

* A string comes back character by character: a printable character stands for itself, a
  character of the Basic Multilingual Plane comes back from its four hexadecimal digits, and
  one beyond it from the pair of surrogates it was written as (`readString_asciiEscape`).
* Every written value starts with a character that is neither a blank nor a closing bracket
  (`pretty_head`), so that the reader, having skipped the line break and the indentation in
  front of it, takes it for a value and not for the end of a list.
* The three readers of values, items and fields are shown by one mutual induction on the
  document to read their part of the text back (`readValue_pretty`), with more fuel than the
  text has characters. What follows a value is a comma, a line break or nothing, none of
  which continues a number.
-/

namespace Spacecraft
namespace Json

/-! ## Hexadecimal escapes -/

theorem hexValue_digitChar : ∀ k < 16, hexValue (Nat.digitChar k) = some k := by decide

/-- Four hexadecimal digits, leading zeros included, of a value below `0x10000`. -/
theorem hex4_toList {v : Nat} (hv : v < 0x10000) :
    (hex4 v).toList = [Nat.digitChar (v / 4096), Nat.digitChar (v / 256 % 16),
      Nat.digitChar (v / 16 % 16), Nat.digitChar (v % 16)] := by
  unfold hex4
  simp only [String.toList_ofList]
  have h0 : Nat.digitChar 0 = '0' := rfl
  rcases Nat.lt_or_ge v 16 with h1 | h1
  · rw [Nat.toDigits_of_lt_base h1]
    simp [Nat.div_eq_of_lt (by omega : v < 4096), Nat.div_eq_of_lt (by omega : v < 256),
      Nat.div_eq_of_lt h1, Nat.mod_eq_of_lt h1, h0]
  rcases Nat.lt_or_ge v 256 with h2 | h2
  · rw [Nat.toDigits_of_base_le (by norm_num) h1, Nat.toDigits_of_lt_base (by omega : v / 16 < 16)]
    simp [Nat.div_eq_of_lt (by omega : v < 4096), Nat.div_eq_of_lt h2, h0,
      Nat.mod_eq_of_lt (by omega : v / 16 < 16)]
  rcases Nat.lt_or_ge v 4096 with h3 | h3
  · rw [Nat.toDigits_of_base_le (by norm_num) h1,
      Nat.toDigits_of_base_le (by norm_num) (by omega : 16 ≤ v / 16),
      Nat.toDigits_of_lt_base (by omega : v / 16 / 16 < 16)]
    simp [Nat.div_eq_of_lt h3, h0, Nat.div_div_eq_div_mul,
      Nat.mod_eq_of_lt (by omega : v / 256 < 16)]
  · rw [Nat.toDigits_of_base_le (by norm_num) h1,
      Nat.toDigits_of_base_le (by norm_num) (by omega : 16 ≤ v / 16),
      Nat.toDigits_of_base_le (by norm_num) (by omega : 16 ≤ v / 16 / 16),
      Nat.toDigits_of_lt_base (by omega : v / 16 / 16 / 16 < 16)]
    simp [Nat.div_div_eq_div_mul]

/-- Four hexadecimal digits written by `hex4` read back as their value. -/
theorem hex4Of_hex4 {v : Nat} (hv : v < 0x10000) :
    ∃ a b c d, (hex4 v).toList = [a, b, c, d] ∧ hex4Of a b c d = some v := by
  refine ⟨_, _, _, _, hex4_toList hv, ?_⟩
  simp only [hex4Of, hexValue_digitChar _ (by omega : v / 4096 < 16),
    hexValue_digitChar _ (Nat.mod_lt _ (by norm_num : 0 < 16)), Option.bind_eq_bind,
    Option.pure_def, Option.bind_some, Option.some.injEq]
  omega

/-! ## Strings -/

theorem toNat_of_char (c : Char) : c.toNat < 0xD800 ∨ 0xDFFF < c.toNat ∧ c.toNat < 0x110000 := by
  have h := c.valid
  simp only [UInt32.isValidChar, Nat.isValidChar] at h
  exact h

/-- A character neither a quote nor a backslash nor a control character stands for itself. -/
theorem readString_plain {c : Char} (hq : c ≠ '"') (hb : c ≠ '\\') (hc : 0x20 ≤ c.toNat)
    (acc : List Char) (p : Option Nat) (more : List Char) :
    readString acc p (c :: more) = readString (c :: withPending acc p) none more := by
  rw [readString]
  · simp [Nat.not_lt.mpr hc]
  all_goals simp_all

section Escape
variable {v : Nat} (acc : List Char) (more : List Char)

theorem readString_hex4_single (hv : v < 0x10000) (hs : ¬ (0xD800 ≤ v ∧ v < 0xDC00)) :
    readString acc none (['\\', 'u'] ++ ((hex4 v).toList ++ more)) =
      readString (escapedChar v :: acc) none more := by
  obtain ⟨a, b, c, d, hl, hr⟩ := hex4Of_hex4 hv
  simp [hl, readString, hr, hs]

theorem readString_hex4_high (hv : 0xD800 ≤ v ∧ v < 0xDC00) :
    readString acc none (['\\', 'u'] ++ ((hex4 v).toList ++ more)) =
      readString acc (some v) more := by
  obtain ⟨a, b, c, d, hl, hr⟩ := hex4Of_hex4 (by omega : v < 0x10000)
  simp [hl, readString, hr, hv]

theorem readString_hex4_low (hi : Nat) (hv : 0xDC00 ≤ v ∧ v < 0xE000) :
    readString acc (some hi) (['\\', 'u'] ++ ((hex4 v).toList ++ more)) =
      readString (Char.ofNat (0x10000 + (hi - 0xD800) * 0x400 + (v - 0xDC00)) :: acc) none more := by
  obtain ⟨a, b, c, d, hl, hr⟩ := hex4Of_hex4 (by omega : v < 0x10000)
  simp [hl, readString, hr, hv]

/-- Reading one escaped character back gives that character. -/
theorem readString_asciiEscape (c : Char) :
    readString acc none ((asciiEscape c).toList ++ more) = readString (c :: acc) none more := by
  unfold asciiEscape
  split
  iterate 7 simp [readString, withPending]
  next _ hq hb _ _ _ _ _ =>
    have hvalid := toNat_of_char c
    have hu : "\\u".toList = ['\\', 'u'] := by simp
    split_ifs with hp hbmp
    · have h20 : 0x20 ≤ c.toNat := by
        simp only [Bool.and_eq_true, decide_eq_true_eq, Char.le_def] at hp
        exact hp.1
      simp [readString_plain hq hb h20, withPending]
    · rw [String.toList_append, hu, List.append_assoc, readString_hex4_single _ _ hbmp (by omega)]
      simp [escapedChar, show ¬ (0xD800 ≤ c.toNat ∧ c.toNat < 0xE000) by omega]
    · -- beyond the Basic Multilingual Plane the high surrogate waits for the low one
      dsimp only
      rw [String.toList_append, String.toList_append, String.toList_append, hu,
        List.append_assoc, List.append_assoc, List.append_assoc,
        readString_hex4_high _ _ (by omega), readString_hex4_low _ _ _ (by omega)]
      have hpair : 0x10000 + (0xD800 + (c.toNat - 0x10000) / 0x400 - 0xD800) * 0x400 +
          (0xDC00 + (c.toNat - 0x10000) % 0x400 - 0xDC00) = c.toNat := by omega
      rw [hpair, Char.ofNat_toNat]

/-- The body of a string written in ASCII escapes reads back up to its closing quote. -/
theorem readString_escaped (cs : List Char) (acc more : List Char) :
    readString acc none ((String.join (cs.map asciiEscape)).toList ++ '"' :: more) =
      some (String.ofList (acc.reverse ++ cs), more) := by
  induction cs generalizing acc with
  | nil => simp [readString, withPending]
  | cons c cs ih =>
    rw [List.map_cons, String.join_cons, String.toList_append, List.append_assoc,
      readString_asciiEscape, ih]
    simp

end Escape

theorem asciiQuote_toList (s : String) :
    (asciiQuote s).toList = '"' :: ((String.join (s.toList.map asciiEscape)).toList ++ ['"']) := by
  simp [asciiQuote]

/-- A string written in ASCII reads back. -/
theorem readString_asciiQuote (s : String) (more : List Char) :
    readString [] none ((String.join (s.toList.map asciiEscape)).toList ++ '"' :: more) =
      some (s, more) := by
  rw [readString_escaped]
  simp

/-! ## Blanks -/

theorem newline_toList (w l : Nat) :
    (newline w l).toList = '\n' :: List.replicate (w * l) ' ' := by
  simp [newline]

theorem skipBlank_replicate (k : Nat) (cs : List Char) :
    skipBlank (List.replicate k ' ' ++ cs) = skipBlank cs := by
  induction k with
  | zero => rfl
  | succ k ih => simp [List.replicate_succ, skipBlank, ih]

theorem skipBlank_space (cs : List Char) : skipBlank (' ' :: cs) = skipBlank cs := by
  simp [skipBlank]

theorem skipBlank_newline (w l : Nat) (cs : List Char) :
    skipBlank ((newline w l).toList ++ cs) = skipBlank cs := by
  rw [newline_toList, List.cons_append, skipBlank]
  simp [skipBlank_replicate]

/-- A character that stops the skipping of blanks and closes nothing: the first character of
every written value. -/
def Opens (c : Char) : Prop := c ≠ ' ' ∧ c ≠ '\t' ∧ c ≠ '\n' ∧ c ≠ '\r' ∧ c ≠ ']' ∧ c ≠ '\x7d'

instance : DecidablePred Opens := fun c => by
  unfold Opens
  infer_instance

theorem skipBlank_of_opens {c : Char} (hc : Opens c) (cs : List Char) :
    skipBlank (c :: cs) = c :: cs := by
  obtain ⟨h1, h2, h3, h4, -, -⟩ := hc
  simp [skipBlank, h1, h2, h3, h4]

theorem readValue_newline (fuel w l : Nat) (cs : List Char) :
    readValue fuel ((newline w l).toList ++ cs) = readValue fuel cs := by
  cases fuel with
  | zero => rfl
  | succ fuel => rw [readValue, readValue, skipBlank_newline]

/-! ## Numbers -/

/-- A number starts with a minus or a digit. -/
theorem readNumber_head {cs : List Char} {r : Json × List Char} (h : readNumber cs = some r) :
    ∃ c rest, cs = c :: rest ∧ (c = '-' ∨ c.isDigit = true) := by
  rcases cs with _ | ⟨c, rest⟩
  · simp [readNumber] at h
  · refine ⟨c, rest, rfl, ?_⟩
    by_contra hc
    simp only [not_or, Bool.not_eq_true] at hc
    have h0 : c ≠ '0' := by rintro rfl; simp at hc
    unfold readNumber at h
    split at h
    next _ neg cs hsign =>
      have hpos : neg = false ∧ cs = c :: rest := by split at hsign <;> simp_all
      obtain ⟨rfl, rfl⟩ := hpos
      split at h <;> simp_all

theorem opens_of_number {c : Char} (hc : c = '-' ∨ c.isDigit = true) : Opens c := by
  rcases hc with rfl | hc
  · decide
  · refine ⟨?_, ?_, ?_, ?_, ?_, ?_⟩ <;> (rintro rfl; simp at hc)

/-- A value that is not a word, a string or a bracket is read as a number. -/
theorem readValue_of_readNumber {cs : List Char} {r : Json × List Char}
    (h : readNumber cs = some r) (fuel : Nat) : readValue (fuel + 1) cs = some r := by
  obtain ⟨c, rest, rfl, hc⟩ := readNumber_head h
  rw [readValue, skipBlank_of_opens (opens_of_number hc)]
  split <;> simp_all

/-! ## The shape of indented text -/

section Shape

variable (w l : Nat)

theorem pretty_arr_toList (x : Json) (xs : List Json) :
    (pretty w l (.arr (x :: xs))).toList =
      '[' :: ((prettyItems w (l + 1) (x :: xs)).toList ++ ((newline w l).toList ++ [']'])) := by
  simp [pretty]

theorem pretty_obj_toList (f : String × Json) (fs : List (String × Json)) :
    (pretty w l (.obj (f :: fs))).toList =
      '\x7b' :: ((prettyFields w (l + 1) (f :: fs)).toList ++ ((newline w l).toList ++ ['\x7d'])) := by
  simp [pretty]

theorem prettyItems_single (x : Json) :
    (prettyItems w l [x]).toList = (newline w l).toList ++ (pretty w l x).toList := by
  simp [prettyItems]

theorem prettyItems_cons (x y : Json) (ys : List Json) :
    (prettyItems w l (x :: y :: ys)).toList = (newline w l).toList ++
      ((pretty w l x).toList ++ ',' :: (prettyItems w l (y :: ys)).toList) := by
  simp [prettyItems]

theorem prettyFields_single (k : String) (v : Json) :
    (prettyFields w l [(k, v)]).toList = (newline w l).toList ++ ('"' ::
      ((String.join (k.toList.map asciiEscape)).toList ++ '"' :: ':' :: ' ' :: (pretty w l v).toList)) := by
  simp [prettyFields, asciiQuote_toList]

theorem prettyFields_cons (k : String) (v : Json) (f : String × Json) (fs : List (String × Json)) :
    (prettyFields w l ((k, v) :: f :: fs)).toList = (newline w l).toList ++ ('"' ::
      ((String.join (k.toList.map asciiEscape)).toList ++ '"' :: ':' :: ' ' ::
        ((pretty w l v).toList ++ ',' :: (prettyFields w l (f :: fs)).toList))) := by
  simp [prettyFields, asciiQuote_toList]

end Shape

theorem EndsNumber.nil : EndsNumber [] := by
  intro c r h
  cases h

theorem EndsNumber.comma (r : List Char) : EndsNumber (',' :: r) := by
  rintro c r' ⟨⟩
  decide

theorem EndsNumber.newline (w l : Nat) (r : List Char) : EndsNumber ((newline w l).toList ++ r) := by
  rw [newline_toList]
  rintro c r' ⟨⟩
  decide

theorem readValue_space (fuel : Nat) (cs : List Char) :
    readValue fuel (' ' :: cs) = readValue fuel cs := by
  cases fuel with
  | zero => rfl
  | succ fuel => rw [readValue, readValue, skipBlank_space]

/-- A new key goes last. -/
theorem setField_of_not_mem {fields : List (String × Json)} {key : String}
    (h : key ∉ fields.map (·.1)) (v : Json) : setField fields key v = fields ++ [(key, v)] := by
  rw [setField, if_neg]
  simpa using h

/-- The text of a float reads back as the float: `NaN`, the two infinities, and the shortest
digits of a finite float. -/
theorem readValue_floatText (x : Float) (fuel : Nat) {more : List Char} (hmore : EndsNumber more) :
    readValue (fuel + 1) ((floatText x).toList ++ more) = some (.float x, more) := by
  unfold floatText
  split_ifs with hn hi hneg
  · rw [Binary64.eq_nan_of_isNaN hn]
    simp [readValue, skipBlank]
  · have hx : x = Binary64.signedInf true := by
      rw [Binary64.eq_signedInf hi, decide_eq_true hneg]
    rw [hx]
    apply readValue_of_readNumber
    simp [readNumber]
  · have hx : x = Binary64.signedInf false := by
      rw [Binary64.eq_signedInf hi, decide_eq_false hneg]
    rw [hx]
    simp [readValue, skipBlank]
  · exact readValue_of_readNumber
      (readNumber_shortest (Bool.eq_false_iff.mpr hn) (Bool.eq_false_iff.mpr hi) hmore) fuel

theorem prettyItems_head (w l : Nat) (x : Json) (xs : List Json) :
    ∃ tail, (prettyItems w l (x :: xs)).toList = (newline w l).toList ++ ((pretty w l x).toList ++ tail) := by
  cases xs with
  | nil => exact ⟨[], by rw [prettyItems_single, List.append_nil]⟩
  | cons y ys => exact ⟨_, prettyItems_cons w l x y ys⟩

theorem prettyFields_head (w l : Nat) (f : String × Json) (fs : List (String × Json)) :
    ∃ tail, (prettyFields w l (f :: fs)).toList = (newline w l).toList ++ ('"' :: tail) := by
  obtain ⟨k, v⟩ := f
  cases fs with
  | nil => exact ⟨_, prettyFields_single w l k v⟩
  | cons g gs => exact ⟨_, prettyFields_cons w l k v g gs⟩

/-- The first character of every written value. -/
theorem pretty_head (w l : Nat) (j : Json) : ∃ c cs, (pretty w l j).toList = c :: cs ∧ Opens c := by
  have hopens : ∀ c ∈ ['n', 't', 'f', 'N', 'I', '"', '[', '\x7b'], Opens c := by
    simp only [List.mem_cons, List.not_mem_nil, or_false, forall_eq_or_imp, forall_eq]
    decide
  have hnumber : ∀ {cs r}, readNumber (cs ++ []) = some r → ∃ c rest, cs = c :: rest ∧ Opens c := by
    intro cs r h
    obtain ⟨c, rest, hcs, hc⟩ := readNumber_head h
    rw [List.append_nil] at hcs
    exact ⟨c, rest, hcs, opens_of_number hc⟩
  cases j with
  | null => exact ⟨'n', ['u', 'l', 'l'], by simp [pretty], hopens 'n' (by simp)⟩
  | bool b =>
    cases b
    · exact ⟨'f', ['a', 'l', 's', 'e'], by simp [pretty], hopens 'f' (by simp)⟩
    · exact ⟨'t', ['r', 'u', 'e'], by simp [pretty], hopens 't' (by simp)⟩
  | int n => exact hnumber (readNumber_int n EndsNumber.nil)
  | float x =>
    show ∃ c cs, (floatText x).toList = c :: cs ∧ Opens c
    unfold floatText
    split_ifs with hn hi hneg
    · exact ⟨'N', ['a', 'N'], by simp, hopens 'N' (by simp)⟩
    · exact ⟨'-', "Infinity".toList, by simp, opens_of_number (.inl rfl)⟩
    · exact ⟨'I', "nfinity".toList, by simp, hopens 'I' (by simp)⟩
    · exact hnumber (readNumber_shortest (Bool.eq_false_iff.mpr hn) (Bool.eq_false_iff.mpr hi)
        EndsNumber.nil)
  | str s => exact ⟨'"', _, by rw [pretty, asciiQuote_toList], hopens '"' (by simp)⟩
  | arr items =>
    cases items
    · exact ⟨'[', [']'], by simp [pretty], hopens '[' (by simp)⟩
    · exact ⟨'[', _, pretty_arr_toList .., hopens '[' (by simp)⟩
  | obj fields =>
    cases fields
    · exact ⟨'\x7b', ['\x7d'], by simp [pretty], hopens '\x7b' (by simp)⟩
    · exact ⟨'\x7b', _, pretty_obj_toList .., hopens '\x7b' (by simp)⟩

/-! ## Documents read back -/

mutual
/-- Every object of the document holds each of its keys once. -/
def KeysDistinct : Json → Prop
  | .arr items => ItemsKeysDistinct items
  | .obj fields => (fields.map (·.1)).Nodup ∧ FieldsKeysDistinct fields
  | _ => True

/-- Every item of a list holds each key of its objects once. -/
def ItemsKeysDistinct : List Json → Prop
  | [] => True
  | x :: rest => KeysDistinct x ∧ ItemsKeysDistinct rest

/-- Every value of a list of fields holds each key of its objects once. -/
def FieldsKeysDistinct : List (String × Json) → Prop
  | [] => True
  | (_, v) :: rest => KeysDistinct v ∧ FieldsKeysDistinct rest
end

theorem itemsKeysDistinct_iff (items : List Json) :
    ItemsKeysDistinct items ↔ ∀ x ∈ items, x.KeysDistinct := by
  induction items with
  | nil => simp [ItemsKeysDistinct]
  | cons x rest ih => simp [ItemsKeysDistinct, ih]

theorem fieldsKeysDistinct_iff (fields : List (String × Json)) :
    FieldsKeysDistinct fields ↔ ∀ f ∈ fields, f.2.KeysDistinct := by
  induction fields with
  | nil => simp [FieldsKeysDistinct]
  | cons f rest ih => simp [FieldsKeysDistinct, ih]

section Reading

variable (w : Nat)

mutual
/-- A written document reads back, whatever follows it that does not continue a number, as long
as the reader has more fuel than the text has characters. -/
theorem readValue_pretty : ∀ (j : Json) (l fuel : Nat) (more : List Char), j.KeysDistinct →
    (pretty w l j).toList.length < fuel → EndsNumber more →
    readValue fuel ((pretty w l j).toList ++ more) = some (j, more)
  | _, _, 0, _, _, hfuel, _ => absurd hfuel (Nat.not_lt_zero _)
  | .null, _, _ + 1, _, _, _, _ => by simp [pretty, readValue, skipBlank]
  | .bool b, _, _ + 1, _, _, _, _ => by cases b <;> simp [pretty, readValue, skipBlank]
  | .int n, _, fuel + 1, _, _, _, hmore => readValue_of_readNumber (readNumber_int n hmore) fuel
  | .float x, _, fuel + 1, _, _, _, hmore => readValue_floatText x fuel hmore
  | .str s, _, _ + 1, more, _, _, _ => by
    rw [pretty, asciiQuote_toList, List.cons_append, readValue,
      skipBlank_of_opens (by decide),
      List.append_assoc, List.singleton_append]
    simp only [readString_asciiQuote, Option.map_some]
  | .arr [], _, _ + 1, _, _, _, _ => by simp [pretty, readValue, skipBlank]
  | .arr (x :: xs), l, fuel + 1, more, hj, hfuel, _ => by
    rw [pretty_arr_toList] at hfuel ⊢
    have hitems := readItems_pretty (x :: xs) (l + 1) fuel [] l more (List.cons_ne_nil _ _) hj
      (by simp only [List.length_cons, List.length_append] at hfuel; omega)
    obtain ⟨c, cs, hc, hopen⟩ := pretty_head w (l + 1) x
    obtain ⟨tail, htail⟩ := prettyItems_head w (l + 1) x xs
    have hskip : skipBlank ((prettyItems w (l + 1) (x :: xs)).toList ++ ((newline w l).toList ++ [']']) ++
        more) = c :: (cs ++ tail ++ ((newline w l).toList ++ [']']) ++ more) := by
      rw [htail, hc]
      simp only [List.append_assoc, skipBlank_newline, List.cons_append, skipBlank_of_opens hopen]
    rw [List.cons_append, readValue,
      skipBlank_of_opens (by decide)]
    simp only
    rw [hskip]
    split
    next _ _ heq => exact absurd (List.cons.inj heq).1 hopen.2.2.2.2.1
    · rw [List.append_assoc, List.append_assoc, List.singleton_append]
      exact hitems
  | .obj [], _, _ + 1, _, _, _, _ => by simp [pretty, readValue, skipBlank]
  | .obj ((k, v) :: fs), l, fuel + 1, more, hj, hfuel, _ => by
    rw [pretty_obj_toList] at hfuel ⊢
    have hfields := readFields_pretty ((k, v) :: fs) (l + 1) fuel [] l more (List.cons_ne_nil _ _)
      hj.2 (by simpa using hj.1)
      (by simp only [List.length_cons, List.length_append] at hfuel; omega)
    obtain ⟨tail, htail⟩ := prettyFields_head w (l + 1) (k, v) fs
    have hskip : skipBlank ((prettyFields w (l + 1) ((k, v) :: fs)).toList ++
        ((newline w l).toList ++ ['\x7d']) ++ more) =
          '"' :: (tail ++ ((newline w l).toList ++ ['\x7d']) ++ more) := by
      rw [htail]
      simp only [List.append_assoc, skipBlank_newline, List.cons_append,
        skipBlank_of_opens (show Opens '"' by decide)]
    rw [List.cons_append, readValue,
      skipBlank_of_opens (by decide)]
    simp only
    rw [hskip]
    split
    next _ _ heq => exact absurd (List.cons.inj heq).1 (by decide)
    · rw [List.append_assoc, List.append_assoc, List.singleton_append]
      simpa using hfields

/-- The items of a written array read back up to its closing bracket. -/
theorem readItems_pretty : ∀ (xs : List Json) (l fuel : Nat) (acc : List Json) (m : Nat)
    (more : List Char), xs ≠ [] → ItemsKeysDistinct xs → (prettyItems w l xs).toList.length < fuel →
    readItems fuel acc ((prettyItems w l xs).toList ++ ((newline w m).toList ++ ']' :: more)) =
      some (.arr (acc.reverse ++ xs), more)
  | [], _, _, _, _, _, hne, _, _ => absurd rfl hne
  | _ :: _, _, 0, _, _, _, _, _, hfuel => absurd hfuel (Nat.not_lt_zero _)
  | [x], l, fuel + 1, acc, m, more, _, hxs, hfuel => by
    rw [prettyItems_single] at hfuel ⊢
    have hx := readValue_pretty x l fuel ((newline w m).toList ++ ']' :: more) hxs.1
      (by simp only [List.length_append, newline_toList, List.length_cons] at hfuel; omega)
      (EndsNumber.newline w m _)
    rw [List.append_assoc, readItems, readValue_newline, hx]
    simp [skipBlank_newline, skipBlank]
  | x :: y :: ys, l, fuel + 1, acc, m, more, _, hxs, hfuel => by
    rw [prettyItems_cons] at hfuel ⊢
    have hx := readValue_pretty x l fuel
      (',' :: ((prettyItems w l (y :: ys)).toList ++ ((newline w m).toList ++ ']' :: more))) hxs.1
      (by simp only [List.length_append, newline_toList, List.length_cons] at hfuel; omega)
      (EndsNumber.comma _)
    have hys := readItems_pretty (y :: ys) l fuel (x :: acc) m more (List.cons_ne_nil _ _) hxs.2
      (by simp only [List.length_append, newline_toList, List.length_cons] at hfuel; omega)
    rw [List.append_assoc, List.append_assoc, List.cons_append, readItems, readValue_newline, hx]
    simp [skipBlank, hys]

/-- The fields of a written object read back up to its closing brace, each key new to the
fields read before it. -/
theorem readFields_pretty : ∀ (fs : List (String × Json)) (l fuel : Nat) (acc : List (String × Json))
    (m : Nat) (more : List Char), fs ≠ [] → FieldsKeysDistinct fs →
    (acc.map (·.1) ++ fs.map (·.1)).Nodup → (prettyFields w l fs).toList.length < fuel →
    readFields fuel acc ((prettyFields w l fs).toList ++ ((newline w m).toList ++ '\x7d' :: more)) =
      some (.obj (acc ++ fs), more)
  | [], _, _, _, _, _, hne, _, _, _ => absurd rfl hne
  | _ :: _, _, 0, _, _, _, _, _, _, hfuel => absurd hfuel (Nat.not_lt_zero _)
  | [(k, v)], l, fuel + 1, acc, m, more, _, hfs, hnodup, hfuel => by
    rw [prettyFields_single] at hfuel ⊢
    have hv := readValue_pretty v l fuel ((newline w m).toList ++ '\x7d' :: more) hfs.1
      (by simp only [List.length_append, newline_toList, List.length_cons] at hfuel; omega)
      (EndsNumber.newline w m _)
    have hnew : k ∉ acc.map (·.1) := by
      simp only [List.map_cons, List.map_nil, List.nodup_append] at hnodup
      exact fun hk => hnodup.2.2 k hk k (List.mem_singleton_self k) rfl
    rw [List.append_assoc, readFields, skipBlank_newline, List.cons_append,
      skipBlank_of_opens (by decide)]
    simp only
    rw [List.append_assoc, List.cons_append, readString_asciiQuote]
    simp +decide only [List.cons_append, skipBlank_of_opens (show Opens ':' by decide),
      readValue_space, hv, setField_of_not_mem hnew, skipBlank_newline, skipBlank, ↓reduceIte]
  | (k, v) :: f :: fs, l, fuel + 1, acc, m, more, _, hfs, hnodup, hfuel => by
    rw [prettyFields_cons] at hfuel ⊢
    have hv := readValue_pretty v l fuel
      (',' :: ((prettyFields w l (f :: fs)).toList ++ ((newline w m).toList ++ '\x7d' :: more)))
      hfs.1 (by simp only [List.length_append, newline_toList, List.length_cons] at hfuel; omega)
      (EndsNumber.comma _)
    have hnew : k ∉ acc.map (·.1) := by
      simp only [List.map_cons, List.nodup_append] at hnodup
      exact fun hk => hnodup.2.2 k hk k List.mem_cons_self rfl
    have hrest := readFields_pretty (f :: fs) l fuel (acc ++ [(k, v)]) m more (List.cons_ne_nil _ _)
      hfs.2 (by simpa using hnodup)
      (by simp only [List.length_append, newline_toList, List.length_cons] at hfuel; omega)
    rw [List.append_assoc, readFields, skipBlank_newline, List.cons_append,
      skipBlank_of_opens (show Opens '"' by decide)]
    simp only
    rw [List.append_assoc, List.cons_append, readString_asciiQuote]
    simp +decide only [List.cons_append, skipBlank_of_opens (show Opens ':' by decide),
      readValue_space, List.append_assoc, hv, setField_of_not_mem hnew, skipBlank, ↓reduceIte, hrest]
    simp
end

/-- The indented text of a document whose objects hold each key once reads back as the
document. -/
theorem parse_pretty (l : Nat) (j : Json) (hj : j.KeysDistinct) : parse (pretty w l j) = some j := by
  have hread := readValue_pretty w j l ((pretty w l j).toList.length + 1) [] hj (Nat.lt_succ_self _)
    EndsNumber.nil
  rw [List.append_nil] at hread
  simp [parse, hread, skipBlank]

end Reading

end Json
end Spacecraft
