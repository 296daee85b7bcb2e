import Mathlib
import Spacecraft.Json.Parse
import Spacecraft.Proofs.Text.Shortest

/-!
# Numbers in JSON text read back

The JSON reader takes a number as an optional minus, an integer part without leading zeros,
an optional fraction and an optional exponent, and it makes a float of it only when a
fraction or an exponent is there. This module shows that the numbers the writer produces
come back as they were written.

* A `Numeral` is the shape the reader accepts, split in its three parts; with its digits in
  place it is read as its mantissa times ten to its scale (`Numeral.readNumber_text`).
* Each of the four layouts of the shortest digits (`0.0ddd`, `dd.ddd`, `ddd00.0` and
  `d.ddde±XX`) is such a numeral, of the same value (`Numeral.Writes`, one lemma per layout,
  gathered in `decimal_numeral`).
* A decimal in the rounding interval of a float is read as that float
  (`Binary64.ofDecimal_eq_of_roundsTo`), once its exponent is known to lie in the range the
  reader computes with (`Decimal.shortest_exponent_bounds`).
* So an integer's text reads back as the integer (`readNumber_int`), and the shortest text
  of a finite float as the float itself, sign of zero included (`readNumber_shortest`).
-/

namespace Spacecraft

namespace Json

/-- What may follow a number: nothing, or a character that continues no numeral. -/
def EndsNumber (rest : List Char) : Prop :=
  ∀ c r, rest = c :: r → c.isDigit = false ∧ c ≠ '.' ∧ c ≠ 'e' ∧ c ≠ 'E'

theorem EndsNumber.noDigit {rest : List Char} (h : EndsNumber rest) :
    ∀ c r, rest = c :: r → c.isDigit = false := fun c r hr => (h c r hr).1

/-- A run of digits is read whole, its value accumulated after `acc`. -/
theorem readDigits_append {ds rest : List Char} (hds : ∀ c ∈ ds, c.isDigit = true)
    (hrest : ∀ c r, rest = c :: r → c.isDigit = false) (acc count : Nat) :
    readDigits acc count (ds ++ rest) = (Nat.ofDigitChars 10 ds acc, count + ds.length, rest) := by
  induction ds generalizing acc count with
  | nil =>
    cases rest with
    | nil => rfl
    | cons c r => simp [readDigits, hrest c r rfl]
  | cons c ds ih =>
    rw [List.cons_append, readDigits, if_pos (hds c (by simp)),
      ih (fun x hx => hds x (by simp [hx]))]
    simp [Nat.ofDigitChars_cons, Nat.mul_comm, Nat.add_assoc, Nat.add_comm 1]

/-- The decimal digits of a positive natural start with a nonzero digit. -/
theorem toDigits_head {n : Nat} (hn : 0 < n) :
    ∃ c cs, Nat.toDigits 10 n = c :: cs ∧ c ≠ '0' := by
  induction n using Nat.strong_induction_on with
  | _ n ih =>
    rw [Nat.toDigits_eq_if (by norm_num)]
    split_ifs with h
    · refine ⟨_, [], rfl, ?_⟩
      interval_cases n <;> decide
    · obtain ⟨c, cs, hc, h0⟩ := ih (n / 10) (by omega) (by omega)
      exact ⟨c, cs ++ _, by rw [hc, List.cons_append], h0⟩

theorem isDigit_of_mem_toDigits {n : Nat} {c : Char} (h : c ∈ Nat.toDigits 10 n) : c.isDigit = true :=
  Nat.isDigit_of_mem_toDigits (by decide) (by decide) h

section Finish

variable (neg : Bool) (n : Nat)

/-- With no fraction and no exponent after it, the integer part is an integer. -/
theorem finish_int {rest : List Char} (hrest : EndsNumber rest) :
    readNumber.finish neg n rest = some (.int (if neg then -(n : Int) else n), rest) := by
  unfold readNumber.finish
  cases rest with
  | nil => rfl
  | cons c r =>
    obtain ⟨-, hdot, he, hE⟩ := hrest c r rfl
    simp [hdot, he, hE]

/-- A fraction with no exponent makes a float. -/
theorem finish_frac {fs rest : List Char} (hfs : ∀ c ∈ fs, c.isDigit = true) (hne : fs ≠ [])
    (hrest : EndsNumber rest) :
    readNumber.finish neg n ('.' :: (fs ++ rest)) =
      some (.float (Binary64.ofDecimal neg (n * 10 ^ fs.length + Nat.ofDigitChars 10 fs 0)
        (-(fs.length : Int))), rest) := by
  unfold readNumber.finish
  simp only
  rw [readDigits_append hfs hrest.noDigit]
  cases rest with
  | nil => simp [hne, Nat.pow_eq]
  | cons c r =>
    obtain ⟨-, hdot, he, hE⟩ := hrest c r rfl
    simp [hne, he, hE, Nat.pow_eq]

/-- An exponent, after a fraction or not, makes a float. -/
theorem finish_exp {fs es rest : List Char} (hfs : ∀ c ∈ fs, c.isDigit = true)
    (hes : ∀ c ∈ es, c.isDigit = true) (hes0 : es ≠ []) (eneg : Bool) (hrest : EndsNumber rest) :
    readNumber.finish neg n ((if fs = [] then [] else '.' :: fs) ++
        'e' :: (if eneg then '-' else '+') :: (es ++ rest)) =
      some (.float (Binary64.ofDecimal neg (n * 10 ^ fs.length + Nat.ofDigitChars 10 fs 0)
        ((if eneg then -(Nat.ofDigitChars 10 es 0 : Int) else Nat.ofDigitChars 10 es 0) -
          fs.length)), rest) := by
  have hexp : readDigits 0 0 (es ++ rest) = (Nat.ofDigitChars 10 es 0, es.length, rest) := by
    rw [readDigits_append hes hrest.noDigit, Nat.zero_add]
  unfold readNumber.finish
  by_cases h0 : fs = []
  · subst h0
    cases eneg <;> simp [hexp, hes0, Nat.pow_eq]
  · have hfrac : readDigits 0 0 (fs ++ 'e' :: (if eneg then '-' else '+') :: (es ++ rest)) =
        (Nat.ofDigitChars 10 fs 0, fs.length, 'e' :: (if eneg then '-' else '+') :: (es ++ rest)) := by
      rw [readDigits_append hfs (fun c r hr => by cases hr; rfl), Nat.zero_add]
    rw [if_neg h0]
    cases eneg <;> simp_all [Nat.pow_eq]

end Finish

/-! ## The written forms of a decimal -/

@[simp] theorem toList_zeros (k : Nat) : (Notation.zeros k).toList = List.replicate k '0' := by
  simp [Notation.zeros]

theorem toList_toString (n : Nat) : (toString n).toList = Nat.toDigits 10 n := by
  simp

/-- Leading zeros add nothing to the value of a run of digits. -/
theorem ofDigitChars_zeros_append (k : Nat) (l : List Char) :
    Nat.ofDigitChars 10 (List.replicate k '0' ++ l) 0 = Nat.ofDigitChars 10 l 0 := by
  rw [Nat.ofDigitChars_append, Nat.ofDigitChars_replicate_zero, Nat.mul_zero]

/-- Trailing zeros multiply it by ten each. -/
theorem ofDigitChars_append_zeros (l : List Char) (k : Nat) :
    Nat.ofDigitChars 10 (l ++ List.replicate k '0') 0 = 10 ^ k * Nat.ofDigitChars 10 l 0 := by
  rw [Nat.ofDigitChars_append, Nat.ofDigitChars_eq_ofDigitChars_zero, Nat.ofDigitChars_replicate_zero,
    Nat.mul_zero, Nat.add_zero, List.length_replicate]

/-- Cut anywhere, a run of digits is its front shifted past its back. -/
theorem ofDigitChars_take_drop (l : List Char) (k : Nat) :
    Nat.ofDigitChars 10 l 0 =
      Nat.ofDigitChars 10 (l.take k) 0 * 10 ^ (l.drop k).length + Nat.ofDigitChars 10 (l.drop k) 0 := by
  conv_lhs => rw [← List.take_append_drop k l]
  rw [Nat.ofDigitChars_append, Nat.ofDigitChars_eq_ofDigitChars_zero, Nat.mul_comm]

/-! ## Numerals -/

/-- A numeral as JSON text writes it: the digits before the point, those after it (none when
there is no point) and an exponent with its sign, if there is one. -/
structure Numeral where
  whole : List Char
  frac : List Char
  exp : Option (Bool × List Char)

namespace Numeral

/-- The characters of a numeral. -/
def text (n : Numeral) : List Char :=
  n.whole ++ (if n.frac = [] then [] else '.' :: n.frac) ++
    (match n.exp with
      | none => []
      | some (eneg, es) => 'e' :: (if eneg then '-' else '+') :: es)

/-- A numeral the reader takes: a lone zero or no leading zero before the point, and digits
in every part. -/
structure Valid (n : Numeral) : Prop where
  whole : n.whole = ['0'] ∨ ∃ c cs, n.whole = c :: cs ∧ c ≠ '0'
  wholeDigits : ∀ x ∈ n.whole, x.isDigit = true
  fracDigits : ∀ x ∈ n.frac, x.isDigit = true
  expDigits : ∀ eneg es, n.exp = some (eneg, es) → es ≠ [] ∧ ∀ x ∈ es, x.isDigit = true

/-- All the digits of a numeral as one natural. -/
def mantissa (n : Numeral) : Nat :=
  Nat.ofDigitChars 10 n.whole 0 * 10 ^ n.frac.length + Nat.ofDigitChars 10 n.frac 0

/-- The power of ten of the last digit of a numeral. -/
def scale (n : Numeral) : Int :=
  (match n.exp with
    | none => 0
    | some (eneg, es) => if eneg then -(Nat.ofDigitChars 10 es 0 : Int) else Nat.ofDigitChars 10 es 0) -
    n.frac.length

variable {n : Numeral}

/-- A number whose integer part is zero. -/
theorem readNumber_zero (neg : Bool) (rest : List Char) :
    readNumber ((if neg then ['-'] else []) ++ '0' :: rest) = readNumber.finish neg 0 rest := by
  cases neg <;> rfl

/-- A number whose integer part starts with a nonzero digit. -/
theorem readNumber_lead (neg : Bool) {c : Char} {ds rest : List Char} (hc : c.isDigit = true) (h0 : c ≠ '0')
    (hds : ∀ x ∈ ds, x.isDigit = true) (hrest : ∀ x r, rest = x :: r → x.isDigit = false) :
    readNumber ((if neg then ['-'] else []) ++ c :: (ds ++ rest)) =
      readNumber.finish neg (Nat.ofDigitChars 10 (c :: ds) 0) rest := by
  have hminus : c ≠ '-' := by rintro rfl; cases hc
  have hI : c ≠ 'I' := by rintro rfl; cases hc
  have hrun := readDigits_append hds hrest (c.toNat - 48) 1
  rw [Nat.ofDigitChars_cons, Nat.mul_zero, Nat.zero_add]
  unfold readNumber
  cases neg <;> simp [hminus, hI, hc, hrun]

/-- The integer part of a numeral is read first, whatever follows it. -/
theorem readNumber_whole (hn : n.Valid) (neg : Bool) {tail : List Char}
    (htail : ∀ x r, tail = x :: r → x.isDigit = false) :
    readNumber ((if neg then ['-'] else []) ++ (n.whole ++ tail)) =
      readNumber.finish neg (Nat.ofDigitChars 10 n.whole 0) tail := by
  rcases hn.whole with h | ⟨c, cs, h, h0⟩
  · rw [h, List.singleton_append, readNumber_zero]
    rfl
  · have hdig := hn.wholeDigits
    rw [h] at hdig ⊢
    exact readNumber_lead neg (hdig c List.mem_cons_self) h0
      (fun x hx => hdig x (List.mem_cons_of_mem c hx)) htail

/-- A numeral with a point or an exponent is read as the float nearest to its value. -/
theorem readNumber_text (hn : n.Valid) (hfloat : n.frac ≠ [] ∨ n.exp.isSome) (neg : Bool)
    {rest : List Char} (hrest : EndsNumber rest) :
    readNumber ((if neg then ['-'] else []) ++ (n.text ++ rest)) =
      some (.float (Binary64.ofDecimal neg n.mantissa n.scale), rest) := by
  obtain ⟨whole, frac, exp⟩ := n
  cases exp with
  | none =>
    have hne : frac ≠ [] := hfloat.resolve_right (by simp)
    simp only [text, if_neg hne, List.append_nil, List.append_assoc, List.cons_append]
    rw [readNumber_whole hn neg (fun x r hr => by cases hr; rfl),
      finish_frac neg _ hn.fracDigits hne hrest]
    simp [mantissa, scale]
  | some e =>
    obtain ⟨eneg, es⟩ := e
    obtain ⟨hes0, hes⟩ := hn.expDigits eneg es rfl
    have htail : ∀ x r, ((if frac = [] then [] else '.' :: frac) ++
        'e' :: (if eneg then '-' else '+') :: (es ++ rest)) = x :: r → x.isDigit = false := by
      intro x r hr
      split_ifs at hr <;> simp only [List.nil_append, List.cons_append, List.cons.injEq] at hr <;>
        rw [← hr.1] <;> rfl
    simp only [text, List.append_assoc, List.cons_append]
    rw [readNumber_whole hn neg htail, finish_exp neg _ hn.fracDigits hes hes0 eneg hrest]
    rfl

end Numeral

/-- An exponent is a sign and at least two digits. -/
theorem toList_exponent (e : Int) :
    (Notation.exponent true 2 e).toList = (if decide (e < 0) then '-' else '+') ::
      (List.replicate (2 - (toString e.natAbs).length) '0' ++ Nat.toDigits 10 e.natAbs) := by
  unfold Notation.exponent Notation.padDigits
  by_cases h : e < 0 <;> simp [h]

@[simp] theorem ofDigitChars_zero : Nat.ofDigitChars 10 ['0'] 0 = 0 := rfl

theorem isDigit_of_mem_zeros {k : Nat} {x : Char} (h : x ∈ List.replicate k '0') : x.isDigit = true := by
  rw [List.eq_of_mem_replicate h]; rfl

namespace Numeral

/-- The plain layout writes the decimal `d` as the numeral `n`: a numeral the reader takes,
with a point or an exponent so that it is read as a float, of the value of `d`; its digits
and exponent are those of `d`, or else it ends in a fraction of one zero. -/
structure Writes (d : Decimal) (n : Numeral) : Prop where
  valid : n.Valid
  isFloat : n.frac ≠ [] ∨ n.exp.isSome
  value : (n.mantissa : ℚ) * 10 ^ n.scale = d.value
  mantissa_pos : 0 < n.mantissa
  same : n.mantissa = d.digits ∧ n.scale = d.exp10 ∨ n.scale = -1

/-- A numeral with the digits and the exponent of a positive decimal writes it. -/
theorem Writes.of_same {d : Decimal} {n : Numeral} (hd : 0 < d.digits) (hv : n.Valid)
    (hf : n.frac ≠ [] ∨ n.exp.isSome) (hm : n.mantissa = d.digits) (hs : n.scale = d.exp10) :
    n.Writes d :=
  ⟨hv, hf, by rw [hm, hs]; rfl, hm ▸ hd, .inl ⟨hm, hs⟩⟩

/-! ### The four layouts

Each layout of a positive decimal `d` whose digits are `c :: cs`, `c` not zero. The point
position `p` is `d.exp10` plus the number of digits. -/

section Layouts

variable {d : Decimal} {c : Char} {cs : List Char}

theorem digits_isDigit (hD : Nat.toDigits 10 d.digits = c :: cs) : ∀ x ∈ c :: cs, x.isDigit = true :=
  fun _ hx => isDigit_of_mem_toDigits (hD ▸ hx)

theorem ofDigitChars_digits (hD : Nat.toDigits 10 d.digits = c :: cs) :
    Nat.ofDigitChars 10 (c :: cs) 0 = d.digits := by
  rw [← hD]
  exact Nat.ofDigitChars_ten_toDigits

/-- `0.0ddd`: zeros and all the digits after the point. -/
theorem writes_leadingZeros (hd : 0 < d.digits) (hD : Nat.toDigits 10 d.digits = c :: cs) {p : Int}
    (hp : d.exp10 + ((cs.length + 1 : Nat) : Int) = p) (hp0 : p ≤ 0) :
    Writes d ⟨['0'], List.replicate (-p).toNat '0' ++ c :: cs, none⟩ := by
  refine .of_same hd ⟨.inl rfl, by simp, fun x hx => ?_, by simp⟩ (.inl (by simp)) ?_ ?_
  · rcases List.mem_append.1 hx with h | h
    · exact isDigit_of_mem_zeros h
    · exact digits_isDigit hD x h
  · simp [mantissa, ofDigitChars_zeros_append, ofDigitChars_digits hD]
  · simp only [scale, List.length_append, List.length_replicate, List.length_cons]
    omega

/-- `dd.ddd`: the point inside the digits, after `k + 1` of them. -/
theorem writes_pointInside (hd : 0 < d.digits) (hD : Nat.toDigits 10 d.digits = c :: cs)
    (hc0 : c ≠ '0') {k : Nat} (hk : d.exp10 + ((cs.length + 1 : Nat) : Int) = k + 1)
    (hne : cs.drop k ≠ []) :
    Writes d ⟨c :: cs.take k, cs.drop k, none⟩ := by
  have hdig := digits_isDigit hD
  refine .of_same hd ⟨.inr ⟨c, _, rfl, hc0⟩, fun x hx => ?_,
    fun x hx => hdig x (List.mem_cons_of_mem c (List.mem_of_mem_drop hx)), by simp⟩ (.inl hne) ?_ ?_
  · rcases List.mem_cons.1 hx with rfl | h
    · exact hdig x List.mem_cons_self
    · exact hdig x (List.mem_cons_of_mem c (List.mem_of_mem_take h))
  · have hsplit := ofDigitChars_take_drop (c :: cs) (k + 1)
    rw [List.take_succ_cons, List.drop_succ_cons, ofDigitChars_digits hD] at hsplit
    exact hsplit.symm
  · simp only [scale, List.length_drop]
    have hlt : k < cs.length := by
      rw [Ne, List.drop_eq_nil_iff] at hne
      omega
    omega

/-- `ddd00.0`: the digits, zeros up to the point and a fraction of one zero. -/
theorem writes_trailingZeros (hd : 0 < d.digits) (hD : Nat.toDigits 10 d.digits = c :: cs)
    (hc0 : c ≠ '0') (he : 0 ≤ d.exp10) :
    Writes d ⟨c :: (cs ++ List.replicate d.exp10.toNat '0'), ['0'], none⟩ := by
  have hdig := digits_isDigit hD
  have hmant : (⟨c :: (cs ++ List.replicate d.exp10.toNat '0'), ['0'], none⟩ : Numeral).mantissa =
      10 ^ d.exp10.toNat * d.digits * 10 := by
    simp only [mantissa]
    rw [← List.cons_append, ofDigitChars_append_zeros, ofDigitChars_digits hD]
    simp
  refine ⟨⟨.inr ⟨c, _, rfl, hc0⟩, fun x hx => ?_, by simp, by simp⟩, .inl (by simp), ?_,
    by rw [hmant]; positivity, .inr rfl⟩
  · rcases List.mem_cons.1 hx with rfl | h
    · exact hdig x List.mem_cons_self
    · rcases List.mem_append.1 h with h | h
      · exact hdig x (List.mem_cons_of_mem c h)
      · exact isDigit_of_mem_zeros h
  · obtain ⟨e, he⟩ := Int.eq_ofNat_of_zero_le he
    rw [hmant, Decimal.value, show (⟨_, ['0'], none⟩ : Numeral).scale = -1 by rfl, zpow_neg_one,
      he, zpow_natCast, Int.toNat_natCast]
    push_cast
    field_simp

/-- `d.ddde±XX`: one digit before the point, the others after it, and the exponent `p - 1`
with its sign and at least two digits. -/
theorem writes_exponent (hd : 0 < d.digits) (hD : Nat.toDigits 10 d.digits = c :: cs)
    (hc0 : c ≠ '0') {p : Int} (hp : d.exp10 + ((cs.length + 1 : Nat) : Int) = p) :
    Writes d ⟨[c], cs, some (decide (p - 1 < 0),
      List.replicate (2 - (toString (p - 1).natAbs).length) '0' ++ Nat.toDigits 10 (p - 1).natAbs)⟩ := by
  have hdig := digits_isDigit hD
  have hZ : ∀ x ∈ List.replicate (2 - (toString (p - 1).natAbs).length) '0' ++
      Nat.toDigits 10 (p - 1).natAbs, x.isDigit = true := by
    intro x hx
    rcases List.mem_append.1 hx with h | h
    · exact isDigit_of_mem_zeros h
    · exact isDigit_of_mem_toDigits h
  refine .of_same hd ⟨.inr ⟨c, [], rfl, hc0⟩, by simpa using hdig c List.mem_cons_self,
    fun x hx => hdig x (List.mem_cons_of_mem c hx), fun _ _ h => by cases h; exact ⟨by simp, hZ⟩⟩
    (.inr rfl) ?_ ?_
  · have hsplit := ofDigitChars_take_drop (c :: cs) 1
    rw [List.take_succ_cons, List.take_zero, List.drop_succ_cons, List.drop_zero,
      ofDigitChars_digits hD] at hsplit
    exact hsplit.symm
  · simp only [scale, ofDigitChars_zeros_append, Nat.ofDigitChars_ten_toDigits]
    split_ifs with hneg <;> simp only [decide_eq_true_eq] at hneg <;> omega

end Layouts

end Numeral

/-- A positive decimal is written as a numeral of its value: its own digits and exponent,
or, when zeros are written before the point, those digits and zeros with a fraction of one
zero. -/
theorem decimal_numeral {d : Decimal} (hd : 0 < d.digits) :
    ∃ n : Numeral, n.Writes d ∧ (Notation.plain.decimal d).toList = n.text := by
  obtain ⟨c, cs, hD, hc0⟩ := toDigits_head hd
  have hn : (toString d.digits).length = cs.length + 1 := by
    rw [← String.length_toList, toList_toString, hD, List.length_cons]
  unfold Notation.Layout.decimal
  simp only [Notation.plain, hn]
  generalize hp : d.exp10 + ((cs.length + 1 : Nat) : Int) = p
  -- the layouts in the order the writer tries them
  split_ifs with hpos hp0 hpn hn1
  · exact ⟨_, Numeral.writes_leadingZeros hd hD hp hp0, by simp [Numeral.text, hD]⟩
  · obtain ⟨k, hk⟩ : ∃ k, p.toNat = k + 1 :=
      ⟨_, (Nat.sub_add_cancel (by omega : 1 ≤ p.toNat)).symm⟩
    have hne : cs.drop k ≠ [] := by
      rw [Ne, List.drop_eq_nil_iff]
      omega
    exact ⟨_, Numeral.writes_pointInside hd hD hc0 (by omega) hne,
      by simp [Numeral.text, hD, hk, hne]⟩
  · have hm : p.toNat - (cs.length + 1) = d.exp10.toNat := by omega
    exact ⟨_, Numeral.writes_trailingZeros hd hD hc0 (by omega), by simp [Numeral.text, hD, hm]⟩
  all_goals
    refine ⟨_, Numeral.writes_exponent hd hD hc0 hp, ?_⟩
    simp only [String.toList_append, toList_exponent, Numeral.text, toList_toString, hD]
    rcases cs with _ | ⟨c', cs'⟩ <;> simp at hn1 ⊢

end Json

namespace Binary64

/-- A decimal in the rounding interval of a finite nonzero float is read as that float, as
long as its exponent is in the range the reader computes with. -/
theorem ofDecimal_eq_of_roundsTo {x : Float} {d : Dyadic} (hx : decode x = some d)
    (hm : 0 < d.mant) {D : Nat} {E : Int} (hD : 0 < D) (hhi : E ≤ 400)
    (hlo : -400 ≤ E + ((toString D).length : Int)) (hr : RoundsTo d.mant d.exp (D * 10 ^ E)) :
    ofDecimal d.neg D E = x := by
  unfold ofDecimal
  rw [if_neg hD.ne', if_neg (by omega), if_neg (by omega)]
  split_ifs with hE
  · refine ofRatio_eq_of_roundsTo hx hm one_pos ?_
    convert hr using 1
    conv_rhs => rw [← Int.toNat_of_nonneg hE, zpow_natCast]
    simp [Nat.pow_eq]
  · refine ofRatio_eq_of_roundsTo hx hm (by simp [Nat.pow_eq]) ?_
    convert hr using 1
    conv_rhs => rw [show E = -((-E).toNat : Int) by omega, zpow_neg, zpow_natCast]
    simp [Nat.pow_eq, div_eq_mul_inv]

/-- Three binary digits are worth less than one decimal digit. -/
theorem two_pow_lt_ten_pow {k n : ℕ} (hn : 0 < n) (hk : k ≤ 3 * n) : 2 ^ k < 10 ^ n :=
  calc 2 ^ k ≤ 2 ^ (3 * n) := Nat.pow_le_pow_right (by norm_num) hk
    _ = 8 ^ n := by rw [pow_mul]; norm_num
    _ < 10 ^ n := Nat.pow_lt_pow_left (by norm_num) hn.ne'

/-- The rounding interval of a finite float ends below `10^401`: the float is below `2^1024`. -/
theorem Canonical.upper_lt_ten_zpow {m : ℕ} {e : ℤ} (hc : Canonical m e) :
    ((m : ℚ) + 1 / 2) * 2 ^ e < 10 ^ (401 : ℤ) := by
  have hm53 : (m : ℚ) + 1 / 2 ≤ 2 ^ (53 : ℤ) := by
    have : ((m + 1 : ℕ) : ℚ) ≤ 2 ^ 53 := by exact_mod_cast hc.mant_lt
    push_cast at this
    rw [zpow_ofNat]
    linarith
  have he : (2 : ℚ) ^ e ≤ 2 ^ (971 : ℤ) := zpow_le_zpow_right₀ (by norm_num) hc.exp_le
  have hkey : (2 : ℚ) ^ (53 : ℤ) * 2 ^ (971 : ℤ) < 10 ^ (401 : ℤ) := by
    simp only [zpow_ofNat]
    have h : (2 : ℕ) ^ 53 * 2 ^ 971 < 10 ^ 401 := by
      rw [← pow_add]
      exact two_pow_lt_ten_pow (by norm_num) (by norm_num)
    exact_mod_cast h
  calc ((m : ℚ) + 1 / 2) * 2 ^ e ≤ 2 ^ (53 : ℤ) * 2 ^ (971 : ℤ) :=
        mul_le_mul hm53 he (two_zpow_pos _).le (by positivity)
    _ < 10 ^ (401 : ℤ) := hkey

/-- The rounding interval of a nonzero float on the grid starts at `10^-401` or above: the
float is at least `2^-1074`. -/
theorem OnGrid.ten_zpow_le_lower {m : ℕ} {e : ℤ} (hg : OnGrid m e) (hm : 0 < m) :
    (10 : ℚ) ^ (-401 : ℤ) ≤ ((m : ℚ) - 1 / 2) * 2 ^ e := by
  have he : (2 : ℚ) ^ (-1074 : ℤ) ≤ 2 ^ e := zpow_le_zpow_right₀ (by norm_num) hg.exp_ge
  have hmq : (1 : ℚ) ≤ m := by exact_mod_cast hm
  have hkey : (10 : ℚ) ^ (-401 : ℤ) ≤ 2 ^ (-1074 : ℤ) / 2 := by
    rw [zpow_neg, zpow_neg, div_eq_mul_inv, ← mul_inv, zpow_ofNat, zpow_ofNat]
    apply inv_anti₀ (by positivity)
    have h : (2 : ℕ) ^ 1074 * 2 ≤ 10 ^ 401 := by
      rw [← pow_succ]
      exact (two_pow_lt_ten_pow (by norm_num) (by norm_num)).le
    exact_mod_cast h
  calc (10 : ℚ) ^ (-401 : ℤ) ≤ 2 ^ (-1074 : ℤ) / 2 := hkey
    _ ≤ ((m : ℚ) - 1 / 2) * 2 ^ e := by nlinarith [two_zpow_pos (-1074)]

end Binary64

namespace Decimal

open Binary64

/-- The shortest digits of a finite nonzero float are below `10^309` and above `10^-325`, so
its exponent is in the range a reader computes with. -/
theorem shortest_exponent_bounds {x : Float} {d : Dyadic} (hx : decode x = some d)
    (hm : 0 < d.mant) :
    (shortest x).exp10 ≤ 400 ∧ -400 ≤ (shortest x).exp10 + ((toString (shortest x).digits).length : Int) := by
  obtain ⟨hpos, hr⟩ := shortest_spec hx hm
  obtain ⟨hlo, hhi, -⟩ := hr.bounds hm
  have hc := canonical_of_decode hx
  set D := (shortest x).digits
  set E := (shortest x).exp10
  set L := (toString D).length
  have hv : value (shortest x) = D * 10 ^ E := rfl
  rw [hv] at hlo hhi
  have hD1 : (1 : ℚ) ≤ D := by exact_mod_cast hpos
  have hDL : (D : ℚ) < 10 ^ (L : ℤ) := by
    have : D < 10 ^ L := (Nat.length_repr_le_iff (n := D) (by simp [L, Nat.length_repr_pos])).1 le_rfl
    rw [zpow_natCast]
    exact_mod_cast this
  have h10 : ∀ k : ℤ, (0 : ℚ) < 10 ^ k := fun k => zpow_pos (by norm_num) k
  constructor
  · -- the digits stand below `10^401`
    by_contra hE
    have hbig : (10 : ℚ) ^ (401 : ℤ) ≤ 10 ^ E := zpow_le_zpow_right₀ (by norm_num) (by omega)
    have : (10 : ℚ) ^ (401 : ℤ) < 10 ^ (401 : ℤ) :=
      calc (10 : ℚ) ^ (401 : ℤ) ≤ 10 ^ E := hbig
        _ ≤ D * 10 ^ E := le_mul_of_one_le_left (h10 E).le hD1
        _ ≤ ((d.mant : ℚ) + 1 / 2) * 2 ^ d.exp := hhi
        _ < 10 ^ (401 : ℤ) := hc.upper_lt_ten_zpow
    exact lt_irrefl _ this
  · -- and at least `10^-401`
    by_contra hE
    have hsmall : (10 : ℚ) ^ (E + L) ≤ 10 ^ (-401 : ℤ) := zpow_le_zpow_right₀ (by norm_num) (by omega)
    have : (10 : ℚ) ^ (-401 : ℤ) < 10 ^ (-401 : ℤ) :=
      calc (10 : ℚ) ^ (-401 : ℤ) ≤ ((d.mant : ℚ) - 1 / 2) * 2 ^ d.exp := hc.ten_zpow_le_lower hm
        _ ≤ D * 10 ^ E := hlo
        _ < 10 ^ (L : ℤ) * 10 ^ E := mul_lt_mul_of_pos_right hDL (h10 E)
        _ = 10 ^ (E + L) := by rw [← zpow_add₀ (by norm_num), add_comm]
        _ ≤ 10 ^ (-401 : ℤ) := hsmall
    exact lt_irrefl _ this

end Decimal

namespace Json

open Binary64

/-- The digits of a natural are the integer part of a valid numeral. -/
theorem valid_toDigits (k : Nat) : (⟨Nat.toDigits 10 k, [], none⟩ : Numeral).Valid := by
  refine ⟨?_, fun x hx => isDigit_of_mem_toDigits hx, by simp, by simp⟩
  rcases Nat.eq_zero_or_pos k with rfl | hk
  · exact .inl (Nat.toDigits_zero 10)
  · obtain ⟨c, cs, h, h0⟩ := toDigits_head hk
    exact .inr ⟨c, cs, h, h0⟩

/-- An integer is read back from its decimal text. -/
theorem readNumber_int (n : Int) {rest : List Char} (hrest : EndsNumber rest) :
    readNumber ((toString n).toList ++ rest) = some (.int n, rest) := by
  have hread (neg : Bool) (k : Nat) : readNumber ((if neg then ['-'] else []) ++
      (Nat.toDigits 10 k ++ rest)) = some (.int (if neg then -(k : Int) else k), rest) := by
    rw [Numeral.readNumber_whole (valid_toDigits k) neg hrest.noDigit, finish_int neg _ hrest,
      Nat.ofDigitChars_ten_toDigits]
  rw [Int.toString_eq_repr, Int.repr_eq_if]
  split_ifs with h
  · simpa [Int.toNat_of_nonneg h] using hread false n.toNat
  · have hneg := hread true (-n).toNat
    rw [Int.toNat_of_nonneg (by omega : 0 ≤ -n), neg_neg] at hneg
    simpa using hneg

/-- A finite float is read back from its shortest text, its sign and bits included. -/
theorem readNumber_shortest {x : Float} (hn : x.isNaN = false) (hi : x.isInf = false)
    {rest : List Char} (hrest : EndsNumber rest) :
    readNumber ((Notation.shortest x).toList ++ rest) = some (.float x, rest) := by
  obtain ⟨d, hx⟩ := decode_isSome hn hi
  have hsign : (if signBitSet x then "-" else "").toList = if d.neg then ['-'] else [] := by
    rw [neg_of_decode hx]
    split <;> rfl
  unfold Notation.shortest Notation.Layout.float
  rw [if_neg (by rw [hn]; exact Bool.false_ne_true), if_neg (by rw [hi]; exact Bool.false_ne_true)]
  simp only
  by_cases h0 : d.mant = 0
  · -- a zero is written `0.0`, with its sign
    rw [if_pos ((beq_zero_iff hx).2 h0), String.toList_append, hsign, List.append_assoc,
      show "0.0".toList = (⟨['0'], ['0'], none⟩ : Numeral).text by rfl,
      Numeral.readNumber_text ⟨.inl rfl, by simp, by simp, by simp⟩ (.inl (by simp)) d.neg hrest]
    rw [show (⟨['0'], ['0'], none⟩ : Numeral).mantissa = 0 from rfl, ofDecimal, if_pos rfl,
      signedZero_decode hx h0]
  · have hm : 0 < d.mant := Nat.pos_of_ne_zero h0
    obtain ⟨hpos, hr⟩ := Decimal.shortest_spec hx hm
    obtain ⟨n, ⟨hvalid, hfloat, hvalue, hmant, hsame⟩, htext⟩ := decimal_numeral hpos
    rw [if_neg (by rw [beq_zero_iff hx]; exact h0), String.toList_append, hsign, htext,
      List.append_assoc, Numeral.readNumber_text hvalid hfloat d.neg hrest]
    -- the numeral's exponent is in the reader's range, its value in the rounding interval
    have hlen : 0 < (toString n.mantissa).length := Nat.length_repr_pos
    obtain ⟨hhi, hlo⟩ : n.scale ≤ 400 ∧ -400 ≤ n.scale + ((toString n.mantissa).length : Int) := by
      rcases hsame with ⟨hd, he⟩ | he
      · rw [hd, he]
        exact Decimal.shortest_exponent_bounds hx hm
      · omega
    rw [ofDecimal_eq_of_roundsTo hx hm hmant hhi hlo (hvalue ▸ hr)]

end Json
end Spacecraft
