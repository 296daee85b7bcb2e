import Mathlib
import Spacecraft.Time.Epoch

/-!
# Epoch text reads back

An epoch is written in the extended ISO 8601 form `YYYY-MM-DDTHH:MM:SS`, with six digits of
fraction when its microseconds are not zero and its offset from UTC when it has one. This
module shows that reading that text gives the epoch back (`parse_isoText`) whenever the epoch
is in the ranges reading checks (`Valid`), and that every epoch reading accepts is in those
ranges (`valid_of_parse`), so that an epoch read from text survives being written and read
again.

* Fixed-width numbers are read back by taking that many digits (`takeDigits_pad`).
* The clock time of the text is read back by `readClock`, with or without its fraction, and an
  offset by its sign and its own clock time (`offsetText_toList`, `readTime_offsetText`).
* A fraction has at most six digits, so reading never gives a second or more of microseconds
  (`readClock_micro_lt`).
-/

namespace Spacecraft
namespace Epoch

/-! ## Digits -/

theorem foldl_digits (ds : List Char) (init : Nat) :
    ds.foldl (fun a c => a * 10 + (c.toNat - '0'.toNat)) init = Nat.ofDigitChars 10 ds init := by
  induction ds generalizing init with
  | nil => rfl
  | cons c cs ih => rw [List.foldl_cons, ih, Nat.ofDigitChars_cons, Nat.mul_comm]

/-- A run of digits is worth less than ten to its length. -/
theorem ofDigitChars_lt {ds : List Char} (hds : ∀ c ∈ ds, c.isDigit = true) (init : Nat) :
    Nat.ofDigitChars 10 ds init < (init + 1) * 10 ^ ds.length := by
  induction ds generalizing init with
  | nil => simp
  | cons c cs ih =>
    have hc : c.toNat - '0'.toNat ≤ 9 := by
      have := Char.isDigit_iff_toNat.1 (hds c List.mem_cons_self)
      simp only [Char.reduceToNat] at this ⊢
      omega
    rw [Nat.ofDigitChars_cons, List.length_cons, Nat.pow_succ]
    calc Nat.ofDigitChars 10 cs (10 * init + (c.toNat - '0'.toNat))
        < (10 * init + (c.toNat - '0'.toNat) + 1) * 10 ^ cs.length :=
          ih (fun x hx => hds x (List.mem_cons_of_mem c hx)) _
      _ ≤ (init + 1) * (10 ^ cs.length * 10) := by
          rw [Nat.mul_comm (10 ^ cs.length), ← Nat.mul_assoc]
          exact Nat.mul_le_mul_right _ (by omega)

/-! ## Fixed-width numbers -/

theorem pad_toList (w n : Nat) :
    (pad w n).toList = List.replicate (w - (Nat.toDigits 10 n).length) '0' ++ Nat.toDigits 10 n := by
  simp [pad, Notation.padDigits, Nat.repr_eq_ofList_toDigits]

theorem length_pad {w n : Nat} (hw : 0 < w) (hn : n < 10 ^ w) : (pad w n).toList.length = w := by
  have hlen := (Nat.length_toDigits_le_iff (by norm_num) hw).2 hn
  rw [pad_toList, List.length_append, List.length_replicate]
  omega

theorem isDigit_of_mem_pad {w n : Nat} {c : Char} (h : c ∈ (pad w n).toList) : c.isDigit = true := by
  rw [pad_toList] at h
  rcases List.mem_append.1 h with h | h
  · rw [List.eq_of_mem_replicate h]
    rfl
  · exact Nat.isDigit_of_mem_toDigits (by norm_num) (by norm_num) h

theorem value_pad (w n : Nat) : Nat.ofDigitChars 10 (pad w n).toList 0 = n := by
  rw [pad_toList, Nat.ofDigitChars_append, Nat.ofDigitChars_replicate_zero, Nat.mul_zero,
    Nat.ofDigitChars_toDigits (by norm_num) le_rfl]

/-- A number written with `w` digits is read back by taking `w` digits. -/
theorem takeDigits_pad {w n : Nat} (hw : 0 < w) (hn : n < 10 ^ w) (rest : List Char) :
    takeDigits w ((pad w n).toList ++ rest) = some (n, rest) := by
  have hlen := length_pad hw hn
  unfold takeDigits
  rw [List.take_left' hlen, List.drop_left' hlen, if_pos, foldl_digits, value_pad]
  simp only [hlen, decide_true, Bool.true_and, List.all_eq_true]
  exact fun c hc => isDigit_of_mem_pad hc

/-- A number written with `w` digits starts with a digit. -/
theorem pad_head {w n : Nat} (hw : 0 < w) (hn : n < 10 ^ w) :
    ∃ c cs, (pad w n).toList = c :: cs ∧ c.isDigit = true := by
  have hlen := length_pad hw hn
  rcases hp : (pad w n).toList with _ | ⟨c, cs⟩
  · rw [hp] at hlen
    simp at hlen
    omega
  · exact ⟨c, cs, rfl, isDigit_of_mem_pad (by rw [hp]; exact List.mem_cons_self)⟩

theorem takeDigits_pad_nil {w n : Nat} (hw : 0 < w) (hn : n < 10 ^ w) :
    takeDigits w (pad w n).toList = some (n, []) := by
  simpa using takeDigits_pad hw hn []

/-! ## Clock times -/

section Clock

variable {h m s : Nat} (hh : h < 100) (hm : m < 100)
include hh hm

theorem readClock_hm : readClock ((pad 2 h).toList ++ ':' :: (pad 2 m).toList) = some (h, m, 0, 0) := by
  simp [readClock, takeDigits_pad, takeDigits_pad_nil, hh, hm]

theorem readClock_hms (hs : s < 100) :
    readClock ((pad 2 h).toList ++ ':' :: ((pad 2 m).toList ++ ':' :: (pad 2 s).toList)) =
      some (h, m, s, 0) := by
  simp [readClock, takeDigits_pad, takeDigits_pad_nil, hh, hm, hs]

theorem readClock_hms_fraction (hs : s < 100) {us : Nat} (hus : us < 1000000) :
    readClock ((pad 2 h).toList ++ ':' :: ((pad 2 m).toList ++ ':' :: ((pad 2 s).toList ++
      '.' :: (pad 6 us).toList))) = some (h, m, s, us) := by
  have hlen : (pad 6 us).toList.length = 6 := length_pad (by norm_num) hus
  have hdigits : List.takeWhile Char.isDigit (pad 6 us).toList = (pad 6 us).toList :=
    List.takeWhile_eq_self_iff.2 fun c hc => isDigit_of_mem_pad hc
  obtain ⟨c, cs, hc, hcd⟩ := pad_head (by norm_num) (show us < 10 ^ 6 from hus)
  have hvalue := value_pad 6 us
  rw [← foldl_digits] at hvalue
  simp [readClock, takeDigits_pad, hh, hm, hs, hdigits, hlen, List.take_of_length_le]
  exact ⟨by simp [hc, hcd], hvalue⟩

end Clock

/-- At most six digits of a fraction, scaled to microseconds. -/
theorem fraction_lt (frac : List Char) :
    ((frac.takeWhile Char.isDigit).take 6).foldl (fun a c => a * 10 + (c.toNat - '0'.toNat)) 0 *
      Nat.pow 10 (6 - ((frac.takeWhile Char.isDigit).take 6).length) < 1000000 := by
  set six := (frac.takeWhile Char.isDigit).take 6
  have hdig : ∀ c ∈ six, c.isDigit = true := fun c hc =>
    List.mem_takeWhile_imp (List.mem_of_mem_take hc)
  have hlen : six.length ≤ 6 := List.length_take_le _ _
  have hval := ofDigitChars_lt hdig 0
  rw [foldl_digits]
  calc Nat.ofDigitChars 10 six 0 * Nat.pow 10 (6 - six.length)
      < 10 ^ six.length * 10 ^ (6 - six.length) :=
        Nat.mul_lt_mul_of_pos_right (by simpa using hval) (Nat.pow_pos (by norm_num))
    _ = 1000000 := by rw [← Nat.pow_add, Nat.add_sub_cancel' hlen]

/-- The microseconds of a clock time are less than a second. -/
theorem readClock_micro_lt {cs : List Char} {h m s us : Nat} (hr : readClock cs = some (h, m, s, us)) :
    us < 1000000 := by
  unfold readClock at hr
  repeat' (first
    | (obtain ⟨_, _, hr⟩ := hr)
    | split at hr
    | (simp only [Option.bind_eq_bind, Option.bind_eq_some_iff] at hr))
  -- every result is a whole second or a fraction of at most six digits
  all_goals first | exact fraction_lt _ | norm_num

/-- Reading a time gives less than a second of microseconds. -/
theorem readTime_micro_lt {cs : List Char} {h m s us : Nat} {off : Option Int}
    (hr : readTime cs = some (h, m, s, us, off)) : us < 1000000 := by
  unfold readTime at hr
  repeat' (first
    | (obtain ⟨_, _, hr⟩ := hr)
    | split at hr
    | (simp only [Option.bind_eq_bind, Option.bind_eq_some_iff] at hr))
  -- in every case the microseconds are those of the clock time before the offset
  all_goals exact readClock_micro_lt (by assumption)

/-! ## Offsets -/

/-- The characters of a clock time: none of them starts an offset. -/
def ClockChar (c : Char) : Prop := c ≠ 'Z' ∧ c ≠ '+' ∧ c ≠ '-'

instance : DecidablePred ClockChar := fun c => by
  unfold ClockChar
  infer_instance

theorem clockChar_of_isDigit {c : Char} (h : c.isDigit = true) : ClockChar c := by
  refine ⟨?_, ?_, ?_⟩ <;> (rintro rfl; simp at h)

theorem clockChar_pad {w n : Nat} : ∀ c ∈ (pad w n).toList, ClockChar c :=
  fun _ hc => clockChar_of_isDigit (isDigit_of_mem_pad hc)

theorem takeWhile_clock {clock : List Char} (hchars : ∀ c ∈ clock, ClockChar c) (rest : List Char)
    (hrest : ∀ c r, rest = c :: r → ¬ ClockChar c) :
    (clock ++ rest).takeWhile (fun c => c != 'Z' && c != '+' && c != '-') = clock := by
  rw [List.takeWhile_append_of_pos]
  · rcases rest with _ | ⟨c, r⟩
    · simp
    · have hc := hrest c r rfl
      simp only [ClockChar, not_and, not_not] at hc
      simpa [List.takeWhile_cons] using hc
  · intro c hc
    obtain ⟨hZ, hp, hm⟩ := hchars c hc
    simp [hZ, hp, hm]

/-- The text of an offset less than a day: its sign, then its clock time, which reads back as
the hours, minutes, seconds and microseconds of its size. -/
theorem offsetText_toList {o : Int} (ho : o.natAbs < 86400000000) :
    ∃ body, (offsetText o).toList = (if o < 0 then '-' else '+') :: body ∧
      readClock body = some (o.natAbs / 1000000 / 3600, o.natAbs / 1000000 % 3600 / 60,
        o.natAbs / 1000000 % 60, o.natAbs % 1000000) := by
  have hh : o.natAbs / 1000000 / 3600 < 100 := by omega
  have hm : o.natAbs / 1000000 % 3600 / 60 < 100 := by omega
  have hs : o.natAbs / 1000000 % 60 < 100 := by omega
  have hus : o.natAbs % 1000000 < 1000000 := Nat.mod_lt _ (by norm_num)
  have hsign : (if o < 0 then "-" else "+").toList = [if o < 0 then '-' else '+'] := by
    split_ifs <;> rfl
  unfold offsetText
  generalize hsg : (if o < 0 then "-" else "+") = sg
  have hsgl : sg.toList = [if o < 0 then '-' else '+'] := hsg ▸ hsign
  generalize (if o < 0 then '-' else '+') = sc at hsgl ⊢
  by_cases hfrac : o.natAbs % 1000000 = 0
  · by_cases hsec : o.natAbs / 1000000 % 60 = 0
    · -- a whole number of minutes: hours and minutes only
      rw [hsec, hfrac]
      exact ⟨_, by simp [hsgl, hsec, hfrac], readClock_hm hh hm⟩
    · rw [hfrac]
      exact ⟨_, by simp [hsgl, hsec, hfrac], readClock_hms hh hm hs⟩
  · exact ⟨_, by simp [hsgl, hfrac], readClock_hms_fraction hh hm hs hus⟩

section Time

variable {clock : List Char} {h m s us : Nat} (hclock : readClock clock = some (h, m, s, us))
  (hchars : ∀ c ∈ clock, ClockChar c)
include hclock hchars

/-- A time without an offset is read as UTC. -/
theorem readTime_clock : readTime clock = some (h, m, s, us, none) := by
  have htake := takeWhile_clock hchars [] (fun _ _ h => by cases h)
  rw [List.append_nil] at htake
  simp [readTime, htake, hclock]

/-- A time followed by a signed offset. -/
theorem readTime_signed {sgn : Char} (hsgn : sgn = '+' ∨ sgn = '-') {body : List Char}
    {th tm ts tus : Nat} (hbody : readClock body = some (th, tm, ts, tus)) :
    readTime (clock ++ sgn :: body) = some (h, m, s, us, some (if sgn = '-'
      then -(((th * 3600 + tm * 60 + ts) * 1000000 + tus : Nat) : Int)
      else (((th * 3600 + tm * 60 + ts) * 1000000 + tus : Nat) : Int))) := by
  have htake := takeWhile_clock hchars (sgn :: body) (fun c r h => by
    cases h
    rcases hsgn with rfl | rfl <;> simp [ClockChar])
  rcases hsgn with rfl | rfl <;> simp [readTime, htake, hclock, hbody]

/-- A time followed by the text of an offset less than a day reads back with that offset. -/
theorem readTime_offsetText {o : Int} (ho : o.natAbs < 86400000000) :
    readTime (clock ++ (offsetText o).toList) = some (h, m, s, us, some o) := by
  obtain ⟨body, htext, hbody⟩ := offsetText_toList ho
  have hsgn : (if o < 0 then '-' else '+') = '+' ∨ (if o < 0 then '-' else '+') = '-' := by
    split_ifs <;> simp
  rw [htext, readTime_signed hclock hchars hsgn hbody]
  have hsize : (o.natAbs / 1000000 / 3600 * 3600 + o.natAbs / 1000000 % 3600 / 60 * 60 +
      o.natAbs / 1000000 % 60) * 1000000 + o.natAbs % 1000000 = o.natAbs := by omega
  rw [hsize]
  by_cases hneg : o < 0
  · rw [if_pos hneg, if_pos rfl, show -(o.natAbs : Int) = o by omega]
  · rw [if_neg hneg, if_neg (by decide), show (o.natAbs : Int) = o by omega]

end Time

/-! ## Dates -/

section Date

variable {y mo d : Nat}

theorem separatorAt_date (hy : y < 10 ^ 4) (hmo : mo < 100) (rest : List Char) :
    separatorAt ((pad 4 y).toList ++ '-' :: ((pad 2 mo).toList ++ '-' :: ((pad 2 d).toList ++
      'T' :: rest))) = 10 := by
  have hl4 := length_pad (by norm_num) hy
  obtain ⟨m0, ms, hm, hm0⟩ := pad_head (by norm_num) (show mo < 10 ^ 2 from hmo)
  have hW : m0 ≠ 'W' := by rintro rfl; simp at hm0
  unfold separatorAt
  simp [List.getD_eq_getElem?_getD, List.getElem?_append_right, hl4, hm, hW]
  omega

/-- A date written `YYYY-MM-DD` is read back. -/
theorem readDate_pad (hy : y < 10 ^ 4) (hmo : mo < 100) (hd : d < 100) :
    readDate ((pad 4 y).toList ++ '-' :: ((pad 2 mo).toList ++ '-' :: (pad 2 d).toList)) =
      some (y, mo, d) := by
  obtain ⟨m0, ms, hm, hm0⟩ := pad_head (by norm_num) (show mo < 10 ^ 2 from hmo)
  have hW : m0 ≠ 'W' := by rintro rfl; simp at hm0
  have hmonth := takeDigits_pad (by norm_num) (show mo < 10 ^ 2 from hmo) ('-' :: (pad 2 d).toList)
  rw [hm] at hmonth
  have hyear := takeDigits_pad (by norm_num) hy ('-' :: ((pad 2 mo).toList ++ '-' :: (pad 2 d).toList))
  have hday := takeDigits_pad_nil (by norm_num) (show d < 10 ^ 2 from hd)
  rw [hm] at hyear ⊢
  rw [List.cons_append] at hyear hmonth
  simp [readDate, hyear, hW, hmonth, hday]

end Date

/-! ## Epochs read back -/

/-- The ranges of a calendar instant that reading checks, with at most six digits of
fraction. -/
structure Valid (e : Epoch) : Prop where
  year_pos : 0 < e.year
  year_le : e.year ≤ 9999
  month_pos : 0 < e.month
  month_le : e.month ≤ 12
  day_pos : 0 < e.day
  day_le : e.day ≤ daysInMonth e.year e.month
  hour_le : e.hour ≤ 23
  minute_le : e.minute ≤ 59
  second_le : e.second ≤ 59
  micro_lt : e.micro < 1000000
  offset_lt : ∀ o, e.offset = some o → o.natAbs < 86400000000

/-- The clock part of the text of an epoch, before its offset. -/
def clockText (e : Epoch) : List Char :=
  (pad 2 e.hour).toList ++ ':' :: ((pad 2 e.minute).toList ++ ':' :: ((pad 2 e.second).toList ++
    (if e.micro = 0 then [] else '.' :: (pad 6 e.micro).toList)))

theorem isoText_toList (e : Epoch) :
    e.isoText.toList = (pad 4 e.year).toList ++ '-' :: ((pad 2 e.month).toList ++ '-' ::
      ((pad 2 e.day).toList ++ 'T' :: (e.clockText ++ ((e.offset.map offsetText).getD "").toList))) := by
  by_cases h0 : e.micro = 0 <;> simp [isoText, clockText, h0]

theorem daysInMonth_le (y m : Nat) : daysInMonth y m ≤ 31 := by
  unfold daysInMonth
  split <;> (try split) <;> omega

section Valid

variable {e : Epoch} (hv : e.Valid)
include hv

theorem readClock_clockText : readClock e.clockText = some (e.hour, e.minute, e.second, e.micro) := by
  have hh : e.hour < 100 := by have := hv.hour_le; omega
  have hm : e.minute < 100 := by have := hv.minute_le; omega
  have hs : e.second < 100 := by have := hv.second_le; omega
  by_cases h0 : e.micro = 0
  · simpa [clockText, h0] using readClock_hms hh hm hs
  · simpa [clockText, h0] using readClock_hms_fraction hh hm hs hv.micro_lt

omit hv in
theorem clockChar_clockText : ∀ c ∈ e.clockText, ClockChar c := by
  simp only [clockText, List.forall_mem_append, List.forall_mem_cons]
  refine ⟨clockChar_pad, by decide, clockChar_pad, by decide, clockChar_pad, ?_⟩
  split_ifs
  · simp
  · exact List.forall_mem_cons.2 ⟨by decide, clockChar_pad⟩

/-- The time part of the text of an epoch reads back with the epoch's offset. -/
theorem readTime_isoText :
    readTime (e.clockText ++ ((e.offset.map offsetText).getD "").toList) =
      some (e.hour, e.minute, e.second, e.micro, e.offset) := by
  cases ho : e.offset with
  | none => simpa using readTime_clock (readClock_clockText hv) clockChar_clockText
  | some o => exact readTime_offsetText (readClock_clockText hv) clockChar_clockText (hv.offset_lt o ho)

/-- The date of an epoch in its ranges fits the widths it is written in. -/
theorem date_lt : e.year < 10 ^ 4 ∧ e.month < 100 ∧ e.day < 100 := by
  have := hv.year_le
  have := hv.month_le
  have := hv.day_le
  have := daysInMonth_le e.year e.month
  omega

/-- The text of an epoch in its ranges is cut after its ten date characters, with the time
after the separator. -/
theorem isoText_parts :
    separatorAt e.isoText.toList = 10 ∧ e.isoText.toList.length > 10 ∧
      e.isoText.toList.take 10 =
        (pad 4 e.year).toList ++ '-' :: ((pad 2 e.month).toList ++ '-' :: (pad 2 e.day).toList) ∧
      e.isoText.toList.drop (10 + 1) = e.clockText ++ ((e.offset.map offsetText).getD "").toList := by
  obtain ⟨hy, hmo, hd⟩ := date_lt hv
  have hl4 := length_pad (by norm_num) hy
  have hl2m := length_pad (by norm_num) (show e.month < 10 ^ 2 from hmo)
  have hl2d := length_pad (by norm_num) (show e.day < 10 ^ 2 from hd)
  rw [isoText_toList]
  refine ⟨separatorAt_date hy hmo _, ?_, ?_, ?_⟩
  · simp only [List.length_append, List.length_cons, hl4, hl2m, hl2d]
    omega
  · simp [List.take_append, hl4, hl2m, hl2d, List.take_of_length_le]
  · simp [List.drop_append, hl4, hl2m, hl2d, List.drop_eq_nil_of_le]

/-- The text of an epoch in its ranges reads back as the epoch. -/
theorem parse_isoText : parse e.isoText = .ok e := by
  obtain ⟨hy, hmo, hd⟩ := date_lt hv
  obtain ⟨hsep, hlen, htake, hdrop⟩ := isoText_parts hv
  simp only [parse, hsep, htake, readDate_pad hy hmo hd, hlen, hdrop, readTime_isoText hv]
  -- then every range check passes
  have hyear : ¬ (e.year = 0 ∨ e.year > 9999) := by have := hv.year_pos; have := hv.year_le; omega
  have hmonth : ¬ (e.month = 0 ∨ e.month > 12) := by
    have := hv.month_pos; have := hv.month_le; omega
  have hday : ¬ (e.day = 0 ∨ e.day > daysInMonth e.year e.month) := by
    have := hv.day_pos; have := hv.day_le; omega
  have hhour : ¬ e.hour > 23 := Nat.not_lt.2 hv.hour_le
  have hminute : ¬ e.minute > 59 := Nat.not_lt.2 hv.minute_le
  have hsecond : ¬ e.second > 59 := Nat.not_lt.2 hv.second_le
  simp only [Bool.or_eq_true, decide_eq_true_eq, hyear, hmonth, hday, hhour, hminute, hsecond,
    ↓reduceIte, pure_bind]
  split
  next o ho => rw [if_neg (Nat.not_le.2 (hv.offset_lt o ho))]; rfl
  · rfl

end Valid

/-- The epoch of an absent configuration epoch is in its ranges. -/
theorem valid_j2000 : j2000.Valid := by
  constructor <;> simp [j2000, daysInMonth]

/-- Every epoch that reading accepts is in its ranges. -/
theorem valid_of_parse {s : String} {e : Epoch} (h : parse s = .ok e) : e.Valid := by
  unfold parse at h
  extract_lets cs at_ at h
  split at h
  next y mo d _ =>
    extract_lets jp at h
    obtain ⟨t, hus, ht⟩ : ∃ t : Nat × Nat × Nat × Nat × Option Int,
        t.2.2.2.1 < 1000000 ∧ jp t = .ok e := by
      split at h
      · split at h
        · exact ⟨_, readTime_micro_lt (by assumption), h⟩
        · cases h
      · exact ⟨(0, 0, 0, 0, none), by norm_num, h⟩
    obtain ⟨hh, mi, sec, us, off⟩ := t
    simp -zeta only [jp] at ht
    -- each check is a join point: a refused check throws, a passed one goes on to the next
    repeat' (first
      | (cases ht; done)
      | split at ht)
    all_goals
      cases ht
      simp only [Bool.or_eq_true, decide_eq_true_eq, not_or, Nat.not_lt, Nat.not_le] at *
      constructor
      all_goals dsimp only
      -- the offset was checked when there is one
      all_goals first | omega | (intro o ho; simp_all)
  · cases h

end Epoch
end Spacecraft
