import PersonalBlockchain.Lib.Calendar
import Mathlib.Algebra.Ring.Nat
import Mathlib.Data.Int.Basic

/-!
# Personal blockchain — clock readings and ISO 8601 timestamps

Blocks and transactions carry their time as a string. It is written by
`Transaction::currentTimestamp` and the `Block` constructor (`gmtime_r`
followed by `std::put_time` with `%Y-%m-%dT%H:%M:%SZ`) and read back by
`DifficultyAdjuster::parseTimestamp` and `Transaction::isExpired`
(`std::get_time` with `%Y-%m-%dT%H:%M:%S` followed by `timegm`).

Main result: `parseTimestamp_currentTimestamp` — reading back a timestamp
gives the second it was written at, for every reading of the clock.
-/

namespace PersonalBlockchain

open Calendar

/-- A reading of `std::chrono::system_clock`: nanoseconds since the epoch, in
the range of the clock's 64-bit representation. -/
structure TimePoint where
  ns : Nat
  inRange : ns < 2 ^ 63

namespace TimePoint

instance : LE TimePoint := ⟨fun s t => s.ns ≤ t.ns⟩

instance (s t : TimePoint) : Decidable (s ≤ t) := inferInstanceAs (Decidable (s.ns ≤ t.ns))

/-- `duration_cast<seconds>(now.time_since_epoch())`, also `to_time_t(now)`. -/
def seconds (t : TimePoint) : Nat := t.ns / 1000000000

/-- The reading at the start of a second. -/
def ofSeconds (s : Nat) (h : s < 9223372036) : TimePoint := ⟨s * 1000000000, by omega⟩

theorem seconds_mono {s t : TimePoint} (h : s ≤ t) : s.seconds ≤ t.seconds :=
  Nat.div_le_div_right h

/-- The clock runs out in the year 2262. -/
theorem seconds_lt (t : TimePoint) : t.seconds < 9223372037 := by
  have hrange := t.inRange
  unfold seconds
  omega

end TimePoint

/-! ## `std::put_time` and `std::get_time` -/

/-- A number printed with at least two digits. -/
def pad2 (n : Nat) : String :=
  if n < 10 then "0" ++ toString n else toString n

/-- `put_time(&tm, "%Y-%m-%dT%H:%M:%SZ")`. -/
def putTime (tm : Tm) : String :=
  toString tm.year ++ "-" ++ pad2 tm.mon ++ "-" ++ pad2 tm.mday ++ "T" ++
    pad2 tm.hour ++ ":" ++ pad2 tm.min ++ ":" ++ pad2 tm.sec ++ "Z"

/-- `std::isspace` of an ASCII character: blank, tab, newline, vertical tab,
form feed and carriage return. -/
def isSpace (c : Char) : Bool :=
  c = ' ' || ('\t' ≤ c && c ≤ '\r')

/-- The value of a list of decimal digits. -/
def digitsValue (ds : List Char) : Nat :=
  ds.foldl (fun n c => 10 * n + (c.toNat - '0'.toNat)) 0

/-- Read a number of at most `width` digits in `[lo, hi]` (leading zeros
permitted, not required). -/
def readNum (width lo hi : Nat) (cs : List Char) : Option (Nat × List Char) :=
  let ds := (cs.take width).takeWhile Char.isDigit
  if ds = [] ∨ digitsValue ds < lo ∨ hi < digitsValue ds then none
  else some (digitsValue ds, cs.drop ds.length)

/-- Match one literal character of the format, ignoring case. -/
def readLit (c : Char) : List Char → Option (List Char)
  | [] => none
  | d :: rest => if d.toLower = c.toLower then some rest else none

/-- One blank is skipped before the day, and before no other number. -/
def skipBlank : List Char → List Char
  | [] => []
  | c :: rest => if isSpace c then rest else c :: rest

/-- `ss >> std::get_time(&tm, "%Y-%m-%dT%H:%M:%S")`; `none` when the stream
fails. The stream skips leading blanks. A text that ends right behind a number is
read with success, and the fields not reached keep the zeros of `std::tm tm = {}`:
January, the day before its first, midnight. A text that ends behind a literal
fails, and what follows the seconds is not read. -/
def getTime (s : String) : Option Tm := do
  let (year, cs) ← readNum 4 0 9999 (s.toList.dropWhile isSpace)
  if cs = [] then return ⟨year, 1, 0, 0, 0, 0⟩
  let (mon, cs) ← readNum 2 1 12 (← readLit '-' cs)
  if cs = [] then return ⟨year, mon, 0, 0, 0, 0⟩
  let (mday, cs) ← readNum 2 1 31 (skipBlank (← readLit '-' cs))
  if cs = [] then return ⟨year, mon, mday, 0, 0, 0⟩
  let (hour, cs) ← readNum 2 0 23 (← readLit 'T' cs)
  if cs = [] then return ⟨year, mon, mday, hour, 0, 0⟩
  let (min, cs) ← readNum 2 0 59 (← readLit ':' cs)
  if cs = [] then return ⟨year, mon, mday, hour, min, 0⟩
  let (sec, _) ← readNum 2 0 60 (← readLit ':' cs)
  return ⟨year, mon, mday, hour, min, sec⟩

/-- `Transaction::currentTimestamp`, and the timestamp the `Block` constructor
sets. -/
def currentTimestamp (now : TimePoint) : String := putTime (gmtime now.seconds)

/-- `DifficultyAdjuster::parseTimestamp`: epoch seconds, 0 when unreadable. -/
def parseTimestamp (isoTimestamp : String) : Int :=
  match getTime isoTimestamp with
  | none => 0
  | some tm => timegm tm

example : parseTimestamp "2026-01-01T00:00:00Z" = 1767225600 := by decide +kernel
-- cut short behind a number, behind a literal, and with a blank before the day
example : parseTimestamp "2026-01-01T00:01" = 1767225660 := by decide +kernel
example : parseTimestamp "2026-01" = 1767139200 := by decide +kernel
example : parseTimestamp "2026-01-01T00:" = 0 := by decide +kernel
example : parseTimestamp "2026-01- 5T00:00:00Z" = 1767571200 := by decide +kernel

/-! ## Reading back what was written -/

/-- A decimal digit is a digit, has its value, and is no blank. -/
theorem digitChar_isDigit {a : Nat} (h : a < 10) :
    a.digitChar.isDigit = true ∧ a.digitChar.toNat - '0'.toNat = a ∧
      isSpace a.digitChar = false := by
  revert a
  decide

/-- A number below 100 is printed with two digits, tens and units. -/
theorem pad2_toList {n : Nat} (h : n < 100) :
    (pad2 n).toList = [(n / 10).digitChar, (n % 10).digitChar] := by
  revert n
  decide

/-- A four-digit number, digit by digit. -/
theorem toString_toList_four {y : Nat} (h1 : 1000 ≤ y) (h2 : y < 10000) :
    (toString y).toList = [(y / 1000).digitChar, (y / 100 % 10).digitChar,
      (y / 10 % 10).digitChar, (y % 10).digitChar] := by
  have hdigits : Nat.toDigits 10 y = [(y / 1000).digitChar, (y / 100 % 10).digitChar,
      (y / 10 % 10).digitChar, (y % 10).digitChar] := by
    rw [Nat.toDigits_of_base_le (by decide) (by omega : 10 ≤ y),
      Nat.toDigits_of_base_le (by decide) (by omega : 10 ≤ y / 10),
      Nat.toDigits_of_base_le (by decide) (by omega : 10 ≤ y / 10 / 10),
      Nat.toDigits_of_lt_base (by omega : y / 10 / 10 / 10 < 10),
      show y / 10 / 10 = y / 100 by omega, show y / 100 / 10 = y / 1000 by omega]
    rfl
  show (Nat.repr y).toList = _
  rw [Nat.repr_eq_ofList_toDigits, String.toList_ofList, hdigits]

/-- Two digits in a row are read as their number when it is in range. -/
theorem readNum_two {a b lo hi : Nat} (ha : a < 10) (hb : b < 10)
    (hlo : lo ≤ 10 * a + b) (hhi : 10 * a + b ≤ hi) (rest : List Char) :
    readNum 2 lo hi (a.digitChar :: b.digitChar :: rest) = some (10 * a + b, rest) := by
  obtain ⟨ha1, ha2, -⟩ := digitChar_isDigit ha
  obtain ⟨hb1, hb2, -⟩ := digitChar_isDigit hb
  simp only [readNum, List.take_succ_cons, List.take_zero, List.takeWhile_cons, ha1, hb1,
    if_true, List.takeWhile_nil, digitsValue, List.foldl_cons, List.foldl_nil, ha2, hb2]
  rw [if_neg (by simp; omega)]
  simp

/-- A two-digit field is read back, whatever follows it. -/
theorem readNum_pad2 {n lo hi : Nat} (hn : n < 100) (hlo : lo ≤ n) (hhi : n ≤ hi)
    (rest : List Char) : readNum 2 lo hi ((pad2 n).toList ++ rest) = some (n, rest) := by
  have hdigits : 10 * (n / 10) + n % 10 = n := Nat.div_add_mod n 10
  have h := readNum_two (by omega : n / 10 < 10) (by omega : n % 10 < 10)
    (hdigits.symm ▸ hlo) (hdigits.symm ▸ hhi) rest
  rw [hdigits] at h
  rw [pad2_toList hn]
  exact h

/-- A day written with two digits has no blank before it. -/
theorem skipBlank_pad2 {n : Nat} (hn : n < 100) (rest : List Char) :
    skipBlank ((pad2 n).toList ++ rest) = (pad2 n).toList ++ rest := by
  obtain ⟨-, -, hdigit⟩ := digitChar_isDigit (a := n / 10) (by omega)
  rw [pad2_toList hn]
  simp [skipBlank, hdigit]

/-- The year is read back, whatever follows it: it is printed with four digits,
and at most four are read. -/
theorem readNum_year {y : Nat} (h1 : 1000 ≤ y) (h2 : y < 10000) (rest : List Char) :
    readNum 4 0 9999 (((toString y).toList ++ rest).dropWhile isSpace) =
      some (y, rest) := by
  obtain ⟨ha1, ha2, ha3⟩ := digitChar_isDigit (a := y / 1000) (by omega)
  obtain ⟨hb1, hb2, -⟩ := digitChar_isDigit (a := y / 100 % 10) (by omega)
  obtain ⟨hc1, hc2, -⟩ := digitChar_isDigit (a := y / 10 % 10) (by omega)
  obtain ⟨hd1, hd2, -⟩ := digitChar_isDigit (a := y % 10) (by omega)
  have hvalue : 10 * (10 * (10 * (y / 1000) + y / 100 % 10) + y / 10 % 10) + y % 10 = y := by
    omega
  -- digit by digit
  rw [toString_toList_four h1 h2]
  simp only [List.cons_append, List.nil_append, List.dropWhile_cons, ha3, Bool.false_eq_true,
    if_false, readNum, List.take_succ_cons, List.take_zero, List.takeWhile_cons, ha1, hb1, hc1,
    hd1, if_true, List.takeWhile_nil, digitsValue, List.foldl_cons, List.foldl_nil, ha2, hb2,
    hc2, hd2, Nat.mul_zero, Nat.zero_add, hvalue]
  rw [if_neg (by simp; omega)]
  simp

/-- **A written time is read back**, field by field, when its year has four
digits and its other fields are in their ranges. -/
theorem getTime_putTime {tm : Tm} (hy : 1000 ≤ tm.year ∧ tm.year < 10000)
    (hmon : 1 ≤ tm.mon ∧ tm.mon ≤ 12) (hmday : 1 ≤ tm.mday ∧ tm.mday ≤ 31)
    (hhour : tm.hour ≤ 23) (hmin : tm.min ≤ 59) (hsec : tm.sec ≤ 59) :
    getTime (putTime tm) = some tm := by
  have hchars : (putTime tm).toList = (toString tm.year).toList ++ '-' ::
      ((pad2 tm.mon).toList ++ '-' :: ((pad2 tm.mday).toList ++ 'T' ::
        ((pad2 tm.hour).toList ++ ':' :: ((pad2 tm.min).toList ++ ':' ::
          ((pad2 tm.sec).toList ++ ['Z']))))) := by
    simp [putTime, String.toList_append]
  -- field by field: the number is read back, the text does not end behind it, and
  -- the literal is next
  rw [getTime, hchars, readNum_year hy.1 hy.2]
  simp only [Option.bind_eq_bind, Option.bind_some, readLit, if_true, reduceCtorEq, if_false,
    skipBlank_pad2 (show tm.mday < 100 by omega),
    readNum_pad2 (show tm.mon < 100 by omega) hmon.1 hmon.2,
    readNum_pad2 (show tm.mday < 100 by omega) hmday.1 hmday.2,
    readNum_pad2 (show tm.hour < 100 by omega) (Nat.zero_le _) hhour,
    readNum_pad2 (show tm.min < 100 by omega) (Nat.zero_le _) hmin,
    readNum_pad2 (show tm.sec < 100 by omega) (Nat.zero_le _) (show tm.sec ≤ 60 by omega)]
  rfl

/-- The clock stays within four-digit years, from 1970 to 2262. -/
theorem gmtime_seconds_year (now : TimePoint) :
    1000 ≤ (gmtime now.seconds).year ∧ (gmtime now.seconds).year < 10000 := by
  obtain ⟨hlow, hhigh⟩ := gmtime_year now.seconds
  have hlt := now.seconds_lt
  -- 9223372036 seconds are less than 293 years of 365 days
  generalize (gmtime now.seconds).year = year at hlow hhigh ⊢
  generalize now.seconds = seconds at hhigh hlt
  omega

/-- **A timestamp of the node is read back as the second it was written at**,
whatever the clock says. So blocks of this node are compared by the times they
were made at. -/
theorem parseTimestamp_currentTimestamp (now : TimePoint) :
    parseTimestamp (currentTimestamp now) = now.seconds := by
  obtain ⟨hmon, hmday, hhour, hmin, hsec⟩ := gmtime_bounds now.seconds
  have hget := getTime_putTime (gmtime_seconds_year now) hmon hmday hhour hmin hsec
  rw [parseTimestamp, currentTimestamp, hget]
  exact timegm_gmtime _

end PersonalBlockchain
