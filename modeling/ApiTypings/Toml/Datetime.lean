/-
# Dates and times of TOML

A date, a time of day, or both, then with or without an offset from universal time.  One moment can
be written in several ways: with a `T`, a `t` or a blank in front of its time, with more or fewer
digits in a fraction, with `Z` or `z`.  `Datetime.text` is the one form in which it is handed on.

* `readFixed_lastDigits` : a number that is written in a fixed count of digits reads back.
-/
import ApiTypings.Json.Reader

namespace ApiTypings

/-! ## Values -/

/-- A day of the calendar. -/
structure Date where
  year : Nat
  month : Nat
  day : Nat
  deriving DecidableEq, Repr

/-- A time of day; a minute may have a second 60. -/
structure TimeOfDay where
  hour : Nat
  minute : Nat
  second : Nat
  nanosecond : Nat
  deriving DecidableEq, Repr

/-- How far a clock is from universal time. -/
inductive ClockOffset where
  /-- The clock of universal time. -/
  | universal
  /-- Minutes, below zero for a clock that is behind. -/
  | minutes (n : Int)
  deriving DecidableEq, Repr

/-- A date, a time of day, or both. -/
inductive Datetime where
  | date (d : Date)
  | time (t : TimeOfDay)
  | moment (d : Date) (t : TimeOfDay) (offset : Option ClockOffset)
  deriving DecidableEq, Repr

namespace Datetime

/-! ## Digits -/

/-- The last digits of a number, as many as asked for. -/
def lastDigits : Nat → Nat → List Char
  | 0, _ => []
  | count + 1, n => lastDigits count (n / 10) ++ [Nat.digitChar (n % 10)]

/-- A number of a fixed count of digits. -/
def readFixed (count : Nat) (cs : List Char) : Option (Nat × List Char) :=
  let ds := cs.take count
  if ds.length = count ∧ ds.all Json.isDigit then some (Json.natOfDigits ds, cs.drop count)
  else none

/-- As many digits are written as asked for. -/
theorem length_lastDigits (count n : Nat) : (lastDigits count n).length = count := by
  induction count generalizing n with
  | zero => rfl
  | succ count ih => simp [lastDigits, ih]

/-- A digit is written as a digit, which denotes it. -/
theorem digitChar_law {d : Nat} (h : d < 10) :
    Json.isDigit (Nat.digitChar d) = true ∧ Json.digitValue (Nat.digitChar d) = d := by
  have all : ∀ d < 10,
      Json.isDigit (Nat.digitChar d) = true ∧ Json.digitValue (Nat.digitChar d) = d := by decide
  exact all d h

/-- Nothing but digits is written. -/
theorem all_isDigit_lastDigits (count n : Nat) : (lastDigits count n).all Json.isDigit = true := by
  induction count generalizing n with
  | zero => rfl
  | succ count ih => simp [lastDigits, ih, digitChar_law (Nat.mod_lt n (by decide : 10 > 0))]

/-- The digits denote the number, if it has no more of them. -/
theorem natOfDigits_lastDigits (count n : Nat) (h : n < Decimal.tenTo count) :
    Json.natOfDigits (lastDigits count n) = n := by
  induction count generalizing n with
  | zero =>
    have : n = 0 := by simpa [Decimal.tenTo] using h
    simp [this, lastDigits, Json.natOfDigits]
  | succ count ih =>
    have small : n / 10 < Decimal.tenTo count := by
      have : n < Decimal.tenTo count * 10 := h
      omega
    have digit := digitChar_law (Nat.mod_lt n (by decide : 10 > 0))
    have front := ih (n / 10) small
    simp only [Json.natOfDigits] at front ⊢
    rw [lastDigits, List.foldl_append, front, List.foldl_cons, List.foldl_nil, digit.2]
    omega

/-- A number that is written in a fixed count of digits reads back. -/
theorem readFixed_lastDigits (count n : Nat) (rest : List Char) (h : n < Decimal.tenTo count) :
    readFixed count (lastDigits count n ++ rest) = some (n, rest) := by
  have len := length_lastDigits count n
  have front : (lastDigits count n ++ rest).take count = lastDigits count n := by
    rw [List.take_append_of_le_length (by omega), List.take_of_length_le (by omega)]
  have back : (lastDigits count n ++ rest).drop count = rest := by
    rw [List.drop_append_of_le_length (by omega), List.drop_of_length_le (by omega)]
    rfl
  rw [readFixed, front, back, if_pos ⟨len, all_isDigit_lastDigits count n⟩,
    natOfDigits_lastDigits count n h]

/-! ## Text -/

/-- The fraction of a second without the zeros at its end; a full second has none. -/
def fractionChars (nanosecond : Nat) : List Char :=
  match ((lastDigits 9 nanosecond).reverse.dropWhile (· == '0')).reverse with
  | [] => []
  | ds => '.' :: ds

/-- The characters of a date. -/
def dateChars (d : Date) : List Char :=
  lastDigits 4 d.year ++ '-' :: lastDigits 2 d.month ++ '-' :: lastDigits 2 d.day

/-- The characters of a time of day. -/
def timeChars (t : TimeOfDay) : List Char :=
  lastDigits 2 t.hour ++ ':' :: lastDigits 2 t.minute ++ ':' :: lastDigits 2 t.second
    ++ fractionChars t.nanosecond

/-- The characters of an offset; zero minutes are written with a plus. -/
def offsetChars : ClockOffset → List Char
  | .universal => ['Z']
  | .minutes n =>
    (if n < 0 then '-' else '+') :: lastDigits 2 (n.natAbs / 60)
      ++ ':' :: lastDigits 2 (n.natAbs % 60)

/-- The text of a value. -/
def text : Datetime → String
  | date d => .ofList (dateChars d)
  | time t => .ofList (timeChars t)
  | moment d t offset =>
    .ofList (dateChars d ++ 'T' :: timeChars t ++ (offset.map offsetChars).getD [])

/-! ## Reading -/

/-- A number of two digits in a range. -/
def readPair (low high : Nat) (cs : List Char) : Option (Nat × List Char) := do
  let (n, rest) ← readFixed 2 cs
  if low ≤ n ∧ n ≤ high then some (n, rest) else none

/-- The number of days of a month. -/
def daysIn (year month : Nat) : Nat :=
  if month = 2 then
    if year % 4 = 0 ∧ (year % 100 ≠ 0 ∨ year % 400 = 0) then 29 else 28
  else if month = 4 ∨ month = 6 ∨ month = 9 ∨ month = 11 then 30
  else 31

/-- A date of the calendar. -/
def readDate (cs : List Char) : Option (Date × List Char) := do
  let (year, cs) ← readFixed 4 cs
  let cs ← Text.stripPrefix? ['-'] cs
  let (month, cs) ← readPair 1 12 cs
  let cs ← Text.stripPrefix? ['-'] cs
  let (day, cs) ← readPair 1 (daysIn year month) cs
  return (⟨year, month, day⟩, cs)

/-- The nanoseconds of the digits behind a point; digits behind the ninth say nothing. -/
def nanosecondsOf (ds : List Char) : Nat :=
  Json.natOfDigits ((ds ++ List.replicate 9 '0').take 9)

/-- The nanoseconds of the fraction of a second, if there is one. -/
def readNanoseconds : List Char → Option (Nat × List Char)
  | '.' :: cs =>
    match Json.takeDigits cs with
    | ([], _) => none
    | (ds, rest) => some (nanosecondsOf ds, rest)
  | cs => some (0, cs)

/-- A time of day. -/
def readTime (cs : List Char) : Option (TimeOfDay × List Char) := do
  let (hour, cs) ← readPair 0 23 cs
  let cs ← Text.stripPrefix? [':'] cs
  let (minute, cs) ← readPair 0 59 cs
  let cs ← Text.stripPrefix? [':'] cs
  let (second, cs) ← readPair 0 60 cs
  let (nanosecond, cs) ← readNanoseconds cs
  return (⟨hour, minute, second, nanosecond⟩, cs)

/-- An offset from universal time, if there is one. -/
def readOffset : List Char → Option (Option ClockOffset × List Char)
  | [] => some (none, [])
  | c :: cs =>
    if c = 'Z' ∨ c = 'z' then some (some .universal, cs)
    else if c = '+' ∨ c = '-' then do
      let (hours, cs) ← readPair 0 23 cs
      let cs ← Text.stripPrefix? [':'] cs
      let (minutes, cs) ← readPair 0 59 cs
      let n : Int := 60 * hours + minutes
      return (some (.minutes (if c = '-' then -n else n)), cs)
    else some (none, c :: cs)

/-- Whether a character may stand between a date and a time. -/
def isTimeMark (c : Char) : Bool := c == 'T' || c == 't' || c == ' '

/-- A date with or without a time, or a time. -/
def read (cs : List Char) : Option (Datetime × List Char) :=
  match readDate cs with
  | some (d, c :: rest) =>
    match (if isTimeMark c then readTime rest else none) with
    | some (t, rest) => (readOffset rest).map fun (offset, rest) => (moment d t offset, rest)
    | none => some (date d, c :: rest)
  | some (d, []) => some (date d, [])
  | none => (readTime cs).map fun (t, rest) => (time t, rest)

end Datetime

end ApiTypings
