import Libipfs.Lib.Calendar
import Libipfs.Lib.CString
import Libipfs.Lib.Numeral

/-!
# Times in text

A time is written with the calendar of UTC, in two stages: the text of the date is the format of
the nanoseconds.  It is read as a reading of the clock of the process's own time zone.

* `gmtime`, `mktime`     the calendar of UTC, and that of a time zone, back to seconds;
* `strftimeText`, `strptime`   a date in text, and from text (`strptime_strftimeText`);
* `utilTimeFormatRfc3339`, `utilTimeParseRfc3339`   the two functions;
* `timeComesBack_iff`    **a time comes back** when the clock of the zone, showing what that of UTC
  shows, is at the same time.
-/

namespace Ipfs
open CSem

structure Timespec where
  tvSec : Int
  tvNsec : Int
  deriving DecidableEq, Repr

/-- what a clock shows; months are counted from 0, years from 1900 -/
structure Tm where
  tmSec : Nat
  tmMin : Nat
  tmHour : Nat
  tmMday : Nat
  tmMon : Nat
  tmYear : Int
  deriving DecidableEq, Repr

/-! ## the C library -/

/-- what the clock of UTC shows -/
def utcFields (time : Int) : Tm :=
  let date := civilFromDays (time / 86400)
  let second := (time % 86400).toNat
  { tmSec := second % 60
    tmMin := second / 60 % 60
    tmHour := second / 3600
    tmMday := date.day
    tmMon := date.month
    tmYear := date.year - 1900 }

/-- null when the year is no `int` -/
def gmtime (time : Int) : Option Tm :=
  if -2 ^ 31 ≤ (utcFields time).tmYear ∧ (utcFields time).tmYear < 2 ^ 31 then
    some (utcFields time)
  else none

/-- the seconds since the epoch at which the clock of UTC shows this -/
def utcSeconds (tm : Tm) : Int :=
  daysFromCivil { year := tm.tmYear + 1900, month := tm.tmMon, day := tm.tmMday } * 86400 +
    tm.tmHour * 3600 + tm.tmMin * 60 + tm.tmSec

/-- by how many seconds the clock of a zone that shows this is ahead of UTC; where it shows the same
twice a year, or with `tm_isdst` set or not, that says which time is meant -/
abbrev TimeZone : Type := Tm → Int → Int

def mktime (zone : TimeZone) (tm : Tm) (isdst : Int) : Int := utcSeconds tm - zone tm isdst

/-- `%Y` -/
def decimal (z : Int) : List UInt8 :=
  if z < 0 then 45 :: numeral 10 (-z).toNat else numeral 10 z.toNat

/-- `%09d` -/
def nineDigits (z : Int) : List UInt8 :=
  if z < 0 then 45 :: zeroPadded 8 (-z).toNat else zeroPadded 9 z.toNat

/-- `%Y-%m-%dT%H:%M:%S` -/
def dateText (tm : Tm) : List UInt8 :=
  decimal (tm.tmYear + 1900) ++ (45 :: (zeroPadded 2 (tm.tmMon + 1) ++ (45 :: (zeroPadded 2 tm.tmMday ++
    (84 :: (zeroPadded 2 tm.tmHour ++ (58 :: (zeroPadded 2 tm.tmMin ++
      (58 :: zeroPadded 2 tm.tmSec)))))))))

/-- `.%09dZ00:00`, in which `%%` was `%` -/
def nanosecondsFormat : List UInt8 := [46, 37, 48, 57, 100, 90, 48, 48, 58, 48, 48]

/-- the text and its length, or nothing where it does not fit -/
def strftime (max : Nat) (tm : Tm) : Nat × List UInt8 :=
  let text := dateText tm ++ nanosecondsFormat
  if text.length < max then (text.length, text) else (0, [])

/-- a format whose only conversion is `%09d` -/
def sprintfNineDigits (z : Int) : List UInt8 → List UInt8
  | 37 :: 48 :: 57 :: 100 :: format => nineDigits z ++ sprintfNineDigits z format
  | c :: format => c :: sprintfNineDigits z format
  | [] => []

/-- up to so many digits, and no more than the greatest number allows -/
def takeNumber (hi : Nat) : Nat → Nat → List UInt8 → Nat × List UInt8
  | width + 1, val, c :: text =>
    match digitIn 10 c with
    | some d => if val * 10 ≤ hi then takeNumber hi width (val * 10 + d) text else (val, c :: text)
    | none => (val, c :: text)
  | _, val, text => (val, text)

/-- a number of a date, behind any spaces -/
def getNumber (lo hi width : Nat) (text : List UInt8) : Option (Nat × List UInt8) :=
  let text := text.dropWhile (· = 32)
  if (text.head?.bind (digitIn 10)).isNone then none
  else
    let (val, rest) := takeNumber hi width 0 text
    if lo ≤ val ∧ val ≤ hi then some (val, rest) else none

def matchChar (c : UInt8) : List UInt8 → Option (List UInt8)
  | d :: text => if d = c then some text else none
  | [] => none

/-- `%Y-%m-%dT%H:%M:%S`, and the text behind it -/
def strptime (text : List UInt8) : Option (Tm × List UInt8) := do
  let (year, text) ← getNumber 0 9999 4 text
  let text ← matchChar 45 text
  let (mon, text) ← getNumber 1 12 2 text
  let text ← matchChar 45 text
  let (mday, text) ← getNumber 1 31 2 text
  let text ← matchChar 84 text
  let (hour, text) ← getNumber 0 23 2 text
  let text ← matchChar 58 text
  let (min, text) ← getNumber 0 59 2 text
  let text ← matchChar 58 text
  let (sec, text) ← getNumber 0 60 2 text
  some ({ tmSec := sec, tmMin := min, tmHour := hour, tmMday := mday, tmMon := mon - 1,
          tmYear := year - 1900 }, text)

def atoll (text : List UInt8) : Exec Int := do
  let (value, _) ← strtol 10 (text ++ [0])
  .ok value

/-! ## the two functions -/

/-- null when one of the two texts does not have the length it should -/
def utilTimeFormatRfc3339 (ts : Timespec) : Exec (Option (List UInt8)) := do
  let tm ← deref (gmtime ts.tvSec)
  let (length, buf) := strftime 31 tm
  if length ≠ 30 then .ok none
  else
    let ret := sprintfNineDigits (toInt32 ts.tvNsec) buf
    if ret.length ≠ 35 then .ok none else .ok (some ret)

/-- the error and what the time is then; `isdst` is what `tm_isdst` was before, since nothing sets
it -/
def utilTimeParseRfc3339 (zone : TimeZone) (isdst : Int) (ts : Option Timespec)
    (s : Option (List UInt8)) : Exec (Int × Option Timespec) :=
  match ts, s with
  | some ts, some s =>
    if s.length ≠ 35 then .ok (1, some ts)
    else
      match strptime s with
      | none => .ok (2, some ts)
      | some (tm, r) =>
        if r.head? ≠ some 46 then .ok (2, some ts)
        else do
          .ok (0, some { tvSec := mktime zone tm isdst, tvNsec := ← atoll r.tail })
  | ts, _ => .ok (1, ts)

/-! ## what they promise -/

/-- the years of four digits, and nanoseconds -/
abbrev Rfc3339Time : Type := { ts : Timespec //
  (1000 ≤ (utcFields ts.tvSec).tmYear + 1900 ∧ (utcFields ts.tvSec).tmYear + 1900 ≤ 9999) ∧
    0 ≤ ts.tvNsec ∧ ts.tvNsec ≤ 999999999 }

/-- 35 characters are written, of which the same time is read -/
def TimeComesBack (zone : TimeZone) (isdst : Int) (ts : Timespec) : Prop :=
  ∃ text, utilTimeFormatRfc3339 ts = .ok (some text) ∧ text.length = 35 ∧
    ∀ before, utilTimeParseRfc3339 zone isdst (some before) (some text) = .ok (0, some ts)

section
variable {lo hi k n : Nat} {c : UInt8} {rest : List UInt8} {tm : Tm}

/-! ## the calendar -/

/-- **the fields of a time** give the time again -/
theorem utcSeconds_utcFields (time : Int) : utcSeconds (utcFields time) = time := by
  have hday := daysFromCivil_civilFromDays (time / 86400)
  unfold utcSeconds utcFields
  dsimp only
  rw [sub_add_cancel, hday]
  omega

/-- the fields are those that a text can have -/
theorem utcFields_bounds (time : Int) : (utcFields time).tmSec < 60 ∧ (utcFields time).tmMin < 60 ∧
    (utcFields time).tmHour < 24 ∧ (0 < (utcFields time).tmMday ∧ (utcFields time).tmMday ≤ 31) ∧
    (utcFields time).tmMon < 12 := by
  refine ⟨Nat.mod_lt _ (by norm_num), Nat.mod_lt _ (by norm_num), ?_, ⟨civilFromDays_day_pos _,
    civilFromDays_day_le _⟩, civilFromDays_month_lt _⟩
  unfold utcFields
  dsimp only
  omega

/-! ## numbers of a date -/

theorem takeNumber_fixedDigits {val : Nat} (h : val * 10 ^ k + n % 10 ^ k ≤ hi) :
    takeNumber hi k val (fixedDigits k n ++ rest) = (val * 10 ^ k + n % 10 ^ k, rest) := by
  induction k generalizing val with
  | zero =>
    rw [pow_zero, Nat.mod_one, Nat.mul_one, Nat.add_zero]
    cases rest <;> rfl
  | succ k ih =>
    have hdigit : n / 10 ^ k % 10 < 10 := Nat.mod_lt _ (by norm_num)
    have hmod : n % 10 ^ (k + 1) = 10 ^ k * (n / 10 ^ k % 10) + n % 10 ^ k := by
      rw [pow_succ, Nat.mod_mul, Nat.add_comm]
    have hnext : val * 10 ^ (k + 1) + n % 10 ^ (k + 1) =
        (val * 10 + n / 10 ^ k % 10) * 10 ^ k + n % 10 ^ k := by
      rw [hmod]
      ring
    have hval : val * 10 ≤ hi := by
      refine le_trans (Nat.le_mul_of_pos_right _ (Nat.pow_pos (by norm_num : 0 < 10)) : _ ≤ val * 10 * 10 ^ k) ?_
      rw [Nat.mul_assoc, ← pow_succ']
      omega
    rw [fixedDigits, List.cons_append, takeNumber, digitIn_digitByte (by norm_num) hdigit]
    dsimp only
    rw [if_pos hval, ih (by rw [← hnext]; exact h), hnext]

/-- **a number is read** that is written with all its digits -/
theorem getNumber_fixedDigits (hn : n < 10 ^ (k + 1)) (hlo : lo ≤ n) (hhi : n ≤ hi) :
    getNumber lo hi (k + 1) (fixedDigits (k + 1) n ++ rest) = some (n, rest) := by
  have hdigit : n / 10 ^ k % 10 < 10 := Nat.mod_lt _ (by norm_num)
  have hin := @digitIn_digitByte 10 _ (by norm_num) hdigit
  have hspace : (fixedDigits (k + 1) n ++ rest).dropWhile (· = 32) = fixedDigits (k + 1) n ++ rest := by
    have h48 := lt_of_digitIn hin
    rw [fixedDigits, List.cons_append]
    refine List.dropWhile_cons_of_neg ?_
    intro h
    rw [of_decide_eq_true h] at h48
    exact absurd h48 (by decide)
  have hread := @takeNumber_fixedDigits hi (k + 1) n rest 0 (by rw [Nat.mod_eq_of_lt hn]; omega)
  rw [Nat.zero_mul, Nat.zero_add, Nat.mod_eq_of_lt hn] at hread
  unfold getNumber
  simp only [hspace, hread]
  rw [if_neg, if_pos ⟨hlo, hhi⟩]
  rw [fixedDigits, List.cons_append, List.head?_cons, Option.bind_some, hin]
  exact Bool.false_ne_true

theorem getNumber_twoDigits (hn : n < 100) (hlo : lo ≤ n) (hhi : n ≤ hi) :
    getNumber lo hi 2 (zeroPadded 2 n ++ rest) = some (n, rest) := by
  rw [zeroPadded_eq (k := 1) hn, getNumber_fixedDigits hn hlo hhi]

theorem decimal_eq {year : Int} (hlo : 1000 ≤ year) (hhi : year ≤ 9999) :
    decimal year = fixedDigits 4 year.toNat := by
  have hlt : year.toNat < 10 ^ (3 + 1) := by omega
  have hlong : ¬ (numeral 10 year.toNat).length ≤ 3 := by
    rw [length_numeral_le_iff (by norm_num) (by norm_num)]
    omega
  rw [decimal, if_neg (by omega), ← zeroPadded_eq hlt, zeroPadded, Nat.sub_eq_zero_of_le (by omega)]
  rfl

theorem matchChar_self (c : UInt8) (text : List UInt8) : matchChar c (c :: text) = some text :=
  if_pos rfl

/-- **a date is read** -/
theorem strptime_dateText (time : Int) (hlo : 1000 ≤ (utcFields time).tmYear + 1900)
    (hhi : (utcFields time).tmYear + 1900 ≤ 9999) :
    strptime (dateText (utcFields time) ++ rest) = some (utcFields time, rest) := by
  obtain ⟨hsec, hmin, hhour, hmday, hmon⟩ := utcFields_bounds time
  have hyear : ((utcFields time).tmYear + 1900).toNat < 10 ^ (3 + 1) := by omega
  unfold strptime
  rw [dateText, decimal_eq hlo hhi]
  simp only [List.append_assoc, List.cons_append]
  rw [getNumber_fixedDigits hyear (Nat.zero_le _) (by omega)]
  simp only [Option.bind_eq_bind, Option.bind_some, matchChar_self]
  rw [getNumber_twoDigits (by omega) (by omega) (by omega)]
  simp only [Option.bind_some, matchChar_self]
  rw [getNumber_twoDigits (by omega) (by omega) (by omega)]
  simp only [Option.bind_some, matchChar_self]
  rw [getNumber_twoDigits (by omega) (by omega) (by omega)]
  simp only [Option.bind_some, matchChar_self]
  rw [getNumber_twoDigits (by omega) (by omega) (by omega)]
  simp only [Option.bind_some, matchChar_self]
  rw [getNumber_twoDigits (by omega) (by omega) (by omega)]
  have hback : (((utcFields time).tmYear + 1900).toNat : Int) - 1900 = (utcFields time).tmYear := by
    omega
  simp only [Option.bind_some, Nat.add_sub_cancel, hback]

/-! ## the text of a time -/

theorem not_mem_fixedDigits (k n : Nat) : 37 ∉ fixedDigits k n := by
  induction k with
  | zero => exact List.not_mem_nil
  | succ k ih =>
    rw [fixedDigits, List.mem_cons, not_or]
    have hdigits : ∀ d < 10, (37 : UInt8) ≠ digitByte d := by decide
    exact ⟨hdigits _ (Nat.mod_lt _ (by norm_num)), ih⟩

/-- the date has 19 characters, and no conversion in it -/
theorem dateText_length (time : Int) (hlo : 1000 ≤ (utcFields time).tmYear + 1900)
    (hhi : (utcFields time).tmYear + 1900 ≤ 9999) :
    (dateText (utcFields time)).length = 19 ∧ 37 ∉ dateText (utcFields time) := by
  obtain ⟨hsec, hmin, hhour, hmday, hmon⟩ := utcFields_bounds time
  have htwo (n : Nat) (hn : n < 100) : zeroPadded 2 n = fixedDigits 2 n := zeroPadded_eq (k := 1) hn
  rw [dateText, decimal_eq hlo hhi, htwo _ (by omega), htwo _ (by omega), htwo _ (by omega),
    htwo _ (by omega), htwo _ (by omega)]
  constructor
  · simp only [List.length_append, List.length_cons, length_fixedDigits]
  · simp only [List.mem_append, List.mem_cons, not_mem_fixedDigits, or_false, false_or]
    decide

theorem sprintfNineDigits_append {text format : List UInt8} (z : Int) (h : 37 ∉ text) :
    sprintfNineDigits z (text ++ format) = text ++ sprintfNineDigits z format := by
  induction text with
  | nil => rfl
  | cons c text ih =>
    obtain ⟨hc, htext⟩ := not_or.1 (fun hor => h (List.mem_cons.2 hor))
    rw [List.cons_append, sprintfNineDigits, ih htext, List.cons_append]
    exact fun _ h37 => absurd h37.symm hc

/-- the nanoseconds behind the date, and what is said of the zone -/
def nanosecondsText (nsec : Nat) : List UInt8 :=
  fixedDigits 9 nsec ++ [90, 48, 48, 58, 48, 48]

/-- **what is written** -/
theorem utilTimeFormatRfc3339_eq (ts : Rfc3339Time) : utilTimeFormatRfc3339 ts.1 =
    .ok (some (dateText (utcFields ts.1.tvSec) ++ (46 :: nanosecondsText ts.1.tvNsec.toNat))) := by
  obtain ⟨ts, ⟨hlo, hhi⟩, hnonneg, hnano⟩ := ts
  dsimp only
  obtain ⟨hlen, hplain⟩ := dateText_length ts.tvSec hlo hhi
  have hgmtime : gmtime ts.tvSec = some (utcFields ts.tvSec) := if_pos (by omega)
  have hbuf : strftime 31 (utcFields ts.tvSec) =
      (30, dateText (utcFields ts.tvSec) ++ nanosecondsFormat) := by
    have hthirty : (dateText (utcFields ts.tvSec) ++ nanosecondsFormat).length = 30 := by
      rw [List.length_append, hlen]
      rfl
    rw [strftime, if_pos (by omega), hthirty]
  have hnine : nineDigits (toInt32 ts.tvNsec) = fixedDigits 9 ts.tvNsec.toNat := by
    rw [toInt32_of_lt (by omega) (by omega), nineDigits, if_neg (by omega)]
    exact zeroPadded_eq (by omega)
  have hret : sprintfNineDigits (toInt32 ts.tvNsec)
      (dateText (utcFields ts.tvSec) ++ nanosecondsFormat) =
        dateText (utcFields ts.tvSec) ++ (46 :: nanosecondsText ts.tvNsec.toNat) := by
    rw [sprintfNineDigits_append _ hplain, nanosecondsText, ← hnine]
    rfl
  have hlast : (dateText (utcFields ts.tvSec) ++ (46 :: nanosecondsText ts.tvNsec.toNat)).length =
      35 := by
    rw [List.length_append, hlen, List.length_cons, nanosecondsText, List.length_append,
      length_fixedDigits]
    rfl
  rw [utilTimeFormatRfc3339, hgmtime, deref_some, ok_bind, hbuf]
  dsimp only
  rw [if_neg (by decide), hret, if_neg (by omega)]

theorem length_of_format {ts : Rfc3339Time} {text : List UInt8}
    (h : utilTimeFormatRfc3339 ts.1 = .ok (some text)) : text.length = 35 := by
  rw [utilTimeFormatRfc3339, bind_eq_ok] at h
  obtain ⟨tm, -, h⟩ := h
  dsimp only at h
  split at h
  · cases h
  · split at h
    · cases h
    · rename_i hlen
      cases h
      exact not_not.1 hlen

theorem atoll_nanosecondsText {nsec : Nat} (h : nsec < 10 ^ 9) :
    atoll (nanosecondsText nsec) = .ok nsec := by
  rw [atoll, nanosecondsText, List.append_assoc, List.cons_append,
    strtol_fixedDigits (by norm_num) h (by decide), ok_bind, toLong_natCast_of_lt (by omega)]

/-- **what is read**: the same nanoseconds, and the time of the zone at which its clock shows what
that of UTC shows -/
theorem utilTimeParseRfc3339_eq (zone : TimeZone) (isdst : Int) (ts : Rfc3339Time) {text : List UInt8}
    (before : Timespec) (h : utilTimeFormatRfc3339 ts.1 = .ok (some text)) :
    utilTimeParseRfc3339 zone isdst (some before) (some text) =
      .ok (0, some { tvSec := ts.1.tvSec - zone (utcFields ts.1.tvSec) isdst
                     tvNsec := ts.1.tvNsec }) := by
  have hlen := length_of_format h
  rw [utilTimeFormatRfc3339_eq] at h
  have htext := Option.some.inj (Except.ok.inj h)
  obtain ⟨ts, ⟨hlo, hhi⟩, hnonneg, hnano⟩ := ts
  dsimp only at htext ⊢
  have hread : strptime text =
      some (utcFields ts.tvSec, 46 :: nanosecondsText ts.tvNsec.toNat) := by
    rw [← htext]
    exact strptime_dateText ts.tvSec hlo hhi
  rw [utilTimeParseRfc3339, if_neg (by omega), hread]
  dsimp only
  rw [List.head?_cons, if_neg (fun h => h rfl), List.tail_cons, atoll_nanosecondsText (by omega), ok_bind, mktime, utcSeconds_utcFields,
    Int.toNat_of_nonneg hnonneg]

/-- **a time comes back** in a zone whose clock shows the fields of the time when that of UTC does -/
theorem timeComesBack_iff (zone : TimeZone) (isdst : Int) (ts : Rfc3339Time) :
    TimeComesBack zone isdst ts.1 ↔ zone (utcFields ts.1.tvSec) isdst = 0 := by
  constructor
  · rintro ⟨text, hformat, -, hparse⟩
    have hread := utilTimeParseRfc3339_eq zone isdst ts ts.1 hformat
    rw [hparse ts.1] at hread
    have hsec : ts.1.tvSec = ts.1.tvSec - zone (utcFields ts.1.tvSec) isdst :=
      congrArg Timespec.tvSec (Option.some.inj (Prod.mk.inj (Except.ok.inj hread)).2)
    omega
  · intro hzone
    have hformat := utilTimeFormatRfc3339_eq ts
    refine ⟨_, hformat, length_of_format hformat, fun before => ?_⟩
    rw [utilTimeParseRfc3339_eq zone isdst ts before hformat, hzone, sub_zero]

/-- the first second of 1970, in a zone five hours behind -/
theorem not_timeComesBack :
    ¬ ∀ (zone : TimeZone) (isdst : Int) (ts : Rfc3339Time), TimeComesBack zone isdst ts.1 := by
  intro h
  have hback := h (fun _ _ => -18000) 0 ⟨{ tvSec := 0, tvNsec := 0 }, by decide⟩
  rw [timeComesBack_iff] at hback
  exact absurd hback (by decide)

/-- a leap day -/
example : utilTimeFormatRfc3339 { tvSec := 951782400, tvNsec := 5000000 } =
    .ok (some (asciiBytes "2000-02-29T00:00:00.005000000Z00:00")) := by decide +kernel

end

end Ipfs
