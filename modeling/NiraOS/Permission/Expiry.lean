import NiraOS.Permission.Policy
import NiraOS.Lib.Decimal
import NiraOS.Lib.Calendar
import Mathlib.Algebra.Order.Field.Rat
import Mathlib.Order.Interval.Set.Defs
import Mathlib.Tactic.Linarith
import Mathlib.Tactic.NormNum
import Mathlib.Tactic.Ring

/-!
# When a grant expires

The query compares `expires_at` with `CURRENT_TIMESTAMP` as texts (`policy/mod.rs`, lines 48-57).
`Expiry` is what the date functions of SQLite read, and `Expiry.instant` what they read it as.

Compared as texts, a grant stays unexpired up to its `turn`, whatever it denotes:

```text
2026-01-01                   the start of that day
2026-01-01 10:30             that minute
2026-01-01 10:30+02:00       that minute, whatever the zone
2026-01-01 10:30Z            the next minute
2026-01-01 10:30:15          that second
2026-01-01 10:30:15.5, …Z    the next second
2026-01-01T10:30, … 24:00    the next day
2026-02-30 10:30             the first day of March
10:30                        the year 1100, as the text of a year
```

The instant that it denotes and its turn are one for the plain forms only, and a grant is treated
wrongly at the times between the two (`honoured_iff`).
-/

namespace NiraOS.Permission

open Decimal Calendar

/-! ## Texts of times -/

structure Date where
  year : ℕ
  month : ℕ
  day : ℕ
  year_le : year ≤ 9999
  month_mem : 1 ≤ month ∧ month ≤ 12
  /-- Nothing asks whether the month has that day. -/
  day_mem : 1 ≤ day ∧ day ≤ 31

structure Offset where
  ahead : Bool
  hours : ℕ
  minutes : ℕ
  hours_le : hours ≤ 14
  minutes_le : minutes ≤ 59

inductive Zone
  | utc
  | offset (offset : Offset)

structure Seconds where
  second : ℕ
  /-- The digits after the point, if there is one. -/
  fraction : List (Fin 10)
  second_le : second ≤ 59

structure Clock where
  hour : ℕ
  minute : ℕ
  seconds : Option Seconds
  zone : Option Zone
  hour_le : hour ≤ 24
  minute_le : minute ≤ 59

inductive Expiry
  | date (date : Date)
  /-- With `T` or a space between the two. -/
  | dateTime (date : Date) (letter : Bool) (clock : Clock)
  /-- Of the first day of 2000. -/
  | time (clock : Clock)

/-- A date, and what follows it. -/
def Date.text (d : Date) (rest : List Char) : List Char :=
  digits 4 d.year ++ '-' :: (digits 2 d.month ++ '-' :: (digits 2 d.day ++ rest))

def Zone.text : Zone → List Char
  | .utc => ['Z']
  | .offset o => (if o.ahead then '+' else '-') :: (digits 2 o.hours ++ ':' :: digits 2 o.minutes)

def Seconds.fractionText (s : Seconds) : List Char :=
  if s.fraction = [] then [] else '.' :: s.fraction.map fun d => Nat.digitChar d

def Clock.zoneText (c : Clock) : List Char := (c.zone.map Zone.text).getD []

def Clock.secondsText (c : Clock) : List Char :=
  match c.seconds with
  | none => c.zoneText
  | some s => ':' :: (digits 2 s.second ++ (s.fractionText ++ c.zoneText))

def Clock.text (c : Clock) : List Char :=
  digits 2 c.hour ++ ':' :: (digits 2 c.minute ++ c.secondsText)

def Expiry.chars : Expiry → List Char
  | .date d => d.text []
  | .dateTime d letter c => d.text ((if letter then 'T' else ' ') :: c.text)
  | .time c => c.text

def Expiry.text (e : Expiry) : String := String.ofList e.chars

/-! ## What the texts denote -/

def secondsPerDay : ℕ := 86400

/-- The seconds before a date. -/
def Date.start (d : Date) : ℕ := secondsPerDay * dayNumber d.year d.month d.day

def Offset.seconds (o : Offset) : ℚ :=
  if o.ahead then o.hours * 3600 + o.minutes * 60 else -(o.hours * 3600 + o.minutes * 60)

def Zone.seconds : Zone → ℚ
  | .utc => 0
  | .offset o => o.seconds

def fractionValue : List (Fin 10) → ℚ
  | [] => 0
  | d :: rest => (d.val + fractionValue rest) / 10

def Seconds.value (s : Seconds) : ℚ := s.second + fractionValue s.fraction

def Clock.value (c : Clock) : ℚ :=
  c.hour * 3600 + c.minute * 60 +
    (c.seconds.map Seconds.value).getD 0 - (c.zone.map Zone.seconds).getD 0

/-- The instant that a text denotes, in seconds. -/
def Expiry.instant : Expiry → ℚ
  | .date d => d.start
  | .dateTime d _ c => d.start + c.value
  | .time c => (secondsPerDay * dayNumber 2000 1 1 : ℕ) + c.value

/-! ## The current time -/

structure Moment where
  date : Date
  hour : ℕ
  minute : ℕ
  second : ℕ
  /-- The part of a second that has passed. -/
  fraction : ℚ
  day_le : date.day ≤ daysInMonth date.year date.month
  hour_le : hour ≤ 23
  minute_le : minute ≤ 59
  second_le : second ≤ 59
  fraction_nonneg : 0 ≤ fraction
  fraction_lt : fraction < 1

def Moment.secondOfDay (now : Moment) : ℕ := now.hour * 3600 + now.minute * 60 + now.second

def Moment.seconds (now : Moment) : ℕ := now.date.start + now.secondOfDay

def Moment.instant (now : Moment) : ℚ := now.seconds + now.fraction

def Moment.clockText (now : Moment) : List Char :=
  digits 2 now.hour ++ ':' :: (digits 2 now.minute ++ ':' :: digits 2 now.second)

/-- `CURRENT_TIMESTAMP`. -/
def Moment.currentTimestamp (now : Moment) : String :=
  String.ofList (now.date.text (' ' :: now.clockText))

/-! ## The turn -/

/-- The first day that is not before a date. -/
def Date.turnDay (d : Date) : ℕ :=
  daysBeforeYear d.year + daysBeforeMonth d.year d.month +
    min (d.day - 1) (daysInMonth d.year d.month)

def Clock.turnSecond (c : Clock) : ℕ :=
  match c.seconds, c.zone with
  | none, some .utc => 60
  | none, _ => 0
  | some s, none => if s.fraction = [] then s.second else s.second + 1
  | some s, some _ => s.second + 1

def Clock.turn (c : Clock) : ℕ := c.hour * 3600 + c.minute * 60 + c.turnSecond

def Expiry.turn : Expiry → ℕ
  | .date d => secondsPerDay * d.turnDay
  | .dateTime d letter c =>
      secondsPerDay * d.turnDay +
        if daysInMonth d.year d.month < d.day then 0
        else if letter then secondsPerDay
        else min c.turn secondsPerDay
  | .time c => secondsPerDay * daysBeforeYear (100 * (c.hour + 1))

/-! ## Texts in order -/

section Order

variable (now : Moment)

theorem Moment.secondOfDay_lt : now.secondOfDay < secondsPerDay := by
  have hhour := now.hour_le
  have hminute := now.minute_le
  have hsecond := now.second_le
  unfold Moment.secondOfDay secondsPerDay
  omega

theorem cons_lt_cons_self_iff (c : Char) (x y : List Char) : c :: x < c :: y ↔ x < y := by
  rw [List.cons_lt_cons_iff]
  exact ⟨fun h => h.resolve_left (Char.lt_irrefl c) |>.2, fun h => .inr ⟨rfl, h⟩⟩

theorem ofList_lt_iff (x y : List Char) : String.ofList x < String.ofList y ↔ x < y := by
  change (String.ofList x).toList < (String.ofList y).toList ↔ x < y
  rw [String.toList_ofList, String.toList_ofList]

theorem nil_lt_iff {x : List Char} : [] < x ↔ x ≠ [] := by
  cases x with
  | nil => simp
  | cons c x => simp

/-- Less than a minute or an hour is two digits. -/
theorem two_digits_lt_iff {m n : ℕ} (hm : m < 100) (hn : n < 100) (x y : List Char) :
    digits 2 m ++ x < digits 2 n ++ y ↔ m < n ∨ m = n ∧ x < y :=
  digits_append_lt_iff hm hn x y

/-- What follows the minutes: a zone, seconds, or nothing. -/
theorem secondsText_lt_iff (c : Clock) :
    ':' :: digits 2 now.second < c.secondsText ↔ now.second < c.turnSecond := by
  have hnow := now.second_le
  unfold Clock.secondsText Clock.turnSecond Clock.zoneText
  cases c.seconds with
  | none =>
      cases c.zone with
      | none => simp
      | some z =>
          cases z with
          | utc =>
              have hchar : ':' < 'Z' := by decide
              have hlt : now.second < 60 := by omega
              simp [Zone.text, List.cons_lt_cons_iff, hchar, hlt]
          | offset o =>
              have hplus : ¬ ':' < '+' := by decide
              have hminus : ¬ ':' < '-' := by decide
              cases hahead : o.ahead <;>
                simp [Zone.text, List.cons_lt_cons_iff, hahead, hplus, hminus]
  | some s =>
      have hs := s.second_le
      rw [cons_lt_cons_self_iff, ← List.append_nil (digits 2 now.second),
        two_digits_lt_iff (by omega) (by omega), nil_lt_iff]
      unfold Seconds.fractionText
      cases c.zone with
      | none => by_cases hfraction : s.fraction = [] <;> simp [hfraction]; omega
      | some z => cases z <;> simp [Zone.text] <;> omega

theorem clockText_lt_iff (c : Clock) : now.clockText < c.text ↔ now.secondOfDay < c.turn := by
  have hhour := now.hour_le
  have hminute := now.minute_le
  have hsecond := now.second_le
  have hhour' := c.hour_le
  have hminute' := c.minute_le
  have hturn : c.turnSecond ≤ 60 := by
    unfold Clock.turnSecond
    cases hseconds : c.seconds with
    | none => cases c.zone with
      | none => simp
      | some z => cases z <;> simp
    | some s =>
        have hs := s.second_le
        cases c.zone with
        | none => dsimp only; split_ifs <;> omega
        | some z => exact Nat.succ_le_succ hs
  unfold Moment.clockText Clock.text
  rw [two_digits_lt_iff (by omega) (by omega), cons_lt_cons_self_iff,
    two_digits_lt_iff (by omega) (by omega), secondsText_lt_iff]
  unfold Moment.secondOfDay Clock.turn
  omega

theorem dateText_lt_iff (d d' : Date) (x y : List Char) :
    d.text x < d'.text y ↔ d.year < d'.year ∨ d.year = d'.year ∧ (d.month < d'.month ∨
      d.month = d'.month ∧ (d.day < d'.day ∨ d.day = d'.day ∧ x < y)) := by
  have hyear := d.year_le
  have hmonth := d.month_mem
  have hday := d.day_mem
  have hyear' := d'.year_le
  have hmonth' := d'.month_mem
  have hday' := d'.day_mem
  unfold Date.text
  rw [digits_append_lt_iff (by omega) (by omega), cons_lt_cons_self_iff,
    two_digits_lt_iff (by omega) (by omega), cons_lt_cons_self_iff,
    two_digits_lt_iff (by omega) (by omega)]

/-- **Dates** are compared by their days, a day that its month does not have by the next month. -/
theorem date_lt_iff {d' : Date} {x y : List Char} :
    now.date.text x < d'.text y ↔
      dayNumber now.date.year now.date.month now.date.day < d'.turnDay ∨
        dayNumber now.date.year now.date.month now.date.day = d'.turnDay ∧
          d'.day ≤ daysInMonth d'.year d'.month ∧ x < y := by
  have hmonth := now.date.month_mem
  have hday := now.date.day_mem
  have hreal := now.day_le
  have hmonth' := d'.month_mem
  have hday' := d'.day_mem
  rw [dateText_lt_iff]
  unfold dayNumber Date.turnDay
  rcases Nat.lt_trichotomy now.date.year d'.year with hlt | heq | hgt
  · have hend := endOfMonth_le d'.month hmonth (.inl hlt)
    omega
  · rcases Nat.lt_trichotomy now.date.month d'.month with hlt | heq' | hgt
    · have hend := endOfMonth_le _ hmonth (.inr ⟨heq, hlt⟩)
      omega
    · rw [heq, heq'] at hreal ⊢
      by_cases hxy : x < y <;> simp only [hxy, true_and, and_true, and_false, or_false] <;> omega
    · have hend := endOfMonth_le _ hmonth' (.inr ⟨heq.symm, hgt⟩)
      omega
  · have hend := endOfMonth_le now.date.month hmonth' (.inl hgt)
    omega

/-- The days before a century that a time of day is read as. -/
theorem year_lt_iff {year : ℕ} :
    now.date.year < year ↔
      dayNumber now.date.year now.date.month now.date.day < daysBeforeYear year := by
  have hmonth := now.date.month_mem
  have hday := now.date.day_mem
  have hreal := now.day_le
  unfold dayNumber
  constructor
  · intro hlt
    have hend := endOfMonth_le 0 hmonth (.inl hlt)
    rw [daysBeforeMonth] at hend
    omega
  · intro hlt
    by_contra hle
    have hmono := daysBeforeYear_mono (Nat.le_of_not_lt hle)
    omega

theorem time_lt_iff (c : Clock) (x : List Char) :
    now.date.text x < c.text ↔ now.date.year < 100 * (c.hour + 1) := by
  have hyear := now.date.year_le
  have hhour := c.hour_le
  have hdigit : ∀ n < 10, Nat.digitChar n < ':' := by decide
  have hbelow : ∀ y z : List Char, digits 2 (now.date.year % 100) ++ y < ':' :: z := fun y z => by
    rw [digits, List.cons_append, List.cons_lt_cons_iff]
    exact .inl (hdigit _ (by omega))
  unfold Date.text Clock.text
  rw [digits_four, List.append_assoc, two_digits_lt_iff (by omega) (by omega)]
  simp only [hbelow, and_true]
  omega

/-- **The query** lets a grant pass up to its turn. -/
theorem currentTimestamp_lt_iff (e : Expiry) :
    now.currentTimestamp < e.text ↔ now.seconds < e.turn := by
  have hday := now.secondOfDay_lt
  rw [Moment.currentTimestamp, Expiry.text, ofList_lt_iff]
  unfold Moment.seconds Date.start
  cases e with
  | date d =>
      have hnil : ¬ ' ' :: now.clockText < [] := by simp
      rw [Expiry.chars, date_lt_iff]
      simp only [hnil, Expiry.turn, secondsPerDay, and_false, or_false] at hday ⊢
      omega
  | dateTime d letter c =>
      have hrest : ' ' :: now.clockText < (if letter then 'T' else ' ') :: c.text ↔
          now.secondOfDay < if letter then secondsPerDay else min c.turn secondsPerDay := by
        cases letter with
        | true =>
            have hletter : ' ' < 'T' := by decide
            simp [List.cons_lt_cons_iff, hletter, hday]
        | false =>
            simp only [Bool.false_eq_true, if_false]
            rw [cons_lt_cons_self_iff, clockText_lt_iff]
            omega
      have hlimit : (if letter then secondsPerDay else min c.turn secondsPerDay) ≤
          secondsPerDay := by
        split_ifs
        · exact Nat.le_refl _
        · exact Nat.min_le_right ..
      rw [Expiry.chars, date_lt_iff, hrest, Expiry.turn]
      generalize (if letter then secondsPerDay else min c.turn secondsPerDay) = turn at hlimit
      unfold secondsPerDay at hday hlimit ⊢
      split_ifs <;> omega
  | time c =>
      rw [Expiry.chars, time_lt_iff, year_lt_iff, Expiry.turn]
      unfold secondsPerDay at *
      omega

/-! ## Expiry as an instant -/

theorem Moment.instant_lt_iff (bound : ℕ) : now.instant < bound ↔ now.seconds < bound := by
  have hnonneg := now.fraction_nonneg
  have hlt := now.fraction_lt
  unfold Moment.instant
  constructor
  · intro h
    have hseconds : (now.seconds : ℚ) < bound := by linarith
    exact_mod_cast hseconds
  · intro h
    have hseconds : (now.seconds : ℚ) + 1 ≤ bound := by exact_mod_cast h
    linarith

end Order

/-- A grant with this `expires_at` is unexpired as long as the instant lies ahead, and for ever if
it has none. -/
def Honoured (g : Grant) (expiry : Option Expiry) (now : Moment) : Prop :=
  let unexpired := { g with expiresAt := expiry.map Expiry.text }.unexpired now.currentTimestamp
  match expiry with
  | none => unexpired = true
  | some e => unexpired = true ↔ now.instant < e.instant

theorem unexpired_iff (g : Grant) (e : Expiry) (now : Moment) :
    { g with expiresAt := some e.text }.unexpired now.currentTimestamp = true ↔
      now.instant < e.turn := by
  rw [now.instant_lt_iff, ← currentTimestamp_lt_iff]
  exact decide_eq_true_iff

/-- **Expiry** is honoured except between the instant that a text denotes and its turn. -/
theorem honoured_iff (g : Grant) (expiry : Option Expiry) (now : Moment) :
    Honoured g expiry now ↔
      ∀ e, expiry = some e →
        now.instant ∉ Set.Ico (min (e.turn : ℚ) e.instant) (max (e.turn : ℚ) e.instant) := by
  cases expiry with
  | none => exact ⟨fun _ _ => nofun, fun _ => rfl⟩
  | some e =>
      unfold Honoured
      dsimp only [Option.map_some]
      rw [unexpired_iff]
      constructor
      · rintro h e' ⟨⟩ ⟨hmin, hmax⟩
        rcases min_le_iff.mp hmin with hturn | hinstant
        · have hinstant := (lt_max_iff.mp hmax).resolve_left (not_lt_of_ge hturn)
          exact absurd (h.mpr hinstant) (not_lt_of_ge hturn)
        · have hturn := (lt_max_iff.mp hmax).resolve_right (not_lt_of_ge hinstant)
          exact absurd (h.mp hturn) (not_lt_of_ge hinstant)
      · intro h
        have hnot := h e rfl
        constructor
        · intro hturn
          by_contra hinstant
          exact hnot ⟨min_le_iff.mpr (.inr (not_lt.mp hinstant)), lt_max_iff.mpr (.inl hturn)⟩
        · intro hinstant
          by_contra hturn
          exact hnot ⟨min_le_iff.mpr (.inl (not_lt.mp hturn)), lt_max_iff.mpr (.inr hinstant)⟩

/-! ## A grant that outlives its expiry -/

def newYear : Date where
  year := 2026
  month := 1
  day := 1
  year_le := by decide
  month_mem := by decide
  day_mem := by decide

/-- `2026-01-01T00:00:00Z`. -/
def atNewYear : Expiry :=
  .dateTime newYear true
    { hour := 0, minute := 0, seconds := some ⟨0, [], by decide⟩, zone := some .utc,
      hour_le := by decide, minute_le := by decide }

/-- `2026-01-01 12:00:00`. -/
def noon : Moment where
  date := newYear
  hour := 12
  minute := 0
  second := 0
  fraction := 0
  day_le := by decide
  hour_le := by decide
  minute_le := by decide
  second_le := by decide
  fraction_nonneg := le_refl 0
  fraction_lt := one_pos

theorem text_atNewYear : atNewYear.text = "2026-01-01T00:00:00Z" := by decide +kernel

theorem not_honoured_atNewYear :
    ¬ Honoured ⟨"filesystem.move", "/home/nira/report.txt", "allowed",
      none⟩ (some atNewYear) noon := by
  have hbefore : (noon.currentTimestamp < atNewYear.text) := by
    rw [text_atNewYear]
    decide +kernel
  intro h
  have hlt := h.mp (decide_eq_true hbefore)
  have hinstant : atNewYear.instant = newYear.start := by
    unfold atNewYear Expiry.instant
    simp only [Clock.value, Seconds.value, fractionValue, Zone.seconds, Option.map_some,
      Option.getD_some]
    push_cast
    ring
  have hnoon : noon.instant = newYear.start + 43200 := by
    unfold Moment.instant Moment.seconds Moment.secondOfDay noon
    push_cast
    ring
  rw [hinstant, hnoon] at hlt
  linarith

end NiraOS.Permission
