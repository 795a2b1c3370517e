import Mathlib

/-!
# The clock and the calendar

`read_datetime` reads the registers of the clock until two readings agree and
decodes them (`hal/rtc.rs`), and the command `cal` lays out the month of the
date (`shell/commands/misc.rs`).  A reading is taken while no update is in
progress.  Bytes are numbers: no sum or product of bytes here reaches 256.
-/

namespace CantayaOS.Shell

/-! ## The clock -/

structure DateTime where
  (year month day hour minute second : Nat)
deriving DecidableEq

structure RtcRegisters where
  (second minute hour day month year century : Nat)
deriving DecidableEq

def bcdToBinary (bcd : Nat) : Nat := (bcd &&& 0x0F) + (bcd >>> 4) * 10

def decodeByte (isBinary : Bool) (value : Nat) : Nat := if isBinary then value else bcdToBinary value

/-- In BCD the mask takes the PM bit off before it is tested. -/
def decodeHour (isBinary is24h : Bool) (hour : Nat) : Nat :=
  let hour := if isBinary then hour else bcdToBinary (hour &&& 0x7F)
  if !is24h && decide (hour &&& 0x80 ≠ 0) then ((hour &&& 0x7F) + 12) % 24 else hour

/-- The conversions of `read_datetime`, for the format that status register B tells. -/
def RtcRegisters.decode (statusB : Nat) (regs : RtcRegisters) : DateTime :=
  let isBinary := decide (statusB &&& 0x04 ≠ 0)
  let is24h := decide (statusB &&& 0x02 ≠ 0)
  let century := decodeByte isBinary regs.century
  let year := decodeByte isBinary regs.year
  { year := if 0 < century then century * 100 + year else 2000 + year
    month := decodeByte isBinary regs.month
    day := decodeByte isBinary regs.day
    hour := decodeHour isBinary is24h regs.hour
    minute := decodeByte isBinary regs.minute
    second := decodeByte isBinary regs.second }

/-- Read until two readings agree; `readings` are those that the loop gets one after another. -/
def readStable (readings : Nat → RtcRegisters) : Nat → Nat → Option RtcRegisters
  | 0, _ => none
  | fuel + 1, n =>
    if readings n = readings (n + 1) then some (readings n) else readStable readings fuel (n + 1)

def readDatetime (fuel : Nat) (readings : Nat → RtcRegisters) (statusB : Nat) : Option DateTime :=
  (readStable readings fuel 0).map (RtcRegisters.decode statusB)

def encodeByte (isBinary : Bool) (value : Nat) : Nat :=
  if isBinary then value else value / 10 * 16 + value % 10

/-- In the 12-hour formats the hours count from 12 to 11 and a bit marks PM. -/
def encodeHour (isBinary is24h : Bool) (hour : Nat) : Nat :=
  if is24h then encodeByte isBinary hour
  else encodeByte isBinary (if hour % 12 = 0 then 12 else hour % 12) + if 12 ≤ hour then 0x80 else 0

/-- What the clock holds. -/
def DateTime.encode (isBinary is24h : Bool) (date : DateTime) : RtcRegisters where
  second := encodeByte isBinary date.second
  minute := encodeByte isBinary date.minute
  hour := encodeHour isBinary is24h date.hour
  day := encodeByte isBinary date.day
  month := encodeByte isBinary date.month
  year := encodeByte isBinary (date.year % 100)
  century := encodeByte isBinary (date.year / 100)

def formatOf (isBinary is24h : Bool) : Nat :=
  (if isBinary then 0x04 else 0) + if is24h then 0x02 else 0

/-- The bounds of the fields; the century has to fit its register. -/
structure DateTime.Valid (isBinary : Bool) (date : DateTime) : Prop where
  century : date.year / 100 < if isBinary then 256 else 100
  month : 1 ≤ date.month ∧ date.month ≤ 12
  day : 1 ≤ date.day ∧ date.day ≤ 31
  hour : date.hour < 24
  minute : date.minute < 60
  second : date.second < 60

theorem decodeByte_encodeByte {isBinary : Bool} {value : Nat}
    (small : value < if isBinary then 256 else 100) :
    decodeByte isBinary (encodeByte isBinary value) = value := by
  cases isBinary with
  | true => rfl
  | false =>
    have digits : ∀ value < 100, bcdToBinary (value / 10 * 16 + value % 10) = value := by
      decide +kernel
    exact digits value small

theorem decodeHour_encodeHour_iff : ∀ isBinary is24h, ∀ hour < 24,
    decodeHour isBinary is24h (encodeHour isBinary is24h hour) = hour ↔
      is24h = true ∨ 1 ≤ hour ∧ if isBinary then hour ≠ 12 else hour ≤ 12 := by
  decide +kernel

/-- All but the hour comes back, and the year does when its century is not 0. -/
theorem decode_encode {isBinary : Bool} {date : DateTime} (valid : date.Valid isBinary)
    (is24h : Bool) :
    (date.encode isBinary is24h).decode (formatOf isBinary is24h) =
      { date with
        year := if 100 ≤ date.year then date.year else 2000 + date.year
        hour := decodeHour isBinary is24h (encodeHour isBinary is24h date.hour) } := by
  have binary : decide (formatOf isBinary is24h &&& 0x04 ≠ 0) = isBinary := by
    cases isBinary <;> cases is24h <;> rfl
  have hours : decide (formatOf isBinary is24h &&& 0x02 ≠ 0) = is24h := by
    cases isBinary <;> cases is24h <;> rfl
  have byte {value : Nat} (small : value < 100) :
      decodeByte isBinary (encodeByte isBinary value) = value := by
    apply decodeByte_encodeByte
    split <;> omega
  obtain ⟨century, month, day, _, minute, second⟩ := valid
  simp only [RtcRegisters.decode, DateTime.encode, binary, hours]
  rw [decodeByte_encodeByte century, byte (by omega), byte (by omega), byte (by omega),
    byte (by omega), byte (by omega)]
  congr 1
  split <;> split <;> omega

/-- A date and time comes back exactly when its year is not one of the first hundred and, in a
12-hour format, it is not midnight and neither noon (binary) nor after one in the afternoon (BCD). -/
theorem read_encoded_iff (isBinary is24h : Bool) (date : DateTime) (valid : date.Valid isBinary)
    (fuel : Nat) :
    readDatetime (fuel + 1) (fun _ => date.encode isBinary is24h) (formatOf isBinary is24h) =
        some date ↔
      100 ≤ date.year ∧ (is24h = true ∨
        1 ≤ date.hour ∧ if isBinary then date.hour ≠ 12 else date.hour ≤ 12) := by
  rw [← decodeHour_encodeHour_iff isBinary is24h _ valid.hour, readDatetime, readStable, if_pos rfl,
    Option.map_some, Option.some_inj, decode_encode valid]
  constructor
  · intro same
    have year := congrArg DateTime.year same
    dsimp only at year
    refine ⟨?_, congrArg DateTime.hour same⟩
    split at year <;> omega
  · rintro ⟨late, hour⟩
    rw [hour, if_pos late]

theorem read_encoded_evening :
    readDatetime 1 (fun _ => (⟨2026, 11, 17, 22, 5, 0⟩ : DateTime).encode true false) 0x04 =
      some ⟨2026, 11, 17, 22, 5, 0⟩ :=
  (read_encoded_iff true false _ (by constructor <;> decide) 0).mpr (by decide)

/-- Ten in the evening is read as ten in the morning. -/
theorem bcd_evening_is_morning :
    readDatetime 1 (fun _ => (⟨2026, 11, 17, 22, 5, 0⟩ : DateTime).encode false false) 0x00 ≠
      some ⟨2026, 11, 17, 22, 5, 0⟩ := by decide

/-! ## The calendar -/

def daysIn (year : Int) : Nat → Nat
  | 1 | 3 | 5 | 7 | 8 | 10 | 12 => 31
  | 2 => if year.tmod 4 = 0 ∧ (year.tmod 100 ≠ 0 ∨ year.tmod 400 = 0) then 29 else 28
  | _ => 30

/-- Zeller's congruence for the first day of the month; 0 is Sunday. -/
def firstDow (year : Int) (month : Nat) : Int :=
  let (y, m) := if month ≤ 2 then (year - 1, month + 12) else (year, month)
  let q := 1
  let k := y.tmod 100
  let j := y.tdiv 100
  let h := (q + (13 * ((m : Int) + 1)).tdiv 5 + k + k.tdiv 4 + j.tdiv 4 + 5 * j).tmod 7
  (h + 6).tmod 7

/-- The Gregorian calendar, extended to all years. -/
abbrev IsLeap (year : Nat) : Prop := 4 ∣ year ∧ (100 ∣ year → 400 ∣ year)

def monthLength (year : Nat) : Nat → Nat
  | 2 => if IsLeap year then 29 else 28
  | 4 | 6 | 9 | 11 => 30
  | _ => 31

def daysBeforeMonth (year : Nat) : Nat → Nat
  | 0 | 1 => 0
  | month + 1 => daysBeforeMonth year month + monthLength year month

/-- The days from 1 January of the year 0, which is a Saturday. -/
def daysBeforeYear : Nat → Nat
  | 0 => 0
  | year + 1 => daysBeforeYear year + daysBeforeMonth year 13

def weekday (year month : Nat) : Nat :=
  (6 + daysBeforeYear year + daysBeforeMonth year month) % 7

theorem yearLength_eq (year : Nat) :
    daysBeforeMonth year 13 = if IsLeap year then 366 else 365 := by
  simp only [daysBeforeMonth, monthLength]
  split <;> rfl

theorem daysBeforeYear_succ (year : Nat) :
    daysBeforeYear (year + 1) + year / 100 = 366 + 365 * year + year / 4 + year / 400 := by
  induction year with
  | zero => rfl
  | succ year ih =>
    rw [daysBeforeYear, yearLength_eq]
    by_cases leap : IsLeap (year + 1)
    · rw [if_pos leap]
      unfold IsLeap at leap
      omega
    · rw [if_neg leap]
      unfold IsLeap at leap
      omega

/-- The congruence counts the days of the years up to `y`, the year that ends with February. -/
theorem firstDow_eq {year y month m : Nat}
    (shift : (if month ≤ 2 then ((year : Int) - 1, month + 12) else (year, month)) = (↑y, m)) :
    firstDow year month = ((13 * (m + 1) / 5 + daysBeforeYear (y + 1) + 5) % 7 : Nat) := by
  have natural : firstDow year month =
      ((1 + 13 * (m + 1) / 5 + y % 100 + y % 100 / 4 + y / 100 / 4 + 5 * (y / 100)) % 7 + 6) % 7 := by
    unfold firstDow
    rw [shift]
    dsimp only
    norm_cast
  rw [natural]
  norm_cast
  have counted := daysBeforeYear_succ y
  have fourth : y / 4 = 25 * (y / 100) + y % 100 / 4 := by omega
  have cycles : y / 400 = y / 100 / 4 := by omega
  omega

theorem firstDow_eq_weekday {year month : Nat} (first : 1 ≤ year) (monthPos : 1 ≤ month)
    (last : month ≤ 12) : firstDow year month = weekday year month := by
  by_cases early : month ≤ 2
  · obtain ⟨y, rfl⟩ := Nat.exists_eq_add_of_le' first
    rw [@firstDow_eq _ y _ (month + 12) (by simp [early]), weekday]
    obtain rfl | rfl : month = 1 ∨ month = 2 := by omega
    all_goals simp [daysBeforeMonth, monthLength]; omega
  · rw [@firstDow_eq _ year _ month (if_neg early), weekday, daysBeforeYear]
    -- what is left of the year from March on does not depend on the year
    interval_cases month
    all_goals simp only [daysBeforeMonth, monthLength]; omega

theorem daysIn_eq_monthLength (year month : Nat) (monthPos : 1 ≤ month) (last : month ≤ 12) :
    daysIn year month = monthLength year month := by
  have leap : ((year : Int).tmod 4 = 0 ∧ ((year : Int).tmod 100 ≠ 0 ∨ (year : Int).tmod 400 = 0)) ↔
      IsLeap year := by
    simp only [Int.tmod_eq_emod_of_nonneg (Int.natCast_nonneg year)]
    unfold IsLeap
    omega
  interval_cases month
  all_goals first | rfl | simp only [daysIn, monthLength, leap]

/-- For every year from 1 on and every month, `cal` has the first weekday and the number of days
that counting the days gives. -/
theorem cal_agrees (year month : Nat) (first : 1 ≤ year) (monthPos : 1 ≤ month) (last : month ≤ 12) :
    firstDow year month = weekday year month ∧ daysIn year month = monthLength year month :=
  ⟨firstDow_eq_weekday first monthPos last, daysIn_eq_monthLength year month monthPos last⟩

theorem cal_agrees_february :
    firstDow 2000 2 = weekday 2000 2 ∧ daysIn 2000 2 = monthLength 2000 2 :=
  cal_agrees 2000 2 (by decide) (by decide) (by decide)

example : weekday 2026 11 = 0 := by decide +kernel

end CantayaOS.Shell
