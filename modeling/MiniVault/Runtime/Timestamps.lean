import MiniVault.Runtime.Platform
import Mathlib.Tactic.IntervalCases

/-!
# Timestamps

A time is stored as the text that `isoformat` makes of it and read back with
`fromisoformat`. Adding to a time fails where the calendar ends.

* `fromisoformat_isoformat` — a time in the calendar is read back as it was stored.
-/

namespace MiniVault

open Foundations

/-- `time + timedelta(minutes=minutes)`, which raises `OverflowError` past the last time there is. -/
def addMinutes (time : ℕ) (minutes : ℤ) : Except Exc ℕ :=
  let sum := time + minutes * 60000000
  if 0 ≤ sum ∧ sum ≤ maxTime then .ok sum.toNat else .error .overflowError

theorem addMinutes_eq_ok {time : ℕ} {minutes : ℤ} {sum : ℕ} :
    addMinutes time minutes = .ok sum ↔ (sum : ℤ) = time + minutes * 60000000 ∧ sum ≤ maxTime := by
  by_cases h : 0 ≤ time + minutes * 60000000 ∧ time + minutes * 60000000 ≤ maxTime
  · simp only [addMinutes, h, and_self, ↓reduceIte, Except.ok.injEq]
    omega
  · simp only [addMinutes, h, ↓reduceIte, reduceCtorEq, false_iff]
    omega

/-- The day of a date, counted from the first of January 1970. -/
def dayOfDate (year month day : ℕ) : ℕ :=
  -- the year that begins with March
  let year' := if month < 3 then year - 1 else year
  let month' := if month < 3 then month + 9 else month - 3
  year' / 400 * 146097 + (365 * (year' % 400) + year' % 400 / 4 - year' % 400 / 100) + (153 * month' + 2) / 5 + (day - 1)
    - 719468

/-- The time that the digits of a text say, where it is laid out as `isoformat` does it. -/
def timeOfText (text : PyStr) : ℕ :=
  let number (start width : ℕ) : ℕ := natOfDigits ((text.drop start).take width)
  let seconds := dayOfDate (number 0 4) (number 5 2) (number 8 2) * 86400 + number 11 2 * 3600 + number 14 2 * 60 + number 17 2
  seconds * 1000000 + if text[19]? = some (.scalar '.') then number 20 6 else 0

/-- `datetime.fromisoformat` of the texts that `isoformat` writes; on others, `ValueError`. -/
def fromisoformat : Value → Except Exc ℕ
  | .str text =>
    if isoformat (timeOfText text) = text then .ok (timeOfText text) else .error (.valueError "Invalid isoformat string")
  | _ => .error (.typeError "fromisoformat: argument must be str")

/-! ### Reading back -/

/-- The year of an era that its day `d` is in begins on that day or before it, and is not longer
than a leap year. -/
theorem yearOfEra_spec {d y : ℕ} (h : d < 146097) (hy : y = (d - d / 1460 + d / 36524 - d / 146096) / 365) :
    365 * y + y / 4 - y / 100 ≤ d ∧ d - (365 * y + y / 4 - y / 100) ≤ 365 := by
  have hcentury : d / 36524 ≤ 4 := by omega
  have hyear : y / 100 ≤ 3 := by omega
  -- within a century of days and a century of years the rest is linear
  generalize hc : d / 36524 = c at *
  generalize hz : y / 100 = z at *
  interval_cases c <;> interval_cases z <;> omega

/-- A date in terms of its era, the year of the era and the day of that year. -/
theorem civil_eq (days : ℕ) : ∃ era year day, era * 146097 + (365 * year + year / 4 - year / 100) + day = days + 719468 ∧
    year ≤ 399 ∧ day ≤ 365 ∧ civil days =
      (let month := (5 * day + 2) / 153
      let dayOfMonth := day - (153 * month + 2) / 5 + 1
      if month < 10 then (year + era * 400, month + 3, dayOfMonth) else (year + era * 400 + 1, month - 9, dayOfMonth)) := by
  obtain ⟨hle, hday⟩ := yearOfEra_spec (d := (days + 719468) % 146097) (Nat.mod_lt _ (by omega)) rfl
  refine ⟨(days + 719468) / 146097, _, _, ?_, ?_, hday, rfl⟩
  · rw [Nat.add_assoc, Nat.add_sub_cancel' hle]
    omega
  · omega

/-- What `civil` makes of a day is a date, and the date of that day. -/
theorem civil_spec (days : ℕ) : dayOfDate (civil days).1 (civil days).2.1 (civil days).2.2 = days ∧
    (civil days).2.1 ≤ 12 ∧ (civil days).2.2 ≤ 31 ∧ (days ≤ 2932896 → (civil days).1 ≤ 9999) := by
  obtain ⟨era, year, day, hsum, hyear, hday, hcivil⟩ := civil_eq days
  have hmonth : (153 * ((5 * day + 2) / 153) + 2) / 5 ≤ day := by omega
  have hlength : day - (153 * ((5 * day + 2) / 153) + 2) / 5 ≤ 30 := by omega
  have hera : (year + era * 400) / 400 = era := by omega
  have hof : (year + era * 400) % 400 = year := by omega
  rw [hcivil]
  dsimp only
  generalize hm : (5 * day + 2) / 153 = month at *
  by_cases hlate : month < 10
  · rw [if_pos hlate]
    refine ⟨?_, by dsimp only; omega, by dsimp only; omega, fun _ => by dsimp only; omega⟩
    unfold dayOfDate
    simp only [show ¬ month + 3 < 3 by omega, if_false, hera, hof, Nat.add_sub_cancel]
    omega
  · rw [if_neg hlate]
    refine ⟨?_, by dsimp only; omega, by dsimp only; omega, fun _ => by dsimp only; omega⟩
    unfold dayOfDate
    simp only [show month - 9 < 3 by omega, if_true, Nat.add_sub_cancel, hera, hof, show month - 9 + 9 = month by omega]
    omega

theorem padded_length {width n : ℕ} (hpos : 0 < width) (h : n < 10 ^ width) : (padded width n).length = width := by
  have hle := (Nat.length_toDigits_le_iff (b := 10) (by omega) hpos).mpr h
  simp only [padded, List.length_append, List.length_replicate]
  omega

/-- Digits with zeros in front of them say the same number. -/
theorem natOfDigits_padded (width n : ℕ) : natOfDigits (ofChars (padded width n)) = n := by
  rw [natOfDigits, filterMap_scalar?_ofChars]
  simp only [padded, Nat.ofDigitChars_append, Nat.ofDigitChars_replicate_zero, Nat.mul_zero]
  exact Nat.ofDigitChars_ten_toDigits

/-- The characters of `isoformat`, for a date that is known. -/
theorem isoChars_eq {time year month day : ℕ} (h : civil (time / 1000000 / 86400) = (year, month, day)) :
    isoChars time = padded 4 year ++ ('-' :: (padded 2 month ++ ('-' :: (padded 2 day ++
      ('T' :: (padded 2 (time / 1000000 / 3600 % 24) ++ (':' :: (padded 2 (time / 1000000 / 60 % 60) ++
      (':' :: (padded 2 (time / 1000000 % 60) ++ ((if time % 1000000 = 0 then [] else '.' :: padded 6 (time % 1000000)) ++
        "+00:00".toList))))))))))) := by
  -- with `civil` a variable, so that the kernel does not count up to the numbers in it
  obtain ⟨chars, hchars⟩ : ∃ f, f = isoChars := ⟨_, rfl⟩
  rw [← hchars]
  delta isoChars at hchars
  obtain ⟨date, hdate⟩ : ∃ f, f = civil := ⟨_, rfl⟩
  rw [← hdate] at hchars h
  clear hdate
  subst hchars
  simp only [h, List.append_assoc, List.cons_append]

/-- A field that comes next in a text, and what comes after it. -/
theorem drop_field {text : PyStr} {start width n : ℕ} {back : List Char} (hpos : 0 < width) (h : n < 10 ^ width)
    (htext : text.drop start = ofChars (padded width n ++ back)) :
    natOfDigits ((text.drop start).take width) = n ∧ text.drop (start + width) = ofChars back := by
  have hlen := padded_length hpos h
  refine ⟨?_, ?_⟩
  · rw [htext, ofChars, ← List.map_take, List.take_left' hlen]
    exact natOfDigits_padded width n
  · rw [← List.drop_drop, htext, ofChars, ← List.map_drop, List.drop_left' hlen]
    rfl

/-- A character that comes next in a text, and what comes after it. -/
theorem drop_char {text : PyStr} {start : ℕ} {c : Char} {back : List Char} (htext : text.drop start = ofChars (c :: back)) :
    text[start]? = some (.scalar c) ∧ text.drop (start + 1) = ofChars back := by
  refine ⟨?_, ?_⟩
  · rw [← Nat.add_zero start, ← List.getElem?_drop, htext]
    rfl
  · rw [← List.drop_drop, htext]
    rfl

/-- What `isoformat` writes is short. -/
theorem length_isoformat_le (time : ℕ) : (isoformat time).length ≤ 32 := by
  have hle : min time maxTime ≤ maxTime := Nat.min_le_right _ _
  rw [isoformat, ofChars, List.length_map]
  generalize min time maxTime = time at hle
  unfold maxTime at hle
  obtain ⟨-, hmonth, hdate, hyear⟩ := civil_spec (time / 1000000 / 86400)
  have hyear := hyear (by omega)
  rcases hcivil : civil (time / 1000000 / 86400) with ⟨year, month, day⟩
  rw [hcivil] at hmonth hdate hyear
  dsimp only at hmonth hdate hyear
  have htwo : ∀ n < 100, (padded 2 n).length = 2 := fun n hn => padded_length (by omega) (by omega)
  have hfraction : (if time % 1000000 = 0 then [] else '.' :: padded 6 (time % 1000000)).length ≤ 7 := by
    split_ifs
    · exact Nat.zero_le _
    · rw [List.length_cons, padded_length (by omega) (by omega)]
  rw [isoChars_eq hcivil]
  simp only [List.length_append, List.length_cons, padded_length (show 0 < 4 by omega) (show year < 10 ^ 4 by omega),
    htwo month (by omega), htwo day (by omega), htwo (time / 1000000 / 3600 % 24) (by omega),
    htwo (time / 1000000 / 60 % 60) (by omega), htwo (time / 1000000 % 60) (by omega)]
  have hzone : "+00:00".toList.length = 6 := by decide
  omega

theorem bindable_isoformat (time : ℕ) : Bindable (isoformat time) :=
  bindable_of_length (encodable_isoformat time) ((length_isoformat_le time).trans (by omega))

/-- What `isoformat` writes says its time. -/
theorem timeOfText_isoformat {time : ℕ} (h : time ≤ maxTime) : timeOfText (isoformat time) = time := by
  have hmin : min time maxTime = time := Nat.min_eq_left h
  unfold maxTime at h
  obtain ⟨hday, hmonth, hdate, hyear⟩ := civil_spec (time / 1000000 / 86400)
  have hyear := hyear (by omega)
  rcases hcivil : civil (time / 1000000 / 86400) with ⟨year, month, day⟩
  rw [hcivil] at hday hmonth hdate hyear
  dsimp only at hday hmonth hdate hyear
  have htext := congrArg ofChars (isoChars_eq hcivil)
  rw [← show (isoformat time).drop 0 = ofChars (isoChars time) by rw [isoformat, hmin]; rfl] at htext
  obtain ⟨hY, htext⟩ := drop_field (by omega) (by omega) htext
  obtain ⟨-, htext⟩ := drop_char htext
  obtain ⟨hM, htext⟩ := drop_field (by omega) (by omega) htext
  obtain ⟨-, htext⟩ := drop_char htext
  obtain ⟨hD, htext⟩ := drop_field (by omega) (by omega) htext
  obtain ⟨-, htext⟩ := drop_char htext
  obtain ⟨hh, htext⟩ := drop_field (by omega) (by omega) htext
  obtain ⟨-, htext⟩ := drop_char htext
  obtain ⟨hm, htext⟩ := drop_field (by omega) (by omega) htext
  obtain ⟨-, htext⟩ := drop_char htext
  obtain ⟨hs, htext⟩ := drop_field (by omega) (by omega) htext
  have hfraction : (if (isoformat time)[19]? = some (.scalar '.') then natOfDigits (((isoformat time).drop 20).take 6)
      else 0) = time % 1000000 := by
    by_cases hzero : time % 1000000 = 0
    · rw [if_pos hzero] at htext
      rw [(drop_char htext).1, if_neg (by decide), hzero]
    · rw [if_neg hzero] at htext
      obtain ⟨hpoint, htext⟩ := drop_char htext
      rw [hpoint, if_pos rfl]
      exact (drop_field (by omega) (by omega) htext).1
  simp only [timeOfText]
  rw [hfraction]
  simp only [Nat.zero_add, Nat.reduceAdd] at hY hM hD hh hm hs
  rw [hY, hM, hD, hh, hm, hs, hday]
  omega

/-- **A time of the calendar is read back as it was stored.** -/
theorem fromisoformat_isoformat {time : ℕ} (h : time ≤ maxTime) : fromisoformat (.str (isoformat time)) = .ok time := by
  rw [fromisoformat, timeOfText_isoformat h, if_pos rfl]

end MiniVault
