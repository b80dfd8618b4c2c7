import ThreatHunting.Services.Timeline

/-!
# ThreatHunting.Services.Timestamps

The texts of times. A `datetime` is aware and in UTC, and lies in the years 1 to 9999; two of
them are written alike only if they are the same.
-/

namespace ThreatHunting

namespace EvidenceLookup

open Spl (Time)

/-- What a `datetime` in UTC can be: the years 1 to 9999, in microseconds from 1970. -/
abbrev Utc := {stamp : Time // -62135596800000000 ≤ stamp ∧ stamp < 253402300800000000}

/-! ### Digits -/

@[simp] theorem length_decimal (width n : Nat) : (decimal width n).length = width := by
  induction width generalizing n with
  | zero => rfl
  | succ width ih => simp [decimal, ih]

theorem decimal_injective {width a b : Nat} (ha : a < 10 ^ width) (hb : b < 10 ^ width)
    (h : decimal width a = decimal width b) : a = b := by
  induction width generalizing a b with
  | zero =>
      rw [pow_zero] at ha hb
      omega
  | succ width ih =>
      have hdigit : ∀ x y : Fin 10, Nat.digitChar x = Nat.digitChar y → x = y := by decide
      rw [pow_succ] at ha hb
      rw [decimal, decimal] at h
      obtain ⟨hfront, hlast⟩ := List.append_inj h (by simp)
      have hquotient := ih (by omega) (by omega) hfront
      have hrest := hdigit ⟨a % 10, by omega⟩ ⟨b % 10, by omega⟩ (List.singleton_inj.mp hlast)
      have hremainder : a % 10 = b % 10 := congrArg Fin.val hrest
      omega

/-! ### Dates -/

/-- The days of an era before a year of it, both from March on. -/
def daysBefore (year : Nat) : Nat := 365 * year + year / 4 - year / 100

/-- A day of an era, less the leap days before it. -/
def leapless (day : Nat) : Nat := day - day / 1460 + day / 36524 - day / 146096

theorem leapless_mono {a b : Nat} (h : a ≤ b) : leapless a ≤ leapless b := by
  have hfours : a - a / 1460 ≤ b - b / 1460 := by omega
  have hcenturies : a / 36524 ≤ b / 36524 := Nat.div_le_div_right h
  have hera : ∀ n, n / 146096 = n / 36524 / 4 := fun n => by omega
  rw [leapless, leapless, hera, hera]
  omega

theorem leapless_daysBefore : ∀ year < 400, 365 * year ≤ leapless (daysBefore year) ∧
    leapless (daysBefore (year + 1) - 1) < 365 * (year + 1) := by
  decide +kernel

/-- The year of an era a day lies in. -/
theorem year_of_era {day : Nat} (h : day < 146097) : leapless day / 365 < 400 ∧
    daysBefore (leapless day / 365) ≤ day ∧ day < daysBefore (leapless day / 365) + 366 := by
  have hyear : leapless day / 365 < 400 := by
    have hlast : leapless 146096 = 145999 := by decide
    have hle := leapless_mono (Nat.le_of_lt_succ h)
    omega
  generalize hy : leapless day / 365 = year at *
  refine ⟨hyear, ?_, ?_⟩
  · by_contra hday
    cases year with
    | zero => exact hday (Nat.zero_le _)
    | succ year =>
        have hle := leapless_mono (show day ≤ daysBefore (year + 1) - 1 by omega)
        have hlt := (leapless_daysBefore year (by omega)).2
        omega
  · by_contra hday
    by_cases hlast : year = 399
    · have hend : daysBefore year = 145731 := by
        rw [hlast]
        decide
      omega
    · have hnext : daysBefore (year + 1) ≤ daysBefore year + 366 := by
        unfold daysBefore
        omega
      have hle := leapless_mono (show daysBefore (year + 1) ≤ day by omega)
      have hge := (leapless_daysBefore (year + 1) (by omega)).1
      omega

/-- The month a day of the year lies in, from March on. -/
def monthOf (day : Nat) : Nat :=
  if (5 * day + 2) / 153 < 10 then (5 * day + 2) / 153 + 3 else (5 * day + 2) / 153 - 9

/-- A day by its era, the year of the era and the day of the year, both from March on. -/
theorem civil_eq (days : Nat) : ∃ era year day, days = era * 146097 + daysBefore year + day ∧
    year < 400 ∧ day < 366 ∧ civil days = (year + era * 400 + (if monthOf day ≤ 2 then 1 else 0), monthOf day,
      day - (153 * ((5 * day + 2) / 153) + 2) / 5 + 1) := by
  obtain ⟨hyear, hle, hlt⟩ := year_of_era (Nat.mod_lt days (by omega : 146097 > 0))
  refine ⟨days / 146097, leapless (days % 146097) / 365,
    days % 146097 - daysBefore (leapless (days % 146097) / 365), ?_, hyear, ?_, rfl⟩
  · have hsplit := Nat.div_add_mod' days 146097
    omega
  · omega

theorem civil_injective {a b : Nat} (h : civil a = civil b) : a = b := by
  obtain ⟨era, year, day, ha, hyear, hday, hcivil⟩ := civil_eq a
  obtain ⟨era', year', day', hb, hyear', hday', hcivil'⟩ := civil_eq b
  rw [hcivil, hcivil', Prod.mk.injEq, Prod.mk.injEq] at h
  obtain ⟨h₁, h₂, h₃⟩ := h
  have hmonth : (5 * day + 2) / 153 = (5 * day' + 2) / 153 := by
    unfold monthOf at h₂
    split at h₂ <;> split at h₂ <;> omega
  rw [h₂] at h₁
  rw [hmonth] at h₃
  have hdays : day = day' := by omega
  have hyears : year = year' := by omega
  have heras : era = era' := by omega
  rw [ha, hb, hdays, hyears, heras]

theorem civil_lt {days : Nat} (h : days < 3652365) : (civil days).1 < 10000 ∧ (civil days).2.1 < 100 ∧
    (civil days).2.2 < 100 := by
  obtain ⟨era, year, day, hdays, hyear, hday, hcivil⟩ := civil_eq days
  have hbefore : 365 * year ≤ daysBefore year := by
    unfold daysBefore
    omega
  -- the last year ends with December, which the year from March on does not
  have hlast : year = 399 → daysBefore year = 145731 := by
    rintro rfl
    decide
  have hmonth : monthOf day ≤ 12 ∧ (monthOf day ≤ 2 → 306 ≤ day) := by
    unfold monthOf
    split <;> omega
  rw [hcivil]
  show year + era * 400 + (if monthOf day ≤ 2 then 1 else 0) < 10000 ∧ monthOf day < 100 ∧
    day - (153 * ((5 * day + 2) / 153) + 2) / 5 + 1 < 100
  refine ⟨?_, by omega, by omega⟩
  split <;> omega

/-! ### Times -/

/-- The microseconds of a time from the first of March of the year 0. -/
theorem exists_microseconds (t : Utc) : ∃ m : Nat, (t.1 + 719468 * 86400000000).toNat = m ∧
    (m : Int) = t.1 + 719468 * 86400000000 ∧ m / 86400000000 < 3652365 := by
  have hfirst : (-62135596800000000 : Int) ≤ t.1 := t.2.1
  have hlast : (253402300800000000 : Int) > t.1 := t.2.2
  exact ⟨_, rfl, by omega, by omega⟩

/-- **Texts of times.** Two times are written alike only if they are the same. -/
theorem isoformat_injective {a b : Utc} (h : isoformat a.1 = isoformat b.1) : a = b := by
  obtain ⟨m, hm, ha, hdays⟩ := exists_microseconds a
  obtain ⟨n, hn, hb, hdays'⟩ := exists_microseconds b
  have hmn : m = n := by
    simp only [isoformat, hm, hn] at h
    obtain ⟨hyear, hmonth, hday⟩ := civil_lt hdays
    obtain ⟨hyear', hmonth', hday'⟩ := civil_lt hdays'
    obtain ⟨h, -⟩ := List.append_inj' (String.ofList_injective h) rfl
    simp only [List.append_assoc] at h
    obtain ⟨hy, h⟩ := List.append_inj h (by simp)
    obtain ⟨hmo, h⟩ := List.append_inj h (by simp)
    obtain ⟨hd, h⟩ := List.append_inj h (by simp)
    obtain ⟨hclock, hfraction⟩ := List.append_inj h (by simp)
    have hdays : m / 86400000000 = n / 86400000000 := by
      refine civil_injective (Prod.ext (decimal_injective hyear hyear' hy) (Prod.ext ?_ ?_))
      · exact decimal_injective hmonth hmonth' (List.cons.inj hmo).2
      · exact decimal_injective hday hday' (List.cons.inj hd).2
    have hseconds : m / 1000000 % 86400 = n / 1000000 % 86400 := by
      obtain ⟨hh, h⟩ := List.append_inj (List.cons.inj hclock).2 (by simp)
      obtain ⟨hmi, hs⟩ := List.append_inj h (by simp)
      have hh := decimal_injective (by omega) (by omega) hh
      have hmi := decimal_injective (by omega) (by omega) (List.cons.inj hmi).2
      have hs := decimal_injective (by omega) (by omega) (List.cons.inj hs).2
      omega
    have hf : m % 1000000 = n % 1000000 := by
      split at hfraction <;> split at hfraction
      next h₁ h₂ => rw [h₁, h₂]
      next => cases hfraction
      next => cases hfraction
      next => exact decimal_injective (by omega) (by omega) (List.cons.inj hfraction).2
    omega
  rw [hmn, hb] at ha
  exact Subtype.ext (add_right_cancel ha.symm)

end EvidenceLookup

end ThreatHunting
