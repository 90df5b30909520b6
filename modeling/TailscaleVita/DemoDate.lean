import TailscaleVita.Calendar
/-!
# DemoDate — the day number of a date (`tailscale-vita-demo/src/ui/timefmt.rs`)

`days_from_civil` is the one day count of the calendar, for every date whose number is an `i64`.
-/
namespace TailscaleVita.Demo

open Calendar (Date CountsDays dayNumber marchDays)

/-- `days_from_civil`; the release build wraps, and `/` rounds towards zero. -/
def daysFromCivil (y m d : Int64) : Int64 :=
  let y := if m ≤ 2 then y - 1 else y
  let era := (if y ≥ 0 then y else y - 399) / 400
  let yoe := y - era * 400
  let doy := (153 * (if m > 2 then m - 3 else m + 9) + 2) / 5 + d - 1
  let doe := yoe * 365 + yoe / 4 - yoe / 100 + doy
  era * 146097 + doe - 719468

def InI64 (n : Int) : Prop := -2 ^ 63 ≤ n ∧ n < 2 ^ 63

section

variable {a b : Int64} {x z : Int}

theorem bmod_of_inI64 (h : InI64 x) : x.bmod (2 ^ 64) = x := by
  unfold InI64 at h
  exact Int.bmod_eq_of_le (by omega) (by omega)

theorem add_toInt (ha : a.toInt = x) (hb : b.toInt = z) (h : InI64 (x + z)) : (a + b).toInt = x + z := by
  rw [Int64.toInt_add, ha, hb, bmod_of_inI64 h]

theorem sub_toInt (ha : a.toInt = x) (hb : b.toInt = z) (h : InI64 (x - z)) : (a - b).toInt = x - z := by
  rw [Int64.toInt_sub, ha, hb, bmod_of_inI64 h]

theorem mul_toInt (ha : a.toInt = x) (hb : b.toInt = z) (h : InI64 (x * z)) : (a * b).toInt = x * z := by
  rw [Int64.toInt_mul, ha, hb, bmod_of_inI64 h]

theorem div_toInt (ha : a.toInt = x) (hb : b.toInt = z) (hx : 0 ≤ x) (hz : 0 < z) : (a / b).toInt = x / z := by
  have hle := Int.ediv_le_self z hx
  have hnonneg := Int.ediv_nonneg hx hz.le
  have hlt := a.toInt_lt
  rw [Int64.toInt_div, ha, hb, Int.tdiv_eq_ediv_of_nonneg hx, bmod_of_inI64 ⟨by omega, by omega⟩]

end

variable {y m d : Int64}

theorem era_toInt (hy : -2 ^ 62 ≤ y.toInt) : ((if y ≥ 0 then y else y - 399) / 400).toInt = y.toInt / 400 := by
  split
  next hpos => exact div_toInt rfl rfl (Int64.le_iff_toInt_le.1 hpos) (by decide)
  next hneg =>
    have hlt : y.toInt < 0 := Int.not_le.1 fun h => hneg (Int64.le_iff_toInt_le.2 h)
    have hsub : (y - 399).toInt = y.toInt - 399 := sub_toInt rfl rfl ⟨by omega, by omega⟩
    have h400 : (400 : Int64).toInt = 400 := rfl
    rw [Int64.toInt_div, hsub, h400, ← Int.neg_neg (y.toInt - 399), Int.neg_tdiv, Int.tdiv_eq_ediv_of_nonneg (by omega),
      bmod_of_inI64 ⟨by omega, by omega⟩]
    omega

theorem doy_toInt (hm : 0 ≤ m.toInt ∧ m.toInt ≤ 11) (hd : 1 ≤ d.toInt ∧ d.toInt ≤ 31) :
    ((153 * m + 2) / 5 + d - 1).toInt = (153 * m.toInt + 2) / 5 + d.toInt - 1 := by
  have hmul : (153 * m).toInt = 153 * m.toInt := mul_toInt rfl rfl ⟨by omega, by omega⟩
  have hadd : (153 * m + 2).toInt = 153 * m.toInt + 2 := add_toInt hmul rfl ⟨by omega, by omega⟩
  have hdiv : ((153 * m + 2) / 5).toInt = (153 * m.toInt + 2) / 5 := div_toInt hadd rfl (by omega) (by omega)
  exact sub_toInt (add_toInt hdiv rfl ⟨by omega, by omega⟩) rfl ⟨by omega, by omega⟩

theorem doe_toInt {yoe doy : Int64} (hyoe : 0 ≤ yoe.toInt ∧ yoe.toInt < 400) (hdoy : 0 ≤ doy.toInt ∧ doy.toInt < 400) :
    (yoe * 365 + yoe / 4 - yoe / 100 + doy).toInt =
      yoe.toInt * 365 + yoe.toInt / 4 - yoe.toInt / 100 + doy.toInt := by
  have hmul : (yoe * 365).toInt = yoe.toInt * 365 := mul_toInt rfl rfl ⟨by omega, by omega⟩
  have hfour : (yoe / 4).toInt = yoe.toInt / 4 := div_toInt rfl rfl hyoe.1 (by omega)
  have hhundred : (yoe / 100).toInt = yoe.toInt / 100 := div_toInt rfl rfl hyoe.1 (by omega)
  exact add_toInt (sub_toInt (add_toInt hmul hfour ⟨by omega, by omega⟩) hhundred ⟨by omega, by omega⟩) rfl
    ⟨by omega, by omega⟩

theorem days_toInt {era doe : Int64} (h : InI64 (era.toInt * 146097 + doe.toInt - 719468)) :
    (era * 146097 + doe - 719468).toInt = era.toInt * 146097 + doe.toInt - 719468 := by
  have hera : (146097 : Int64).toInt = 146097 := rfl
  have hepoch : (719468 : Int64).toInt = 719468 := rfl
  rw [Int64.toInt_sub, Int64.toInt_add, Int64.toInt_mul, hera, hepoch, Int.bmod_add_bmod, Int.sub_eq_add_neg,
    Int.bmod_add_bmod, ← Int.sub_eq_add_neg, bmod_of_inI64 h]

theorem march_toInt (hy : -2 ^ 62 ≤ y.toInt ∧ y.toInt ≤ 2 ^ 62) (hm : 0 ≤ m.toInt ∧ m.toInt ≤ 11)
    (hd : 1 ≤ d.toInt ∧ d.toInt ≤ 31)
    (hn : InI64 (marchDays y.toInt + (153 * m.toInt + 2) / 5 + d.toInt - 1 - 719468)) :
    let era := (if y ≥ 0 then y else y - 399) / 400
    let yoe := y - era * 400
    (era * 146097 + (yoe * 365 + yoe / 4 - yoe / 100 + ((153 * m + 2) / 5 + d - 1)) - 719468).toInt =
      marchDays y.toInt + (153 * m.toInt + 2) / 5 + d.toInt - 1 - 719468 := by
  intro era yoe
  have hera : era.toInt = y.toInt / 400 := era_toInt hy.1
  have hyoe : yoe.toInt = y.toInt - y.toInt / 400 * 400 :=
    sub_toInt rfl (mul_toInt hera rfl ⟨by omega, by omega⟩) ⟨by omega, by omega⟩
  have hdoy := doy_toInt hm hd
  have hdoe := doe_toInt (by omega : 0 ≤ yoe.toInt ∧ yoe.toInt < 400)
    (by omega : 0 ≤ ((153 * m + 2) / 5 + d - 1).toInt ∧ ((153 * m + 2) / 5 + d - 1).toInt < 400)
  have hsame : era.toInt * 146097 + (yoe * 365 + yoe / 4 - yoe / 100 + ((153 * m + 2) / 5 + d - 1)).toInt - 719468 =
      marchDays y.toInt + (153 * m.toInt + 2) / 5 + d.toInt - 1 - 719468 := by
    unfold marchDays
    omega
  rw [← hsame] at hn ⊢
  exact days_toInt hn

theorem daysFromCivil_toInt (hm : 1 ≤ m.toInt ∧ m.toInt ≤ 12) (hd : 1 ≤ d.toInt ∧ d.toInt ≤ 31)
    (hn : InI64 (dayNumber y.toInt m.toInt d.toInt)) :
    (daysFromCivil y m d).toInt = dayNumber y.toInt m.toInt d.toInt := by
  have hy : -2 ^ 61 ≤ y.toInt ∧ y.toInt ≤ 2 ^ 61 := by
    unfold InI64 dayNumber marchDays at hn
    split at hn <;> omega
  unfold dayNumber at hn ⊢
  have hle : m ≤ 2 ↔ m.toInt ≤ 2 := Int64.le_iff_toInt_le
  have hgt : m > 2 ↔ ¬ m.toInt ≤ 2 := Int64.lt_iff_toInt_lt.trans Int.not_le.symm
  unfold daysFromCivil
  simp only [hle, hgt]
  split at hn
  next hearly =>
    have hyear : (y - 1).toInt = y.toInt - 1 := sub_toInt rfl rfl ⟨by omega, by omega⟩
    have hmonth : (m + 9).toInt = m.toInt + 9 := add_toInt rfl rfl ⟨by omega, by omega⟩
    simp only [hearly, not_true, if_true, if_false]
    rw [← hyear, ← hmonth] at hn ⊢
    exact march_toInt (by omega) (by omega) hd hn
  next hlate =>
    have hmonth : (m - 3).toInt = m.toInt - 3 := sub_toInt rfl rfl ⟨by omega, by omega⟩
    simp only [hlate, not_false_eq_true, if_true, if_false]
    rw [← hmonth] at hn ⊢
    exact march_toInt (by omega) (by omega) hd hn

/-- **The civil day number.**  The calendar has exactly one day count, 0 on 1970-01-01 and one more on each next day,
and dates stand in the order of their counts; `days_from_civil` gives the count of a date exactly when that is an
`i64`. -/
theorem days_from_civil_counts :
    ∃ count, CountsDays count ∧ (∀ g, CountsDays g → g = count) ∧ (∀ s t : Date, s.Before t ↔ count s < count t) ∧
      ∀ (t : Date) (y m d : Int64), y.toInt = t.year → m.toInt = t.month → d.toInt = t.day →
        ((daysFromCivil y m d).toInt = count t ↔ InI64 (count t)) := by
  refine ⟨Date.number, Calendar.number_counts, fun g hg => hg.eq_number, fun s t => Date.before_iff, ?_⟩
  intro t y m d hy hm hd
  constructor
  · intro h
    rw [← h]
    exact ⟨Int64.le_toInt _, Int64.toInt_lt _⟩
  · intro h
    have hlength := Calendar.monthLength_le t.year t.month
    have hmonth := t.month_mem
    have hday := t.day_mem
    unfold Date.number at h ⊢
    rw [← hy, ← hm, ← hd] at *
    exact daysFromCivil_toInt (by omega) (by omega) h

/-- The last day whose count is an `i64`, and the day after it. -/
theorem days_from_civil_wraps :
    Date.next ⟨25252734927768524, 7, 27, by decide, by decide⟩ = ⟨25252734927768524, 7, 28, by decide, by decide⟩ ∧
      daysFromCivil 25252734927768524 7 27 = 9223372036854775807 ∧
      daysFromCivil 25252734927768524 7 28 = -9223372036854775808 :=
  ⟨rfl, by decide, by decide⟩

end TailscaleVita.Demo
