import Mathlib.Algebra.Order.Ring.Int
/-!
# Calendar — the proleptic Gregorian calendar and its day count

A date is valid by its fields, and a day count is 0 on the epoch and one more on the next day. There is exactly one,
given here in closed form, by years that begin in March.
-/
namespace TailscaleVita.Calendar

def Leap (y : Int) : Prop := 4 ∣ y ∧ (¬ 100 ∣ y ∨ 400 ∣ y)

instance : DecidablePred Leap := fun _ => inferInstanceAs (Decidable (_ ∧ _))

def monthLength (y m : Int) : Int :=
  if m = 2 then if Leap y then 29 else 28 else if m = 4 ∨ m = 6 ∨ m = 9 ∨ m = 11 then 30 else 31

@[ext] structure Date where
  year : Int
  month : Int
  day : Int
  month_mem : 1 ≤ month ∧ month ≤ 12
  day_mem : 1 ≤ day ∧ day ≤ monthLength year month

theorem one_le_monthLength (y m : Int) : 1 ≤ monthLength y m := by
  unfold monthLength
  split_ifs <;> omega

theorem monthLength_le (y m : Int) : monthLength y m ≤ 31 := by
  unfold monthLength
  split_ifs <;> omega

namespace Date

def epoch : Date := ⟨1970, 1, 1, by decide, by decide⟩

def next (t : Date) : Date :=
  if hday : t.day < monthLength t.year t.month then
    ⟨t.year, t.month, t.day + 1, t.month_mem, by have := t.day_mem; omega⟩
  else if hmonth : t.month < 12 then
    ⟨t.year, t.month + 1, 1, by have := t.month_mem; omega, le_rfl, one_le_monthLength _ _⟩
  else ⟨t.year + 1, 1, 1, by omega, le_rfl, one_le_monthLength _ _⟩

def Before (s t : Date) : Prop :=
  s.year < t.year ∨ s.year = t.year ∧ (s.month < t.month ∨ s.month = t.month ∧ s.day < t.day)

theorem before_trichotomy (s t : Date) : s.Before t ∨ s = t ∨ t.Before s := by
  by_cases hst : s.Before t
  · exact .inl hst
  · by_cases hts : t.Before s
    · exact .inr (.inr hts)
    · unfold Before at hst hts
      exact .inr (.inl (Date.ext (by omega) (by omega) (by omega)))

end Date

/-- A day count. -/
structure CountsDays (count : Date → Int) : Prop where
  epoch : count .epoch = 0
  next : ∀ t, count t.next = count t + 1

theorem CountsDays.iterate {count : Date → Int} (h : CountsDays count) (t : Date) :
    ∀ n : Nat, count (Date.next^[n] t) = count t + n
  | 0 => by simp
  | n + 1 => by
    rw [Function.iterate_succ_apply', h.next, h.iterate t n]
    omega

def marchDays (y : Int) : Int := 365 * y + y / 4 - y / 100 + y / 400

def dayNumber (y m d : Int) : Int :=
  if m ≤ 2 then marchDays (y - 1) + (153 * (m + 9) + 2) / 5 + d - 1 - 719468
  else marchDays y + (153 * (m - 3) + 2) / 5 + d - 1 - 719468

def Date.number (t : Date) : Int := dayNumber t.year t.month t.day

theorem marchDays_succ (y : Int) : marchDays y = marchDays (y - 1) + 365 + if Leap y then 1 else 0 := by
  unfold marchDays
  split <;> rename_i hleap <;> unfold Leap at hleap <;> omega

theorem dayNumber_day (y m d : Int) : dayNumber y m d = dayNumber y m 1 + (d - 1) := by
  unfold dayNumber
  split <;> omega

theorem dayNumber_next_month {y m : Int} (hm : 1 ≤ m) (hm' : m < 12) :
    dayNumber y (m + 1) 1 = dayNumber y m 1 + monthLength y m := by
  have hyear := marchDays_succ y
  have hcases : m = 1 ∨ m = 2 ∨ m = 3 ∨ m = 4 ∨ m = 5 ∨ m = 6 ∨ m = 7 ∨ m = 8 ∨ m = 9 ∨ m = 10 ∨ m = 11 := by omega
  rcases hcases with rfl | rfl | rfl | rfl | rfl | rfl | rfl | rfl | rfl | rfl | rfl <;>
    simp [dayNumber, monthLength] <;> grind

theorem dayNumber_next_year (y : Int) : dayNumber (y + 1) 1 1 = dayNumber y 12 1 + 31 := by
  have hyear : y + 1 - 1 = y := by omega
  simp only [dayNumber, hyear]
  omega

theorem monthLength_december (y : Int) : monthLength y 12 = 31 := rfl

theorem number_counts : CountsDays Date.number where
  epoch := by decide
  next t := by
    have hday := t.day_mem
    have hmonth := t.month_mem
    unfold Date.number Date.next
    rw [dayNumber_day t.year t.month t.day]
    split
    · simp only
      rw [dayNumber_day]
      omega
    · split
      next hlast hbefore =>
        simp only
        rw [dayNumber_next_month hmonth.1 hbefore]
        omega
      next hlast hdecember =>
        have hm : t.month = 12 := by omega
        rw [hm, monthLength_december] at hlast hday
        rw [dayNumber_next_year, hm]
        omega

def monthStart (k : Int) : Int := dayNumber (k / 12) (k % 12 + 1) 1

theorem monthStart_succ (k : Int) : monthStart (k + 1) = monthStart k + monthLength (k / 12) (k % 12 + 1) := by
  unfold monthStart
  by_cases hk : k % 12 = 11
  · rw [show (k + 1) / 12 = k / 12 + 1 by omega, show (k + 1) % 12 = 0 by omega, hk]
    exact dayNumber_next_year _
  · rw [show (k + 1) / 12 = k / 12 by omega, show (k + 1) % 12 = k % 12 + 1 by omega]
    exact dayNumber_next_month (by omega) (by omega)

theorem monthStart_mono {j k : Int} (h : j ≤ k) : monthStart j ≤ monthStart k := by
  induction k, h using Int.leInduction with
  | base => exact Int.le_refl _
  | succ k _ ih =>
    have := one_le_monthLength (k / 12) (k % 12 + 1)
    rw [monthStart_succ]
    omega

namespace Date

variable {s t : Date}

theorem number_eq (t : Date) : t.number = monthStart (12 * t.year + (t.month - 1)) + (t.day - 1) := by
  have hmonth := t.month_mem
  unfold number monthStart
  rw [dayNumber_day, show (12 * t.year + (t.month - 1)) / 12 = t.year by omega,
    show (12 * t.year + (t.month - 1)) % 12 + 1 = t.month by omega]

theorem number_lt (h : s.Before t) : s.number < t.number := by
  have hs := s.day_mem
  have ht := t.day_mem
  have hsm := s.month_mem
  have htm := t.month_mem
  by_cases hk : s.year = t.year ∧ s.month = t.month
  · unfold Before at h
    rw [number_eq s, number_eq t, hk.1, hk.2]
    omega
  · -- the month of `s` ends before the month of `t` begins
    have hend := monthStart_succ (12 * s.year + (s.month - 1))
    rw [show (12 * s.year + (s.month - 1)) / 12 = s.year by omega,
      show (12 * s.year + (s.month - 1)) % 12 + 1 = s.month by omega] at hend
    have hle : monthStart (12 * s.year + (s.month - 1) + 1) ≤ monthStart (12 * t.year + (t.month - 1)) :=
      monthStart_mono (by unfold Before at h; omega)
    rw [number_eq s, number_eq t]
    omega

theorem before_iff : s.Before t ↔ s.number < t.number := by
  refine ⟨number_lt, fun h => ?_⟩
  obtain hst | rfl | hts := before_trichotomy s t
  · exact hst
  · exact absurd h (lt_irrefl _)
  · exact absurd h (number_lt hts).le.not_gt

theorem number_injective : Function.Injective number := by
  intro s t h
  obtain hst | rfl | hts := before_trichotomy s t
  · exact absurd h (number_lt hst).ne
  · rfl
  · exact absurd h (number_lt hts).ne'

end Date

theorem CountsDays.eq_number {count : Date → Int} (h : CountsDays count) : count = Date.number := by
  funext t
  have hnumber := number_counts.iterate
  obtain ⟨n, hn | hn⟩ := t.number.eq_nat_or_neg
  · have hreach : Date.next^[n] .epoch = t := Date.number_injective (by
      rw [hnumber, number_counts.epoch, hn, Int.zero_add])
    rw [← hreach, h.iterate, hnumber, h.epoch, number_counts.epoch]
  · have hreach : Date.next^[n] t = .epoch := Date.number_injective (by
      rw [hnumber, number_counts.epoch, hn]
      omega)
    have hcount := h.iterate t n
    rw [hreach, h.epoch] at hcount
    omega

end TailscaleVita.Calendar
