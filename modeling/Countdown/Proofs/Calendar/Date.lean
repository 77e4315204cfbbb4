import Mathlib.Logic.Function.Iterate
import Countdown.Calendar.DateTime
set_option autoImplicit false

namespace Countdown.Calendar

def yearLength (y : Nat) : Nat := if isLeap y then 366 else 365

theorem isLeap_iff (y : Nat) : isLeap y = true ↔ y % 4 = 0 ∧ (y % 100 = 0 → y % 400 = 0) := by
  simp only [isLeap, Bool.and_eq_true, Bool.or_eq_true, beq_iff_eq, bne_iff_ne]
  omega

theorem daysBefore_succ {y : Nat} (hy : 1 ≤ y) : daysBefore (y + 1) = daysBefore y + yearLength y := by
  have hleap := isLeap_iff y
  unfold yearLength
  simp only [daysBefore]
  split <;> grind

theorem daysBefore_le {x y : Nat} (hx : 1 ≤ x) (h : x ≤ y) : daysBefore x ≤ daysBefore y := by
  induction h with
  | refl => exact Nat.le_refl _
  | step hxy ih =>
    rw [daysBefore_succ (Nat.le_trans hx hxy)]
    exact Nat.le_trans ih (Nat.le_add_right _ _)

theorem foldl_monthLengths (y : Nat) : (monthLengths y).foldl (· + ·) 0 = yearLength y := by
  cases h : isLeap y <;> simp [monthLengths, yearLength, h]

theorem daysBefore_cycles (a : Nat) {b e s : Nat} (hb : b ≤ 3) (he : e ≤ 24) (hs : s ≤ 3) :
    daysBefore (400 * a + 100 * b + 4 * e + s + 1) =
      146097 * a + 36524 * b + 1461 * e + 365 * s := by
  have h4 : (400 * a + 100 * b + 4 * e + s) / 4 = 100 * a + 25 * b + e := by omega
  have h100 : (400 * a + 100 * b + 4 * e + s) / 100 = 4 * a + b := by omega
  have h400 : (400 * a + 100 * b + 4 * e + s) / 400 = a := by omega
  simp only [daysBefore, Nat.add_sub_cancel, h4, h100, h400]
  omega

theorem isLeap_cycles (a : Nat) {b e : Nat} (he : e ≤ 24) (hcentury : e = 24 → b = 3) :
    isLeap (400 * a + 100 * b + 4 * e + 3 + 1) = true := by
  rw [isLeap_iff]
  by_cases hlast : e = 24
  · rw [hlast, hcentury hlast]
    omega
  · omega

namespace Date

theorem yearOf_cycles (n : Nat) : ∃ a b e s q, b ≤ 3 ∧ e ≤ 24 ∧ s ≤ 3 ∧
    yearOf n = 400 * a + 100 * b + 4 * e + s + 1 ∧
    n = 146097 * a + 36524 * b + 1461 * e + 365 * s + q ∧
    (q < 365 ∨ q = 365 ∧ s = 3 ∧ (e = 24 → b = 3)) := by
  by_cases hlast : n % 146097 / 36524 = 4
  · refine ⟨n / 146097,3,24,3,365,by omega,by omega,by omega,?_,by omega,by omega⟩
    simp only [yearOf, if_pos hlast]
    omega
  · by_cases hleap : n % 146097 % 36524 % 1461 = 1460
    · refine ⟨n / 146097,n % 146097 / 36524,n % 146097 % 36524 / 1461,3,365,by omega,by omega,
        by omega,?_,by omega,by omega⟩
      simp only [yearOf, if_neg hlast]
      omega
    · refine ⟨n / 146097,n % 146097 / 36524,n % 146097 % 36524 / 1461,
        n % 146097 % 36524 % 1461 / 365,n % 146097 % 36524 % 1461 % 365,by omega,by omega,
        by omega,?_,by omega,by omega⟩
      simp only [yearOf, if_neg hlast]
      omega

theorem yearOf_bounds (n : Nat) :
    1 ≤ yearOf n ∧ daysBefore (yearOf n) ≤ n ∧ n < daysBefore (yearOf n + 1) := by
  obtain ⟨a,b,e,s,q,hb,he,hs,hyear,hn,hq⟩ := yearOf_cycles n
  have hbefore := daysBefore_cycles a hb he hs
  have hsucc := daysBefore_succ (y := yearOf n) (by omega)
  rw [← hyear] at hbefore
  refine ⟨by omega,by omega,?_⟩
  obtain hq | ⟨hq,hs,hcentury⟩ := hq
  · have hlen : 365 ≤ yearLength (yearOf n) := by
      unfold yearLength
      split <;> omega
    omega
  · have hleap := isLeap_cycles a he hcentury
    rw [← hs, ← hyear] at hleap
    rw [yearLength, if_pos hleap] at hsucc
    omega

theorem yearOf_eq {y n : Nat} (hle : daysBefore y ≤ n) (hlt : n < daysBefore (y + 1)) :
    yearOf n = y := by
  obtain ⟨_,hbefore,hafter⟩ := yearOf_bounds n
  obtain hless | heq | hmore := Nat.lt_trichotomy (yearOf n) y
  · have := daysBefore_le (Nat.le_add_left 1 _) hless
    omega
  · exact heq
  · have := daysBefore_le (Nat.le_add_left 1 _) hmore
    omega

theorem foldl_add_cons (l : Nat) (ls : List Nat) :
    (l :: ls).foldl (· + ·) 0 = l + ls.foldl (· + ·) 0 := by
  rw [← List.sum_eq_foldl, ← List.sum_eq_foldl, List.sum_cons]

theorem exists_month : ∀ (ls : List Nat) (n : Nat), n < ls.foldl (· + ·) 0 →
    ∃ k r, k < ls.length ∧ r < ls.getD k 0 ∧ n = (ls.take k).foldl (· + ·) 0 + r := by
  intro ls
  induction ls with
  | nil => intro _ h; exact absurd h (Nat.not_lt_zero _)
  | cons l ls ih =>
    intro n h
    rw [foldl_add_cons] at h
    by_cases hl : n < l
    · exact ⟨0,n,by simp,by simpa using hl,by simp⟩
    · obtain ⟨k,r,hk,hr,hn⟩ := ih (n - l) (by omega)
      refine ⟨k + 1,r,by simpa using hk,by simpa using hr,?_⟩
      rw [List.take_succ_cons, foldl_add_cons]
      omega

theorem inYear_month (y : Nat) : ∀ (ls : List Nat) (month k r : Nat), k < ls.length →
    r < ls.getD k 0 →
    inYear y month ((ls.take k).foldl (· + ·) 0 + r) ls = ⟨y,month + k,r + 1⟩ := by
  intro ls
  induction ls with
  | nil => intro _ _ _ h; exact absurd h (Nat.not_lt_zero _)
  | cons l ls ih =>
    intro month k r hk hr
    cases k with
    | zero =>
      have hl : r < l := by simpa using hr
      simp [inYear, hl]
    | succ k =>
      have hrest := ih (month + 1) k r (by simpa using hk) (by simpa using hr)
      rw [List.take_succ_cons, foldl_add_cons, inYear, if_neg (by omega),
        show l + (ls.take k).foldl (· + ·) 0 + r - l = (ls.take k).foldl (· + ·) 0 + r by omega, hrest,
        Nat.add_right_comm, Nat.add_assoc]

theorem foldl_take_succ (ls : List Nat) (k : Nat) :
    (ls.take (k + 1)).foldl (· + ·) 0 = (ls.take k).foldl (· + ·) 0 + ls.getD k 0 := by
  rw [List.take_add_one, List.foldl_append, List.getD_eq_getElem?_getD]
  cases ls[k]? <;> rfl

theorem foldl_take_le (ls : List Nat) (k : Nat) : (ls.take k).foldl (· + ·) 0 ≤ ls.foldl (· + ·) 0 := by
  induction ls generalizing k with
  | nil => simp
  | cons l ls ih =>
    cases k with
    | zero => simp
    | succ k =>
      rw [List.take_succ_cons, foldl_add_cons, foldl_add_cons]
      exact Nat.add_le_add_left (ih k) l

/-- The dates that years have. -/
inductive Proper : Date → Prop
  | intro {y k r : Nat} (year : 1 ≤ y) (month : k < 12) (day : r < (monthLengths y).getD k 0) :
    Proper ⟨y,k + 1,r + 1⟩

theorem isValid_iff (x : Date) : x.isValid = true ↔ x.Proper ∧ x.year ≤ 9999 := by
  simp only [isValid, Bool.and_eq_true, decide_eq_true_eq]
  constructor
  · intro h
    have heq : x = ⟨x.year,x.month - 1 + 1,x.day - 1 + 1⟩ := by
      rw [Nat.sub_add_cancel (by omega), Nat.sub_add_cancel (by omega)]
    have hyear : x.year ≤ 9999 := by omega
    rw [heq]
    exact ⟨.intro (by omega) (by omega) (by omega),hyear⟩
  · rintro ⟨⟨hy,hk,hr⟩,hle⟩
    simp only [Nat.add_sub_cancel] at hle ⊢
    omega

theorem number_mk (y k r : Nat) : number ⟨y,k + 1,r + 1⟩ =
    daysBefore y + ((monthLengths y).take k).foldl (· + ·) 0 + r := rfl

theorem ofNumber_eq (n : Nat) : ∃ k r, k < 12 ∧ r < (monthLengths (yearOf n)).getD k 0 ∧
    n = daysBefore (yearOf n) + ((monthLengths (yearOf n)).take k).foldl (· + ·) 0 + r ∧
    ofNumber n = ⟨yearOf n,k + 1,r + 1⟩ := by
  obtain ⟨hpos,hbefore,hafter⟩ := yearOf_bounds n
  have hlen : n - daysBefore (yearOf n) < (monthLengths (yearOf n)).foldl (· + ·) 0 := by
    rw [daysBefore_succ hpos] at hafter
    rw [foldl_monthLengths]
    omega
  obtain ⟨k,r,hk,hr,hn⟩ := exists_month _ _ hlen
  refine ⟨k,r,hk,hr,by omega,?_⟩
  rw [ofNumber, hn, inYear_month _ _ _ _ _ hk hr, Nat.add_comm 1 k]

theorem proper_ofNumber (n : Nat) : (ofNumber n).Proper := by
  obtain ⟨k,r,hk,hr,_,heq⟩ := ofNumber_eq n
  rw [heq]
  exact .intro (yearOf_bounds n).1 hk hr

@[simp] theorem number_ofNumber (n : Nat) : (ofNumber n).number = n := by
  obtain ⟨k,r,_,_,hn,heq⟩ := ofNumber_eq n
  rw [heq, number_mk, ← hn]

theorem Proper.ofNumber_number {x : Date} (h : x.Proper) : ofNumber x.number = x := by
  obtain @⟨y,k,r,hy,hk,hr⟩ := h
  have hin : ((monthLengths y).take k).foldl (· + ·) 0 + r < yearLength y := by
    rw [← foldl_monthLengths]
    refine Nat.lt_of_lt_of_le ?_ (foldl_take_le (monthLengths y) (k + 1))
    rw [foldl_take_succ]
    exact Nat.add_lt_add_left hr _
  have hyear : yearOf (number ⟨y,k + 1,r + 1⟩) = y := by
    apply yearOf_eq
    · rw [number_mk, Nat.add_assoc]
      exact Nat.le_add_right _ _
    · rw [number_mk, daysBefore_succ hy, Nat.add_assoc]
      exact Nat.add_lt_add_left hin _
  rw [ofNumber, hyear, number_mk, Nat.add_assoc, Nat.add_sub_cancel_left,
    inYear_month _ _ _ _ _ hk hr, Nat.add_comm 1 k]

theorem ofNumber_injective : Function.Injective ofNumber :=
  Function.LeftInverse.injective number_ofNumber

theorem isValid_ofNumber (n : Nat) : (ofNumber n).isValid = true ↔ n < dayCount := by
  obtain ⟨_,hbefore,hafter⟩ := yearOf_bounds n
  obtain ⟨k,r,_,_,_,heq⟩ := ofNumber_eq n
  have hyear : (ofNumber n).year = yearOf n := by rw [heq]
  rw [isValid_iff, hyear, dayCount]
  constructor
  · intro ⟨_,hle⟩
    exact Nat.lt_of_lt_of_le hafter (daysBefore_le (Nat.le_add_left 1 _) (Nat.succ_le_succ hle : _ ≤ 10000))
  · intro hlt
    refine ⟨proper_ofNumber n,?_⟩
    apply Nat.le_of_not_lt
    intro hlate
    have := daysBefore_le (x := 10000) (by decide) hlate
    omega

def next (x : Date) : Date :=
  if x.day < (monthLengths x.year).getD (x.month - 1) 0 then ⟨x.year,x.month,x.day + 1⟩
  else if x.month < 12 then ⟨x.year,x.month + 1,1⟩
  else ⟨x.year + 1,1,1⟩

theorem monthLength_pos (y : Nat) {k : Nat} (hk : k < 12) : 0 < (monthLengths y).getD k 0 := by
  unfold monthLengths
  generalize isLeap y = leap
  decide +revert

theorem Proper.next {x : Date} (h : x.Proper) :
    x.next.Proper ∧ x.next.number = x.number + 1 := by
  obtain @⟨y,k,r,hy,hk,hr⟩ := h
  have hmonth := foldl_take_succ (monthLengths y) k
  simp only [Date.next, Nat.add_sub_cancel]
  split
  · rename_i hmore
    exact ⟨.intro hy hk hmore,rfl⟩
  · split
    · refine ⟨.intro hy (by omega) (monthLength_pos y (by omega)),?_⟩
      rw [number_mk, number_mk, hmonth]
      omega
    · refine ⟨.intro (Nat.le_add_left 1 y) (by decide) (monthLength_pos _ (by decide)),?_⟩
      have hdec : k = 11 := by omega
      have hall : ((monthLengths y).take (k + 1)).foldl (· + ·) 0 = yearLength y := by
        rw [hdec]
        exact foldl_monthLengths y
      rw [number_mk, number_mk, List.take_zero, List.foldl_nil, daysBefore_succ hy, ← hall, hmonth]
      omega

/-- The day after a day has the date after its date. -/
theorem ofNumber_succ (n : Nat) : ofNumber (n + 1) = (ofNumber n).next := by
  obtain ⟨hproper,hnumber⟩ := (proper_ofNumber n).next
  rw [← hproper.ofNumber_number, hnumber, number_ofNumber]

example : ofNumber 738944 = ⟨2024,2,29⟩ ∧ (ofNumber 738944).next = ⟨2024,3,1⟩ := by decide

theorem ofNumber_add (n k : Nat) : ofNumber (n + k) = next^[k] (ofNumber n) := by
  induction k with
  | zero => rfl
  | succ k ih => rw [Nat.add_succ, ofNumber_succ, ih, Function.iterate_succ_apply']

end Date
end Countdown.Calendar
