import Countdown.Timer.Basic
import Mathlib.Data.List.Count
import Mathlib.Data.List.Nodup
set_option autoImplicit false

/-!
Listeners that are registered on a timer and withdrawn again. Each registration has a function of its own that
withdraws it, but what that function takes off the list is the first registration of the same listener. The
list is right as long as the registrations of a listener are withdrawn in their order and none is withdrawn
again while another of them is in force.
-/

namespace Countdown

/-- What is asked of a timer: to register a listener, or to withdraw a registration. The registrations are
numbered in their order. -/
inductive Request where
  | register (l : Listener)
  | withdraw (i : Nat)
  deriving DecidableEq, Repr

namespace Request

def made (h : List Request) : List Listener :=
  h.filterMap fun r => match r with
    | register l => some l
    | withdraw _ => none

/-- The registrations that are in force: those that were not withdrawn, with their numbers. -/
def inForce (h : List Request) : List (Listener × Nat) := (made h).zipIdx.filter fun p => withdraw p.2 ∉ h

def standing (h : List Request) : List Listener := (inForce h).map (·.1)

def carry (registered : List Listener) (t : Timer) : Request → Timer
  | register l => t.listen l
  | withdraw i => match registered[i]? with
    | some l => t.unlisten l
    | none => t

def carryAll (registered : List Listener) (t : Timer) : List Request → Timer
  | [] => t
  | r :: rs => carryAll (registered ++ made [r]) (carry registered t r) rs

def listed (h : List Request) : List Listener := (carryAll [] {} h).listeners

/-- Registrations are withdrawn after they were made. -/
inductive Possible : List Request → Prop where
  | nil : Possible []
  | register {h : List Request} (l : Listener) : Possible h → Possible (h ++ [register l])
  | withdraw {h : List Request} {i : Nat} {l : Listener} : Possible h → (made h)[i]? = some l →
      Possible (h ++ [withdraw i])

variable {h : List Request} {l : Listener} {i : Nat} {p : Listener → Bool}

@[simp] theorem made_append (h g : List Request) : made (h ++ g) = made h ++ made g := List.filterMap_append

@[simp] theorem made_register (l : Listener) : made [register l] = [l] := rfl

@[simp] theorem made_withdraw (i : Nat) : made [withdraw i] = [] := rfl

theorem carryAll_append (r : Request) : ∀ (h : List Request) (registered : List Listener) (t : Timer),
    carryAll registered t (h ++ [r]) = carry (registered ++ made h) (carryAll registered t h) r
  | [], registered, t => by simp [carryAll, made]
  | x :: h, registered, t => by
    have hsplit : made (x :: h) = made [x] ++ made h := made_append [x] h
    rw [List.cons_append, carryAll, carryAll, carryAll_append r h, hsplit, List.append_assoc]

theorem listed_register (h : List Request) (l : Listener) : listed (h ++ [register l]) = listed h ++ [l] := by
  rw [listed, carryAll_append]
  rfl

theorem listed_withdraw (hl : (made h)[i]? = some l) : listed (h ++ [withdraw i]) = (listed h).erase l := by
  rw [listed, carryAll_append, List.nil_append, carry, hl]
  rfl

theorem lt_of_withdrawn (hp : Possible h) (hi : withdraw i ∈ h) : i < (made h).length := by
  induction hp with
  | nil => contradiction
  | register l _ ih =>
    have hmem := ih (by simpa using hi)
    simp only [made_append, made_register, List.length_append]
    omega
  | @withdraw h j l _ hl ih =>
    rw [made_append, made_withdraw, List.append_nil]
    obtain hi | hi := List.mem_append.mp hi
    · exact ih hi
    · cases List.mem_singleton.mp hi
      exact (List.getElem?_eq_some_iff.mp hl).1

theorem Possible.of_append {g : List Request} (hp : Possible (h ++ g)) : Possible h := by
  generalize hk : h ++ g = k at hp
  induction hp generalizing g with
  | nil =>
    rw [(List.append_eq_nil_iff.mp hk).1]
    exact .nil
  | register l hp ih =>
    obtain rfl | ⟨g,r,rfl⟩ := List.eq_nil_or_concat g
    · rw [List.append_nil] at hk
      exact hk ▸ .register l hp
    · rw [List.concat_eq_append, ← List.append_assoc] at hk
      exact ih (List.append_inj_left' hk rfl)
  | withdraw hp hl ih =>
    obtain rfl | ⟨g,r,rfl⟩ := List.eq_nil_or_concat g
    · rw [List.append_nil] at hk
      exact hk ▸ .withdraw hp hl
    · rw [List.concat_eq_append, ← List.append_assoc] at hk
      exact ih (List.append_inj_left' hk rfl)

theorem inForce_register (hp : Possible h) (l : Listener) :
    inForce (h ++ [register l]) = inForce h ++ [(l, (made h).length)] := by
  have hnew : withdraw (made h).length ∉ h := fun hmem => Nat.lt_irrefl _ (lt_of_withdrawn hp hmem)
  simp [inForce, List.zipIdx_append, hnew]

theorem made_of_mem_inForce (hmem : (l, i) ∈ inForce h) : (made h)[i]? = some l :=
  List.mk_mem_zipIdx_iff_getElem?.mp (List.mem_of_mem_filter hmem)

theorem mem_inForce (hl : (made h)[i]? = some l) : (l, i) ∈ inForce h ↔ withdraw i ∉ h := by
  simp [inForce, List.mk_mem_zipIdx_iff_getElem?, hl]

theorem inForce_nodup (h : List Request) : (inForce h).Nodup := by
  have hall : ((made h).zipIdx.map (·.2)).Nodup := by
    rw [List.zipIdx_map_snd]
    exact List.nodup_range'
  exact (List.Nodup.of_map _ hall).filter _

theorem inForce_withdraw (hl : (made h)[i]? = some l) :
    inForce (h ++ [withdraw i]) = (inForce h).erase (l, i) := by
  rw [(inForce_nodup h).erase_eq_filter]
  simp only [inForce, made_append, made_withdraw, List.append_nil, List.filter_filter]
  refine List.filter_congr fun p hp => ?_
  have hp := List.mem_zipIdx_iff_getElem?.mp hp
  have heq : p.2 = i ↔ p = (l, i) := by
    constructor
    · rintro rfl
      rw [hp, Option.some.injEq] at hl
      exact Prod.ext hl rfl
    · rintro rfl
      rfl
  rw [Bool.eq_iff_iff]
  simp [heq, and_comm]

def IsNext (h : List Request) (l : Listener) (i : Nat) : Prop :=
  ∀ r, (inForce h).find? (fun r => r.1 == l) = some r → r.2 = i

/-- The registrations of listeners with a property are withdrawn in their order, and none is withdrawn again
while another of the same listener is in force. -/
def InTurn (p : Listener → Bool) (h : List Request) : Prop :=
  ∀ before i after l, h = before ++ withdraw i :: after → (made before)[i]? = some l → p l = true →
    IsNext before l i

theorem InTurn.of_append {g : List Request} (ht : InTurn p (h ++ g)) : InTurn p h := by
  intro before i after l heq
  exact ht before i (after ++ g) l (by rw [heq]; simp)

theorem InTurn.last (ht : InTurn p (h ++ [withdraw i])) (hl : (made h)[i]? = some l) (hpl : p l = true) :
    IsNext h l i := ht h i [] l rfl hl hpl

theorem standing_withdraw (hnext : IsNext h l i) (hl : (made h)[i]? = some l) :
    standing (h ++ [withdraw i]) = (standing h).erase l := by
  rw [standing, inForce_withdraw hl, standing]
  cases hfind : (inForce h).find? fun r => r.1 == l with
  | none =>
    have hnone : ∀ r ∈ inForce h, r.1 ≠ l := by simpa using hfind
    have hnot : l ∉ (inForce h).map (·.1) := by
      rintro hmem
      obtain ⟨r,hr,rfl⟩ := List.mem_map.mp hmem
      exact hnone r hr rfl
    rw [List.erase_of_not_mem hnot, List.erase_of_not_mem fun hmem => hnone _ hmem rfl]
  | some r =>
    obtain ⟨hr,xs,ys,hsplit,hfirst⟩ := List.find?_eq_some_iff_append.mp hfind
    obtain rfl : r = (l, i) := Prod.ext (by simpa using hr) (hnext r hfind)
    have hnot : l ∉ xs.map (·.1) := by
      rintro hmem
      obtain ⟨x,hx,rfl⟩ := List.mem_map.mp hmem
      simpa using hfirst x hx
    have hnot' : (l, i) ∉ xs := fun hmem => hnot (List.mem_map_of_mem hmem)
    rw [hsplit, List.erase_append_right _ hnot', List.erase_cons_head, List.map_append, List.map_append,
      List.erase_append_right _ hnot, List.map_cons, List.erase_cons_head]

theorem filter_standing_withdraw (hl : (made h)[i]? = some l) (hpl : p l = false) :
    (standing (h ++ [withdraw i])).filter p = ((standing h).erase l).filter p := by
  have hnot : (l, i) ∉ (inForce h).filter (p ∘ (·.1)) := by simp [hpl]
  have hnot' : l ∉ ((inForce h).map (·.1)).filter p := by simp [hpl]
  rw [standing, inForce_withdraw hl, standing, ← List.erase_filter, List.erase_of_not_mem hnot',
    List.filter_map, List.filter_map, ← List.erase_filter, List.erase_of_not_mem hnot]

/-- In turn, those on the list are those in force, in the order of their registration. -/
theorem listed_eq_standing (hp : Possible h) (ht : InTurn p h) : (listed h).filter p = (standing h).filter p := by
  induction hp with
  | nil => rfl
  | @register h l hp ih =>
    rw [listed_register, standing, inForce_register hp, List.map_append, List.filter_append, List.filter_append,
      ih ht.of_append]
    rfl
  | @withdraw h i l hp hl ih =>
    have hsame : (standing (h ++ [withdraw i])).filter p = ((standing h).erase l).filter p := by
      cases hpl : p l with
      | false => exact filter_standing_withdraw hl hpl
      | true => rw [standing_withdraw (ht.last hl hpl) hl]
    rw [listed_withdraw hl, hsame, ← List.erase_filter, ← List.erase_filter, ih ht.of_append]

example : let a := Listener.named "a"; let b := Listener.named "b"
    let h := [register a, register b, register a, withdraw 2]
    standing h = [a, b] ∧ listed h = [b, a] := by decide

theorem inTurn_of_once (honce : ((made h).filter p).Nodup) : InTurn p h := by
  rintro before i after l rfl hl hpl ⟨x,j⟩ hfind
  obtain rfl : x = l := by simpa using List.find?_some hfind
  have hj := made_of_mem_inForce (List.mem_of_find?_eq_some hfind)
  have hpre : ((made before).filter p).Sublist ((made (before ++ withdraw i :: after)).filter p) := by
    rw [made_append]
    exact (List.sublist_append_left _ _).filter p
  have hpair := List.pairwise_filter.mp (honce.sublist hpre)
  obtain ⟨hi,hil⟩ := List.getElem?_eq_some_iff.mp hl
  obtain ⟨hj,hjl⟩ := List.getElem?_eq_some_iff.mp hj
  rw [List.pairwise_iff_getElem] at hpair
  obtain hlt | heq | hgt := Nat.lt_trichotomy i j
  · exact absurd (hil.trans hjl.symm) (hpair i j hi hj hlt (hil ▸ hpl) (hjl ▸ hpl))
  · exact heq.symm
  · exact absurd (hjl.trans hil.symm) (hpair j i hj hi hgt (hjl ▸ hpl) (hil ▸ hpl))

theorem count_standing (h : List Request) (l : Listener) :
    (standing h).count l = (inForce h).countP fun r => r.1 == l := by
  rw [standing, List.count, List.countP_map]
  rfl

theorem count_standing_register (hp : Possible h) (l x : Listener) :
    (standing (h ++ [register x])).count l = (standing h).count l + [x].count l := by
  rw [standing, inForce_register hp, List.map_append, List.count_append]
  rfl

theorem count_standing_withdraw {x : Listener} (hl : (made h)[i]? = some x) (l : Listener) :
    (standing (h ++ [withdraw i])).count l =
      (standing h).count l - if x = l ∧ withdraw i ∉ h then 1 else 0 := by
  rw [count_standing, inForce_withdraw hl, List.countP_erase, ← count_standing]
  congr 1
  simp [mem_inForce hl, and_comm]

theorem count_listed_le (hp : Possible h) (l : Listener) : (listed h).count l ≤ (standing h).count l := by
  induction hp with
  | nil => exact Nat.le_refl 0
  | @register h x hp ih =>
    rw [listed_register, count_standing_register hp, List.count_append]
    exact Nat.add_le_add_right ih _
  | @withdraw h i x hp hl ih =>
    rw [listed_withdraw hl, count_standing_withdraw hl, List.count_erase]
    by_cases hx : x = l
    · subst hx
      simp only [beq_self_eq_true, if_true, true_and]
      split <;> omega
    · simp [hx, ih]

theorem mem_standing_of_listed (hp : Possible h) (hl : l ∈ listed h) : l ∈ standing h :=
  List.count_pos_iff.mp (Nat.lt_of_lt_of_le (List.count_pos_iff.mpr hl) (count_listed_le hp l))

theorem mem_made_of_standing (hl : l ∈ standing h) : l ∈ made h := by
  obtain ⟨⟨x,i⟩,hmem,rfl⟩ := List.mem_map.mp hl
  exact List.mem_of_getElem? (made_of_mem_inForce hmem)

/-- Unless a registration of a listener is withdrawn twice, it is on the list as often as it is in force. -/
theorem count_listed_eq (hp : Possible h) (l : Listener)
    (honce : ∀ i, (made h)[i]? = some l → h.count (withdraw i) ≤ 1) :
    (listed h).count l = (standing h).count l := by
  induction hp with
  | nil => rfl
  | @register h x hp ih =>
    rw [listed_register, count_standing_register hp, List.count_append, ih]
    intro i hi
    have hcount := honce i (by rw [made_append]; exact List.getElem?_append_left (List.getElem?_eq_some_iff.mp hi).1 ▸ hi)
    rw [List.count_append] at hcount
    omega
  | @withdraw h i x hp hl ih =>
    have hmade : made (h ++ [Request.withdraw i]) = made h := by simp
    rw [hmade] at honce
    have ih := ih fun j hj => Nat.le_trans (by simp [List.count_append]) (honce j hj)
    rw [listed_withdraw hl, count_standing_withdraw hl, List.count_erase, ih]
    by_cases hx : x = l
    · subst hx
      have hfirst : Request.withdraw i ∉ h := by
        have hcount := honce i hl
        rw [List.count_append, List.count_singleton_self] at hcount
        exact List.count_eq_zero.mp (by omega)
      simp [hfirst]
    · simp [hx]

end Request
end Countdown
