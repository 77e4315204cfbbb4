import Countdown.Proofs.Json.RoundTrip
import Countdown.Proofs.Timer.Guard
set_option autoImplicit false

namespace Countdown.Snapshot

theorem check_eq {s s' : Snapshot} (h : s.check = .ok s') :
    s' = s ∧ s.negativeFields = [] ∧ contradiction? s.fields = none := by
  unfold check at h
  split at h
  · contradiction
  · rename_i hneg
    split at h
    · contradiction
    · rename_i hnone
      cases h
      exact ⟨rfl,by simpa using hneg,hnone⟩

theorem ofJson_checked {v : Json} {s : Snapshot} (h : ofJson v = .ok s) :
    s.negativeFields = [] ∧ contradiction? s.fields = none := by
  unfold ofJson at h
  split at h
  · dsimp only at h
    split at h
    · obtain ⟨rfl,hs⟩ := check_eq h
      exact hs
    · contradiction
  · contradiction

theorem mem_readItems {vs : List Json} {i : Nat} {s : Snapshot} (h : s ∈ (readItems i vs).1) :
    ∃ v ∈ vs, ofJson v = .ok s := by
  induction vs generalizing i with
  | nil => simp [readItems] at h
  | cons v vs ih =>
    simp only [readItems] at h
    split at h
    · rename_i s' hv
      obtain rfl | h := List.mem_cons.mp h
      · exact ⟨v,by simp,hv⟩
      · obtain ⟨u,hu,hs⟩ := ih h
        exact ⟨u,by simp [hu],hs⟩
    · obtain ⟨u,hu,hs⟩ := ih h
      exact ⟨u,by simp [hu],hs⟩

theorem readAll_checked {text : String} {ss : List Snapshot} {logs : List Log}
    (h : readAll text = .ok (ss,logs)) {s : Snapshot} (hs : s ∈ ss) :
    s.negativeFields = [] ∧ contradiction? s.fields = none := by
  unfold readAll at h
  split at h
  · contradiction
  · cases h
    simp at hs
  · rename_i items _
    simp only [Except.ok.injEq] at h
    have hss : ss = (readItems 0 items).1 := by rw [h]
    obtain ⟨v,-,hv⟩ := mem_readItems (hss ▸ hs)
    exact ofJson_checked hv
  · cases h
    simp at hs

/-- Fields without a contradiction can be set. -/
theorem consistent_ofFields {f : TimerFields} (h : contradiction? f = none) :
    (Timer.GivenFields.ofFields f).Consistent := by
  unfold contradiction? at h
  split at h
  · contradiction
  · rename_i h₁
    split at h
    · contradiction
    · rename_i h₂
      refine ⟨fun hr => ⟨fun hs => h₁ ⟨hs,Or.inl hr⟩, ?_⟩, fun hp hs => h₁ ⟨hs,Or.inr hp⟩, ⟨_,rfl⟩⟩
      by_cases hp : f.stoppedAt = none
      · exact hp
      · exact absurd ⟨hr,hp⟩ h₂

end Countdown.Snapshot

namespace Countdown

namespace Json

theorem isPlain_ofOption {α : Type} {f : α → Json} (h : ∀ a, isPlain (f a) = true) (x : Option α) :
    isPlain (ofOption f x) = true := by
  cases x with
  | none => rfl
  | some a => exact h a

theorem arePlain_map {α : Type} {f : α → Json} (h : ∀ a, isPlain (f a) = true) (xs : List α) :
    arePlain (xs.map f) = true := by
  induction xs with
  | nil => rfl
  | cons x xs ih =>
    rw [List.map_cons, arePlain, h x, ih]
    rfl

theorem areWritable_map {α : Type} {f : α → Json} {xs : List α} (h : ∀ x ∈ xs, isWritable (f x) = true) :
    areWritable (xs.map f) = true := by
  induction xs with
  | nil => rfl
  | cons x xs ih =>
    rw [List.map_cons, areWritable, h x List.mem_cons_self, ih fun y hy => h y (List.mem_cons_of_mem _ hy)]
    rfl

theorem isWritable_ofOption {x : Option Int} :
    isWritable (ofOption .int x) = true ↔ ∀ n ∈ x.toList, Text.isShort n = true := by
  cases x with
  | none => simp [ofOption, isWritable]
  | some n => simp [ofOption, isWritable]

end Json

namespace Snapshot
open Validation

variable {s : Snapshot} {ss : List Snapshot}

def numbers (s : Snapshot) : List Int :=
  [s.fields.duration,s.fields.accumulated,s.consumed] ++ s.fields.startedAt.toList ++
    s.fields.resumedAt.toList ++ s.fields.stoppedAt.toList

/-- No whole number of a snapshot has more digits than a reader takes. -/
def Short (s : Snapshot) : Prop := ∀ n ∈ s.numbers, n.natAbs < Nat.pow 10 Text.maxDigits

theorem isWritable_toJson : s.toJson.isWritable = true ↔ s.Short := by
  have hshort : s.Short ↔ ∀ n ∈ s.numbers, Text.isShort n = true := by
    simp only [Short, Text.isShort, decide_eq_true_eq]
  rw [hshort]
  simp only [toJson, Json.isWritable, Json.haveWritable, Bool.and_eq_true, Json.isWritable_ofOption, numbers,
    List.forall_mem_append, List.forall_mem_cons]
  constructor
  · rintro ⟨hduration,hstarted,hresumed,hstopped,haccumulated,-,-,hconsumed,-⟩
    exact ⟨⟨⟨⟨hduration,haccumulated,hconsumed,by simp⟩,hstarted⟩,hresumed⟩,hstopped⟩
  · rintro ⟨⟨⟨⟨hduration,haccumulated,hconsumed,-⟩,hstarted⟩,hresumed⟩,hstopped⟩
    exact ⟨hduration,hstarted,hresumed,hstopped,haccumulated,trivial,trivial,hconsumed,trivial⟩

theorem short_of_lt (h : ∀ n ∈ s.numbers, n.natAbs < Nat.pow 10 6) : s.Short := by
  have hpow : ∀ d, 6 ≤ d → Nat.pow 10 6 ≤ Nat.pow 10 d := fun d hd => Nat.pow_le_pow_right (by decide) hd
  exact fun n hn => Nat.lt_of_lt_of_le (h n hn) (hpow _ (by decide))

theorem short_iff : s.Short ↔ ∀ n ∈ s.numbers, (Text.digitsOf n.natAbs).length ≤ Text.maxDigits :=
  forall₂_congr fun _ _ => (Text.length_digitsOf_le_iff (by decide)).symm

theorem isPlain_toJson (s : Snapshot) : Json.isPlain s.toJson = true := by
  have hint : ∀ x : Option Int, Json.isPlain (Json.ofOption .int x) = true := Json.isPlain_ofOption fun _ => rfl
  simp [toJson, Json.isPlain, Json.havePlain, hint]

theorem nonNegative?_int {n : Int} (h : 0 ≤ n) : nonNegative? (.int n) = some n := by
  simp [nonNegative?, int?, h]

theorem nullable?_int (x : Option Int) : nullable? int? (Json.ofOption .int x) = some x := by
  cases x <;> rfl

theorem nonneg_of_negativeFields (h : s.negativeFields = []) :
    0 ≤ s.fields.accumulated ∧ 0 ≤ s.consumed ∧ 0 ≤ s.fields.duration := by
  have hif : ∀ {n : Int} {name : String}, (if n < 0 then [name] else []) = [] → 0 ≤ n := by
    intro n name h
    split at h
    · contradiction
    · omega
  simp only [negativeFields, List.append_eq_nil_iff] at h
  exact ⟨hif h.1.1,hif h.1.2,hif h.2⟩

theorem ofJson_toJson (h : s.check = .ok s) : ofJson s.toJson = .ok s := by
  obtain ⟨-,hneg,-⟩ := check_eq h
  obtain ⟨haccumulated,hconsumed,hduration⟩ := nonneg_of_negativeFields hneg
  have hself : (⟨⟨s.fields.duration,s.fields.startedAt,s.fields.resumedAt,s.fields.stoppedAt,
      s.fields.accumulated,s.fields.finished⟩,s.input,s.consumed⟩ : Snapshot) = s := rfl
  simp [ofJson, toJson, required, Validation.optional, Json.field?, nonNegative?_int, nullable?_int, bool?, str?,
    haccumulated, hconsumed, hduration, hself, h]

theorem readItems_toJson (h : ∀ s ∈ ss, s.check = .ok s) (i : Nat) :
    readItems i (ss.map toJson) = (ss,[]) := by
  induction ss generalizing i with
  | nil => rfl
  | cons s ss ih =>
    rw [List.map_cons, readItems, ofJson_toJson (h s List.mem_cons_self),
      ih fun x hx => h x (List.mem_cons_of_mem _ hx)]

/-- Nothing is lost in the text form. -/
theorem readAll_text (h : ∀ s ∈ ss, s.check = .ok s) (hw : ∀ s ∈ ss, s.toJson.isWritable = true) :
    readAll (writeAll ss) = .ok (ss,[]) := by
  have hplain : Json.isPlain (.arr (ss.map toJson)) = true := Json.arePlain_map isPlain_toJson ss
  have hwritable : Json.isWritable (.arr (ss.map toJson)) = true := Json.areWritable_map hw
  rw [readAll, writeAll, Json.read_text hplain hwritable]
  dsimp only
  rw [readItems_toJson h]

/-- Snapshots that can be saved are read back from their text as they were, whatever the characters of
their inputs, and nothing is logged. Their whole numbers may have as many digits as a reader takes. -/
theorem readAll_writeAll (h : ∀ s ∈ ss, s.check = .ok s)
    (hn : ∀ s ∈ ss, ∀ n ∈ s.numbers, (Text.digitsOf n.natAbs).length ≤ Text.maxDigits) :
    readAll (writeAll ss) = .ok (ss,[]) :=
  readAll_text h fun s hs => isWritable_toJson.mpr (short_iff.mpr (hn s hs))

/-- A duration of as many digits as there may be, and an input with a quote, a backslash, a control
character and one above U+FFFF. -/
theorem readAll_writeAll_escaped :
    let longest : Nat := Nat.pow 10 Text.maxDigits - 1
    let ss : List Snapshot := [⟨⟨longest,some (-3),none,some 7,4,true⟩,"5m \"\\\x00é😀",2⟩,
      ⟨⟨5,some 10,some 12,none,0,false⟩,"",0⟩]
    (∀ s ∈ ss, s.check = .ok s) ∧
      (∀ s ∈ ss, ∀ n ∈ s.numbers, (Text.digitsOf n.natAbs).length ≤ Text.maxDigits) ∧
      readAll (writeAll ss) = .ok (ss,[]) := by
  intro longest ss
  have hpow : ∀ d, 2 ≤ d → Nat.pow 10 2 ≤ Nat.pow 10 d := fun d hd => Nat.pow_le_pow_right (by decide) hd
  have hbound : 100 ≤ Nat.pow 10 Text.maxDigits := hpow _ (by decide)
  have hcheck : ∀ s ∈ ss, s.check = .ok s := by
    clear_value longest
    simp [ss, check, negativeFields, contradiction?, Int.not_lt.mpr (Int.natCast_nonneg longest)]
  have hshort : ∀ s ∈ ss, s.Short := by
    unfold Short
    simp only [ss, longest]
    generalize Nat.pow 10 Text.maxDigits = bound at hbound ⊢
    simp [numbers, or_imp, forall_and]
    omega
  have hdigits := fun s hs => short_iff.mp (hshort s hs)
  exact ⟨hcheck,hdigits,readAll_writeAll hcheck hdigits⟩

end Snapshot
end Countdown
