import Countdown.Proofs.Duration.Written
import Countdown.Proofs.Result
import Countdown.Settings.Basic
set_option autoImplicit false

namespace Countdown.Duration
open Number

variable {c : Char} {ns : List (Option Numeral)} {ts : List Token} {x : Decimal}

/-- The text of a token means something. -/
structure Token.Valid (t : Token) : Prop where
  number : t.kind = .number → ∃ x, Decimal.read? t.text = some x
  word : t.kind = .letter → ∃ u, unitOf? t.text = some u

theorem readNumber_eq_ok_iff {t : List Char} {x : Decimal} :
    readNumber t = .ok x ↔ Decimal.read? t = some x := by
  unfold readNumber
  cases Decimal.read? t <;> simp

theorem notation?_eq_ok_iff {seen form : Option Kind} : notation? seen ts = .ok form ↔
    (∀ t ∈ ts, t.Valid ∧ (t.kind = .number ∨ form = some t.kind)) ∧
    (form = seen ∨ seen = none ∧ ∃ t ∈ ts, t.kind ≠ .number ∧ form = some t.kind) := by
  induction ts generalizing seen with
  | nil => simp [notation?, eq_comm]
  | cons t ts ih =>
    unfold notation?
    by_cases hnumber : t.kind = .number
    · cases hread : readNumber t.text with
      | error e =>
        have hinvalid : ¬ t.Valid := by
          intro hvalid
          obtain ⟨x,hx⟩ := hvalid.number hnumber
          rw [readNumber_eq_ok_iff.mpr hx] at hread
          contradiction
        simp [hnumber, hinvalid, bind, Except.bind]
      | ok x =>
        have hvalid : t.Valid := ⟨fun _ => ⟨x,readNumber_eq_ok_iff.mp hread⟩,fun h => by simp [hnumber] at h⟩
        simp [hnumber, hvalid, bind, Except.bind, ih]
    · by_cases hunit : t.kind = .letter ∧ unitOf? t.text = none
      · have hinvalid : ¬ t.Valid := by
          intro hvalid
          obtain ⟨u,hu⟩ := hvalid.word hunit.1
          rw [hunit.2] at hu
          contradiction
        simp [hunit, hinvalid]
      · have hvalid : t.Valid := by
          refine ⟨fun h => absurd h hnumber,fun h => ?_⟩
          exact Option.ne_none_iff_exists'.mp fun hu => hunit ⟨h,hu⟩
        rw [if_neg hnumber, if_neg hunit]
        have hhead : (t.Valid ∧ (t.kind = .number ∨ form = some t.kind)) ↔ form = some t.kind := by
          simp [hvalid, hnumber]
        rw [List.forall_mem_cons, hhead]
        by_cases hseen : seen = none ∨ seen = some t.kind
        · rw [if_pos hseen, ih]
          constructor
          · rintro ⟨hall,hform | ⟨hnone,-⟩⟩
            · refine ⟨⟨hform,hall⟩,?_⟩
              obtain rfl | rfl := hseen
              · exact Or.inr ⟨rfl,t,List.mem_cons_self,hnumber,hform⟩
              · exact Or.inl hform
            · contradiction
          · rintro ⟨⟨hform,hall⟩,-⟩
            exact ⟨hall,Or.inl hform⟩
        · rw [if_neg hseen]
          constructor
          · intro h
            contradiction
          · rintro ⟨⟨hform,-⟩,rfl | ⟨hnone,-⟩⟩
            · exact absurd (Or.inr hform) hseen
            · exact absurd (Or.inl hnone) hseen

theorem validate_of_notation? {form : Option Kind} (h : notation? none ts = .ok form) : validate ts =
    if maxSeparators < separatorCount ts then .error (.tooManySeparators (separatorCount ts))
    else if form = none ∧ ts.length ≠ 1 then .error .notOneNumber
    else .ok form := by
  unfold validate
  rw [h]
  by_cases hmany : maxSeparators < separatorCount ts
  · simp [bind, Except.bind, throw, throwThe, MonadExceptOf.throw, hmany]
  · by_cases hone : form = none ∧ ts.length ≠ 1
    · simp [bind, Except.bind, throw, throwThe, MonadExceptOf.throw, hmany, hone]
    · simp [bind, Except.bind, pure, Except.pure, hmany, hone]

theorem validate_eq_ok_iff {form : Option Kind} : validate ts = .ok form ↔
    notation? none ts = .ok form ∧ separatorCount ts ≤ maxSeparators ∧ (form = none → ts.length = 1) := by
  cases hform : notation? none ts with
  | error e =>
    have hvalidate : validate ts = .error e := by
      unfold validate
      rw [hform]
      rfl
    simp [hvalidate]
  | ok f =>
    rw [validate_of_notation? hform]
    split
    · rename_i hmany
      simp [Nat.not_le.mpr hmany]
    · rename_i hmany
      split
      · rename_i hone
        constructor
        · intro h
          contradiction
        · rintro ⟨h,-,hlength⟩
          cases h
          exact absurd (hlength hone.1) hone.2
      · rename_i hone
        constructor
        · intro h
          cases h
          exact ⟨rfl,Nat.not_lt.mp hmany,fun hnone => Classical.byContradiction fun hlength => hone ⟨hnone,hlength⟩⟩
        · exact And.left

theorem addUnits_eq {x y z n : Decimal} {u : TimeUnit} (hproduct : n.product u.size = y)
    (hy : y.bounded = some y) (hsum : x.sum y = z) (hz : z.bounded = some z) : addUnits x n u = some z := by
  rw [addUnits, Decimal.scale, hproduct, hy, Option.bind_some, Decimal.add, hsum, hz]

theorem addTerms_cons (x : Decimal) (t : Numeral × TimeUnit) (ts : List (Numeral × TimeUnit)) :
    addTerms x (t :: ts) = (addUnits x t.1.value t.2).bind fun y => addTerms y ts := rfl

theorem addTerms_append (x : Decimal) (ts us : List (Numeral × TimeUnit)) :
    addTerms x (ts ++ us) = (addTerms x ts).bind fun y => addTerms y us := by
  induction ts generalizing x with
  | nil => rfl
  | cons t ts ih => simp [addTerms, Option.bind_assoc, ih]

theorem unitOf?_word (m : Measure) : unitOf? m.word = some m.unit := ofSpelling?_eq_some_iff.mpr m.spelled

theorem readNumber_chars (n : Numeral) : readNumber n.chars = .ok n.value :=
  readNumber_eq_ok_iff.mpr (Decimal.read?_chars n)

namespace Progress
variable {p : Progress} {left : Nat} {u : TimeUnit}

theorem ok_bind (p : Progress) : (Except.ok p).bind finish = p.finish := rfl

theorem read_number (hp : p.pending = none) (n : Option Numeral) :
    p.read left (n.toList.map numberToken ++ ts) =
      Progress.read { p with pending := n.map Numeral.value } left ts := by
  obtain ⟨total,_,last⟩ := p
  cases hp
  cases n with
  | none => rfl
  | some n => simp [Progress.read, numberToken, readNumber_chars, bind, Except.bind]

theorem read_more (hp : p.pending = none) (n : Option Numeral) :
    p.read left (n.toList.map numberToken) = .ok { p with pending := n.map Numeral.value } := by
  rw [← List.append_nil (n.toList.map numberToken), read_number hp]
  rfl

theorem computed_bind (x : Option Decimal) (f : Decimal → Option Decimal) :
    computed (x.bind f) = (computed x).bind fun y => computed (f y) := by
  cases x <;> rfl

theorem addTerms_number (x : Decimal) (n : Numeral) (u : TimeUnit) :
    addTerms x [(n,u)] = addUnits x n.value u := by
  rw [addTerms_cons]
  exact Option.bind_fun_some _

theorem close_number (p : Progress) (n : Option Numeral) (u : TimeUnit) :
    Progress.close { p with pending := n.map Numeral.value } u =
      (computed (addTerms p.total (n.toList.map fun n => (n,u)))).map fun x => ⟨x,none,some u⟩ := by
  cases n with
  | none => rfl
  | some n => simp [close, addTerms_number]

theorem finish_number (hu : p.last.bind TimeUnit.smaller = some u) (n : Option Numeral) :
    Progress.finish { p with pending := n.map Numeral.value } =
      computed (addTerms p.total (n.toList.map fun n => (n,u))) := by
  cases n with
  | none => rfl
  | some n => simp [finish, hu, addTerms_number]

theorem separatorUnit?_eq (h : 1 ≤ left) (hmax : left ≤ maxSeparators) :
    separatorUnit? left = some (clockUnit left) := by
  unfold maxSeparators at hmax
  obtain rfl | rfl | rfl : left = 1 ∨ left = 2 ∨ left = 3 := by omega
  all_goals rfl

theorem read_separator (h : 1 ≤ left) (hmax : left ≤ maxSeparators) :
    p.read left (separatorToken c :: ts) =
      (p.close (clockUnit left)).bind fun q => q.read (left - 1) ts := by
  simp [Progress.read, separatorToken, separatorUnit?_eq h hmax, bind]

theorem read_clock (hp : p.pending = none) {n : Option Numeral}
    (hmax : ns.length ≤ maxSeparators) (hlast : ns = [] → p.last = some .m) :
    (p.read ns.length (clockTokens c (n :: ns))).bind finish =
      computed (addTerms p.total (clockTerms (n :: ns))) := by
  induction ns generalizing p n with
  | nil =>
    have hunit : p.last.bind TimeUnit.smaller = some .s := by rw [hlast rfl]; rfl
    change (p.read 0 (n.toList.map numberToken)).bind finish = _
    rw [read_more hp, ok_bind, finish_number hunit, clockTerms, clockTerms, List.append_nil]
    rfl
  | cons n' ns ih =>
    rw [clockTokens_cons n (by simp), read_number hp, read_separator (by simp) hmax, close_number,
      clockTerms, addTerms_append, computed_bind]
    cases addTerms p.total (n.toList.map fun n => (n,clockUnit (n' :: ns).length)) with
    | none => rfl
    | some x =>
      exact ih (p := ⟨x,none,some (clockUnit (n' :: ns).length)⟩) rfl (by simp at hmax; omega) (by rintro rfl; rfl)

theorem read_measures (hp : p.pending = none) (ms : List Measure) :
    p.read left (ms.flatMap Measure.tokens ++ ts) = (computed (addTerms p.total (ms.map Measure.term))).bind
      fun x => Progress.read ⟨x,none,(ms.getLast?.map Measure.unit).or p.last⟩ left ts := by
  induction ms generalizing p with
  | nil =>
    obtain ⟨total,_,last⟩ := p
    cases hp
    rfl
  | cons m ms ih =>
    have hfirst : p.read left ((m :: ms).flatMap Measure.tokens ++ ts) =
        (computed (addUnits p.total m.number.value m.unit)).bind fun x =>
          Progress.read ⟨x,none,some m.unit⟩ left (ms.flatMap Measure.tokens ++ ts) := by
      simp only [Progress.read, Measure.tokens, numberToken, readNumber_chars, unitOf?_word, bind, Except.bind,
        close, List.flatMap_cons, List.cons_append, List.nil_append]
      cases addUnits p.total m.number.value m.unit <;> rfl
    rw [hfirst, List.map_cons, addTerms_cons, computed_bind, Measure.term]
    cases addUnits p.total m.number.value m.unit with
    | none => rfl
    | some x =>
      refine (ih rfl).trans ?_
      cases ms <;> simp [List.getLast?_cons] <;> rfl

end Progress

theorem valid_number (n : Numeral) : (numberToken n).Valid :=
  ⟨fun _ => ⟨n.value,Decimal.read?_chars n⟩,by simp [numberToken]⟩

theorem valid_separator (c : Char) : (separatorToken c).Valid :=
  ⟨by simp [separatorToken],by simp [separatorToken]⟩

theorem mem_clockTokens {t : Token} (h : t ∈ clockTokens c ns) :
    (∃ n, t = numberToken n) ∨ t = separatorToken c := by
  have hnumber : ∀ n : Option Numeral, t ∈ n.toList.map numberToken → ∃ n, t = numberToken n := by
    intro n hn
    obtain ⟨m,-,rfl⟩ := List.mem_map.mp hn
    exact ⟨m,rfl⟩
  induction ns with
  | nil => contradiction
  | cons n ns ih =>
    cases ns with
    | nil => exact Or.inl (hnumber n h)
    | cons n' ns =>
      rw [clockTokens_cons n (by simp)] at h
      obtain h | h := List.mem_append.mp h
      · exact Or.inl (hnumber n h)
      · obtain h | h := List.mem_cons.mp h
        · exact Or.inr h
        · exact ih h

theorem separatorCount_clockTokens (n : Option Numeral) (ns : List (Option Numeral)) :
    separatorCount (clockTokens c (n :: ns)) = ns.length := by
  have hnumber : ∀ n : Option Numeral, separatorCount (n.toList.map numberToken) = 0 := by
    intro n
    cases n <;> simp [separatorCount, numberToken]
  induction ns generalizing n with
  | nil => exact hnumber n
  | cons n' ns ih =>
    have hrest := ih n'
    have hn := hnumber n
    unfold separatorCount at hrest hn ⊢
    rw [clockTokens_cons n (by simp), List.countP_append, hn, List.countP_cons, hrest]
    simp [separatorToken]

theorem mem_measures {t : Token} {ms : List Measure} {more : Option Numeral}
    (h : t ∈ ms.flatMap Measure.tokens ++ more.toList.map numberToken) :
    (∃ n, t = numberToken n) ∨ ∃ m : Measure, t = ⟨.letter,m.word⟩ := by
  obtain h | h := List.mem_append.mp h
  · obtain ⟨m,-,hm⟩ := List.mem_flatMap.mp h
    obtain rfl | hm := List.mem_cons.mp hm
    · exact Or.inl ⟨_,rfl⟩
    · exact Or.inr ⟨m,List.mem_singleton.mp hm⟩
  · obtain ⟨n,-,rfl⟩ := List.mem_map.mp h
    exact Or.inl ⟨n,rfl⟩

theorem total_of_none {t : Token} (h : validate [t] = .ok none) (hx : readNumber t.text = .ok x) :
    Duration.total [t] = computed (x.scale TimeUnit.m.size) := by
  unfold Duration.total
  rw [h]
  change (readNumber t.text).bind _ = _
  rw [hx]
  rfl

theorem total_of_some {k : Kind} (h : validate ts = .ok (some k)) :
    Duration.total ts = (Progress.read {} (separatorCount ts) ts).bind Progress.finish := by
  unfold Duration.total
  rw [h]
  rfl

theorem validate_of_kind {k : Kind} (hk : k ≠ .number) (hmem : ∃ t ∈ ts, t.kind = k)
    (hall : ∀ t ∈ ts, t.Valid ∧ (t.kind = .number ∨ t.kind = k))
    (hcount : separatorCount ts ≤ maxSeparators) : validate ts = .ok (some k) := by
  refine validate_eq_ok_iff.mpr ⟨notation?_eq_ok_iff.mpr ⟨fun t ht => ?_,?_⟩,hcount,by simp⟩
  · exact ⟨(hall t ht).1,(hall t ht).2.imp_right fun h => by rw [h]⟩
  · obtain ⟨t,ht,rfl⟩ := hmem
    exact Or.inr ⟨rfl,t,ht,hk,rfl⟩

theorem total_measures (before : List Measure) (last : Measure) (more : Option Numeral) :
    Duration.total ((before ++ [last]).flatMap Measure.tokens ++ more.toList.map numberToken) =
      (computed (addTerms .zero ((before ++ [last]).map Measure.term))).bind
        fun x => Progress.finish ⟨x,more.map Numeral.value,some last.unit⟩ := by
  have hall : ∀ t ∈ (before ++ [last]).flatMap Measure.tokens ++ more.toList.map numberToken,
      t.Valid ∧ (t.kind = .number ∨ t.kind = .letter) := by
    intro t ht
    obtain ⟨n,rfl⟩ | ⟨m,rfl⟩ := mem_measures ht
    · exact ⟨valid_number n,Or.inl rfl⟩
    · exact ⟨⟨by simp,fun _ => ⟨m.unit,unitOf?_word m⟩⟩,Or.inr rfl⟩
  have hcount : separatorCount ((before ++ [last]).flatMap Measure.tokens ++ more.toList.map numberToken) = 0 := by
    refine List.countP_eq_zero.mpr fun t ht => ?_
    obtain h | h := (hall t ht).2 <;> simp [h]
  have hform := validate_of_kind (k := .letter) (by decide)
    ⟨⟨.letter,last.word⟩,by simp [Measure.tokens],rfl⟩ hall (by rw [hcount]; exact Nat.zero_le _)
  rw [total_of_some hform, hcount, Progress.read_measures rfl]
  cases addTerms _ ((before ++ [last]).map Measure.term) with
  | none => rfl
  | some x =>
    change (Progress.read _ 0 (more.toList.map numberToken)).bind Progress.finish = _
    rw [Progress.read_more rfl]
    simp [computed, Except.bind]

/-- The tokens of a writing are validated, and what is read of them is its total. -/
theorem Written.total_tokens (w : Written) (c : Char) : Duration.total (w.tokens c) = computed w.total := by
  cases w with
  | bare n =>
    have hform : validate [numberToken n] = .ok none := by
      refine validate_eq_ok_iff.mpr ⟨notation?_eq_ok_iff.mpr ⟨?_,Or.inl rfl⟩,?_,fun _ => rfl⟩
      · intro t ht
        rw [List.mem_singleton.mp ht]
        exact ⟨valid_number n,Or.inl rfl⟩
      · simp [separatorCount, numberToken, maxSeparators]
    exact total_of_none hform (readNumber_chars n)
  | clock ns several few =>
    obtain ⟨n,n',ns,rfl⟩ : ∃ n n' ns', ns = n :: n' :: ns' := by
      rcases ns with _ | ⟨n,_ | ⟨n',ns⟩⟩
      · simp at several
      · simp at several
      · exact ⟨n,n',ns,rfl⟩
    have hcount : separatorCount (clockTokens c (n :: n' :: ns)) = (n' :: ns).length :=
      separatorCount_clockTokens n (n' :: ns)
    have hmax : (n' :: ns).length ≤ maxSeparators := by simpa using few
    have hform : validate (clockTokens c (n :: n' :: ns)) = .ok (some .separator) := by
      refine validate_of_kind (by decide) ⟨separatorToken c,?_,rfl⟩ ?_ (by omega)
      · simp [clockTokens_cons]
      · intro t ht
        obtain ⟨m,rfl⟩ | rfl := mem_clockTokens ht
        · exact ⟨valid_number m,Or.inl rfl⟩
        · exact ⟨valid_separator c,Or.inr rfl⟩
    rw [tokens, total_of_some hform, hcount]
    exact Progress.read_clock rfl hmax (by simp)
  | measures before last more smaller =>
    rw [tokens, total_measures, total, addTerms_append, Progress.computed_bind]
    cases addTerms .zero ((before ++ [last]).map Measure.term) with
    | none => rfl
    | some x =>
      cases more with
      | none => rfl
      | some n =>
        obtain ⟨u,hu⟩ : ∃ u, last.unit.smaller = some u := by
          have hunit := smaller (by simp)
          cases hlast : last.unit <;> simp_all [TimeUnit.smaller]
        change Progress.finish ⟨x,(some n).map Numeral.value,some last.unit⟩ = _
        rw [Progress.finish_number (p := ⟨x,none,some last.unit⟩) hu, hu]
        rfl

theorem exists_number {t : Token} (hk : t.kind = .number) (ht : t.Valid) :
    ∃ n, t = numberToken n := by
  obtain ⟨x,hx⟩ := ht.number hk
  obtain ⟨n,hn,-⟩ := Decimal.read?_eq_some_iff.mp hx
  obtain ⟨kind,text⟩ := t
  cases hk
  exact ⟨n,by rw [numberToken, hn]⟩

theorem exists_word {t : Token} (hk : t.kind = .letter) (ht : t.Valid) (n : Numeral) :
    ∃ m : Measure, m.number = n ∧ t = ⟨.letter,m.word⟩ := by
  obtain ⟨u,hu⟩ := ht.word hk
  obtain ⟨kind,text⟩ := t
  cases hk
  exact ⟨⟨n,text,u,ofSpelling?_eq_some_iff.mp hu⟩,rfl,rfl⟩

theorem eq_separatorToken {t : Token} (hk : t.kind = .separator)
    (made : t.IsMade (String.ofList [c])) : t = separatorToken c := by
  obtain ⟨kind,text⟩ := t
  cases hk
  obtain ⟨d,rfl⟩ := List.length_eq_one_iff.mp (made.single rfl)
  have hd := kindOf?_eq_separator_iff.mp (made.kinds d List.mem_cons_self)
  rw [hd]
  rfl

theorem exists_clockTokens (h : Lexed (String.ofList [c]) ts)
    (hall : ∀ t ∈ ts, t.Valid ∧ (t.kind = .number ∨ t.kind = .separator)) :
    ∃ n ns, clockTokens c (n :: ns) = ts := by
  induction h with
  | nil => exact ⟨none,[],rfl⟩
  | @cons t ts made apart rest ih =>
    obtain ⟨hvalid,hk⟩ := hall t List.mem_cons_self
    obtain ⟨n',ns,rfl⟩ := ih fun u hu => hall u (List.mem_cons_of_mem _ hu)
    obtain hk | hk := hk
    · obtain ⟨n,rfl⟩ := exists_number hk hvalid
      refine ⟨some n,ns,?_⟩
      -- a number that follows at once would be part of this one
      cases n' with
      | none => cases ns <;> rfl
      | some n' =>
        have hnext : (clockTokens c (some n' :: ns)).head? = some (numberToken n') := by
          cases ns <;> rfl
        exact absurd (apart _ hnext rfl) (by simp [numberToken])
    · rw [eq_separatorToken hk made]
      exact ⟨none,n' :: ns,rfl⟩

theorem exists_measures :
    ∀ ts, Lexed (String.ofList [c]) ts → (∀ t ∈ ts, t.Valid ∧ (t.kind = .number ∨ t.kind = .letter)) →
      (∀ t, ts.head? = some t → t.kind = .number) →
      ∃ (ms : List Measure) (more : Option Numeral),
        ms.flatMap Measure.tokens ++ more.toList.map numberToken = ts
  | [], _, _, _ => ⟨[],none,rfl⟩
  | [t], _, hall, hfirst => by
    obtain ⟨n,rfl⟩ := exists_number (hfirst t rfl) (hall t List.mem_cons_self).1
    exact ⟨[],some n,rfl⟩
  | t :: u :: ts, hlexed, hall, hfirst => by
    obtain ⟨n,rfl⟩ := exists_number (hfirst t rfl) (hall t List.mem_cons_self).1
    obtain ⟨hvalid,hk⟩ := hall u (by simp)
    -- two numbers would be one, and so would be two words
    have hword : u.kind = .letter := by
      refine hk.resolve_left fun hk => ?_
      cases hlexed with
      | cons _ apart _ => exact absurd (apart u rfl hk.symm) (by simp [numberToken])
    obtain ⟨m,rfl,rfl⟩ := exists_word hword hvalid n
    have hnext : ∀ v, ts.head? = some v → v.kind = .number := by
      intro v hv
      refine (hall v (by simp [List.mem_of_mem_head? hv])).2.resolve_right fun hk => ?_
      cases hlexed.tail with
      | cons _ apart _ => exact absurd (apart v hv hk.symm) (by simp)
    obtain ⟨ms,more,rfl⟩ := exists_measures ts hlexed.tail.tail (fun v hv => hall v (by simp [hv])) hnext
    exact ⟨m :: ms,more,rfl⟩

theorem isInputFault_of_readNumber {t : List Char} {e : DurationError} (h : readNumber t = .error e) :
    e.isInputFault = true := by
  unfold readNumber at h
  split at h
  · contradiction
  · cases h
    rfl

theorem isInputFault_of_notation? {seen : Option Kind} {e : DurationError} (h : notation? seen ts = .error e) :
    e.isInputFault = true := by
  induction ts generalizing seen with
  | nil => contradiction
  | cons t ts ih =>
    unfold notation? at h
    split at h
    · obtain hnumber | ⟨x,-,hrest⟩ := bind_eq_error.mp h
      · exact isInputFault_of_readNumber hnumber
      · exact ih hrest
    · split at h
      · cases h
        rfl
      · split at h
        · exact ih h
        · cases h
          rfl

theorem isInputFault_of_validate {e : DurationError} (h : validate ts = .error e) : e.isInputFault = true := by
  cases hform : notation? none ts with
  | error e' =>
    have hvalidate : validate ts = .error e' := by
      unfold validate
      rw [hform]
      rfl
    rw [hvalidate] at h
    cases h
    exact isInputFault_of_notation? hform
  | ok form =>
    rw [validate_of_notation? hform] at h
    split at h
    · cases h
      rfl
    · split at h
      · cases h
        rfl
      · contradiction

/-- A writing whose last number is one of milliseconds, so that no number can stand behind it. -/
def Written.EndsInMs : Written → Prop
  | measures _ last none _ => last.unit = .ms
  | _ => False

/-- Numbers and words, of which a number is the first and not all are numbers, are numbers with units, and perhaps
one more number, which may have no unit. -/
theorem measures_cases (h : Lexed (String.ofList [c]) ts)
    (hall : ∀ t ∈ ts, t.Valid ∧ (t.kind = .number ∨ t.kind = .letter))
    (hfirst : ∀ t, ts.head? = some t → t.kind = .number) (hword : ∃ t ∈ ts, t.kind ≠ .number) :
    (∃ w : Written, w.tokens c = ts) ∨
    ∃ (w : Written) (n : Numeral), w.EndsInMs ∧ w.tokens c ++ [numberToken n] = ts := by
  obtain ⟨ms,more,rfl⟩ := exists_measures ts h hall hfirst
  cases hlast : ms.getLast? with
  | none =>
    rw [List.getLast?_eq_none_iff] at hlast
    subst hlast
    obtain ⟨t,ht,hnumber⟩ := hword
    obtain ⟨n,-,rfl⟩ := List.mem_map.mp ht
    exact absurd rfl hnumber
  | some last =>
    obtain ⟨before,rfl⟩ := List.getLast?_eq_some_iff.mp hlast
    cases more with
    | none => exact Or.inl ⟨.measures before last none (by simp),rfl⟩
    | some n =>
      by_cases hunit : last.unit = .ms
      · exact Or.inr ⟨.measures before last none (by simp),n,hunit,by simp [Written.tokens]⟩
      · exact Or.inl ⟨.measures before last (some n) fun _ => hunit,rfl⟩

/-- Tokens are those of a writing, or of one with a number behind it that has no unit, or they are at fault. -/
theorem tokens_cases (h : Lexed (String.ofList [c]) ts) (hne : ts ≠ []) :
    (∃ w : Written, w.tokens c = ts) ∨
    (∃ (w : Written) (n : Numeral), w.EndsInMs ∧ w.tokens c ++ [numberToken n] = ts) ∨
    ∃ e, Duration.total ts = .error e ∧ e.isInputFault = true := by
  cases hv : validate ts with
  | error e => exact Or.inr (Or.inr ⟨e,by unfold Duration.total; rw [hv]; rfl,isInputFault_of_validate hv⟩)
  | ok form =>
    obtain ⟨hform,hcount,hone⟩ := validate_eq_ok_iff.mp hv
    obtain ⟨hall,hmem⟩ := notation?_eq_ok_iff.mp hform
    cases form with
    | none =>
      obtain ⟨t,rfl⟩ := List.length_eq_one_iff.mp (hone rfl)
      obtain ⟨hvalid,hk⟩ := hall t List.mem_cons_self
      obtain ⟨n,rfl⟩ := exists_number (by simpa using hk) hvalid
      exact Or.inl ⟨.bare n,rfl⟩
    | some k =>
      have hall : ∀ t ∈ ts, t.Valid ∧ (t.kind = .number ∨ t.kind = k) :=
        fun t ht => ⟨(hall t ht).1,(hall t ht).2.imp_right fun h => (Option.some.inj h).symm⟩
      obtain ⟨t,ht,hnumber,hk⟩ : ∃ t ∈ ts, t.kind ≠ .number ∧ t.kind = k := by
        simpa [eq_comm] using hmem
      cases k with
      | number => exact absurd hk hnumber
      | separator =>
        obtain ⟨n,ns,rfl⟩ := exists_clockTokens h hall
        have hpos : 0 < separatorCount (clockTokens c (n :: ns)) :=
          List.countP_pos_iff.mpr ⟨t,ht,by simp [hk]⟩
        rw [separatorCount_clockTokens] at hcount hpos
        exact Or.inl ⟨.clock (n :: ns) (by simp; omega) (by simpa using hcount),rfl⟩
      | letter =>
        obtain ⟨u,us,rfl⟩ := List.exists_cons_of_ne_nil hne
        obtain ⟨hvalid,hk | hk⟩ := hall u List.mem_cons_self
        · have hcases := measures_cases h hall (by rintro v ⟨⟩; exact hk) ⟨t,ht,hnumber⟩
          exact hcases.imp_right Or.inl
        · refine Or.inr (Or.inr ⟨.unitWithoutNumber (String.ofList u.text),?_,rfl⟩)
          rw [total_of_some hv]
          simp [Progress.read, hk, Except.bind]

theorem Written.tokens_ne_nil (w : Written) (c : Char) : w.tokens c ≠ [] := by
  cases w with
  | bare n => simp [tokens]
  | clock ns several _ =>
    rcases ns with _ | ⟨n,_ | ⟨n',ns⟩⟩
    · simp at several
    · simp at several
    · simp [tokens, clockTokens_cons]
  | measures before last more _ => simp [tokens, Measure.tokens]

theorem read_tokens {separator : String} {text : List Char} (h : Lexed separator ts) (hne : ts ≠ [])
    (htext : render ts = Text.squeeze text) :
    read separator text = (Duration.total ts).bind fun x => limit x.toInt := by
  have hempty : ts.isEmpty = false := by simpa using hne
  unfold read
  rw [tokens_eq_ok_iff.mpr ⟨h,htext⟩]
  simp [bind, Except.bind, hempty]

theorem read_written (hc : isSeparator c = true) {w : Written} {text : List Char}
    (htext : w.chars c = Text.squeeze text) :
    read (String.ofList [c]) text = (computed w.total).bind fun x => limit x.toInt := by
  rw [read_tokens (w.lexed hc) (w.tokens_ne_nil c) (by rw [w.render_tokens, htext]), w.total_tokens]

theorem Written.EndsInMs.total_tokens {w : Written} (h : w.EndsInMs) (c : Char) (n : Numeral) :
    Duration.total (w.tokens c ++ [numberToken n]) = (computed w.total).bind fun _ => .error .belowMilliseconds := by
  cases w with
  | bare _ => contradiction
  | clock _ _ _ => contradiction
  | measures before last more _ =>
    cases more with
    | some _ => contradiction
    | none =>
      have hunit : last.unit = .ms := h
      have htotal := total_measures before last (some n)
      simp only [tokens, Written.total, Option.toList, List.map_nil, List.map_cons, List.append_nil] at htotal ⊢
      rw [htotal, hunit]
      rfl

theorem Written.EndsInMs.lexed (hc : isSeparator c = true) {w : Written} (h : w.EndsInMs) (n : Numeral) :
    Lexed (String.ofList [c]) (w.tokens c ++ [numberToken n]) := by
  cases w with
  | bare _ => contradiction
  | clock _ _ _ => contradiction
  | measures before last more _ =>
    cases more with
    | some _ => contradiction
    | none =>
      rw [tokens, Option.toList, List.map_nil, List.append_nil]
      exact lexed_measures hc _ (lexed_number hc (some n) .nil (by simp)) (by rintro u ⟨⟩; rfl)

theorem render_unfinished (w : Written) (c : Char) (n : Numeral) :
    render (w.tokens c ++ [numberToken n]) = w.chars c ++ n.chars := by
  rw [render_append, w.render_tokens]
  simp [numberToken]

theorem read_unfinished (hc : isSeparator c = true) {w : Written} (hw : w.EndsInMs) {n : Numeral}
    {text : List Char} (htext : w.chars c ++ n.chars = Text.squeeze text) :
    read (String.ofList [c]) text = (computed w.total).bind fun _ => .error .belowMilliseconds := by
  rw [read_tokens (hw.lexed hc n) (by simp) (by rw [render_unfinished, htext]), hw.total_tokens]
  cases w.total <;> rfl

theorem limit_eq_ok_iff {ms ms' : Int} : limit ms = .ok ms' ↔ ms = ms' ∧ ms' ≤ maxDuration := by
  unfold limit
  split
  · simp
    omega
  · simp
    omega

theorem isInputFault_of_classify {separator : String} {cs : List Char} {e : DurationError}
    (h : classify separator cs = .error e) : e.isInputFault = true := by
  induction cs with
  | nil => contradiction
  | cons d cs ih =>
    unfold classify at h
    split at h
    · cases h
      rfl
    · exact ih (map_eq_error.mp h)

theorem read_cases (c : Char) (text : List Char) :
    (∃ w : Written, w.chars c = Text.squeeze text) ∨
    (∃ (w : Written) (n : Numeral), w.EndsInMs ∧ w.chars c ++ n.chars = Text.squeeze text) ∨
    ∃ e, read (String.ofList [c]) text = .error e ∧ e.isInputFault = true := by
  cases htokens : Duration.tokens (String.ofList [c]) text with
  | error e =>
    refine Or.inr (Or.inr ⟨e,?_,isInputFault_of_classify (map_eq_error.mp htokens)⟩)
    unfold read
    rw [htokens]
    rfl
  | ok ts =>
    obtain ⟨hlexed,hrender⟩ := tokens_eq_ok_iff.mp htokens
    by_cases hne : ts = []
    · subst hne
      refine Or.inr (Or.inr ⟨.empty,?_,rfl⟩)
      unfold read
      rw [htokens]
      rfl
    · obtain ⟨w,rfl⟩ | ⟨w,n,hw,rfl⟩ | ⟨e,he,hfault⟩ := tokens_cases hlexed hne
      · exact Or.inl ⟨w,by rw [← w.render_tokens, hrender]⟩
      · exact Or.inr (Or.inl ⟨w,n,hw,by rw [← render_unfinished, hrender]⟩)
      · exact Or.inr (Or.inr ⟨e,by rw [read_tokens hlexed hne hrender, he]; rfl,hfault⟩)

theorem computed_bind_eq_ok {y : Option Decimal} {f : Decimal → Except DurationError Int} {ms : Int} :
    (computed y).bind f = .ok ms ↔ ∃ x, y = some x ∧ f x = .ok ms := by
  cases y <;> simp [computed, Except.bind]

/-- What is read are the writings whose totals can be computed and are not too long. -/
theorem read_eq_ok_iff (hc : isSeparator c = true) {text : List Char} {ms : Int} :
    read (String.ofList [c]) text = .ok ms ↔ ∃ (w : Written) (x : Decimal),
      w.chars c = Text.squeeze text ∧ w.total = some x ∧ x.toInt = ms ∧ ms ≤ maxDuration := by
  constructor
  · intro h
    obtain ⟨w,htext⟩ | ⟨w,n,hw,htext⟩ | ⟨e,he,-⟩ := read_cases c text
    · rw [read_written hc htext, computed_bind_eq_ok] at h
      obtain ⟨x,hx,hlimit⟩ := h
      exact ⟨w,x,htext,hx,limit_eq_ok_iff.mp hlimit⟩
    · rw [read_unfinished hc hw htext, computed_bind_eq_ok] at h
      obtain ⟨x,-,hx⟩ := h
      contradiction
    · rw [he] at h
      contradiction
  · rintro ⟨w,x,htext,hx,hms⟩
    rw [read_written hc htext, computed_bind_eq_ok]
    exact ⟨x,hx,limit_eq_ok_iff.mpr hms⟩

end Countdown.Duration
