import Countdown.Proofs.Result
import Countdown.Proofs.Sequence.Evaluation
import Countdown.Proofs.Sequence.Meaning
set_option autoImplicit false

/-!
A text in parentheses, and a number that touches it. Whether the number stands before or behind, it repeats
what the text stands for, unless the text is a number itself.
-/

namespace Countdown.Sequence

variable {separator : String} {text ds : List Char} {ts us : List Token} {t : List Char}

/-- Before the end of a group nothing more is implied than at the end of a text. -/
theorem complete_closing (ts us : List Token) :
    complete (ts ++ .closing :: us) = complete ts ++ complete (.closing :: us) := by
  induction ts with
  | nil => rfl
  | cons t ts ih =>
    have himplied : implied t (ts ++ .closing :: us).head? = implied t ts.head? := by
      cases ts with
      | nil => cases t <;> rfl
      | cons u ts => rfl
    simp only [List.cons_append, complete, himplied, ih, List.append_assoc]

theorem split_count (hcount : isCount ds = true) : split [] ds = [.value ds] := by
  obtain ⟨hne,hall⟩ : ds ≠ [] ∧ ∀ c ∈ ds, Text.isAsciiDigit c = true := by
    simpa [isCount] using hcount
  have hblank : ∀ c ∈ ds, Text.isBlank c = false := fun c hc =>
    Duration.isBlank_of_isNumberChar (by simp [Duration.isNumberChar, hall c hc])
  rw [split_plain fun c hc => operator?_of_isAsciiDigit (hall c hc), valueOf]
  simp [Text.trim_plain hblank, hne]

theorem tokens_group (text rest : List Char) : tokens ('(' :: (text ++ ')' :: rest)) =
    .opening :: (tokens text ++ complete (.closing :: split [] rest)) := by
  have hsplit : split [] ('(' :: (text ++ ')' :: rest)) =
      .opening :: (split [] text ++ .closing :: split [] rest) :=
    congrArg (Token.opening :: ·) (split_append .closing rfl [] text rest)
  rw [tokens, hsplit, complete, complete_closing]
  rfl

theorem tokens_group_count (text : List Char) (hcount : isCount ds = true) :
    tokens ('(' :: (text ++ ')' :: ds)) = .opening :: (tokens text ++ [.closing,.times,.value ds]) := by
  rw [tokens_group, split_count hcount]
  rfl

theorem tokens_count_group (text : List Char) (hcount : isCount ds = true) :
    tokens (ds ++ '(' :: (text ++ [')'])) =
      .value ds :: .times :: .opening :: (tokens text ++ [.closing]) := by
  have hsplit : split [] (ds ++ '(' :: (text ++ [')'])) =
      .value ds :: .opening :: (split [] text ++ [.closing]) := by
    rw [split_append .opening rfl, split_append .closing rfl, split_count hcount]
    rfl
  rw [tokens, hsplit]
  simp only [complete, complete_closing]
  rfl

/-- All values but counts are durations that a sequence may have. -/
def ValuesHold (separator : String) (ts : List Token) : Prop :=
  ∀ t, Token.value t ∈ ts → isCount t = false → ∃ ms, checked separator t = .ok ms

theorem checkValues_eq_ok : checkValues separator ts = .ok () ↔ ValuesHold separator ts := by
  unfold ValuesHold
  induction ts with
  | nil => simp [checkValues]
  | cons u ts ih =>
    cases u with
    | value t =>
      cases hcount : isCount t with
      | true => simp [checkValues, hcount, ih, or_imp, forall_and]
      | false =>
        simp only [checkValues, hcount, Bool.false_eq_true, if_false, bind_eq_ok, ih, List.mem_cons,
          Token.value.injEq, or_imp, forall_and]
        simp [hcount]
    | forever | plus | times | opening | closing => simpa [checkValues] using ih

theorem valuesHold_congr (h : ∀ t, isCount t = false → (Token.value t ∈ us ↔ Token.value t ∈ ts)) :
    ValuesHold separator us ↔ ValuesHold separator ts := by
  constructor
  · exact fun hus t ht hnot => hus t ((h t hnot).mpr ht) hnot
  · exact fun hts t ht hnot => hts t ((h t hnot).mp ht) hnot

theorem ofTokens_eq_ok {r : Run} : Run.ofTokens separator ts = .ok r ↔
    checkValues separator ts = .ok () ∧ ∃ e, Expr.ofTokens ts = .ok e ∧ e.run separator = .ok r := by
  simp only [Run.ofTokens, Expr.run, bind_eq_ok]
  cases checkValues separator ts with
  | error x => simp
  | ok u =>
    cases Expr.ofTokens ts with
    | error x => simp
    | ok e => cases he : e.eval separator <;> simp [he, Except.bind]

theorem read_of_opening (h : '(' ∈ text) : Run.read separator text = Run.ofTokens separator (tokens text) := by
  have hseq : isSequence text = true := List.any_eq_true.mpr ⟨'(',h,rfl⟩
  rw [Run.read, if_pos hseq]

/-- A text with a group is read if it has a derivation and its values are durations. -/
theorem read_eq_ok_iff (d : Derivation .sum) {r : Run} (h : '(' ∈ text) (hd : d.tokens = tokens text) :
    Run.read separator text = .ok r ↔ ValuesHold separator d.tokens ∧ d.expr.run separator = .ok r := by
  rw [read_of_opening h, ← hd, ofTokens_eq_ok, checkValues_eq_ok]
  simp [d.ofTokens_tokens]

variable {d : Derivation .sum} {r : Run}

theorem read_group (hd : d.tokens = tokens text) : Run.read separator ('(' :: (text ++ [')'])) = .ok r ↔
    ValuesHold separator d.tokens ∧ d.expr.run separator = .ok r := by
  have htokens : (Derivation.product (.operand (.group d))).tokens = tokens ('(' :: (text ++ [')'])) := by
    rw [tokens_group, ← hd]
    rfl
  rw [read_eq_ok_iff _ List.mem_cons_self htokens]
  exact and_congr_left' (valuesHold_congr fun t _ => by simp [Derivation.tokens])

theorem read_group_count (hd : d.tokens = tokens text) (hcount : isCount ds = true) :
    Run.read separator ('(' :: (text ++ ')' :: ds)) = .ok r ↔
      ValuesHold separator d.tokens ∧ (Expr.op .mul d.expr (.value ds)).run separator = .ok r := by
  have htokens : (Derivation.product (.mul (.operand (.group d)) (.value ds))).tokens =
      tokens ('(' :: (text ++ ')' :: ds)) := by
    rw [tokens_group_count text hcount, ← hd]
    simp [Derivation.tokens]
  rw [read_eq_ok_iff _ List.mem_cons_self htokens]
  refine and_congr_left' (valuesHold_congr fun t hnot => ?_)
  have hne : t ≠ ds := by
    rintro rfl
    simp [hcount] at hnot
  simp [Derivation.tokens, hne]

theorem read_count_group (hd : d.tokens = tokens text) (hcount : isCount ds = true) :
    Run.read separator (ds ++ '(' :: (text ++ [')'])) = .ok r ↔
      ValuesHold separator d.tokens ∧ (Expr.op .mul (.value ds) d.expr).run separator = .ok r := by
  have htokens : (Derivation.product (.mul (.operand (.value ds)) (.group d))).tokens =
      tokens (ds ++ '(' :: (text ++ [')'])) := by
    rw [tokens_count_group text hcount, ← hd]
    rfl
  rw [read_eq_ok_iff _ (by simp) htokens]
  refine and_congr_left' (valuesHold_congr fun t hnot => ?_)
  have hne : t ≠ ds := by
    rintro rfl
    simp [hcount] at hnot
  simp [Derivation.tokens, hne]

theorem exists_derivation {r₀ : Run} (hown : Run.read separator text = .ok r₀)
    (hgroup : Run.read separator ('(' :: (text ++ [')'])) = .ok r) :
    ∃ d : Derivation .sum, d.tokens = tokens text := by
  cases hseq : isSequence text with
  | true =>
    rw [Run.read, if_pos hseq] at hown
    obtain ⟨-,e,hparse,-⟩ := ofTokens_eq_ok.mp hown
    obtain hd | ⟨x,hx,-⟩ := ofTokens_reads (tokens text)
    · exact hd
    · rw [hx] at hparse
      contradiction
  | false =>
    have hplain : ∀ c ∈ text, Token.operator? c = none := by
      simpa [isSequence] using hseq
    rw [tokens, split_plain hplain, List.reverse_nil, List.nil_append, valueOf]
    split
    · -- nothing between the parentheses
      rename_i hblank
      have htokens : tokens ('(' :: (text ++ [')'])) = [.opening,.closing] := by
        rw [tokens_group, tokens, split_plain hplain, List.reverse_nil, List.nil_append, valueOf, if_pos hblank]
        rfl
      rw [read_of_opening List.mem_cons_self, htokens] at hgroup
      obtain ⟨-,e,hparse,-⟩ := ofTokens_eq_ok.mp hgroup
      contradiction
    · exact ⟨.product (.operand (.value (Text.trim text))),rfl⟩

/-- A number and nothing else, in any parentheses. -/
def IsBareCount (text : List Char) : Prop := ∃ t, Expr.ofTokens (tokens text) = .ok (.value t) ∧ isCount t = true

theorem rounds?_eq_none {e : Expr} (hrun : e.run separator = .ok r)
    (hbare : ∀ t, e = .value t → isCount t = false) : e.rounds? = none := by
  cases e with
  | value t => simp [rounds?_value, hbare t rfl]
  | forever => contradiction
  | op o a b => rfl

theorem repeated_count {n : Nat} (hpos : 0 < n) (r : Run) : ∃ r', r.repeated (.count n) = .ok r' ∧
    r'.playlist = r.playlist.times (min n maxRounds) := by
  obtain ⟨m,rfl⟩ : ∃ m, n = m + 1 := ⟨n - 1,by omega⟩
  refine ⟨_,rfl,?_⟩
  have hmin : min (m + 1) maxRounds - 1 + 1 = min (m + 1) maxRounds := by
    have hmax : 0 < maxRounds := by decide
    omega
  rw [Run.playlist, hmin]

/-- A number that touches a group repeats it, and more than the greatest number of rounds is as good as that.
Before the group this takes that the group is not a number as well. -/
theorem read_touched_group {r₀ : Run} (hown : Run.read separator text = .ok r₀)
    (hgroup : Run.read separator ('(' :: (text ++ [')'])) = .ok r) (hcount : isCount ds = true)
    (hpos : 0 < Text.natOfAscii ds) (hfit : ds.length ≤ Text.maxDigits) :
    ∃ r', Run.read separator ('(' :: (text ++ ')' :: ds)) = .ok r' ∧
      (¬ IsBareCount text → Run.read separator (ds ++ '(' :: (text ++ [')'])) = .ok r') ∧
      (∀ k, Cursor.take k [r] = r.playlist.take k) ∧
      (∀ k, Cursor.take k [r'] = (r.playlist.times (min (Text.natOfAscii ds) maxRounds)).take k) ∧
      ∀ k, k ≤ maxRounds → Cursor.take k [r'] = (r.playlist.times (Text.natOfAscii ds)).take k := by
  obtain ⟨d,hd⟩ := exists_derivation hown hgroup
  obtain ⟨hvalues,hrun⟩ := (read_group hd).mp hgroup
  have hcounts : (Expr.value ds).CountsFit := by
    intro t ht _
    rw [List.mem_singleton.mp ht]
    exact hfit
  have hrounds : (Expr.value ds).rounds? = some (.times (Text.natOfAscii ds)) := by
    rw [rounds?_value, if_pos hcount]
  obtain ⟨r',hr',hlist⟩ := repeated_count hpos r
  refine ⟨r',?_,fun hbare => ?_,r.take_playlist,fun k => by rw [r'.take_playlist, hlist],fun k hk => ?_⟩
  · refine (read_group_count hd hcount).mpr ⟨hvalues,?_⟩
    rw [run_mul_right hcounts hrounds, hrun]
    exact hr'
  · have hnone : d.expr.rounds? = none := rounds?_eq_none hrun fun t ht => by
      have hparse : Expr.ofTokens (tokens text) = .ok (.value t) := by rw [← hd, d.ofTokens_tokens, ht]
      exact Bool.eq_false_iff.mpr fun hc => hbare ⟨t,hparse,hc⟩
    refine (read_count_group hd hcount).mpr ⟨hvalues,?_⟩
    rw [run_mul_left hcounts hrounds hnone, hrun]
    exact hr'
  · rw [r'.take_playlist, hlist]
    exact Playlist.agree_times_min r.nonempty_playlist maxRounds _ k hk

/-- Three rounds of a second and two minutes, from either side. -/
theorem read_touched_group_thrice : ∃ r', Run.read ":" "(1s+2m)3".toList = .ok r' ∧
    Run.read ":" "3(1s+2m)".toList = .ok r' ∧
    Cursor.take 7 [r'] = [1000,120000,1000,120000,1000,120000] := by
  let r : Run := .append (.one 1000) (.one 120000)
  have hown : Run.read ":" "1s+2m".toList = .ok r := toOption_eq_some.mp (by decide +kernel)
  have hgroup : Run.read ":" "(1s+2m)".toList = .ok r := toOption_eq_some.mp (by decide +kernel)
  have hcount : isCount ['3'] = true := rfl
  obtain ⟨r',hbehind,hbefore,-,htake,-⟩ := read_touched_group hown hgroup hcount (by decide) (by decide)
  refine ⟨r',hbehind,hbefore ?_,?_⟩
  · rintro ⟨t,ht,-⟩
    have hparse : Expr.ofTokens (tokens "1s+2m".toList) =
        .ok (.op .add (.value ['1','s']) (.value ['2','m'])) := rfl
    rw [hparse] at ht
    cases ht
  · rw [htake]
    decide +kernel

theorem times_one (ms : Int) (n : Nat) : (Playlist.ends [ms]).times n = .ends (List.replicate n ms) := by
  induction n with
  | zero => rfl
  | succ n ih => rw [Playlist.times, ih, List.replicate_succ, Playlist.append, List.singleton_append]

theorem length_take_times_one (ms : Int) (n k : Nat) :
    (((Playlist.ends [ms]).times n).take k).length = min k n := by
  rw [times_one, Playlist.take_ends, List.length_take, List.length_replicate]

/-- Three times five minutes come to five times three minutes; and no number of rounds is greater than the
greatest one. -/
theorem number_touching_group :
    (∃ r r', Run.read ":" "5".toList = .ok r ∧ Run.read ":" "(5)".toList = .ok r ∧
      Run.read ":" "3(5)".toList = .ok r' ∧ (r.playlist.times 3).take 6 = [300000,300000,300000] ∧
      Cursor.take 6 [r'] = [180000,180000,180000,180000,180000]) ∧
    ∃ r r', Run.read ":" "1s".toList = .ok r ∧ Run.read ":" "(1s)".toList = .ok r ∧
      Run.read ":" "(1s)9223372036854775808".toList = .ok r' ∧
      Cursor.take 9223372036854775808 [r'] ≠ (r.playlist.times 9223372036854775808).take 9223372036854775808 := by
  have hread : ∀ {text : String} {r : Run}, (Run.read ":" text.toList).toOption = some r →
      Run.read ":" text.toList = .ok r := toOption_eq_some.mp
  refine ⟨⟨.one 300000,.again (.one 180000) (some 4),hread (by decide +kernel),hread (by decide +kernel),
    hread (by decide +kernel),by decide,by decide⟩,
    .one 1000,.again (.one 1000) (some 9223372036854775806),hread (by decide +kernel),hread (by decide +kernel),
    hread (by decide +kernel),fun h => ?_⟩
  have hone : (Run.one 1000).playlist = .ends [1000] := rfl
  have hagain : ∀ m, (Run.again (.one 1000) (some m)).playlist = (Playlist.ends [1000]).times (m + 1) := fun _ => rfl
  have hlength := congrArg List.length h
  rw [Run.take_playlist, hagain, hone, length_take_times_one, length_take_times_one] at hlength
  omega

end Countdown.Sequence
