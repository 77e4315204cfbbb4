import Countdown.Proofs.Text.Character
import Countdown.Sequence.Token
set_option autoImplicit false

namespace Countdown.Sequence

variable {current text s : List Char} {ts us : List Token} {t u : Token} {i : Nat}

theorem split_plain (h : ∀ c ∈ text, Token.operator? c = none) :
    split current text = valueOf (current.reverse ++ text) := by
  induction text generalizing current with
  | nil => simp [split]
  | cons c text ih =>
    rw [split, h c List.mem_cons_self]
    dsimp only
    rw [ih fun d hd => h d (List.mem_cons_of_mem _ hd)]
    simp

theorem split_append (op : Token) {c : Char} (h : Token.operator? c = some op) (current text rest : List Char) :
    split current (text ++ c :: rest) = split current text ++ op :: split [] rest := by
  induction text generalizing current with
  | nil => simp [split, h]
  | cons d text ih =>
    simp only [List.cons_append, split]
    cases Token.operator? d with
    | none => exact ih _
    | some op' => simp [ih]

theorem isValue_of_operator? {c : Char} (h : Token.operator? c = some t) : t.isValue = false := by
  unfold Token.operator? at h
  split at h <;> cases h <;> rfl

theorem exists_operator? (h : u.isValue = false) : ∃ c, u.chars = [c] ∧ Token.operator? c = some u := by
  cases u with
  | value s | forever => contradiction
  | plus | times | opening | closing => exact ⟨_,rfl,rfl⟩

/-- The text of a value: it is not empty, holds no operator, and has no white space around it. -/
structure IsWord (s : List Char) : Prop where
  nonempty : s ≠ []
  plain : ∀ c ∈ s, Token.operator? c = none
  trimmed : Text.trim s = s

theorem isWord_trim (hne : Text.trim s ≠ []) (h : ∀ c ∈ s, Token.operator? c = none) : IsWord (Text.trim s) :=
  ⟨hne,fun c hc => h c (Text.mem_of_mem_trim hc),Text.trim_trim s⟩

theorem valueOf_cases (s : List Char) :
    valueOf s = [] ∨ valueOf s = [.value (Text.trim s)] ∧ Text.trim s ≠ [] := by
  simp only [valueOf]
  split
  · exact .inl rfl
  · rename_i hne
    exact .inr ⟨rfl,by simpa using hne⟩

theorem split_word (h : IsWord s) : split [] s = [.value s] := by
  rw [split_plain h.plain, List.reverse_nil, List.nil_append, valueOf]
  simp [h.trimmed, h.nonempty]

/-- Tokens of which each stands where it may. Open counts are values too. -/
structure Normal (ts : List Token) : Prop where
  apart : ∀ i t u, ts[i]? = some t → ts[i + 1]? = some u → ¬(t.isValue = true ∧ u.isValue = true)
  times : ∀ i, ts[i]? = some .times → ∃ u, ts[i + 1]? = some u ∧ (u.isValue = true ∨ u = .opening)
  openCount : ∀ i, ts[i]? = some .forever → ∃ j, i = j + 1 ∧ ts[j]? = some .times
  beforeGroup : ∀ i t, ts[i]? = some t → ts[i + 1]? = some .opening → t.isValue = false
  behindGroup : ∀ i u, ts[i]? = some .closing → ts[i + 1]? = some u → u.isValue = false
  words : ∀ s, .value s ∈ ts → IsWord s

def Row (R : Token → Option Token → Prop) : List Token → Prop
  | [] => True
  | t :: ts => R t ts.head? ∧ Row R ts

theorem row_iff {R : Token → Option Token → Prop} : Row R ts ↔ ∀ i t, ts[i]? = some t → R t ts[i + 1]? := by
  induction ts with
  | nil => simp [Row]
  | cons t ts ih =>
    rw [Row, ih, List.head?_eq_getElem?]
    constructor
    · rintro ⟨hfirst,hrest⟩ i u hu
      cases i with
      | zero =>
        cases hu
        exact hfirst
      | succ i => exact hrest i u hu
    · exact fun h => ⟨h 0 t rfl,fun i => h (i + 1)⟩

def Token.Parts (t : Token) (next : Option Token) : Prop :=
  match t with
  | .value s => IsWord s ∧ ∀ u ∈ next, u.isValue = false
  | .forever => False
  | _ => True

/-- What stands behind a token once all is there that is implied. -/
def Token.Settles (t : Token) (next : Option Token) : Prop :=
  match t with
  | .value s => IsWord s ∧ ∀ u ∈ next, u.isValue = false ∧ u ≠ .opening
  | .forever => ∀ u ∈ next, u.isValue = false ∧ u ≠ .opening
  | .closing => ∀ u ∈ next, u.isValue = false
  | .times => ∃ u ∈ next, u.isValue = true ∨ u = .opening
  | .plus | .opening => next ≠ some .forever

theorem Token.Settles.before_forever (h : t.Settles (some .forever)) : t = .times := by
  cases t with
  | times => rfl
  | value s => exact absurd (h.2 _ rfl).1 (by simp [isValue])
  | forever => exact absurd (h _ rfl).1 (by simp [isValue])
  | closing => exact absurd (h _ rfl) (by simp [isValue])
  | plus | opening => exact absurd rfl h

theorem Normal.settles (h : Normal ts) (ht : ts[i]? = some t) : t.Settles ts[i + 1]? := by
  have hvalue (hv : t.isValue = true) : ∀ u ∈ ts[i + 1]?, u.isValue = false ∧ u ≠ .opening := by
    intro u hu
    refine ⟨Bool.eq_false_iff.mpr fun huv => h.apart i t u ht hu ⟨hv,huv⟩,?_⟩
    rintro rfl
    rw [h.beforeGroup i t ht hu] at hv
    contradiction
  have hcount (hnext : ts[i + 1]? = some .forever) : t = .times := by
    obtain ⟨j,hj,htimes⟩ := h.openCount _ hnext
    cases hj
    exact Option.some.inj (ht.symm.trans htimes)
  cases t with
  | value s => exact ⟨h.words s (List.mem_of_getElem? ht),hvalue rfl⟩
  | forever => exact hvalue rfl
  | plus | opening => exact fun hnext => nomatch hcount hnext
  | times => exact h.times i ht
  | closing => exact fun u hu => h.behindGroup i u ht hu

theorem normal_of_settles (h : ∀ (i : Nat) (t : Token), ts[i]? = some t → t.Settles ts[i + 1]?)
    (hfirst : ts.head? ≠ some .forever) : Normal ts where
  apart := by
    rintro i t u ht hu ⟨htv,huv⟩
    have hsettles := h i t ht
    have hnot : u.isValue = false := by
      cases t with
      | value s => exact (hsettles.2 u hu).1
      | forever => exact (hsettles u hu).1
      | plus | times | opening | closing => contradiction
    simp [hnot] at huv
  times := fun i hi => h i _ hi
  openCount := by
    intro i hi
    cases i with
    | zero => exact absurd (List.head?_eq_getElem?.trans hi) hfirst
    | succ j =>
      obtain ⟨hj,-⟩ := List.getElem?_eq_some_iff.mp hi
      have ht : ts[j]? = some ts[j] := List.getElem?_eq_getElem (by omega)
      have hsettles := h j _ ht
      rw [hi] at hsettles
      exact ⟨j,rfl,by rw [ht, hsettles.before_forever]⟩
  beforeGroup := by
    intro i t ht hu
    have hsettles := h i t ht
    cases t with
    | value s => exact absurd rfl (hsettles.2 _ hu).2
    | forever => exact absurd rfl (hsettles _ hu).2
    | plus | times | opening | closing => rfl
  behindGroup := fun i u ht hu => h i _ ht u hu
  words := by
    intro s hs
    obtain ⟨i,hi⟩ := List.mem_iff_getElem?.mp hs
    exact (h i _ hi).1

theorem normal_iff : Normal ts ↔ Row Token.Settles ts ∧ ts.head? ≠ some .forever := by
  rw [row_iff]
  refine ⟨fun h => ⟨fun i t ht => h.settles ht,fun hfirst => ?_⟩,fun ⟨h,hfirst⟩ => normal_of_settles h hfirst⟩
  obtain ⟨j,hj,-⟩ := h.openCount 0 (List.head?_eq_getElem?.symm.trans hfirst)
  contradiction

theorem row_valueOf (h : ∀ c ∈ s, Token.operator? c = none) (hnext : ∀ u ∈ us.head?, u.isValue = false)
    (hrow : Row Token.Parts us) : Row Token.Parts (valueOf s ++ us) := by
  obtain hblank | ⟨hvalue,hne⟩ := valueOf_cases s
  · rwa [hblank]
  · rw [hvalue]
    exact ⟨⟨isWord_trim hne h,hnext⟩,hrow⟩

theorem row_split (h : ∀ c ∈ current, Token.operator? c = none) : Row Token.Parts (split current text) := by
  induction text generalizing current with
  | nil =>
    rw [split, ← List.append_nil (valueOf _)]
    exact row_valueOf (by simpa using h) (by simp) trivial
  | cons c rest ih =>
    unfold split
    split
    · rename_i op hop
      have hvalue := isValue_of_operator? hop
      refine row_valueOf (by simpa using h) (by simp [hvalue]) ⟨?_,ih (by simp)⟩
      cases op with
      | value s | forever => contradiction
      | plus | times | opening | closing => trivial
    · rename_i hplain
      exact ih (by simpa [hplain] using h)

theorem head?_complete (ts : List Token) : (complete ts).head? = ts.head? := by
  cases ts <;> rfl

theorem row_implied (ht : t.Parts us.head?) (hcount : us.head? ≠ some .forever) (hrow : Row Token.Settles us) :
    Row Token.Settles (t :: (implied t us.head? ++ us)) := by
  cases t with
  | value s =>
    obtain ⟨hword,hbehind⟩ := ht
    by_cases hgroup : us.head? = some .opening
    · rw [implied, if_pos hgroup]
      exact ⟨⟨hword,by simp [Token.isValue]⟩,⟨_,hgroup,.inr rfl⟩,hrow⟩
    · rw [implied, if_neg hgroup]
      refine ⟨⟨hword,fun u hu => ⟨hbehind u hu,?_⟩⟩,hrow⟩
      rintro rfl
      exact hgroup hu
  | forever => exact ht.elim
  | plus | opening => exact ⟨hcount,hrow⟩
  | times =>
    by_cases hnext : us.head? = some .opening ∨ us.head?.any Token.isValue = true
    · rw [implied, if_pos hnext]
      refine ⟨?_,hrow⟩
      obtain hgroup | hvalue := hnext
      · exact ⟨_,hgroup,.inr rfl⟩
      · obtain ⟨u,hu,huv⟩ := (Option.any_eq_true _ _).mp hvalue
        exact ⟨u,hu,.inl huv⟩
    · rw [implied, if_neg hnext]
      obtain ⟨hgroup,hvalue⟩ := not_or.mp hnext
      refine ⟨⟨_,rfl,.inl rfl⟩,fun u hu => ⟨?_,?_⟩,hrow⟩
      · refine Bool.eq_false_iff.mpr fun huv => hvalue ?_
        exact (Option.any_eq_true _ _).mpr ⟨u,hu,huv⟩
      · rintro rfl
        exact hgroup hu
  | closing =>
    cases hvalue : us.head?.any Token.isValue with
    | true =>
      obtain ⟨u,hu,huv⟩ := (Option.any_eq_true _ _).mp hvalue
      rw [implied, if_pos hvalue]
      exact ⟨by simp [Token.Settles, Token.isValue],⟨u,hu,.inl huv⟩,hrow⟩
    | false =>
      rw [implied, if_neg (by simp [hvalue])]
      refine ⟨fun u hu => ?_,hrow⟩
      rw [List.nil_append] at hu
      rwa [Option.mem_def.mp hu, Option.any_some] at hvalue

theorem row_complete (h : Row Token.Parts ts) : Row Token.Settles (complete ts) := by
  induction ts with
  | nil => trivial
  | cons t ts ih =>
    obtain ⟨ht,hts⟩ := h
    have hcount : ts.head? ≠ some .forever := by
      intro hfirst
      cases ts with
      | nil => contradiction
      | cons u us =>
        cases hfirst
        exact hts.1
    rw [← head?_complete] at ht hcount
    rw [complete, ← head?_complete]
    exact row_implied ht hcount (ih hts)

theorem normal_tokens (text : List Char) : Normal (tokens text) := by
  have hsplit : Row Token.Parts (split [] text) := row_split (by simp)
  refine normal_iff.mpr ⟨row_complete hsplit,fun hfirst => ?_⟩
  rw [tokens, head?_complete] at hfirst
  cases hs : split [] text with
  | nil => simp [hs] at hfirst
  | cons t ts =>
    rw [hs] at hfirst hsplit
    cases hfirst
    exact hsplit.1

theorem split_operator (h : u.isValue = false) (text rest : List Char) :
    split [] (text ++ (u.chars ++ rest)) = split [] text ++ u :: split [] rest := by
  obtain ⟨c,hchars,hc⟩ := exists_operator? h
  rw [hchars]
  exact split_append u hc [] text rest

theorem split_chars (h : t.Settles ts.head?) (hne : t ≠ .forever) :
    split [] (t.chars ++ Token.render ts) = t :: split [] (Token.render ts) := by
  have hfirst {u : Token} (hu : u.isValue = false) (rest : List Char) :
      split [] (u.chars ++ rest) = u :: split [] rest := split_operator hu [] rest
  cases t with
  | value s =>
    -- what ends a value is an operator or the end of the text
    obtain ⟨hword,hnext⟩ := h
    cases ts with
    | nil => exact (congrArg (split []) (List.append_nil s)).trans (split_word hword)
    | cons u us =>
      have hu := (hnext u rfl).1
      have hrest : Token.render (u :: us) = u.chars ++ Token.render us := rfl
      rw [hrest, hfirst hu, ← List.singleton_append, ← split_word hword]
      exact split_operator hu s _
  | forever => exact absurd rfl hne
  | plus | times | opening | closing => exact hfirst rfl _

theorem split_render (h : Row Token.Settles ts) : split [] (Token.render ts) = ts.filter (· ≠ .forever) := by
  induction ts with
  | nil => rfl
  | cons t ts ih =>
    obtain ⟨ht,hts⟩ := h
    have hrest := ih hts
    by_cases hcount : t = .forever
    · rw [hcount, List.filter_cons_of_neg (by simp)]
      exact hrest
    · rw [List.filter_cons_of_pos (by simpa using hcount), ← hrest]
      exact split_chars ht hcount

theorem implied_settled (h : t.Settles ts.head?) (hne : t ≠ .forever) : implied t ts.head? = [] := by
  cases t with
  | value s => exact if_neg fun hgroup => (h.2 _ hgroup).2 rfl
  | forever => exact absurd rfl hne
  | plus | opening => rfl
  | times =>
    obtain ⟨u,hu,huv⟩ := h
    refine if_pos ?_
    rw [Option.mem_def.mp hu]
    exact huv.symm.imp (congrArg some) id
  | closing =>
    refine if_neg fun hvalue => ?_
    obtain ⟨u,hu,huv⟩ := (Option.any_eq_true _ _).mp hvalue
    rw [h u hu] at huv
    contradiction

theorem implied_forever (h : Token.forever.Settles ts.head?) : implied .times ts.head? = [.forever] := by
  refine if_neg ?_
  rintro (hgroup | hvalue)
  · exact (h _ hgroup).2 rfl
  · obtain ⟨u,hu,huv⟩ := (Option.any_eq_true _ _).mp hvalue
    rw [(h u hu).1] at huv
    contradiction

theorem dropWhile_forever (h : ts.head? ≠ some .forever) : ts.dropWhile (· = .forever) = ts := by
  cases ts with
  | nil => rfl
  | cons t ts => exact List.dropWhile_cons_of_neg (by simpa using h)

/-- Open counts are implied where they were, but for one that is the first token. -/
theorem complete_filter (h : Row Token.Settles ts) :
    complete (ts.filter (· ≠ .forever)) = ts.dropWhile (· = .forever) := by
  induction ts with
  | nil => rfl
  | cons t ts ih =>
    obtain ⟨ht,hts⟩ := h
    have hrest := ih hts
    by_cases hcount : t = .forever
    · rw [List.filter_cons_of_neg (by simp [hcount]), List.dropWhile_cons_of_pos (by simp [hcount]), hrest]
    · rw [List.filter_cons_of_pos (by simpa using hcount), List.dropWhile_cons_of_neg (by simpa using hcount),
        complete, ← head?_complete, hrest]
      refine congrArg (t :: ·) ?_
      by_cases hnext : ts.head? = some .forever
      · -- a `*` has nothing behind it once the open count is dropped, so the count is implied
        obtain ⟨us,rfl⟩ := List.head?_eq_some_iff.mp hnext
        obtain rfl := ht.before_forever
        have hus : us.head? ≠ some .forever := fun hu => nomatch (hts.1 _ hu).1
        rw [List.dropWhile_cons_of_pos (by simp), dropWhile_forever hus, implied_forever hts.1]
        rfl
      · rw [dropWhile_forever hnext, implied_settled ht hcount]
        rfl

theorem tokens_render (h : Normal ts) : tokens (Token.render ts) = ts := by
  obtain ⟨hrow,hfirst⟩ := normal_iff.mp h
  rw [tokens, split_render hrow, complete_filter hrow, dropWhile_forever hfirst]

/-- The tokens of a text are in normal form and are read again from their own text, and so are all tokens that are
in normal form. -/
theorem tokens_normal_form : (∀ text, Normal (tokens text) ∧ tokens (Token.render (tokens text)) = tokens text) ∧
    ∀ ts, tokens (Token.render ts) = ts ↔ Normal ts := by
  refine ⟨fun text => ⟨normal_tokens text,tokens_render (normal_tokens text)⟩,fun ts => ⟨fun h => ?_,tokens_render⟩⟩
  rw [← h]
  exact normal_tokens _

example : tokens " 3 (1h 30m )2**".toList = [.value ['3'],.times,.opening,.value "1h 30m".toList,.closing,.times,
    .value ['2'],.times,.forever,.times,.forever] := by decide

end Countdown.Sequence
