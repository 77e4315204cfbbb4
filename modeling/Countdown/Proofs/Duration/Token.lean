import Countdown.Duration.Token
set_option autoImplicit false

namespace Countdown.Duration

variable {separator : String} {k : Kind} {c : Char} {t : Token} {ts : List Token}

/-- A token is made of characters of its kind, and a separator of one. -/
structure Token.IsMade (separator : String) (t : Token) : Prop where
  nonempty : t.text ≠ []
  kinds : ∀ c ∈ t.text, kindOf? separator c = some t.kind
  single : t.kind = .separator → t.text.length = 1

/-- Neighbours are of different kinds, or separators. -/
inductive Lexed (separator : String) : List Token → Prop where
  | nil : Lexed separator []
  | cons {t : Token} {ts : List Token} (made : t.IsMade separator)
      (apart : ∀ u, ts.head? = some u → t.kind = u.kind → t.kind = .separator)
      (rest : Lexed separator ts) : Lexed separator (t :: ts)

def render (ts : List Token) : List Char := ts.flatMap Token.text

@[simp] theorem render_nil : render [] = [] := rfl

@[simp] theorem render_cons (t : Token) (ts : List Token) : render (t :: ts) = t.text ++ render ts := rfl

@[simp] theorem render_append (ts us : List Token) : render (ts ++ us) = render ts ++ render us :=
  List.flatMap_append

theorem Lexed.tail (h : Lexed separator (t :: ts)) : Lexed separator ts := by
  cases h
  assumption

theorem Lexed.nonempty (h : Lexed separator ts) : ∀ t ∈ ts, t.text ≠ [] := by
  induction h with
  | nil => simp
  | cons made _ _ ih => exact List.forall_mem_cons.mpr ⟨made.nonempty,ih⟩

theorem Token.cons_join (hk : t.kind ≠ .separator) :
    Token.cons t.kind c (t :: ts) = ⟨t.kind,c :: t.text⟩ :: ts := by
  simp [Token.cons, hk]

theorem Token.cons_apart (h : k = t.kind → k = .separator) :
    Token.cons k c (t :: ts) = ⟨k,[c]⟩ :: t :: ts := by
  simp only [Token.cons]
  rw [if_neg fun hk => hk.2 (h hk.1)]

theorem isMade_singleton (hc : kindOf? separator c = some k) : Token.IsMade separator ⟨k,[c]⟩ :=
  ⟨by simp,by simpa using hc,fun _ => rfl⟩

theorem Lexed.cons_token (h : Lexed separator ts) (hc : kindOf? separator c = some k) :
    Lexed separator (Token.cons k c ts) ∧ render (Token.cons k c ts) = c :: render ts := by
  cases h with
  | nil => exact ⟨.cons (isMade_singleton hc) (by simp) .nil,rfl⟩
  | @cons t ts made apart rest =>
    by_cases hk : k = t.kind → k = .separator
    · rw [Token.cons_apart hk]
      refine ⟨.cons (isMade_singleton hc) ?_ (.cons made apart rest),rfl⟩
      intro u hu
      cases hu
      exact hk
    · obtain ⟨rfl,hsep⟩ := Classical.not_imp.mp hk
      rw [Token.cons_join hsep]
      refine ⟨.cons ⟨by simp,?_,fun hs => absurd hs hsep⟩ apart rest,rfl⟩
      intro c' hc'
      obtain rfl | hc' := List.mem_cons.mp hc'
      · exact hc
      · exact made.kinds c' hc'

def join (ks : List (Kind × Char)) : List Token := ks.foldr (fun p ts => Token.cons p.1 p.2 ts) []

theorem lexed_of_classify {cs : List Char} {ks : List (Kind × Char)}
    (h : classify separator cs = .ok ks) : Lexed separator (join ks) ∧ render (join ks) = cs := by
  induction cs generalizing ks with
  | nil =>
    cases h
    exact ⟨.nil,rfl⟩
  | cons c rest ih =>
    unfold classify at h
    split at h
    · contradiction
    · rename_i k hk
      cases hrest : classify separator rest with
      | error e => simp [hrest, Except.map] at h
      | ok ks' =>
        rw [hrest] at h
        cases h
        obtain ⟨hlexed,hrender⟩ := ih hrest
        obtain ⟨hlexed',hrender'⟩ := hlexed.cons_token hk
        exact ⟨hlexed',by rw [← hrender]; exact hrender'⟩

theorem classify_append {s cs : List Char} {ks : List (Kind × Char)}
    (hs : ∀ c ∈ s, kindOf? separator c = some k) (hcs : classify separator cs = .ok ks) :
    classify separator (s ++ cs) = .ok (s.map (fun c => (k,c)) ++ ks) := by
  induction s with
  | nil => exact hcs
  | cons c s ih =>
    have hrest := ih fun c hc => hs c (List.mem_cons_of_mem _ hc)
    simp [classify, hs c List.mem_cons_self, hrest, Except.map]

theorem foldr_text (made : t.IsMade separator)
    (apart : ∀ u, ts.head? = some u → t.kind = u.kind → t.kind = .separator) :
    (t.text.map fun c => (t.kind,c)).foldr (fun p ts => Token.cons p.1 p.2 ts) ts = t :: ts := by
  obtain ⟨k,text⟩ := t
  have hlast : ∀ c, Token.cons k c ts = ⟨k,[c]⟩ :: ts := by
    intro c
    cases ts with
    | nil => rfl
    | cons u ts => exact Token.cons_apart (apart u rfl)
  have hmany : ∀ s : List Char, s ≠ [] → (k = .separator → s.length = 1) →
      (s.map fun c => (k,c)).foldr (fun p ts => Token.cons p.1 p.2 ts) ts = ⟨k,s⟩ :: ts := by
    intro s hne hone
    induction s with
    | nil => contradiction
    | cons c s ih =>
      cases s with
      | nil => exact hlast c
      | cons c' s =>
        have hk : k ≠ .separator := fun hk => by simp at hone; exact hone hk
        have hrest := ih (by simp) fun h => absurd h hk
        rw [List.map_cons, List.foldr_cons, hrest]
        exact Token.cons_join (t := ⟨k,c' :: s⟩) hk
  exact hmany text made.nonempty made.single

theorem Lexed.classify (h : Lexed separator ts) :
    ∃ ks, Duration.classify separator (render ts) = .ok ks ∧ join ks = ts := by
  induction h with
  | nil => exact ⟨[],rfl,rfl⟩
  | @cons t ts made apart rest ih =>
    obtain ⟨ks,hks,hjoin⟩ := ih
    refine ⟨_,classify_append made.kinds hks,?_⟩
    rw [join, List.foldr_append]
    change List.foldr _ (join ks) _ = _
    rw [hjoin]
    exact foldr_text made apart

/-- The tokens of a text are those that its characters make up, white space apart. -/
theorem tokens_eq_ok_iff {text : List Char} :
    tokens separator text = .ok ts ↔ Lexed separator ts ∧ render ts = Text.squeeze text := by
  unfold tokens
  constructor
  · intro h
    cases hks : Duration.classify separator (Text.squeeze text) with
    | error e => simp [hks, Except.map] at h
    | ok ks =>
      rw [hks] at h
      cases h
      exact lexed_of_classify hks
  · rintro ⟨hlexed,hrender⟩
    obtain ⟨ks,hks,rfl⟩ := hlexed.classify
    rw [← hrender, hks]
    rfl

end Countdown.Duration
