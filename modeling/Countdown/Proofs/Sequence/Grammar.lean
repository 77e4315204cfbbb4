import Countdown.Sequence.Expr
set_option autoImplicit false

namespace Countdown

/-- The tokens form no expression. -/
def SequenceError.IsMalformed : SequenceError → Prop
  | .missingOperand | .unexpected _ | .unbalanced => True
  | _ => False

theorem SequenceError.IsMalformed.isInputFault {x : SequenceError} (h : x.IsMalformed) :
    x.isInputFault = true := by
  cases x <;> first | rfl | exact h.elim

namespace Sequence

theorem isMalformed_blame {x : SequenceError} (h : x.IsMalformed) (o : Op) :
    (blame o x).IsMalformed := by
  cases x <;> trivial

/-- The kinds of phrases of the grammar. -/
inductive Level where
  | sum
  | product
  | operand
  deriving DecidableEq, Repr

def Level.power : Level → Nat
  | .sum => 0
  | .product => Op.add.rightPower
  | .operand => Op.mul.rightPower

/-- Tokens after which a phrase of the level begins that is no part of a longer one. -/
def Level.Opens : Level → List Token → Prop
  | .sum, before => before.getLast? ≠ some .plus ∧ before.getLast? ≠ some .times
  | .product, before => before.getLast? ≠ some .times
  | .operand, _ => True

/-- The derivations of the phrases of a level. -/
inductive Derivation : Level → Type where
  | add (a : Derivation .sum) (b : Derivation .product) : Derivation .sum
  | product (a : Derivation .product) : Derivation .sum
  | mul (a : Derivation .product) (b : Derivation .operand) : Derivation .product
  | operand (a : Derivation .operand) : Derivation .product
  | value (t : List Char) : Derivation .operand
  | forever : Derivation .operand
  | group (a : Derivation .sum) : Derivation .operand

namespace Derivation

variable {l m : Level}

def tokens {l : Level} : Derivation l → List Token
  | add a b => a.tokens ++ .plus :: b.tokens
  | product a => a.tokens
  | mul a b => a.tokens ++ .times :: b.tokens
  | operand a => a.tokens
  | value t => [.value t]
  | forever => [.forever]
  | group a => .opening :: (a.tokens ++ [.closing])

def expr {l : Level} : Derivation l → Expr
  | add a b => .op .add a.expr b.expr
  | product a => a.expr
  | mul a b => .op .mul a.expr b.expr
  | operand a => a.expr
  | value t => .value t
  | forever => .forever
  | group a => a.expr

theorem loosen (d : Derivation m) (h : l.power ≤ m.power) :
    ∃ d' : Derivation l, d'.tokens = d.tokens ∧ d'.expr = d.expr := by
  cases l <;> cases m <;> first
    | exact ⟨d,rfl,rfl⟩
    | exact ⟨.product d,rfl,rfl⟩
    | exact ⟨.operand d,rfl,rfl⟩
    | exact ⟨.product (.operand d),rfl,rfl⟩
    | exact absurd h (by decide)

@[simp] theorem getLast?_value (t : List Char) : (value t).tokens.getLast? = some (.value t) := rfl

@[simp] theorem getLast?_forever : forever.tokens.getLast? = some .forever := rfl

@[simp] theorem getLast?_group (a : Derivation .sum) : (group a).tokens.getLast? = some .closing := by
  change (.opening :: a.tokens ++ [Token.closing]).getLast? = some .closing
  exact List.getLast?_concat

/-- Phrases are read off from the end: what stands before one of them tells where it begins, and the
last operator of its level tells its parts. -/
theorem tokens_injective {d d' : Derivation l} {before before' : List Token}
    (h : before ++ d.tokens = before' ++ d'.tokens) (hopen : l.Opens before)
    (hopen' : l.Opens before') : d = d' ∧ before = before' := by
  induction d generalizing before before' with
  | add a b iha ihb =>
    cases d' with
    | add a' b' =>
      have hlast : (before ++ a.tokens ++ [.plus]) ++ b.tokens =
          (before' ++ a'.tokens ++ [.plus]) ++ b'.tokens := by simpa [tokens] using h
      obtain ⟨rfl,hfirst⟩ := ihb hlast (by simp [Level.Opens]) (by simp [Level.Opens])
      obtain ⟨rfl,rfl⟩ := iha (List.append_cancel_right hfirst) hopen hopen'
      exact ⟨rfl,rfl⟩
    | product a' =>
      have hlast : (before ++ a.tokens ++ [.plus]) ++ b.tokens = before' ++ a'.tokens := by
        simpa [tokens] using h
      obtain ⟨-,rfl⟩ := ihb hlast (by simp [Level.Opens]) hopen'.2
      exact absurd hopen'.1 (by simp)
  | product a iha =>
    cases d' with
    | add a' b' =>
      have hlast : before ++ a.tokens = (before' ++ a'.tokens ++ [.plus]) ++ b'.tokens := by
        simpa [tokens] using h
      obtain ⟨-,rfl⟩ := iha hlast hopen.2 (by simp [Level.Opens])
      exact absurd hopen.1 (by simp)
    | product a' =>
      obtain ⟨rfl,rfl⟩ := iha h hopen.2 hopen'.2
      exact ⟨rfl,rfl⟩
  | mul a b iha ihb =>
    cases d' with
    | mul a' b' =>
      have hlast : (before ++ a.tokens ++ [.times]) ++ b.tokens =
          (before' ++ a'.tokens ++ [.times]) ++ b'.tokens := by simpa [tokens] using h
      obtain ⟨rfl,hfirst⟩ := ihb hlast trivial trivial
      obtain ⟨rfl,rfl⟩ := iha (List.append_cancel_right hfirst) hopen hopen'
      exact ⟨rfl,rfl⟩
    | operand a' =>
      have hlast : (before ++ a.tokens ++ [.times]) ++ b.tokens = before' ++ a'.tokens := by
        simpa [tokens] using h
      obtain ⟨-,rfl⟩ := ihb hlast trivial trivial
      exact absurd hopen' (by simp [Level.Opens])
  | operand a iha =>
    cases d' with
    | mul a' b' =>
      have hlast : before ++ a.tokens = (before' ++ a'.tokens ++ [.times]) ++ b'.tokens := by
        simpa [tokens] using h
      obtain ⟨-,rfl⟩ := iha hlast trivial trivial
      exact absurd hopen (by simp [Level.Opens])
    | operand a' =>
      obtain ⟨rfl,rfl⟩ := iha h trivial trivial
      exact ⟨rfl,rfl⟩
  | value t =>
    have hlast := congrArg List.getLast? h
    cases d' with
    | value t' =>
      obtain ⟨hbefore,ht⟩ := List.append_inj' h rfl
      cases ht
      exact ⟨rfl,hbefore⟩
    | forever => simp at hlast
    | group a' => simp at hlast
  | forever =>
    have hlast := congrArg List.getLast? h
    cases d' with
    | value t' => simp at hlast
    | forever => exact ⟨rfl,List.append_cancel_right h⟩
    | group a' => simp at hlast
  | group a iha =>
    have hlast := congrArg List.getLast? h
    cases d' with
    | value t' => simp at hlast
    | forever => simp at hlast
    | group a' =>
      have hbody : before ++ [.opening] ++ a.tokens ++ [.closing] =
          before' ++ [.opening] ++ a'.tokens ++ [.closing] := by simpa [tokens] using h
      obtain ⟨rfl,hleft⟩ := iha (List.append_cancel_right hbody) (by simp [Level.Opens])
        (by simp [Level.Opens])
      exact ⟨rfl,List.append_cancel_right hleft⟩

end Derivation

/-- The first token does not go on with a left operand at this power: it is no value, and an operator
only if it binds less. -/
def Stops (power : Nat) (ts : List Token) : Prop :=
  ∀ t, ts.head? = some t → t.isValue = false ∧ ∀ o, t.op? = some o → o.leftPower < power

def Level.Closes : Level → List Token → Prop
  | .sum, rest => Stops Level.product.power rest
  | .product, rest => Stops Level.operand.power rest
  | .operand, _ => True

theorem Stops.mono {p q : Nat} {ts : List Token} (h : Stops p ts) (hpq : p ≤ q) : Stops q ts :=
  fun t ht => ⟨(h t ht).1,fun o ho => Nat.lt_of_lt_of_le ((h t ht).2 o ho) hpq⟩

theorem stops_nil (p : Nat) : Stops p [] := by
  intro t ht
  cases ht

theorem op?_token (o : Op) : o.token.op? = some o := by cases o <;> rfl

theorem isValue_token (o : Op) : o.token.isValue = false := by cases o <;> rfl

theorem stops_op {o : Op} {p : Nat} {ts : List Token} : Stops p (o.token :: ts) ↔ o.leftPower < p := by
  constructor
  · intro h
    exact (h o.token rfl).2 o (op?_token o)
  · intro h t ht
    cases ht
    refine ⟨isValue_token o,fun o' ho => ?_⟩
    rw [op?_token] at ho
    cases ho
    exact h

theorem stops_of_op?_eq_none {t : Token} (hvalue : t.isValue = false) (hop : t.op? = none) (p : Nat)
    (ts : List Token) : Stops p (t :: ts) := by
  intro t' ht
  cases ht
  exact ⟨hvalue,by simp [hop]⟩

def Op.level : Op → Level
  | .add => .sum
  | .mul => .product

def Op.rightLevel : Op → Level
  | .add => .product
  | .mul => .operand

theorem Op.power_rightLevel (o : Op) : o.rightLevel.power = o.rightPower := by cases o <;> rfl

theorem Op.closes_level (o : Op) (rest : List Token) :
    o.level.Closes rest = Stops o.rightPower rest := by cases o <;> rfl

theorem Op.le_leftPower {o : Op} {l : Level} : l.power ≤ o.leftPower ↔ l.power ≤ o.level.power := by
  cases o <;> cases l <;> decide

theorem Op.level_le {o : Op} {m : Level} {rest : List Token} (h : m.Closes (o.token :: rest)) :
    o.level.power ≤ m.power := by
  cases o <;> cases m <;> first
    | decide
    | exact absurd (stops_op.mp h) (by decide)

def Derivation.apply : (o : Op) → Derivation o.level → Derivation o.rightLevel → Derivation o.level
  | .add, a, b => .add a b
  | .mul, a, b => .mul a b

@[simp] theorem Derivation.tokens_apply (o : Op) (a : Derivation o.level)
    (b : Derivation o.rightLevel) : (apply o a b).tokens = a.tokens ++ o.token :: b.tokens := by
  cases o <;> rfl

@[simp] theorem Derivation.expr_apply (o : Op) (a : Derivation o.level)
    (b : Derivation o.rightLevel) : (apply o a b).expr = .op o a.expr b.expr := by
  cases o <;> rfl

section
variable {fuel power : Nat} {o : Op} {e left right : Expr} {ts rest rest' : List Token}

theorem parse_stops (h : Stops power ts) :
    Expr.parse (fuel + 1) power (some e) ts = .ok (e,ts) := by
  cases ts with
  | nil => rfl
  | cons t rest =>
    obtain ⟨hvalue,hop⟩ := h t rfl
    cases ho : t.op? with
    | none => simp [Expr.parse, hvalue, ho]
    | some o => simp [Expr.parse, hvalue, ho, hop o ho]

theorem parse_op_ok (h : power ≤ o.leftPower)
    (hright : Expr.parse fuel o.rightPower none rest = .ok (right,rest')) :
    Expr.parse (fuel + 1) power (some left) (o.token :: rest) =
      Expr.parse fuel power (some (.op o left right)) rest' := by
  simp [Expr.parse, isValue_token, op?_token, Nat.not_lt.mpr h, hright]

theorem parse_op_error {x : SequenceError} (h : power ≤ o.leftPower)
    (hright : Expr.parse fuel o.rightPower none rest = .error x) :
    Expr.parse (fuel + 1) power (some left) (o.token :: rest) = .error (blame o x) := by
  simp [Expr.parse, isValue_token, op?_token, Nat.not_lt.mpr h, hright]

theorem parse_group : Expr.parse (fuel + 1) power none (.opening :: rest) =
    match Expr.parse fuel Level.sum.power none rest with
    | .error x => .error x
    | .ok (e,.closing :: rest) => Expr.parse fuel power (some e) rest
    | .ok _ => .error .unbalanced := rfl

/-- Once its left operand is read, and if its right operand can be read, an operation is read. -/
theorem parse_operation {p n : Nat} {as bs : List Token} (hp : p ≤ o.leftPower)
    (hstop : Stops o.rightPower rest)
    (hleft : ∃ g, 2 * bs.length + n + 2 ≤ g ∧ Expr.parse fuel p none (as ++ o.token :: (bs ++ rest)) =
      Expr.parse g p (some left) (o.token :: (bs ++ rest)))
    (hright : ∀ g, 2 * bs.length + 1 ≤ g → ∃ k, 1 ≤ k ∧
      Expr.parse g o.rightPower none (bs ++ rest) = Expr.parse k o.rightPower (some right) rest) :
    ∃ g, n ≤ g ∧ Expr.parse fuel p none (as ++ o.token :: (bs ++ rest)) =
      Expr.parse g p (some (.op o left right)) rest := by
  obtain ⟨g,hg,hleft⟩ := hleft
  obtain ⟨g,rfl⟩ : ∃ g', g = g' + 1 := ⟨g - 1,by omega⟩
  obtain ⟨k,hk,hright⟩ := hright g (by omega)
  obtain ⟨k,rfl⟩ : ∃ k', k = k' + 1 := ⟨k - 1,by omega⟩
  rw [parse_stops hstop] at hright
  exact ⟨g,by omega,hleft.trans (parse_op_ok hp hright)⟩

end

/-- Reading a phrase comes to its expression as the left operand of what follows. -/
theorem Derivation.parse_tokens {l : Level} (d : Derivation l) {p n fuel : Nat} {rest : List Token}
    (hp : p ≤ l.power) (hrest : l.Closes rest) (hfuel : 2 * d.tokens.length + n ≤ fuel) :
    ∃ g, n ≤ g ∧ Expr.parse fuel p none (d.tokens ++ rest) = Expr.parse g p (some d.expr) rest := by
  induction d generalizing p n fuel rest with
  | add a b iha ihb =>
    simp only [tokens, List.length_append, List.length_cons] at hfuel
    rw [tokens, List.append_assoc]
    refine parse_operation (o := .add) (Nat.le_trans hp (by decide)) hrest ?_ ?_
    · exact iha hp ((stops_op (o := .add)).mpr (by decide)) (by omega)
    · intro g hg
      exact ihb (Nat.le_refl _) (hrest.mono (by decide)) hg
  | product a iha => exact iha (Nat.le_trans hp (by decide)) (hrest.mono (by decide)) hfuel
  | mul a b iha ihb =>
    simp only [tokens, List.length_append, List.length_cons] at hfuel
    rw [tokens, List.append_assoc]
    refine parse_operation (o := .mul) (Nat.le_trans hp (by decide)) hrest ?_ ?_
    · exact iha hp ((stops_op (o := .mul)).mpr (by decide)) (by omega)
    · intro g hg
      exact ihb (Nat.le_refl _) trivial hg
  | operand a iha => exact iha (Nat.le_trans hp (by decide)) trivial hfuel
  | value t =>
    obtain ⟨g,rfl⟩ : ∃ g, fuel = g + 1 := ⟨fuel - 1,by simp [tokens] at hfuel; omega⟩
    exact ⟨g,by simp [tokens] at hfuel; omega,rfl⟩
  | forever =>
    obtain ⟨g,rfl⟩ : ∃ g, fuel = g + 1 := ⟨fuel - 1,by simp [tokens] at hfuel; omega⟩
    exact ⟨g,by simp [tokens] at hfuel; omega,rfl⟩
  | group a iha =>
    have hclosing : ∀ p, Stops p (.closing :: rest) := fun p => stops_of_op?_eq_none rfl rfl p rest
    simp only [tokens, List.length_append, List.length_cons, List.length_nil] at hfuel
    obtain ⟨f,rfl⟩ : ∃ f, fuel = f + 1 := ⟨fuel - 1,by omega⟩
    have hbody : ∃ g, 1 ≤ g ∧ Expr.parse f Level.sum.power none (a.tokens ++ .closing :: rest) =
        Expr.parse g Level.sum.power (some a.expr) (.closing :: rest) :=
      iha (Nat.le_refl _) (hclosing _) (by omega)
    obtain ⟨g,hg,hbody⟩ := hbody
    obtain ⟨g,rfl⟩ : ∃ g', g = g' + 1 := ⟨g - 1,by omega⟩
    rw [parse_stops (hclosing _)] at hbody
    refine ⟨f,by omega,?_⟩
    simp only [tokens, List.append_assoc, List.cons_append, List.nil_append]
    rw [parse_group, hbody]
    rfl

def Level.Reads (l : Level) (ts : List Token) : Parsed → Prop
  | .ok (e,rest) => ∃ d : Derivation l, d.tokens ++ rest = ts ∧ d.expr = e ∧ Stops l.power rest
  | .error x => x.IsMalformed

/-- With this fuel all phrases are read to their ends, from the start and from a left operand on. -/
structure Reading (fuel : Nat) : Prop where
  start : ∀ (l : Level) (ts : List Token), ts.length < fuel →
    l.Reads ts (Expr.parse fuel l.power none ts)
  resume : ∀ (l m : Level) (d : Derivation m) (ts : List Token), l.power ≤ m.power → m.Closes ts →
    ts.length < fuel → l.Reads (d.tokens ++ ts) (Expr.parse fuel l.power (some d.expr) ts)

namespace Reading
variable {fuel : Nat} {l m : Level} {ts rest : List Token}

theorem start_succ (h : Reading fuel) (hfuel : ts.length < fuel + 1) :
    l.Reads ts (Expr.parse (fuel + 1) l.power none ts) := by
  cases ts with
  | nil => trivial
  | cons t rest =>
    have hrest : rest.length < fuel := by simpa using hfuel
    cases t with
    | value t => exact h.resume l .operand (.value t) rest (by cases l <;> decide) trivial hrest
    | forever => exact h.resume l .operand .forever rest (by cases l <;> decide) trivial hrest
    | plus => trivial
    | times => trivial
    | closing => trivial
    | opening =>
      have hbody := h.start .sum rest hrest
      rw [parse_group]
      cases hp : Expr.parse fuel Level.sum.power none rest with
      | error x =>
        rw [hp] at hbody
        exact hbody
      | ok p =>
        obtain ⟨e,after⟩ := p
        rw [hp] at hbody
        obtain ⟨d,rfl,rfl,-⟩ := hbody
        split
        · contradiction
        · rename_i e' after' heq
          cases heq
          have hgroup := h.resume l .operand (.group d) after' (by cases l <;> decide) trivial
            (by simp at hrest; omega)
          simpa [Derivation.tokens, Derivation.expr] using hgroup
        · trivial

theorem resume_op (h : Reading fuel) {o : Op} (a : Derivation o.level) (hl : l.power ≤ o.level.power)
    (hfuel : rest.length < fuel) : l.Reads (a.tokens ++ o.token :: rest)
      (Expr.parse (fuel + 1) l.power (some a.expr) (o.token :: rest)) := by
  have hleft := Op.le_leftPower.mpr hl
  have hright := h.start o.rightLevel rest hfuel
  rw [o.power_rightLevel] at hright
  cases hp : Expr.parse fuel o.rightPower none rest with
  | error x =>
    rw [hp] at hright
    rw [parse_op_error hleft hp]
    exact isMalformed_blame hright o
  | ok p =>
    obtain ⟨e,after⟩ := p
    rw [hp] at hright
    obtain ⟨b,rfl,rfl,hstop⟩ := hright
    rw [parse_op_ok hleft hp]
    have hclose : o.level.Closes after := by
      rw [o.closes_level, ← o.power_rightLevel]
      exact hstop
    have hnext := h.resume l o.level (.apply o a b) after hl hclose (by simp at hfuel; omega)
    simpa using hnext

theorem resume_succ (h : Reading fuel) (d : Derivation m) (hlm : l.power ≤ m.power)
    (hclose : m.Closes ts) (hfuel : ts.length < fuel + 1) :
    l.Reads (d.tokens ++ ts) (Expr.parse (fuel + 1) l.power (some d.expr) ts) := by
  by_cases hstop : Stops l.power ts
  · rw [parse_stops hstop]
    obtain ⟨d',htokens,hexpr⟩ := d.loosen hlm
    exact ⟨d',by rw [htokens],hexpr,hstop⟩
  · cases ts with
    | nil => exact absurd (stops_nil _) hstop
    | cons t rest =>
      have hrest : rest.length < fuel := by simpa using hfuel
      have hop : ∀ o : Op, t = o.token →
          l.Reads (d.tokens ++ t :: rest) (Expr.parse (fuel + 1) l.power (some d.expr) (t :: rest)) := by
        rintro o rfl
        obtain ⟨a,htokens,hexpr⟩ := d.loosen (Op.level_le hclose)
        have hle := Op.le_leftPower.mp (Nat.not_lt.mp fun hlt => hstop (stops_op.mpr hlt))
        rw [← htokens, ← hexpr]
        exact h.resume_op a hle hrest
      cases t with
      | value t => trivial
      | forever => trivial
      | plus => exact hop .add rfl
      | times => exact hop .mul rfl
      | opening => exact absurd (stops_of_op?_eq_none rfl rfl _ _) hstop
      | closing => exact absurd (stops_of_op?_eq_none rfl rfl _ _) hstop

theorem all (fuel : Nat) : Reading fuel := by
  induction fuel with
  | zero => exact ⟨fun _ _ h => absurd h (Nat.not_lt_zero _),fun _ _ _ _ _ _ h => absurd h (Nat.not_lt_zero _)⟩
  | succ fuel ih =>
    exact ⟨fun _ _ h => ih.start_succ h,fun _ _ d _ hlm hclose h => ih.resume_succ d hlm hclose h⟩

end Reading

theorem Derivation.ofTokens_tokens (d : Derivation .sum) : Expr.ofTokens d.tokens = .ok d.expr := by
  have hread : ∃ g, 1 ≤ g ∧ Expr.parse (2 * d.tokens.length + 1) 0 none (d.tokens ++ []) =
      Expr.parse g 0 (some d.expr) [] := d.parse_tokens (Nat.le_refl _) (stops_nil _) (Nat.le_refl _)
  obtain ⟨g,hg,hparse⟩ := hread
  obtain ⟨g,rfl⟩ : ∃ g', g = g' + 1 := ⟨g - 1,by omega⟩
  rw [List.append_nil, parse_stops (stops_nil _)] at hparse
  simp only [Expr.ofTokens, hparse]

/-- All the tokens are a sum, or they are malformed. -/
theorem ofTokens_reads (ts : List Token) :
    (∃ d : Derivation .sum, d.tokens = ts) ∨ ∃ x, Expr.ofTokens ts = .error x ∧ x.IsMalformed := by
  have hreads := (Reading.all (2 * ts.length + 1)).start .sum ts (by omega)
  change Level.sum.Reads ts (Expr.parse _ 0 none ts) at hreads
  unfold Expr.ofTokens
  split
  · rename_i x hparse
    rw [hparse] at hreads
    exact Or.inr ⟨x,rfl,hreads⟩
  · rename_i e hparse
    rw [hparse] at hreads
    obtain ⟨d,htokens,-⟩ := hreads
    rw [List.append_nil] at htokens
    exact Or.inl ⟨d,htokens⟩
  · exact Or.inr ⟨.unbalanced,rfl,trivial⟩

/-- The expression of some tokens is that of their derivation as a sum, of which there is at most
one; tokens that have none are malformed. -/
theorem ofTokens_derives (ts : List Token) :
    (∀ e, Expr.ofTokens ts = .ok e ↔ ∃ d : Derivation .sum, d.tokens = ts ∧ d.expr = e) ∧
    (∀ d d' : Derivation .sum, d.tokens = ts → d'.tokens = ts → d = d') ∧
    ((∀ d : Derivation .sum, d.tokens ≠ ts) →
      ∃ x, Expr.ofTokens ts = .error x ∧ x.IsMalformed ∧ x.isInputFault = true) := by
  refine ⟨fun e => ⟨fun h => ?_,?_⟩,?_,fun h => ?_⟩
  · obtain ⟨d,rfl⟩ | ⟨x,hx,-⟩ := ofTokens_reads ts
    · rw [d.ofTokens_tokens] at h
      exact ⟨d,rfl,Except.ok.inj h⟩
    · rw [hx] at h
      contradiction
  · rintro ⟨d,rfl,rfl⟩
    exact d.ofTokens_tokens
  · intro d d' hd hd'
    have h : [] ++ d.tokens = [] ++ d'.tokens := hd.trans hd'.symm
    exact (Derivation.tokens_injective h (by simp [Level.Opens]) (by simp [Level.Opens])).1
  · obtain ⟨d,hd⟩ | ⟨x,hx,hmalformed⟩ := ofTokens_reads ts
    · exact absurd hd (h d)
    · exact ⟨x,hx,hmalformed,hmalformed.isInputFault⟩

end Sequence
end Countdown
