import Countdown.Proofs.Session.Forward
set_option autoImplicit false

namespace Countdown

namespace Timer

variable {t : Timer} {now : Int}

theorem Shaped.contradiction? (h : t.Shaped) : Snapshot.contradiction? t.fields = none := by
  unfold Snapshot.contradiction? fields
  dsimp only
  rw [if_neg, if_neg]
  · rintro ⟨hr,hs⟩
    exact hs (h.resumed hr).2
  · rintro ⟨hnone,hr | hs⟩
    · exact (h.resumed hr).1 hnone
    · exact h.stopped hs hnone

theorem Forward.check_snapshot (h : t.Forward now) (hs : t.Shaped) (input : String) (consumed : Nat) :
    Snapshot.check ⟨t.fields,input,consumed⟩ = .ok ⟨t.fields,input,consumed⟩ := by
  have hnone : Snapshot.negativeFields ⟨t.fields,input,consumed⟩ = [] := by
    have hduration : ¬ t.fields.duration < 0 := Int.not_lt.mpr h.duration
    have haccumulated : ¬ t.fields.accumulated < 0 := Int.not_lt.mpr h.accumulated
    simp [Snapshot.negativeFields, hduration, haccumulated]
  unfold Snapshot.check
  rw [hnone, hs.contradiction?]
  rfl

end Timer

namespace World

variable {w w₁ w₂ w' : World} {separator text : String} {now : Int} {k n j : Nat} {ss : List Snapshot}
  {s : Snapshot}

theorem exists_map_some {α β : Type} {f : α → Option β} {xs : List α} (h : ∀ x ∈ xs, (f x).isSome = true) :
    ∃ ys : List β, xs.map f = ys.map some := by
  induction xs with
  | nil => exact ⟨[],rfl⟩
  | cons x xs ih =>
    obtain ⟨y,hy⟩ := Option.isSome_iff_exists.mp (h x List.mem_cons_self)
    obtain ⟨ys,hys⟩ := ih fun z hz => h z (List.mem_cons_of_mem _ hz)
    exact ⟨y :: ys,by rw [List.map_cons, List.map_cons, hy, hys]⟩

/-- An export is of all listed timers, or of none. -/
theorem exists_exported (hw : w.Wired) : (∃ text, w.exported = .ok text) ↔
    ∀ k ∈ w.listed, ∀ s, w.saved? k = some s → s.check = .ok s ∧ s.Short := by
  have hall : ∀ k ∈ w.listed, (w.saved? k).isSome = true := by
    intro k hk
    obtain ⟨e,he,-⟩ := mem_listed.mp hk
    exact hw.saved? (List.getElem?_eq_some_iff.mp he).1
  have hmem : ∀ {ss : List Snapshot} {s : Snapshot}, w.listed.map w.saved? = ss.map some →
      (s ∈ ss ↔ ∃ k ∈ w.listed, w.saved? k = some s) := by
    intro ss s hmap
    rw [← List.mem_map, hmap]
    simp
  constructor
  · rintro ⟨text,htext⟩ k hk s hs
    obtain ⟨ss,hss,hwritable,-⟩ := exported_eq_ok.mp htext
    obtain ⟨hmap,hchecked⟩ := (snapshots_eq_ok hall).mp hss
    have hs : s ∈ ss := (hmem hmap).mpr ⟨k,hk,hs⟩
    exact ⟨hchecked s hs,Snapshot.isWritable_toJson.mp (hwritable s hs)⟩
  · intro h
    obtain ⟨ss,hmap⟩ := exists_map_some hall
    have heach : ∀ s ∈ ss, s.check = .ok s ∧ s.Short := by
      intro s hs
      obtain ⟨k,hk,hs⟩ := (hmem hmap).mp hs
      exact h k hk s hs
    have hss : w.snapshots w.listed = .ok ss := (snapshots_eq_ok hall).mpr ⟨hmap,fun s hs => (heach s hs).1⟩
    exact ⟨_,exported_eq_ok.mpr ⟨ss,hss,fun s hs => Snapshot.isWritable_toJson.mpr (heach s hs).2,rfl⟩⟩

/-- With time having gone forward, only whole numbers that are too long can stop an export. -/
theorem Faithful.exported (h : w.Faithful separator now) (hg : w.Guarded) (hw : w.Wired)
    (hshort : ∀ k ∈ w.listed, ∀ s, w.saved? k = some s → s.Short) : ∃ text, w.exported = .ok text := by
  refine (exists_exported hw).mpr fun k hk s hs => ⟨?_,hshort k hk s hs⟩
  obtain ⟨e,t,-,ht,rfl⟩ := saved?_eq_some.mp hs
  exact (h.timers t (List.mem_of_getElem? ht)).check_snapshot (hg.timers _ t ht).shaped _ _

theorem Restoring.listed (h : w.Restoring ss w') :
    w'.listed = w.listed ++ List.range' w.entries.length ss.length := by
  have hold : (List.range w.entries.length).filter (fun k => w'.entries[k]?.any fun e => e.listed) = w.listed := by
    refine List.filter_congr fun k hk => ?_
    rw [h.entries k (List.mem_range.mp hk)]
  have hnew : (List.range' w.entries.length ss.length).filter (fun k => w'.entries[k]?.any fun e => e.listed) =
      List.range' w.entries.length ss.length := by
    refine List.filter_eq_self.mpr fun k hk => ?_
    obtain ⟨j,hj,rfl⟩ := List.mem_range'.mp hk
    obtain ⟨t,queue,logs,-,he,-⟩ := h.added j _ (List.getElem?_eq_getElem hj)
    rw [Nat.one_mul, he]
    rfl
  rw [World.listed, h.entriesLength, List.range_eq_range', ← List.range'_append_1, List.filter_append,
    Nat.zero_add, hnew, ← List.range_eq_range', hold]

theorem view?_of_same (hw : w.Wired) (hk : k < w.entries.length) (hnow : w'.now = w.now)
    (hentry : w'.entries[k]? = w.entries[k]?) (htimers : ∀ n, n < w.timers.length → w'.timers[n]? = w.timers[n]?) :
    w'.view? k = w.view? k := by
  have he := List.getElem?_eq_getElem hk
  have hn := hw.timers k w.entries[k].timer (by rw [owner?, he]; rfl)
  simp only [view?, hentry, he, Option.bind_eq_bind, Option.bind_some, htimers _ hn, hnow]

theorem Restoring.view?_old (h : w.Restoring ss w') (hw : w.Wired) (hk : k < w.entries.length) :
    w'.view? k = w.view? k :=
  view?_of_same hw hk h.now (h.entries k hk) h.timers

/-- A restored entry is to be seen as the one that was saved. -/
theorem Restoring.view?_new (h : w₂.Restoring ss w') (h₁ : w₁.Faithful w₂.separator w₂.now)
    (hs : ss[j]? = some s) (hk : w₁.saved? k = some s) : ∃ v, w₁.view? k = some v ∧
      w'.view? (w₂.entries.length + j) = some { v with id := Entry.idOf (w₂.entries.length + j) } := by
  obtain ⟨e,t,he,ht,rfl⟩ := saved?_eq_some.mp hk
  obtain ⟨t',queue,logs,hqueue,he',ht',hrestores,-⟩ := h.added j _ hs
  have hof := h₁.entries e (List.mem_of_getElem? he)
  have hrestored : restoreQueue w₂.separator ⟨t.fields,e.input,e.consumed⟩ = .ok (e.queue,[]) :=
    restoreQueue_queueOf hof rfl
  rw [hrestored] at hqueue
  cases hqueue
  have hnow : w'.now = w₁.now := h.now.trans h₁.now.symm
  refine ⟨e.view k t w₁.now,view?_eq he ht,?_⟩
  rw [view?_eq he' ht', hnow]
  rw [hrestores.eq_of_fields]
  rfl

theorem Restoring.live_wake (h : w.Restoring ss w') (hj : j < ss.length) {v : View}
    (hv : w'.view? (w.entries.length + j) = some v) (hr : v.running = true) (hf : v.finished = false) :
    ∃ n u, w'.owner? (w.entries.length + j) = some n ∧ w'.line.live n = [u] ∧
      0 < u.wait ∧ u.wait ≤ maxWait := by
  obtain ⟨t,queue,logs,-,he,ht,hrestores,-⟩ := h.added j _ (List.getElem?_eq_getElem hj)
  rw [view?_eq he ht] at hv
  cases hv
  have hleft : 0 < t.remaining w.now := by
    have hnot : ¬ t.remaining w'.now ≤ 0 := of_decide_eq_false hf
    rw [h.now] at hnot
    exact Int.not_le.mp hnot
  obtain ⟨i,hi⟩ := Option.ne_none_iff_exists'.mp (hrestores.armed.mpr ⟨hr,hleft⟩)
  obtain ⟨u,-,hlive,hwait⟩ := (h.guarded.timers _ t ht).keeps.live_eq hi
  exact ⟨_,u,by rw [owner?, he]; rfl,hlive,hwait⟩

end World

namespace Session

variable {separator : String}

/-- All timers of one deck are exported, and are imported into another one with the same separator and
under the same clock: that has them at the end of its list as they were, and nothing is logged. -/
theorem import_exported {s₁ s₂ : Session} (h₁ : Forward separator s₁ []) (h₂ : Reached s₂ [])
    (hsep : s₂.world.separator = separator) (hnow : s₂.now = s₁.now)
    (hshort : ∀ k ∈ s₁.world.listed, ∀ x, s₁.world.saved? k = some x → x.Short) :
    ∃ (text : String) (s₂' : Session) (ks : List Nat),
      (∀ fuel, s₁.run fuel .exportAll = some ({ s₁ with exported := text },.ok (.text text))) ∧
      (∀ fuel, s₂.run fuel (.importAll (some text)) = some (s₂',.ok (.entries ks))) ∧
      ks.length = s₁.world.listed.length ∧ s₂'.world.listed = s₂.world.listed ++ ks ∧
      (∀ k ∈ s₂.world.listed, s₂'.world.view? k = s₂.world.view? k) ∧
      (∃ ns, s₂'.world.journal = s₂.world.journal ++ ns ∧ ∀ l, .logged l ∉ ns) ∧
      ∀ j k k' : Nat, s₁.world.listed[j]? = some k → ks[j]? = some k' → ∃ v, s₁.world.view? k = some v ∧
        s₂'.world.view? k' = some { v with id := Entry.idOf k' } ∧
        (v.running = true → v.finished = false → ∃ n u, s₂'.world.owner? k' = some n ∧
          s₂'.world.line.live n = [u] ∧ 0 < u.wait ∧ u.wait ≤ maxWait) := by
  have hw₁ := h₁.onward.1.world
  have hwired := h₁.reached.wired
  obtain ⟨text,htext⟩ := hw₁.exported h₁.reached.guarded hwired hshort
  obtain ⟨w',ss,himport,hmap,hss,hrestoring⟩ := hw₁.imports hwired htext h₂.guarded hsep
  have hlength : ss.length = s₁.world.listed.length := by simpa using (congrArg List.length hmap).symm
  refine ⟨text,s₂.withWorld w',List.range' s₂.world.entries.length ss.length,fun fuel => ?_,fun fuel => ?_,?_,
    hrestoring.listed,fun k hk => ?_,?_,fun j k k' hj hj' => ?_⟩
  · simp [Session.run, perform, htext, ok, settle_nil]
  · exact run_importAll.mpr ⟨w',himport,rfl⟩
  · rw [List.length_range', hlength]
  · obtain ⟨e,he,-⟩ := World.mem_listed.mp hk
    exact hrestoring.view?_old h₂.wired (List.getElem?_eq_some_iff.mp he).1
  · rw [← hsep] at hss
    exact hrestoring.unlogged hss
  · obtain ⟨hlt,rfl⟩ := List.getElem?_eq_some_iff.mp hj'
    have hlt' : j < ss.length := by simpa using hlt
    have hs := List.getElem?_eq_getElem hlt'
    have hk : s₁.world.saved? k = some ss[j] := by
      have hboth := congrArg (fun xs => xs[j]?) hmap
      simpa [hj, hs] using hboth
    rw [List.getElem_range', Nat.one_mul]
    rw [← hsep, ← hnow] at hw₁
    obtain ⟨v,hv,hv'⟩ := hrestoring.view?_new hw₁ hs hk
    exact ⟨v,hv,hv',fun hr hf => hrestoring.live_wake hlt' hv' hr hf⟩

/-- The second half minute of two has gone on for ten seconds. -/
theorem import_exported_half_minutes :
    let s₀ : Session := { world := { line := { now := 1000 } } }
    let s₂ : Session := { world := { line := { now := 41000 } } }
    let cs := [Command.create "30s * 2" none,.act (.id "t1") .start,.advance 40000]
    ∃ (s₁ : Session) (text : String) (s₂' : Session) (k : Nat) (v : View), s₀.runAll 20 cs = some s₁ ∧
      s₁.run 0 .exportAll = some ({ s₁ with exported := text },.ok (.text text)) ∧
      s₂.run 0 (.importAll (some text)) = some (s₂',.ok (.entries [k])) ∧ s₂'.world.listed = [k] ∧
      s₂'.world.view? k = some v ∧ v.input = "30s * 2" ∧ v.consumed = 2 ∧ v.running = true ∧
      v.remaining = 20000 ∧
      ∃ n u, s₂'.world.owner? k = some n ∧ s₂'.world.line.live n = [u] := by
  intro s₀ s₂ cs
  have hfresh : Reached s₂ [] := .fresh ⟨by simp [s₂],rfl,rfl,rfl,rfl,rfl⟩
  have hfirst : Forward ":" s₀ [] := .fresh ⟨by simp [s₀],rfl,rfl,rfl,rfl,rfl⟩ (by simp [s₀]) rfl
  have hplain : ∀ c ∈ cs, c.Plain := by
    intro c hc
    simp only [cs, List.mem_cons, List.not_mem_nil, or_false] at hc
    obtain rfl | rfl | rfl := hc
    · exact .inl ⟨rfl,by simp [Command.steps]⟩
    · exact .inl ⟨rfl,by simp [Command.steps]⟩
    · exact .inr ⟨40000,by decide,.inl rfl⟩
  have hstate : (s₀.runAll 20 cs).map (fun s => (s.now,s.world.listed,s.world.saved? 0,s.world.view? 0)) =
      some (41000,[0],some ⟨⟨30000,some 31000,some 31000,none,0,false⟩,"30s * 2",2⟩,
        some ⟨"t1","30s * 2",2,none,.running,30000,10000,20000,true,false,true,false,false⟩) := by decide +kernel
  obtain ⟨s₁,hrun,hs₁⟩ := Option.map_eq_some_iff.mp hstate
  simp only [Prod.mk.injEq] at hs₁
  obtain ⟨hnow,hlisted,hsaved,hview⟩ := hs₁
  have hshort : ∀ k ∈ s₁.world.listed, ∀ x, s₁.world.saved? k = some x → x.Short := by
    intro k hk x hx
    rw [hlisted, List.mem_singleton] at hk
    rw [hk, hsaved] at hx
    cases hx
    have hsmall : ∀ n ∈ Snapshot.numbers ⟨⟨30000,some 31000,some 31000,none,0,false⟩,"30s * 2",2⟩,
        n.natAbs < Nat.pow 10 5 := by decide
    have hpow : ∀ d, 5 ≤ d → Nat.pow 10 5 ≤ Nat.pow 10 d := fun d hd => Nat.pow_le_pow_right (by decide) hd
    exact fun n hn => Nat.lt_of_lt_of_le (hsmall n hn) (hpow _ (by decide))
  obtain ⟨text,s₂',ks,hexport,himport,hcount,hlist,-,-,heach⟩ :=
    import_exported (hfirst.runAll hplain hrun) hfresh rfl hnow.symm hshort
  rw [hlisted] at hcount heach
  obtain ⟨k,rfl⟩ := List.length_eq_one_iff.mp hcount
  obtain ⟨v,hv,hv',hwake⟩ := heach 0 0 k rfl rfl
  rw [hview] at hv
  cases hv
  obtain ⟨n,u,howner,hlive,-⟩ := hwake rfl rfl
  exact ⟨s₁,text,s₂',k,_,hrun,hexport 0,himport 0,hlist,hv',rfl,rfl,rfl,rfl,n,u,howner,hlive⟩

/-- A timer with a duration that is too long to be written cannot be exported. -/
theorem import_exported_too_long :
    let s₀ : Session := { world := { line := { now := 1000 } } }
    let cs := [Command.create "5m" none,.act (.id "t1") (.add (.int (Nat.pow 10 4300 : Nat)))]
    ∃ s, s₀.runAll 9 cs = some s ∧ Forward ":" s [] ∧ s.world.listed = [0] ∧
      s.run 0 .exportAll = some (s,.error .unwritable) := by
  intro s₀ cs
  have hfirst : Forward ":" s₀ [] := .fresh ⟨by simp [s₀],rfl,rfl,rfl,rfl,rfl⟩ (by simp [s₀]) rfl
  have hplain : ∀ c ∈ cs, c.Plain := by
    intro c hc
    simp only [cs, List.mem_cons, List.not_mem_nil, or_false] at hc
    obtain rfl | rfl := hc <;> exact .inl ⟨rfl,by simp [Command.steps]⟩
  have hstate : (s₀.runAll 9 cs).map (fun s => (s.world.listed,s.world.exported)) =
      some ([0],.error .unwritable) := by decide +kernel
  obtain ⟨s,hrun,hs⟩ := Option.map_eq_some_iff.mp hstate
  obtain ⟨hlisted,hexport⟩ := Prod.mk.inj hs
  exact ⟨s,hrun,hfirst.runAll hplain hrun,hlisted,by simp [Session.run, perform, hexport, failed]⟩

end Session
end Countdown
