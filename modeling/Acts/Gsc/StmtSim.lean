import Acts.Gsc.StmtCode

/-!
# The nodes of a function do what its statements mean

* `Follows` — from a configuration the machine performs the events of a result, and stands where
  its outcome leads: behind the statement, at the break or the continue location, or halted.
* `Stmt.follows` — the nodes of a statement follow its meaning, in every place of a function.
* `function_simulates` — so a function performs the events of its body, and no others.
-/

set_option autoImplicit false

namespace Acts.Gsc

open Acts.Machine

variable {E S σ V : Type}

/-! ## Configurations -/

/-- A running configuration; the variables of the compiler may be anything. -/
structure Ready (pc : Nat) (s : σ) (stack : List V) (c : Config σ V) : Prop where
  pc : c.pc = pc
  store : c.store = s
  stack : c.stack = stack
  halted : c.halted = none

variable (sem : Sem E S σ V) (code : List (Node E S))

/-- One step to a running configuration; the variables of the compiler are as before. -/
def Moves (c : Config σ V) (tr : List (Event E S)) (pc : Nat) (s : σ) (stack : List V) : Prop :=
  ∃ c', Run (step sem code) 1 c tr c' ∧ Ready pc s stack c' ∧ c'.temps = c.temps

/-- Where the machine is after `n` steps that perform the events of a result. -/
def Reached (fuel exit : Nat) (brk cont : Option Nat) (stack : List V) (r : Result E S σ V)
    (n : Nat) (c : Config σ V) : Prop :=
  match r.outcome with
  | .normal => Ready exit r.store stack c
  | .brk => ∃ l, brk = some l ∧ Ready (target code l) r.store stack c
  | .cont => ∃ l, cont = some l ∧ Ready (target code l) r.store stack c
  | .ret v => c.store = r.store ∧ c.halted = some v
  | .timeout => fuel ≤ n

def Follows (fuel exit : Nat) (brk cont : Option Nat) (stack : List V) (c : Config σ V)
    (r : Result E S σ V) : Prop :=
  ∃ n c', Run (step sem code) n c r.trace c' ∧ Reached code fuel exit brk cont stack r n c'

/-! ## Nodes -/

section Nodes

variable {sem code} {pc : Nat} {s : σ} {stack : List V} {c : Config σ V}
variable {seg : List (Node E S)}

theorem Ready.run_one (h : Ready pc s stack c) {n : Node E S} (hat : At code pc (n :: seg))
    {tr : List (Event E S)} {c' : Config σ V} (hn : execNode sem code c n = some (tr, c')) :
    Run (step sem code) 1 c tr c' := by
  apply Run.one
  rw [step, if_neg (by simp [h.halted]), h.pc, hat.head]
  exact hn

theorem Ready.label {l : Nat} (h : Ready pc s stack c) (hat : At code pc (.label l :: seg)) :
    Moves sem code c [] (pc + 1) s stack := by
  refine ⟨_, h.run_one hat rfl, ⟨?_, h.store, h.stack, h.halted⟩, rfl⟩
  rw [h.pc]

theorem Ready.inst {i : S} (h : Ready pc s stack c) (hat : At code pc (.inst i :: seg)) :
    Moves sem code c [.exec i] (pc + 1) (sem.exec i s) stack := by
  refine ⟨_, h.run_one hat rfl, ⟨?_, ?_, h.stack, h.halted⟩, rfl⟩
  · rw [h.pc]
  · rw [h.store]

theorem Ready.expr {e : E} (h : Ready pc s stack c) (hat : At code pc (.expr e :: seg)) :
    Moves sem code c [.eval e] (pc + 1) (sem.eval e s).2 ((sem.eval e s).1 :: stack) := by
  refine ⟨_, h.run_one hat rfl, ⟨?_, ?_, ?_, h.halted⟩, rfl⟩
  · rw [h.pc]
  · rw [h.store]
  · rw [h.store, h.stack]

theorem Ready.jump {l : Nat} (h : Ready pc s stack c) (hat : At code pc (.jump l .jump :: seg)) :
    Moves sem code c [] (target code l) s stack :=
  ⟨_, h.run_one hat rfl, ⟨rfl, h.store, h.stack, h.halted⟩, rfl⟩

theorem Ready.jumpOnFalse {l : Nat} {v : V} (h : Ready pc s (v :: stack) c)
    (hat : At code pc (.jump l .jumpOnFalse :: seg)) :
    Moves sem code c [] (if sem.truthy v then pc + 1 else target code l) s stack := by
  refine ⟨jumpTo code c (!sem.truthy v) l stack, h.run_one hat ?_,
    ⟨?_, h.store, rfl, h.halted⟩, rfl⟩
  · rw [execNode, h.stack]
  · simp only [jumpTo, h.pc]
    cases sem.truthy v <;> rfl

theorem Ready.jumpOnTrue {l : Nat} {v : V} (h : Ready pc s (v :: stack) c)
    (hat : At code pc (.jump l .jumpOnTrue :: seg)) :
    Moves sem code c [] (if sem.truthy v then target code l else pc + 1) s stack := by
  refine ⟨jumpTo code c (sem.truthy v) l stack, h.run_one hat ?_,
    ⟨?_, h.store, rfl, h.halted⟩, rfl⟩
  · rw [execNode, h.stack]
  · simp only [jumpTo, h.pc]

theorem Ready.evalLocalVariableCached {var : Nat} {v : V} (h : Ready pc s stack c)
    (hat : At code pc (.evalLocalVariableCached var :: seg)) (hv : c.temps var = some v) :
    Moves sem code c [] (pc + 1) s (v :: stack) := by
  refine ⟨{ c with pc := c.pc + 1, stack := v :: c.stack }, h.run_one hat ?_,
    ⟨?_, h.store, ?_, h.halted⟩, rfl⟩
  · rw [execNode, hv]
    rfl
  · rw [h.pc]
  · rw [h.stack]

theorem Ready.equal {a b : V} (h : Ready pc s (b :: a :: stack) c)
    (hat : At code pc (.equal :: seg)) :
    Moves sem code c [] (pc + 1) s (sem.equal a b :: stack) := by
  refine ⟨{ c with pc := c.pc + 1, stack := sem.equal a b :: stack }, h.run_one hat ?_,
    ⟨?_, h.store, rfl, h.halted⟩, rfl⟩
  · rw [execNode, h.stack]
  · rw [h.pc]

/-- The subject of a switch goes to the variable of the switch. -/
theorem Ready.setsTemp {e : E} {var : Nat} (h : Ready pc s stack c)
    (hat : At code pc (.expr e :: .evalLocalVariableRefCached var :: .setVariableField :: seg)) :
    ∃ c', Run (step sem code) 3 c [.eval e] c' ∧ Ready (pc + 3) (sem.eval e s).2 stack c' ∧
      c'.temps var = some (sem.eval e s).1 := by
  obtain ⟨c₁, hr₁, hc₁, -⟩ : Moves sem code c _ _ _ _ := h.expr hat
  let c₂ : Config σ V := { c₁ with pc := c₁.pc + 1, field := var }
  have hr₂ : Run (step sem code) 1 c₁ [] c₂ := hc₁.run_one hat.tail rfl
  have hc₂ : Ready (pc + 2) (sem.eval e s).2 ((sem.eval e s).1 :: stack) c₂ := by
    refine ⟨?_, hc₁.store, hc₁.stack, hc₁.halted⟩
    show c₁.pc + 1 = pc + 2
    rw [hc₁.pc]
  let c₃ : Config σ V := { c₂ with
    pc := c₂.pc + 1
    stack := stack
    temps := fun i => if i = c₂.field then some (sem.eval e s).1 else c₂.temps i }
  have hset : execNode sem code c₂ .setVariableField = some ([], c₃) := by
    rw [execNode, hc₂.stack]
  refine ⟨c₃, hr₁.trans (hr₂.trans (hc₂.run_one hat.tail.tail hset)), ?_, if_pos rfl⟩
  refine ⟨?_, hc₂.store, rfl, hc₂.halted⟩
  show c₂.pc + 1 = pc + 3
  rw [hc₂.pc]

end Nodes

/-! ## Results -/

section Results

variable {sem code} {fuel exit : Nat} {brk cont : Option Nat} {stack : List V}
variable {c : Config σ V} {r : Result E S σ V}

theorem Follows.prepend {k : Nat} {c' : Config σ V} {tr : List (Event E S)}
    (hrun : Run (step sem code) k c tr c')
    (h : Follows sem code fuel exit brk cont stack c' r) :
    Follows sem code (k + fuel) exit brk cont stack c (r.prepend tr) := by
  obtain ⟨n, c'', hr, hreach⟩ := h
  refine ⟨k + n, c'', hrun.trans hr, ?_⟩
  rcases r with ⟨tr', s, o⟩
  cases o with
  | timeout => exact Nat.add_le_add_left hreach k
  | _ => exact hreach

theorem Follows.mono {fuel' : Nat} (h : Follows sem code fuel exit brk cont stack c r)
    (hle : fuel' ≤ fuel) : Follows sem code fuel' exit brk cont stack c r := by
  obtain ⟨n, c', hr, hreach⟩ := h
  refine ⟨n, c', hr, ?_⟩
  rcases r with ⟨tr', s, o⟩
  cases o with
  | timeout => exact Nat.le_trans hle hreach
  | _ => exact hreach

/-- A step in front. -/
theorem Moves.follows {pc : Nat} {s : σ} {stack' : List V} {tr : List (Event E S)}
    (h : Moves sem code c tr pc s stack')
    (h' : ∀ c', Ready pc s stack' c' → Follows sem code fuel exit brk cont stack c' r) :
    Follows sem code (1 + fuel) exit brk cont stack c (r.prepend tr) := by
  obtain ⟨c', hr, hc', -⟩ := h
  exact Follows.prepend hr (h' c' hc')

theorem Moves.follows_silent {pc : Nat} {s : σ} {stack' : List V}
    (h : Moves sem code c [] pc s stack')
    (h' : ∀ c', Ready pc s stack' c' → Follows sem code fuel exit brk cont stack c' r) :
    Follows sem code (1 + fuel) exit brk cont stack c r :=
  h.follows h'

theorem Follows.done {s : σ} (h : Ready exit s stack c) :
    Follows sem code fuel exit brk cont stack c (done (E := E) (S := S) s) :=
  ⟨0, c, Run.refl c, h⟩

theorem Follows.andThen {f : σ → Result E S σ V} (mid : Nat)
    (h : Follows sem code fuel mid brk cont stack c r)
    (h' : ∀ c', Ready mid r.store stack c' →
      Follows sem code fuel exit brk cont stack c' (f r.store)) :
    Follows sem code fuel exit brk cont stack c (r.andThen f) := by
  obtain ⟨n, c', hr, hreach⟩ := h
  rcases r with ⟨tr, s, o⟩
  cases o with
  | normal => exact (Follows.prepend hr (h' c' hreach)).mono (Nat.le_add_left fuel n)
  | _ => exact ⟨n, c', hr, hreach⟩

/-- A silent step after a result that ends normally. -/
theorem Follows.extend (mid : Nat) (h : Follows sem code fuel mid brk cont stack c r)
    (h' : ∀ s c', Ready mid s stack c' → Moves sem code c' [] exit s stack) :
    Follows sem code fuel exit brk cont stack c r := by
  obtain ⟨n, c', hr, hreach⟩ := h
  rcases r with ⟨tr, s, o⟩
  cases o with
  | normal =>
    obtain ⟨c'', hr', hc'', -⟩ := h' s c' hreach
    have hrun := hr.trans hr'
    rw [List.append_nil] at hrun
    exact ⟨n + 1, c'', hrun, hc''⟩
  | _ => exact ⟨n, c', hr, hreach⟩

theorem Follows.catchBreak {l : Nat} {brk' : Option Nat} (hl : target code l = exit)
    (h : Follows sem code fuel exit (some l) cont stack c r) :
    Follows sem code fuel exit brk' cont stack c r.catchBreak := by
  obtain ⟨n, c', hr, hreach⟩ := h
  refine ⟨n, c', ?_, ?_⟩
  · rcases r with ⟨tr, s, o⟩
    cases o <;> exact hr
  · rcases r with ⟨tr, s, o⟩
    cases o with
    | brk =>
      obtain ⟨l', hl', hready⟩ := hreach
      cases hl'
      rw [hl] at hready
      exact hready
    | _ => exact hreach

theorem Follows.catchContinue {k : Nat} {cont' : Option Nat} (hk : target code k = exit)
    (h : Follows sem code fuel exit brk (some k) stack c r) :
    Follows sem code fuel exit brk cont' stack c r.catchContinue := by
  obtain ⟨n, c', hr, hreach⟩ := h
  refine ⟨n, c', ?_, ?_⟩
  · rcases r with ⟨tr, s, o⟩
    cases o <;> exact hr
  · rcases r with ⟨tr, s, o⟩
    cases o with
    | cont =>
      obtain ⟨k', hk', hready⟩ := hreach
      cases hk'
      rw [hk] at hready
      exact hready
    | _ => exact hreach

theorem Follows.inst? {i : Option S} {s : σ} {seg : List (Node E S)} {pc : Nat}
    (hat : At code pc (instNodes i ++ seg)) (hc : Ready pc s stack c) :
    Follows sem code fuel (pc + (instNodes (E := E) i).length) brk cont stack c
      (sem.simple? i s) := by
  cases i with
  | none => exact Follows.done hc
  | some i =>
    obtain ⟨c', hr, hc', -⟩ := hc.inst hat
    exact ⟨1, c', hr, hc'⟩

/-- A condition, with the place behind it and the place of a false one. -/
theorem Follows.condFalse {e : E} {l pc : Nat} {s : σ} {seg : List (Node E S)}
    {t f : σ → Result E S σ V}
    (hat : At code pc (.expr e :: .jump l .jumpOnFalse :: seg)) (hc : Ready pc s stack c)
    (ht : ∀ c', Ready (pc + 2) (sem.eval e s).2 stack c' →
      Follows sem code fuel exit brk cont stack c' (t (sem.eval e s).2))
    (hf : ∀ c', Ready (target code l) (sem.eval e s).2 stack c' →
      Follows sem code fuel exit brk cont stack c' (f (sem.eval e s).2)) :
    Follows sem code fuel exit brk cont stack c (sem.cond e s t f) := by
  refine ((hc.expr hat).follows ?_).mono (Nat.le_add_left fuel 1)
  intro c₁ hc₁
  refine ((hc₁.jumpOnFalse hat.tail).follows_silent ?_).mono (Nat.le_add_left fuel 1)
  intro c₂ hc₂
  cases hv : sem.truthy (sem.eval e s).1 with
  | true =>
    rw [hv, if_pos rfl] at hc₂
    exact ht c₂ hc₂
  | false =>
    rw [hv, if_neg Bool.false_ne_true] at hc₂
    exact hf c₂ hc₂

theorem Follows.condTrue {e : E} {l pc : Nat} {s : σ} {seg : List (Node E S)}
    {t f : σ → Result E S σ V}
    (hat : At code pc (.expr e :: .jump l .jumpOnTrue :: seg)) (hc : Ready pc s stack c)
    (ht : ∀ c', Ready (target code l) (sem.eval e s).2 stack c' →
      Follows sem code fuel exit brk cont stack c' (t (sem.eval e s).2))
    (hf : ∀ c', Ready (pc + 2) (sem.eval e s).2 stack c' →
      Follows sem code fuel exit brk cont stack c' (f (sem.eval e s).2)) :
    Follows sem code fuel exit brk cont stack c (sem.cond e s t f) := by
  refine ((hc.expr hat).follows ?_).mono (Nat.le_add_left fuel 1)
  intro c₁ hc₁
  refine ((hc₁.jumpOnTrue hat.tail).follows_silent ?_).mono (Nat.le_add_left fuel 1)
  intro c₂ hc₂
  cases hv : sem.truthy (sem.eval e s).1 with
  | true =>
    rw [hv, if_pos rfl] at hc₂
    exact ht c₂ hc₂
  | false =>
    rw [hv, if_neg Bool.false_ne_true] at hc₂
    exact hf c₂ hc₂

end Results

/-! ## Loops -/

section Loops

variable {sem code} {fuel top : Nat} {l : Nat} {cont : Option Nat} {stack : List V}

/-- A loop: its location, its condition, and a turn that comes back to the location. -/
theorem loop_follows {e : Option E} {delta : Option S} {body : σ → Result E S σ V} {k : Nat}
    {seg : List (Node E S)} (hat : At code top (.label k :: (condNodes e l ++ seg)))
    (hturn : ∀ s c, Ready (top + 1 + (condNodes (S := S) e l).length) s stack c →
      Follows sem code fuel top (some l) cont stack c
        ((body s).catchContinue.andThen (sem.simple? delta))) :
    ∀ n, n ≤ fuel → ∀ s c, Ready top s stack c →
      Follows sem code n (target code l) (some l) cont stack c (sem.loop e delta body n s) := by
  intro n
  induction n with
  | zero =>
    intro _ s c _
    exact ⟨0, c, Run.refl c, Nat.le_refl 0⟩
  | succ n ih =>
    intro hle s c hc
    refine ((hc.label hat).follows_silent ?_).mono (Nat.le_of_eq (Nat.add_comm n 1))
    intro c₁ hc₁
    have hbody : ∀ s c, Ready (top + 1 + (condNodes (S := S) e l).length) s stack c →
        Follows sem code n (target code l) (some l) cont stack c
          (((body s).catchContinue.andThen (sem.simple? delta)).andThen
            (sem.loop e delta body n)) := by
      intro s c hc
      refine Follows.andThen top ((hturn s c hc).mono (Nat.le_of_succ_le hle)) ?_
      intro c' hc'
      exact ih (Nat.le_of_succ_le hle) _ c' hc'
    cases e with
    | none => exact hbody s c₁ hc₁
    | some e =>
      refine Follows.condFalse hat.tail hc₁ ?_ ?_
      · exact hbody _
      · intro c' hc'
        exact Follows.done hc'

/-- A loop that starts at `top` and has its condition, between the continue location and the break
location, behind its body. -/
theorem doLoop_follows {e : E} {body : σ → Result E S σ V} {k start : Nat}
    {pc : Nat} {seg seg' : List (Node E S)} (hat : At code top (.label start :: seg))
    (hcond : At code pc (.label k :: .expr e :: .jump start .jumpOnTrue :: .label l :: seg'))
    (hstart : target code start = top) (hk : target code k = pc)
    (hl : target code l = pc + 3)
    (hbody : ∀ s c, Ready (top + 1) s stack c →
      Follows sem code fuel pc (some l) (some k) stack c (body s)) :
    ∀ n, n ≤ fuel → ∀ s c, Ready top s stack c →
      Follows sem code n (target code l) (some l) cont stack c (sem.doLoop e body n s) := by
  intro n
  induction n with
  | zero =>
    intro _ s c _
    exact ⟨0, c, Run.refl c, Nat.le_refl 0⟩
  | succ n ih =>
    intro hle s c hc
    refine ((hc.label hat).follows_silent ?_).mono (Nat.le_of_eq (Nat.add_comm n 1))
    intro c₁ hc₁
    refine Follows.andThen pc (((hbody s c₁ hc₁).mono (Nat.le_of_succ_le hle)).catchContinue hk) ?_
    intro c₂ hc₂
    refine ((hc₂.label hcond).follows_silent ?_).mono (Nat.le_add_left n 1)
    intro c₃ hc₃
    refine Follows.condTrue hcond.tail hc₃ ?_ ?_
    · intro c' hc'
      rw [hstart] at hc'
      exact ih (Nat.le_of_succ_le hle) _ c' hc'
    · intro c' hc'
      rw [hl]
      exact Follows.done hc'

end Loops

/-! ## Tests of a switch -/

section Tests

variable {sem code} {var : Nat} {v : V} {stack : List V}

/-- Where the tests end: at the location of the block that they choose, or behind them. -/
def Chosen (code : List (Node E S)) (jmpTable : List Nat) (exit : Nat) : Option Nat → Nat → Prop
  | none, pc => pc = exit
  | some k, pc => ∃ l, jmpTable[k]? = some l ∧ pc = target code l

theorem Chosen.cons {jmpTable : List Nat} {exit l pc : Nat} {k : Option Nat}
    (h : Chosen code jmpTable exit k pc) :
    Chosen code (l :: jmpTable) exit (k.map (· + 1)) pc := by
  cases k with
  | none => exact h
  | some k => exact h

/-- One test: the label is compared with the variable of the switch, which keeps its value. -/
theorem test_runs {e : E} {l pc : Nat} {s : σ} {c : Config σ V} {seg : List (Node E S)}
    (hat : At code pc
      (.expr e :: .evalLocalVariableCached var :: .equal :: .jump l .jumpOnTrue :: seg))
    (hc : Ready pc s stack c) (hv : c.temps var = some v) :
    ∃ c', Run (step sem code) 4 c [.eval e] c' ∧
      Ready (if sem.truthy (sem.equal (sem.eval e s).1 v) then target code l else pc + 4)
        (sem.eval e s).2 stack c' ∧
      c'.temps var = some v := by
  obtain ⟨c₁, hr₁, hc₁, ht₁⟩ : Moves sem code c _ _ _ _ := hc.expr hat
  rw [← ht₁] at hv
  obtain ⟨c₂, hr₂, hc₂, ht₂⟩ : Moves sem code c₁ _ _ _ _ :=
    hc₁.evalLocalVariableCached hat.tail hv
  obtain ⟨c₃, hr₃, hc₃, ht₃⟩ : Moves sem code c₂ _ _ _ _ := hc₂.equal hat.tail.tail
  obtain ⟨c₄, hr₄, hc₄, ht₄⟩ := hc₃.jumpOnTrue hat.tail.tail.tail
  refine ⟨c₄, hr₁.trans (hr₂.trans (hr₃.trans hr₄)), hc₄, ?_⟩
  rw [ht₄, ht₃, ht₂, hv]

/-- The tests of a switch evaluate the labels up to the block that they choose. -/
theorem tests_follow : ∀ (cases : Cases E S) (jmpTable : List Nat) (pc : Nat) (s : σ)
    (c : Config σ V), At code pc (testNodes var cases jmpTable) →
    jmpTable.length = cases.length → Ready pc s stack c → c.temps var = some v →
    ∃ n c' pc', Run (step sem code) n c (cases.select sem v s).1 c' ∧
      Ready pc' (cases.select sem v s).2.1 stack c' ∧
      Chosen code jmpTable (pc + (testNodes var cases jmpTable).length)
        (cases.select sem v s).2.2 pc'
  | .nil, jmpTable, pc, s, c, _, _, hc, _ => by
    refine ⟨0, c, pc, Run.refl c, hc, ?_⟩
    cases jmpTable <;> rfl
  | .cons _ _ _, [], _, _, _, _, hlen, _, _ => by cases hlen
  | .cons none _ rest, l :: jmpTable, pc, s, c, hat, hlen, hc, hv => by
    obtain ⟨n, c', pc', hrun, hc', hchosen⟩ :=
      tests_follow rest jmpTable pc s c hat (Nat.succ.inj hlen) hc hv
    exact ⟨n, c', pc', hrun, hc', hchosen.cons⟩
  | .cons (some e) ss rest, l :: jmpTable, pc, s, c, hat, hlen, hc, hv => by
    obtain ⟨c₁, hr₁, hc₁, hv₁⟩ := test_runs hat hc hv
    rw [Cases.select]
    cases heq : sem.truthy (sem.equal (sem.eval e s).1 v) with
    | true =>
      rw [heq, if_pos rfl] at hc₁
      rw [if_pos rfl]
      exact ⟨4, c₁, _, hr₁, hc₁, l, rfl, rfl⟩
    | false =>
      rw [heq, if_neg Bool.false_ne_true] at hc₁
      rw [if_neg Bool.false_ne_true]
      obtain ⟨n, c', pc', hrun, hc', hchosen⟩ := tests_follow rest jmpTable (pc + 4) _ c₁
        hat.tail.tail.tail.tail (Nat.succ.inj hlen) hc₁ hv₁
      refine ⟨4 + n, c', pc', hr₁.trans hrun, hc', ?_⟩
      have hexit : pc + (testNodes var (Cases.cons (some e) ss rest) (l :: jmpTable)).length =
          pc + 4 + (testNodes var rest jmpTable).length := by
        simp only [testNodes, List.length_cons]
        omega
      rw [hexit]
      exact hchosen.cons

theorem Cases.Emits.length_eq {brk cont : Option Nat} : ∀ {cases : Cases E S} {jmpTable : List Nat}
    {seg : List (Node E S)}, cases.Emits brk cont jmpTable seg → jmpTable.length = cases.length
  | .nil, _, _, h => by
    obtain ⟨rfl, -⟩ := h
    rfl
  | .cons _ _ _, [], _, h => h.elim
  | .cons _ _ _, _ :: _, _, h => by
    obtain ⟨a, b, -, hrest, -⟩ := h
    exact congrArg (· + 1) hrest.length_eq

theorem Cases.default?_lt : ∀ {cases : Cases E S} {k : Nat}, cases.default? = some k →
    k < cases.length
  | .nil, _, h => by cases h
  | .cons none _ rest, _, h => by
    cases h
    exact Nat.succ_pos rest.length
  | .cons (some _) _ _, _, h => by
    obtain ⟨j, hj, rfl⟩ := Option.map_eq_some_iff.mp h
    exact Nat.succ_lt_succ (Cases.default?_lt hj)

end Tests

/-! ## Statements -/

section Statements

variable {sem code} {fuel : Nat} {stack : List V}

/-- Where a run of blocks starts: at the location of its first one, or at the start of them all. -/
def Entry (code : List (Node E S)) (jmpTable : List Nat) (start : Nat) (k pc : Nat) : Prop :=
  (k = 0 ∧ pc = start) ∨ ∃ l, jmpTable[k]? = some l ∧ pc = target code l

mutual
/-- **The nodes of a statement follow its meaning, wherever they stand in a function.** -/
theorem Stmt.follows (hnodup : (ids code).Nodup) : ∀ (t : Stmt E S) (brk cont : Option Nat)
    (seg : List (Node E S)) (pc : Nat) (s : σ) (c : Config σ V), t.Emits brk cont seg →
    At code pc seg → Ready pc s stack c →
    Follows sem code fuel (pc + seg.length) brk cont stack c (t.run sem fuel s)
  | .empty, brk, cont, seg, pc, s, c, h, hat, hc => by
    cases h
    exact Follows.done hc
  | .inst i, brk, cont, seg, pc, s, c, h, hat, hc => by
    cases h
    obtain ⟨c', hr, hc', -⟩ := hc.inst hat
    exact ⟨1, c', hr, hc'⟩
  | .block ss, brk, cont, seg, pc, s, c, h, hat, hc =>
    Stmts.follows hnodup ss brk cont seg pc s c h hat hc
  | .ifThen e t, brk, cont, seg, pc, s, c, h, hat, hc => by
    obtain ⟨l, a, ha, rfl⟩ := h
    have hbody : At code (pc + 2) a := hat.right.left
    have hlabel : At code (pc + 2 + a.length) [.label l] := hat.right.right
    have hl := hlabel.target_eq rfl hnodup
    have hexit : pc + ([Node.expr e, .jump l .jumpOnFalse] ++ (a ++ [Node.label l])).length =
        pc + 2 + a.length + 1 := by
      simp only [List.length_append, List.length_cons, List.length_nil]
      omega
    rw [hexit, Stmt.run]
    refine Follows.extend (pc + 2 + a.length) (Follows.condFalse hat hc ?_ ?_) ?_
    · intro c' hc'
      exact Stmt.follows hnodup t brk cont a _ _ c' ha hbody hc'
    · intro c' hc'
      rw [hl] at hc'
      exact Follows.done hc'
    · intro s' c' hc'
      exact hc'.label hlabel
  | .ifElse e t t', brk, cont, seg, pc, s, c, h, hat, hc => by
    obtain ⟨l, m, a, b, ha, hb, rfl⟩ := h
    have hthen : At code (pc + 2) a := hat.right.left
    have hjump : At code (pc + 2 + a.length) [.jump m .jump, .label l] := hat.right.right.left
    have helse : At code (pc + 2 + a.length + 2) b := hat.right.right.right.left
    have hlabel : At code (pc + 2 + a.length + 2 + b.length) [.label m] :=
      hat.right.right.right.right
    have hl := hjump.tail.target_eq rfl hnodup
    have hm := hlabel.target_eq rfl hnodup
    have hexit : pc + ([Node.expr e, .jump l .jumpOnFalse] ++ (a ++ ([Node.jump m .jump, .label l] ++
        (b ++ [Node.label m])))).length = pc + 2 + a.length + 2 + b.length + 1 := by
      simp only [List.length_append, List.length_cons, List.length_nil]
      omega
    rw [hexit, Stmt.run]
    refine Follows.extend (pc + 2 + a.length + 2 + b.length) (Follows.condFalse hat hc ?_ ?_) ?_
    · intro c' hc'
      refine Follows.extend _ (Stmt.follows hnodup t brk cont a _ _ c' ha hthen hc') ?_
      intro s' c'' hc''
      rw [← hm]
      exact hc''.jump hjump
    · intro c' hc'
      rw [hl] at hc'
      refine ((hc'.label hjump.tail).follows_silent ?_).mono (Nat.le_add_left fuel 1)
      intro c'' hc''
      exact Stmt.follows hnodup t' brk cont b _ _ c'' hb helse hc''
    · intro s' c' hc'
      exact hc'.label hlabel
  | .whileLoop e body, brk, cont, seg, pc, s, c, h, hat, hc => by
    obtain ⟨l, k, a, ha, rfl⟩ := h
    have hbody : At code (pc + 3) a := hat.right.left
    have hend : At code (pc + 3 + a.length) [.jump k .jump, .label l] := hat.right.right
    have hk : target code k = pc := At.target_eq hat rfl hnodup
    have hl := hend.tail.target_eq rfl hnodup
    have hexit : pc + ([Node.label k, .expr e, .jump l .jumpOnFalse] ++
        (a ++ [Node.jump k .jump, .label l])).length = target code l + 1 := by
      rw [hl]
      simp only [List.length_append, List.length_cons, List.length_nil]
      omega
    rw [hexit, Stmt.run]
    refine Follows.extend (target code l) (Follows.catchBreak rfl ?_) ?_
    · refine loop_follows (e := some e) hat ?_ fuel (Nat.le_refl fuel) s c hc
      intro s' c' hc'
      refine Follows.andThen pc (Follows.catchContinue hk (Follows.extend (pc + 3 + a.length)
        (Stmt.follows hnodup body (some l) (some k) a _ _ c' ha hbody hc') ?_)) ?_
      · intro s'' c'' hc''
        rw [← hk]
        exact hc''.jump hend
      · intro c'' hc''
        exact Follows.done hc''
    · intro s' c' hc'
      rw [hl] at hc' ⊢
      exact hc'.label hend.tail
  | .doWhile body e, brk, cont, seg, pc, s, c, h, hat, hc => by
    obtain ⟨start, l, k, a, ha, rfl⟩ := h
    have hbody : At code (pc + 1) a := hat.right.left
    have hcond : At code (pc + 1 + a.length)
      [.label k, .expr e, .jump start .jumpOnTrue, .label l] := hat.right.right
    have hstart : target code start = pc := At.target_eq hat rfl hnodup
    have hk := hcond.target_eq rfl hnodup
    have hl := hcond.tail.tail.tail.target_eq rfl hnodup
    have hexit : pc + ([Node.label start] ++ (a ++
        [Node.label k, .expr e, .jump start .jumpOnTrue, .label l])).length = target code l + 1 := by
      rw [hl]
      simp only [List.length_append, List.length_cons, List.length_nil]
      omega
    rw [hexit, Stmt.run]
    refine Follows.extend (target code l) (Follows.catchBreak rfl ?_) ?_
    · refine doLoop_follows hat hcond hstart hk hl ?_ fuel (Nat.le_refl fuel) s c hc
      intro s' c' hc'
      exact Stmt.follows hnodup body (some l) (some k) a _ _ c' ha hbody hc'
    · intro s' c' hc'
      rw [hl] at hc' ⊢
      exact hc'.label hcond.tail.tail.tail
  | .forLoop init e delta body, brk, cont, seg, pc, s, c, h, hat, hc => by
    obtain ⟨start, l, k, a, ha, rfl⟩ := h
    let top := pc + (instNodes (E := E) init).length
    let start' := top + 1 + (condNodes (S := S) e l).length
    let next := start' + a.length
    have htop : At code top (.label start :: (condNodes e l ++ _)) := hat.right
    have hbody : At code start' a := htop.tail.right.left
    have hnext : At code next (.label k :: (instNodes delta ++ [.jump start .jump, .label l])) :=
      htop.tail.right.right
    have hend : At code (next + 1 + (instNodes (E := E) delta).length)
      [.jump start .jump, .label l] := hnext.tail.right
    have hstart := htop.target_eq rfl hnodup
    have hk := hnext.target_eq rfl hnodup
    have hl := hend.tail.target_eq rfl hnodup
    have hexit : pc + (instNodes init ++ ([Node.label start] ++ (condNodes e l ++ (a ++
        ([Node.label k] ++ (instNodes delta ++ [Node.jump start .jump, Node.label l])))))).length =
        target code l + 1 := by
      rw [hl]
      simp only [List.length_append, List.length_cons, List.length_nil, next, start', top]
      omega
    rw [hexit, Stmt.run]
    refine Follows.andThen top (Follows.inst? hat hc) ?_
    intro c₁ hc₁
    refine Follows.extend (target code l) (Follows.catchBreak rfl ?_) ?_
    · refine loop_follows htop ?_ fuel (Nat.le_refl fuel) _ c₁ hc₁
      intro s' c' hc'
      refine Follows.andThen (next + 1) (Follows.extend next (Follows.catchContinue hk
        (Stmt.follows hnodup body (some l) (some k) a _ _ c' ha hbody hc')) ?_) ?_
      · intro s'' c'' hc''
        exact hc''.label hnext
      · intro c'' hc''
        refine Follows.extend _ (Follows.inst? hnext.tail hc'') ?_
        intro t' d' hd'
        rw [← hstart]
        exact hd'.jump hend
    · intro s' c' hc'
      rw [hl] at hc' ⊢
      exact hc'.label hend.tail
  | .switch subject cases, brk, cont, seg, pc, s, c, h, hat, hc => by
    obtain ⟨var, l, jmpTable, blocks, hblocks, rfl⟩ := h
    let tests := pc + 3
    let dflt := tests + (testNodes var cases jmpTable).length
    have htests : At code tests (testNodes var cases jmpTable) := hat.right.left
    have hdflt : At code dflt [.jump ((cases.default?.bind (jmpTable[·]?)).getD l) .jump] :=
      hat.right.right.left
    have hat' : At code (dflt + 1) blocks := hat.right.right.right.left
    have hlabel : At code (dflt + 1 + blocks.length) [.label l] := hat.right.right.right.right
    have hl := hlabel.target_eq rfl hnodup
    have hexit : pc + ([Node.expr subject, .evalLocalVariableRefCached var, .setVariableField] ++
        (testNodes var cases jmpTable ++ ([Node.jump ((cases.default?.bind (jmpTable[·]?)).getD l)
          .jump] ++ (blocks ++ [Node.label l])))).length = target code l + 1 := by
      rw [hl]
      simp only [List.length_append, List.length_cons, List.length_nil, dflt, tests]
      omega
    obtain ⟨c₁, hr₁, hc₁, hv₁⟩ := hc.setsTemp hat
    obtain ⟨n, c₂, pc₂, hr₂, hc₂, hchosen⟩ :=
      tests_follow cases jmpTable tests _ c₁ htests hblocks.length_eq hc₁ hv₁
    rw [hexit, Stmt.run]
    refine Follows.mono (Follows.prepend (hr₁.trans hr₂) ?_) (Nat.le_add_left fuel _)
    refine Follows.extend (target code l) (Follows.catchBreak rfl ?_) ?_
    · rw [hl]
      cases hk : (cases.select sem (sem.eval subject s).1 (sem.eval subject s).2).2.2 with
      | some k =>
        rw [hk] at hchosen
        exact Cases.follows hnodup cases (some l) cont jmpTable blocks _ k pc₂ _ c₂ hblocks hat'
          (.inr hchosen) hc₂
      | none =>
        rw [hk] at hchosen
        obtain rfl : pc₂ = dflt := hchosen
        refine ((hc₂.jump hdflt).follows_silent ?_).mono (Nat.le_add_left fuel 1)
        intro c₃ hc₃
        cases hd : cases.default? with
        | none =>
          rw [hd, Option.bind_none, Option.getD_none, hl] at hc₃
          exact Follows.done hc₃
        | some k =>
          have hlt : k < jmpTable.length := hblocks.length_eq ▸ Cases.default?_lt hd
          rw [hd, Option.bind_some, List.getElem?_eq_getElem hlt, Option.getD_some] at hc₃
          exact Cases.follows hnodup cases (some l) cont jmpTable blocks _ k _ _ c₃ hblocks hat'
            (.inr ⟨_, List.getElem?_eq_getElem hlt, rfl⟩) hc₃
    · intro s' c' hc'
      rw [hl] at hc' ⊢
      exact hc'.label hlabel
  | .breakStmt, brk, cont, seg, pc, s, c, h, hat, hc => by
    obtain ⟨l, rfl, rfl⟩ := h
    obtain ⟨c', hr, hc', -⟩ := hc.jump hat
    exact ⟨1, c', hr, l, rfl, hc'⟩
  | .continueStmt, brk, cont, seg, pc, s, c, h, hat, hc => by
    obtain ⟨l, rfl, rfl⟩ := h
    obtain ⟨c', hr, hc', -⟩ := hc.jump hat
    exact ⟨1, c', hr, l, rfl, hc'⟩
  | .returnStmt none, brk, cont, seg, pc, s, c, h, hat, hc => by
    obtain ⟨id, rfl⟩ := h
    exact ⟨1, { c with halted := some none }, hc.run_one hat rfl, hc.store, rfl⟩
  | .returnStmt (some e), brk, cont, seg, pc, s, c, h, hat, hc => by
    cases h
    obtain ⟨c₁, hr, hc₁, -⟩ : Moves sem code c _ _ _ _ := hc.expr hat
    have hret : execNode sem code c₁ .return_ = some ([],
        { c₁ with stack := stack, halted := some (some (sem.eval e s).1) }) := by
      rw [execNode, hc₁.stack]
    exact ⟨1 + 1, _, hr.trans (hc₁.run_one hat.tail hret), hc₁.store, rfl⟩

theorem Stmts.follows (hnodup : (ids code).Nodup) : ∀ (ss : Stmts E S) (brk cont : Option Nat)
    (seg : List (Node E S)) (pc : Nat) (s : σ) (c : Config σ V), ss.Emits brk cont seg →
    At code pc seg → Ready pc s stack c →
    Follows sem code fuel (pc + seg.length) brk cont stack c (ss.run sem fuel s)
  | .nil, brk, cont, seg, pc, s, c, h, hat, hc => by
    cases h
    exact Follows.done hc
  | .cons t ss, brk, cont, seg, pc, s, c, h, hat, hc => by
    obtain ⟨a, b, ha, hb, rfl⟩ := h
    rw [List.length_append, ← Nat.add_assoc]
    refine Follows.andThen _ (Stmt.follows hnodup t brk cont a pc s c ha hat.left hc) ?_
    intro c' hc'
    exact Stmts.follows hnodup ss brk cont b _ _ c' hb hat.right hc'

theorem Cases.follows (hnodup : (ids code).Nodup) : ∀ (cases : Cases E S) (brk cont : Option Nat)
    (jmpTable : List Nat) (seg : List (Node E S)) (start k pc : Nat) (s : σ) (c : Config σ V),
    cases.Emits brk cont jmpTable seg → At code start seg → Entry code jmpTable start k pc →
    Ready pc s stack c →
    Follows sem code fuel (start + seg.length) brk cont stack c (cases.run sem fuel k s)
  | .nil, brk, cont, jmpTable, seg, start, k, pc, s, c, h, hat, hentry, hc => by
    obtain ⟨rfl, rfl⟩ := h
    rcases hentry with ⟨rfl, rfl⟩ | ⟨l, hl, -⟩
    · exact Follows.done hc
    · cases hl
  | .cons _ _ _, brk, cont, [], seg, start, k, pc, s, c, h, hat, hentry, hc => h.elim
  | .cons label ss rest, brk, cont, l :: jmpTable, seg, start, 0, pc, s, c, h, hat, hentry, hc => by
    obtain ⟨a, b, ha, hb, rfl⟩ := h
    have hpc : pc = start := by
      rcases hentry with ⟨-, hpc⟩ | ⟨l', hl, hpc⟩
      · exact hpc
      · cases hl
        rw [hpc]
        exact hat.target_eq rfl hnodup
    subst hpc
    have ha' : At code (pc + 1) a := hat.right.left
    have hb' : At code (pc + 1 + a.length) b := hat.right.right
    have hexit : pc + ([Node.label l] ++ (a ++ b)).length = pc + 1 + a.length + b.length := by
      simp only [List.length_append, List.length_cons, List.length_nil]
      omega
    rw [hexit, Cases.run]
    refine ((hc.label hat).follows_silent ?_).mono (Nat.le_add_left fuel 1)
    intro c₁ hc₁
    refine Follows.andThen _ (Stmts.follows hnodup ss brk cont a _ _ c₁ ha ha' hc₁) ?_
    intro c₂ hc₂
    exact Cases.follows hnodup rest brk cont jmpTable b _ 0 _ _ c₂ hb hb' (.inl ⟨rfl, rfl⟩) hc₂
  | .cons label ss rest, brk, cont, l :: jmpTable, seg, start, k + 1, pc, s, c, h, hat, hentry,
      hc => by
    obtain ⟨a, b, ha, hb, rfl⟩ := h
    have hb' : At code (start + 1 + a.length) b := hat.right.right
    have hexit : start + ([Node.label l] ++ (a ++ b)).length =
        start + 1 + a.length + b.length := by
      simp only [List.length_append, List.length_cons, List.length_nil]
      omega
    rw [hexit, Cases.run]
    rcases hentry with ⟨hk, -⟩ | hl
    · cases hk
    · exact Cases.follows hnodup rest brk cont jmpTable b _ k pc s c hb hb' (.inr hl) hc
end

end Statements

/-! ## Functions -/

section Functions

variable {sem code}

/-- A thread at the start of a function. -/
def Config.start (s : σ) (temps : Nat → Option V) (field : Nat) : Config σ V :=
  ⟨0, s, temps, field, [], none⟩

/-- The store and the value that a halted thread leaves. -/
def Config.result (c : Config σ V) : Option (σ × Option V) := c.halted.map fun v => (c.store, v)

theorem halted_step {c : Config σ V} {v : Option V} (h : c.halted = some v) :
    step sem code c = none := by
  rw [step, h]
  rfl

/-- The end node halts without a value. -/
theorem Ready.end_ {pc l : Nat} {s : σ} {stack : List V} {c : Config σ V}
    {seg : List (Node E S)} (h : Ready pc s stack c) (hat : At code pc (.end_ l :: seg))
    (sem : Sem E S σ V) :
    ∃ c', Run (step sem code) 1 c [] c' ∧ c'.store = s ∧ c'.halted = some none :=
  ⟨{ c with halted := some none }, h.run_one hat rfl, h.store, rfl⟩

/-- The body of a function, from its first node to its end node. -/
theorem function_follows {body : Stmt E S} (h : parseFunction body = some code)
    (sem : Sem E S σ V) (s : σ) (temps : Nat → Option V) (field fuel : Nat) :
    ∃ endNode, At code (target code endNode) [.end_ endNode] ∧
      Follows sem code fuel (target code endNode) (some endNode) none []
        (Config.start s temps field) (body.run sem fuel s) := by
  obtain ⟨endNode, seg, hemits, rfl, hnodup⟩ := parseFunction_spec h
  have hcode : At (.createLocalVariables :: (seg ++ [.end_ endNode])) 0
      (.createLocalVariables :: (seg ++ [.end_ endNode])) := ⟨[], [], by simp, rfl⟩
  have hend := hcode.tail.right.target_eq rfl hnodup
  have hc : Ready 0 s [] (Config.start s temps field) := ⟨rfl, rfl, rfl, rfl⟩
  have hrun : Run (step sem _) 1 (Config.start s temps field) []
      { Config.start s temps field with pc := 1 } := hc.run_one hcode rfl
  rw [← Nat.zero_add 1] at hrun
  refine ⟨endNode, ?_, ?_⟩
  · rw [hend]
    exact hcode.tail.right
  · rw [hend]
    refine Follows.mono (Follows.prepend hrun ?_) (Nat.le_add_left fuel _)
    exact Stmt.follows hnodup body _ _ seg _ s _ hemits hcode.tail.left ⟨rfl, rfl, rfl, rfl⟩

/-- The nodes of a function simulate its body. -/
theorem function_simulates {body : Stmt E S} (h : parseFunction body = some code)
    (sem : Sem E S σ V) (s : σ) (temps : Nat → Option V) (field : Nat) :
    Simulates (step sem code) Config.result (Config.start s temps field)
      (body.runFunction sem s) := by
  constructor
  · intro fuel tr r hr
    obtain ⟨endNode, hend, n, c, hrun, hreach⟩ := function_follows h sem s temps field fuel
    rw [Stmt.runFunction] at hr
    generalize body.run sem fuel s = res at hrun hreach hr
    obtain ⟨tr', s', o⟩ := res
    have hexit : ∀ c, Ready (target code endNode) s' [] c → Run (step sem code) n
        (Config.start s temps field) tr' c → ∃ n c', Run (step sem code) n
        (Config.start s temps field) tr' c' ∧ step sem code c' = none ∧
          c'.result = some (s', none) := by
      intro c hc hrun
      obtain ⟨c', hr', hstore, hhalt⟩ := hc.end_ hend sem
      have hrun' := hrun.trans hr'
      rw [List.append_nil] at hrun'
      exact ⟨n + 1, c', hrun', halted_step hhalt, by rw [Config.result, hhalt, hstore]; rfl⟩
    cases o with
    | normal =>
      cases hr
      exact hexit c hreach hrun
    | brk =>
      cases hr
      obtain ⟨l, hl, hready⟩ := hreach
      cases hl
      exact hexit c hready hrun
    | ret v =>
      cases hr
      obtain ⟨hstore, hhalt⟩ := hreach
      refine ⟨n, c, hrun, halted_step hhalt, ?_⟩
      rw [Config.result, hhalt, hstore]
      rfl
    | cont => cases hr
    | timeout => cases hr
  · intro fuel tr hr
    obtain ⟨endNode, hend, n, c, hrun, hreach⟩ := function_follows h sem s temps field fuel
    rw [Stmt.runFunction] at hr
    generalize body.run sem fuel s = res at hrun hreach hr
    obtain ⟨tr', s', o⟩ := res
    cases o with
    | timeout =>
      cases hr
      exact ⟨n, c, hreach, hrun⟩
    | cont =>
      obtain ⟨l, hl, -⟩ := hreach
      cases hl
    | normal => cases hr
    | brk => cases hr
    | ret v => cases hr

/-- **A function performs exactly the events of its body.**  When the body ends after some turns of
its loops, the nodes perform the same events and halt with the same store and value; when it does
not, they go on as long; and whatever they have performed is what the body starts with. -/
theorem parseFunction_performs {body : Stmt E S} (h : parseFunction body = some code)
    (sem : Sem E S σ V) (s : σ) (temps : Nat → Option V) (field : Nat) :
    Simulates (step sem code) Config.result (Config.start s temps field)
        (body.runFunction sem s) ∧
      ∀ n tr c', Run (step sem code) n (Config.start s temps field) tr c' →
        ∃ fuel, tr <+: (body.runFunction sem s fuel).1 ∧
          (step sem code c' = none →
            ∃ r, body.runFunction sem s fuel = (tr, some r) ∧ c'.result = some r) := by
  have hsim := function_simulates h sem s temps field
  exact ⟨hsim, fun n tr c' hrun => hsim.complete hrun⟩

/-- `while (0) { switch (1) { case 2: break; default: continue; } i }`, where the condition counts
down from three. -/
def countdown : Stmt Nat Nat :=
  .whileLoop 0 (.block (.cons (.switch 1 (.cons (some 2) (.cons .breakStmt .nil)
    (.cons none (.cons .continueStmt .nil) .nil))) (.cons (.inst 3) .nil)))

def countdownSem : Sem Nat Nat Nat Nat where
  eval e s := match e with
    | 0 => (3 - s, s + 1)
    | 1 => (s, s)
    | e => (e, s)
  exec i s := s + i
  truthy v := v != 0
  equal a b := if a = b then 1 else 0

/-- The first turn goes on at `continue`, the second one leaves the switch at `break`. -/
theorem countdown_performs : ∃ code, parseFunction countdown = some code ∧
    ∃ n c, Run (step countdownSem code) n (Config.start 0 (fun _ => none) 0)
      [.eval 0, .eval 1, .eval 2, .eval 0, .eval 1, .eval 2, .exec 3, .eval 0] c ∧
      step countdownSem code c = none ∧ c.result = some (6, none) :=
  ⟨_, rfl, (parseFunction_performs (show parseFunction countdown = some _ from rfl)
    countdownSem 0 (fun _ => none) 0).1.finished 5 _ _ rfl⟩

end Functions

end Acts.Gsc
