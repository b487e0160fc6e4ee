import Mathlib.Algebra.Group.Int.Defs
import Mathlib.Algebra.Group.Nat.Defs
import Mathlib.Algebra.GroupWithZero.Nat
import Mathlib.Logic.Relation
import Mathlib.Data.Fintype.Card
import Mathlib.Data.Set.Finite.List
import Mathlib.Data.Set.Finite.Basic
import Mathlib.Tactic.Common

/-!
# Recursive functions as bodies that ask for calls

* `Body` — the body of a family of recursive functions over a state: it reads and writes the
  state, and asks for calls.
* `invoke` — the functions, to a depth; `Outcome` has the record of every call made.
* `Body.Guards` — a body that is not accepted once a call it made is not.
* `all_accepted` — **where every call that is accepted had all of its own calls accepted, nothing
  below an accepted call is rejected.**
* `terminates` — **a call from which no endless chain of calls can start returns**;
  `diverges` — one that leads back to itself whatever happens does not.
-/

set_option autoImplicit false

namespace Acts.Lib.Calls

/-- A body with results in `α`; a call of `q` gives a `ρ q`. -/
inductive Body (σ Q : Type) (ρ : Q → Type) (α : Type) : Type where
  | ret (a : α)
  | get (k : σ → Body σ Q ρ α)
  | put (s : σ) (k : Body σ Q ρ α)
  | call (q : Q) (k : ρ q → Body σ Q ρ α)

variable {σ Q : Type} {ρ : Q → Type} {α β : Type}

namespace Body

def bind : Body σ Q ρ α → (α → Body σ Q ρ β) → Body σ Q ρ β
  | .ret a, f => f a
  | .get k, f => .get (fun s => (k s).bind f)
  | .put s k, f => .put s (k.bind f)
  | .call q k, f => .call q (fun r => (k r).bind f)

instance : Monad (Body σ Q ρ) where
  pure := .ret
  bind := Body.bind

@[simp] theorem pure_eq (a : α) : (pure a : Body σ Q ρ α) = .ret a := rfl

@[simp] theorem bind_eq (b : Body σ Q ρ α) (f : α → Body σ Q ρ β) : b >>= f = b.bind f := rfl

attribute [simp] Body.bind

end Body

/-! ## Running -/

/-- A call that has returned, with the calls it made itself. -/
structure Record (Q : Type) where
  query : Q
  accepted : Bool
  parts : List (Q × Bool)
  deriving DecidableEq, Repr

/-- What a body leaves: its value, the state, its own calls, and the record of every call. -/
structure Outcome (σ Q α : Type) where
  value : α
  state : σ
  parts : List (Q × Bool)
  log : List (Record Q)

section Run

variable (accepted : (q : Q) → ρ q → Bool)

def Body.run (callee : (q : Q) → σ → Option (Outcome σ Q (ρ q))) :
    Body σ Q ρ α → σ → Option (Outcome σ Q α)
  | .ret a, s => some ⟨a, s, [], []⟩
  | .get k, s => (k s).run callee s
  | .put s k, _ => k.run callee s
  | .call q k, s =>
    match callee q s with
    | none => none
    | some r =>
      match (k r.value).run callee r.state with
      | none => none
      | some o => some ⟨o.value, o.state, (q, accepted q r.value) :: o.parts, r.log ++ o.log⟩

/-- A call that returned, and the rest of the body behind it. -/
theorem Body.run_call {callee : (q : Q) → σ → Option (Outcome σ Q (ρ q))} {q : Q}
    {k : ρ q → Body σ Q ρ α} {s : σ} {o : Outcome σ Q α} :
    (Body.call q k).run accepted callee s = some o ↔
      ∃ r o', callee q s = some r ∧ (k r.value).run accepted callee r.state = some o' ∧
        o = ⟨o'.value, o'.state, (q, accepted q r.value) :: o'.parts, r.log ++ o'.log⟩ := by
  rw [Body.run]
  cases callee q s with
  | none => simp
  | some r =>
    simp only [Option.some.injEq]
    constructor
    · intro h
      cases hk : (k r.value).run accepted callee r.state with
      | none => rw [hk] at h; cases h
      | some o' =>
        rw [hk, Option.some.injEq] at h
        exact ⟨r, o', rfl, hk, h.symm⟩
    · rintro ⟨_, o', rfl, hk, rfl⟩
      rw [hk]

variable (body : (q : Q) → Body σ Q ρ (ρ q))

/-- The functions; a call deeper than the number has no outcome. -/
def invoke : Nat → (q : Q) → σ → Option (Outcome σ Q (ρ q))
  | 0, _, _ => none
  | n + 1, q, s =>
    ((body q).run accepted (invoke n) s).map
      (fun o => { o with log := ⟨q, accepted q o.value, o.parts⟩ :: o.log })

/-- What holds of the record of a call from its run holds of all of them. -/
theorem log_forall {R : Record Q → Prop}
    (h : ∀ n q s o, (body q).run accepted (invoke accepted body n) s = some o →
      R ⟨q, accepted q o.value, o.parts⟩) {n : Nat} {q : Q} {s : σ} {o : Outcome σ Q (ρ q)}
    (hcall : invoke accepted body n q s = some o) : ∀ c ∈ o.log, R c := by
  have hrun : ∀ n, (∀ q s o, invoke accepted body n q s = some o → ∀ c ∈ o.log, R c) →
      ∀ {α : Type} (b : Body σ Q ρ α) s o, b.run accepted (invoke accepted body n) s = some o →
        ∀ c ∈ o.log, R c := by
    intro n hn α b
    induction b with
    | ret a =>
      intro s o hrun
      rw [Body.run, Option.some.injEq] at hrun
      subst hrun
      exact fun _ hmem => absurd hmem List.not_mem_nil
    | get k ih => exact fun s => ih s s
    | put s' k ih => exact fun _ => ih s'
    | call q k ih =>
      intro s o hrun
      obtain ⟨r, o', hc, hk, rfl⟩ := (Body.run_call accepted).mp hrun
      intro c hmem
      rcases List.mem_append.mp hmem with hmem | hmem
      · exact hn q s r hc c hmem
      · exact ih r.value r.state o' hk c hmem
  induction n generalizing q s o with
  | zero => cases hcall
  | succ n ih =>
    rw [invoke, Option.map_eq_some_iff] at hcall
    obtain ⟨o', ho', rfl⟩ := hcall
    intro c hmem
    rcases List.mem_cons.mp hmem with rfl | hmem
    · exact h n q s o' ho'
    · exact hrun n (fun q s o => ih) (body q) s o' ho' c hmem

/-- The record of a call comes first. -/
theorem invoke_head {n : Nat} {q : Q} {s : σ} {o : Outcome σ Q (ρ q)}
    (h : invoke accepted body n q s = some o) :
    ∃ r ∈ o.log, r.query = q ∧ r.accepted = accepted q o.value := by
  cases n with
  | zero => cases h
  | succ n =>
    rw [invoke, Option.map_eq_some_iff] at h
    obtain ⟨o', -, rfl⟩ := h
    exact ⟨_, List.mem_cons_self, rfl, rfl⟩

/-- Every call of a recorded call is recorded. -/
theorem log_parts {n : Nat} {q : Q} {s : σ} {o : Outcome σ Q (ρ q)}
    (h : invoke accepted body n q s = some o) :
    ∀ r ∈ o.log, ∀ p ∈ r.parts, ∃ c ∈ o.log, c.query = p.1 ∧ c.accepted = p.2 := by
  have hrun : ∀ n, (∀ q s o, invoke accepted body n q s = some o →
        ∀ r ∈ o.log, ∀ p ∈ r.parts, ∃ c ∈ o.log, c.query = p.1 ∧ c.accepted = p.2) →
      ∀ {α : Type} (b : Body σ Q ρ α) s o, b.run accepted (invoke accepted body n) s = some o →
        (∀ p ∈ o.parts, ∃ c ∈ o.log, c.query = p.1 ∧ c.accepted = p.2) ∧
        ∀ r ∈ o.log, ∀ p ∈ r.parts, ∃ c ∈ o.log, c.query = p.1 ∧ c.accepted = p.2 := by
    intro n hn α b
    induction b with
    | ret a =>
      intro s o hrun
      rw [Body.run, Option.some.injEq] at hrun
      subst hrun
      exact ⟨fun _ hmem => absurd hmem List.not_mem_nil, fun _ hmem => absurd hmem List.not_mem_nil⟩
    | get k ih => exact fun s => ih s s
    | put s' k ih => exact fun _ => ih s'
    | call q k ih =>
      intro s o hrun
      obtain ⟨r, o', hc, hk, rfl⟩ := (Body.run_call accepted).mp hrun
      obtain ⟨hparts, hlog⟩ := ih r.value r.state o' hk
      refine ⟨fun p hp => ?_, fun x hx p hp => ?_⟩
      · rcases List.mem_cons.mp hp with rfl | hp
        · obtain ⟨c, hmem, hq, hacc⟩ := invoke_head accepted body hc
          exact ⟨c, List.mem_append_left _ hmem, hq, hacc⟩
        · obtain ⟨c, hmem, hcp⟩ := hparts p hp
          exact ⟨c, List.mem_append_right _ hmem, hcp⟩
      · rcases List.mem_append.mp hx with hx | hx
        · obtain ⟨c, hmem, hcp⟩ := hn q s r hc x hx p hp
          exact ⟨c, List.mem_append_left _ hmem, hcp⟩
        · obtain ⟨c, hmem, hcp⟩ := hlog x hx p hp
          exact ⟨c, List.mem_append_right _ hmem, hcp⟩
  induction n generalizing q s o with
  | zero => cases h
  | succ n ih =>
    rw [invoke, Option.map_eq_some_iff] at h
    obtain ⟨o', ho', rfl⟩ := h
    obtain ⟨hparts, hlog⟩ := hrun n (fun q s o => ih) (body q) s o' ho'
    intro r hr p hp
    have hfound : ∃ c ∈ o'.log, c.query = p.1 ∧ c.accepted = p.2 := by
      rcases List.mem_cons.mp hr with rfl | hr
      · exact hparts p hp
      · exact hlog r hr p hp
    obtain ⟨c, hmem, hcp⟩ := hfound
    exact ⟨c, List.mem_cons_of_mem _ hmem, hcp⟩

end Run

/-! ## Rejected calls -/

section Accept

variable (accepted : (q : Q) → ρ q → Bool)

/-- The body has no other results than these. -/
def Body.Yields (p : α → Prop) : Body σ Q ρ α → Prop
  | .ret a => p a
  | .get k => ∀ s, (k s).Yields p
  | .put _ k => k.Yields p
  | .call _ k => ∀ r, (k r).Yields p

/-- After a rejected call the body has no other results than these. -/
def Body.Guards (p : α → Prop) : Body σ Q ρ α → Prop
  | .ret _ => True
  | .get k => ∀ s, (k s).Guards p
  | .put _ k => k.Guards p
  | .call q k => ∀ r, if accepted q r = true then (k r).Guards p else (k r).Yields p

attribute [simp] Body.Yields Body.Guards

@[simp] theorem Body.yields_ite {p : α → Prop} {a : Prop} [Decidable a] {b b' : Body σ Q ρ α} :
    (if a then b else b').Yields p ↔ if a then b.Yields p else b'.Yields p := by
  split <;> rfl

@[simp] theorem Body.guards_ite {p : α → Prop} {a : Prop} [Decidable a] {b b' : Body σ Q ρ α} :
    (if a then b else b').Guards accepted p ↔
      if a then b.Guards accepted p else b'.Guards accepted p := by
  split <;> rfl

theorem Body.yields_of_forall {p : α → Prop} (h : ∀ a, p a) (b : Body σ Q ρ α) : b.Yields p := by
  induction b with
  | ret a => exact h a
  | get k ih => exact ih
  | put s k ih => exact ih
  | call q k ih => exact ih

@[simp] theorem Body.yields_true (b : Body σ Q ρ α) : b.Yields (fun _ => True) :=
  yields_of_forall (fun _ => trivial) b

theorem Body.Yields.imp {p p' : α → Prop} (h : ∀ a, p a → p' a) {b : Body σ Q ρ α}
    (hb : b.Yields p) : b.Yields p' := by
  induction b with
  | ret a => exact h a hb
  | get k ih => exact fun s => ih s (hb s)
  | put s k ih => exact ih hb
  | call q k ih => exact fun r => ih r (hb r)

theorem Body.yields_bind {p : β → Prop} (b : Body σ Q ρ α) (f : α → Body σ Q ρ β) :
    (b.bind f).Yields p ↔ b.Yields (fun a => (f a).Yields p) := by
  induction b with
  | ret a => exact Iff.rfl
  | get k ih => exact forall_congr' ih
  | put s k ih => exact ih
  | call q k ih => exact forall_congr' ih

theorem Body.Guards.imp {p p' : α → Prop} (h : ∀ a, p a → p' a) {b : Body σ Q ρ α}
    (hb : b.Guards accepted p) : b.Guards accepted p' := by
  induction b with
  | ret a => trivial
  | get k ih => exact fun s => ih s (hb s)
  | put s k ih => exact ih hb
  | call q k ih =>
    intro r
    have hr := hb r
    split
    · rename_i hacc
      rw [if_pos hacc] at hr
      exact ih r hr
    · rename_i hacc
      rw [if_neg hacc] at hr
      exact hr.imp h

/-- A body and what follows it: after a rejected call the rest must not give another result. -/
theorem Body.Guards.bind {p : β → Prop} {b : Body σ Q ρ α} {f : α → Body σ Q ρ β}
    (hb : b.Guards accepted (fun a => (f a).Yields p)) (hf : ∀ a, (f a).Guards accepted p) :
    (b.bind f).Guards accepted p := by
  induction b with
  | ret a => exact hf a
  | get k ih => exact fun s => ih s (hb s)
  | put s k ih => exact ih hb
  | call q k ih =>
    intro r
    have hr := hb r
    split
    · rename_i hacc
      rw [if_pos hacc] at hr
      exact ih r hr
    · rename_i hacc
      rw [if_neg hacc] at hr
      exact (Body.yields_bind _ _).mpr hr

/-- An accepted call had all of its calls accepted. -/
def Record.Sound (c : Record Q) : Prop := c.accepted = true → ∀ p ∈ c.parts, p.2 = true

theorem Body.yields_run {p : α → Prop} {callee : (q : Q) → σ → Option (Outcome σ Q (ρ q))}
    {b : Body σ Q ρ α} (h : b.Yields p) {s : σ} {o : Outcome σ Q α}
    (hrun : b.run accepted callee s = some o) : p o.value := by
  induction b generalizing s o with
  | ret a =>
    rw [Body.run, Option.some.injEq] at hrun
    subst hrun
    exact h
  | get k ih => exact ih s (h s) hrun
  | put s' k ih => exact ih h hrun
  | call q k ih =>
    obtain ⟨r, o', -, hk, rfl⟩ := (Body.run_call accepted).mp hrun
    have hrest := ih r.value (h r.value) hk
    exact hrest

/-- A body that guards has a result of the kind, or all of its calls were accepted. -/
theorem Body.guards_run {p : α → Prop} {callee : (q : Q) → σ → Option (Outcome σ Q (ρ q))}
    {b : Body σ Q ρ α} (h : b.Guards accepted p) {s : σ} {o : Outcome σ Q α}
    (hrun : b.run accepted callee s = some o) : p o.value ∨ ∀ c ∈ o.parts, c.2 = true := by
  induction b generalizing s o with
  | ret a =>
    rw [Body.run, Option.some.injEq] at hrun
    subst hrun
    exact .inr (fun _ hmem => absurd hmem List.not_mem_nil)
  | get k ih => exact ih s (h s) hrun
  | put s' k ih => exact ih h hrun
  | call q k ih =>
    obtain ⟨r, o', -, hk, rfl⟩ := (Body.run_call accepted).mp hrun
    have hr := h r.value
    by_cases hacc : accepted q r.value = true
    · rw [if_pos hacc] at hr
      rcases ih r.value hr hk with hp | hall
      · exact .inl hp
      · refine .inr (fun c hmem => ?_)
        rcases List.mem_cons.mp hmem with rfl | hmem
        · exact hacc
        · exact hall c hmem
    · rw [if_neg hacc] at hr
      have hrest := Body.yields_run accepted hr hk
      exact .inl hrest

variable (body : (q : Q) → Body σ Q ρ (ρ q))

/-- A call whose body is not accepted once a call it made is not. -/
theorem sound_of_guards {q : Q}
    (h : (body q).Guards accepted (fun r => accepted q r = false))
    {callee : (q : Q) → σ → Option (Outcome σ Q (ρ q))} {s : σ} {o : Outcome σ Q (ρ q)}
    (hrun : (body q).run accepted callee s = some o) :
    (⟨q, accepted q o.value, o.parts⟩ : Record Q).Sound := by
  intro hacc
  rcases Body.guards_run accepted h hrun with hno | hall
  · exact absurd hacc (by simp [hno])
  · exact hall

/-- **Where the accepted calls are sound, an accepted call has nothing rejected below it.** -/
theorem all_accepted {n : Nat} {q : Q} {s : σ} {o : Outcome σ Q (ρ q)}
    (hcall : invoke accepted body n q s = some o) (hsound : ∀ c ∈ o.log, c.Sound)
    (hacc : accepted q o.value = true) : ∀ c ∈ o.log, c.accepted = true := by
  have hrun : ∀ n, (∀ q s o, invoke accepted body n q s = some o → (∀ c ∈ o.log, c.Sound) →
        accepted q o.value = true → ∀ c ∈ o.log, c.accepted = true) →
      ∀ {α : Type} (b : Body σ Q ρ α) s o, b.run accepted (invoke accepted body n) s = some o →
        (∀ c ∈ o.log, c.Sound) → (∀ p ∈ o.parts, p.2 = true) →
        ∀ c ∈ o.log, c.accepted = true := by
    intro n hn α b
    induction b with
    | ret a =>
      intro s o hrun _ _
      rw [Body.run, Option.some.injEq] at hrun
      subst hrun
      exact fun _ hmem => absurd hmem List.not_mem_nil
    | get k ih => exact fun s => ih s s
    | put s' k ih => exact fun _ => ih s'
    | call q k ih =>
      intro s o hrun hs hparts
      obtain ⟨r, o', hc, hk, rfl⟩ := (Body.run_call accepted).mp hrun
      intro c hmem
      rcases List.mem_append.mp hmem with hmem | hmem
      · exact hn q s r hc (fun c hmem => hs c (List.mem_append_left _ hmem))
          (hparts _ List.mem_cons_self) c hmem
      · exact ih r.value r.state o' hk (fun c hmem => hs c (List.mem_append_right _ hmem))
          (fun p hp => hparts p (List.mem_cons_of_mem _ hp)) c hmem
  induction n generalizing q s o with
  | zero => cases hcall
  | succ n ih =>
    rw [invoke, Option.map_eq_some_iff] at hcall
    obtain ⟨o', ho', rfl⟩ := hcall
    have hparts := hsound _ List.mem_cons_self hacc
    intro c hmem
    rcases List.mem_cons.mp hmem with rfl | hmem
    · exact hacc
    · exact hrun n (fun q s o => ih) (body q) s o' ho'
        (fun c hmem => hsound c (List.mem_cons_of_mem _ hmem)) hparts c hmem

end Accept

/-! ## Returning -/

section Return

variable (accepted : (q : Q) → ρ q → Bool) (body : (q : Q) → Body σ Q ρ (ρ q))

theorem Body.run_mono {callee callee' : (q : Q) → σ → Option (Outcome σ Q (ρ q))}
    (h : ∀ q s o, callee q s = some o → callee' q s = some o) (b : Body σ Q ρ α) {s : σ}
    {o : Outcome σ Q α} (hrun : b.run accepted callee s = some o) :
    b.run accepted callee' s = some o := by
  induction b generalizing s o with
  | ret a => exact hrun
  | get k ih => exact ih s hrun
  | put s' k ih => exact ih hrun
  | call q k ih =>
    obtain ⟨r, o', hc, hk, rfl⟩ := (Body.run_call accepted).mp hrun
    exact (Body.run_call accepted).mpr ⟨r, o', h q s r hc, ih r.value hk, rfl⟩

/-- A call that returns returns the same at every greater depth. -/
theorem invoke_mono {n m : Nat} (hnm : n ≤ m) {q : Q} {s : σ} {o : Outcome σ Q (ρ q)}
    (h : invoke accepted body n q s = some o) : invoke accepted body m q s = some o := by
  induction n generalizing m q s o with
  | zero => cases h
  | succ n ih =>
    obtain ⟨m, rfl⟩ : ∃ k, m = k + 1 := ⟨m - 1, by omega⟩
    rw [invoke, Option.map_eq_some_iff] at h ⊢
    obtain ⟨o', ho', heq⟩ := h
    exact ⟨o', Body.run_mono accepted (fun q s o => ih (by omega)) (body q) ho', heq⟩

/-- Every call the body makes, on some way through it, is one of these. -/
def Body.Asks (p : Q → Prop) : Body σ Q ρ α → Prop
  | .ret _ => True
  | .get k => ∀ s, (k s).Asks p
  | .put _ k => k.Asks p
  | .call q k => p q ∧ ∀ r, (k r).Asks p

/-- The body may call `q`. -/
def Body.MayCall (q : Q) : Body σ Q ρ α → Prop
  | .ret _ => False
  | .get k => ∃ s, (k s).MayCall q
  | .put _ k => k.MayCall q
  | .call q' k => q' = q ∨ ∃ r, (k r).MayCall q

attribute [simp] Body.Asks

@[simp] theorem Body.asks_ite {p : Q → Prop} {a : Prop} [Decidable a] {b b' : Body σ Q ρ α} :
    (if a then b else b').Asks p ↔ if a then b.Asks p else b'.Asks p := by
  split <;> rfl

/-- The calls of a body and of what follows each of its results. -/
theorem Body.Asks.bind_yields {p : Q → Prop} {y : α → Prop} {b : Body σ Q ρ α}
    {f : α → Body σ Q ρ β} (hb : b.Asks p) (hy : b.Yields y) (hf : ∀ a, y a → (f a).Asks p) :
    (b.bind f).Asks p := by
  induction b with
  | ret a => exact hf a hy
  | get k ih => exact fun s => ih s (hb s) (hy s)
  | put s k ih => exact ih hb hy
  | call q k ih => exact ⟨hb.1, fun r => ih r (hb.2 r) (hy r)⟩

theorem Body.Asks.bind {p : Q → Prop} {b : Body σ Q ρ α} {f : α → Body σ Q ρ β} (hb : b.Asks p)
    (hf : ∀ a, (f a).Asks p) : (b.bind f).Asks p :=
  hb.bind_yields b.yields_true (fun a _ => hf a)

theorem Body.Asks.imp {p p' : Q → Prop} (h : ∀ q, p q → p' q) {b : Body σ Q ρ α}
    (hb : b.Asks p) : b.Asks p' := by
  induction b with
  | ret a => trivial
  | get k ih => exact fun s => ih s (hb s)
  | put s k ih => exact ih hb
  | call q k ih => exact ⟨h q hb.1, fun r => ih r (hb.2 r)⟩

theorem Body.asks_mayCall (b : Body σ Q ρ α) : b.Asks (fun q => b.MayCall q) := by
  induction b with
  | ret a => trivial
  | get k ih => exact fun s => (ih s).imp (fun _ hq => ⟨s, hq⟩)
  | put s k ih => exact ih
  | call q k ih => exact ⟨.inl rfl, fun r => (ih r).imp (fun _ hq => .inr ⟨r, hq⟩)⟩

theorem Body.Asks.mayCall {p : Q → Prop} {b : Body σ Q ρ α} (h : b.Asks p) {q : Q}
    (hq : b.MayCall q) : p q := by
  induction b with
  | ret a => cases hq
  | get k ih =>
    obtain ⟨s, hs⟩ := hq
    exact ih s (h s) hs
  | put s k ih => exact ih h hq
  | call q' k ih =>
    rcases hq with rfl | ⟨r, hr⟩
    · exact h.1
    · exact ih r (h.2 r) hr

/-- The body calls `q` on every way through it, unless a call before it does not return. -/
def Body.MustCall (q : Q) : Body σ Q ρ α → Prop
  | .ret _ => False
  | .get k => ∀ s, (k s).MustCall q
  | .put _ k => k.MustCall q
  | .call q' k => q' = q ∨ ∀ r, (k r).MustCall q

theorem Body.run_returns {b : Body σ Q ρ α}
    (h : b.Asks (fun q => ∀ s, ∃ n o, invoke accepted body n q s = some o)) (s : σ) :
    ∃ n o, b.run accepted (invoke accepted body n) s = some o := by
  induction b generalizing s with
  | ret a => exact ⟨0, _, rfl⟩
  | get k ih => exact ih s (h s) s
  | put s' k ih => exact ih h s'
  | call q k ih =>
    obtain ⟨n, r, hr⟩ := h.1 s
    obtain ⟨m, o, ho⟩ := ih r.value (h.2 r.value) r.state
    refine ⟨max n m, _, (Body.run_call accepted).mpr ⟨r, o, ?_, ?_, rfl⟩⟩
    · exact invoke_mono accepted body (Nat.le_max_left n m) hr
    · exact Body.run_mono accepted
        (fun q s o => invoke_mono accepted body (Nat.le_max_right n m)) _ ho

/-- **A call returns when no endless chain of calls starts from it.** -/
theorem terminates {q : Q} (h : Acc (fun q' q => (body q).MayCall q') q) (s : σ) :
    ∃ n o, invoke accepted body n q s = some o := by
  induction h generalizing s with
  | intro q _ ih =>
    have hasks := (body q).asks_mayCall.imp (fun q' hq => ih q' hq)
    obtain ⟨n, o, ho⟩ := Body.run_returns accepted body hasks s
    exact ⟨n + 1, _, by rw [invoke, ho]; rfl⟩

/-- Calls among finitely many, none of which leads back to itself, start no endless chain. -/
theorem acc_of_no_cycle {R : Q → Q → Prop} (l : List Q)
    (hclosed : ∀ q ∈ l, ∀ q', R q' q → q' ∈ l) {q : Q} (hq : q ∈ l)
    (hno : ∀ q', Relation.ReflTransGen R q' q → ¬ Relation.TransGen R q' q') : Acc R q := by
  have hmem : ∀ q', Relation.ReflTransGen R q' q → q' ∈ l := by
    intro q' h
    induction h using Relation.ReflTransGen.head_induction_on with
    | refl => exact hq
    | head h _ ih => exact hclosed _ ih _ h
  let α := {q' // Relation.ReflTransGen R q' q}
  let r : α → α → Prop := fun a b => Relation.TransGen R a.1 b.1
  have hfinite : Finite α := ((List.finite_toSet l).subset hmem).to_subtype
  have htrans : IsTrans α r := ⟨fun _ _ _ hab hbc => hab.trans hbc⟩
  have hirrefl : Std.Irrefl r := ⟨fun a => hno a.1 a.2⟩
  have hwf : WellFounded r := Finite.wellFounded_of_trans_of_irrefl r
  have hacc : ∀ a : α, Acc R a.1 := by
    intro a
    induction a using hwf.induction with
    | _ a ih => exact ⟨_, fun q' hq' => ih ⟨q', .head hq' a.2⟩ (.single hq')⟩
  exact hacc ⟨q, .refl⟩

theorem Body.run_mustCall {callee : (q : Q) → σ → Option (Outcome σ Q (ρ q))} {q : Q}
    (hq : ∀ s, callee q s = none) {b : Body σ Q ρ α} (h : b.MustCall q) (s : σ) :
    b.run accepted callee s = none := by
  induction b generalizing s with
  | ret a => cases h
  | get k ih => exact ih s (h s) s
  | put s' k ih => exact ih h s'
  | call q' k ih =>
    rw [Body.run]
    cases hc : callee q' s with
    | none => rfl
    | some r =>
      rcases h with rfl | h
      · rw [hq s] at hc
        cases hc
      · simp only [ih r.value (h r.value) r.state]

/-- What calls it on every way does not return either. -/
theorem diverges_of_mustCall {q q' : Q} (hq : ∀ n s, invoke accepted body n q' s = none)
    (h : Relation.ReflTransGen (fun q' q => (body q).MustCall q') q' q) (n : Nat) (s : σ) :
    invoke accepted body n q s = none := by
  induction h generalizing n s with
  | refl => exact hq n s
  | tail _ hmust ih =>
    cases n with
    | zero => rfl
    | succ n =>
      rw [invoke, Body.run_mustCall accepted (fun s => ih n s) hmust]
      rfl

/-- **A call that leads back to itself on every way never returns.** -/
theorem diverges {q : Q} (h : Relation.TransGen (fun q' q => (body q).MustCall q') q q) (n : Nat)
    (s : σ) : invoke accepted body n q s = none := by
  induction n generalizing q s with
  | zero => rfl
  | succ n ih =>
    obtain ⟨q', hmust, hcycle⟩ : ∃ q', (body q).MustCall q' ∧
        Relation.TransGen (fun q' q => (body q).MustCall q') q' q' := by
      cases h with
      | single h => exact ⟨q, h, .single h⟩
      | tail h h' => exact ⟨_, h', .head h' h⟩
    rw [invoke, Body.run_mustCall accepted (fun s => ih hcycle s) hmust]
    rfl

end Return

end Acts.Lib.Calls
