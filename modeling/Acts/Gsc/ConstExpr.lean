import Acts.Gsc.ParserCalls
import Acts.Vm.Loader

/-!
# Named constants

* `parseConstExpr`, `parseProg` — the definitions of a program, and compiling it; a definition is
  kept as a tree and replaces the one of the same name.
* `NoLoop` — no name that is expanded below a call is expanded again below its own tree.
* `acc_of_noLoop` — **below a call without such a name there is no endless chain of calls.**
* `float_returns_iff` — **a float constant returns exactly then.**
-/

set_option autoImplicit false

namespace Acts.Gsc.Parser

open Acts.Lib.Calls Relation

variable {σ : Type}

/-! ## Definitions -/

/-- `Hash64`. -/
def hash64 (name : String) : UInt64 :=
  Vm.Loader.hash64A name.toUTF8.toList &&& 0x7FFFFFFFFFFFFFFF

/-- The definitions by the hash of their name, the newest first. -/
abbrev Defs := List (UInt64 × Node)

def Compiler.withConstexprs (c : Compiler σ) (defs : Defs) : Compiler σ :=
  { c with constexprs := fun name => defs.lookup (hash64 name) }

/-- `ParseConstExpr`; `none` is an error. -/
def parseConstExpr (exp : Node) (defs : Defs) : Option Defs :=
  let cs := exp.children
  if cs.length < 4 || !(child cs 3).isTree then none
  else some ((hash64 (child cs 1).text, child cs 3) :: defs)

/-! ## Programs -/

def Node.isNamespace (n : Node) : Bool := n.isRule .namespaceName || n.isRule .filenamespace

/-- What is neither a function nor a definition, and has its own code. -/
def Node.isDirective : Node → Bool
  | .error => false
  | .terminal _ _ => true
  | .rule r _ => [.includeFile, .precache, .usingAnimtree, .namespaceName, .filenamespace,
      .classDef].contains r

section

variable (c : Compiler σ)

/-- The namespaces are read first. -/
def parseNamespaces : List Node → σ → Bool × σ
  | [], s => (true, s)
  | n :: ns, s =>
    if n.isError then (false, s)
    else if n.isNamespace then
      match c.check .directive n s with
      | (false, s) => (false, s)
      | (true, s) => parseNamespaces ns s
    else parseNamespaces ns s

/-- One part of a program; `none` has not returned to the depth. -/
def parseItem (fuel : Nat) (n : Node) (defs : Defs) (s : σ) : Option (Bool × Defs × σ) :=
  if n.isRule .constexpr then
    match parseConstExpr n defs with
    | none => some (false, defs, s)
    | some defs => some (true, defs, s)
  else if n.isRule .function then
    (invoke accepted (bodyOf (c.withConstexprs defs)) fuel (.function n) s).map
      (fun o => (o.value, defs, o.state))
  else if n.isDirective then
    some ((c.check .directive n s).1, defs, (c.check .directive n s).2)
  else some (false, defs, s)

def parseItems (fuel : Nat) : List Node → Defs → σ → Option (Bool × Defs × σ)
  | [], defs, s => some (true, defs, s)
  | n :: ns, defs, s =>
    match parseItem c fuel n defs s with
    | none => none
    | some (false, defs, s) => some (false, defs, s)
    | some (true, defs, s) => parseItems fuel ns defs s

/-- `ParseProg`. -/
def parseProg (fuel : Nat) (prog : Node) (s : σ) : Option (Bool × Defs × σ) :=
  if prog.isError then some (false, [], s)
  else
    match parseNamespaces c prog.children s with
    | (false, s) => some (false, [], s)
    | (true, s) =>
      match parseItems c fuel prog.children [] s with
      | some (true, defs, s) =>
        some ((c.check .devBlocks prog s).1, defs, (c.check .devBlocks prog s).2)
      | r => r

end

/-! ## Chains of calls -/

section

variable (c : Compiler σ)

/-- The call `q` may call `q'`. -/
def Calls (q' q : Query) : Prop := (bodyOf c q).MayCall q'

/-- The call `q` calls `q'` on every way. -/
def MustCalls (q' q : Query) : Prop := (bodyOf c q).MustCall q'

/-- No name below the call leads back to itself. -/
def NoLoop (q : Query) : Prop :=
  ∀ q', ReflTransGen (Calls c) q' q → (namedConstant c q'.node).isSome → ¬ TransGen (Calls c) q' q'

theorem calls_reaches {q' q : Query} (h : Calls c q' q) : Reaches c q q' :=
  (bodyOf_asks c q).mayCall h

end

mutual

def Node.size : Node → Nat
  | .error => 0
  | .terminal _ _ => 1
  | .rule _ cs => 1 + sizeAll cs

def sizeAll : List Node → Nat
  | [] => 0
  | n :: ns => n.size + sizeAll ns

end

mutual

theorem Node.size_parts {p : Node} : (n : Node) → p ∈ n.parts → p.size ≤ n.size
  | .error, h => by
    rw [Node.parts, List.mem_singleton] at h
    rw [h]
  | .terminal t text, h => by
    rw [Node.parts, List.mem_singleton] at h
    rw [h]
  | .rule r cs, h => by
    rw [Node.parts] at h
    rcases List.mem_cons.mp h with rfl | h
    · exact Nat.le_refl _
    · have hcs := size_partsAll cs h
      rw [Node.size]
      omega

theorem size_partsAll {p : Node} : (cs : List Node) → p ∈ partsAll cs → p.size ≤ sizeAll cs
  | [], h => absurd h List.not_mem_nil
  | n :: ns, h => by
    rw [partsAll] at h
    rw [sizeAll]
    rcases List.mem_append.mp h with h | h
    · have hn := Node.size_parts n h
      omega
    · have hns := size_partsAll ns h
      omega

end

theorem below_size {n m : Node} (hn : n ≠ .error) (h : Below n.children m) : m.size < n.size := by
  cases n with
  | error => exact absurd rfl hn
  | terminal t text =>
    rcases h with rfl | h
    · simp [Node.size]
    · exact absurd h List.not_mem_nil
  | rule r cs =>
    rw [Node.size]
    rcases h with rfl | h
    · rw [Node.size]
      omega
    · have hm := size_partsAll cs h
      omega

/-- A function in an expression is compiled below the value of the expression. -/
def Query.height : Query → Nat
  | .value n _ => 2 * n.size + 1
  | .field n => 2 * n.size
  | .function n => 2 * n.size
  | .number n => 2 * n.size
  | .float n => 2 * n.size

theorem Query.height_node (q : Query) :
    2 * q.node.size ≤ q.height ∧ q.height ≤ 2 * q.node.size + 1 := by
  cases q <;> simp [Query.height, Query.node]

theorem below_height {q q' : Query} (hq : q.node ≠ .error) (h : Below q.node.children q'.node) :
    q'.height < q.height := by
  have hsize := below_size hq h
  have hq := q.height_node
  have hq' := q'.height_node
  omega

theorem compiles_height {q q' : Query} (h : Compiles q q') : q'.height < q.height := by
  obtain ⟨⟨expressVal, hv⟩, rfl⟩ := h
  rw [hv]
  simp [Query.height, Query.node]

/-- **A call that expands no name goes down.** -/
theorem reaches_height {c : Compiler σ} {q q' : Query} (h : Reaches c q q')
    (hq : (namedConstant c q.node).isSome = false) : q'.height < q.height := by
  cases h with
  | below herror h => exact below_height herror h
  | constant h =>
    rw [h] at hq
    cases hq
  | function h => exact compiles_height h

/-- A chain of calls goes down, or a name is expanded on it. -/
theorem chain_height {c : Compiler σ} {q' q : Query} (h : TransGen (Calls c) q' q) :
    q'.height < q.height ∨ ∃ e, TransGen (Calls c) q' e ∧ ReflTransGen (Calls c) e q ∧
      (namedConstant c e.node).isSome = true := by
  induction h with
  | single h =>
    rename_i b
    by_cases hb : (namedConstant c b.node).isSome = true
    · exact .inr ⟨b, .single h, .refl, hb⟩
    · exact .inl (reaches_height (calls_reaches c h) (by simpa using hb))
  | tail hchain h ih =>
    rename_i b d
    by_cases hd : (namedConstant c d.node).isSome = true
    · exact .inr ⟨d, hchain.tail h, .refl, hd⟩
    · have hlt := reaches_height (calls_reaches c h) (by simpa using hd)
      rcases ih with ih | ⟨e, hqe, heb, he⟩
      · exact .inl (by omega)
      · exact .inr ⟨e, hqe, heb.tail h, he⟩

theorem no_cycle_of_noLoop {c : Compiler σ} {q : Query} (h : NoLoop c q) (q' : Query)
    (hq' : ReflTransGen (Calls c) q' q) : ¬ TransGen (Calls c) q' q' := by
  intro hcycle
  rcases chain_height hcycle with hlt | ⟨e, hqe, heq, he⟩
  · omega
  · exact h e (heq.trans hq') he (.trans_right heq hqe)

/-! ## Returning -/

/-- The calls on a node. -/
def queriesOn (n : Node) : List Query :=
  [.value n false, .value n true, .field n, .function n, .number n, .float n]

theorem mem_queriesOn {q : Query} {l : List Node} : q ∈ l.flatMap queriesOn ↔ q.node ∈ l := by
  rw [List.mem_flatMap]
  constructor
  · rintro ⟨n, hn, hq⟩
    simp only [queriesOn, List.mem_cons, List.not_mem_nil, or_false] at hq
    rcases hq with rfl | rfl | rfl | rfl | rfl | rfl <;> exact hn
  · intro hq
    refine ⟨q.node, hq, ?_⟩
    cases q with
    | value n expressVal => cases expressVal <;> simp [queriesOn, Query.node]
    | _ => simp [queriesOn, Query.node]

/-- The definitions of the compiler are among these trees. -/
def Compiler.DefinedIn (c : Compiler σ) (trees : List Node) : Prop :=
  ∀ name e, c.constexprs name = some e → e ∈ trees

theorem Compiler.DefinedIn.namedConstant {c : Compiler σ} {trees : List Node}
    (h : c.DefinedIn trees) {n e : Node} (he : namedConstant c n = some e) : e ∈ trees := by
  rw [Parser.namedConstant] at he
  split at he
  · exact h _ _ he
  · cases he

/-- **No endless chain of calls starts below a call without a loop.** -/
theorem acc_of_noLoop {c : Compiler σ} {trees : List Node} (hdefs : c.DefinedIn trees) {q : Query}
    (h : NoLoop c q) : Acc (Calls c) q := by
  have hclosed : ∀ q₁ q₂, Below (q.node :: trees) q₁.node → Calls c q₂ q₁ →
      Below (q.node :: trees) q₂.node := by
    intro q₁ q₂ hq₁ hcall
    cases calls_reaches c hcall with
    | below herror h => exact hq₁.trans h
    | constant h => exact below_mem (List.mem_cons_of_mem _ (hdefs.namedConstant h))
    | function h =>
      obtain ⟨-, rfl⟩ := h
      exact hq₁
  have hmem : ∀ q₁, q₁ ∈ (.error :: partsAll (q.node :: trees)).flatMap queriesOn ↔
      Below (q.node :: trees) q₁.node := by
    intro q₁
    rw [mem_queriesOn, List.mem_cons]
    rfl
  refine acc_of_no_cycle _ (fun q₁ hq₁ q₂ hcall => ?_) ((hmem q).mpr (below_mem List.mem_cons_self))
    (no_cycle_of_noLoop h)
  exact (hmem q₂).mpr (hclosed q₁ q₂ ((hmem q₁).mp hq₁) hcall)

theorem returns_of_noLoop {c : Compiler σ} {trees : List Node} (hdefs : c.DefinedIn trees)
    {q : Query} (h : NoLoop c q) (s : σ) :
    ∃ fuel o, invoke accepted (bodyOf c) fuel q s = some o :=
  terminates accepted (bodyOf c) (acc_of_noLoop hdefs h) s

/-! ## Not returning -/

/-- A name below the call leads back to itself whatever happens. -/
def Loops (c : Compiler σ) (q : Query) : Prop :=
  ∃ q', ReflTransGen (MustCalls c) q' q ∧ TransGen (MustCalls c) q' q'

theorem not_returns_of_loops {c : Compiler σ} {q : Query} (h : Loops c q) (fuel : Nat) (s : σ) :
    invoke accepted (bodyOf c) fuel q s = none := by
  obtain ⟨q', hreach, hcycle⟩ := h
  exact diverges_of_mustCall accepted (bodyOf c) (diverges accepted (bodyOf c) hcycle) hreach fuel s

/-- Looking for a float makes one call at most, and always the same. -/
theorem float_body (c : Compiler σ) (n : Node) :
    (∃ ok, floatNumberNodeValue c n = .ret ok) ∨ ∃ m, floatNumberNodeValue c n = float m := by
  unfold floatNumberNodeValue
  cases namedConstant c n with
  | some e => exact .inr ⟨e, rfl⟩
  | none =>
    cases n with
    | error => exact .inl ⟨false, rfl⟩
    | terminal t text => exact .inl ⟨_, rfl⟩
    | rule r cs =>
      simp only
      split
      · exact .inr ⟨_, rfl⟩
      split
      · exact .inr ⟨_, rfl⟩
      · exact .inl ⟨false, rfl⟩

theorem float_calls {c : Compiler σ} {q' : Query} {n : Node} (h : Calls c q' (.float n)) :
    (∃ m, q' = .float m) ∧ MustCalls c q' (.float n) := by
  rcases float_body c n with ⟨ok, hbody⟩ | ⟨m, hbody⟩
  · rw [Calls, bodyOf, hbody] at h
    cases h
  · rw [Calls, bodyOf, hbody] at h
    rw [MustCalls, bodyOf, hbody]
    rcases h with rfl | ⟨_, h⟩
    · exact ⟨⟨m, rfl⟩, .inl rfl⟩
    · cases h

theorem float_chain {c : Compiler σ} {q' : Query} {n : Node}
    (h : ReflTransGen (Calls c) q' (.float n)) :
    (∃ m, q' = .float m) ∧ ReflTransGen (MustCalls c) q' (.float n) := by
  induction h using ReflTransGen.head_induction_on with
  | refl => exact ⟨⟨n, rfl⟩, .refl⟩
  | head hcall _ ih =>
    obtain ⟨⟨m, rfl⟩, hmust⟩ := ih
    obtain ⟨hfloat, hcall⟩ := float_calls hcall
    exact ⟨hfloat, .head hcall hmust⟩

theorem float_cycle {c : Compiler σ} {q' : Query} {n : Node}
    (h : TransGen (Calls c) q' (.float n)) : TransGen (MustCalls c) q' (.float n) := by
  induction h using TransGen.head_induction_on with
  | single h => exact .single (float_calls h).2
  | head h hchain ih =>
    obtain ⟨⟨m, rfl⟩, -⟩ := float_chain hchain.to_reflTransGen
    exact .head (float_calls h).2 ih

/-- **A float constant returns exactly where no name below it leads back to itself.** -/
theorem float_returns_iff {c : Compiler σ} {trees : List Node} (hdefs : c.DefinedIn trees)
    {n : Node} {s : σ} :
    (∃ fuel o, invoke accepted (bodyOf c) fuel (.float n) s = some o) ↔ NoLoop c (.float n) := by
  constructor
  · rintro ⟨fuel, o, hreturns⟩ q' hreach - hcycle
    obtain ⟨⟨m, rfl⟩, hmust⟩ := float_chain hreach
    have hnever := not_returns_of_loops ⟨_, hmust, float_cycle hcycle⟩ fuel s
    rw [hreturns] at hnever
    cases hnever
  · exact fun h => returns_of_noLoop hdefs h s

/-! ## Definitions that name earlier ones -/

/-- The place of a name among the definitions, counted from the oldest one. -/
def rankIn : Defs → UInt64 → Nat
  | [], _ => 0
  | (h, _) :: defs, name => if name = h then defs.length + 1 else rankIn defs name

/-- A definition names earlier ones only. -/
def Ordered (defs : Defs) : Prop :=
  ∀ d ∈ defs, ∀ m ∈ d.2.parts, m.isIdf = true → rankIn defs (hash64 m.text) < rankIn defs d.1

instance (defs : Defs) : Decidable (Ordered defs) :=
  inferInstanceAs (Decidable (∀ d ∈ defs, ∀ m ∈ d.2.parts, m.isIdf = true →
    rankIn defs (hash64 m.text) < rankIn defs d.1))

/-- The names in a tree are all below the level. -/
def Level (defs : Defs) (n : Node) (k : Nat) : Prop :=
  ∀ m ∈ n.parts, m.isIdf = true → rankIn defs (hash64 m.text) < k

theorem Level.below {defs : Defs} {n m : Node} {k : Nat} (h : Level defs n k)
    (hm : Below n.children m) : Level defs m k := by
  intro p hp hidf
  rcases hm with rfl | hm
  · rw [Node.parts, List.mem_singleton] at hp
    rw [hp] at hidf
    cases hidf
  · cases n with
    | rule r cs =>
      refine h p ?_ hidf
      rw [Node.parts]
      exact List.mem_cons_of_mem _ (partsAll_trans cs hm hp)
    | error => exact absurd hm List.not_mem_nil
    | terminal t text => exact absurd hm List.not_mem_nil

theorem mem_of_lookup {defs : Defs} {h : UInt64} {e : Node} (hl : defs.lookup h = some e) :
    (h, e) ∈ defs := by
  obtain ⟨l₁, l₂, rfl, -⟩ := List.lookup_eq_some_iff.mp hl
  simp

theorem definedIn_withConstexprs (c : Compiler σ) (defs : Defs) :
    (c.withConstexprs defs).DefinedIn (defs.map Prod.snd) :=
  fun _ _ h => List.mem_map.mpr ⟨_, mem_of_lookup h, rfl⟩

/-- The tree of a name is at the level of the name. -/
theorem level_constant {c : Compiler σ} {defs : Defs} (hordered : Ordered defs) {n e : Node}
    (h : namedConstant (c.withConstexprs defs) n = some e) :
    n.isIdf = true ∧ Level defs e (rankIn defs (hash64 n.text)) := by
  rw [namedConstant] at h
  split at h
  · rename_i hidf
    exact ⟨hidf, hordered _ (mem_of_lookup h)⟩
  · cases h

theorem rankIn_le (defs : Defs) (name : UInt64) : rankIn defs name ≤ defs.length := by
  induction defs with
  | nil => exact Nat.le_refl 0
  | cons d defs ih =>
    rw [rankIn, List.length_cons]
    split <;> omega

/-- A call goes down, or to a lower level. -/
theorem level_calls {c : Compiler σ} {defs : Defs} (hordered : Ordered defs) {q' q : Query}
    (h : Calls (c.withConstexprs defs) q' q) {k : Nat} (hk : Level defs q.node k) :
    (q'.height < q.height ∧ Level defs q'.node k) ∨ ∃ j < k, Level defs q'.node j := by
  cases calls_reaches _ h with
  | below herror h => exact .inl ⟨below_height herror h, hk.below h⟩
  | constant h =>
    obtain ⟨hidf, hlevel⟩ := level_constant hordered h
    exact .inr ⟨_, hk _ q.node.mem_parts hidf, hlevel⟩
  | function h => exact .inl ⟨compiles_height h, h.2 ▸ hk⟩

/-- **Definitions that name earlier ones only make no loop.** -/
theorem noLoop_of_ordered {c : Compiler σ} {defs : Defs} (hordered : Ordered defs) (q : Query) :
    NoLoop (c.withConstexprs defs) q := by
  intro q' _ _ hcycle
  have hchain : ∀ q, TransGen (Calls (c.withConstexprs defs)) q' q → ∀ k, Level defs q.node k →
      (q'.height < q.height ∧ Level defs q'.node k) ∨ ∃ j < k, Level defs q'.node j := by
    intro q hq
    induction hq with
    | single h => exact fun k hk => level_calls hordered h hk
    | tail _ h ih =>
      intro k hk
      rcases level_calls hordered h hk with ⟨hlt, hb⟩ | ⟨j, hj, hb⟩
      · rcases ih k hb with ⟨hlt', hb'⟩ | hlow
        · exact .inl ⟨by omega, hb'⟩
        · exact .inr hlow
      · rcases ih j hb with ⟨-, hb'⟩ | ⟨i, hi, hb'⟩
        · exact .inr ⟨j, hj, hb'⟩
        · exact .inr ⟨i, by omega, hb'⟩
  have hnever : ∀ k, ¬ Level defs q'.node k := by
    intro k
    induction k using Nat.strongRecOn with
    | ind k ih =>
      intro hk
      rcases hchain q' hcycle k hk with ⟨hlt, -⟩ | ⟨j, hj, hlevel⟩
      · omega
      · exact ih j hj hlevel
  exact hnever (defs.length + 1) (fun m _ _ => Nat.lt_succ_of_le (rankIn_le defs _))

end Acts.Gsc.Parser
