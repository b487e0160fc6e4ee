import Acts.Gsc.Stmt

/-!
# The nodes of a statement

* `Stmt.Emits` — the shape of the nodes of a statement, between the current break and continue
  locations.
* `parseStmt_spec` — the parser emits nodes of that shape, leaves its stacks as they were, and
  places every location that it creates once.
* `parseFunction_spec` — so every location of a function is in one place.
-/

set_option autoImplicit false

namespace Acts.Gsc

variable {E S : Type}

/-! ## Shapes -/

def instNodes (i : Option S) : List (Node E S) :=
  match i with
  | none => []
  | some i => [.inst i]

/-- The condition of a `for`. -/
def condNodes (c : Option E) (loopBreak : Nat) : List (Node E S) :=
  match c with
  | none => []
  | some c => [.expr c, .jump loopBreak .jumpOnFalse]

/-- The tests of a switch. -/
def testNodes (var : Nat) : Cases E S → List Nat → List (Node E S)
  | .cons (some e) _ rest, l :: jmpTable =>
    .expr e :: .evalLocalVariableCached var :: .equal :: .jump l .jumpOnTrue ::
      testNodes var rest jmpTable
  | .cons none _ rest, _ :: jmpTable => testNodes var rest jmpTable
  | _, _ => []

mutual
/-- The shape of the nodes of a statement. -/
def Stmt.Emits (brk cont : Option Nat) : Stmt E S → List (Node E S) → Prop
  | .empty, seg => seg = []
  | .inst s, seg => seg = [.inst s]
  | .block ss, seg => ss.Emits brk cont seg
  | .ifThen c t, seg => ∃ l a, t.Emits brk cont a ∧
      seg = [.expr c, .jump l .jumpOnFalse] ++ (a ++ [.label l])
  | .ifElse c t e, seg => ∃ l m a b, t.Emits brk cont a ∧ e.Emits brk cont b ∧
      seg = [.expr c, .jump l .jumpOnFalse] ++ (a ++ ([.jump m .jump, .label l] ++
        (b ++ [.label m])))
  | .whileLoop c body, seg => ∃ l k a, body.Emits (some l) (some k) a ∧
      seg = [.label k, .expr c, .jump l .jumpOnFalse] ++ (a ++ [.jump k .jump, .label l])
  | .doWhile body c, seg => ∃ s l k a, body.Emits (some l) (some k) a ∧
      seg = [.label s] ++ (a ++ [.label k, .expr c, .jump s .jumpOnTrue, .label l])
  | .forLoop init c delta body, seg => ∃ s l k a, body.Emits (some l) (some k) a ∧
      seg = instNodes init ++ ([.label s] ++ (condNodes c l ++ (a ++ ([.label k] ++
        (instNodes delta ++ [.jump s .jump, .label l])))))
  | .switch subject cases, seg => ∃ var l jmpTable blocks,
      cases.Emits (some l) cont jmpTable blocks ∧
      seg = [.expr subject, .evalLocalVariableRefCached var, .setVariableField] ++
        (testNodes var cases jmpTable ++
          ([.jump ((cases.default?.bind (jmpTable[·]?)).getD l) .jump] ++ (blocks ++ [.label l])))
  | .breakStmt, seg => ∃ l, brk = some l ∧ seg = [.jump l .jump]
  | .continueStmt, seg => ∃ l, cont = some l ∧ seg = [.jump l .jump]
  | .returnStmt none, seg => ∃ id, seg = [.end_ id]
  | .returnStmt (some e), seg => seg = [.expr e, .return_]

def Stmts.Emits (brk cont : Option Nat) : Stmts E S → List (Node E S) → Prop
  | .nil, seg => seg = []
  | .cons s ss, seg => ∃ a b, s.Emits brk cont a ∧ ss.Emits brk cont b ∧ seg = a ++ b

def Cases.Emits (brk cont : Option Nat) : Cases E S → List Nat → List (Node E S) → Prop
  | .nil, jmpTable, seg => jmpTable = [] ∧ seg = []
  | .cons _ _ _, [], _ => False
  | .cons _ ss rest, l :: jmpTable, seg => ∃ a b, ss.Emits brk cont a ∧
      rest.Emits brk cont jmpTable b ∧ seg = [.label l] ++ (a ++ b)
end

/-! ## Locations -/

/-- The locations that stand in a list of nodes. -/
def ids (seg : List (Node E S)) : List Nat := seg.filterMap Node.id?

@[simp] theorem ids_nil : ids ([] : List (Node E S)) = [] := rfl

@[simp] theorem ids_append (a b : List (Node E S)) : ids (a ++ b) = ids a ++ ids b :=
  List.filterMap_append

@[simp] theorem ids_label (l : Nat) (seg : List (Node E S)) : ids (.label l :: seg) = l :: ids seg :=
  rfl

@[simp] theorem ids_end (l : Nat) (seg : List (Node E S)) : ids (.end_ l :: seg) = l :: ids seg :=
  rfl

@[simp] theorem ids_expr (e : E) (seg : List (Node E S)) : ids (.expr e :: seg) = ids seg := rfl

@[simp] theorem ids_inst (s : S) (seg : List (Node E S)) : ids (.inst s :: seg) = ids seg := rfl

@[simp] theorem ids_jump (l : Nat) (op : JumpOp) (seg : List (Node E S)) :
    ids (.jump l op :: seg) = ids seg := rfl

@[simp] theorem ids_ref (var : Nat) (seg : List (Node E S)) :
    ids (.evalLocalVariableRefCached var :: seg) = ids seg := rfl

@[simp] theorem ids_set (seg : List (Node E S)) : ids (.setVariableField :: seg) = ids seg := rfl

@[simp] theorem ids_return (seg : List (Node E S)) : ids (.return_ :: seg) = ids seg := rfl

@[simp] theorem ids_instNodes (i : Option S) : ids (instNodes (E := E) i) = [] := by
  cases i <;> rfl

@[simp] theorem ids_condNodes (c : Option E) (l : Nat) : ids (condNodes (S := S) c l) = [] := by
  cases c <;> rfl

@[simp] theorem ids_testNodes (var : Nat) (cases : Cases E S) (jmpTable : List Nat) :
    ids (testNodes var cases jmpTable) = [] := by
  induction jmpTable generalizing cases with
  | nil => cases cases <;> simp [testNodes]
  | cons l jmpTable ih =>
    match cases with
    | .nil => rfl
    | .cons none _ rest => exact ih rest
    | .cons (some e) _ rest => exact ih rest

/-- The parser went from `f` to `f'` by emitting `seg`. -/
structure Grows (f f' : FunctionState E S) (seg : List (Node E S)) : Prop where
  nodes : f'.nodes = f.nodes ++ seg
  jumpBreak : f'.jumpBreak = f.jumpBreak
  jumpContinue : f'.jumpContinue = f.jumpContinue
  next : f.next ≤ f'.next
  ids_mem : ∀ id ∈ ids seg, f.next ≤ id ∧ id < f'.next
  nodup : (ids seg).Nodup

theorem Grows.trans {f f₁ f₂ : FunctionState E S} {a b : List (Node E S)} (h : Grows f f₁ a)
    (h' : Grows f₁ f₂ b) : Grows f f₂ (a ++ b) where
  nodes := by rw [h'.nodes, h.nodes, List.append_assoc]
  jumpBreak := h'.jumpBreak.trans h.jumpBreak
  jumpContinue := h'.jumpContinue.trans h.jumpContinue
  next := Nat.le_trans h.next h'.next
  ids_mem := by
    intro id hid
    rw [ids_append, List.mem_append] at hid
    have h₁ := h.next
    have h₂ := h'.next
    rcases hid with hid | hid
    · have := h.ids_mem id hid
      omega
    · have := h'.ids_mem id hid
      omega
  nodup := by
    rw [ids_append]
    refine List.nodup_append.mpr ⟨h.nodup, h'.nodup, ?_⟩
    intro x hx y hy hxy
    have := h.ids_mem x hx
    have := h'.ids_mem y hy
    omega

/-- What a parse gives: the shape of the new nodes, and how the state grows. -/
def Parsed (f f' : FunctionState E S) (shape : List (Node E S) → Prop) : Prop :=
  ∃ seg, shape seg ∧ Grows f f' seg

/-! ## Tests of a switch -/

/-- The location of the default block, once the rest of the blocks is known. -/
def defaultOf (dflt : Option Nat) (cases : Cases E S) (jmpTable : List Nat) : Option Nat :=
  match dflt with
  | some d => some d
  | none => cases.default?.bind (jmpTable[·]?)

theorem Grows.refl (f : FunctionState E S) : Grows f f [] where
  nodes := (List.append_nil _).symm
  jumpBreak := rfl
  jumpContinue := rfl
  next := Nat.le_refl _
  ids_mem := by simp
  nodup := List.nodup_nil

/-- A node that is no location. -/
theorem Grows.addNode (f : FunctionState E S) {n : Node E S} (h : n.id? = none) :
    Grows f (f.addNode n) [n] where
  nodes := rfl
  jumpBreak := rfl
  jumpContinue := rfl
  next := Nat.le_refl _
  ids_mem := by simp [ids, h]
  nodup := by simp [ids, h]

/-- A new location that is placed elsewhere. -/
theorem Grows.newNode (f : FunctionState E S) : Grows f f.newNode.2 [] where
  nodes := (List.append_nil _).symm
  jumpBreak := rfl
  jumpContinue := rfl
  next := Nat.le_succ _
  ids_mem := by simp
  nodup := List.nodup_nil

/-- The number of blocks. -/
def Cases.length : Cases E S → Nat
  | .nil => 0
  | .cons _ _ rest => rest.length + 1

/-- The tests of a switch are emitted at once; their locations are placed later, in order. -/
theorem parseTests_spec (var : Nat) : ∀ (cases : Cases E S) (dflt : Option Nat)
    (f f' : FunctionState E S) (jmpTable : List Nat) (dflt' : Option Nat),
    parseTests var cases dflt f = some (jmpTable, dflt', f') →
    Grows f f' (testNodes var cases jmpTable) ∧
      jmpTable = List.range' f.next jmpTable.length ∧ f'.next = f.next + jmpTable.length ∧
      dflt' = defaultOf dflt cases jmpTable ∧ jmpTable.length = cases.length
  | .nil, dflt, f, f', jmpTable, dflt', h => by
    cases h
    refine ⟨Grows.refl f, rfl, rfl, ?_, rfl⟩
    cases dflt <;> rfl
  | .cons (some e) ss rest, dflt, f, f', jmpTable, dflt', h => by
    rw [parseTests] at h
    obtain ⟨⟨table, d, f₁⟩, hrest, h⟩ := Option.bind_eq_some_iff.mp h
    cases h
    obtain ⟨hgrows, htable, hnext, hdflt, hlen⟩ := parseTests_spec var rest _ _ _ _ _ hrest
    refine ⟨?_, ?_, ?_, ?_, congrArg (· + 1) hlen⟩
    · exact (Grows.newNode f).trans ((Grows.addNode _ rfl).trans ((Grows.addNode _ rfl).trans
        ((Grows.addNode _ rfl).trans ((Grows.addNode _ rfl).trans hgrows))))
    · rw [List.length_cons, List.range'_succ]
      exact congrArg (List.cons f.next) htable
    · rw [List.length_cons, hnext]
      exact Nat.add_right_comm f.next 1 _
    · rw [hdflt]
      cases dflt with
      | some d => rfl
      | none =>
        simp only [defaultOf, Cases.default?, Option.bind_map]
        rfl
  | .cons none ss rest, some d, f, f', jmpTable, dflt', h => by cases h
  | .cons none ss rest, none, f, f', jmpTable, dflt', h => by
    rw [parseTests] at h
    obtain ⟨⟨table, d, f₁⟩, hrest, h⟩ := Option.bind_eq_some_iff.mp h
    cases h
    obtain ⟨hgrows, htable, hnext, hdflt, hlen⟩ := parseTests_spec var rest _ _ _ _ _ hrest
    refine ⟨(Grows.newNode f).trans hgrows, ?_, ?_, hdflt, congrArg (· + 1) hlen⟩
    · rw [List.length_cons, List.range'_succ]
      exact congrArg (List.cons f.next) htable
    · rw [List.length_cons, hnext]
      exact Nat.add_right_comm f.next 1 _

/-! ## Statements -/

theorem Grows.addInst? (f : FunctionState E S) (i : Option S) :
    Grows f (f.addInst? i) (instNodes i) := by
  cases i with
  | none => exact Grows.refl f
  | some i => exact Grows.addNode f rfl

theorem Grows.addCond? (f : FunctionState E S) (c : Option E) (l : Nat) :
    Grows f (f.addCond? c l) (condNodes c l) := by
  cases c with
  | none => exact Grows.refl f
  | some c => exact (Grows.addNode f rfl).trans (Grows.addNode _ rfl)

@[simp] theorem next_addInst? (f : FunctionState E S) (i : Option S) :
    (f.addInst? i).next = f.next := by
  cases i <;> rfl

@[simp] theorem next_addCond? (f : FunctionState E S) (c : Option E) (l : Nat) :
    (f.addCond? c l).next = f.next := by
  cases c <;> rfl

/-- Locations that were created before the rest and placed around it. -/
theorem nodup_around {before after : List Nat} {a : List Nat} {lo : Nat}
    (hb : (before ++ after).Nodup) (hlo : ∀ id ∈ before ++ after, id < lo) (ha : a.Nodup)
    (hmem : ∀ id ∈ a, lo ≤ id) : (before ++ (a ++ after)).Nodup := by
  have hperm : (before ++ (a ++ after)).Perm (before ++ after ++ a) := by
    rw [List.append_assoc]
    exact List.Perm.append_left before List.perm_append_comm
  refine (hperm.nodup_iff).mpr (List.nodup_append.mpr ⟨hb, ha, ?_⟩)
  intro x hx y hy hxy
  have := hlo x hx
  have := hmem y hy
  omega

/-- A parse between two rows of nodes whose locations were created right before it. -/
theorem Grows.around {f f₁ f₂ f' : FunctionState E S} {a : List (Node E S)}
    (pre post : List (Node E S)) (h : Grows f₁ f₂ a) (hpre : f₁.nodes = f.nodes ++ pre)
    (hpost : f'.nodes = f₂.nodes ++ post) (hbreak : f'.jumpBreak = f.jumpBreak)
    (hcont : f'.jumpContinue = f.jumpContinue) (hnext : f.next ≤ f₁.next)
    (hnext' : f₂.next = f'.next) (hids : (ids pre ++ ids post).Nodup)
    (hmem : ∀ id ∈ ids pre ++ ids post, f.next ≤ id ∧ id < f₁.next) :
    Grows f f' (pre ++ (a ++ post)) where
  nodes := by rw [hpost, h.nodes, hpre]; simp only [List.append_assoc]
  jumpBreak := hbreak
  jumpContinue := hcont
  next := by have := h.next; omega
  ids_mem := by
    intro id hid
    have hn := h.next
    simp only [ids_append, List.mem_append] at hid hmem
    rcases hid with hid | hid | hid
    · have := hmem id (.inl hid)
      omega
    · have := h.ids_mem id hid
      omega
    · have := hmem id (.inr hid)
      omega
  nodup := by
    rw [ids_append, ids_append]
    exact nodup_around hids (fun id hid => (hmem id hid).2) h.nodup
      (fun id hid => (h.ids_mem id hid).1)

/-- The locations of an `if` with an `else`: one created before each of its parts. -/
theorem Grows.ifElse {f f₁ f₂ f₃ f' : FunctionState E S} {a b : List (Node E S)} {l m : Nat}
    (pre mid post : List (Node E S)) (hga : Grows f₁ f₂ a) (hgb : Grows f₃ f' b) (hf₁ : f₁.next = f.next + 1)
    (hl : l = f.next) (hm : m = f₂.next) (hf₃ : f₃.next = f₂.next + 1) (hpre : ids pre = [])
    (hmid : ids mid = [l]) (hpost : ids post = [m]) :
    (∀ id ∈ ids (pre ++ (a ++ (mid ++ (b ++ post)))), f.next ≤ id ∧ id < f'.next) ∧
      (ids (pre ++ (a ++ (mid ++ (b ++ post))))).Nodup := by
  have h₁ := hga.next
  have h₂ := hgb.next
  have hids : ids (pre ++ (a ++ (mid ++ (b ++ post)))) = ids a ++ (l :: (ids b ++ [m])) := by
    simp [hpre, hmid, hpost]
  rw [hids]
  constructor
  · intro id hid
    simp only [List.mem_append, List.mem_cons, List.not_mem_nil, or_false] at hid
    rcases hid with hid | hid | hid | hid
    · have := hga.ids_mem id hid
      omega
    · omega
    · have := hgb.ids_mem id hid
      omega
    · omega
  · have hb : ([l] ++ (ids b ++ [m])).Nodup := by
      refine nodup_around ?_ ?_ hgb.nodup (fun id hid => (hgb.ids_mem id hid).1)
      · simp
        omega
      · intro id hid
        simp at hid
        omega
    refine List.nodup_append.mpr ⟨hga.nodup, hb, ?_⟩
    intro x hx y hy hxy
    have := hga.ids_mem x hx
    simp only [List.mem_append, List.mem_cons, List.not_mem_nil, or_false] at hy
    rcases hy with hy | hy | hy
    · omega
    · have := hgb.ids_mem y hy
      omega
    · omega

/-- The blocks of a switch: their locations are those of the table, created before. -/
structure GrowsCases (f f' : FunctionState E S) (table : List Nat) (seg : List (Node E S)) :
    Prop where
  nodes : f'.nodes = f.nodes ++ seg
  jumpBreak : f'.jumpBreak = f.jumpBreak
  jumpContinue : f'.jumpContinue = f.jumpContinue
  next : f.next ≤ f'.next
  ids_mem : ∀ id ∈ ids seg, id ∈ table ∨ (f.next ≤ id ∧ id < f'.next)
  nodup : (ids seg).Nodup

mutual
/-- **The parser emits the nodes of a statement and places every new location once.** -/
theorem parseStmt_spec : ∀ (s : Stmt E S) (f f' : FunctionState E S), parseStmt s f = some f' →
    Parsed f f' (s.Emits f.jumpBreak.head? f.jumpContinue.head?)
  | .empty, f, f', h => by
    cases h
    exact ⟨[], rfl, Grows.refl f⟩
  | .inst s, f, f', h => by
    cases h
    exact ⟨[.inst s], rfl, Grows.addNode f rfl⟩
  | .block ss, f, f', h => parseStmts_spec ss f f' h
  | .ifThen c t, f, f', h => by
    rw [parseStmt] at h
    obtain ⟨f₂, ht, h⟩ := Option.bind_eq_some_iff.mp h
    cases h
    obtain ⟨a, ha, hg⟩ := parseStmt_spec t _ _ ht
    refine ⟨_, ⟨f.next, a, ha, rfl⟩, Grows.around _ _ hg ?_ rfl hg.jumpBreak hg.jumpContinue
      (Nat.le_succ _) rfl ?_ ?_⟩
    · simp [FunctionState.addNode]
    · simp
    · simp [FunctionState.addNode]
  | .ifElse c t e, f, f', h => by
    rw [parseStmt] at h
    obtain ⟨f₂, ht, h⟩ := Option.bind_eq_some_iff.mp h
    obtain ⟨f₃, he, h⟩ := Option.bind_eq_some_iff.mp h
    cases h
    obtain ⟨a, ha, hga⟩ := parseStmt_spec t _ _ ht
    obtain ⟨b, hb, hgb⟩ := parseStmt_spec e _ _ he
    have hbreak := hga.jumpBreak
    have hcont := hga.jumpContinue
    simp only [FunctionState.addNode] at hb hbreak hcont
    rw [hbreak, hcont] at hb
    obtain ⟨hmem, hnodup⟩ := Grows.ifElse [.expr c, .jump f.next .jumpOnFalse]
      [.jump f₂.next .jump, .label f.next] [.label f₂.next] hga hgb rfl rfl rfl rfl rfl rfl rfl
    refine ⟨_, ⟨f.next, f₂.next, a, b, ha, hb, rfl⟩, ?_⟩
    constructor
    · simp [FunctionState.addNode, hga.nodes, hgb.nodes]
    · exact hgb.jumpBreak.trans hbreak
    · exact hgb.jumpContinue.trans hcont
    · have := hga.next
      have := hgb.next
      simp only [FunctionState.addNode, FunctionState.newNode] at *
      omega
    · exact hmem
    · exact hnodup
  | .whileLoop c body, f, f', h => by
    rw [parseStmt] at h
    obtain ⟨f₂, hbody, h⟩ := Option.bind_eq_some_iff.mp h
    cases h
    obtain ⟨a, ha, hg⟩ := parseStmt_spec body _ _ hbody
    refine ⟨_, ⟨f.next, f.next + 1, a, ha, rfl⟩, Grows.around _ _ hg ?_ ?_ ?_ ?_ ?_ rfl ?_ ?_⟩
    · simp [FunctionState.addNode, FunctionState.pushBreakNode,
        FunctionState.pushContinueNode]
    · simp [FunctionState.addNode, FunctionState.popBreakNode, FunctionState.popContinueNode]
    · exact congrArg List.tail hg.jumpBreak
    · exact congrArg List.tail hg.jumpContinue
    · exact Nat.le_add_right f.next 2
    · simp
    · intro id hid
      simp [FunctionState.addNode, FunctionState.pushBreakNode,
        FunctionState.pushContinueNode] at hid ⊢
      omega
  | .doWhile body c, f, f', h => by
    rw [parseStmt] at h
    obtain ⟨f₂, hbody, h⟩ := Option.bind_eq_some_iff.mp h
    cases h
    obtain ⟨a, ha, hg⟩ := parseStmt_spec body _ _ hbody
    refine ⟨_, ⟨f.next, f.next + 1, f.next + 1 + 1, a, ha, rfl⟩,
      Grows.around _ _ hg ?_ ?_ ?_ ?_ ?_ rfl ?_ ?_⟩
    · simp [FunctionState.addNode, FunctionState.pushBreakNode,
        FunctionState.pushContinueNode]
    · simp [FunctionState.addNode, FunctionState.popBreakNode, FunctionState.popContinueNode]
    · exact congrArg List.tail hg.jumpBreak
    · exact congrArg List.tail hg.jumpContinue
    · exact Nat.le_add_right f.next 3
    · simp
      omega
    · intro id hid
      simp [FunctionState.addNode, FunctionState.pushBreakNode,
        FunctionState.pushContinueNode] at hid ⊢
      omega
  | .forLoop init c delta body, f, f', h => by
    rw [parseStmt] at h
    obtain ⟨f₂, hbody, h⟩ := Option.bind_eq_some_iff.mp h
    cases h
    obtain ⟨a, ha, hg⟩ := parseStmt_spec body _ _ hbody
    have hinit := Grows.addInst? f init
    generalize f.addInst? init = f₀ at hinit hg ha
    have hcond := Grows.addCond? (f₀.newNode.2.newNode.2.newNode.2.addNode (.label f₀.next)) c
      (f₀.next + 1)
    have hdelta := Grows.addInst? (f₂.popContinueNode.popBreakNode.addNode
      (.label (f₀.next + 1 + 1))) delta
    have hbreak := hg.jumpBreak.trans (congrArg (List.cons (f₀.next + 1)) hcond.jumpBreak)
    have hcont := hg.jumpContinue.trans (congrArg (List.cons (f₀.next + 2)) hcond.jumpContinue)
    refine ⟨_, ⟨f₀.next, f₀.next + 1, f₀.next + 1 + 1, a, ha, rfl⟩, hinit.trans ?_⟩
    rw [← List.append_assoc]
    refine Grows.around _ _ hg ?_ ?_ ?_ ?_ ?_ ?_ ?_ ?_
    · exact hcond.nodes.trans (List.append_assoc _ _ _)
    · have hnodes := hdelta.nodes
      simp only [FunctionState.addNode, FunctionState.popBreakNode,
        FunctionState.popContinueNode] at hnodes ⊢
      rw [hnodes]
      simp
    · exact hdelta.jumpBreak.trans (congrArg List.tail hbreak)
    · exact hdelta.jumpContinue.trans (congrArg List.tail hcont)
    · exact Nat.le_trans (Nat.le_add_right f₀.next 3) hcond.next
    · simp [FunctionState.addNode, FunctionState.popBreakNode, FunctionState.popContinueNode]
    · simp
      omega
    · intro id hid
      simp [FunctionState.addNode, FunctionState.pushBreakNode,
        FunctionState.pushContinueNode] at hid ⊢
      omega
  | .switch subject cases, f, f', h => by
    rw [parseStmt] at h
    obtain ⟨⟨table, d, f₁⟩, htests, h⟩ := Option.bind_eq_some_iff.mp h
    obtain ⟨f₂, hblocks, h⟩ := Option.bind_eq_some_iff.mp h
    cases h
    obtain ⟨hgt, htable, hnext, hd, hlen⟩ := parseTests_spec _ _ _ _ _ _ _ htests
    have hlt : ∀ id ∈ table, f.next ≤ id ∧ id < f₁.next := by
      intro id hid
      rw [htable, List.mem_range'_1] at hid
      simp [FunctionState.addNode] at hid hnext
      omega
    obtain ⟨blocks, hemits, hg⟩ := parseCases_spec cases table _ _ hlen
      (htable ▸ List.nodup_range') (fun id hid => Nat.lt_succ_of_lt (hlt id hid).2) hblocks
    refine ⟨_, ⟨f.rndVarStart, f₁.next, table, blocks, ?_, rfl⟩, ?_⟩
    · have hcont : f₁.jumpContinue = f.jumpContinue := hgt.jumpContinue
      simp only [FunctionState.addNode, FunctionState.pushBreakNode] at hemits
      rw [hcont] at hemits
      exact hemits
    · have hbound := hgt.next
      have hbound' := hg.next
      simp only [FunctionState.addNode, FunctionState.pushBreakNode] at hbound hbound'
      constructor
      · simp [FunctionState.addNode, FunctionState.pushBreakNode,
          FunctionState.popBreakNode, hg.nodes, hgt.nodes, hd,
          defaultOf]
      · exact (congrArg List.tail hg.jumpBreak).trans hgt.jumpBreak
      · exact hg.jumpContinue.trans hgt.jumpContinue
      · simp only [FunctionState.addNode, FunctionState.popBreakNode]
        omega
      · intro id hid
        have hcases : id ∈ ids blocks ∨ id = f₁.next := by simpa using hid
        simp only [FunctionState.addNode, FunctionState.popBreakNode]
        rcases hcases with hid | rfl
        · rcases hg.ids_mem id hid with hid | hid
          · have := hlt id hid
            omega
          · simp only [FunctionState.addNode, FunctionState.pushBreakNode]
              at hid
            omega
        · omega
      · have hend : f₁.next ∉ ids blocks := by
          intro hmem
          rcases hg.ids_mem _ hmem with hid | hid
          · exact Nat.lt_irrefl _ (hlt _ hid).2
          · exact Nat.not_succ_le_self _ hid.1
        have hnodup : (ids blocks ++ [f₁.next]).Nodup := by
          refine List.nodup_append.mpr ⟨hg.nodup, by simp, ?_⟩
          intro x hx y hy hxy
          obtain rfl := List.mem_singleton.mp hy
          exact hend (hxy ▸ hx)
        simpa using hnodup
  | .breakStmt, f, f', h => by
    rw [parseStmt] at h
    obtain ⟨l, hl, rfl⟩ := Option.map_eq_some_iff.mp h
    exact ⟨_, ⟨l, hl, rfl⟩, Grows.addNode f rfl⟩
  | .continueStmt, f, f', h => by
    rw [parseStmt] at h
    obtain ⟨l, hl, rfl⟩ := Option.map_eq_some_iff.mp h
    exact ⟨_, ⟨l, hl, rfl⟩, Grows.addNode f rfl⟩
  | .returnStmt none, f, f', h => by
    cases h
    refine ⟨_, ⟨f.next, rfl⟩, rfl, rfl, rfl, Nat.le_succ _, ?_, by simp⟩
    intro id hid
    obtain rfl := List.mem_singleton.mp hid
    exact ⟨Nat.le_refl _, Nat.lt_succ_self _⟩
  | .returnStmt (some e), f, f', h => by
    cases h
    exact ⟨_, rfl, (Grows.addNode f rfl).trans (Grows.addNode _ rfl)⟩

theorem parseStmts_spec : ∀ (ss : Stmts E S) (f f' : FunctionState E S),
    parseStmts ss f = some f' → Parsed f f' (ss.Emits f.jumpBreak.head? f.jumpContinue.head?)
  | .nil, f, f', h => by
    cases h
    exact ⟨[], rfl, Grows.refl f⟩
  | .cons s ss, f, f', h => by
    rw [parseStmts] at h
    obtain ⟨f₁, hs, h⟩ := Option.bind_eq_some_iff.mp h
    obtain ⟨a, ha, hga⟩ := parseStmt_spec s _ _ hs
    obtain ⟨b, hb, hgb⟩ := parseStmts_spec ss _ _ h
    rw [hga.jumpBreak, hga.jumpContinue] at hb
    exact ⟨a ++ b, ⟨a, b, ha, hb, rfl⟩, hga.trans hgb⟩

theorem parseCases_spec : ∀ (cases : Cases E S) (table : List Nat) (f f' : FunctionState E S),
    table.length = cases.length → table.Nodup → (∀ id ∈ table, id < f.next) →
    parseCases cases table f = some f' →
    ∃ seg, cases.Emits f.jumpBreak.head? f.jumpContinue.head? table seg ∧
      GrowsCases f f' table seg
  | .nil, table, f, f', hlen, _, _, h => by
    obtain rfl := List.eq_nil_of_length_eq_zero hlen
    cases h
    exact ⟨[], ⟨rfl, rfl⟩, ⟨by simp, rfl, rfl, Nat.le_refl _, by simp, List.nodup_nil⟩⟩
  | .cons _ _ _, [], f, f', hlen, _, _, h => by cases hlen
  | .cons label ss rest, l :: table, f, f', hlen, hnodup, hlt, h => by
    rw [parseCases] at h
    obtain ⟨f₁, hs, h⟩ := Option.bind_eq_some_iff.mp h
    obtain ⟨a, ha, hga⟩ := parseStmts_spec ss _ _ hs
    have hlt' : ∀ id ∈ table, id < f₁.next := fun id hid =>
      Nat.lt_of_lt_of_le (hlt id (List.mem_cons_of_mem l hid)) hga.next
    obtain ⟨b, hb, hgb⟩ := parseCases_spec rest table _ _ (Nat.succ.inj hlen)
      (List.nodup_cons.mp hnodup).2 hlt' h
    rw [hga.jumpBreak, hga.jumpContinue] at hb
    have hl := hlt l List.mem_cons_self
    have hbound := hga.next
    have hbound' := hgb.next
    have hmem : ∀ id ∈ ids ([.label l] ++ (a ++ b)),
        id = l ∨ id ∈ ids a ∨ id ∈ ids b := by
      intro id hid
      simpa using hid
    refine ⟨_, ⟨a, b, ha, hb, rfl⟩, ?_⟩
    constructor
    · simp [hgb.nodes, hga.nodes, FunctionState.addNode]
    · exact hgb.jumpBreak.trans hga.jumpBreak
    · exact hgb.jumpContinue.trans hga.jumpContinue
    · exact Nat.le_trans hbound hbound'
    · intro id hid
      rcases hmem id hid with rfl | hid | hid
      · exact .inl List.mem_cons_self
      · have := hga.ids_mem id hid
        simp only [FunctionState.addNode] at this hbound
        omega
      · rcases hgb.ids_mem id hid with hid | hid
        · exact .inl (List.mem_cons_of_mem l hid)
        · simp only [FunctionState.addNode] at hbound
          omega
    · have hnodup' : ([l] ++ (ids a ++ ids b)).Nodup := by
        refine List.nodup_append.mpr ⟨by simp, List.nodup_append.mpr ⟨hga.nodup, hgb.nodup, ?_⟩, ?_⟩
        · intro x hx y hy hxy
          have := hga.ids_mem x hx
          rcases hgb.ids_mem y hy with hid | hid
          · have := hlt y (List.mem_cons_of_mem l hid)
            simp only [FunctionState.addNode] at *
            omega
          · omega
        · intro x hx y hy hxy
          obtain rfl := List.mem_singleton.mp hx
          rcases List.mem_append.mp hy with hy | hy
          · have := hga.ids_mem y hy
            simp only [FunctionState.addNode] at *
            omega
          · rcases hgb.ids_mem y hy with hid | hid
            · exact (List.nodup_cons.mp hnodup).1 (hxy ▸ hid)
            · simp only [FunctionState.addNode] at *
              omega
      simpa using hnodup'
end

/-! ## Functions -/

/-- `seg` stands in `code` at index `pc`. -/
def At (code : List (Node E S)) (pc : Nat) (seg : List (Node E S)) : Prop :=
  ∃ before after, code = before ++ (seg ++ after) ∧ before.length = pc

theorem At.left {code : List (Node E S)} {pc : Nat} {a b : List (Node E S)}
    (h : At code pc (a ++ b)) : At code pc a := by
  obtain ⟨before, after, rfl, rfl⟩ := h
  exact ⟨before, b ++ after, by simp, rfl⟩

theorem At.right {code : List (Node E S)} {pc : Nat} {a b : List (Node E S)}
    (h : At code pc (a ++ b)) : At code (pc + a.length) b := by
  obtain ⟨before, after, rfl, rfl⟩ := h
  exact ⟨before ++ a, after, by simp, by simp⟩

theorem At.head {code : List (Node E S)} {pc : Nat} {n : Node E S} {seg : List (Node E S)}
    (h : At code pc (n :: seg)) : code[pc]? = some n := by
  obtain ⟨before, after, rfl, rfl⟩ := h
  simp

theorem At.tail {code : List (Node E S)} {pc : Nat} {n : Node E S} {seg : List (Node E S)}
    (h : At code pc (n :: seg)) : At code (pc + 1) seg :=
  At.right (a := [n]) h

/-- A location that stands in one place only is where its node is. -/
theorem At.target_eq {code : List (Node E S)} {pc l : Nat} {n : Node E S} {seg : List (Node E S)}
    (h : At code pc (n :: seg)) (hn : n.id? = some l) (hnodup : (ids code).Nodup) :
    target code l = pc := by
  obtain ⟨before, after, rfl, rfl⟩ := h
  have hids : ids (n :: (seg ++ after)) = l :: ids (seg ++ after) := by
    rw [ids, List.filterMap_cons, hn]
    rfl
  rw [List.cons_append, ids_append, hids] at hnodup
  have hbefore : ∀ m ∈ before, (m.id? == some l) = false := by
    intro m hm
    by_contra hne
    have hid : m.id? = some l := by simpa using hne
    have hmem : l ∈ ids before := List.mem_filterMap.mpr ⟨m, hm, hid⟩
    exact (List.nodup_append.mp hnodup).2.2 l hmem l List.mem_cons_self rfl
  rw [target, List.findIdx_append, List.findIdx_eq_length_of_false hbefore,
    if_neg (Nat.lt_irrefl _), List.cons_append, List.findIdx_cons, hn, beq_self_eq_true, cond_true,
    Nat.zero_add]

/-- **The nodes of a function: the body between its first node and its end node, and every
location in one place.** -/
theorem parseFunction_spec {body : Stmt E S} {code : List (Node E S)}
    (h : parseFunction body = some code) :
    ∃ endNode seg, body.Emits (some endNode) none seg ∧
      code = .createLocalVariables :: (seg ++ [.end_ endNode]) ∧ (ids code).Nodup := by
  rw [parseFunction] at h
  obtain ⟨f, hbody, h⟩ := Option.bind_eq_some_iff.mp h
  cases h
  obtain ⟨seg, hseg, hg⟩ := parseStmt_spec body _ _ hbody
  refine ⟨0, seg, hseg, ?_, ?_⟩
  · simp [FunctionState.addNode, FunctionState.popBreakNode, FunctionState.pushBreakNode,
      hg.nodes]
  · have hend : 0 ∉ ids seg := fun hmem => Nat.not_succ_le_zero 0 (hg.ids_mem 0 hmem).1
    have hnodup : (ids (seg ++ [.end_ 0])).Nodup := by
      rw [ids_append]
      refine List.nodup_append.mpr ⟨hg.nodup, by simp, ?_⟩
      intro x hx y hy hxy
      obtain rfl := List.mem_singleton.mp hy
      exact hend (hxy ▸ hx)
    have hnodes := hg.nodes
    simp only [FunctionState.pushBreakNode, List.nil_append] at hnodes
    rw [FunctionState.addNode, FunctionState.popBreakNode, hnodes]
    exact hnodup

end Acts.Gsc
