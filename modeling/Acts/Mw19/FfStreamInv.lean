import Acts.Mw19.FfStream

/-!
# Runs of the stream operations

* `Streams.Inv` — the cursor stands at the offset of the active block, offsets and consumed input
  are in their bounds, and every frame holds an offset of the block that was pushed.
* `Fills` — an operation inside a block: the stack, the block and the other offsets stay.
* `exec_moves`, `execAll_moves` — what an operation and a run preserve.
* `streams_sound` — the result.
-/

set_option autoImplicit false

namespace Acts.Mw19.Streams

/-! ## Invariant -/

/-- The offset in a frame belongs to the block that was active after the push. -/
def FramesInside (memory : Fin 8 → Reservation) : Fin 8 → List Frame → Prop
  | _, [] => True
  | b, f :: rest => f.start ≤ (memory b).size ∧ FramesInside memory f.block rest

structure Inv (s : Streams) : Prop where
  cursor : s.cursor = (s.memory s.block).base + s.offsets s.block
  offsets : ∀ i, s.offsets i ≤ (s.memory i).size
  frames : FramesInside s.memory s.block s.stack
  consumed : s.consumed ≤ s.input.length

/-- An operation inside the active block. -/
structure Fills (s s' : Streams) : Prop where
  inv : s'.Inv
  memory : s'.memory = s.memory
  input : s'.input = s.input
  stack : s'.stack = s.stack
  block : s'.block = s.block
  others : ∀ i, i ≠ s.block → s'.offsets i = s.offsets i
  grows : s.offsets s.block ≤ s'.offsets s.block

/-- Any operation: no offset but that of the temporary block gets smaller. -/
structure Moves (s s' : Streams) : Prop where
  inv : s'.Inv
  memory : s'.memory = s.memory
  input : s'.input = s.input
  grows : ∀ i, i ≠ 1 → s.offsets i ≤ s'.offsets i

variable {s s' s₁ s₂ : Streams}

theorem Fills.trans (h : Fills s s₁) (h' : Fills s₁ s₂) : Fills s s₂ := by
  refine ⟨h'.inv, h'.memory.trans h.memory, h'.input.trans h.input, h'.stack.trans h.stack,
    h'.block.trans h.block, fun i hi => ?_, ?_⟩
  · rw [h'.others i (by rw [h.block]; exact hi), h.others i hi]
  · have := h'.grows
    rw [h.block] at this
    exact Nat.le_trans h.grows this

theorem Fills.moves (h : Fills s s') : Moves s s' := by
  refine ⟨h.inv, h.memory, h.input, fun i _ => ?_⟩
  by_cases hi : i = s.block
  · rw [hi]
    exact h.grows
  · exact Nat.le_of_eq (h.others i hi).symm

theorem Moves.trans (h : Moves s s₁) (h' : Moves s₁ s₂) : Moves s s₂ :=
  ⟨h'.inv, h'.memory.trans h.memory, h'.input.trans h.input,
    fun i hi => Nat.le_trans (h.grows i hi) (h'.grows i hi)⟩

theorem Moves.refl (h : s.Inv) : Moves s s := ⟨h, rfl, rfl, fun _ _ => Nat.le_refl _⟩

/-- A change that touches neither cursor nor offsets. -/
theorem fills_of_eq (h : s.Inv) (hmemory : s'.memory = s.memory) (hinput : s'.input = s.input)
    (hstack : s'.stack = s.stack) (hblock : s'.block = s.block)
    (hoffsets : s'.offsets = s.offsets) (hcursor : s'.cursor = s.cursor)
    (hconsumed : s'.consumed ≤ s.input.length) : Fills s s' := by
  refine ⟨⟨?_, ?_, ?_, ?_⟩, hmemory, hinput, hstack, hblock, fun i _ => ?_, ?_⟩
  · rw [hcursor, hmemory, hblock, hoffsets]
    exact h.cursor
  · intro i
    rw [hmemory, hoffsets]
    exact h.offsets i
  · rw [hmemory, hblock, hstack]
    exact h.frames
  · rw [hinput]
    exact hconsumed
  · rw [hoffsets]
  · exact Nat.le_of_eq (congrFun hoffsets _).symm

theorem Inv.fills (h : s.Inv) : Fills s s := fills_of_eq h rfl rfl rfl rfl rfl rfl h.consumed

theorem inv_new (memory : Fin 8 → Reservation) (input : List UInt8) (bytes : Mem) :
    (new memory input bytes).Inv :=
  ⟨rfl, fun _ => Nat.zero_le _, trivial, Nat.zero_le _⟩

/-! ## Operations inside a block -/

theorem setOffset_same (i : Fin 8) (offset : Nat) : (s.setOffset i offset).offsets i = offset := by
  show Function.update s.offsets i offset i = offset
  rw [Function.update_self]

theorem setOffset_other {i j : Fin 8} (h : j ≠ i) (offset : Nat) :
    (s.setOffset i offset).offsets j = s.offsets j := by
  show Function.update s.offsets i offset j = s.offsets j
  rw [Function.update_of_ne h]

/-- The cursor is never anywhere else, so `Sync` changes nothing. -/
theorem sync_eq (h : s.Inv) : s.sync = .ok s := by
  have hcursor := h.cursor
  have hoffset := h.offsets s.block
  unfold sync
  simp only
  rw [if_neg (by omega)]
  have hsame : s.cursor - (s.memory s.block).base = s.offsets s.block := by omega
  rw [hsame]
  unfold setOffset
  rw [Function.update_eq_self]

theorem check_ok {size : Nat} (h : s.Inv) (hok : s.check size = .ok s') :
    s' = s ∧ s.offsets s.block + size ≤ (s.memory s.block).size := by
  have hoffset := h.offsets s.block
  unfold check at hok
  rw [sync_eq h] at hok
  obtain ⟨s₁, hs₁, hok⟩ := ok_of_bind hok
  cases hs₁
  split at hok
  · cases hok
  · cases hok
    exact ⟨rfl, by omega⟩

theorem fills_advance {size : Nat} (h : s.Inv) (hok : s.advance size = .ok s') : Fills s s' := by
  obtain ⟨s₁, hs₁, hrest⟩ := ok_of_bind hok
  obtain ⟨hsame, hsize⟩ := check_ok h hs₁
  subst hsame
  cases hrest
  refine ⟨⟨rfl, fun i => ?_, h.frames, h.consumed⟩, rfl, rfl, rfl, rfl, fun i hi => ?_, ?_⟩
  · show (s₁.setOffset s₁.block (s₁.offsets s₁.block + size)).offsets i ≤ (s₁.memory i).size
    by_cases hi : i = s₁.block
    · subst hi
      rw [setOffset_same]
      exact hsize
    · rw [setOffset_other hi]
      exact h.offsets i
  · exact setOffset_other hi _
  · show _ ≤ (s₁.setOffset s₁.block (s₁.offsets s₁.block + size)).offsets s₁.block
    rw [setOffset_same]
    exact Nat.le_add_right _ _

theorem fills_align {mask : Nat} (h : s.Inv) (hok : s.align mask = .ok s') : Fills s s' := by
  unfold align at hok
  split at hok
  · cases hok
  · rw [sync_eq h] at hok
    exact fills_advance h hok

theorem fills_fill {size : Nat} (h : s.Inv) (hok : s.fill size = .ok s') : Fills s s' := by
  unfold fill at hok
  split at hok
  · cases hok
    exact fills_of_eq h rfl rfl rfl rfl rfl rfl h.consumed
  · split at hok
    · cases hok
    · rename_i hremaining
      have hconsumed := h.consumed
      unfold remaining at hremaining
      cases hok
      refine fills_of_eq h rfl rfl rfl rfl rfl rfl ?_
      show s.consumed + size ≤ s.input.length
      omega

theorem fills_load {atStart : Bool} {destination size : Nat} (h : s.Inv)
    (hok : s.load atStart destination size = .ok s') : Fills s s' := by
  unfold load at hok
  split at hok
  · cases hok
    exact h.fills
  · obtain ⟨s₁, hs₁, hrest⟩ := ok_of_bind hok
    obtain ⟨hsame, -⟩ := check_ok h hs₁
    subst hsame
    split at hrest
    · cases hrest
    · obtain ⟨s₂, hs₂, hrest⟩ := ok_of_bind hrest
      have hfill := fills_fill h hs₂
      exact hfill.trans (fills_advance hfill.inv hrest)

theorem fills_string {value : Nat} (h : s.Inv) (hok : s.string value = .ok s') : Fills s s' := by
  unfold string at hok
  split at hok
  · cases hok
  · split at hok
    · cases hok
    · rw [sync_eq h] at hok
      obtain ⟨s₁, hs₁, hrest⟩ := ok_of_bind hok
      cases hs₁
      exact fills_load h hrest

theorem fills_take {size : Nat} (h : s.Inv) (hok : s.take size = .ok s') : Fills s s' := by
  unfold take at hok
  split at hok
  · cases hok
  · rename_i hremaining
    have hconsumed := h.consumed
    unfold remaining at hremaining
    cases hok
    refine fills_of_eq h rfl rfl rfl rfl rfl rfl ?_
    show s.consumed + size ≤ s.input.length
    omega

theorem fills_beginAsset (h : s.Inv) (hok : s.beginAsset = .ok s') : Fills s s' := by
  unfold beginAsset at hok
  split at hok
  · cases hok
  · rw [sync_eq h] at hok
    cases hok
    exact fills_of_eq h rfl rfl rfl rfl rfl rfl h.consumed

theorem fills_endAsset (h : s.Inv) (hok : s.endAsset = .ok s') : Fills s s' := by
  unfold endAsset at hok
  split at hok
  · cases hok
  · rw [sync_eq h] at hok
    cases hok
    exact fills_of_eq h rfl rfl rfl rfl rfl rfl h.consumed

theorem fills_shared (h : s.Inv) (shared : Nat) : Fills s { s with shared := shared } :=
  fills_of_eq h rfl rfl rfl rfl rfl rfl h.consumed

theorem fills_finish (h : s.Inv) (hok : s.finish = .ok s') : Fills s s' := by
  unfold finish at hok
  rw [sync_eq h] at hok
  obtain ⟨s₁, hs₁, hok⟩ := ok_of_bind hok
  cases hs₁
  split at hok
  · cases hok
  · split at hok
    · cases hok
    · cases hok
      exact h.fills

theorem fills_resolve {packed : UInt64} {isAlias : Bool} {a : Nat} (h : s.Inv)
    (hok : s.resolve packed isAlias = .ok (s', a)) : Fills s s' := by
  unfold resolve at hok
  rw [sync_eq h] at hok
  obtain ⟨s₁, hs₁, hrest⟩ := ok_of_bind hok
  cases hs₁
  simp only at hrest
  split at hrest
  · cases hrest
  · split at hrest
    · obtain ⟨offset, -, hrest⟩ := ok_of_bind hrest
      split at hrest
      · cases hrest
      · cases hrest
        exact h.fills
    · cases hrest

/-! ## Scopes -/

/-- The state after a push: the old block is under the new one. -/
theorem push_ok {next : Nat} (h : s.Inv) (hok : s.push next = .ok s') :
    ∃ b : Fin 8, b.val = next ∧ s'.Inv ∧ s'.memory = s.memory ∧ s'.input = s.input ∧
      s'.offsets = s.offsets ∧ s'.block = b ∧ s'.stack = ⟨s.block, s.offsets b⟩ :: s.stack := by
  unfold push at hok
  split at hok
  · rename_i hnext
    rw [sync_eq h] at hok
    cases hok
    refine ⟨⟨next, hnext.1⟩, rfl, ⟨rfl, h.offsets, ⟨h.offsets _, h.frames⟩, h.consumed⟩, rfl, rfl,
      rfl, rfl, rfl⟩
  · cases hok

/-- The end of the active block: only its own offset can change. -/
structure Leaves (s s' : Streams) (f : Frame) : Prop where
  offsets : ∀ i, s'.offsets i ≤ (s.memory i).size
  consumed : s'.consumed ≤ s.input.length
  memory : s'.memory = s.memory
  input : s'.input = s.input
  others : ∀ i, i ≠ s.block → s'.offsets i = s.offsets i
  rewinds : s.block = 1 → s'.offsets 1 = f.start
  grows : s.block ≠ 1 → s.offsets s.block ≤ s'.offsets s.block

theorem leave_ok {f : Frame} (h : s.Inv) (hf : f.start ≤ (s.memory s.block).size)
    (hok : s.leave f = .ok s') : Leaves s s' f := by
  unfold leave at hok
  split at hok
  · rename_i hblock
    cases hok
    refine ⟨fun i => ?_, h.consumed, rfl, rfl, fun i hi => setOffset_other hi _, fun _ => ?_,
      fun hne => absurd hblock hne⟩
    · by_cases hi : i = s.block
      · subst hi
        rw [setOffset_same]
        exact hf
      · rw [setOffset_other hi]
        exact h.offsets i
    · rw [← hblock]
      exact setOffset_same _ _
  · rename_i hblock
    have hfills : Fills s s' := by
      split at hok
      · exact fills_align h hok
      · cases hok
        exact h.fills
    refine ⟨fun i => ?_, ?_, hfills.memory, hfills.input, hfills.others,
      fun heq => absurd heq hblock, fun _ => hfills.grows⟩
    · rw [← hfills.memory]
      exact hfills.inv.offsets i
    · rw [← hfills.input]
      exact hfills.inv.consumed

/-- The state after a pop: the block of the frame is active again. -/
theorem pop_ok (h : s.Inv) (hok : s.pop = .ok s') :
    ∃ f rest, s.stack = f :: rest ∧ s'.Inv ∧ Leaves s s' f ∧ s'.stack = rest ∧
      s'.block = f.block := by
  have hframes := h.frames
  unfold pop at hok
  split at hok
  · cases hok
  · rename_i f rest hstack
    rw [hstack] at hframes
    rw [sync_eq h] at hok
    obtain ⟨s₁, hs₁, hrest⟩ := ok_of_bind hok
    cases hs₁
    obtain ⟨s₂, hs₂, hrest⟩ := ok_of_bind hrest
    have hleaves := leave_ok h hframes.1 hs₂
    cases hrest
    refine ⟨f, rest, hstack, ⟨rfl, fun i => ?_, ?_, ?_⟩, ?_, rfl, rfl⟩
    · show s₂.offsets i ≤ (s₂.memory i).size
      rw [hleaves.memory]
      exact hleaves.offsets i
    · show FramesInside s₂.memory f.block rest
      rw [hleaves.memory]
      exact hframes.2
    · show s₂.consumed ≤ s₂.input.length
      rw [hleaves.input]
      exact hleaves.consumed
    · exact ⟨hleaves.offsets, hleaves.consumed, hleaves.memory, hleaves.input, hleaves.others,
        hleaves.rewinds, hleaves.grows⟩

theorem moves_push {next : Nat} (h : s.Inv) (hok : s.push next = .ok s') : Moves s s' := by
  obtain ⟨b, -, hinv, hmemory, hinput, hoffsets, -, -⟩ := push_ok h hok
  exact ⟨hinv, hmemory, hinput, fun i _ => Nat.le_of_eq (congrFun hoffsets i).symm⟩

theorem moves_pop (h : s.Inv) (hok : s.pop = .ok s') : Moves s s' := by
  obtain ⟨f, rest, -, hinv, hleaves, -, -⟩ := pop_ok h hok
  refine ⟨hinv, hleaves.memory, hleaves.input, fun i hi => ?_⟩
  by_cases heq : i = s.block
  · subst heq
    exact hleaves.grows hi
  · exact Nat.le_of_eq (hleaves.others i heq).symm

/-- A scope gives back the stack and the block, and the offset of the temporary block if it was
opened there or nothing but its own block was filled. -/
structure Restores (s s' : Streams) : Prop where
  moves : Moves s s'
  stack : s'.stack = s.stack
  block : s'.block = s.block
  temporary : s'.offsets 1 = s.offsets 1

theorem scope_restores {next : Nat} (h : s.Inv) (hpush : s.push next = .ok s₁)
    (hfills : Fills s₁ s₂) (hpop : s₂.pop = .ok s') : Restores s s' := by
  obtain ⟨b, hb, hinv₁, hmemory₁, hinput₁, hoffsets₁, hblock₁, hstack₁⟩ := push_ok h hpush
  obtain ⟨f, rest, hstack₂, hinv', hleaves, hstack', hblock'⟩ := pop_ok hfills.inv hpop
  rw [hfills.stack, hstack₁] at hstack₂
  cases hstack₂
  refine ⟨(moves_push h hpush).trans (hfills.moves.trans (moves_pop hfills.inv hpop)), hstack',
    hblock', ?_⟩
  have hblock : s₂.block = b := hfills.block.trans hblock₁
  by_cases hone : b = 1
  · rw [hleaves.rewinds (hblock.trans hone), hone]
  · rw [hleaves.others 1 (by rw [hblock]; exact Ne.symm hone),
      hfills.others 1 (by rw [hblock₁]; exact Ne.symm hone), hoffsets₁]

theorem insert_restores {a : Nat} (h : s.Inv) (hok : s.insert = .ok (s', a)) : Restores s s' := by
  obtain ⟨s₁, hs₁, hrest⟩ := ok_of_bind hok
  obtain ⟨b, -, hinv₁, -⟩ := push_ok h hs₁
  obtain ⟨s₂, hs₂, hrest⟩ := ok_of_bind hrest
  have hfills₂ := fills_align hinv₁ hs₂
  obtain ⟨s₃, hs₃, hrest⟩ := ok_of_bind hrest
  rw [(check_ok hfills₂.inv hs₃).1] at hrest
  obtain ⟨s₄, hs₄, hrest⟩ := ok_of_bind hrest
  have hwrite : Fills s₂ { s₂ with bytes := s₂.bytes.writeLE s₂.cursor 0 8 } :=
    fills_of_eq hfills₂.inv rfl rfl rfl rfl rfl rfl hfills₂.inv.consumed
  have hfills₄ := fills_advance hwrite.inv hs₄
  obtain ⟨s₅, hs₅, hrest⟩ := ok_of_bind hrest
  cases hrest
  exact scope_restores h hs₁ (hfills₂.trans (hwrite.trans hfills₄)) hs₅

theorem temporary_restores {size alignment a : Nat} (h : s.Inv)
    (hok : s.temporary size alignment = .ok (s', a)) : Restores s s' := by
  unfold temporary at hok
  split at hok
  · cases hok
  · rw [sync_eq h] at hok
    obtain ⟨s₀, hs₀, hrest⟩ := ok_of_bind hok
    cases hs₀
    obtain ⟨s₁, hs₁, hrest⟩ := ok_of_bind hrest
    obtain ⟨b, -, hinv₁, -⟩ := push_ok h hs₁
    obtain ⟨s₂, hs₂, hrest⟩ := ok_of_bind hrest
    have hfills₂ := fills_align hinv₁ hs₂
    obtain ⟨s₃, hs₃, hrest⟩ := ok_of_bind hrest
    have hfills₃ := fills_load hfills₂.inv hs₃
    obtain ⟨s₄, hs₄, hrest⟩ := ok_of_bind hrest
    cases hrest
    exact scope_restores h hs₁ (hfills₂.trans hfills₃) hs₄

/-! ## Runs -/

/-- An operation that opens or closes no scope for good. -/
theorem exec_neutral {op : StreamOp} (hpush : ∀ next, op ≠ .push next) (hpop : op ≠ .pop)
    (h : s.Inv) (hok : s.exec op = .ok s') :
    Moves s s' ∧ s'.stack = s.stack ∧ s'.block = s.block := by
  have hinside : Fills s s' → Moves s s' ∧ s'.stack = s.stack ∧ s'.block = s.block :=
    fun hf => ⟨hf.moves, hf.stack, hf.block⟩
  have hscope : Restores s s' → Moves s s' ∧ s'.stack = s.stack ∧ s'.block = s.block :=
    fun hr => ⟨hr.moves, hr.stack, hr.block⟩
  cases op with
  | take size => exact hinside (fills_take h hok)
  | check size =>
    rw [(check_ok h hok).1]
    exact ⟨Moves.refl h, rfl, rfl⟩
  | advance size => exact hinside (fills_advance h hok)
  | align mask => exact hinside (fills_align h hok)
  | push next => exact absurd rfl (hpush next)
  | pop => exact absurd rfl hpop
  | load atStart destination size => exact hinside (fills_load h hok)
  | string value => exact hinside (fills_string h hok)
  | beginAsset => exact hinside (fills_beginAsset h hok)
  | endAsset => exact hinside (fills_endAsset h hok)
  | sharedPush =>
    simp only [exec, sharedPush] at hok
    split at hok
    · cases hok
    · cases hok
      exact hinside (fills_shared h _)
  | sharedPop =>
    simp only [exec, sharedPop] at hok
    split at hok
    · cases hok
    · cases hok
      exact hinside (fills_shared h _)
  | resolve packed isAlias =>
    obtain ⟨⟨s₁, a⟩, hs₁, rfl⟩ := ok_of_map hok
    exact hinside (fills_resolve h hs₁)
  | insert =>
    obtain ⟨⟨s₁, a⟩, hs₁, rfl⟩ := ok_of_map hok
    exact hscope (insert_restores h hs₁)
  | temporary size alignment =>
    obtain ⟨⟨s₁, a⟩, hs₁, rfl⟩ := ok_of_map hok
    exact hscope (temporary_restores h hs₁)
  | finish => exact hinside (fills_finish h hok)

theorem exec_moves {op : StreamOp} (h : s.Inv) (hok : s.exec op = .ok s') : Moves s s' := by
  by_cases hpush : ∃ next, op = .push next
  · obtain ⟨next, rfl⟩ := hpush
    exact moves_push h hok
  · by_cases hpop : op = .pop
    · subst hpop
      exact moves_pop h hok
    · exact (exec_neutral (fun next hop => hpush ⟨next, hop⟩) hpop h hok).1

theorem execAll_cons {op : StreamOp} {ops : List StreamOp} (hok : s.execAll (op :: ops) = .ok s') :
    ∃ s₁, s.exec op = .ok s₁ ∧ s₁.execAll ops = .ok s' := by
  unfold execAll at hok
  rw [List.foldlM_cons] at hok
  exact ok_of_bind hok

theorem execAll_append {ops ops' : List StreamOp} (hok : s.execAll (ops ++ ops') = .ok s') :
    ∃ s₁, s.execAll ops = .ok s₁ ∧ s₁.execAll ops' = .ok s' := by
  unfold execAll at hok
  rw [List.foldlM_append] at hok
  exact ok_of_bind hok

theorem execAll_moves {ops : List StreamOp} (h : s.Inv) (hok : s.execAll ops = .ok s') :
    Moves s s' := by
  induction ops generalizing s with
  | nil =>
    cases hok
    exact Moves.refl h
  | cons op ops ih =>
    obtain ⟨s₁, hs₁, hrest⟩ := execAll_cons hok
    have hmoves := exec_moves h hs₁
    exact hmoves.trans (ih hmoves.inv hrest)

/-- Balanced scopes give back the stack and the active block. -/
theorem balanced_restores {ops : List StreamOp} (hb : Balanced ops) (h : s.Inv)
    (hok : s.execAll ops = .ok s') : s'.stack = s.stack ∧ s'.block = s.block := by
  induction hb generalizing s s' with
  | nil =>
    cases hok
    exact ⟨rfl, rfl⟩
  | op hpush hpop hb ih =>
    obtain ⟨s₁, hs₁, hrest⟩ := execAll_cons hok
    obtain ⟨hmoves, hstack, hblock⟩ := exec_neutral hpush hpop h hs₁
    obtain ⟨hstack', hblock'⟩ := ih hmoves.inv hrest
    exact ⟨hstack'.trans hstack, hblock'.trans hblock⟩
  | scope hinner hrest ihInner ihRest =>
    obtain ⟨s₁, hs₁, hok₁⟩ := execAll_cons hok
    obtain ⟨s₂, hs₂, hok₂⟩ := execAll_append hok₁
    obtain ⟨s₃, hs₃, hok₃⟩ := execAll_cons hok₂
    obtain ⟨b, -, hinv₁, -, -, -, -, hstack₁⟩ := push_ok h hs₁
    obtain ⟨hstack₂, -⟩ := ihInner hinv₁ hs₂
    obtain ⟨f, rest, hstack, hinv₃, -, hstack₃, hblock₃⟩ := pop_ok (execAll_moves hinv₁ hs₂).inv hs₃
    rw [hstack₂, hstack₁] at hstack
    cases hstack
    obtain ⟨hstack', hblock'⟩ := ihRest hinv₃ hok₃
    exact ⟨hstack'.trans hstack₃, hblock'.trans hblock₃⟩

/-! ## Packed pointers -/

/-- An address for which `n` bytes of a reservation are left. -/
def Reserved (memory : Fin 8 → Reservation) (a n : Nat) : Prop :=
  ∃ i, (memory i).base ≤ a ∧ a + n ≤ (memory i).base + (memory i).size

theorem resolve_reserved {packed : UInt64} {isAlias : Bool} {a : Nat} (h : s.Inv)
    (hok : s.resolve packed isAlias = .ok (s', a)) :
    (isAlias = false → Reserved s.memory a 1) ∧
    (isAlias = true → ∃ p, Reserved s.memory p 8 ∧ a = s.bytes.readLE p 8) := by
  unfold resolve at hok
  rw [sync_eq h] at hok
  obtain ⟨s₁, hs₁, hrest⟩ := ok_of_bind hok
  cases hs₁
  simp only at hrest
  split at hrest
  · cases hrest
  · split at hrest
    · rename_i hindex
      obtain ⟨offset, -, hrest⟩ := ok_of_bind hrest
      split at hrest
      · cases hrest
      · rename_i hbounds
        cases hrest
        refine ⟨fun halias => ?_, fun halias => ?_⟩
        · subst halias
          refine ⟨_, Nat.le_add_right _ offset, ?_⟩
          simp only [Bool.false_eq_true, if_false]
          omega
        · subst halias
          refine ⟨_, ⟨_, Nat.le_add_right _ offset, ?_⟩, rfl⟩
          simp only [true_and] at hbounds
          omega
    · cases hrest

/-- **The streams of a run that does not throw**: offsets and consumed input stay in their bounds,
balanced scopes restore the active block, offsets outside the temporary block never decrease,
`Insert` and `Temporary` restore depth, block and temporary offset, and a packed pointer is
resolved inside a reservation. -/
theorem streams_sound {memory : Fin 8 → Reservation} {input : List UInt8} {bytes : Mem}
    {ops : List StreamOp} {s : Streams} (hrun : (new memory input bytes).execAll ops = .ok s) :
    (∀ i, s.offsets i ≤ (memory i).size) ∧ s.consumed ≤ input.length ∧
    (∀ ops' s', s.execAll ops' = .ok s' →
      (∀ i, i ≠ 1 → s.offsets i ≤ s'.offsets i) ∧
      (Balanced ops' → s'.block = s.block ∧ s'.stack.length = s.stack.length)) ∧
    (∀ s' a, (s.insert = .ok (s', a) ∨ ∃ size alignment, s.temporary size alignment = .ok (s', a)) →
      s'.stack.length = s.stack.length ∧ s'.block = s.block ∧ s'.offsets 1 = s.offsets 1) ∧
    (∀ packed isAlias s' a, s.resolve packed isAlias = .ok (s', a) →
      (isAlias = false → Reserved memory a 1) ∧
      (isAlias = true → ∃ p, Reserved memory p 8 ∧ a = s.bytes.readLE p 8)) := by
  have hmoves := execAll_moves (inv_new memory input bytes) hrun
  have hinv := hmoves.inv
  have hmemory : s.memory = memory := hmoves.memory
  have hinput : s.input = input := hmoves.input
  refine ⟨fun i => ?_, ?_, fun ops' s' hrun' => ⟨?_, fun hb => ?_⟩, fun s' a hscope => ?_,
    fun packed isAlias s' a hok => ?_⟩
  · rw [← hmemory]
    exact hinv.offsets i
  · rw [← hinput]
    exact hinv.consumed
  · exact (execAll_moves hinv hrun').grows
  · obtain ⟨hstack, hblock⟩ := balanced_restores hb hinv hrun'
    exact ⟨hblock, congrArg List.length hstack⟩
  · have hrestores : Restores s s' := by
      rcases hscope with hok | ⟨size, alignment, hok⟩
      · exact insert_restores hinv hok
      · exact temporary_restores hinv hok
    exact ⟨congrArg List.length hrestores.stack, hrestores.block, hrestores.temporary⟩
  · rw [← hmemory]
    exact resolve_reserved hinv hok

/-- Eight reservations of 256 bytes. -/
def eightBlocks : Fin 8 → Reservation := fun i => ⟨4096 + 256 * i.val, 256⟩

/-- A packed pointer into a block that nothing was loaded into is resolved all the same. -/
theorem unproduced_resolves : ∃ s', (new eightBlocks [] fun _ => 0).resolve 1 false =
    .ok (s', 4096) ∧ ¬ ∃ i, (eightBlocks i).base ≤ 4096 ∧
      4096 < (eightBlocks i).base + s'.offsets i := by
  have hresolve : ((new eightBlocks [] fun _ => 0).resolve 1 false).toOption.map
      (fun r => (r.2, decide (∃ i, (eightBlocks i).base ≤ 4096 ∧
        4096 < (eightBlocks i).base + r.1.offsets i))) = some (4096, false) := by decide +kernel
  obtain ⟨⟨s', a⟩, hok, hpair⟩ := Option.map_eq_some_iff.mp hresolve
  obtain ⟨ha, hnone⟩ := Prod.mk.inj hpair
  refine ⟨s', ?_, of_decide_eq_false hnone⟩
  rw [ok_of_toOption hok]
  exact congrArg (fun a => Except.ok (s', a)) ha

/-- Four bytes, a string and a scope of the temporary block. -/
theorem nested_sound : ∃ s, (new eightBlocks [1, 2, 3, 4, 97, 0, 9] fun _ => 0).execAll
    [.load true 4096 4, .beginAsset, .push 5, .align 7, .string 5376, .insert, .temporary 1 16] =
      .ok s ∧ s.consumed ≤ 7 := by
  have hrun : ((new eightBlocks [1, 2, 3, 4, 97, 0, 9] fun _ => 0).execAll
      [.load true 4096 4, .beginAsset, .push 5, .align 7, .string 5376, .insert,
        .temporary 1 16]).toOption.isSome = true := by decide +kernel
  obtain ⟨s, hs⟩ := Option.isSome_iff_exists.mp hrun
  exact ⟨s, ok_of_toOption hs, (streams_sound (ok_of_toOption hs)).2.1⟩

end Acts.Mw19.Streams
