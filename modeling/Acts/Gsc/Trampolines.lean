import Acts.Gsc.Obfuscator
import Acts.Lib.Checked

/-!
# Trampolines of the obfuscator

* `createTrampoline_cases` — what one step does.
* `createTrampolines_frame` — only the bytes of the trampolines change.
* `Inv` — what holds of the free data: the used part of a dev block is what trampolines took.
* `sound_iff` — **every export reaches its code, through trampolines that share no bytes, exactly
  when each step takes bytes that are near enough and in no used part of another dev block, and
  aligned code has opcodes of two bytes.**
-/

set_option autoImplicit false

namespace Acts.Gsc.Obfuscator

variable {c : Context}

/-! ## Jumps -/

/-- The size of an opcode. -/
def opCodeSize (c : Context) : Nat := if c.vm.u16OpCodes then 2 else 1

/-- Where the opcode at a position stands. -/
def opCodeLoc (c : Context) (loc : Nat) : Nat := alignedLoc c loc (opCodeSize c)

/-- Where the delta of a jump at a position stands. -/
def deltaLoc (c : Context) (loc : Nat) : Nat := alignedLoc c (opCodeLoc c loc + opCodeSize c) 2

theorem le_alignedLoc (c : Context) (loc size : Nat) (h : 0 < size) :
    loc ≤ alignedLoc c loc size := by
  unfold alignedLoc
  split
  · exact le_aligned loc h
  · exact Nat.le_refl loc

theorem opCodeSize_pos (c : Context) : 0 < opCodeSize c := by
  unfold opCodeSize
  split <;> decide

theorem le_opCodeLoc (c : Context) (loc : Nat) : loc ≤ opCodeLoc c loc :=
  le_alignedLoc c loc _ (opCodeSize_pos c)

theorem le_deltaLoc (c : Context) (loc : Nat) :
    opCodeLoc c loc + opCodeSize c ≤ deltaLoc c loc :=
  le_alignedLoc c _ 2 (by decide)

theorem readAlignedRef_ok {loc size pos loc' : Nat} {name : String}
    (h : readAlignedRef c loc size name = .ok (pos, loc')) :
    pos = alignedLoc c loc size ∧ loc' = pos + size ∧
      ¬alignedLoc c loc size + (size - 1) > c.scriptLen := by
  unfold readAlignedRef at h
  dsimp only at h
  split at h
  · cases h
  · rename_i hle
    cases h
    exact ⟨rfl, rfl, hle⟩

theorem getAndPassOpCode_eq (m : Mem) (loc : Nat) :
    getAndPassOpCode c m loc =
      if opCodeLoc c loc + (opCodeSize c - 1) > c.scriptLen then
        .error (.invalid (if c.vm.u16OpCodes then "opcode u16" else "opcode u8"))
      else .ok (m.readLE (opCodeLoc c loc) (opCodeSize c), opCodeLoc c loc + opCodeSize c) := by
  unfold getAndPassOpCode opCodeLoc opCodeSize readAlignedRef
  dsimp only
  cases c.vm.u16OpCodes with
  | true =>
    rw [if_pos rfl, if_pos rfl, if_pos rfl]
    split
    · rfl
    · rfl
  | false =>
    simp only [Bool.false_eq_true, if_false]
    split
    · rfl
    · rfl

/-- What the writing of a jump does. -/
theorem setAndPassJump_ok {s s' : State} {loc loc' : Nat}
    (h : setAndPassJump c s loc = .ok (s', loc')) :
    ∃ vl ∈ c.vm.jumpIds, ¬opCodeLoc c loc + (opCodeSize c - 1) > c.scriptLen ∧
      loc' = opCodeLoc c loc + opCodeSize c ∧
      s' = { s with
        draws := s.draws + 1
        mem := s.mem.writeLE (opCodeLoc c loc) vl (opCodeSize c) } := by
  unfold setAndPassJump at h
  split at h
  · cases h
  · rename_i vl hvl
    have hmem : vl ∈ c.vm.jumpIds := List.mem_of_getElem? hvl
    dsimp only at h
    unfold opCodeLoc opCodeSize
    split at h
    · rename_i hu16
      obtain ⟨⟨pos, last⟩, hread, h⟩ := ok_of_bind h
      obtain ⟨rfl, rfl, hle⟩ := readAlignedRef_ok hread
      cases h
      rw [if_pos hu16]
      exact ⟨vl, hmem, hle, rfl, rfl⟩
    · rename_i hu16
      obtain ⟨⟨pos, last⟩, hread, h⟩ := ok_of_bind h
      obtain ⟨rfl, rfl, hle⟩ := readAlignedRef_ok hread
      cases h
      rw [if_neg hu16]
      exact ⟨vl, hmem, hle, rfl, rfl⟩

/-- Where a jump leads, by its bytes. -/
theorem jumpTarget_eq (m : Mem) (loc : Nat) :
    jumpTarget c m loc =
      if opCodeLoc c loc + (opCodeSize c - 1) > c.scriptLen then none
      else if c.vm.lookupOpCode (m.readLE (opCodeLoc c loc) (opCodeSize c)) = .jump then
        if deltaLoc c loc + 1 > c.scriptLen then none
        else some ((deltaLoc c loc + 2 : Nat) + int16 (m.readLE (deltaLoc c loc) 2))
      else none := by
  unfold jumpTarget
  rw [getAndPassOpCode_eq]
  by_cases hfit : opCodeLoc c loc + (opCodeSize c - 1) > c.scriptLen
  · rw [if_pos hfit, if_pos hfit]
  · rw [if_neg hfit, if_neg hfit]
    dsimp only
    split
    · unfold readAlignedRef deltaLoc
      dsimp only
      by_cases hdelta : alignedLoc c (opCodeLoc c loc + opCodeSize c) 2 + 1 > c.scriptLen
      · rw [if_pos hdelta, if_pos hdelta]
      · rw [if_neg hdelta, if_neg hdelta]
    · rfl

theorem jumpTarget_congr {m m' : Mem} {loc : Nat}
    (h : ∀ x, loc ≤ x → x < deltaLoc c loc + 2 → m x = m' x) :
    jumpTarget c m loc = jumpTarget c m' loc := by
  have hop := le_opCodeLoc c loc
  have hdelta := le_deltaLoc c loc
  rw [jumpTarget_eq, jumpTarget_eq, Mem.readLE_congr m' fun x h₁ h₂ => h x (by omega) (by omega),
    Mem.readLE_congr m' fun x h₁ h₂ => h x (by omega) (by omega)]

/-! ## One step -/

theorem fetchNearFreeDataChunk_spec {loc : Nat} {chunks before after : List FreeDataChunk}
    {chunk : FreeDataChunk}
    (h : fetchNearFreeDataChunk c loc chunks = some (before, chunk, after)) :
    ∃ k, chunks = before ++ k :: after ∧ Fits c loc k ∧
      chunk = { k with rva := k.rva + skipedSize c k, len := k.len - skipedSize c k } := by
  induction chunks generalizing before with
  | nil => cases h
  | cons k ks ih =>
    rw [fetchNearFreeDataChunk] at h
    split at h
    · rename_i hfits
      cases h
      exact ⟨k, rfl, hfits, rfl⟩
    · obtain ⟨⟨before', chunk', after'⟩, hrest, heq⟩ := Option.map_eq_some_iff.mp h
      cases heq
      obtain ⟨k', rfl, hfits, hchunk⟩ := ih hrest
      exact ⟨k', rfl, hfits, hchunk⟩

/-- A chunk behind a trampoline that ends at `base`. -/
def advance (chunk : FreeDataChunk) (base : Nat) : FreeDataChunk :=
  let usedSpace := (base % 2 ^ 32 + 2 ^ 64 - chunk.rva) % 2 ^ 64
  { chunk with rva := base % 2 ^ 32, len := (chunk.len + 2 ^ 64 - usedSpace) % 2 ^ 64 }

/-- The trampoline that is written at `loc` for the code at `bc`. -/
def writeTrampoline (c : Context) (m : Mem) (loc vl bc : Nat) : Mem :=
  (m.writeLE (opCodeLoc c loc) vl (opCodeSize c)).writeLE (deltaLoc c loc)
    ((bc + 2 ^ 64 - (opCodeLoc c loc + opCodeSize c + 2)) % 2 ^ 16) 2

/-- What one step does: nothing, or a jump in the chunk that was found. -/
theorem createTrampoline_cases {s s' : State} {exp exp' : GscExportData}
    (h : createTrampoline c s exp = .ok (s', exp')) :
    (fetchNearFreeDataChunk c exp.bc s.freeData = none ∧ s' = s ∧ exp' = exp) ∨
    ∃ before chunk after, ∃ vl ∈ c.vm.jumpIds,
      fetchNearFreeDataChunk c exp.bc s.freeData = some (before, chunk, after) ∧
      ¬opCodeLoc c (chunk.rva % 2 ^ 32) + (opCodeSize c - 1) > c.scriptLen ∧
      ¬deltaLoc c (chunk.rva % 2 ^ 32) + 1 > c.scriptLen ∧
      s'.mem = writeTrampoline c s.mem (chunk.rva % 2 ^ 32) vl exp.bc ∧
      s'.freeData = before ++ advance chunk (deltaLoc c (chunk.rva % 2 ^ 32) + 2) :: after ∧
      s'.trampolines = s.trampolines ++
        [(chunk.rva % 2 ^ 32, deltaLoc c (chunk.rva % 2 ^ 32) + 2)] ∧
      exp'.address = chunk.rva % 2 ^ 32 := by
  unfold createTrampoline at h
  split at h
  · rename_i hnone
    cases h
    exact .inl ⟨hnone, rfl, rfl⟩
  · rename_i before chunk after hsome
    dsimp only at h
    obtain ⟨⟨s₁, base⟩, hjump, h⟩ := ok_of_bind h
    obtain ⟨vl, hvl, hop, rfl, rfl⟩ := setAndPassJump_ok hjump
    obtain ⟨⟨pos, last⟩, hread, h⟩ := ok_of_bind h
    obtain ⟨rfl, rfl, hdelta⟩ := readAlignedRef_ok hread
    cases h
    exact .inr ⟨before, chunk, after, vl, hvl, hsome, hop, hdelta, rfl, rfl, rfl, rfl⟩

/-! ## Trampolines -/

theorem writeTrampoline_outside {m : Mem} {loc vl bc x : Nat}
    (h : x < loc ∨ deltaLoc c loc + 2 ≤ x) : writeTrampoline c m loc vl bc x = m x := by
  have hop := le_opCodeLoc c loc
  have hdelta := le_deltaLoc c loc
  rw [writeTrampoline, Mem.writeLE_outside _ _ (by omega), Mem.writeLE_outside _ _ (by omega)]

theorem jumpTarget_writeTrampoline {m : Mem} {loc vl bc : Nat} (hvl : vl ∈ c.vm.jumpIds)
    (hop : ¬opCodeLoc c loc + (opCodeSize c - 1) > c.scriptLen)
    (hdelta : ¬deltaLoc c loc + 1 > c.scriptLen) :
    jumpTarget c (writeTrampoline c m loc vl bc) loc =
      some ((deltaLoc c loc + 2 : Nat) +
        int16 ((bc + 2 ^ 64 - (opCodeLoc c loc + opCodeSize c + 2)) % 2 ^ 16)) := by
  have hle := le_deltaLoc c loc
  have hsmall : vl < 256 ^ opCodeSize c := by
    have hlt := c.vm.jump_lt vl hvl
    unfold opCodeSize
    split at hlt
    · rename_i hu16
      rw [if_pos hu16]
      exact hlt
    · rename_i hu16
      rw [if_neg hu16]
      exact hlt
  have hval : (writeTrampoline c m loc vl bc).readLE (opCodeLoc c loc) (opCodeSize c) = vl := by
    rw [writeTrampoline, Mem.readLE_writeLE_disjoint _ _ (by omega), Mem.readLE_writeLE,
      Nat.mod_eq_of_lt hsmall]
  have hword : (writeTrampoline c m loc vl bc).readLE (deltaLoc c loc) 2 =
      (bc + 2 ^ 64 - (opCodeLoc c loc + opCodeSize c + 2)) % 2 ^ 16 := by
    rw [writeTrampoline, Mem.readLE_writeLE]
    exact Nat.mod_mod _ _
  rw [jumpTarget_eq, if_neg hop, hval, if_pos (c.vm.lookup_jump vl hvl), if_neg hdelta, hword]

theorem trampolineSize_le (c : Context) : trampolineSize c ≤ 4 := by
  unfold trampolineSize
  split <;> decide

theorem trampolineSize_pos (c : Context) : 0 < trampolineSize c := by
  unfold trampolineSize
  split <;> decide

/-- Code that is aligned has its trampolines at even positions. -/
def EvenAt (c : Context) (loc : Nat) : Prop := c.vm.alignedCode = true → 2 ∣ loc

theorem opCodeLoc_of_even {loc : Nat} (h : EvenAt c loc) : opCodeLoc c loc = loc := by
  unfold opCodeLoc alignedLoc
  split
  · rename_i hcond
    unfold opCodeSize
    split
    · exact aligned_of_dvd (h hcond.2)
    · exact aligned_one loc
  · rfl

/-- A jump takes three bytes, or four where a word or an alignment makes it longer; only with
opcodes of one byte in aligned code there is a gap in front of the delta. -/
theorem deltaLoc_of_even {loc : Nat} (h : EvenAt c loc) :
    deltaLoc c loc + 2 = loc + trampolineSize c ∧
      (deltaLoc c loc = loc + opCodeSize c ↔
        (c.vm.alignedCode = true → c.vm.u16OpCodes = true)) := by
  unfold deltaLoc
  rw [opCodeLoc_of_even h]
  unfold alignedLoc opCodeSize trampolineSize
  unfold EvenAt at h
  cases halign : c.vm.alignedCode with
  | false =>
    cases hu16 : c.vm.u16OpCodes with
    | false => simp
    | true => simp
  | true =>
    obtain ⟨k, rfl⟩ := h halign
    cases hu16 : c.vm.u16OpCodes with
    | false =>
      have hgap : aligned (2 * k + 1) 2 = 2 * k + 2 := by
        unfold aligned
        omega
      simp [hgap]
    | true =>
      have hnext : aligned (2 * k + 2) 2 = 2 * k + 2 := aligned_of_dvd ⟨k + 1, by omega⟩
      simp [hnext]

theorem int16_landing (base bc : Nat) :
    (base : Int) + int16 ((bc + 2 ^ 64 - base) % 2 ^ 16) = bc ↔
      bc ≤ base + 32767 ∧ base ≤ bc + 32768 := by
  unfold int16
  split <;> omega

theorem int16_gap {base bc : Nat} (hbase : base < 2 ^ 34) (hbase' : 0 < base) :
    (base : Int) + int16 ((bc + 2 ^ 64 - (base - 1)) % 2 ^ 16) ≠ bc := by
  unfold int16
  split <;> omega

/-- Where the trampoline of an export leads. -/
theorem jumpTarget_trampoline {m : Mem} {loc vl bc : Nat} (heven : EvenAt c loc)
    (hloc : loc < 2 ^ 32) (hvl : vl ∈ c.vm.jumpIds)
    (hop : ¬opCodeLoc c loc + (opCodeSize c - 1) > c.scriptLen)
    (hdelta : ¬deltaLoc c loc + 1 > c.scriptLen) :
    jumpTarget c (writeTrampoline c m loc vl bc) loc = some (bc : Int) ↔
      (c.vm.alignedCode = true → c.vm.u16OpCodes = true) ∧
      bc ≤ loc + trampolineSize c + 32767 ∧ loc + trampolineSize c ≤ bc + 32768 := by
  obtain ⟨hbase, hgap⟩ := deltaLoc_of_even heven
  have hsize := trampolineSize_le c
  rw [jumpTarget_writeTrampoline hvl hop hdelta, opCodeLoc_of_even heven, Option.some.injEq]
  by_cases hwide : c.vm.alignedCode = true → c.vm.u16OpCodes = true
  · have hdeltaLoc := hgap.mpr hwide
    rw [← hdeltaLoc, int16_landing, hbase]
    exact ⟨fun h => ⟨hwide, h⟩, fun h => h.2⟩
  · have hle := le_deltaLoc c loc
    rw [opCodeLoc_of_even heven] at hle
    have hone : opCodeSize c = 1 := by
      unfold opCodeSize
      rw [if_neg]
      intro hu16
      exact hwide fun _ => hu16
    have hfour : trampolineSize c = 4 := by
      unfold trampolineSize
      rw [if_neg]
      intro hsmall
      apply hwide
      intro halign
      simp [halign] at hsmall
    have hprev : loc + opCodeSize c + 2 = deltaLoc c loc + 2 - 1 := by omega
    rw [hprev]
    exact ⟨fun h => absurd h (int16_gap (by omega) (by omega)), fun h => absurd h.1 hwide⟩

/-! ## The free data -/

/-- Where the used part of a dev block ends.  A position behind 4 GiB was cut to 32 bits. -/
def usedEnd (k : FreeDataChunk) : Nat := if k.start ≤ k.rva then k.rva else k.rva + 2 ^ 32

/-- Two ranges share no position. -/
def Apart (a b : Nat × Nat) : Prop := ∀ x, ¬(a.1 ≤ x ∧ x < a.2 ∧ b.1 ≤ x ∧ x < b.2)

/-- A chunk is the end of a dev block, and either where it should be or cut to 32 bits. -/
structure ChunkInv (c : Context) (blocks : List FreeDataChunk) (k : FreeDataChunk) : Prop where
  even : EvenAt c k.rva
  block : ∃ b ∈ blocks, b.rva = k.start ∧ b.rva + b.len = k.rva + k.len
  place : (k.start ≤ k.rva ∧ k.rva + k.len ≤ k.start + 32767) ∨
    (k.rva < 4 ∧ 4 ≤ k.start ∧ 2 ^ 32 ≤ k.rva + k.len)

/-- What holds of the state: the used parts of the dev blocks are the trampolines. -/
structure Inv (c : Context) (blocks : List FreeDataChunk) (s : State) : Prop where
  chunks : ∀ k ∈ s.freeData, ChunkInv c blocks k
  used : ∀ x, (∃ t ∈ s.trampolines, t.1 ≤ x ∧ x < t.2) ↔
    ∃ k ∈ s.freeData, k.start ≤ x ∧ x < usedEnd k
  inside : ∀ t ∈ s.trampolines, ∃ b ∈ blocks, b.rva ≤ t.1 ∧ t.2 ≤ b.rva + b.len

variable {blocks : List FreeDataChunk} {s s' : State}

theorem skipedSize_of_even {k : FreeDataChunk} (h : EvenAt c k.rva) : skipedSize c k = 0 := by
  unfold skipedSize
  split
  · rename_i halign
    rw [aligned_of_dvd (h halign), Nat.sub_self]
  · rfl

/-- The chunk that is found stands in the list, and nothing is skipped in front of it. -/
theorem Inv.fetch {loc : Nat} {before after : List FreeDataChunk} {chunk : FreeDataChunk}
    (hinv : Inv c blocks s)
    (h : fetchNearFreeDataChunk c loc s.freeData = some (before, chunk, after)) :
    s.freeData = before ++ chunk :: after ∧ ChunkInv c blocks chunk ∧
      trampolineSize c ≤ chunk.len ∧ chunk.rva + chunk.len ≤ loc + 32767 ∧
      loc ≤ chunk.rva + chunk.len + 32767 := by
  obtain ⟨k, hlist, ⟨hlen, hdist⟩, hchunk⟩ := fetchNearFreeDataChunk_spec h
  have hk : k ∈ s.freeData := by
    rw [hlist]
    exact List.mem_append_right before List.mem_cons_self
  have hkInv := hinv.chunks k hk
  have hskip := skipedSize_of_even hkInv.even
  rw [hskip] at hlen hchunk
  simp only [Nat.add_zero, Nat.sub_zero] at hlen hchunk
  subst hchunk
  refine ⟨hlist, hkInv, ?_, ?_, ?_⟩ <;> dsimp only <;> omega

theorem even_next {loc : Nat} (h : EvenAt c loc) : EvenAt c ((loc + trampolineSize c) % 2 ^ 32) := by
  intro halign
  have hfour : trampolineSize c = 4 := by
    unfold trampolineSize
    rw [halign]
    rfl
  have heven := h halign
  omega

/-- The chunk behind a trampoline that stands where it should. -/
theorem ChunkInv.advance {chunk : FreeDataChunk} (h : ChunkInv c blocks chunk)
    (hplace : chunk.start ≤ chunk.rva ∧ chunk.rva + chunk.len ≤ chunk.start + 32767)
    (hrva : chunk.rva < 2 ^ 32) (hlen : trampolineSize c ≤ chunk.len) :
    ChunkInv c blocks (advance chunk (chunk.rva + trampolineSize c)) ∧
      usedEnd (Obfuscator.advance chunk (chunk.rva + trampolineSize c)) =
        chunk.rva + trampolineSize c := by
  have hsize := trampolineSize_le c
  have hrva' : (Obfuscator.advance chunk (chunk.rva + trampolineSize c)).rva =
      (chunk.rva + trampolineSize c) % 2 ^ 32 := rfl
  have hstart : (Obfuscator.advance chunk (chunk.rva + trampolineSize c)).start =
      chunk.start := rfl
  have hend : (Obfuscator.advance chunk (chunk.rva + trampolineSize c)).rva +
      (Obfuscator.advance chunk (chunk.rva + trampolineSize c)).len = chunk.rva + chunk.len := by
    unfold Obfuscator.advance
    dsimp only
    omega
  refine ⟨⟨?_, ?_, ?_⟩, ?_⟩
  · rw [hrva']
    exact even_next h.even
  · rw [hend]
    exact h.block
  · rw [hend, hrva', hstart]
    omega
  · unfold usedEnd
    rw [hrva', hstart]
    split <;> omega

/-- An export is reached at an address: there, or by the jump that stands there. -/
def Reaches (c : Context) (m : Mem) (address target : Nat) : Prop :=
  address = target ∨ jumpTarget c m address = some (target : Int)

/-- The chunk that the step takes is near enough behind its jump, and no used part of a dev block
covers the bytes that are taken; opcodes of aligned code have two bytes, unless the export stands
at the chunk. -/
def StepFine (c : Context) (s : State) (exp : GscExportData) : Prop :=
  ∀ before chunk after,
    fetchNearFreeDataChunk c exp.bc s.freeData = some (before, chunk, after) →
    ((c.vm.alignedCode = true → c.vm.u16OpCodes = true) ∨ chunk.rva = exp.bc) ∧
      chunk.rva < 2 ^ 32 ∧ exp.bc ≤ chunk.rva + trampolineSize c + 32767 ∧
      ∀ k ∈ s.freeData,
        Apart (k.start, usedEnd k) (chunk.rva, chunk.rva + trampolineSize c)

/-- Every step is so. -/
def StepsFine (c : Context) : List GscExportData → State → Prop
  | [], _ => True
  | exp :: exports, s =>
    s.freeData = [] ∨
      (StepFine c s exp ∧
        ∀ s' exp', createTrampoline c s exp = .ok (s', exp') → StepsFine c exports s')

section Step

variable {exp exp' : GscExportData} {before after : List FreeDataChunk} {chunk : FreeDataChunk}
  {vl : Nat}

/-- When a trampoline leads back. -/
theorem Inv.reaches_iff (hinv : Inv c blocks s)
    (hfetch : fetchNearFreeDataChunk c exp.bc s.freeData = some (before, chunk, after))
    (hbc : exp.bc < 2 ^ 32) (hvl : vl ∈ c.vm.jumpIds)
    (hop : ¬opCodeLoc c (chunk.rva % 2 ^ 32) + (opCodeSize c - 1) > c.scriptLen)
    (hdelta : ¬deltaLoc c (chunk.rva % 2 ^ 32) + 1 > c.scriptLen) :
    Reaches c (writeTrampoline c s.mem (chunk.rva % 2 ^ 32) vl exp.bc) (chunk.rva % 2 ^ 32)
        exp.bc ↔
      ((c.vm.alignedCode = true → c.vm.u16OpCodes = true) ∨ chunk.rva = exp.bc) ∧
        chunk.rva < 2 ^ 32 ∧ exp.bc ≤ chunk.rva + trampolineSize c + 32767 := by
  obtain ⟨-, hchunk, hlen, hhigh, hlow⟩ := hinv.fetch hfetch
  have hsize := trampolineSize_le c
  have heven : EvenAt c (chunk.rva % 2 ^ 32) := by
    intro halign
    have h := hchunk.even halign
    omega
  have hlt : chunk.rva % 2 ^ 32 < 2 ^ 32 := Nat.mod_lt _ (by decide)
  unfold Reaches
  rw [jumpTarget_trampoline heven hlt hvl hop hdelta]
  constructor
  · rintro (hsame | ⟨hwide, hle, hge⟩)
    · have hrva : chunk.rva < 2 ^ 32 := by omega
      rw [Nat.mod_eq_of_lt hrva] at hsame
      exact ⟨.inr hsame, hrva, by omega⟩
    · have hrva : chunk.rva < 2 ^ 32 := by omega
      rw [Nat.mod_eq_of_lt hrva] at hle
      exact ⟨.inl hwide, hrva, hle⟩
  · rintro ⟨hwide | hsame, hrva, hle⟩
    · rw [Nat.mod_eq_of_lt hrva]
      exact .inr ⟨hwide, hle, by omega⟩
    · rw [Nat.mod_eq_of_lt hrva]
      exact .inl hsame

/-- A step that is near enough keeps the invariant. -/
theorem Inv.step (hinv : Inv c blocks s)
    (hfetch : fetchNearFreeDataChunk c exp.bc s.freeData = some (before, chunk, after))
    (hrva : chunk.rva < 2 ^ 32) (hnear : exp.bc ≤ chunk.rva + trampolineSize c + 32767)
    (hfree : s'.freeData = before ++ advance chunk (chunk.rva + trampolineSize c) :: after)
    (htramp : s'.trampolines =
      s.trampolines ++ [(chunk.rva, chunk.rva + trampolineSize c)]) :
    Inv c blocks s' := by
  obtain ⟨hlist, hchunk, hlen, hhigh, hlow⟩ := hinv.fetch hfetch
  have hsize := trampolineSize_le c
  have hplace : chunk.start ≤ chunk.rva ∧ chunk.rva + chunk.len ≤ chunk.start + 32767 := by
    rcases hchunk.place with hplace | ⟨h₁, h₂, h₃⟩
    · exact hplace
    · omega
  obtain ⟨hnext, hused⟩ := hchunk.advance hplace hrva hlen
  have hmem : ∀ k, k ∈ before ∨ k ∈ after → k ∈ s.freeData := by
    intro k hk
    rw [hlist]
    rcases hk with hk | hk
    · exact List.mem_append_left _ hk
    · exact List.mem_append_right _ (List.mem_cons_of_mem _ hk)
  have husedChunk : usedEnd chunk = chunk.rva := by
    unfold usedEnd
    rw [if_pos hplace.1]
  have hstart : (Obfuscator.advance chunk (chunk.rva + trampolineSize c)).start =
      chunk.start := rfl
  refine ⟨?_, ?_, ?_⟩
  · intro k hk
    rw [hfree] at hk
    rcases List.mem_append.mp hk with hk | hk
    · exact hinv.chunks k (hmem k (.inl hk))
    · rcases List.mem_cons.mp hk with rfl | hk
      · exact hnext
      · exact hinv.chunks k (hmem k (.inr hk))
  · intro x
    have hold := hinv.used x
    rw [hlist] at hold
    rw [htramp, hfree]
    simp only [List.mem_append, List.mem_cons, List.not_mem_nil, or_false, or_and_right,
      exists_or, exists_eq_left, hused, hstart, husedChunk] at hold ⊢
    rw [hold]
    constructor
    · rintro ((h | h | h) | h)
      · exact .inl h
      · exact .inr (.inl (by omega))
      · exact .inr (.inr h)
      · exact .inr (.inl (by omega))
    · rintro (h | h | h)
      · exact .inl (.inl h)
      · by_cases hx : x < chunk.rva
        · exact .inl (.inr (.inl ⟨h.1, hx⟩))
        · exact .inr ⟨by omega, h.2⟩
      · exact .inl (.inr (.inr h))
  · intro t ht
    rw [htramp] at ht
    rcases List.mem_append.mp ht with ht | ht
    · exact hinv.inside t ht
    · rcases List.mem_singleton.mp ht with rfl
      obtain ⟨b, hb, hbstart, hbend⟩ := hchunk.block
      exact ⟨b, hb, by dsimp only; omega, by dsimp only; omega⟩

/-- A range is apart from the used parts of the dev blocks if it is so from the trampolines. -/
theorem Inv.apart_iff (hinv : Inv c blocks s) (t : Nat × Nat) :
    (∀ k ∈ s.freeData, Apart (k.start, usedEnd k) t) ↔ ∀ a ∈ s.trampolines, Apart a t := by
  constructor
  · intro h a ha x ⟨h₁, h₂, h₃⟩
    obtain ⟨k, hk, hx⟩ := (hinv.used x).mp ⟨a, ha, h₁, h₂⟩
    exact h k hk x ⟨hx.1, hx.2, h₃⟩
  · intro h k hk x ⟨h₁, h₂, h₃⟩
    obtain ⟨a, ha, hx⟩ := (hinv.used x).mpr ⟨k, hk, h₁, h₂⟩
    exact h a ha x ⟨hx.1, hx.2, h₃⟩

/-- A step is fine if its export is reached behind it and no trampolines share bytes. -/
theorem Inv.stepFine_iff (hinv : Inv c blocks s) (hapart : s.trampolines.Pairwise Apart)
    (haddress : exp.address = exp.bc) (hbc : exp.bc < 2 ^ 32)
    (h : createTrampoline c s exp = .ok (s', exp')) :
    StepFine c s exp ↔
      Reaches c s'.mem exp'.address exp.bc ∧ s'.trampolines.Pairwise Apart := by
  rcases createTrampoline_cases h with ⟨hnone, rfl, rfl⟩ |
    ⟨before, chunk, after, vl, hvl, hfetch, hop, hdelta, hmem, -, htramp, haddr⟩
  · refine ⟨fun _ => ⟨.inl haddress, hapart⟩, fun _ => ?_⟩
    intro before chunk after hsome
    rw [hnone] at hsome
    cases hsome
  · have hreach := hinv.reaches_iff hfetch hbc hvl hop hdelta
    have hall : s'.trampolines.Pairwise Apart ↔ ∀ a ∈ s.trampolines,
        Apart a (chunk.rva % 2 ^ 32, deltaLoc c (chunk.rva % 2 ^ 32) + 2) := by
      rw [htramp, List.pairwise_append]
      simp [hapart]
    rw [hmem, haddr, hreach, hall]
    constructor
    · intro hfine
      obtain ⟨hwide, hrva, hnear, hfree⟩ := hfine before chunk after hfetch
      have hend := (deltaLoc_of_even (hinv.fetch hfetch).2.1.even).1
      rw [Nat.mod_eq_of_lt hrva, hend]
      exact ⟨⟨hwide, hrva, hnear⟩, (hinv.apart_iff _).mp hfree⟩
    · rintro ⟨⟨hwide, hrva, hnear⟩, hfree⟩ before' chunk' after' hfetch'
      rw [hfetch] at hfetch'
      cases hfetch'
      have hend := (deltaLoc_of_even (hinv.fetch hfetch).2.1.even).1
      rw [Nat.mod_eq_of_lt hrva, hend] at hfree
      exact ⟨hwide, hrva, hnear, (hinv.apart_iff _).mpr hfree⟩

theorem Inv.of_stepFine (hinv : Inv c blocks s) (hfine : StepFine c s exp)
    (h : createTrampoline c s exp = .ok (s', exp')) : Inv c blocks s' := by
  rcases createTrampoline_cases h with ⟨-, rfl, -⟩ |
    ⟨before, chunk, after, vl, -, hfetch, -, -, -, hfree, htramp, -⟩
  · exact hinv
  · obtain ⟨-, hrva, hnear, -⟩ := hfine before chunk after hfetch
    have hend := (deltaLoc_of_even (hinv.fetch hfetch).2.1.even).1
    rw [Nat.mod_eq_of_lt hrva, hend] at hfree htramp
    exact hinv.step hfetch hrva hnear hfree htramp

end Step

/-! ## Runs -/

section Runs

variable {exports exports' : List GscExportData}

/-- The first step of a run. -/
theorem createTrampolines_cons {exp : GscExportData}
    (h : createTrampolines c (exp :: exports) s = .ok (s', exports')) :
    (s.freeData = [] ∧ s' = s ∧ exports' = exp :: exports) ∨
    (s.freeData ≠ [] ∧ ∃ s₁ exp₁ exports₁, createTrampoline c s exp = .ok (s₁, exp₁) ∧
      createTrampolines c exports s₁ = .ok (s', exports₁) ∧ exports' = exp₁ :: exports₁) := by
  rw [createTrampolines] at h
  split at h
  · rename_i hnil
    cases h
    exact .inl ⟨hnil, rfl, rfl⟩
  · rename_i hne
    obtain ⟨⟨s₁, exp₁⟩, hstep, h⟩ := ok_of_bind h
    obtain ⟨⟨s₂, exports₁⟩, hrest, h⟩ := ok_of_bind h
    cases h
    exact .inr ⟨hne, s₁, exp₁, exports₁, hstep, hrest, rfl⟩

/-- Only the bytes of new trampolines change. -/
theorem createTrampolines_frame (h : createTrampolines c exports s = .ok (s', exports')) :
    ∃ ts, s'.trampolines = s.trampolines ++ ts ∧
      ∀ x, (∀ t ∈ ts, ¬(t.1 ≤ x ∧ x < t.2)) → s'.mem x = s.mem x := by
  induction exports generalizing s exports' with
  | nil =>
    cases h
    exact ⟨[], (List.append_nil _).symm, fun _ _ => rfl⟩
  | cons exp exports ih =>
    rcases createTrampolines_cons h with ⟨-, rfl, -⟩ | ⟨-, s₁, exp₁, exports₁, hstep, hrest, -⟩
    · exact ⟨[], (List.append_nil _).symm, fun _ _ => rfl⟩
    · obtain ⟨ts, hts, hmem⟩ := ih hrest
      rcases createTrampoline_cases hstep with ⟨-, rfl, -⟩ |
        ⟨before, chunk, after, vl, -, -, -, -, hwrite, -, htramp, -⟩
      · exact ⟨ts, hts, hmem⟩
      · refine ⟨_ :: ts, by rw [hts, htramp, List.append_assoc]; rfl, ?_⟩
        intro x hx
        have hfirst := hx _ List.mem_cons_self
        rw [hmem x fun t ht => hx t (List.mem_cons_of_mem _ ht), hwrite,
          writeTrampoline_outside (by dsimp only at hfirst; omega)]

/-- Every export reaches its code, through trampolines that share no bytes. -/
structure RunSound (c : Context) (exports exports' : List GscExportData) (s : State) : Prop where
  reaches : List.Forall₂ (fun exp exp' => Reaches c s.mem exp'.address exp.bc) exports exports'
  apart : s.trampolines.Pairwise Apart

/-- A trampoline that the rest of a run does not touch leads where it did. -/
theorem reaches_rest {exp exp₁ : GscExportData} {s₁ : State} (haddress : exp.address = exp.bc)
    (hstep : createTrampoline c s exp = .ok (s₁, exp₁))
    (hrest : createTrampolines c exports s₁ = .ok (s', exports'))
    (hapart : s'.trampolines.Pairwise Apart) :
    Reaches c s'.mem exp₁.address exp.bc ↔ Reaches c s₁.mem exp₁.address exp.bc := by
  rcases createTrampoline_cases hstep with ⟨-, -, rfl⟩ |
    ⟨before, chunk, after, vl, -, -, -, -, -, -, htramp, haddr⟩
  · exact ⟨fun _ => .inl haddress, fun _ => .inl haddress⟩
  · obtain ⟨ts, hts, hmem⟩ := createTrampolines_frame hrest
    rw [hts, htramp, List.pairwise_append] at hapart
    have hcongr : jumpTarget c s'.mem exp₁.address = jumpTarget c s₁.mem exp₁.address := by
      apply jumpTarget_congr
      intro x h₁ h₂
      apply hmem
      intro t ht hx
      rw [haddr] at h₁ h₂
      exact hapart.2.2 _ (List.mem_append_right _ List.mem_cons_self) t ht x ⟨h₁, h₂, hx⟩
    unfold Reaches
    rw [hcongr]

theorem reaches_unmoved {m : Mem} (h : ∀ exp ∈ exports, exp.address = exp.bc) :
    List.Forall₂ (fun exp exp' => Reaches c m exp'.address exp.bc) exports exports := by
  induction exports with
  | nil => exact .nil
  | cons exp exports ih =>
    exact .cons (.inl (h exp List.mem_cons_self))
      (ih fun e he => h e (List.mem_cons_of_mem exp he))

/-- **A run is sound exactly when every step is fine.** -/
theorem run_iff (hinv : Inv c blocks s) (hapart : s.trampolines.Pairwise Apart)
    (hexports : ∀ exp ∈ exports, exp.address = exp.bc ∧ exp.bc < 2 ^ 32)
    (h : createTrampolines c exports s = .ok (s', exports')) :
    RunSound c exports exports' s' ↔ StepsFine c exports s := by
  induction exports generalizing s exports' with
  | nil =>
    cases h
    exact ⟨fun _ => trivial, fun _ => ⟨.nil, hapart⟩⟩
  | cons exp exports ih =>
    have hrestExports := fun e he => hexports e (List.mem_cons_of_mem exp he)
    obtain ⟨haddress, hbc⟩ := hexports exp List.mem_cons_self
    rw [StepsFine]
    rcases createTrampolines_cons h with ⟨hnil, rfl, rfl⟩ |
      ⟨hne, s₁, exp₁, exports₁, hstep, hrest, rfl⟩
    · exact ⟨fun _ => .inl hnil,
        fun _ => ⟨reaches_unmoved fun e he => (hexports e he).1, hapart⟩⟩
    · obtain ⟨ts, hts, -⟩ := createTrampolines_frame hrest
      constructor
      · intro hsound
        have hhead := (List.forall₂_cons.mp hsound.reaches).1
        have hapart₁ : s₁.trampolines.Pairwise Apart := by
          have hall := hsound.apart
          rw [hts, List.pairwise_append] at hall
          exact hall.1
        have hfine : StepFine c s exp := (hinv.stepFine_iff hapart haddress hbc hstep).mpr
          ⟨(reaches_rest haddress hstep hrest hsound.apart).mp hhead, hapart₁⟩
        refine .inr ⟨hfine, ?_⟩
        intro s₂ exp₂ hstep₂
        rw [hstep] at hstep₂
        cases hstep₂
        exact (ih (hinv.of_stepFine hfine hstep) hapart₁ hrestExports hrest).mp
          ⟨(List.forall₂_cons.mp hsound.reaches).2, hsound.apart⟩
      · rintro (hnil | ⟨hfine, hfines⟩)
        · exact absurd hnil hne
        · obtain ⟨hhead, hapart₁⟩ := (hinv.stepFine_iff hapart haddress hbc hstep).mp hfine
          have hsound := (ih (hinv.of_stepFine hfine hstep) hapart₁ hrestExports hrest).mpr
            (hfines s₁ exp₁ hstep)
          exact ⟨.cons ((reaches_rest haddress hstep hrest hsound.apart).mpr hhead)
            hsound.reaches, hsound.apart⟩

/-- The trampolines of such a run stand in dev blocks. -/
theorem run_inside (hinv : Inv c blocks s) (hfine : StepsFine c exports s)
    (h : createTrampolines c exports s = .ok (s', exports')) :
    ∀ t ∈ s'.trampolines, ∃ b ∈ blocks, b.rva ≤ t.1 ∧ t.2 ≤ b.rva + b.len := by
  induction exports generalizing s exports' with
  | nil =>
    cases h
    exact hinv.inside
  | cons exp exports ih =>
    rcases createTrampolines_cons h with ⟨-, rfl, -⟩ |
      ⟨hne, s₁, exp₁, exports₁, hstep, hrest, -⟩
    · exact hinv.inside
    · rw [StepsFine] at hfine
      rcases hfine with hnil | ⟨hfine, hfines⟩
      · exact absurd hnil hne
      · exact ih (hinv.of_stepFine hfine hstep) (hfines s₁ exp₁ hstep) hrest

end Runs

/-! ## Dev blocks -/

/-- A dev block at `rva`, with its body: behind its delta, the code goes on at the end of it. -/
def IsDevBlock (c : Context) (m : Mem) (rva : Nat) (body : FreeDataChunk) : Prop :=
  ∃ val loc, getAndPassOpCode c m rva = .ok (val, loc) ∧
    c.vm.lookupOpCode val = .devblockBegin ∧ devBlock c m loc = .ok (some body)

theorem devBlock_spec {m : Mem} {loc : Nat} {body : FreeDataChunk}
    (h : devBlock c m loc = .ok (some body)) :
    body.start = body.rva ∧ EvenAt c body.rva ∧ body.len ≤ 32767 := by
  unfold devBlock at h
  obtain ⟨⟨pos, last⟩, hread, h⟩ := ok_of_bind h
  obtain ⟨rfl, rfl, -⟩ := readAlignedRef_ok hread
  dsimp only at h
  split at h
  · cases h
  · split at h
    · cases h
    · cases h
      refine ⟨rfl, ?_, ?_⟩
      · intro halign
        have hdvd : 2 ∣ alignedLoc c loc 2 := by
          unfold alignedLoc
          rw [if_pos ⟨by decide, halign⟩]
          exact aligned_dvd loc 2
        dsimp only
        omega
      · have hword := Mem.readLE_lt m (alignedLoc c loc 2) 2
        dsimp only
        unfold int16
        split <;> omega

theorem setAndPassJump_keeps {loc loc' : Nat} (h : setAndPassJump c s loc = .ok (s', loc')) :
    s'.freeData = s.freeData ∧ s'.trampolines = s.trampolines := by
  obtain ⟨vl, -, -, -, rfl⟩ := setAndPassJump_ok h
  exact ⟨rfl, rfl⟩

/-- What one step of `PatchOpcodes` adds to the free data: the body of a dev block. -/
theorem patchOpcode_cases {varCount varCount' rva : Nat}
    (h : patchOpcode c s varCount rva = .ok (s', varCount')) :
    s'.trampolines = s.trampolines ∧ (s'.freeData = s.freeData ∨
      ∃ body, IsDevBlock c s.mem rva body ∧ s'.freeData = s.freeData ++ [body]) := by
  unfold patchOpcode at h
  obtain ⟨⟨val, loc⟩, hget, h⟩ := ok_of_bind h
  dsimp only at h
  split at h
  · rename_i hop
    obtain ⟨body, hblock, h⟩ := ok_of_bind h
    cases body with
    | none =>
      cases h
      exact ⟨rfl, .inl rfl⟩
    | some body =>
      have hbody : IsDevBlock c s.mem rva body := ⟨val, loc, hget, hop, hblock⟩
      dsimp only at h
      split at h
      · cases h
        exact ⟨rfl, .inr ⟨body, hbody, rfl⟩⟩
      · obtain ⟨⟨s₁, last⟩, hjump, h⟩ := ok_of_bind h
        obtain ⟨hfree, htramp⟩ := setAndPassJump_keeps hjump
        cases h
        exact ⟨htramp, .inr ⟨body, hbody, by dsimp only; rw [hfree]⟩⟩
  · split at h
    · cases h
      exact ⟨rfl, .inl rfl⟩
    · obtain ⟨⟨m, varCount₁⟩, -, h⟩ := ok_of_bind h
      cases h
      exact ⟨rfl, .inl rfl⟩

/-- The body of a dev block that `PatchOpcodes` comes to, in the script as it is then. -/
def Visits (c : Context) (opcodesLocs : List Nat) (s : State) (varCount : Nat)
    (body : FreeDataChunk) : Prop :=
  ∃ before rva after s₁ varCount₁, opcodesLocs = before ++ rva :: after ∧
    patchOpcodes c before s varCount = .ok (s₁, varCount₁) ∧ IsDevBlock c s₁.mem rva body

theorem Visits.cons {opcodesLocs : List Nat} {varCount varCount₁ rva : Nat} {s₁ : State}
    {body : FreeDataChunk} (hstep : patchOpcode c s varCount rva = .ok (s₁, varCount₁))
    (h : Visits c opcodesLocs s₁ varCount₁ body) : Visits c (rva :: opcodesLocs) s varCount body := by
  obtain ⟨before, rva', after, s₂, varCount₂, rfl, hbefore, hbody⟩ := h
  refine ⟨rva :: before, rva', after, s₂, varCount₂, rfl, ?_, hbody⟩
  rw [patchOpcodes, hstep]
  exact hbefore

/-- The free data are bodies of dev blocks. -/
theorem patchOpcodes_freeData {opcodesLocs : List Nat} {varCount varCount' : Nat}
    (h : patchOpcodes c opcodesLocs s varCount = .ok (s', varCount')) :
    s'.trampolines = s.trampolines ∧
      ∀ k ∈ s'.freeData, k ∈ s.freeData ∨ Visits c opcodesLocs s varCount k := by
  induction opcodesLocs generalizing s varCount with
  | nil =>
    cases h
    exact ⟨rfl, fun k hk => .inl hk⟩
  | cons rva opcodesLocs ih =>
    rw [patchOpcodes] at h
    obtain ⟨⟨s₁, varCount₁⟩, hstep, hrest⟩ := ok_of_bind h
    obtain ⟨htramp, hfree⟩ := ih hrest
    obtain ⟨htramp₁, hfree₁⟩ := patchOpcode_cases hstep
    refine ⟨htramp.trans htramp₁, ?_⟩
    intro k hk
    rcases hfree k hk with hold | hvisit
    · rcases hfree₁ with heq | ⟨body, hbody, heq⟩
      · rw [heq] at hold
        exact .inl hold
      · rw [heq] at hold
        rcases List.mem_append.mp hold with hold | hnew
        · exact .inl hold
        · rcases List.mem_singleton.mp hnew with rfl
          exact .inr ⟨[], rva, opcodesLocs, s, varCount, rfl, rfl, hbody⟩
    · exact .inr (hvisit.cons hstep)

/-- The order of the free data behind the sort. -/
structure Sorts (sorted chunks : List FreeDataChunk) : Prop where
  perm : sorted.Perm chunks
  sorted : sorted.Pairwise fun a b => a.rva ≤ b.rva

/-- Before the first trampoline. -/
theorem inv_init {opcodesLocs : List Nat} {varCount : Nat} {m : Mem}
    {sorted : List FreeDataChunk}
    (h : patchOpcodes c opcodesLocs ⟨m, [], 0, []⟩ 1 = .ok (s, varCount))
    (hsort : Sorts sorted s.freeData) : Inv c sorted { s with freeData := sorted } := by
  obtain ⟨htramp, hfree⟩ := patchOpcodes_freeData h
  have hbody : ∀ k ∈ sorted, k.start = k.rva ∧ EvenAt c k.rva ∧ k.len ≤ 32767 := by
    intro k hk
    rcases hfree k (hsort.perm.mem_iff.mp hk) with hnil | hvisit
    · cases hnil
    · obtain ⟨-, -, -, s₁, -, -, -, val, loc, -, -, hblock⟩ := hvisit
      exact devBlock_spec hblock
  refine ⟨?_, ?_, ?_⟩
  · intro k hk
    obtain ⟨hstart, heven, hlen⟩ := hbody k hk
    exact ⟨heven, ⟨k, hk, hstart.symm, rfl⟩, .inl ⟨by omega, by omega⟩⟩
  · intro x
    constructor
    · rintro ⟨t, ht, -⟩
      rw [htramp] at ht
      cases ht
    · rintro ⟨k, hk, hx⟩
      obtain ⟨hstart, -, -⟩ := hbody k hk
      unfold usedEnd at hx
      rw [if_pos (Nat.le_of_eq hstart)] at hx
      omega
  · intro t ht
    rw [htramp] at ht
    cases ht

/-! ## Result -/

/-- What the passes promise: every export reaches the code it had, through trampolines that share
no bytes and stand in bodies of dev blocks. -/
structure Sound (c : Context) (m : Mem) (opcodesLocs : List Nat) (addresses : List (UInt32 × Nat))
    (s : State) (exports : List GscExportData) : Prop where
  reaches : List.Forall₂ (fun a exp => Reaches c s.mem exp.address a.1.toNat) addresses exports
  apart : s.trampolines.Pairwise Apart
  skipped : ∀ t ∈ s.trampolines, ∃ body, Visits c opcodesLocs ⟨m, [], 0, []⟩ 1 body ∧
    body.rva ≤ t.1 ∧ t.2 ≤ body.rva + body.len

/-- **The passes keep their promise exactly when every step is fine.** -/
theorem sound_iff {m : Mem} {opcodesLocs : List Nat} {addresses : List (UInt32 × Nat)}
    {s₁ s₂ : State} {varCount : Nat} {sorted : List FreeDataChunk} {exports : List GscExportData}
    (hpatch : patchOpcodes c opcodesLocs ⟨m, [], 0, []⟩ 1 = .ok (s₁, varCount))
    (hsort : Sorts sorted s₁.freeData)
    (hrun : createTrampolines c (addresses.map fun a => exportAt a.1 a.2)
      { s₁ with freeData := sorted } = .ok (s₂, exports)) :
    Sound c m opcodesLocs addresses s₂ exports ↔
      StepsFine c (addresses.map fun a => exportAt a.1 a.2) { s₁ with freeData := sorted } := by
  have hinv := inv_init hpatch hsort
  obtain ⟨htramp, hfree⟩ := patchOpcodes_freeData hpatch
  have hapart : (State.trampolines { s₁ with freeData := sorted }).Pairwise Apart := by
    show s₁.trampolines.Pairwise Apart
    rw [htramp]
    exact .nil
  have hexports : ∀ exp ∈ addresses.map fun a => exportAt a.1 a.2,
      exp.address = exp.bc ∧ exp.bc < 2 ^ 32 := by
    intro exp hexp
    obtain ⟨a, -, rfl⟩ := List.mem_map.mp hexp
    exact ⟨rfl, a.1.toNat_lt⟩
  have hiff := run_iff hinv hapart hexports hrun
  constructor
  · intro hsound
    exact hiff.mp ⟨List.forall₂_map_left_iff.mpr hsound.reaches, hsound.apart⟩
  · intro hfine
    obtain ⟨hreaches, hapart'⟩ := hiff.mpr hfine
    refine ⟨List.forall₂_map_left_iff.mp hreaches, hapart', ?_⟩
    intro t ht
    obtain ⟨body, hbody, hstart, hend⟩ := run_inside hinv hfine hrun t ht
    rcases hfree body (hsort.perm.mem_iff.mp hbody) with hnil | hvisit
    · cases hnil
    · exact ⟨body, hvisit, hstart, hend⟩

/-! ## Scripts -/

/-- A VM with the opcodes of one or two bytes, `0x67` and `0x45`. -/
def exampleVm (u16OpCodes alignedCode : Bool) : VmInfo where
  u16OpCodes := u16OpCodes
  alignedCode := alignedCode
  varId := false
  hash64 := false
  noParamFlags := false
  hashVarArg := 0
  hashVarArgCount := 0
  lookupOpCode val := if val = 0x67 then .devblockBegin else if val = 0x45 then .jump else .other
  jumpIds := [0x45]
  lookup_jump id hid := by
    rcases List.mem_singleton.mp hid with rfl
    rfl
  jump_lt id hid := by
    rcases List.mem_singleton.mp hid with rfl
    cases u16OpCodes <;> decide

def exampleContext (u16OpCodes alignedCode : Bool) : Context where
  vm := exampleVm u16OpCodes alignedCode
  scriptLen := 0xA000
  noDevOpCodeReplace := false
  noRemoveLocals := false
  hashVal n := n
  rand _ := 0

/-- A script that starts with these bytes. -/
def exampleMem (bytes : List UInt8) : Mem := fun i => bytes.getD i 0

/-- The passes, where the free data are in order already. -/
def runPasses (c : Context) (m : Mem) (opcodesLocs : List Nat) (addresses : List (UInt32 × Nat)) :
    Except Error (State × State × List GscExportData) := do
  let (s₁, _) ← patchOpcodes c opcodesLocs ⟨m, [], 0, []⟩ 1
  let (s₂, exports) ← createTrampolines c (addresses.map fun a => exportAt a.1 a.2) s₁
  return (s₁, s₂, exports)

theorem runPasses_ok {m : Mem} {opcodesLocs : List Nat} {addresses : List (UInt32 × Nat)}
    {s₁ s₂ : State} {exports : List GscExportData}
    (h : runPasses c m opcodesLocs addresses = .ok (s₁, s₂, exports)) :
    ∃ varCount, patchOpcodes c opcodesLocs ⟨m, [], 0, []⟩ 1 = .ok (s₁, varCount) ∧
      createTrampolines c (addresses.map fun a => exportAt a.1 a.2)
        { s₁ with freeData := s₁.freeData } = .ok (s₂, exports) := by
  obtain ⟨⟨s, varCount⟩, hpatch, h⟩ := ok_of_bind h
  obtain ⟨⟨s', exports'⟩, hrun, h⟩ := ok_of_bind h
  cases h
  exact ⟨varCount, hpatch, hrun⟩

instance (m : Mem) (address target : Nat) : Decidable (Reaches c m address target) :=
  inferInstanceAs (Decidable (_ ∨ _))

/-- The passes succeed, and break their promise. -/
def Broken (c : Context) (m : Mem) (opcodesLocs : List Nat) (addresses : List (UInt32 × Nat)) :
    Prop :=
  ∃ s₁ varCount sorted s₂ exports,
    patchOpcodes c opcodesLocs ⟨m, [], 0, []⟩ 1 = .ok (s₁, varCount) ∧
    Sorts sorted s₁.freeData ∧
    createTrampolines c (addresses.map fun a => exportAt a.1 a.2)
      { s₁ with freeData := sorted } = .ok (s₂, exports) ∧
    ¬Sound c m opcodesLocs addresses s₂ exports

/-- A run in which an export is not reached. -/
theorem broken_of_run {m : Mem} {opcodesLocs : List Nat} {addresses : List (UInt32 × Nat)}
    (h : (runPasses c m opcodesLocs addresses).toOption.any (fun r =>
      decide (r.1.freeData.Pairwise fun a b => a.rva ≤ b.rva) &&
      (addresses.zip r.2.2).any fun p =>
        !decide (Reaches c r.2.1.mem p.2.address p.1.1.toNat)) = true) :
    Broken c m opcodesLocs addresses := by
  obtain ⟨⟨s₁, s₂, exports⟩, hrun, hcheck⟩ := (Option.any_eq_true _ _).mp h
  obtain ⟨hsorted, hmissed⟩ := (Bool.and_eq_true _ _).mp hcheck
  obtain ⟨varCount, hpatch, hrun⟩ := runPasses_ok (ok_of_toOption hrun)
  refine ⟨s₁, varCount, s₁.freeData, s₂, exports, hpatch,
    ⟨.refl _, of_decide_eq_true hsorted⟩, hrun, ?_⟩
  intro hsound
  obtain ⟨p, hp, hnot⟩ := List.any_eq_true.mp hmissed
  have hreach := (List.forall₂_iff_zip.mp hsound.reaches).2 hp
  rw [decide_eq_true hreach] at hnot
  cases hnot

/-- One dev block in front of the code of an export. -/
def oneBlock : Mem := exampleMem [0x67, 0, 4, 0]

theorem oneBlock_sound : ∃ s₁ varCount sorted s₂ exports,
    patchOpcodes (exampleContext true true) [0] ⟨oneBlock, [], 0, []⟩ 1 = .ok (s₁, varCount) ∧
    Sorts sorted s₁.freeData ∧ s₂.trampolines = [(4, 8)] ∧
    createTrampolines (exampleContext true true) ([(8, 0)].map fun a => exportAt a.1 a.2)
      { s₁ with freeData := sorted } = .ok (s₂, exports) ∧
    Sound (exampleContext true true) oneBlock [0] [(8, 0)] s₂ exports := by
  have h : (runPasses (exampleContext true true) oneBlock [0] [(8, 0)]).toOption.any (fun r =>
      decide (r.1.freeData = [⟨4, 4, 4⟩]) && decide (r.2.1.trampolines = [(4, 8)])) = true := by
    decide +kernel
  obtain ⟨⟨s₁, s₂, exports⟩, hrun, hcheck⟩ := (Option.any_eq_true _ _).mp h
  obtain ⟨hfree, htramp⟩ := (Bool.and_eq_true _ _).mp hcheck
  have hfree : s₁.freeData = [⟨4, 4, 4⟩] := of_decide_eq_true hfree
  obtain ⟨varCount, hpatch, hrun⟩ := runPasses_ok (ok_of_toOption hrun)
  have hsort : Sorts s₁.freeData s₁.freeData := ⟨.refl _, by rw [hfree]; decide⟩
  refine ⟨s₁, varCount, s₁.freeData, s₂, exports, hpatch, hsort, of_decide_eq_true htramp, hrun,
    (sound_iff hpatch hsort hrun).mpr (.inr ⟨?_, fun _ _ _ => trivial⟩)⟩
  intro before chunk after hfetch
  have hchunk : fetchNearFreeDataChunk (exampleContext true true) 8 [⟨4, 4, 4⟩] =
      some ([], ⟨4, 4, 4⟩, []) := by decide
  have hfetch' : fetchNearFreeDataChunk (exampleContext true true) 8 s₁.freeData =
      some (before, chunk, after) := hfetch
  rw [hfree, hchunk] at hfetch'
  cases hfetch'
  refine ⟨.inl fun _ => rfl, by decide, by decide, ?_⟩
  intro k hk x hx
  have hk' : k ∈ s₁.freeData := hk
  rw [hfree] at hk'
  rcases List.mem_singleton.mp hk' with rfl
  have hused : usedEnd ⟨4, 4, 4⟩ = 4 := by decide
  rw [hused] at hx
  dsimp only at hx
  omega

/-- Opcodes of one byte in aligned code: the trampoline leads one byte too far.  Dev blocks that
nest: the fourth trampoline takes the bytes of the second one.  A chunk whose end is near enough:
its start is not. -/
theorem broken :
    Broken (exampleContext false true) (exampleMem [0x67, 0, 6, 0]) [0] [(10, 0)] ∧
    Broken (exampleContext true true) (exampleMem [0x67, 0, 12, 0, 0x67, 0, 8, 0]) [0, 4]
      [(16, 0), (18, 0), (20, 0), (22, 0)] ∧
    Broken (exampleContext true true) (exampleMem [0x67, 0, 8, 0]) [0] [(32779, 0)] :=
  ⟨broken_of_run (by decide +kernel), broken_of_run (by decide +kernel),
    broken_of_run (by decide +kernel)⟩

end Acts.Gsc.Obfuscator
