import Mathlib.Algebra.Group.Int.Defs
import Mathlib.Algebra.Group.Nat.Defs
import Mathlib.Algebra.GroupWithZero.Nat
import Mathlib.Data.Nat.Digits.Lemmas
import Mathlib.Tactic.Common

/-!
# Expanding a dictionary (`text_expand.cpp`)

* `dict` — the entries and the terminator behind them.
* `fill`, `expand` — the entries that an index stands for, in a buffer of 256 cells.
* `getDynamicPtr` — the loop over all indices below `max`.
* `wordOf` — the word of an index: its digits, cut at the first zero.
* `wordOf_visits` — **below `(m + 1) ^ L` the words are those of at most `L` entries.**
* `expand_eq`, `getDynamicPtr_eq` — **the loop visits the word of each index, in its buffer.**
-/

set_option autoImplicit false

namespace Acts.Hashes.TextExpand

variable {α : Type}

/-- A buffer of entries; `none` is the terminator. -/
abbrev Buffer (α : Type) := List (Option α)

inductive ExpandError where
  /-- A cell behind the buffer is written. -/
  | overflow
  deriving DecidableEq, Repr

/-! ## The source -/

section Source

variable (dict : List (Option α))

/-- `while (v) { buffer[idx++] = dict[(v - 1) % n]; v /= n; }`, where `n` is the size of the
dictionary with its terminator. -/
def fill : Nat → Nat → Nat → Buffer α → Except ExpandError (Buffer α × Nat)
  | 0, _, _, _ => .error .overflow
  | cells + 1, v, idx, buffer =>
    if v = 0 then .ok (buffer, idx)
    else if idx < buffer.length then
      fill cells (v / dict.length) (idx + 1)
        (buffer.set idx (dict.getD ((v - 1) % dict.length) none))
    else .error .overflow

/-- The buffer that is visited for an index. -/
def expand (i : Nat) (buffer : Buffer α) : Except ExpandError (Buffer α) := do
  let (buffer, idx) ← fill dict (buffer.length + 1) i 0 buffer
  if idx < buffer.length then .ok (buffer.set idx none) else .error .overflow

/-- What is in front of the terminator. -/
def text : Buffer α → List α
  | some x :: cells => x :: text cells
  | _ => []

/-- The loop from `i` on, `turns` times. -/
def dynamicLoop : Nat → Nat → Buffer α → Except ExpandError (List (List α))
  | 0, _, _ => .ok []
  | turns + 1, i, buffer => do
    let buffer ← expand dict i buffer
    let words ← dynamicLoop turns (i + 1) buffer
    .ok (text buffer :: words)

def emptyBuffer : Buffer α := List.replicate 0x100 none

/-- The words that `func` is called with. -/
def getDynamicPtr (max : Nat) : Except ExpandError (List (List α)) :=
  dynamicLoop dict (max - 1) 1 emptyBuffer

end Source

/-- `m` entries and their terminator. -/
def dictOf (entries : List α) : List (Option α) := entries.map some ++ [none]

@[simp] theorem length_dictOf (entries : List α) :
    (dictOf entries).length = entries.length + 1 := by
  simp [dictOf]

/-! ## Words -/

section Words

variable (entries : List α)

/-- The cell of a digit: zero is the terminator. -/
def letter : Nat → Option α
  | 0 => none
  | d + 1 => entries[d]?

/-- The cells of an index. -/
def letters (i : Nat) : Buffer α := (Nat.digits (entries.length + 1) i).map (letter entries)

def wordOf (i : Nat) : List α := text (letters entries i)

variable {entries}

theorem text_append_none (cells rest : Buffer α) : text (cells ++ none :: rest) = text cells := by
  induction cells with
  | nil => rfl
  | cons c cells ih =>
    cases c with
    | none => rfl
    | some x => exact congrArg (x :: ·) ih

theorem text_map_some (w : List α) : text (w.map some) = w := by
  induction w with
  | nil => rfl
  | cons x w ih => exact congrArg (x :: ·) ih

theorem length_text_le (cells : Buffer α) : (text cells).length ≤ cells.length := by
  induction cells with
  | nil => exact Nat.le_refl 0
  | cons c cells ih =>
    cases c with
    | none => exact Nat.zero_le _
    | some x => exact Nat.succ_le_succ ih

theorem some_mem_of_mem_text {cells : Buffer α} {x : α} (h : x ∈ text cells) : some x ∈ cells := by
  induction cells with
  | nil => cases h
  | cons c cells ih =>
    cases c with
    | none => cases h
    | some y =>
      rcases List.mem_cons.1 h with rfl | h
      · exact List.mem_cons_self
      · exact List.mem_cons_of_mem _ (ih h)

theorem mem_of_letter {d : Nat} {x : α} (h : letter entries d = some x) : x ∈ entries := by
  cases d with
  | zero => cases h
  | succ d => exact List.mem_of_getElem? h

/-- An entry is the letter of a digit. -/
theorem exists_digit {x : α} (h : x ∈ entries) :
    ∃ d, 0 < d ∧ d < entries.length + 1 ∧ letter entries d = some x := by
  obtain ⟨k, hk, rfl⟩ := List.getElem_of_mem h
  exact ⟨k + 1, Nat.succ_pos k, by omega, List.getElem?_eq_getElem hk⟩

/-- Digits of a word, none of which is zero. -/
theorem exists_digits {w : List α} (h : ∀ x ∈ w, x ∈ entries) :
    ∃ ds : List Nat, (∀ d ∈ ds, 0 < d ∧ d < entries.length + 1) ∧
      ds.map (letter entries) = w.map some := by
  induction w with
  | nil => exact ⟨[], fun d hd => (List.not_mem_nil hd).elim, rfl⟩
  | cons x w ih =>
    obtain ⟨d, hpos, hlt, hd⟩ := exists_digit (h x List.mem_cons_self)
    obtain ⟨ds, hds, hmap⟩ := ih fun y hy => h y (List.mem_cons_of_mem _ hy)
    refine ⟨d :: ds, fun e he => ?_, ?_⟩
    · rcases List.mem_cons.1 he with rfl | he
      · exact ⟨hpos, hlt⟩
      · exact hds e he
    · rw [List.map_cons, List.map_cons, hd, hmap]

/-- **A word is cut out of an index below `(m + 1) ^ L` exactly when it has at most `L`
entries.** -/
theorem wordOf_visits {w : List α} (hw : w ≠ []) (L : Nat) :
    (∃ i, 1 ≤ i ∧ i < (entries.length + 1) ^ L ∧ wordOf entries i = w) ↔
      w.length ≤ L ∧ ∀ x ∈ w, x ∈ entries := by
  constructor
  · rintro ⟨i, hi, hlt, rfl⟩
    have hmem : ∀ x ∈ wordOf entries i, x ∈ entries := fun x hx => by
      obtain ⟨d, -, hd⟩ := List.mem_map.1 (some_mem_of_mem_text hx)
      exact mem_of_letter hd
    refine ⟨?_, hmem⟩
    obtain ⟨x, hx⟩ := List.exists_mem_of_ne_nil _ hw
    have hone := List.length_pos_of_mem (hmem x hx)
    have hlen := (Nat.digits_length_le_iff (by omega) i).2 hlt
    have hle := length_text_le (letters entries i)
    unfold letters at hle
    rw [List.length_map] at hle
    exact Nat.le_trans hle hlen
  · rintro ⟨hlen, hmem⟩
    obtain ⟨x, hx⟩ := List.exists_mem_of_ne_nil _ hw
    have hone := List.length_pos_of_mem (hmem x hx)
    obtain ⟨ds, hds, hmap⟩ := exists_digits hmem
    have hlends : ds.length = w.length := by
      have := congrArg List.length hmap
      rwa [List.length_map, List.length_map] at this
    have hlt : ∀ d ∈ ds, d < entries.length + 1 := fun d hd => (hds d hd).2
    have hdigits : Nat.digits (entries.length + 1) (Nat.ofDigits (entries.length + 1) ds) = ds :=
      Nat.digits_ofDigits _ (by omega) ds hlt fun hne =>
        Nat.ne_of_gt (hds _ (List.getLast_mem hne)).1
    have hbound := Nat.ofDigits_lt_base_pow_length (by omega) hlt
    refine ⟨Nat.ofDigits (entries.length + 1) ds, ?_, ?_, ?_⟩
    · rcases Nat.eq_zero_or_pos (Nat.ofDigits (entries.length + 1) ds) with hzero | hpos
      · rw [hzero, Nat.digits_zero] at hdigits
        rw [← hdigits] at hlends
        exact absurd (List.length_eq_zero_iff.1 hlends.symm) hw
      · exact hpos
    · exact Nat.lt_of_lt_of_le hbound (Nat.pow_le_pow_right (by omega) (by omega))
    · unfold wordOf letters
      rw [hdigits, hmap, text_map_some]

end Words

/-! ## The loop -/

section Loop

variable {entries : List α}

/-- The cell that the source takes for a digit. -/
theorem getD_dictOf {v : Nat} (hv : 0 < v) :
    (dictOf entries).getD ((v - 1) % (entries.length + 1)) none =
      letter entries (v % (entries.length + 1)) := by
  have hdiv := Nat.mod_add_div v (entries.length + 1)
  cases hd : v % (entries.length + 1) with
  | zero =>
    rw [hd, Nat.zero_add] at hdiv
    obtain ⟨q, hq⟩ : ∃ q, v / (entries.length + 1) = q + 1 := by
      refine ⟨v / (entries.length + 1) - 1, ?_⟩
      rcases Nat.eq_zero_or_pos (v / (entries.length + 1)) with hzero | hpos
      · rw [hzero, Nat.mul_zero] at hdiv
        omega
      · omega
    rw [hq, Nat.mul_succ] at hdiv
    have hlast : v - 1 = entries.length + (entries.length + 1) * q := by omega
    rw [hlast, Nat.add_mul_mod_self_left, Nat.mod_eq_of_lt (Nat.lt_succ_self _)]
    simp [dictOf, letter]
  | succ d =>
    rw [hd] at hdiv
    have hlt : d + 1 < entries.length + 1 := hd ▸ Nat.mod_lt v (Nat.succ_pos _)
    have hbefore : v - 1 = d + (entries.length + 1) * (v / (entries.length + 1)) := by omega
    rw [hbefore, Nat.add_mul_mod_self_left, Nat.mod_eq_of_lt (by omega)]
    have hd : d < entries.length := by omega
    simp [dictOf, letter, List.getElem?_append_left, hd]

theorem letters_zero : letters entries 0 = [] := by
  unfold letters
  rw [Nat.digits_zero, List.map_nil]

theorem letters_pos (hone : 0 < entries.length) {v : Nat} (hv : 0 < v) :
    letters entries v =
      letter entries (v % (entries.length + 1)) :: letters entries (v / (entries.length + 1)) := by
  unfold letters
  rw [Nat.digits_def' (by omega) hv, List.map_cons]

/-- **What is written for an index**, in the cells from `idx` on. -/
theorem fill_eq (hone : 0 < entries.length) {cells v idx : Nat} {buffer : Buffer α}
    (hcells : (letters entries v).length < cells)
    (hbuffer : idx + (letters entries v).length ≤ buffer.length) :
    fill (dictOf entries) cells v idx buffer =
      .ok (buffer.take idx ++ letters entries v ++
        buffer.drop (idx + (letters entries v).length), idx + (letters entries v).length) := by
  induction cells generalizing v idx buffer with
  | zero => omega
  | succ cells ih =>
    unfold fill
    rcases Nat.eq_zero_or_pos v with rfl | hv
    · rw [if_pos rfl, letters_zero, List.append_nil, List.length_nil, Nat.add_zero,
        List.take_append_drop]
    · rw [letters_pos hone hv, List.length_cons] at hcells hbuffer ⊢
      rw [if_neg (Nat.ne_of_gt hv), if_pos (by omega), length_dictOf, getD_dictOf hv,
        ih (by omega) (by rw [List.length_set]; omega), List.drop_set_of_lt (by omega)]
      have htake : (buffer.set idx (letter entries (v % (entries.length + 1)))).take (idx + 1) =
          buffer.take idx ++ [letter entries (v % (entries.length + 1))] := by
        rw [List.set_eq_take_append_cons_drop, if_pos (by omega), List.take_append,
          List.take_take, List.length_take, Nat.min_eq_right (Nat.le_succ idx),
          Nat.min_eq_left (show idx ≤ buffer.length by omega), Nat.add_sub_cancel_left,
          List.take_succ_cons, List.take_zero]
      rw [htake, Nat.add_assoc, Nat.add_comm 1]
      simp only [List.append_assoc, List.cons_append, List.nil_append]

/-- The number of entries of an index of 64 bits. -/
theorem length_letters_le (hone : 0 < entries.length) {i : Nat} (hi : i < 2 ^ 64) :
    (letters entries i).length ≤ 64 := by
  unfold letters
  rw [List.length_map, Nat.digits_length_le_iff (by omega)]
  exact Nat.lt_of_lt_of_le hi (Nat.pow_le_pow_left (by omega) 64)

/-- **The buffer holds the word of its index**, whatever was in it. -/
theorem expand_eq (hone : 0 < entries.length) {i : Nat} (hi : i < 2 ^ 64) {buffer : Buffer α}
    (hbuffer : buffer.length = 0x100) :
    ∃ buffer', expand (dictOf entries) i buffer = .ok buffer' ∧ buffer'.length = 0x100 ∧
      text buffer' = wordOf entries i := by
  have hlen := length_letters_le hone hi
  have hfill : fill (dictOf entries) (buffer.length + 1) i 0 buffer =
      .ok (buffer.take 0 ++ letters entries i ++ buffer.drop (0 + (letters entries i).length),
        0 + (letters entries i).length) := fill_eq hone (by omega) (by omega)
  rw [List.take_zero, List.nil_append, Nat.zero_add] at hfill
  unfold expand
  rw [hfill]
  simp only [bind, Except.bind]
  have hwhole : (letters entries i ++ buffer.drop (letters entries i).length).length = 0x100 := by
    rw [List.length_append, List.length_drop]
    omega
  rw [if_pos (by omega)]
  refine ⟨_, rfl, by rw [List.length_set, hwhole], ?_⟩
  rw [List.set_eq_take_append_cons_drop, if_pos (by omega), List.take_left, text_append_none]
  rfl

/-- **The loop visits the word of each index, in order.** -/
theorem dynamicLoop_eq (hone : 0 < entries.length) {turns i : Nat} (hi : i + turns ≤ 2 ^ 64)
    {buffer : Buffer α} (hbuffer : buffer.length = 0x100) :
    dynamicLoop (dictOf entries) turns i buffer =
      .ok ((List.range' i turns).map (wordOf entries)) := by
  induction turns generalizing i buffer with
  | zero => rfl
  | succ turns ih =>
    obtain ⟨buffer', hexpand, hbuffer', htext⟩ := expand_eq hone (show i < 2 ^ 64 by omega) hbuffer
    unfold dynamicLoop
    rw [hexpand]
    simp only [bind, Except.bind]
    rw [ih (by omega) hbuffer', htext, List.range'_succ, List.map_cons]

theorem getDynamicPtr_eq (hone : 0 < entries.length) {max : Nat} (hmax : max < 2 ^ 64) :
    getDynamicPtr (dictOf entries) max =
      .ok ((List.range' 1 (max - 1)).map (wordOf entries)) :=
  dynamicLoop_eq hone (by omega) List.length_replicate

end Loop

end Acts.Hashes.TextExpand
