import Acts.Core.ByteBufferFind
import Acts.Lib.Fetch
import Acts.Lib.Replace
import Acts.Vm.Loader

/-!
# Private hashes (`gsc_obfuscator_handler.cpp`)

`ApplyPrivateHashes` overwrites the hashes of private strings, wherever their bytes are.

* `replaceFound`, `applyPrivateHashes` — the loops; a number bounds the rounds of `while`.
* `rules` — the words that are searched for, with those that replace them.
* `replaceFound_eq`, `applyPrivateHashes_eq` — the loops are those of `Replace`.
* `applyPrivateHashes_replaced` — **all is replaced where no places overlap and no replacement makes
  a hash.**
* `replaceFound_ends_iff` — when the search for one hash ends.

The buffer is at its start.  The hash functions of the VM are a parameter.
-/

set_option autoImplicit false

namespace Acts.Gsc.Obfuscator.PrivateHashes

open Core.Bytebuffer Fetch Replace

/-- `VmHashFunc`. -/
structure VmHashFunc where
  type : Char
  size : Nat
  hashFunc : List UInt8 → UInt64

/-- The script, with the private hashes and the hash functions in the orders of their tables. -/
structure Setup where
  hashes : List (List UInt8 × UInt32)
  hashesFunc : List VmHashFunc
  scriptLen : Nat
  scriptLen_lt : scriptLen + 1 < 2 ^ 64

variable (c : Setup)

/-- `hashBytes`: what is searched for; `none` where the size is invalid. -/
def hashBytes (func : VmHashFunc) (str : List UInt8) : Option (List UInt8) :=
  let h64 := (func.hashFunc str).toNat
  if func.size = 4 then some (leBytes 4 (h64 % 2 ^ 32))
  else if func.size ≠ 8 then none
  else some (leBytes 8 h64)

/-- `script[off] = val`. -/
def writeVal (m : Mem) (size off : Nat) (val : UInt32) : Mem :=
  if size = 8 then m.writeLE off val.toNat 8
  else if size = 4 then m.writeLE off val.toNat 4
  else m

/-- `while ((off = bb.Find((byte*)&hashBytes, func.size)) != npos)`; `none` where it has not
ended. -/
def replaceFound (needle : List UInt8) (size : Nat) (val : UInt32) : Nat → Mem → Option Mem
  | 0, _ => none
  | fuel + 1, m =>
    match find ⟨m, c.scriptLen, c.scriptLen_lt⟩ 0 needle 0 with
    | none => none
    | some off =>
      if off = npos then some m else replaceFound needle size val fuel (writeVal m size off val)

def applyHash (fuel : Nat) (str : List UInt8) (val : UInt32) (m : Mem) (func : VmHashFunc) :
    Option Mem :=
  match hashBytes func str with
  | none => some m
  | some needle => replaceFound c needle func.size val fuel m

/-- `ApplyPrivateHashes`. -/
def applyPrivateHashes (fuel : Nat) (m : Mem) : Option Mem :=
  c.hashes.foldlM (fun m hash => c.hashesFunc.foldlM (applyHash c fuel hash.1 hash.2) m) m

/-! ## The words -/

theorem val_lt (val : UInt32) {size : Nat} (h : size = 4 ∨ size = 8) : val.toNat < 256 ^ size := by
  have hval := val.toNat_lt
  rcases h with rfl | rfl
  · exact hval
  · exact Nat.lt_trans hval (by decide)

/-- A hash of a private string, and what replaces it. -/
def rule? (hash : List UInt8 × UInt32) (func : VmHashFunc) : Option Rule :=
  if h : func.size = 4 ∨ func.size = 8 then
    some ⟨func.size, (func.hashFunc hash.1).toNat % 256 ^ func.size, hash.2.toNat, by omega,
      val_lt hash.2 h⟩
  else none

def rules : List Rule := c.hashes.flatMap fun hash => c.hashesFunc.filterMap (rule? hash)

section Loops

variable {c} {m : Mem} {r : Rule}

theorem isAt_iff {b : ByteBuffer} {needle : List UInt8} {q : Nat} :
    isAt b needle q = true ↔ Holds b.memory q needle := by
  unfold isAt bytesAt Holds
  rw [decide_eq_true_eq]
  constructor
  · intro h i hi
    have hget := congrArg (·[i]?) h
    simp only [List.getElem?_map, List.getElem?_range hi, Option.map_some,
      List.getElem?_eq_getElem hi] at hget
    exact Option.some.inj hget
  · intro h
    apply List.ext_getElem
    · rw [List.length_map, List.length_range]
    · intro i hi hi'
      rw [List.getElem_map, List.getElem_range]
      exact h i hi'

/-- The occurrences of a word are the places of its rule. -/
theorem occurrences_eq (hold : r.old < 256 ^ r.size) :
    occurrences ⟨m, c.scriptLen, c.scriptLen_lt⟩ (leBytes r.size r.old) 0 =
      r.places c.scriptLen m := by
  unfold occurrences positions Rule.places
  rw [length_leBytes, Nat.zero_add, ← List.range_eq_range']
  apply List.filter_congr
  intro q _
  rw [Bool.eq_iff_iff, isAt_iff, decide_eq_true_eq]
  exact (readLE_eq_iff hold).symm

theorem find_eq (hold : r.old < 256 ^ r.size) (hsize : r.size ≤ 8) :
    find ⟨m, c.scriptLen, c.scriptLen_lt⟩ 0 (leBytes r.size r.old) 0 =
      some ((r.places c.scriptLen m).headD npos) := by
  have hwrap : NoWrap ⟨m, c.scriptLen, c.scriptLen_lt⟩ 0 (leBytes r.size r.old).length := by
    rw [length_leBytes]
    exact .inl (by omega)
  rw [(searches_one ⟨.inl rfl, hwrap, .inl hwrap⟩).1, Nat.add_zero, occurrences_eq hold]

/-- What a rule is made of. -/
theorem rule?_some {hash : List UInt8 × UInt32} {func : VmHashFunc} (h : rule? hash func = some r) :
    (r.size = 4 ∨ r.size = 8) ∧ r.old < 256 ^ r.size ∧ func.size = r.size ∧
      hashBytes func hash.1 = some (leBytes r.size r.old) ∧ hash.2.toNat = r.new := by
  unfold rule? at h
  split at h
  · rename_i hsize
    cases h
    refine ⟨hsize, Nat.mod_lt _ (by rcases hsize with h | h <;> rw [h] <;> decide), rfl, ?_, rfl⟩
    unfold hashBytes
    rcases hsize with h | h
    · dsimp only
      rw [if_pos h, h]
      rfl
    · dsimp only
      rw [if_neg (by omega), if_neg (by omega), h, leBytes_mod]
  · cases h

theorem rule?_none {hash : List UInt8 × UInt32} {func : VmHashFunc} (h : rule? hash func = none) :
    hashBytes func hash.1 = none := by
  unfold rule? at h
  split at h
  · cases h
  · rename_i hsize
    unfold hashBytes
    rw [if_neg (by omega), if_pos (by omega)]

theorem writeVal_eq (hsize : r.size = 4 ∨ r.size = 8) {val : UInt32} (hval : val.toNat = r.new)
    (q : Nat) : writeVal m r.size q val = replaceAt m (r, q) := by
  unfold writeVal replaceAt
  rw [hval]
  rcases hsize with h | h
  · rw [if_neg (by omega), if_pos h, h]
  · rw [if_pos h, h]

/-- **The search for a hash is the loop of its rule.** -/
theorem replaceFound_eq (hsize : r.size = 4 ∨ r.size = 8) (hold : r.old < 256 ^ r.size)
    {val : UInt32} (hval : val.toNat = r.new) (fuel : Nat) (m : Mem) :
    replaceFound c (leBytes r.size r.old) r.size val fuel m = replaceLoop c.scriptLen r fuel m := by
  induction fuel generalizing m with
  | zero => rfl
  | succ fuel ih =>
    unfold replaceFound replaceLoop
    rw [find_eq hold (by omega)]
    cases hplaces : r.places c.scriptLen m with
    | nil => rfl
    | cons q qs =>
      have hq : q ∈ r.places c.scriptLen m := by
        rw [hplaces]
        exact List.mem_cons_self
      have hfit := (mem_places.mp hq).1
      have hlen := c.scriptLen_lt
      have hne : q ≠ npos := by
        unfold npos
        omega
      dsimp only [List.headD_cons, List.head?_cons]
      rw [if_neg hne, writeVal_eq hsize hval]
      exact ih _

theorem foldlM_filterMap_rule (fuel : Nat) (hash : List UInt8 × UInt32) (funcs : List VmHashFunc)
    (m : Mem) :
    funcs.foldlM (applyHash c fuel hash.1 hash.2) m =
      replaceLoops c.scriptLen fuel (funcs.filterMap (rule? hash)) m := by
  induction funcs generalizing m with
  | nil => rfl
  | cons func funcs ih =>
    rw [List.foldlM_cons]
    unfold applyHash
    cases hrule : rule? hash func with
    | none =>
      rw [rule?_none hrule, List.filterMap_cons_none hrule]
      exact ih m
    | some r =>
      obtain ⟨hsize, hold, hfunc, hbytes, hval⟩ := rule?_some hrule
      rw [hbytes, List.filterMap_cons_some hrule, hfunc]
      unfold replaceLoops
      rw [List.foldlM_cons]
      dsimp only
      rw [replaceFound_eq hsize hold hval]
      congr 1
      funext m'
      exact ih m'

theorem replaceLoops_append (len fuel : Nat) (rules rules' : List Rule) (m : Mem) :
    replaceLoops len fuel (rules ++ rules') m =
      replaceLoops len fuel rules m >>= replaceLoops len fuel rules' := by
  unfold replaceLoops
  rw [List.foldlM_append]

/-- **The loops are those of the rules.** -/
theorem applyPrivateHashes_eq (c : Setup) (fuel : Nat) (m : Mem) :
    applyPrivateHashes c fuel m = replaceLoops c.scriptLen fuel (rules c) m := by
  unfold applyPrivateHashes rules
  generalize c.hashes = hashes
  induction hashes generalizing m with
  | nil => rfl
  | cons hash hashes ih =>
    rw [List.foldlM_cons, foldlM_filterMap_rule, List.flatMap_cons, replaceLoops_append]
    congr 1
    funext m'
    exact ih m'

end Loops

/-! ## What is replaced -/

/-- **All is replaced where no places overlap and no replacement makes a hash**: the loops end,
every place of a private hash holds its value, and no other byte is changed. -/
theorem applyPrivateHashes_replaced (c : Setup) (m : Mem)
    (h : Replaceable c.scriptLen m (rules c)) :
    ∃ fuel m', applyPrivateHashes c fuel m = some m' ∧ Replaced c.scriptLen (rules c) m m' := by
  obtain ⟨m', hrun, hreplaced⟩ := Replaceable.replaced c.scriptLen h (Nat.lt_succ_self _)
  exact ⟨c.scriptLen + 1, m', (applyPrivateHashes_eq c _ m).trans hrun, hreplaced⟩

/-- **The search for one hash ends exactly where its value is another word**, or where it stands
nowhere. -/
theorem replaceFound_ends_iff (c : Setup) (r : Rule) (hsize : r.size = 4 ∨ r.size = 8)
    (hold : r.old < 256 ^ r.size) (val : UInt32) (hval : val.toNat = r.new) (m : Mem) :
    (∃ fuel m', replaceFound c (leBytes r.size r.old) r.size val fuel m = some m') ↔
      r.old ≠ r.new ∨ r.places c.scriptLen m = [] := by
  simp only [replaceFound_eq hsize hold hval]
  exact replaceLoop_ends_iff c.scriptLen r m

/-! ## Two scripts -/

/-- `Hash64A`, with its start. -/
def hash64From (iv : UInt64) (hash : UInt64) (str : List UInt8) : UInt64 :=
  str.foldl (fun hash c => (hash ^^^ Vm.Loader.lowerc c) * iv) hash

/-- `HashSecure`. -/
def hashSecure (pattern : List UInt8) (start iv : UInt64) : List UInt8 → UInt64
  | [] => 0
  | c :: str => hash64From iv (hash64From iv ((start ^^^ Vm.Loader.lowerc c) * iv) pattern) str

/-- `HashIWDVar`; the pattern is `XHASHSEC_DVAR_STR`. -/
def hashIWDVar : List UInt8 → UInt64 :=
  hashSecure "q6n-+7=tyytg94_*".toUTF8.toList 0xD86A3B09566EBAAC 0x10000000233

def hashFuncDVar : VmHashFunc := ⟨'@', 8, hashIWDVar⟩

/-- A script of 16 bytes, with one private hash. -/
def setupDVar (str : List UInt8) (val : UInt32) : Setup where
  hashes := [(str, val)]
  hashesFunc := [hashFuncDVar]
  scriptLen := 16
  scriptLen_lt := by decide

/-- The hash of `a`, from the fourth byte on. -/
def scriptOfA : Mem := Mem.writeLE (fun _ => 1) 4 (hashIWDVar [0x61]).toNat 8

theorem scriptOfA_replaced :
    ∃ fuel m', applyPrivateHashes (setupDVar [0x61] 7) fuel scriptOfA = some m' ∧
      Replaced 16 (rules (setupDVar [0x61] 7)) scriptOfA m' :=
  applyPrivateHashes_replaced (setupDVar [0x61] 7) scriptOfA
    ⟨by decide +kernel, by decide +kernel⟩

/-- The hash of the empty string is 0, and its places overlap in a row of zeros. -/
theorem zeros_not_replaced :
    ¬∃ fuel m', applyPrivateHashes (setupDVar [] 5) fuel (fun _ => 0) = some m' ∧
      Replaced 16 (rules (setupDVar [] 5)) (fun _ => 0) m' := by
  rintro ⟨fuel, m', hrun, hreplaced⟩
  -- the value is written over the zeros of the last one, again and again
  have hend : (applyPrivateHashes (setupDVar [] 5) 20 fun _ => 0).map (fun m => m.readLE 0 8) =
      some 0x0505050505050505 := by
    decide +kernel
  obtain ⟨m₁, hrun₁, hword⟩ := Option.map_eq_some_iff.mp hend
  rw [applyPrivateHashes_eq] at hrun hrun₁
  obtain rfl := replaceLoops_unique hrun hrun₁
  have hrule : ∃ r ∈ rules (setupDVar [] 5), r.size = 8 ∧ r.old = 0 := by decide +kernel
  have hnew : ∀ r ∈ rules (setupDVar [] 5), r.new = 5 := by decide +kernel
  obtain ⟨r, hr, hsize, hold⟩ := hrule
  have hat : r.At 16 (fun _ => 0) 0 := by
    unfold Rule.At
    rw [hsize, hold]
    decide
  obtain ⟨r', hr', -, hvalue⟩ := hreplaced.word r hr 0 hat
  rw [hsize, hword, hnew r' hr'] at hvalue
  cases hvalue

end Acts.Gsc.Obfuscator.PrivateHashes
