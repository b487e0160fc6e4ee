import Acts.Hook.Scan

/-!
# Patterns that are written for a scan (`hook/library.cpp`)

* `Written` — a sequence of bytes and wildcards, as a text with white space between its tokens.
* `createScanPattern`, `scanLibraryString` — the two functions that print bytes.
* `PacksTo` — what packing the text of such a sequence gives.
* `pattern_exact_iff` — **a text packs to the sequence it was written for exactly when it was
  written by hand, or by `ScanLibraryString` for bytes below 0x80.**
-/

set_option autoImplicit false

namespace Acts.Hook

/-! ## Tokens -/

inductive Token where
  | byte (b : UInt8)
  | wildcard

namespace Token

/-- A digit, small or capital. -/
def Digit (n c : UInt8) : Prop :=
  if n < 10 then c = 0x30 + n else c = 0x57 + n ∨ c = 0x37 + n

instance (n c : UInt8) : Decidable (Digit n c) := by
  unfold Digit
  infer_instance

/-- The texts of a token. -/
def Text : Token → Pattern → Prop
  | byte b, x => ∃ high low, x = [high, low] ∧ Digit (b >>> 4) high ∧ Digit (b &&& 0xF) low
  | wildcard, x => x = [0x3F] ∨ x = [0x3F, 0x3F]

def isWildcard : Token → Bool
  | byte _ => false
  | wildcard => true

def cell : Token → Cell
  | byte b => ⟨0xFF, b⟩
  | wildcard => ⟨0, 0⟩

end Token

def Spaces (str : Pattern) : Prop := ∀ c ∈ str, isspace c = true

/-- The text is over, or goes on with a space. -/
def AtSpace : Pattern → Prop
  | [] => True
  | c :: _ => isspace c = true

/-- The tokens, with white space between them, and in front and behind. -/
inductive Written : List Token → Pattern → Prop where
  | nil {spaces : Pattern} : Spaces spaces → Written [] spaces
  | cons {t : Token} {tokens : List Token} {spaces x rest : Pattern} : Spaces spaces →
    t.Text x → Written tokens rest → AtSpace rest → Written (t :: tokens) (spaces ++ x ++ rest)

/-- The scan has a full mask for the bytes, which it starts and ends with. -/
structure PacksTo (tokens : List Token) (scan : PackedScan) : Prop where
  delta : scan.delta = (tokens.takeWhile Token.isWildcard).length
  cells : ∃ n, tokens.map Token.cell =
    List.replicate scan.delta ⟨0, 0⟩ ++ scan.cells ++ List.replicate n ⟨0, 0⟩
  first : scan.first.mask = 0xFF
  last : (scan.cells.getLast (List.cons_ne_nil _ _)).mask = 0xFF

/-! ## Printers -/

/-- A digit of `%x`. -/
def hexDigit (n : UInt32) : UInt8 := if n < 10 then 0x30 + n.toUInt8 else 0x57 + n.toUInt8

/-- `%02x`: eight digits without the zeros in front, but two at least. -/
def format02x (v : UInt32) : Pattern :=
  let front := [v >>> 28, v >>> 24, v >>> 20, v >>> 16, v >>> 12, v >>> 8].map (· &&& 0xF)
  (front.dropWhile (· == 0) ++ [v >>> 4 &&& 0xF, v &&& 0xF]).map hexDigit

/-- What `snprintf` of `"%02x "` with a size of four writes before the NUL. -/
def snprintf4 (v : UInt32) : Pattern := (format02x v ++ [0x20]).take 3

/-- The loop of the printers: each turn overwrites the NUL of the turn before. -/
def printLoop (buffer : Pattern) : Nat → List UInt32 → Pattern
  | _, [] => buffer
  | i, v :: vs =>
    printLoop (buffer.take (3 * i) ++ (snprintf4 v ++ [0]) ++ buffer.drop (3 * i + 4)) (i + 1) vs

/-- The C string in a buffer. -/
def cstr (buffer : Pattern) : Pattern := buffer.takeWhile (· != 0)

/-- The text that is printed to a `std::string` for `len` bytes. -/
def printed (len : Nat) (values : List UInt32) : Pattern :=
  cstr (printLoop (List.replicate ((len + 1) * 3 + 1) 0) 0 values)

/-- A `const char*` to the text of a `std::string`, which may be destroyed. -/
inductive CString where
  | live (text : Pattern)
  | destroyed (text : Pattern)

def CString.packScan : CString → Except Failure PackedScan
  | live text => Hook.packScan text
  | destroyed _ => .error .accessViolation

/-- `CreateScanPattern`, which returns a pointer to the text of its own string. -/
def createScanPattern (data : List UInt8) : CString :=
  .destroyed (printed data.length (data.map UInt8.toUInt32))

/-- `(uint32_t)` of a `char`, which has a sign. -/
def charToUInt32 (c : UInt8) : UInt32 := c.toInt8.toInt32.toUInt32

/-- The pattern of `ScanLibraryString`, with the NUL of the string. -/
def stringPattern (str : List UInt8) : Pattern :=
  printed str.length ((str ++ [0]).map charToUInt32)

/-- `ScanLibraryString` -/
def scanLibraryString (p : Platform) (hmod : Int) (str : List UInt8) (single : Bool) :
    Except Failure (List Int) :=
  scanLibrary p hmod (stringPattern str) single

/-! ## Packing tokens -/

section Pack

variable {b c n : UInt8} {str x : Pattern} {cells : List Cell} {tokens : List Token}

/-- A property of bytes is a property of the numbers below 256. -/
theorem forall_byte {P : UInt8 → Prop} [DecidablePred P]
    (h : (List.range 256).all (fun k => decide (P (UInt8.ofNat k))) = true) (b : UInt8) : P b := by
  have hb : UInt8.ofNat b.toNat = b := UInt8.ofNat_toNat
  rw [← hb]
  exact of_decide_eq_true (List.all_eq_true.mp h b.toNat (List.mem_range.mpr b.toNat_lt))

theorem ctob_ok (h : ctob c = .ok n) : isspace c = false ∧ c ≠ 0x3F := by
  have hall : ∀ c : UInt8, (ctob c).toOption.isSome = true → isspace c = false ∧ c ≠ 0x3F :=
    forall_byte (by decide +kernel)
  refine hall c ?_
  rw [h]
  rfl

theorem ctob_digit (h : Token.Digit n c) (hn : n < 16) : ctob c = .ok n := by
  have hall : ∀ n : UInt8, n < 16 → (n < 10 → ctob (0x30 + n) = .ok n) ∧
      (¬n < 10 → ctob (0x57 + n) = .ok n ∧ ctob (0x37 + n) = .ok n) :=
    forall_byte (by decide +kernel)
  obtain ⟨hsmall, hlarge⟩ := hall n hn
  unfold Token.Digit at h
  split at h
  · rename_i hten
    rw [h]
    exact hsmall hten
  · rename_i hten
    rcases h with rfl | rfl
    · exact (hlarge hten).1
    · exact (hlarge hten).2

/-- A byte is its two digits. -/
theorem nibbles (b : UInt8) :
    b >>> 4 < 16 ∧ b &&& 0xF < 16 ∧ (b >>> 4) <<< 4 ||| (b &&& 0xF) = b := by
  have hall : ∀ b : UInt8, b >>> 4 < 16 ∧ b &&& 0xF < 16 ∧
      (b >>> 4) <<< 4 ||| (b &&& 0xF) = b := forall_byte (by decide +kernel)
  exact hall b

theorem parse_spaces {mid : Bool} (h : Spaces x) :
    parse (x ++ str) false mid cells = parse str false mid cells := by
  induction x with
  | nil => rfl
  | cons c x ih =>
    have hc : isspace c = true := h c List.mem_cons_self
    rw [List.cons_append, parse, if_neg Bool.false_ne_true, if_pos hc]
    exact ih (fun c' hc' => h c' (List.mem_cons_of_mem _ hc'))

theorem parse_digit_high (h : ctob c = .ok n) :
    parse (c :: str) false true cells = parse str false false (⟨0xF0, n <<< 4⟩ :: cells) := by
  obtain ⟨hspace, hwild⟩ := ctob_ok h
  rw [parse, if_neg Bool.false_ne_true, hspace, if_neg Bool.false_ne_true, if_neg hwild, h]
  exact if_pos rfl

theorem parse_digit_low {cell : Cell} (h : ctob c = .ok n) :
    parse (c :: str) false false (cell :: cells) =
      parse str false true (⟨cell.mask ||| 0xF, cell.searched ||| n⟩ :: cells) := by
  obtain ⟨hspace, hwild⟩ := ctob_ok h
  rw [parse, if_neg Bool.false_ne_true, hspace, if_neg Bool.false_ne_true, if_neg hwild, h]
  exact if_neg Bool.false_ne_true

/-- A token is packed to its cell. -/
theorem parse_token {t : Token} (h : t.Text x) (hspace : AtSpace str) :
    parse (x ++ str) false true cells = parse str false true (t.cell :: cells) := by
  cases t with
  | byte b =>
    obtain ⟨high, low, rfl, hhigh, hlow⟩ := h
    obtain ⟨hb, hb', hjoin⟩ := nibbles b
    have hmask : (0xF0 : UInt8) ||| 0xF = 0xFF := by decide
    rw [List.cons_append, List.singleton_append, parse_digit_high (ctob_digit hhigh hb),
      parse_digit_low (ctob_digit hlow hb'), hjoin, hmask]
    rfl
  | wildcard =>
    have hquestion : isspace 0x3F = false := by decide
    have hfirst : ∀ rest : Pattern, parse (0x3F :: rest) false true cells =
        parse rest (packedContext rest) true (⟨0, 0⟩ :: cells) := by
      intro rest
      rw [parse, if_neg Bool.false_ne_true, hquestion, if_neg Bool.false_ne_true, if_pos rfl,
        if_pos rfl]
    rcases h with rfl | rfl
    · -- a single `?`: what follows is no second one
      have hcontext : packedContext str = false := by
        cases str with
        | nil => rfl
        | cons c str =>
          have hc : isspace c = true := hspace
          have hne : c ≠ 0x3F := by
            rintro rfl
            rw [hquestion] at hc
            cases hc
          unfold packedContext
          split
          · rename_i heq
            cases heq
            exact absurd rfl hne
          · rename_i heq
            cases heq
            exact absurd rfl hne
          · rfl
      rw [List.singleton_append, hfirst, hcontext]
      rfl
    · have hcontext : packedContext (0x3F :: str) = true := by
        cases str with
        | nil => rfl
        | cons c str => exact hspace
      rw [List.cons_append, List.singleton_append, hfirst, hcontext, parse, if_pos rfl]
      rfl

/-- A text is packed to the cells of its tokens. -/
theorem parse_written (h : Written tokens str) (cells : List Cell) :
    parse str false true cells = .ok ((tokens.map Token.cell).reverse ++ cells) := by
  induction h generalizing cells with
  | nil hspaces =>
    rename_i spaces
    have hparse : parse (spaces ++ []) false true cells = parse [] false true cells :=
      parse_spaces hspaces
    rw [List.append_nil] at hparse
    rw [hparse]
    rfl
  | cons hspaces htext _ hspace ih =>
    rw [List.append_assoc, parse_spaces hspaces, parse_token htext hspace, ih, List.map_cons,
      List.reverse_cons, List.append_assoc, List.singleton_append]

theorem Token.mask_eq_zero (t : Token) : (t.cell.mask == 0) = t.isWildcard := by
  cases t <;> rfl

theorem Token.mask_full {t : Token} (h : t.isWildcard = false) : t.cell.mask = 0xFF := by
  cases t with
  | byte b => rfl
  | wildcard => cases h

/-- Cells without a mask are those of wildcards. -/
theorem wild_of_mem {cell : Cell} (hcell : cell ∈ tokens.map Token.cell) (h : cell.mask == 0) :
    cell = ⟨0, 0⟩ := by
  obtain ⟨t, -, rfl⟩ := List.mem_map.mp hcell
  rw [t.mask_eq_zero] at h
  cases t with
  | byte b => cases h
  | wildcard => rfl

theorem packScan_of_parse {first : Cell} {rest : List Cell}
    (hparse : parse str false true [] = .ok cells.reverse)
    (hdrop : cells.dropWhile (·.mask == 0) = first :: rest) :
    packScan str = .ok ⟨first, rest.rdropWhile (·.mask == 0),
      (cells.takeWhile (·.mask == 0)).length⟩ := by
  unfold packScan
  rw [hparse]
  simp only [bind, Except.bind, List.reverse_reverse, hdrop]

/-- **A text packs to the tokens it was written for.** -/
theorem packScan_written (h : Written tokens str) (hbyte : ∃ b, Token.byte b ∈ tokens) :
    ∃ scan, packScan str = .ok scan ∧ PacksTo tokens scan := by
  have hmask : (fun cell : Cell => cell.mask == 0) ∘ Token.cell = Token.isWildcard :=
    funext Token.mask_eq_zero
  have hparse : parse str false true [] = .ok (tokens.map Token.cell).reverse := by
    rw [parse_written h, List.append_nil]
  have htake : (tokens.map Token.cell).takeWhile (·.mask == 0) =
      (tokens.takeWhile Token.isWildcard).map Token.cell := by
    rw [List.takeWhile_map, hmask]
  cases hdrop : tokens.dropWhile Token.isWildcard with
  | nil =>
    obtain ⟨b, hb⟩ := hbyte
    cases List.dropWhile_eq_nil_iff.mp hdrop _ hb
  | cons t rest =>
    have ht : t.isWildcard = false := by
      have hne : tokens.dropWhile Token.isWildcard ≠ [] := by
        rw [hdrop]
        exact List.cons_ne_nil _ _
      have hhead := List.head_dropWhile_not Token.isWildcard hne
      simp only [hdrop, List.head_cons] at hhead
      exact hhead
    have hcells : (tokens.map Token.cell).dropWhile (·.mask == 0) =
        t.cell :: rest.map Token.cell := by
      rw [List.dropWhile_map, hmask, hdrop, List.map_cons]
    refine ⟨_, packScan_of_parse hparse hcells, ?_, ?_, Token.mask_full ht, ?_⟩
    · rw [htake, List.length_map]
    · have hstart : (tokens.map Token.cell).takeWhile (·.mask == 0) =
          List.replicate ((tokens.map Token.cell).takeWhile (·.mask == 0)).length ⟨0, 0⟩ := by
        refine List.eq_replicate_iff.mpr ⟨rfl, fun cell hcell => ?_⟩
        exact wild_of_mem ((List.takeWhile_sublist _).subset hcell)
          (List.mem_takeWhile_imp (p := fun cell : Cell => cell.mask == 0) hcell)
      have hend : (rest.map Token.cell).rtakeWhile (·.mask == 0) =
          List.replicate ((rest.map Token.cell).rtakeWhile (·.mask == 0)).length ⟨0, 0⟩ := by
        refine List.eq_replicate_iff.mpr ⟨rfl, fun cell hcell => ?_⟩
        exact wild_of_mem ((List.rtakeWhile_suffix _ _).sublist.subset hcell)
          (List.mem_rtakeWhile_imp (p := fun cell : Cell => cell.mask == 0) hcell)
      refine ⟨((rest.map Token.cell).rtakeWhile (·.mask == 0)).length, ?_⟩
      rw [← hstart, ← hend]
      unfold PackedScan.cells
      rw [List.append_assoc, List.cons_append, List.rdropWhile_append_rtakeWhile, ← hcells,
        List.takeWhile_append_dropWhile]
    · by_cases hne : (rest.map Token.cell).rdropWhile (·.mask == 0) = []
      · simp only [PackedScan.cells, hne, List.getLast_singleton]
        exact Token.mask_full ht
      · have hlast := List.rdropWhile_last_not _ _ hne
        have hmem : ((rest.map Token.cell).rdropWhile (·.mask == 0)).getLast hne ∈
            rest.map Token.cell :=
          (List.rdropWhile_prefix _ _).sublist.subset (List.getLast_mem hne)
        simp only [PackedScan.cells, List.getLast_cons hne]
        obtain ⟨t', -, ht'⟩ := List.mem_map.mp hmem
        rw [← ht'] at hlast ⊢
        rw [t'.mask_eq_zero, Bool.not_eq_true] at hlast
        exact Token.mask_full hlast

end Pack

/-! ## The text of the printers -/

section Print

variable {b : UInt8} {values : List UInt32} {data str : List UInt8}

/-- A byte is printed as a token and a space. -/
theorem snprintf4_byte (b : UInt8) :
    ∃ x, snprintf4 b.toUInt32 = x ++ [0x20] ∧ (Token.byte b).Text x := by
  have hall : ∀ b : UInt8, snprintf4 b.toUInt32 =
      [hexDigit (b >>> 4).toUInt32, hexDigit (b &&& 0xF).toUInt32, 0x20] ∧
      Token.Digit (b >>> 4) (hexDigit (b >>> 4).toUInt32) ∧
      Token.Digit (b &&& 0xF) (hexDigit (b &&& 0xF).toUInt32) := forall_byte (by decide +kernel)
  obtain ⟨hprint, hhigh, hlow⟩ := hall b
  exact ⟨_, hprint, _, _, rfl, hhigh, hlow⟩

/-- The conversion of a `char` keeps bytes below 0x80, and others become `fff`. -/
theorem charToUInt32_spec (b : UInt8) :
    (b < 0x80 → charToUInt32 b = b.toUInt32) ∧
      (0x80 ≤ b → snprintf4 (charToUInt32 b) = [0x66, 0x66, 0x66]) := by
  have hall : ∀ b : UInt8, (b < 0x80 → charToUInt32 b = b.toUInt32) ∧
      (0x80 ≤ b → snprintf4 (charToUInt32 b) = [0x66, 0x66, 0x66]) :=
    forall_byte (by decide +kernel)
  exact hall b

theorem length_snprintf4 (v : UInt32) : (snprintf4 v).length = 3 := by
  simp only [snprintf4, format02x, List.length_take, List.length_append, List.length_map,
    List.length_cons, List.length_nil]
  omega

theorem printLoop_eq {buffer before behind : Pattern} {i : Nat}
    (hbuffer : buffer = before ++ 0 :: behind) (hbefore : before.length = 3 * i)
    (hbehind : 3 * values.length ≤ behind.length) :
    printLoop buffer i values =
      before ++ values.flatMap snprintf4 ++ 0 :: behind.drop (3 * values.length) := by
  induction values generalizing buffer before behind i with
  | nil => simp [printLoop, hbuffer]
  | cons v values ih =>
    have hlen := length_snprintf4 v
    rw [List.length_cons] at hbehind
    have hnext : buffer.take (3 * i) ++ (snprintf4 v ++ [0]) ++ buffer.drop (3 * i + 4) =
        (before ++ snprintf4 v) ++ 0 :: behind.drop 3 := by
      have hdrop : (before ++ 0 :: behind).drop (before.length + 4) = behind.drop 3 := by
        rw [← List.drop_drop, List.drop_left]
        rfl
      rw [hbuffer, ← hbefore, List.take_left, hdrop]
      simp only [List.append_assoc, List.singleton_append]
    have hend : 3 * (values.length + 1) = 3 + 3 * values.length := by omega
    rw [printLoop, ih hnext (by rw [List.length_append, hlen]; omega)
      (by rw [List.length_drop]; omega), List.flatMap_cons, List.length_cons, List.drop_drop, hend]
    simp only [List.append_assoc]

theorem printed_eq {len : Nat} (hlen : values.length ≤ len + 1)
    (hchars : ∀ v ∈ values, ∀ c ∈ snprintf4 v, c ≠ 0) :
    printed len values = values.flatMap snprintf4 := by
  have hbuffer : List.replicate ((len + 1) * 3 + 1) (0 : UInt8) =
      [] ++ 0 :: List.replicate ((len + 1) * 3) 0 := by
    rw [List.nil_append, List.replicate_succ]
  unfold printed cstr
  rw [printLoop_eq hbuffer rfl (by rw [List.length_replicate]; omega), List.nil_append,
    List.takeWhile_append_of_pos]
  · rw [List.takeWhile_cons_of_neg (by decide), List.append_nil]
  · intro c hc
    obtain ⟨v, hv, hc⟩ := List.mem_flatMap.mp hc
    exact bne_iff_ne.mpr (hchars v hv c hc)

theorem Spaces.append {s s' : Pattern} (h : Spaces s) (h' : Spaces s') : Spaces (s ++ s') := by
  intro c hc
  rcases List.mem_append.mp hc with hc | hc
  · exact h c hc
  · exact h' c hc

theorem Written.space {tokens : List Token} {s text : Pattern} (h : Written tokens text)
    (hs : Spaces s) : Written tokens (s ++ text) := by
  cases h with
  | nil hspaces => exact .nil (hs.append hspaces)
  | cons hspaces htext hrest hspace =>
    rw [← List.append_assoc, ← List.append_assoc]
    exact .cons (hs.append hspaces) htext hrest hspace

/-- The text of bytes. -/
theorem written_bytes (data : List UInt8) :
    Written (data.map Token.byte) ((data.map UInt8.toUInt32).flatMap snprintf4) := by
  induction data with
  | nil => exact .nil (fun c hc => absurd hc List.not_mem_nil)
  | cons b data ih =>
    obtain ⟨x, hx, htext⟩ := snprintf4_byte b
    have hspace : Spaces [0x20] := by
      intro c hc
      rw [List.mem_singleton.mp hc]
      decide
    rw [List.map_cons, List.map_cons, List.flatMap_cons, hx, List.append_assoc]
    have hnone : Spaces [] := fun c hc => absurd hc List.not_mem_nil
    exact Written.cons hnone htext (ih.space hspace) (show isspace 0x20 = true by decide)

theorem snprintf4_ne_zero (b : UInt8) :
    (∀ c ∈ snprintf4 b.toUInt32, c ≠ 0) ∧ ∀ c ∈ snprintf4 (charToUInt32 b), c ≠ 0 := by
  have hall : ∀ b : UInt8, (snprintf4 b.toUInt32).all (· != 0) = true ∧
      (snprintf4 (charToUInt32 b)).all (· != 0) = true := forall_byte (by decide +kernel)
  simp only [List.all_eq_true, bne_iff_ne] at hall
  exact hall b

theorem stringPattern_eq (str : List UInt8) :
    stringPattern str = ((str ++ [0]).map charToUInt32).flatMap snprintf4 := by
  refine printed_eq (by simp) ?_
  intro v hv
  obtain ⟨b, -, rfl⟩ := List.mem_map.mp hv
  exact (snprintf4_ne_zero b).2

/-- **The text of `CreateScanPattern` packs to its bytes, while it is there.** -/
theorem packScan_createScanPattern (hne : data ≠ []) :
    ∃ text scan, createScanPattern data = .destroyed text ∧ packScan text = .ok scan ∧
      PacksTo (data.map Token.byte) scan := by
  have htext : printed data.length (data.map UInt8.toUInt32) =
      (data.map UInt8.toUInt32).flatMap snprintf4 := by
    refine printed_eq (by rw [List.length_map]; omega) ?_
    intro v hv
    obtain ⟨b, -, rfl⟩ := List.mem_map.mp hv
    exact (snprintf4_ne_zero b).1
  obtain ⟨b, data, rfl⟩ := List.exists_cons_of_ne_nil hne
  obtain ⟨scan, hscan, hpacks⟩ := packScan_written (written_bytes (b :: data))
    ⟨b, List.mem_cons_self⟩
  exact ⟨_, scan, by rw [createScanPattern, htext], hscan, hpacks⟩

end Print

/-! ## Digits -/

section Digits

variable {str : Pattern} {cells out : List Cell}

/-- The characters of a text that are no white space. -/
def digits (str : Pattern) : Nat := str.countP fun c => !isspace c

/-- Without wildcards two digits make a cell, and every cell has a mask. -/
theorem parse_digits {mid : Bool} (hwild : ∀ c ∈ str, c ≠ 0x3F)
    (h : parse str false mid cells = .ok out) (hmask : ∀ cell ∈ cells, cell.mask ≠ 0) :
    2 * out.length + (if mid then 0 else 1) = 2 * cells.length + digits str ∧
      ∀ cell ∈ out, cell.mask ≠ 0 := by
  induction str generalizing mid cells with
  | nil =>
    unfold parse at h
    split at h
    · cases h
      exact ⟨by simp [digits, *], hmask⟩
    · cases h
  | cons c str ih =>
    have hrest : ∀ c' ∈ str, c' ≠ 0x3F := fun c' hc' => hwild c' (List.mem_cons_of_mem _ hc')
    have hcount : digits (c :: str) = digits str + if isspace c then 0 else 1 := by
      unfold digits
      rw [List.countP_cons]
      cases isspace c <;> rfl
    cases hspace : isspace c with
    | true =>
      rw [parse, if_neg Bool.false_ne_true, if_pos hspace] at h
      rw [hcount, hspace]
      exact ih hrest h hmask
    | false =>
      cases hc : ctob c with
      | error e =>
        rw [parse, if_neg Bool.false_ne_true, hspace, if_neg Bool.false_ne_true,
          if_neg (hwild c List.mem_cons_self), hc] at h
        cases h
      | ok b =>
        rw [hcount, hspace]
        cases mid with
        | true =>
          rw [parse_digit_high hc] at h
          obtain ⟨hlen, hout⟩ := ih hrest h (by
            intro cell hcell
            rcases List.mem_cons.mp hcell with rfl | hcell
            · exact (by decide : (0xF0 : UInt8) ≠ 0)
            · exact hmask cell hcell)
          rw [List.length_cons] at hlen
          refine ⟨?_, hout⟩
          simp only [Bool.false_eq_true, if_false, if_true] at hlen ⊢
          omega
        | false =>
          cases cells with
          | nil =>
            rw [parse, if_neg Bool.false_ne_true, hspace, if_neg Bool.false_ne_true,
              if_neg (hwild c List.mem_cons_self), hc] at h
            cases h
          | cons cell cells =>
            rw [parse_digit_low hc] at h
            obtain ⟨hlen, hout⟩ := ih hrest h (by
              intro cell' hcell'
              rcases List.mem_cons.mp hcell' with rfl | hcell'
              · have hall : ∀ mask : UInt8, mask ||| 0xF ≠ 0 := forall_byte (by decide +kernel)
                exact hall cell.mask
              · exact hmask cell' (List.mem_cons_of_mem _ hcell'))
            rw [List.length_cons] at hlen ⊢
            refine ⟨?_, hout⟩
            simp only [Bool.false_eq_true, if_false, if_true] at hlen ⊢
            omega

/-- A text of digits packs to half as many cells. -/
theorem packScan_digits {scan : PackedScan} (hwild : ∀ c ∈ str, c ≠ 0x3F)
    (h : packScan str = .ok scan) : 2 * scan.cells.length = digits str := by
  have hpack := h
  unfold packScan at h
  cases hparse : parse str false true [] with
  | error e =>
    rw [hparse] at h
    cases h
  | ok out =>
    obtain ⟨hlen, hmask⟩ := parse_digits hwild hparse (fun _ hcell => absurd hcell List.not_mem_nil)
    have hkeep : ∀ cell ∈ out.reverse, ¬(cell.mask == 0) = true := by
      intro cell hcell
      rw [beq_iff_eq]
      exact hmask cell (List.mem_reverse.mp hcell)
    cases hout : out.reverse with
    | nil =>
      rw [hparse] at h
      simp only [bind, Except.bind, hout, List.dropWhile_nil] at h
      cases h
    | cons first rest =>
      rw [hout] at hkeep
      have hfirst : (first :: rest).dropWhile (·.mask == 0) = first :: rest :=
        List.dropWhile_cons_of_neg (hkeep first List.mem_cons_self)
      have hrest : rest.rdropWhile (·.mask == 0) = rest :=
        List.rdropWhile_eq_self_iff.mpr fun hne =>
          hkeep _ (List.mem_cons_of_mem _ (List.getLast_mem hne))
      have hback : out = (first :: rest).reverse := by rw [← hout, List.reverse_reverse]
      rw [hback] at hparse
      rw [packScan_of_parse hparse hfirst, hrest] at hpack
      cases hpack
      have hsize : out.length = rest.length + 1 := by
        rw [hback, List.length_reverse, List.length_cons]
      simp only [PackedScan.cells, List.length_cons, List.length_nil, if_true] at hlen ⊢
      omega

/-- A byte above 0x7F is printed with a digit too many. -/
theorem digits_chars (str : List UInt8) :
    2 * str.length ≤ digits ((str.map charToUInt32).flatMap snprintf4) ∧
      ((∃ b ∈ str, 0x80 ≤ b) →
        2 * str.length < digits ((str.map charToUInt32).flatMap snprintf4)) := by
  have hlow : ∀ b : UInt8, 2 ≤ digits (snprintf4 (charToUInt32 b)) :=
    forall_byte (by decide +kernel)
  induction str with
  | nil => exact ⟨Nat.zero_le _, fun ⟨b, hb, _⟩ => absurd hb List.not_mem_nil⟩
  | cons b str ih =>
    obtain ⟨hle, hlt⟩ := ih
    have hb := hlow b
    have hsum : digits (((b :: str).map charToUInt32).flatMap snprintf4) =
        digits (snprintf4 (charToUInt32 b)) +
          digits ((str.map charToUInt32).flatMap snprintf4) := by
      rw [List.map_cons, List.flatMap_cons, digits, List.countP_append]
      rfl
    rw [hsum, List.length_cons]
    refine ⟨by omega, ?_⟩
    rintro ⟨b', hb', hhigh⟩
    rcases List.mem_cons.mp hb' with rfl | hb'
    · have hthree : digits [0x66, 0x66, 0x66] = 3 := by decide
      rw [(charToUInt32_spec _).2 hhigh, hthree]
      omega
    · have hrest := hlt ⟨b', hb', hhigh⟩
      omega

end Digits

/-! ## Result -/

/-- A pattern: written by hand, or printed for bytes, or for a string. -/
inductive Source where
  | text (tokens : List Token) (str : Pattern) (written : Written tokens str)
  | createScanPattern (data : List UInt8)
  | scanLibraryString (str : List UInt8)

namespace Source

/-- What is meant: the bytes of a string end with its NUL. -/
def tokens : Source → List Token
  | text tokens _ _ => tokens
  | createScanPattern data => data.map Token.byte
  | scanLibraryString str => (str ++ [0]).map Token.byte

def pattern : Source → CString
  | text _ str _ => .live str
  | createScanPattern data => Hook.createScanPattern data
  | scanLibraryString str => .live (stringPattern str)

/-- The pattern packs to what is meant. -/
def Exact (source : Source) : Prop :=
  ∃ scan, source.pattern.packScan = .ok scan ∧ PacksTo source.tokens scan

/-- The source is no destroyed string, and no string with a byte above 0x7F. -/
def Fine : Source → Prop
  | text _ _ _ => True
  | createScanPattern _ => False
  | scanLibraryString str => ∀ b ∈ str, b < 0x80

end Source

/-- **A pattern packs to what is meant exactly when it is written by hand, or for a string of bytes
below 0x80.** -/
theorem pattern_exact_iff (source : Source) (hbyte : ∃ b, Token.byte b ∈ source.tokens) :
    source.Exact ↔ source.Fine := by
  cases source with
  | text tokens str written =>
    exact ⟨fun _ => trivial, fun _ => packScan_written written hbyte⟩
  | createScanPattern data =>
    constructor
    · rintro ⟨scan, hscan, -⟩
      cases hscan
    · exact False.elim
  | scanLibraryString str =>
    have hpattern := stringPattern_eq str
    constructor
    · rintro ⟨scan, hscan, hpacks⟩ b hb
      by_contra hhigh
      rw [UInt8.not_lt] at hhigh
      have hwild : ∀ c ∈ stringPattern str, c ≠ 0x3F := by
        have hall : ∀ b : UInt8, (snprintf4 (charToUInt32 b)).all (· != 0x3F) = true :=
          forall_byte (by decide +kernel)
        simp only [List.all_eq_true, bne_iff_ne] at hall
        intro c hc
        rw [hpattern] at hc
        obtain ⟨v, hv, hc⟩ := List.mem_flatMap.mp hc
        obtain ⟨b', -, rfl⟩ := List.mem_map.mp hv
        exact hall b' c hc
      have hcells := packScan_digits hwild hscan
      have hmore := (digits_chars (str ++ [0])).2 ⟨b, List.mem_append_left _ hb, hhigh⟩
      obtain ⟨n, hn⟩ := hpacks.cells
      have hlen := congrArg List.length hn
      simp only [Source.tokens, List.length_map, List.length_append, List.length_replicate] at hlen
      rw [← hpattern, ← hcells, List.length_append] at hmore
      omega
    · intro hlow
      have hvalues : (str ++ [0]).map charToUInt32 = (str ++ [0]).map UInt8.toUInt32 := by
        refine List.map_congr_left fun b hb => (charToUInt32_spec b).1 ?_
        rcases List.mem_append.mp hb with hb | hb
        · exact hlow b hb
        · rw [List.mem_singleton.mp hb]
          decide
      rw [hvalues] at hpattern
      have hwritten := written_bytes (str ++ [0])
      rw [← hpattern] at hwritten
      exact packScan_written hwritten hbyte

theorem pattern_exact_name :
    (∃ b, Token.byte b ∈ (Source.scanLibraryString [0x67, 0x73, 0x63]).tokens) ∧
      (Source.scanLibraryString [0x67, 0x73, 0x63]).Exact := by
  have hbyte : ∃ b, Token.byte b ∈ (Source.scanLibraryString [0x67, 0x73, 0x63]).tokens :=
    ⟨0x67, List.mem_cons_self⟩
  have hlow : ([0x67, 0x73, 0x63] : List UInt8).all (· < 0x80) = true := by decide
  refine ⟨hbyte, (pattern_exact_iff _ hbyte).mpr ?_⟩
  show ∀ b ∈ ([0x67, 0x73, 0x63] : List UInt8), b < 0x80
  intro b hb
  exact of_decide_eq_true (List.all_eq_true.mp hlow b hb)

/-- The byte 0xE9 is printed as `fff`, which leaves a half byte behind the NUL; and the text for a
single byte is destroyed. -/
theorem patterns_not_exact :
    ((∃ b, Token.byte b ∈ (Source.scanLibraryString [0xE9]).tokens) ∧
      ¬(Source.scanLibraryString [0xE9]).Exact) ∧
    ((∃ b, Token.byte b ∈ (Source.createScanPattern [7]).tokens) ∧
      ¬(Source.createScanPattern [7]).Exact) := by
  have hchar : packScan (stringPattern [0xE9]) = .error .halfByte := by decide +kernel
  refine ⟨⟨⟨0xE9, List.mem_cons_self⟩, ?_⟩, ⟨⟨7, List.mem_cons_self⟩, ?_⟩⟩
  · rintro ⟨scan, hscan, -⟩
    rw [show (Source.scanLibraryString [0xE9]).pattern.packScan = packScan (stringPattern [0xE9])
      from rfl, hchar] at hscan
    cases hscan
  · rintro ⟨scan, hscan, -⟩
    cases hscan

end Acts.Hook
