import Acts.Lib.Memory
import Mathlib.Order.Lattice

/-!
# Words that are replaced in place

A rule replaces one word of a memory by another of the same size, wherever it stands.

* `places` — where the word of a rule stands, from the front.
* `replaceAll` — a list of replacements, each at its place.
* `schedule` — the places of several rules, in turn; a word that a rule in front has is not counted
  again.
* `Apart`, `NoNew` — the places do not overlap, and no replacement makes a word in front of those
  that are left.
* `first_left` — **so a search always comes by the next place of the schedule.**
* `Replaceable.replaced` — behind the schedule every place holds the new word, and all else is as it
  was.
* `replaceLoop_ends_iff` — when the loop of one rule ends.
-/

set_option autoImplicit false

namespace Acts.Replace

structure Rule where
  size : Nat
  old : Nat
  new : Nat
  size_pos : 0 < size
  new_lt : new < 256 ^ size

variable (len : Nat)

namespace Rule

/-- The word of the rule stands at a place. -/
def At (r : Rule) (m : Mem) (q : Nat) : Prop := q + r.size ≤ len ∧ m.readLE q r.size = r.old

/-- Where it stands, from the front. -/
def places (r : Rule) (m : Mem) : List Nat :=
  (List.range (len + 1 - r.size)).filter fun q => m.readLE q r.size = r.old

def SameWord (r r' : Rule) : Prop := r.size = r'.size ∧ r.old = r'.old

instance (r r' : Rule) : Decidable (r.SameWord r') := inferInstanceAs (Decidable (_ ∧ _))

end Rule

/-- The bytes of one place are not those of the other. -/
def Separate (w w' : Rule × Nat) : Prop := w.2 + w.1.size ≤ w'.2 ∨ w'.2 + w'.1.size ≤ w.2

instance (w w' : Rule × Nat) : Decidable (Separate w w') := inferInstanceAs (Decidable (_ ∨ _))

def replaceAt (m : Mem) (w : Rule × Nat) : Mem := m.writeLE w.2 w.1.new w.1.size

def replaceAll (m : Mem) (ws : List (Rule × Nat)) : Mem := ws.foldl replaceAt m

/-- The places of a rule behind those in front of it. -/
def fresh (m : Mem) (seen : List Rule) (r : Rule) : List Nat :=
  if ∃ r' ∈ seen, r'.SameWord r then [] else r.places len m

def schedule (m : Mem) : List Rule → List Rule → List (Rule × Nat)
  | _, [] => []
  | seen, r :: rules => (fresh len m seen r).map (r, ·) ++ schedule m (seen ++ [r]) rules

/-- Two places are the same place of the same word, or do not overlap. -/
def Apart (m : Mem) (rules : List Rule) : Prop :=
  ∀ r ∈ rules, ∀ q ∈ r.places len m, ∀ r' ∈ rules, ∀ q' ∈ r'.places len m,
    r.SameWord r' ∧ q = q' ∨ Separate (r, q) (r', q')

/-- With the first places replaced, no word of the rule stands in front of those that are left. -/
def NoNewOf (m₁ : Mem) (r : Rule) (qs : List Nat) : Prop :=
  ∀ i ≤ qs.length, ∀ q ∈ r.places len (replaceAll m₁ ((qs.take i).map (r, ·))),
    ∃ q₁ ∈ qs.drop i, q₁ ≤ q

/-- So it is for each rule in turn; `m₁` is what the rules in front leave. -/
def NoNew (m : Mem) : List Rule → Mem → List Rule → Prop
  | _, _, [] => True
  | seen, m₁, r :: rules =>
    NoNewOf len m₁ r (fresh len m seen r) ∧
      NoNew m (seen ++ [r]) (replaceAll m₁ ((fresh len m seen r).map (r, ·))) rules

instance (m : Mem) (rules : List Rule) : Decidable (Apart len m rules) :=
  inferInstanceAs (Decidable (∀ r ∈ rules, ∀ q ∈ r.places len m, ∀ r' ∈ rules,
    ∀ q' ∈ r'.places len m, r.SameWord r' ∧ q = q' ∨ Separate (r, q) (r', q')))

instance (m₁ : Mem) (r : Rule) (qs : List Nat) : Decidable (NoNewOf len m₁ r qs) :=
  inferInstanceAs (Decidable (∀ i ≤ qs.length, ∀ q ∈ _, ∃ q₁ ∈ qs.drop i, q₁ ≤ q))

instance decidableNoNew (m : Mem) :
    (seen : List Rule) → (m₁ : Mem) → (rules : List Rule) → Decidable (NoNew len m seen m₁ rules)
  | _, _, [] => inferInstanceAs (Decidable True)
  | seen, m₁, r :: rules =>
    have := decidableNoNew m (seen ++ [r])
      (replaceAll m₁ ((fresh len m seen r).map (r, ·))) rules
    inferInstanceAs (Decidable (NoNewOf len m₁ r (fresh len m seen r) ∧ _))

section Places

variable {len} {m m₁ : Mem} {r r' : Rule} {q : Nat} {ws : List (Rule × Nat)}

theorem mem_places : q ∈ r.places len m ↔ r.At len m q := by
  unfold Rule.places Rule.At
  rw [List.mem_filter, List.mem_range, decide_eq_true_eq]
  have hsize := r.size_pos
  constructor
  · rintro ⟨hq, hword⟩
    exact ⟨by omega, hword⟩
  · rintro ⟨hq, hword⟩
    exact ⟨by omega, hword⟩

theorem places_sorted (r : Rule) (m : Mem) : (r.places len m).Pairwise (· < ·) :=
  List.Pairwise.filter _ List.pairwise_lt_range

theorem places_sameWord (h : r.SameWord r') : r.places len m = r'.places len m := by
  unfold Rule.places
  rw [h.1, h.2]

/-- Replacing elsewhere. -/
theorem readLE_replaceAll (h : ∀ w ∈ ws, Separate (r, q) w) :
    (replaceAll m ws).readLE q r.size = m.readLE q r.size := by
  induction ws generalizing m with
  | nil => rfl
  | cons w ws ih =>
    show (replaceAll (replaceAt m w) ws).readLE q r.size = _
    rw [ih fun w' hw' => h w' (List.mem_cons_of_mem w hw')]
    exact Mem.readLE_writeLE_disjoint m _ (h w List.mem_cons_self)

theorem replaceAll_outside {x : Nat} (h : ∀ w ∈ ws, x < w.2 ∨ w.2 + w.1.size ≤ x) :
    replaceAll m ws x = m x := by
  induction ws generalizing m with
  | nil => rfl
  | cons w ws ih =>
    show replaceAll (replaceAt m w) ws x = _
    rw [ih fun w' hw' => h w' (List.mem_cons_of_mem w hw')]
    exact Mem.writeLE_outside m _ (h w List.mem_cons_self)

theorem replaceAll_append (ws ws' : List (Rule × Nat)) :
    replaceAll m (ws ++ ws') = replaceAll (replaceAll m ws) ws' := List.foldl_append

/-- A place that is not overwritten holds its new word. -/
theorem readLE_replaced (hapart : ws.Pairwise Separate) (h : (r, q) ∈ ws) :
    (replaceAll m ws).readLE q r.size = r.new := by
  obtain ⟨front, back, rfl⟩ := List.append_of_mem h
  rw [replaceAll_append]
  show (replaceAll (replaceAt _ (r, q)) back).readLE q r.size = _
  have hback := (List.pairwise_append.mp hapart).2.1
  rw [List.pairwise_cons] at hback
  rw [readLE_replaceAll hback.1]
  exact (Mem.readLE_writeLE _ _ _ _).trans (Nat.mod_eq_of_lt r.new_lt)

/-- The head of a list in order is in front of the others. -/
theorem head_of_sorted {l : List Nat} (hsorted : l.Pairwise (· < ·)) (hq : q ∈ l)
    (hfirst : ∀ x ∈ l, q ≤ x) : l.head? = some q := by
  cases l with
  | nil => cases hq
  | cons x l =>
    rcases List.mem_cons.mp hq with rfl | hmem
    · rfl
    · have hlt := List.rel_of_pairwise_cons hsorted hmem
      have hle := hfirst x List.mem_cons_self
      omega

end Places

/-! ## Searching -/

/-- The word is replaced where it stands first, until it stands nowhere. -/
def replaceLoop (r : Rule) : Nat → Mem → Option Mem
  | 0, _ => none
  | fuel + 1, m =>
    match (r.places len m).head? with
    | none => some m
    | some q => replaceLoop r fuel (replaceAt m (r, q))

/-- One rule after the other. -/
def replaceLoops (fuel : Nat) (rules : List Rule) (m : Mem) : Option Mem :=
  rules.foldlM (fun m r => replaceLoop len r fuel m) m

section Search

variable {len} {m m₁ : Mem} {r : Rule} {qs : List Nat} {rules seen : List Rule}

/-- The places of a rule do not overlap. -/
def ApartFrom (r : Rule) (qs : List Nat) : Prop :=
  qs.Pairwise fun q q' => Separate (r, q) (r, q')

/-- **The search comes by the next place**, and behind the last one by none. -/
theorem first_left (hnew : NoNewOf len m₁ r qs) (hsorted : qs.Pairwise (· < ·))
    (hstands : ∀ q ∈ qs, r.At len m₁ q) (hapart : ApartFrom r qs) {i : Nat} (hi : i ≤ qs.length) :
    (r.places len (replaceAll m₁ ((qs.take i).map (r, ·)))).head? = (qs.drop i).head? := by
  have hfront := hnew i hi
  cases hrest : qs.drop i with
  | nil =>
    rw [hrest] at hfront
    rw [List.head?_nil, List.head?_eq_none_iff, List.eq_nil_iff_forall_not_mem]
    intro q hq
    obtain ⟨q₁, hq₁, -⟩ := hfront q hq
    cases hq₁
  | cons q₁ rest =>
    rw [hrest] at hfront
    have hsplit : qs = qs.take i ++ q₁ :: rest := by
      rw [← hrest, List.take_append_drop]
    have hq₁ : q₁ ∈ qs := by
      rw [hsplit]
      exact List.mem_append_right _ List.mem_cons_self
    apply head_of_sorted (places_sorted r _)
    · -- the next place is as it was
      obtain ⟨hfit, hword⟩ := hstands q₁ hq₁
      refine mem_places.mpr ⟨hfit, ?_⟩
      rw [readLE_replaceAll, hword]
      intro w hw
      obtain ⟨q, hq, rfl⟩ := List.mem_map.mp hw
      unfold ApartFrom at hapart
      rw [hsplit, List.pairwise_append] at hapart
      exact (hapart.2.2 q hq q₁ List.mem_cons_self).symm
    · intro q hq
      obtain ⟨q₂, hq₂, hle⟩ := hfront q hq
      rw [hsplit, List.pairwise_append] at hsorted
      rcases List.mem_cons.mp hq₂ with rfl | hq₂
      · exact hle
      · have hlt := List.rel_of_pairwise_cons hsorted.2.1 hq₂
        omega

/-- The loop of one rule replaces its places. -/
theorem replaceLoop_eq (hnew : NoNewOf len m₁ r qs) (hsorted : qs.Pairwise (· < ·))
    (hstands : ∀ q ∈ qs, r.At len m₁ q) (hapart : ApartFrom r qs) {fuel : Nat}
    (hfuel : qs.length < fuel) :
    replaceLoop len r fuel m₁ = some (replaceAll m₁ (qs.map (r, ·))) := by
  -- from the state in which `i` of them are replaced
  have hloop : ∀ n i fuel, i + n = qs.length → n < fuel →
      replaceLoop len r fuel (replaceAll m₁ ((qs.take i).map (r, ·))) =
        some (replaceAll m₁ (qs.map (r, ·))) := by
    intro n
    induction n with
    | zero =>
      intro i fuel hi hfuel
      obtain ⟨fuel, rfl⟩ := Nat.exists_eq_succ_of_ne_zero (Nat.ne_of_gt hfuel)
      obtain rfl : i = qs.length := hi
      unfold replaceLoop
      rw [first_left hnew hsorted hstands hapart (Nat.le_refl _), List.drop_length,
        List.take_length]
      rfl
    | succ n ih =>
      intro i fuel hi hfuel
      obtain ⟨fuel, rfl⟩ := Nat.exists_eq_succ_of_ne_zero (Nat.ne_of_gt (Nat.zero_lt_of_lt hfuel))
      have hlt : i < qs.length := by omega
      have hnext := first_left hnew hsorted hstands hapart (Nat.le_of_lt hlt)
      rw [List.drop_eq_getElem_cons hlt, List.head?_cons] at hnext
      unfold replaceLoop
      rw [hnext]
      dsimp only
      have hstep : replaceAt (replaceAll m₁ ((qs.take i).map (r, ·))) (r, qs[i]) =
          replaceAll m₁ ((qs.take (i + 1)).map (r, ·)) := by
        rw [List.take_add_one, List.getElem?_eq_getElem hlt, List.map_append, replaceAll_append]
        rfl
      rw [hstep]
      exact ih (i + 1) fuel (by omega) (by omega)
  exact hloop qs.length 0 fuel (Nat.zero_add _) hfuel

/-- A rule that is fresh has its places apart from each other. -/
theorem fresh_spec (hapart : Apart len m (seen ++ r :: rules)) :
    (fresh len m seen r).Pairwise (· < ·) ∧ ApartFrom r (fresh len m seen r) ∧
      (∀ q ∈ fresh len m seen r, r.At len m q) ∧ (fresh len m seen r).length ≤ len := by
  have hr : r ∈ seen ++ r :: rules := List.mem_append_right _ List.mem_cons_self
  unfold fresh
  split
  · exact ⟨.nil, .nil, fun q hq => absurd hq List.not_mem_nil, Nat.zero_le _⟩
  · have hsorted : (r.places len m).Pairwise (· < ·) := places_sorted r m
    refine ⟨hsorted, ?_, fun q hq => mem_places.mp hq, ?_⟩
    · refine hsorted.imp_of_mem fun {q q'} hq hq' hlt => ?_
      rcases hapart r hr q hq r hr q' hq' with ⟨-, rfl⟩ | hsep
      · omega
      · exact hsep
    · have hle := List.length_filter_le (fun q => decide (m.readLE q r.size = r.old))
        (List.range (len + 1 - r.size))
      rw [List.length_range] at hle
      have hsize := r.size_pos
      unfold Rule.places
      omega

theorem not_seen_of_fresh {q : Nat} (h : q ∈ fresh len m seen r) :
    q ∈ r.places len m ∧ ∀ r' ∈ seen, ¬r'.SameWord r := by
  unfold fresh at h
  split at h
  · cases h
  · rename_i hnot
    exact ⟨h, fun r' hr' hsame => hnot ⟨r', hr', hsame⟩⟩

theorem mem_schedule {w : Rule × Nat} (h : w ∈ schedule len m seen rules) :
    w.1 ∈ rules ∧ w.2 ∈ w.1.places len m ∧ ∀ r' ∈ seen, ¬r'.SameWord w.1 := by
  induction rules generalizing seen with
  | nil => cases h
  | cons r rules ih =>
    unfold schedule at h
    rcases List.mem_append.mp h with h | h
    · obtain ⟨q, hq, rfl⟩ := List.mem_map.mp h
      obtain ⟨hplace, hnot⟩ := not_seen_of_fresh hq
      exact ⟨List.mem_cons_self, hplace, hnot⟩
    · obtain ⟨hrule, hplace, hnot⟩ := ih h
      exact ⟨List.mem_cons_of_mem r hrule, hplace,
        fun r' hr' => hnot r' (List.mem_append_left _ hr')⟩

/-- Every place is on the schedule. -/
theorem schedule_covers {q : Nat} (hr : r ∈ rules) (hq : q ∈ r.places len m)
    (hnot : ∀ r' ∈ seen, ¬r'.SameWord r) :
    ∃ r', (r', q) ∈ schedule len m seen rules ∧ r'.SameWord r := by
  induction rules generalizing seen with
  | nil => cases hr
  | cons r₁ rules ih =>
    unfold schedule
    by_cases hsame : r₁.SameWord r
    · refine ⟨r₁, List.mem_append_left _ (List.mem_map.mpr ⟨q, ?_, rfl⟩), hsame⟩
      unfold fresh
      rw [if_neg, places_sameWord hsame]
      · exact hq
      · rintro ⟨r', hr', hsame'⟩
        exact hnot r' hr' ⟨hsame'.1.trans hsame.1, hsame'.2.trans hsame.2⟩
    · rcases List.mem_cons.mp hr with rfl | hr
      · exact absurd ⟨rfl, rfl⟩ hsame
      · have hnot₁ : ∀ r' ∈ seen ++ [r₁], ¬r'.SameWord r := by
          intro r' hr'
          rcases List.mem_append.mp hr' with hr' | hr'
          · exact hnot r' hr'
          · rw [List.mem_singleton.mp hr']
            exact hsame
        obtain ⟨r', hmem, hsame'⟩ := ih hr hnot₁
        exact ⟨r', List.mem_append_right _ hmem, hsame'⟩

/-- The places of the schedule do not overlap. -/
theorem schedule_apart (hapart : Apart len m (seen ++ rules)) :
    (schedule len m seen rules).Pairwise Separate := by
  induction rules generalizing seen with
  | nil => exact .nil
  | cons r rules ih =>
    have hmid : seen ++ r :: rules = seen ++ [r] ++ rules := by simp
    unfold schedule
    rw [List.pairwise_append, List.pairwise_map]
    refine ⟨(fresh_spec hapart).2.1, ih (hmid ▸ hapart), ?_⟩
    intro w hw w' hw'
    obtain ⟨q, hq, rfl⟩ := List.mem_map.mp hw
    obtain ⟨hrule, hplace, hnot⟩ := mem_schedule hw'
    rcases hapart r (List.mem_append_right _ List.mem_cons_self) q (not_seen_of_fresh hq).1 w'.1
      (List.mem_append_right _ (List.mem_cons_of_mem r hrule)) w'.2 hplace with ⟨hsame, -⟩ | hsep
    · exact absurd hsame (hnot r (List.mem_append_right _ List.mem_cons_self))
    · exact hsep

/-- **The loops keep to the schedule.** -/
theorem replaceLoops_eq {ws : List (Rule × Nat)} (hapart : Apart len m (seen ++ rules))
    (hws : ∀ w ∈ ws, w.1 ∈ seen ∧ w.2 ∈ w.1.places len m)
    (hnew : NoNew len m seen (replaceAll m ws) rules) {fuel : Nat} (hfuel : len < fuel) :
    replaceLoops len fuel rules (replaceAll m ws) =
      some (replaceAll m (ws ++ schedule len m seen rules)) := by
  induction rules generalizing seen ws with
  | nil =>
    unfold schedule
    rw [List.append_nil]
    rfl
  | cons r rules ih =>
    obtain ⟨hnew, hrest⟩ := hnew
    obtain ⟨hsorted, hself, hstands, hlen⟩ := fresh_spec hapart
    have hr : r ∈ seen ++ r :: rules := List.mem_append_right _ List.mem_cons_self
    -- what is done does not touch the places of the rule
    have hstands₁ : ∀ q ∈ fresh len m seen r, r.At len (replaceAll m ws) q := by
      intro q hq
      obtain ⟨hplace, hnot⟩ := not_seen_of_fresh hq
      obtain ⟨hfit, hword⟩ := hstands q hq
      refine ⟨hfit, ?_⟩
      rw [readLE_replaceAll, hword]
      intro w hw
      obtain ⟨hrule, hplace'⟩ := hws w hw
      rcases hapart r hr q hplace w.1 (List.mem_append_left _ hrule) w.2 hplace' with
        ⟨hsame, -⟩ | hsep
      · exact absurd ⟨hsame.1.symm, hsame.2.symm⟩ (hnot w.1 hrule)
      · exact hsep
    have hloop := replaceLoop_eq hnew hsorted hstands₁ hself (Nat.lt_of_le_of_lt hlen hfuel)
    have hmid : seen ++ r :: rules = seen ++ [r] ++ rules := by simp
    unfold replaceLoops
    rw [List.foldlM_cons, hloop, schedule, ← List.append_assoc, ← replaceAll_append]
    refine ih (hmid ▸ hapart) ?_ (by rw [replaceAll_append]; exact hrest)
    intro w hw
    rcases List.mem_append.mp hw with hw | hw
    · obtain ⟨hrule, hplace⟩ := hws w hw
      exact ⟨List.mem_append_left _ hrule, hplace⟩
    · obtain ⟨q, hq, rfl⟩ := List.mem_map.mp hw
      exact ⟨List.mem_append_right _ List.mem_cons_self, (not_seen_of_fresh hq).1⟩

end Search

/-! ## Ending -/

/-- The bytes from `q` on as a number, the first one counting most. -/
def rank (m : Mem) (q : Nat) : Nat → Nat
  | 0 => 0
  | n + 1 => 256 * rank m q n + (m (q + n)).toNat

section Ending

variable {len} {m m' : Mem} {q q' n : Nat} {r : Rule}

theorem rank_lt (m : Mem) (q n : Nat) : rank m q n < 256 ^ n := by
  induction n with
  | zero => exact Nat.one_pos
  | succ n ih =>
    have hb := (m (q + n)).toNat_lt
    unfold rank
    rw [Nat.pow_succ']
    omega

theorem rank_add (m : Mem) (q a b : Nat) :
    rank m q (a + b) = rank m q a * 256 ^ b + rank m (q + a) b := by
  induction b with
  | zero => exact (Nat.mul_one _).symm
  | succ b ih =>
    rw [← Nat.add_assoc, rank, ih, rank, Nat.pow_succ', Nat.add_assoc q a b, Nat.mul_add,
      Nat.mul_left_comm, Nat.add_assoc]

theorem rank_congr (h : ∀ i < n, m (q + i) = m' (q' + i)) : rank m q n = rank m' q' n := by
  induction n with
  | zero => rfl
  | succ n ih =>
    rw [rank, rank, ih fun i hi => h i (Nat.lt_succ_of_lt hi), h n (Nat.lt_succ_self n)]

theorem bytes_of_readLE (h : m.readLE q n = m'.readLE q' n) :
    ∀ i < n, m (q + i) = m' (q' + i) := by
  induction n generalizing q q' with
  | zero => exact fun i hi => absurd hi (Nat.not_lt_zero i)
  | succ n ih =>
    rw [Mem.readLE, Mem.readLE] at h
    have hb := (m q).toNat_lt
    have hb' := (m' q').toNat_lt
    intro i hi
    cases i with
    | zero => exact UInt8.toNat_inj.mp (by rw [Nat.add_zero, Nat.add_zero]; omega)
    | succ i =>
      have hrest := @ih (q + 1) (q' + 1) (by omega) i (by omega)
      rw [Nat.add_right_comm, Nat.add_right_comm q'] at hrest
      exact hrest

theorem readLE_of_bytes (h : ∀ i < n, m (q + i) = m' (q' + i)) :
    m.readLE q n = m'.readLE q' n := by
  induction n generalizing q q' with
  | zero => rfl
  | succ n ih =>
    have hfirst : m q = m' q' := h 0 (Nat.zero_lt_succ n)
    rw [Mem.readLE, Mem.readLE, hfirst]
    congr 2
    apply ih
    intro i hi
    have hnext := h (i + 1) (by omega)
    rw [← Nat.add_assoc, Nat.add_right_comm, ← Nat.add_assoc, Nat.add_right_comm q'] at hnext
    exact hnext

theorem bytes_of_rank (h : rank m q n = rank m' q' n) : ∀ i < n, m (q + i) = m' (q' + i) := by
  induction n with
  | zero => exact fun i hi => absurd hi (Nat.not_lt_zero i)
  | succ n ih =>
    rw [rank, rank] at h
    have hb := (m (q + n)).toNat_lt
    have hb' := (m' (q' + n)).toNat_lt
    intro i hi
    rcases Nat.lt_succ_iff_lt_or_eq.mp hi with hi | rfl
    · exact ih (by omega) i hi
    · exact UInt8.toNat_inj.mp (by omega)

/-- The same words have the same rank, and only these. -/
theorem rank_eq_iff : rank m q n = rank m' q' n ↔ m.readLE q n = m'.readLE q' n :=
  ⟨fun h => readLE_of_bytes (bytes_of_rank h), fun h => rank_congr (bytes_of_readLE h)⟩

/-- A replacement changes the rank of the buffer as that of the word. -/
theorem rank_replaceAt (m : Mem) (hq : q + r.size ≤ len) :
    ∃ p, 0 < p ∧ rank (replaceAt m (r, q)) 0 len + rank m q r.size * p =
      rank m 0 len + rank (replaceAt m (r, q)) q r.size * p := by
  obtain ⟨k, rfl⟩ := Nat.exists_eq_add_of_le hq
  refine ⟨256 ^ k, Nat.pow_pos (by decide), ?_⟩
  have hfront : rank (replaceAt m (r, q)) 0 q = rank m 0 q := by
    refine rank_congr fun i hi => Mem.writeLE_outside m _ (.inl ?_)
    show 0 + i < q
    omega
  have hback : rank (replaceAt m (r, q)) (q + r.size) k = rank m (q + r.size) k :=
    rank_congr fun i _ => Mem.writeLE_outside m _ (.inr (Nat.le_add_right _ i))
  have hsplit : ∀ m' : Mem, rank m' 0 (q + r.size + k) = rank m' 0 q * 256 ^ (r.size + k) +
      (rank m' q r.size * 256 ^ k + rank m' (q + r.size) k) := by
    intro m'
    rw [Nat.add_assoc, rank_add, rank_add m' (0 + q), Nat.zero_add]
  rw [hsplit, hsplit m, hfront, hback]
  omega

/-- The loop ends where each replacement lowers a measure. -/
theorem replaceLoop_ends (μ : Mem → Nat)
    (h : ∀ m, ∀ q ∈ r.places len m, μ (replaceAt m (r, q)) < μ m) {fuel : Nat}
    (hfuel : μ m < fuel) : ∃ m', replaceLoop len r fuel m = some m' := by
  induction fuel generalizing m with
  | zero => omega
  | succ fuel ih =>
    unfold replaceLoop
    cases hplaces : r.places len m with
    | nil => exact ⟨m, rfl⟩
    | cons q qs =>
      have hlt := h m q (by rw [hplaces]; exact List.mem_cons_self)
      exact ih (by omega)

theorem replaceLoop_stuck (hsame : r.old = r.new) (h : r.places len m ≠ []) (fuel : Nat) :
    replaceLoop len r fuel m = none := by
  induction fuel generalizing m with
  | zero => rfl
  | succ fuel ih =>
    unfold replaceLoop
    cases hplaces : r.places len m with
    | nil => exact absurd hplaces h
    | cons q qs =>
      have hfit : q + r.size ≤ len :=
        (mem_places.mp (by rw [hplaces]; exact List.mem_cons_self)).1
      -- the word stands where it has just been written
      have hword : (replaceAt m (r, q)).readLE q r.size = r.old := by
        rw [hsame]
        exact (Mem.readLE_writeLE _ _ _ _).trans (Nat.mod_eq_of_lt r.new_lt)
      exact ih (List.ne_nil_of_mem (mem_places.mpr ⟨hfit, hword⟩))

/-- **The loop ends exactly where its word is replaced by another**, or stands nowhere. -/
theorem replaceLoop_ends_iff (len : Nat) (r : Rule) (m : Mem) :
    (∃ fuel m', replaceLoop len r fuel m = some m') ↔ r.old ≠ r.new ∨ r.places len m = [] := by
  constructor
  · rintro ⟨fuel, m', hrun⟩
    by_contra hnot
    push Not at hnot
    cases (replaceLoop_stuck hnot.1 hnot.2 fuel).symm.trans hrun
  · rintro (hne | hnil)
    · let word (v : Nat) : Mem := Mem.writeLE (fun _ => 0) 0 v r.size
      have hword : ∀ v < 256 ^ r.size, (word v).readLE 0 r.size = v := fun v hv =>
        (Mem.readLE_writeLE _ _ _ _).trans (Nat.mod_eq_of_lt hv)
      -- the rank of the buffer moves by a multiple of the difference of the two words
      have hstep : ∀ m : Mem, ∀ q ∈ r.places len m, ∃ p, 0 < p ∧
          rank (replaceAt m (r, q)) 0 len + rank (word r.old) 0 r.size * p =
            rank m 0 len + rank (word r.new) 0 r.size * p := by
        intro m q hq
        obtain ⟨hfit, hold⟩ := mem_places.mp hq
        have hlt : r.old < 256 ^ r.size := hold ▸ Mem.readLE_lt m q r.size
        have hfrom : rank m q r.size = rank (word r.old) 0 r.size :=
          rank_eq_iff.mpr (hold.trans (hword _ hlt).symm)
        have hto : rank (replaceAt m (r, q)) q r.size = rank (word r.new) 0 r.size :=
          rank_eq_iff.mpr ((Mem.readLE_writeLE m q r.new r.size).trans
            ((Nat.mod_eq_of_lt r.new_lt).trans (hword _ r.new_lt).symm))
        obtain ⟨p, hp, heq⟩ := rank_replaceAt m hfit
        rw [hfrom, hto] at heq
        exact ⟨p, hp, heq⟩
      have hne' : r.places len m ≠ [] →
          rank (word r.old) 0 r.size ≠ rank (word r.new) 0 r.size := by
        intro hplaces heq
        obtain ⟨q, hq⟩ := List.exists_mem_of_ne_nil _ hplaces
        obtain ⟨-, hold⟩ := mem_places.mp hq
        have hlt : r.old < 256 ^ r.size := hold ▸ Mem.readLE_lt m q r.size
        have hwords := rank_eq_iff.mp heq
        rw [hword _ hlt, hword _ r.new_lt] at hwords
        exact hne hwords
      by_cases hplaces : r.places len m = []
      · exact ⟨1, m, by unfold replaceLoop; rw [hplaces]; rfl⟩
      · rcases Nat.lt_or_gt_of_ne (hne' hplaces) with hlt | hgt
        · refine ⟨_, replaceLoop_ends (fun m => 256 ^ len - rank m 0 len) ?_ (Nat.lt_succ_self _)⟩
          intro m q hq
          obtain ⟨p, hp, heq⟩ := hstep m q hq
          have hmul := Nat.mul_lt_mul_of_pos_right hlt hp
          have hbound := rank_lt (replaceAt m (r, q)) 0 len
          omega
        · refine ⟨_, replaceLoop_ends (fun m => rank m 0 len) ?_ (Nat.lt_succ_self _)⟩
          intro m q hq
          obtain ⟨p, hp, heq⟩ := hstep m q hq
          have hmul := Nat.mul_lt_mul_of_pos_right hgt hp
          omega
    · exact ⟨1, m, by unfold replaceLoop; rw [hnil]; rfl⟩

/-- More rounds change nothing. -/
theorem replaceLoop_mono {fuel fuel' : Nat} (h : replaceLoop len r fuel m = some m')
    (hle : fuel ≤ fuel') : replaceLoop len r fuel' m = some m' := by
  induction fuel generalizing m fuel' with
  | zero => cases h
  | succ fuel ih =>
    obtain ⟨k, rfl⟩ := Nat.exists_eq_add_of_le hle
    rw [Nat.add_right_comm]
    unfold replaceLoop at h ⊢
    cases hplaces : (r.places len m).head? with
    | none =>
      rw [hplaces] at h
      exact h
    | some q =>
      rw [hplaces] at h
      exact ih h (Nat.le_add_right fuel k)

theorem replaceLoops_mono {rules : List Rule} {fuel fuel' : Nat}
    (h : replaceLoops len fuel rules m = some m') (hle : fuel ≤ fuel') :
    replaceLoops len fuel' rules m = some m' := by
  induction rules generalizing m with
  | nil => exact h
  | cons r rules ih =>
    unfold replaceLoops at h ⊢
    rw [List.foldlM_cons] at h ⊢
    obtain ⟨m₁, hfirst, hrest⟩ := Option.bind_eq_some_iff.mp h
    exact Option.bind_eq_some_iff.mpr ⟨m₁, replaceLoop_mono hfirst hle, ih hrest⟩

/-- The result does not depend on the bound. -/
theorem replaceLoops_unique {rules : List Rule} {fuel fuel' : Nat} {m₁ m₂ : Mem}
    (h₁ : replaceLoops len fuel rules m = some m₁)
    (h₂ : replaceLoops len fuel' rules m = some m₂) : m₁ = m₂ := by
  have h₁' := replaceLoops_mono h₁ (Nat.le_max_left fuel fuel')
  have h₂' := replaceLoops_mono h₂ (Nat.le_max_right fuel fuel')
  exact Option.some.inj (h₁'.symm.trans h₂')

end Ending

/-! ## What is replaced -/

/-- Every word that stood there is replaced, and no other byte is changed. -/
structure Replaced (rules : List Rule) (m m' : Mem) : Prop where
  word : ∀ r ∈ rules, ∀ q, r.At len m q →
    ∃ r' ∈ rules, r'.SameWord r ∧ m'.readLE q r.size = r'.new
  other : ∀ x, (∀ r ∈ rules, ∀ q, r.At len m q → x < q ∨ q + r.size ≤ x) → m' x = m x

/-- The places do not overlap, and nothing new is found on the way. -/
structure Replaceable (m : Mem) (rules : List Rule) : Prop where
  apart : Apart len m rules
  noNew : NoNew len m [] m rules

/-- **Behind the loops all is replaced.** -/
theorem Replaceable.replaced {m : Mem} {rules : List Rule} (h : Replaceable len m rules)
    {fuel : Nat} (hfuel : len < fuel) :
    ∃ m', replaceLoops len fuel rules m = some m' ∧ Replaced len rules m m' := by
  have hsep : (schedule len m [] rules).Pairwise Separate := schedule_apart h.apart
  have hstart : ∀ w ∈ ([] : List (Rule × Nat)), w.1 ∈ ([] : List Rule) ∧ w.2 ∈ w.1.places len m :=
    fun w hw => absurd hw List.not_mem_nil
  refine ⟨_, replaceLoops_eq h.apart hstart h.noNew hfuel, ?_, ?_⟩
  · intro r hr q hat
    have hnone : ∀ r' ∈ ([] : List Rule), ¬r'.SameWord r := fun r' hr' =>
      absurd hr' List.not_mem_nil
    obtain ⟨r', hmem, hsame⟩ := schedule_covers hr (mem_places.mpr hat) hnone
    refine ⟨r', (mem_schedule hmem).1, hsame, ?_⟩
    rw [← hsame.1]
    exact readLE_replaced hsep hmem
  · intro x hx
    apply replaceAll_outside
    intro w hw
    obtain ⟨hrule, hplace, -⟩ := mem_schedule hw
    exact hx w.1 hrule w.2 (mem_places.mp hplace)

end Acts.Replace
