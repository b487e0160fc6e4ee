import Acts.Ddl.Member
import Acts.Lib.Acyclic

/-!
# Struct layouts of DDL data (`ddl.cpp`)

* `DDLMember`, `DDLStruct`, `DDLEnum`, `DDLCompiled` — the definitions of a file.
* `completeStruct`, `complete` — `CompleteStruct`, which writes sizes and offsets into them.
* `Uses` — which structs are members of which.
* `Same` — the definitions without what is computed; `completeStruct_keeps` — nothing else is
  written, and only to what is reached.
* `complete_ends` — **the walk ends.**
-/

set_option autoImplicit false

namespace Acts.Ddl

open Acyclic Relation

/-! ## Maps -/

section Maps

variable {κ β γ : Type} [DecidableEq κ]

/-- The value of a key is changed in place. -/
def modifyKey (k : κ) (f : β → β) (l : List (κ × β)) : List (κ × β) :=
  l.map fun p => if p.1 = k then (p.1, f p.2) else p

theorem lookup_modifyKey (k k' : κ) (f : β → β) (l : List (κ × β)) :
    (modifyKey k f l).lookup k' =
      if k' = k then (l.lookup k').map f else l.lookup k' := by
  induction l with
  | nil => simp [modifyKey]
  | cons p l ih =>
    obtain ⟨q, b⟩ := p
    unfold modifyKey at ih ⊢
    rw [List.map_cons]
    by_cases hq : q = k
    · subst hq
      rw [if_pos rfl, List.lookup_cons, List.lookup_cons, ih]
      by_cases hk : k' = q
      · subst hk
        simp
      · have hk' : (k' == q) = false := by simpa using hk
        rw [hk', if_neg hk]
    · rw [if_neg hq, List.lookup_cons, List.lookup_cons, ih]
      by_cases hk : k' = q
      · subst hk
        simp [hq]
      · have hk' : (k' == q) = false := by simpa using hk
        rw [hk']

theorem mem_of_lookup {k : κ} {b : β} {l : List (κ × β)} (h : l.lookup k = some b) :
    (k, b) ∈ l := by
  induction l with
  | nil => cases h
  | cons p l ih =>
    rw [List.lookup_cons] at h
    split at h
    · rename_i heq
      cases h
      rw [show k = p.1 by simpa using heq]
      exact List.mem_cons_self
    · exact List.mem_cons_of_mem p (ih h)

theorem mem_keys_of_lookup {k : κ} {b : β} {l : List (κ × β)} (h : l.lookup k = some b) :
    k ∈ l.map Prod.fst := List.mem_map_of_mem (mem_of_lookup h)

end Maps

/-! ## The source -/

structure DDLMember where
  typeName : UInt64
  type : ACTSDDLType
  offset : UInt64
  size : UInt64
  isArray : Bool
  arraySize : UInt64
  deriving DecidableEq

/-- What a member adds to the size of its struct. -/
def DDLMember.total (sub : DDLMember) : UInt64 :=
  if sub.isArray then sub.size * sub.arraySize else sub.size

structure DDLStruct where
  size : UInt64
  values : List DDLMember
  deriving DecidableEq

namespace DDLStruct

/-- `sub.offset = current.size;` -/
def setOffset (j : Nat) (current : DDLStruct) : DDLStruct :=
  { current with values := current.values.modify j fun sub => { sub with offset := current.size } }

/-- `sub.size = size;` -/
def setSize (j : Nat) (size : UInt64) (current : DDLStruct) : DDLStruct :=
  { current with values := current.values.modify j fun sub => { sub with size } }

/-- `current.size += total;` -/
def grow (total : UInt64) (current : DDLStruct) : DDLStruct :=
  { current with size := current.size + total }

end DDLStruct

structure DDLEnum where
  values : List UInt64

def DDLEnum.getSize (e : DDLEnum) : UInt64 :=
  if e.values.length < 2 ^ 8 then 8
  else if e.values.length < 2 ^ 16 then 16
  else if e.values.length < 2 ^ 32 then 32
  else 64

structure DDLCompiled where
  enums : List (UInt64 × DDLEnum)
  structs : List (UInt64 × DDLStruct)

namespace DDLCompiled

def findEnum (d : DDLCompiled) (name : UInt64) : Option DDLEnum := d.enums.lookup name

def findStruct (d : DDLCompiled) (name : UInt64) : Option DDLStruct := d.structs.lookup name

/-- A struct is changed in place. -/
def update (d : DDLCompiled) (name : UInt64) (f : DDLStruct → DDLStruct) : DDLCompiled :=
  { d with structs := modifyKey name f d.structs }

end DDLCompiled

/-- What a call does: whether it accepts, and the definitions behind it; `none` without fuel. -/
abbrev Complete := UInt64 → List UInt64 → DDLCompiled → Option (Bool × DDLCompiled)

/-- The loop over the members of `name` from `j` on.  Of a member only its offset and its size are
ever written, so the rest of it is as it was when the loop began. -/
def completeMembers (call : Complete) (name : UInt64) (types : List UInt64) :
    List DDLMember → Nat → DDLCompiled → Option (Bool × DDLCompiled)
  | [], _, d => some (true, d)
  | sub :: subs, j, d =>
    let d := d.update name (·.setOffset j)
    if sub.type ≠ .class then
      completeMembers call name types subs (j + 1) (d.update name (·.grow sub.total))
    else
      match d.findEnum sub.typeName with
      | some e =>
        let sub := { sub with size := e.getSize }
        completeMembers call name types subs (j + 1)
          (d.update name fun current => (current.setSize j sub.size).grow sub.total)
      | none =>
        match d.findStruct sub.typeName with
        | none => some (false, d)
        | some _ =>
          if sub.typeName ∈ types then some (false, d)
          else
            match call sub.typeName (types ++ [sub.typeName]) d with
            | none => none
            | some (false, d) => some (false, d)
            | some (true, d) =>
              let size := ((d.findStruct sub.typeName).map DDLStruct.size).getD 0
              let sub := { sub with size }
              completeMembers call name types subs (j + 1)
                (d.update name fun current => (current.setSize j sub.size).grow sub.total)

/-- `CompleteStruct` of the struct `name`, with the names of the structs it is called from. -/
def completeStruct : Nat → Complete
  | 0, _, _, _ => none
  | fuel + 1, name, types, d =>
    match d.findStruct name with
    | none => none
    | some current =>
      if current.size ≠ 0 then some (true, d)
      else
        completeMembers (completeStruct fuel) name types current.values 0
          (d.update name fun current => { current with size := 0 })

/-- `CompleteStruct()`; `root` is the hash of that word. -/
def complete (root : UInt64) (d : DDLCompiled) : Option (Bool × DDLCompiled) :=
  match d.findStruct root with
  | none => some (false, d)
  | some _ => completeStruct (d.structs.length + 1) root [] d

/-! ## What structs use -/

/-- The struct that a member names: the name of an enum is not looked up among the structs. -/
def DDLCompiled.structOf (d : DDLCompiled) (sub : DDLMember) : Option UInt64 :=
  if sub.type = .class ∧ d.findEnum sub.typeName = none then some sub.typeName else none

/-- The struct `s` has a member of the struct `t`, which may not exist. -/
def Uses (d : DDLCompiled) (s t : UInt64) : Prop :=
  ∃ current, d.findStruct s = some current ∧ ∃ sub ∈ current.values, d.structOf sub = some t

/-- Every type reachable from `root` exists, and no struct of them contains itself. -/
structure Good (root : UInt64) (d : DDLCompiled) : Prop where
  found : ∀ t, Reaches (Uses d) root t → (d.findStruct t).isSome
  acyclic : ∀ t, Reaches (Uses d) root t → ¬ TransGen (Uses d) t t

/-- The definitions without what is computed. -/
def DDLMember.erase (sub : DDLMember) : DDLMember :=
  { sub with offset := 0, size := if sub.type = .class then 0 else sub.size }

def DDLStruct.erase (current : DDLStruct) : DDLStruct := ⟨0, current.values.map DDLMember.erase⟩

/-- The definitions `d` are those of `D`, with more or less of it computed. -/
structure Same (d D : DDLCompiled) : Prop where
  enums : d.enums = D.enums
  keys : d.structs.map Prod.fst = D.structs.map Prod.fst
  found : ∀ t, (d.findStruct t).map DDLStruct.erase = D.findStruct t

/-- Nothing is computed yet. -/
abbrev Fresh (D : DDLCompiled) : Prop := Same D D

/-! ## What a call leaves -/

section Keeps

variable {d d' : DDLCompiled} {name t : UInt64} {f : DDLStruct → DDLStruct}

@[simp] theorem findEnum_update (d : DDLCompiled) (name : UInt64) (f : DDLStruct → DDLStruct)
    (t : UInt64) : (d.update name f).findEnum t = d.findEnum t := rfl

theorem findStruct_update (d : DDLCompiled) (name t : UInt64) (f : DDLStruct → DDLStruct) :
    (d.update name f).findStruct t =
      if t = name then (d.findStruct t).map f else d.findStruct t :=
  lookup_modifyKey name t f d.structs

theorem findStruct_update_self {current : DDLStruct} (h : d.findStruct name = some current)
    (f : DDLStruct → DDLStruct) : (d.update name f).findStruct name = some (f current) := by
  rw [findStruct_update, if_pos rfl, h]
  rfl

theorem findStruct_update_ne (h : t ≠ name) (f : DDLStruct → DDLStruct) :
    (d.update name f).findStruct t = d.findStruct t := by
  rw [findStruct_update, if_neg h]

theorem erase_modify {g : DDLMember → DDLMember} {l : List DDLMember} {j : Nat}
    (h : ∀ sub, l[j]? = some sub → (g sub).erase = sub.erase) :
    (l.modify j g).map DDLMember.erase = l.map DDLMember.erase := by
  refine List.ext_getElem? fun k => ?_
  rw [List.getElem?_map, List.getElem?_map, List.getElem?_modify, Option.map_eq_map]
  by_cases hjk : j = k
  · subst hjk
    cases hj : l[j]? with
    | none => rfl
    | some sub => simp [h sub hj]
  · simp [hjk]

@[simp] theorem erase_setOffset (j : Nat) (current : DDLStruct) :
    (current.setOffset j).erase = current.erase :=
  congrArg (DDLStruct.mk 0) (erase_modify fun _ _ => rfl)

@[simp] theorem erase_grow (total : UInt64) (current : DDLStruct) :
    (current.grow total).erase = current.erase := rfl

/-- Sizes are only written to members that are structs or enums. -/
theorem erase_setSize {j : Nat} {size : UInt64} {current : DDLStruct}
    (h : ∀ sub, current.values[j]? = some sub → sub.type = .class) :
    (current.setSize j size).erase = current.erase := by
  refine congrArg (DDLStruct.mk 0) (erase_modify fun sub hsub => ?_)
  unfold DDLMember.erase
  simp [h sub hsub]

/-! ## One member -/

/-- A member of a struct or an enum has the size of that. -/
def DDLMember.sized (sub : DDLMember) (size : UInt64) : DDLMember :=
  if sub.type = .class then { sub with size } else sub

/-- The end of a turn of the loop. -/
def DDLStruct.finish (j : Nat) (sub : DDLMember) (current : DDLStruct) : DDLStruct :=
  if sub.type = .class then (current.setSize j sub.size).grow sub.total else current.grow sub.total

def DDLCompiled.enumSize (d : DDLCompiled) (name : UInt64) : UInt64 :=
  ((d.findEnum name).map DDLEnum.getSize).getD 0

def DDLCompiled.structSize (d : DDLCompiled) (name : UInt64) : UInt64 :=
  ((d.findStruct name).map DDLStruct.size).getD 0

theorem type_sized (sub : DDLMember) (size : UInt64) : (sub.sized size).type = sub.type := by
  unfold DDLMember.sized
  split
  · rfl
  · rfl

variable {call : Complete} {types : List UInt64} {sub : DDLMember} {subs : List DDLMember}
  {j : Nat} {r : Bool × DDLCompiled}

/-- What a turn of the loop does. -/
inductive Turn (call : Complete) (name : UInt64) (types : List UInt64) (sub : DDLMember)
    (subs : List DDLMember) (j : Nat) (d : DDLCompiled) (r : Bool × DDLCompiled) : Prop where
  /-- The member is no struct. -/
  | sized (hnone : d.structOf sub = none) (hrest : completeMembers call name types subs (j + 1)
      ((d.update name (·.setOffset j)).update name
        (·.finish j (sub.sized (d.enumSize sub.typeName)))) = some r)
  /-- The struct does not exist, or the walk is inside of it. -/
  | refused (t : UInt64) (hsome : d.structOf sub = some t)
    (hwhy : d.findStruct t = none ∨ t ∈ types) (hr : r = (false, d.update name (·.setOffset j)))
  | rejected (t : UInt64) (hsome : d.structOf sub = some t)
    (hfound : (d.findStruct t).isSome) (hnew : t ∉ types) (d' : DDLCompiled)
    (hcall : call t (types ++ [t]) (d.update name (·.setOffset j)) = some (false, d'))
    (hr : r = (false, d'))
  | entered (t : UInt64) (hsome : d.structOf sub = some t)
    (hfound : (d.findStruct t).isSome) (hnew : t ∉ types) (d' : DDLCompiled)
    (hcall : call t (types ++ [t]) (d.update name (·.setOffset j)) = some (true, d'))
    (hrest : completeMembers call name types subs (j + 1)
      (d'.update name (·.finish j (sub.sized (d'.structSize t)))) = some r)

theorem isSome_findStruct_update (d : DDLCompiled) (name t : UInt64)
    (f : DDLStruct → DDLStruct) :
    ((d.update name f).findStruct t).isSome = (d.findStruct t).isSome := by
  rw [findStruct_update]
  split
  · rw [Option.isSome_map]
  · rfl

/-- A turn of the loop, by the struct that the member names. -/
def nextTurn (call : Complete) (name : UInt64) (types : List UInt64) (sub : DDLMember)
    (subs : List DDLMember) (j : Nat) (d : DDLCompiled) : Option (Bool × DDLCompiled) :=
  match d.structOf sub with
  | none =>
    completeMembers call name types subs (j + 1)
      ((d.update name (·.setOffset j)).update name
        (·.finish j (sub.sized (d.enumSize sub.typeName))))
  | some t =>
    if d.findStruct t = none ∨ t ∈ types then some (false, d.update name (·.setOffset j))
    else
      match call t (types ++ [t]) (d.update name (·.setOffset j)) with
      | none => none
      | some (false, d') => some (false, d')
      | some (true, d') =>
        completeMembers call name types subs (j + 1)
          (d'.update name (·.finish j (sub.sized (d'.structSize t))))

theorem finish_of_class (htype : sub.type = .class) (j : Nat) (size : UInt64) :
    DDLStruct.finish j (sub.sized size) =
      fun current => (current.setSize j size).grow { sub with size }.total := by
  funext current
  unfold DDLMember.sized DDLStruct.finish
  rw [if_pos htype]
  exact if_pos htype

theorem finish_of_ne (htype : sub.type ≠ .class) (j : Nat) (size : UInt64) :
    DDLStruct.finish j (sub.sized size) = DDLStruct.grow sub.total := by
  funext current
  unfold DDLMember.sized DDLStruct.finish
  rw [if_neg htype]
  exact if_neg htype

theorem completeMembers_cons (call : Complete) (name : UInt64) (types : List UInt64)
    (sub : DDLMember) (subs : List DDLMember) (j : Nat) (d : DDLCompiled) :
    completeMembers call name types (sub :: subs) j d =
      nextTurn call name types sub subs j d := by
  unfold completeMembers nextTurn
  by_cases htype : sub.type = .class
  · have hfound := isSome_findStruct_update d name sub.typeName (·.setOffset j)
    dsimp only
    rw [if_neg (not_not.2 htype), findEnum_update]
    cases henum : d.findEnum sub.typeName with
    | some e =>
      have hnone : d.structOf sub = none := if_neg fun hand => by
        rw [henum] at hand
        cases hand.2
      have hsize : d.enumSize sub.typeName = e.getSize := by
        unfold DDLCompiled.enumSize
        rw [henum]
        rfl
      rw [hnone, hsize]
      dsimp only
      rw [finish_of_class htype]
    | none =>
      have hsome : d.structOf sub = some sub.typeName := if_pos ⟨htype, henum⟩
      rw [hsome]
      dsimp only
      cases hcurrent : (d.update name (·.setOffset j)).findStruct sub.typeName with
      | none =>
        rw [hcurrent] at hfound
        dsimp only
        rw [if_pos (.inl (Option.not_isSome_iff_eq_none.1 (by rw [← hfound]; decide)))]
      | some current =>
        rw [hcurrent] at hfound
        have hne : d.findStruct sub.typeName ≠ none := Option.isSome_iff_ne_none.1 hfound.symm
        dsimp only
        by_cases hmem : sub.typeName ∈ types
        · rw [if_pos hmem, if_pos (.inr hmem)]
        · rw [if_neg hmem, if_neg (not_or.2 ⟨hne, hmem⟩)]
          split
          · rfl
          · rfl
          · rw [finish_of_class htype]
            rfl
  · have hnone : d.structOf sub = none := if_neg fun hand => htype hand.1
    rw [hnone]
    dsimp only
    rw [if_pos htype, finish_of_ne htype]

theorem turn_of_eq (h : completeMembers call name types (sub :: subs) j d = some r) :
    Turn call name types sub subs j d r := by
  rw [completeMembers_cons] at h
  unfold nextTurn at h
  split at h
  · rename_i hnone
    exact .sized hnone h
  · rename_i t hsome
    split at h
    · rename_i hwhy
      cases h
      exact .refused t hsome hwhy rfl
    · rename_i hwhy
      rw [not_or] at hwhy
      have hfound := Option.isSome_iff_ne_none.2 hwhy.1
      split at h
      · cases h
      · rename_i d' hcall
        cases h
        exact .rejected t hsome hfound hwhy.2 d' hcall rfl
      · rename_i d' hcall
        exact .entered t hsome hfound hwhy.2 d' hcall h

/-! ## What is kept -/

variable {D : DDLCompiled}

namespace Same

theorem findEnum (h : Same d D) (t : UInt64) : d.findEnum t = D.findEnum t := by
  unfold DDLCompiled.findEnum
  rw [h.enums]

theorem structOf (h : Same d D) (sub : DDLMember) : d.structOf sub = D.structOf sub := by
  unfold DDLCompiled.structOf
  rw [h.findEnum]

theorem isSome (h : Same d D) (t : UInt64) : (d.findStruct t).isSome = (D.findStruct t).isSome := by
  rw [← h.found, Option.isSome_map]

theorem of_found (h : Same d D) {current : DDLStruct} (hfound : d.findStruct t = some current) :
    D.findStruct t = some current.erase := by
  rw [← h.found, hfound]
  rfl

theorem update (h : Same d D)
    (hf : ∀ current, d.findStruct name = some current → (f current).erase = current.erase) :
    Same (d.update name f) D where
  enums := h.enums
  keys := by
    rw [← h.keys]
    unfold DDLCompiled.update modifyKey
    rw [List.map_map]
    refine List.map_congr_left fun p _ => ?_
    dsimp only [Function.comp]
    split
    · rfl
    · rfl
  found u := by
    rw [findStruct_update, ← h.found]
    split
    · rename_i hu
      subst hu
      cases hcurrent : d.findStruct u with
      | none => rfl
      | some current => exact congrArg some (hf current hcurrent)
    · rfl

end Same

/-- The members from `j` on of the struct `name`. -/
def Behind (D : DDLCompiled) (name : UInt64) (j : Nat) (subs : List DDLMember) : Prop :=
  ∃ current, D.findStruct name = some current ∧
    current.values.drop j = subs.map DDLMember.erase

theorem structOf_erase (D : DDLCompiled) (sub : DDLMember) :
    D.structOf sub.erase = D.structOf sub := rfl

theorem Behind.next (h : Behind D name j (sub :: subs)) : Behind D name (j + 1) subs := by
  obtain ⟨current, hcurrent, hdrop⟩ := h
  refine ⟨current, hcurrent, ?_⟩
  rw [← List.drop_drop, hdrop]
  rfl

theorem Behind.getElem? (h : Behind D name j (sub :: subs)) :
    ∃ current, D.findStruct name = some current ∧ current.values[j]? = some sub.erase := by
  obtain ⟨current, hcurrent, hdrop⟩ := h
  refine ⟨current, hcurrent, ?_⟩
  have hzero : (current.values.drop j)[0]? = some sub.erase := by rw [hdrop]; rfl
  rwa [List.getElem?_drop] at hzero

theorem Behind.uses (h : Behind D name j (sub :: subs)) (hsome : D.structOf sub = some t) :
    Uses D name t := by
  obtain ⟨current, hcurrent, hj⟩ := h.getElem?
  exact ⟨current, hcurrent, _, List.mem_of_getElem? hj, hsome⟩

theorem Same.finish (h : Same d D) (hbehind : Behind D name j (sub :: subs)) (size : UInt64) :
    Same (d.update name (·.finish j (sub.sized size))) D := by
  refine h.update fun current hcurrent => ?_
  unfold DDLStruct.finish
  split
  · rename_i htype
    rw [type_sized] at htype
    refine erase_setSize fun sub' hsub' => ?_
    obtain ⟨current', hcurrent', hj⟩ := hbehind.getElem?
    rw [h.of_found hcurrent] at hcurrent'
    cases hcurrent'
    unfold DDLStruct.erase at hj
    rw [List.getElem?_map, hsub'] at hj
    have herase : sub'.erase = sub.erase := Option.some.inj hj
    have hsame : sub'.type = sub.type := congrArg (·.type) herase
    rw [hsame, htype]
  · rfl

/-- What a call keeps: all but what it computes, and that of what it does not reach. -/
def Keeps (D : DDLCompiled) (call : Complete) : Prop :=
  ∀ {t types d b d'}, Same d D → call t types d = some (b, d') →
    Same d' D ∧ ∀ u, ¬ Reaches (Uses D) t u → d'.findStruct u = d.findStruct u

theorem completeMembers_keeps (hkeeps : Keeps D call) {b : Bool} (hd : Same d D)
    (hbehind : Behind D name j subs)
    (h : completeMembers call name types subs j d = some (b, d')) :
    Same d' D ∧ ∀ u, ¬ Reaches (Uses D) name u → d'.findStruct u = d.findStruct u := by
  induction subs generalizing j d with
  | nil =>
    cases h
    exact ⟨hd, fun _ _ => rfl⟩
  | cons sub subs ih =>
    have hoffset : Same (d.update name (·.setOffset j)) D :=
      hd.update fun current _ => erase_setOffset j current
    have hne : ∀ u, ¬ Reaches (Uses D) name u → u ≠ name := by
      rintro u hu rfl
      exact hu .refl
    cases turn_of_eq h with
    | sized hnone hrest =>
      obtain ⟨hsame, hframe⟩ := ih (hoffset.finish hbehind _) hbehind.next hrest
      refine ⟨hsame, fun u hu => ?_⟩
      rw [hframe u hu, findStruct_update_ne (hne u hu), findStruct_update_ne (hne u hu)]
    | refused t hsome hwhy hr =>
      cases hr
      exact ⟨hoffset, fun u hu => findStruct_update_ne (hne u hu) _⟩
    | rejected t hsome hfound hnew d'' hcall hr =>
      cases hr
      rw [hd.structOf] at hsome
      obtain ⟨hsame, hframe⟩ := hkeeps hoffset hcall
      refine ⟨hsame, fun u hu => ?_⟩
      rw [hframe u fun hreach => hu (.head (hbehind.uses hsome) hreach),
        findStruct_update_ne (hne u hu)]
    | entered t hsome hfound hnew d'' hcall hrest =>
      rw [hd.structOf] at hsome
      obtain ⟨hsame, hframe⟩ := hkeeps hoffset hcall
      obtain ⟨hsame', hframe'⟩ := ih (hsame.finish hbehind _) hbehind.next hrest
      refine ⟨hsame', fun u hu => ?_⟩
      rw [hframe' u hu, findStruct_update_ne (hne u hu),
        hframe u fun hreach => hu (.head (hbehind.uses hsome) hreach),
        findStruct_update_ne (hne u hu)]

theorem Same.reset (h : Same d D) (name : UInt64) :
    Same (d.update name fun current => { current with size := 0 }) D :=
  h.update fun _ _ => rfl

theorem Same.behind (h : Same d D) {current : DDLStruct}
    (hfound : d.findStruct name = some current) : Behind D name 0 current.values :=
  ⟨current.erase, h.of_found hfound, rfl⟩

/-- **A call only writes sizes and offsets, and only to what it reaches.** -/
theorem completeStruct_keeps (D : DDLCompiled) (fuel : Nat) : Keeps D (completeStruct fuel) := by
  induction fuel with
  | zero =>
    intro t types d b d' _ h
    cases h
  | succ fuel ih =>
    intro t types d b d' hd h
    unfold completeStruct at h
    split at h
    · cases h
    · rename_i current hcurrent
      split at h
      · cases h
        exact ⟨hd, fun _ _ => rfl⟩
      · obtain ⟨hsame, hframe⟩ :=
          completeMembers_keeps ih (hd.reset t) (hd.behind hcurrent) h
        refine ⟨hsame, fun u hu => ?_⟩
        rw [hframe u hu, findStruct_update_ne]
        rintro rfl
        exact hu .refl

/-! ## The walk ends -/

theorem completeMembers_ends (hkeeps : Keeps D call) (hd : Same d D)
    (hbehind : Behind D name j subs)
    (hcall : ∀ t d, Same d D → (D.findStruct t).isSome → t ∉ types →
      call t (types ++ [t]) d ≠ none) :
    completeMembers call name types subs j d ≠ none := by
  induction subs generalizing j d with
  | nil => exact Option.some_ne_none _
  | cons sub subs ih =>
    have hoffset : Same (d.update name (·.setOffset j)) D :=
      hd.update fun current _ => erase_setOffset j current
    rw [completeMembers_cons]
    unfold nextTurn
    split
    · exact ih (hoffset.finish hbehind _) hbehind.next
    · rename_i t hsome
      split
      · exact Option.some_ne_none _
      · rename_i hwhy
        rw [not_or] at hwhy
        have hfound := Option.isSome_iff_ne_none.2 hwhy.1
        rw [hd.isSome] at hfound
        split
        · rename_i hnone
          exact absurd hnone (hcall t _ hoffset hfound hwhy.2)
        · exact Option.some_ne_none _
        · rename_i d' heq
          exact ih ((hkeeps hoffset heq).1.finish hbehind _) hbehind.next

/-- **A walk does not run out of structs**: those that it is inside of are all different. -/
theorem completeStruct_ends {fuel : Nat} (hd : Same d D) (hfound : (D.findStruct t).isSome)
    (hnodup : types.Nodup) (hkeys : types ⊆ D.structs.map Prod.fst)
    (hfuel : D.structs.length < fuel + types.length) :
    completeStruct fuel t types d ≠ none := by
  induction fuel generalizing t types d with
  | zero =>
    have hle := (hnodup.subperm hkeys).length_le
    rw [List.length_map] at hle
    omega
  | succ fuel ih =>
    unfold completeStruct
    split
    · rename_i hnone
      rw [← hd.isSome, hnone] at hfound
      cases hfound
    · rename_i current hcurrent
      split
      · exact Option.some_ne_none _
      · refine completeMembers_ends (completeStruct_keeps D fuel) (hd.reset t)
          (hd.behind hcurrent) fun u d' hd' hu hnew => ?_
        obtain ⟨current', hcurrent'⟩ := Option.isSome_iff_exists.1 hu
        refine ih hd' hu (List.nodup_append.2 ⟨hnodup, List.nodup_singleton u, ?_⟩) ?_ ?_
        · rintro a ha b hb rfl
          exact hnew (List.mem_singleton.1 hb ▸ ha)
        · exact List.append_subset.2
            ⟨hkeys, List.cons_subset.2 ⟨mem_keys_of_lookup hcurrent', List.nil_subset _⟩⟩
        · rw [List.length_append, List.length_singleton]
          omega

/-- `CompleteStruct()` ends. -/
theorem complete_ends (hfresh : Fresh D) (root : UInt64) : complete root D ≠ none := by
  unfold complete
  split
  · exact Option.some_ne_none _
  · rename_i current hcurrent
    exact completeStruct_ends hfresh (by rw [hcurrent]; rfl) List.nodup_nil (List.nil_subset _)
      (by rw [List.length_nil]; omega)

end Keeps

end Acts.Ddl
