import Acts.Gsc.OpcodeMap
import Acts.Lib.Links

/-!
# Platforms with the same code

What a run of `RegisterSameCodePlatform` calls on a VM leads to:

* `Collapsed` — `RemapSamePlatform` maps each platform to its representative, and platforms that
  were declared equal to the same one.
* `registerSameCodePlatform_join` — one call on collapsed platforms.
* `collapsed_run_iff` — **which runs keep the platforms collapsed from the first call to the
  last.**
-/

set_option autoImplicit false

namespace Acts.Gsc.OpcodeMap

variable {OPCode : Type}

/-- The platform that was declared equal to another one, behind it. -/
abbrev Pair := Platform × Platform

/-- `RemapSamePlatform` needs one step, and does not tell declared platforms apart. -/
structure Collapsed (info : VmInfo OPCode) (calls : List Pair) : Prop where
  idempotent : ∀ p, remapSamePlatform info (remapSamePlatform info p) = remapSamePlatform info p
  equal : ∀ c ∈ calls, remapSamePlatform info c.1 = remapSamePlatform info c.2

/-- The platforms are remapped to the same one already, or `sub` has its own code and no platform
is remapped to it. -/
def Joinable (info : VmInfo OPCode) (main sub : Platform) : Prop :=
  remapSamePlatform info main = remapSamePlatform info sub ∨
    (info.sameVmMap sub = none ∧ ∀ p, info.sameVmMap p ≠ some sub)

/-- The calls, one after the other. -/
def registerAll (info : VmInfo OPCode) : List Pair → Option (VmInfo OPCode)
  | [] => some info
  | (main, sub) :: calls =>
    (registerSameCodePlatform info main sub).bind fun info' => registerAll info' calls

/-- The platforms are collapsed before the calls, between them and after them; `made` are the
calls before. -/
def AlwaysCollapsed (info : VmInfo OPCode) (made : List Pair) : List Pair → Prop
  | [] => Collapsed info made
  | (main, sub) :: calls => Collapsed info made ∧
    ∀ info', registerSameCodePlatform info main sub = some info' →
      AlwaysCollapsed info' ((main, sub) :: made) calls

/-- Each call is one for platforms that can be joined. -/
def AlwaysJoinable (info : VmInfo OPCode) : List Pair → Prop
  | [] => True
  | (main, sub) :: calls => Joinable info main sub ∧
    ∀ info', registerSameCodePlatform info main sub = some info' → AlwaysJoinable info' calls

section Calls

variable {info info' : VmInfo OPCode} {main sub : Platform} {made : List Pair}

theorem collapsed_iff : Collapsed info made ↔ Links.Collapsed info.sameVmMap made :=
  ⟨fun h => ⟨h.idempotent, h.equal⟩, fun h => ⟨h.idempotent, h.equal⟩⟩

theorem addPlatform_sameVmMap (plt : Platform) :
    (addPlatform info plt).sameVmMap = info.sameVmMap := by
  unfold addPlatform
  split <;> rfl

/-- A call is always performed. -/
theorem registerSameCodePlatform_some (h : Acyclic info.sameVmMap) (main sub : Platform) :
    ∃ info', registerSameCodePlatform info main sub = some info' ∧ Acyclic info'.sameVmMap := by
  rw [← addPlatform_sameVmMap sub] at h
  obtain ⟨root, hroot, hown⟩ := rootOf_ends h main
  unfold registerSameCodePlatform
  dsimp only
  rw [hroot]
  refine ⟨_, rfl, ?_⟩
  dsimp only
  split
  · exact h
  · rename_i hne
    exact h.insert hown hne

theorem registerAll_some (h : Acyclic info.sameVmMap) (calls : List Pair) :
    ∃ info', registerAll info calls = some info' := by
  induction calls generalizing info with
  | nil => exact ⟨info, rfl⟩
  | cons c calls ih =>
    obtain ⟨info', hcall, hacyclic⟩ := registerSameCodePlatform_some h c.1 c.2
    obtain ⟨last, hlast⟩ := ih hacyclic
    refine ⟨last, ?_⟩
    rw [registerAll, hcall, Option.bind_some, hlast]

/-- On collapsed platforms the chain has at most one link. -/
theorem rootOf_collapsed (h : Links.Collapsed info.sameVmMap made)
    (hlinked : Links.Linked info.sameVmMap made) (fuel : Nat) (p : Platform) :
    rootOf info.sameVmMap (fuel + 2) p = some (Links.rep info.sameVmMap p) := by
  have hroot := h.idempotent p
  cases hp : info.sameVmMap p with
  | none => rw [rootOf, hp, Links.rep_of_none hp]
  | some q =>
    rw [Links.rep_of_some hp] at hroot ⊢
    cases hq : info.sameVmMap q with
    | none => simp only [rootOf, hp, hq]
    | some r =>
      rw [Links.rep_of_some hq] at hroot
      rw [hroot] at hq
      exact absurd hq (hlinked.noSelf q)

/-- A call on collapsed platforms sets the link. -/
theorem registerSameCodePlatform_join (h : Links.Collapsed info.sameVmMap made)
    (hlinked : Links.Linked info.sameVmMap made) (main sub : Platform) :
    ∃ info', registerSameCodePlatform info main sub = some info' ∧
      info'.sameVmMap = Links.join info.sameVmMap main sub := by
  have hroot := rootOf_collapsed h hlinked 7 main
  unfold registerSameCodePlatform Links.join
  dsimp only
  rw [addPlatform_sameVmMap, show Fintype.card Platform = 7 + 2 from rfl, hroot]
  refine ⟨_, rfl, ?_⟩
  dsimp only
  split
  · exact addPlatform_sameVmMap sub
  · rfl

/-- One call after the other. -/
theorem always_iff (calls : List Pair) (h : Links.Collapsed info.sameVmMap made)
    (hlinked : Links.Linked info.sameVmMap made) :
    AlwaysCollapsed info made calls ↔ AlwaysJoinable info calls := by
  induction calls generalizing info made with
  | nil => exact ⟨fun _ => trivial, fun _ => collapsed_iff.mpr h⟩
  | cons c calls ih =>
    obtain ⟨main, sub⟩ := c
    obtain ⟨info₁, hcall, hmap⟩ := registerSameCodePlatform_join h hlinked main sub
    have hlinked₁ : Links.Linked info₁.sameVmMap ((main, sub) :: made) := by
      rw [hmap]
      exact hlinked.join
    have hstep := Links.collapsed_join_iff main sub h hlinked
    rw [← hmap] at hstep
    constructor
    · rintro ⟨-, hrest⟩
      have hlater := hrest info₁ hcall
      have hnow : Collapsed info₁ ((main, sub) :: made) := by
        cases calls with
        | nil => exact hlater
        | cons c calls => exact hlater.1
      refine ⟨hstep.mp (collapsed_iff.mp hnow), ?_⟩
      intro info' hinfo'
      rw [hcall] at hinfo'
      cases hinfo'
      exact (ih (collapsed_iff.mp hnow) hlinked₁).mp hlater
    · rintro ⟨hjoin, hrest⟩
      refine ⟨collapsed_iff.mpr h, ?_⟩
      intro info' hinfo'
      rw [hcall] at hinfo'
      cases hinfo'
      exact (ih (hstep.mpr hjoin) hlinked₁).mpr (hrest info₁ hcall)

end Calls

/-- **A run of calls is always performed, and keeps the platforms collapsed exactly when each of its
calls is for platforms that can be joined.** -/
theorem collapsed_run_iff (info : VmInfo OPCode) (hnone : info.sameVmMap = fun _ => none)
    (calls : List Pair) :
    (∃ info', registerAll info calls = some info') ∧
      (AlwaysCollapsed info [] calls ↔ AlwaysJoinable info calls) := by
  constructor
  · refine registerAll_some ⟨fun _ => 0, ?_⟩ calls
    intro p q hpq
    rw [hnone] at hpq
    cases hpq
  · apply always_iff
    · rw [hnone]
      exact Links.collapsed_nil
    · rw [hnone]
      exact Links.linked_nil

/-- The alpha version has the code of the PC version. -/
theorem collapsed_run_alpha :
    (initial : VmInfo Gsc.OPCode).sameVmMap = (fun _ => none) ∧
    (∃ info', registerAll (initial : VmInfo Gsc.OPCode) [(.pc, .pcAlpha)] = some info') ∧
      (AlwaysCollapsed (initial : VmInfo Gsc.OPCode) [] [(.pc, .pcAlpha)] ↔
        AlwaysJoinable (initial : VmInfo Gsc.OPCode) [(.pc, .pcAlpha)]) :=
  ⟨rfl, collapsed_run_iff initial rfl [(.pc, .pcAlpha)]⟩

/-- A platform that others are remapped to is declared equal to a third one, and a platform is
declared equal to two others. -/
theorem platforms_separated :
    (∃ info', registerAll (initial : VmInfo Gsc.OPCode) [(.pc, .playstation), (.xbox, .pc)] =
        some info' ∧
      remapSamePlatform info' .playstation = .pc ∧ remapSamePlatform info' .pc = .xbox) ∧
    (∃ info', registerAll (initial : VmInfo Gsc.OPCode)
        [(.pc, .playstation), (.xbox, .playstation)] = some info' ∧
      remapSamePlatform info' .playstation = .xbox ∧ remapSamePlatform info' .pc = .pc) :=
  ⟨⟨_, rfl, rfl, rfl⟩, ⟨_, rfl, rfl, rfl⟩⟩

end Acts.Gsc.OpcodeMap
