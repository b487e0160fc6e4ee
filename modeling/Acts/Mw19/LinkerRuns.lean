import Acts.Lib.Tiling
import Acts.Mw19.Linker
import Mathlib.Logic.Function.Basic

/-!
# What the linker leaves in a zone

* `growths` — what the calls for one block add to its reservation: the padding of an alignment, or
  the size of a reserve or a write.
* `Writer.run_grows` — a run of the writer, in its own terms.
* `Linked` — the zone of a list of assets: its body, its blocks, and the range of each asset.
* `link_linked` — **the linker leaves such a zone.**
-/

set_option autoImplicit false

namespace Acts.Mw19.Linker

open Acts.Lib.Tiling

/-! ## Calls -/

def Op.block : Op → Fin 11
  | .align block _ => block
  | .reserve block _ => block
  | .write block _ => block

/-- What a call appends to the body. -/
def Op.bytes : Op → Data
  | .align _ _ => []
  | .reserve _ _ => []
  | .write _ bytes => bytes

/-- What a call adds to a reservation of size `n`. -/
def Op.growth (n : Nat) : Op → Nat
  | .align _ alignment => aligned n alignment - n
  | .reserve _ size => size
  | .write _ bytes => bytes.length

/-- What each call adds, from a reservation of size `n`. -/
def growths : Nat → List Op → List Nat
  | _, [] => []
  | n, op :: ops => op.growth n :: growths (n + op.growth n) ops

/-- The calls for a block. -/
def opsOf (b : Fin 11) (ops : List Op) : List Op := ops.filter fun op => op.block = b

/-- Alignments are positive. -/
def Op.Valid : Op → Prop
  | .align _ alignment => 0 < alignment
  | _ => True

/-- No call adds more than this. -/
def Op.cost : Op → Nat
  | .align _ alignment => alignment
  | .reserve _ size => size
  | .write _ bytes => bytes.length

theorem Op.growth_le_cost (op : Op) (hop : op.Valid) (n : Nat) : op.growth n ≤ op.cost := by
  cases op with
  | align block alignment =>
    have hlt := aligned_lt n hop
    show aligned n alignment - n ≤ alignment
    omega
  | reserve block size => exact Nat.le_refl _
  | write block bytes => exact Nat.le_refl _

theorem Op.length_bytes_le (op : Op) : op.bytes.length ≤ op.cost := by
  cases op with
  | align block alignment => exact Nat.zero_le _
  | reserve block size => exact Nat.zero_le _
  | write block bytes => exact Nat.le_refl _

/-! ## Runs of the writer -/

/-- What a writer has done so far stays within its limit. -/
structure Writer.Within (w : Writer) : Prop where
  body : w.zone.body.length ≤ w.limit
  blocks : ∀ b, w.zone.blocks b ≤ w.limit

/-- What a call does to the writer. -/
structure Writer.Does (w : Writer) (op : Op) (w' : Writer) : Prop where
  limit : w'.limit = w.limit
  body : w'.zone.body = w.zone.body ++ op.bytes
  blocks : w'.zone.blocks = Function.update w.zone.blocks op.block
    (w.zone.blocks op.block + op.growth (w.zone.blocks op.block))
  within : w.Within → w'.Within

namespace Writer

variable {w w' : Writer}

theorem within_setBlock {block : Fin 11} {n : Nat} (hn : n ≤ w.limit) (hw : w.Within) :
    (w.setBlock block n).Within := by
  refine ⟨hw.body, ?_⟩
  intro b
  by_cases hb : b = block
  · subst hb
    show Function.update w.zone.blocks b n b ≤ w.limit
    rwa [Function.update_self]
  · show Function.update w.zone.blocks block n b ≤ w.limit
    rw [Function.update_of_ne hb]
    exact hw.blocks b

theorem align_does {block : Fin 11} {alignment : Nat} (ha : 0 < alignment)
    (h : w.align block alignment = .ok w') : w.Does (.align block alignment) w' := by
  unfold align at h
  dsimp only at h
  split at h
  · cases h
  · rename_i hle
    cases h
    refine ⟨rfl, (List.append_nil _).symm, ?_, within_setBlock (by omega)⟩
    have hn := le_aligned (w.zone.blocks block) ha
    have hsum : w.zone.blocks block + Op.growth (w.zone.blocks block) (.align block alignment) =
        aligned (w.zone.blocks block) alignment := by
      show w.zone.blocks block + (aligned (w.zone.blocks block) alignment - w.zone.blocks block) = _
      omega
    exact congrArg (Function.update w.zone.blocks block) hsum.symm

theorem reserve_does {block : Fin 11} {size : Nat} (h : w.reserve block size = .ok w') :
    w' = w.setBlock block (w.zone.blocks block + size) ∧ size ≤ w.limit - w.zone.blocks block := by
  unfold reserve at h
  dsimp only at h
  split at h
  · cases h
  · rename_i hle
    cases h
    exact ⟨rfl, Nat.le_of_not_lt hle⟩

theorem exec_does {op : Op} (hop : op.Valid) (h : w.exec op = .ok w') : w.Does op w' := by
  cases op with
  | align block alignment => exact align_does hop h
  | reserve block size =>
    obtain ⟨rfl, hle⟩ := reserve_does h
    refine ⟨rfl, (List.append_nil _).symm, rfl, ?_⟩
    intro hw
    have hblock := hw.blocks block
    exact within_setBlock (by omega) hw
  | write block bytes =>
    have hwrite : w.write block bytes = .ok w' := h
    unfold write at hwrite
    split at hwrite
    · cases hwrite
    · rename_i hbody
      obtain ⟨w₁, hreserve, hw₁⟩ := ok_of_bind hwrite
      obtain ⟨rfl, hle⟩ := reserve_does hreserve
      cases hw₁
      refine ⟨rfl, rfl, rfl, ?_⟩
      intro hw
      have hblock := hw.blocks block
      have hlimit := hw.body
      have hset : (w.setBlock block (w.zone.blocks block + bytes.length)).Within :=
        within_setBlock (by omega) hw
      refine ⟨?_, hset.blocks⟩
      show (w.zone.body ++ bytes).length ≤ w.limit
      rw [List.length_append]
      omega

/-- A whole run of the writer. -/
theorem run_grows {ops : List Op} (hops : ∀ op ∈ ops, op.Valid) (h : w.run ops = .ok w') :
    w'.limit = w.limit ∧ w'.zone.body = w.zone.body ++ ops.flatMap Op.bytes ∧
      (∀ b, w'.zone.blocks b =
        w.zone.blocks b + (growths (w.zone.blocks b) (opsOf b ops)).sum) ∧
      (w.Within → w'.Within) := by
  induction ops generalizing w with
  | nil =>
    cases h
    exact ⟨rfl, (List.append_nil _).symm, fun b => rfl, id⟩
  | cons op ops ih =>
    obtain ⟨w₁, h₁, h₂⟩ := ok_of_bind h
    have hdoes := exec_does (hops op List.mem_cons_self) h₁
    obtain ⟨hlimit, hbody, hblocks, hwithin⟩ :=
      ih (fun o ho => hops o (List.mem_cons_of_mem op ho)) h₂
    refine ⟨hlimit.trans hdoes.limit, ?_, ?_, fun hw => hwithin (hdoes.within hw)⟩
    · rw [hbody, hdoes.body, List.flatMap_cons, List.append_assoc]
    · intro b
      rw [hblocks, hdoes.blocks]
      by_cases hb : b = op.block
      · subst hb
        have hcons : opsOf op.block (op :: ops) = op :: opsOf op.block ops :=
          List.filter_cons_of_pos (by simp)
        rw [Function.update_self, hcons, growths, List.sum_cons, Nat.add_assoc]
      · have hcons : opsOf b (op :: ops) = opsOf b ops :=
          List.filter_cons_of_neg (by simpa using fun h => hb h.symm)
        rw [Function.update_of_ne hb, hcons]

theorem exec_ok {op : Op} (hop : op.Valid) (hbody : w.zone.body.length + op.cost ≤ w.limit)
    (hblock : w.zone.blocks op.block + op.cost ≤ w.limit) : ∃ w', w.exec op = .ok w' := by
  cases op with
  | align block alignment =>
    have hlt := aligned_lt (w.zone.blocks block) hop
    have hcost : w.zone.blocks block + alignment ≤ w.limit := hblock
    have hle : ¬aligned (w.zone.blocks block) alignment > w.limit := by omega
    exact ⟨_, if_neg hle⟩
  | reserve block size =>
    have hcost : w.zone.blocks block + size ≤ w.limit := hblock
    have hle : ¬size > w.limit - w.zone.blocks block := by omega
    exact ⟨_, if_neg hle⟩
  | write block bytes =>
    have hcost : w.zone.blocks block + bytes.length ≤ w.limit := hblock
    have hcost' : w.zone.body.length + bytes.length ≤ w.limit := hbody
    have hreserve : w.reserve block bytes.length =
        .ok (w.setBlock block (w.zone.blocks block + bytes.length)) := if_neg (by omega)
    have hwrite : w.write block bytes = (w.reserve block bytes.length >>= fun w₁ =>
        .ok { w₁ with zone := { w₁.zone with body := w₁.zone.body ++ bytes } }) :=
      if_neg (by omega)
    rw [hreserve] at hwrite
    exact ⟨_, hwrite⟩

/-- A run that costs no more than what is left of the limit succeeds. -/
theorem run_ok {ops : List Op} (hops : ∀ op ∈ ops, op.Valid)
    (hbody : w.zone.body.length + (ops.map Op.cost).sum ≤ w.limit)
    (hblocks : ∀ b, w.zone.blocks b + (ops.map Op.cost).sum ≤ w.limit) :
    ∃ w', w.run ops = .ok w' := by
  induction ops generalizing w with
  | nil => exact ⟨w, rfl⟩
  | cons op ops ih =>
    rw [List.map_cons, List.sum_cons] at hbody hblocks
    have hop := hops op List.mem_cons_self
    have hblock := hblocks op.block
    obtain ⟨w₁, h₁⟩ : ∃ w₁, w.exec op = .ok w₁ := exec_ok hop (by omega) (by omega)
    have hdoes := exec_does hop h₁
    have hgrowth := op.growth_le_cost hop (w.zone.blocks op.block)
    have hbytes := op.length_bytes_le
    have hbody₁ : w₁.zone.body.length + (ops.map Op.cost).sum ≤ w₁.limit := by
      rw [hdoes.body, List.length_append, hdoes.limit]
      omega
    have hblocks₁ : ∀ b, w₁.zone.blocks b + (ops.map Op.cost).sum ≤ w₁.limit := by
      intro b
      have hb := hblocks b
      rw [hdoes.blocks, hdoes.limit]
      by_cases h : b = op.block
      · subst h
        rw [Function.update_self]
        omega
      · rw [Function.update_of_ne h]
        omega
    obtain ⟨w', h'⟩ := ih (fun o ho => hops o (List.mem_cons_of_mem op ho)) hbody₁ hblocks₁
    refine ⟨w', ?_⟩
    rw [run, h₁]
    exact h'

end Writer

/-! ## Assets -/

theorem valid_texts (ss : List Data) : ∀ op ∈ ss.map (Op.text 5), op.Valid := by
  intro op hop
  obtain ⟨s, -, rfl⟩ := List.mem_map.mp hop
  trivial

theorem valid_aligned {alignment : Nat} (ha : 0 < alignment) (bytes : Data) {ops : List Op}
    (hops : ∀ op ∈ ops, op.Valid) :
    ∀ op ∈ Op.align 5 alignment :: Op.write 5 bytes :: ops, op.Valid := by
  intro op hop
  rcases List.mem_cons.mp hop with rfl | hop
  · exact ha
  · rcases List.mem_cons.mp hop with rfl | hop
    · trivial
    · exact hops op hop

theorem valid_nil : ∀ op ∈ ([] : List Op), op.Valid := by
  intro op hop
  cases hop

theorem valid_write {block : Fin 11} {bytes : Data} {ops : List Op}
    (hops : ∀ op ∈ ops, op.Valid) : ∀ op ∈ Op.write block bytes :: ops, op.Valid := by
  intro op hop
  rcases List.mem_cons.mp hop with rfl | hop
  · trivial
  · exact hops op hop

/-- The calls for the cells and the strings of an asset. -/
theorem valid_strings (p : Parts) : ∀ op ∈
    (if p.indices.isEmpty then [] else
      [Op.align 5 2, .write 5 p.indices, .align 5 4, .write 5 p.hashes]) ++
    (if p.strings.isEmpty then [] else
      [Op.align 5 8, .write 5 (p.strings.flatMap fun _ => leBytes 8 follows)] ++
        p.strings.map (.text 5)), op.Valid := by
  refine (List.forall_mem_append (p := Op.Valid)).mpr ⟨?_, ?_⟩
  · split
    · exact valid_nil
    · exact valid_aligned (by decide) _ (valid_aligned (by decide) _ valid_nil)
  · split
    · exact valid_nil
    · exact valid_aligned (by decide) _ (valid_texts p.strings)

theorem valid_assetOps (asset : Asset) (p : Parts) : ∀ op ∈ assetOps asset p, op.Valid := by
  unfold assetOps
  refine (List.forall_mem_append (p := Op.Valid)).mpr ⟨?_, ?_⟩
  · intro op hop
    simp only [List.mem_cons, List.not_mem_nil, or_false] at hop
    rcases hop with rfl | rfl | rfl | rfl | rfl
    · exact (by decide : 0 < 8)
    · exact (by decide : 0 < 8)
    · trivial
    · trivial
    · trivial
  · cases asset.type with
    | rawfile => exact valid_write valid_nil
    | luafile => exact valid_aligned (by decide) _ valid_nil
    | ttf => exact valid_write valid_nil
    | localize => exact valid_texts _
    | scriptfile => exact valid_write (valid_write valid_nil)
    | netconststrings => exact valid_strings p
    | soundbanklist => exact valid_aligned (by decide) _ valid_nil
    | stringtable => exact valid_strings p

theorem valid_rootOps (assets : List Asset) : ∀ op ∈ rootOps assets, op.Valid :=
  valid_write (valid_aligned (by decide) _ valid_nil)

/-- The name of an asset is written, with its end. -/
theorem length_assetOps_pos (asset : Asset) (p : Parts) :
    0 < ((assetOps asset p).flatMap Op.bytes).length := by
  unfold assetOps
  rw [List.flatMap_append, List.length_append]
  have hname : 0 < ([Op.align 1 8, .align 5 8, .reserve 5 8, .write 1 p.header,
      .text 5 asset.name].flatMap Op.bytes).length := by
    simp only [List.flatMap_cons, List.flatMap_nil, Op.bytes, Op.text, List.length_append,
      List.length_cons]
    omega
  omega

/-! ## The zone -/

/-- The calls for a list of assets. -/
def linkOps (assets : List Asset) (parts : List Parts) : List Op :=
  rootOps assets ++ (assets.zip parts).flatMap fun ap => assetOps ap.1 ap.2

/-- The range of an asset, from its first byte to the one behind its last. -/
def AssetRange.span (r : AssetRange) : Range := (r.bodyOffset, r.bodyOffset + r.bodyBytes)

/-- The bytes that a range selects. -/
def AssetRange.select (r : AssetRange) (body : Data) : Data :=
  (body.drop r.bodyOffset).take r.bodyBytes

/-- A range belongs to an asset: it has the name of the asset, and selects what was written for it. -/
structure AssetRange.Of (r : AssetRange) (ap : Asset × Parts) (body : Data) : Prop where
  pool : r.pool = ap.1.type
  name : r.name = ap.1.name
  bytes : r.select body = (assetOps ap.1 ap.2).flatMap Op.bytes

/-- The zone of a list of assets. -/
structure Linked (assets : List Asset) (parts : List Parts) (limit : Nat) (zone : Zone)
    (ranges : List AssetRange) : Prop where
  body : zone.body = (linkOps assets parts).flatMap Op.bytes
  blocks : ∀ b, zone.blocks b = (growths 0 (opsOf b (linkOps assets parts))).sum
  body_le : zone.body.length ≤ limit
  blocks_le : ∀ b, zone.blocks b ≤ limit
  contiguous : Contiguous (32 + 16 * assets.length) (ranges.map AssetRange.span) zone.body.length
  ranges : List.Forall₂ (fun r ap => AssetRange.Of r ap zone.body) ranges (assets.zip parts)

theorem run_append {w : Writer} (xs ys : List Op) :
    w.run (xs ++ ys) = (w.run xs >>= fun w' => w'.run ys) := by
  induction xs generalizing w with
  | nil => rfl
  | cons op xs ih =>
    rw [List.cons_append, Writer.run, Writer.run, bind_assoc]
    exact bind_congr fun w' => ih

/-- The second loop runs the calls of every asset, and records where their bytes are. -/
theorem linkAssets_run {deflate : Data → Except String Data} {w w' : Writer}
    {assets : List Asset} {ranges : List AssetRange}
    (h : linkAssets deflate w assets = .ok (w', ranges)) :
    ∃ parts, List.Forall₂ (fun a p => prepare deflate w.limit a = .ok p) assets parts ∧
      w.run ((assets.zip parts).flatMap fun ap => assetOps ap.1 ap.2) = .ok w' ∧
      Contiguous w.zone.body.length (ranges.map AssetRange.span) w'.zone.body.length ∧
      List.Forall₂ (fun r ap => AssetRange.Of r ap w'.zone.body) ranges (assets.zip parts) := by
  induction assets generalizing w ranges with
  | nil =>
    cases h
    exact ⟨[], .nil, rfl, rfl, .nil⟩
  | cons asset assets ih =>
    obtain ⟨p, hp, h⟩ := ok_of_bind h
    obtain ⟨w₁, hrun, h⟩ := ok_of_bind h
    obtain ⟨⟨w₂, rest⟩, hrest, h⟩ := ok_of_bind h
    cases h
    obtain ⟨hlimit, hbody, -, -⟩ := Writer.run_grows (valid_assetOps asset p) hrun
    obtain ⟨parts, hparts, hruns, hcontiguous, hranges⟩ := ih hrest
    have hvalid : ∀ op ∈ (assets.zip parts).flatMap fun ap => assetOps ap.1 ap.2, op.Valid := by
      intro op hop
      obtain ⟨ap, -, hop⟩ := List.mem_flatMap.mp hop
      exact valid_assetOps ap.1 ap.2 op hop
    obtain ⟨-, hbody', -, -⟩ := Writer.run_grows hvalid hruns
    have hpos := length_assetOps_pos asset p
    have hlen := congrArg List.length hbody
    rw [List.length_append] at hlen
    rw [hlimit] at hparts
    refine ⟨p :: parts, .cons hp hparts, ?_, ⟨rfl, ?_, ?_⟩, .cons ⟨rfl, rfl, ?_⟩ hranges⟩
    · rw [List.zip_cons_cons, List.flatMap_cons, run_append, hrun]
      exact hruns
    · show w.zone.body.length < w.zone.body.length + (w₁.zone.body.length - w.zone.body.length)
      omega
    · have hend : w.zone.body.length + (w₁.zone.body.length - w.zone.body.length) =
          w₁.zone.body.length := by omega
      show Contiguous (w.zone.body.length + (w₁.zone.body.length - w.zone.body.length)) _ _
      rwa [hend]
    · show (w'.zone.body.drop w.zone.body.length).take
        (w₁.zone.body.length - w.zone.body.length) = _
      rw [hbody', hbody, List.append_assoc, List.drop_left, List.length_append,
        Nat.add_sub_cancel_left, List.take_left]

theorem length_rootOps (assets : List Asset) :
    ((rootOps assets).flatMap Op.bytes).length = 32 + 16 * assets.length := by
  have htable : (assets.flatMap fun a => leBytes 4 (a.pool.id % 2 ^ 32) ++ List.replicate 4 0 ++
      leBytes 8 insert).length = 16 * assets.length := by
    induction assets with
    | nil => rfl
    | cons a assets ih =>
      simp only [List.flatMap_cons, List.length_append, length_leBytes, List.length_replicate,
        List.length_cons, ih]
      omega
  unfold rootOps
  simp only [List.flatMap_cons, List.flatMap_nil, Op.bytes, List.length_append, htable, pointer,
    length_leBytes, List.length_replicate, List.length_nil]
  omega

/-- The first loop keeps the assets in their order. -/
theorem checkAssets_json {profile : Profile} {names : List (Nat × Data)} {items : List Json}
    {assets : List Asset} (h : checkAssets profile names items = .ok assets) :
    assets.map Asset.json = items := by
  induction items generalizing names assets with
  | nil =>
    cases h
    rfl
  | cons a as ih =>
    obtain ⟨asset, hasset, h⟩ := ok_of_bind h
    obtain ⟨rest, hrest, h⟩ := ok_of_bind h
    cases h
    have hjson : asset.json = a := by
      obtain ⟨nameJson, -, hasset⟩ := ok_of_bind hasset
      obtain ⟨name, -, hasset⟩ := ok_of_bind hasset
      split at hasset
      · cases hasset
      · obtain ⟨poolJson, -, hasset⟩ := ok_of_bind hasset
        obtain ⟨type, -, hasset⟩ := ok_of_bind hasset
        split at hasset
        · split at hasset
          · cases hasset
          · cases hasset
            rfl
        · cases hasset
    rw [List.map_cons, hjson, ih hrest]

theorem valid_linkOps (assets : List Asset) (parts : List Parts) :
    ∀ op ∈ linkOps assets parts, op.Valid := by
  intro op hop
  rcases List.mem_append.mp hop with hop | hop
  · exact valid_rootOps assets op hop
  · obtain ⟨ap, -, hop⟩ := List.mem_flatMap.mp hop
    exact valid_assetOps ap.1 ap.2 op hop

/-- The linker is a run of the writer over the calls of all assets. -/
theorem link_run {deflate : Data → Except String Data} {profile : Profile}
    {items : List Json} {limit : Nat} {zone : Zone} {ranges : List AssetRange}
    (h : link deflate profile (.array items) limit = .ok (zone, ranges)) :
    ∃ assets parts w, limit ≤ 128 * 1024 * 1024 ∧ checkAssets profile [] items = .ok assets ∧
      List.Forall₂ (fun a p => prepare deflate limit a = .ok p) assets parts ∧
      (Writer.mk limit ⟨[], fun _ => 0⟩).run (linkOps assets parts) = .ok w ∧ w.zone = zone ∧
      Contiguous (32 + 16 * assets.length) (ranges.map AssetRange.span) zone.body.length ∧
      List.Forall₂ (fun r ap => AssetRange.Of r ap zone.body) ranges (assets.zip parts) := by
  unfold link at h
  dsimp only at h
  split at h
  · cases h
  · rename_i hlimit
    obtain ⟨assets, hassets, h⟩ := ok_of_bind h
    obtain ⟨w₁, hroot, h⟩ := ok_of_bind h
    obtain ⟨⟨w₂, rs⟩, hlink, h⟩ := ok_of_bind h
    cases h
    obtain ⟨hlimit₁, hbody₁, -, -⟩ := Writer.run_grows (valid_rootOps assets) hroot
    obtain ⟨parts, hparts, hruns, hcontiguous, hranges⟩ := linkAssets_run hlink
    have hall : (Writer.mk limit ⟨[], fun _ => 0⟩).run (linkOps assets parts) = .ok w₂ := by
      rw [linkOps, run_append, hroot]
      exact hruns
    have hstart : w₁.zone.body.length = 32 + 16 * assets.length := by
      rw [hbody₁]
      exact length_rootOps assets
    rw [hstart] at hcontiguous
    rw [hlimit₁] at hparts
    exact ⟨assets, parts, w₂, by omega, hassets, hparts, hall, rfl, hcontiguous, hranges⟩

/-- **The linker**: the body is what the calls for the list and for its assets write, in order; each
block has the size that its calls add up to; the ranges of the assets follow one another from the
table of pools to the end of the body; nothing is larger than the limit. -/
theorem link_linked {deflate : Data → Except String Data} {profile : Profile}
    {items : List Json} {limit : Nat} {zone : Zone} {ranges : List AssetRange}
    (h : link deflate profile (.array items) limit = .ok (zone, ranges)) :
    ∃ assets parts, assets.map Asset.json = items ∧
      List.Forall₂ (fun a p => prepare deflate limit a = .ok p) assets parts ∧
      Linked assets parts limit zone ranges := by
  obtain ⟨assets, parts, w, -, hassets, hparts, hrun, rfl, hcontiguous, hranges⟩ := link_run h
  obtain ⟨hlimit, hbody, hblocks, hwithin⟩ := Writer.run_grows (valid_linkOps assets parts) hrun
  have hw := hwithin ⟨Nat.zero_le _, fun b => Nat.zero_le _⟩
  refine ⟨assets, parts, checkAssets_json hassets, hparts, hbody, ?_, ?_, ?_, hcontiguous, hranges⟩
  · intro b
    rw [hblocks b]
    exact Nat.zero_add _
  · exact Nat.le_trans hw.body (Nat.le_of_eq hlimit)
  · intro b
    exact Nat.le_trans (hw.blocks b) (Nat.le_of_eq hlimit)

/-! ## One text -/

def localizeProfile : Profile := ⟨"replay-1.20", [⟨ascii "localize", 24, 16⟩]⟩

def localizeAsset : Json :=
  .object [("pool", .string (ascii "localize")), ("name", .string (ascii "a")),
    ("value", .string (ascii "b"))]

theorem localize_linked :
    ∃ zone ranges assets parts,
      link .ok localizeProfile (.array [localizeAsset]) 4096 = .ok (zone, ranges) ∧
        assets.map Asset.json = [localizeAsset] ∧ Linked assets parts 4096 zone ranges := by
  have hrun : (link .ok localizeProfile (.array [localizeAsset]) 4096).toOption.isSome = true := by
    decide +kernel
  obtain ⟨⟨zone, ranges⟩, hlink⟩ := Option.isSome_iff_exists.mp hrun
  obtain ⟨assets, parts, hjson, -, hlinked⟩ := link_linked (ok_of_toOption hlink)
  exact ⟨zone, ranges, assets, parts, ok_of_toOption hlink, hjson, hlinked⟩

end Acts.Mw19.Linker
