import Skydriver.Journal.Prepare

/-!
# Layouts of parts and blocks

The chooser of a piece size, the builder of the pieces and the validator of a plan are separate code.  Here they meet: a
chosen size covers the object in as many pieces as the limits allow, the pieces built with it are gapless, and the plan
that holds them is valid.  Parts are blocks with a checksum, so the layout is settled for blocks.
-/

namespace Skydriver.Journal

open Checked Driver

/-! ### Gapless layouts -/

/-- Numbered from one, each piece behind the last, all of one length but the last, and together the whole range. -/
structure Gapless (sizeBytes pieceBytes : Nat) (blocks : List PlannedBlock) : Prop where
  numbers : ∀ index (h : index < blocks.length), blocks[index].number.toNat = index + 1
  offsets : ∀ index (h : index < blocks.length), blocks[index].offset.toNat = index * pieceBytes
  lengths : ∀ index (h : index < blocks.length),
    blocks[index].length.toNat = min pieceBytes (sizeBytes - index * pieceBytes)
  total : (blocks.map fun block => block.length.toNat).sum = sizeBytes
  count : blocks.length = sizeBytes ⌈/⌉ pieceBytes

variable {sizeBytes blockBytes : UInt64}

theorem toNat_pos {value : UInt64} (h : value ≠ 0) : 0 < value.toNat := by
  rw [Nat.pos_iff_ne_zero, ne_eq, ← UInt64.toNat_zero, UInt64.toNat_inj]
  exact h

theorem ceilDiv_zero_left (piece : Nat) : 0 ⌈/⌉ piece = 0 := by
  rw [Nat.ceilDiv_eq_add_pred_div, Nat.zero_add]
  rcases Nat.eq_zero_or_pos piece with rfl | hpiece
  · simp
  · exact Nat.div_eq_of_lt (by omega)

theorem ceilDiv_rest {rest piece : Nat} (hpiece : 0 < piece) (hrest : 0 < rest) :
    rest ⌈/⌉ piece = (rest - min piece rest) ⌈/⌉ piece + 1 := by
  rw [Nat.ceilDiv_eq_add_pred_div, Nat.ceilDiv_eq_add_pred_div, ← Nat.add_div_right _ hpiece]
  rcases Nat.le_total piece rest with hle | hle
  · rw [Nat.min_eq_left hle]
    congr 1
    omega
  · have hlast : (rest + piece - 1) / piece = 1 := Nat.div_eq_of_lt_le (by omega) (by omega)
    have hnone : (0 + piece - 1 + piece) / piece = 1 := Nat.div_eq_of_lt_le (by omega) (by omega)
    rw [Nat.min_eq_right hle, Nat.sub_self, hlast, hnone]

theorem length_blocksFrom (hblock : blockBytes ≠ 0) (offset : UInt64) (number : UInt32)
    (hoffset : offset.toNat ≤ sizeBytes.toNat) :
    (blocksFrom sizeBytes blockBytes hblock offset number).length =
      (sizeBytes.toNat - offset.toNat) ⌈/⌉ blockBytes.toNat := by
  induction offset, number using blocksFrom.induct sizeBytes blockBytes hblock with
  | case1 offset number h length ih =>
      have hnext : (offset + length).toNat = _ := (Words.blockLength_spec blockBytes h).2
      rw [UInt64.lt_iff_toNat_lt] at h
      rw [blocksFrom, dif_pos (UInt64.lt_iff_toNat_lt.mpr h), List.length_cons, ih (by omega), hnext]
      rw [ceilDiv_rest (toNat_pos hblock) (by omega : 0 < sizeBytes.toNat - offset.toNat)]
      congr 2
      omega
  | case2 offset number h =>
      rw [UInt64.lt_iff_toNat_lt] at h
      rw [blocksFrom, dif_neg (by rwa [UInt64.lt_iff_toNat_lt]), List.length_nil, Nat.sub_eq_zero_of_le (by omega),
        ceilDiv_zero_left]

/-- The blocks built behind `index` others. -/
theorem getElem_blocksFrom (hblock : blockBytes ≠ 0) (offset : UInt64) (number : UInt32) {first : Nat}
    (hoffset : offset.toNat = min (first * blockBytes.toNat) sizeBytes.toNat)
    (hnumber : number = .ofNat (first + 1)) (index : Nat)
    (h : index < (blocksFrom sizeBytes blockBytes hblock offset number).length) :
    (blocksFrom sizeBytes blockBytes hblock offset number)[index].number = .ofNat (first + index + 1) ∧
      (blocksFrom sizeBytes blockBytes hblock offset number)[index].offset.toNat =
        (first + index) * blockBytes.toNat ∧
      (blocksFrom sizeBytes blockBytes hblock offset number)[index].length.toNat =
        min blockBytes.toNat (sizeBytes.toNat - (first + index) * blockBytes.toNat) := by
  induction offset, number using blocksFrom.induct sizeBytes blockBytes hblock generalizing first index with
  | case1 offset number hlt length =>
      rename_i ih
      obtain ⟨hlength, hnext⟩ := Words.blockLength_spec blockBytes hlt
      have hlt' := UInt64.lt_iff_toNat_lt.mp hlt
      change length.toNat = _ at hlength
      change (offset + length).toNat = _ at hnext
      have heq : blocksFrom sizeBytes blockBytes hblock offset number =
          { number, offset, length } :: blocksFrom sizeBytes blockBytes hblock (offset + length) (number + 1) := by
        rw [blocksFrom, dif_pos hlt]
      have hstart : offset.toNat = first * blockBytes.toNat := by omega
      cases index with
      | zero =>
          simp only [heq, List.getElem_cons_zero]
          exact ⟨hnumber, hstart, by rw [hlength, hstart, Nat.add_zero]⟩
      | succ index =>
          have hafter : (offset + length).toNat = min ((first + 1) * blockBytes.toNat) sizeBytes.toNat := by
            rw [hnext, Nat.add_mul, Nat.one_mul]
            omega
          have hsucc : number + 1 = .ofNat (first + 1 + 1) := by
            rw [hnumber]
            exact UInt32.toNat_inj.mp (by simp)
          have hbound : index < (blocksFrom sizeBytes blockBytes hblock (offset + length) (number + 1)).length := by
            rw [heq, List.length_cons] at h
            omega
          have hrest := ih hafter hsucc index hbound
          simp only [heq, List.getElem_cons_succ]
          rwa [show first + (index + 1) = first + 1 + index by omega]
  | case2 offset number hge =>
      rw [blocksFrom, dif_neg hge] at h
      exact absurd h (Nat.not_lt_zero index)

theorem sum_blocksFrom (hblock : blockBytes ≠ 0) (offset : UInt64) (number : UInt32)
    (hoffset : offset.toNat ≤ sizeBytes.toNat) :
    ((blocksFrom sizeBytes blockBytes hblock offset number).map fun block => block.length.toNat).sum =
      sizeBytes.toNat - offset.toNat := by
  induction offset, number using blocksFrom.induct sizeBytes blockBytes hblock with
  | case1 offset number h length ih =>
      obtain ⟨hlength, hnext⟩ := Words.blockLength_spec blockBytes h
      have hlt := UInt64.lt_iff_toNat_lt.mp h
      change length.toNat = _ at hlength
      change (offset + length).toNat = _ at hnext
      rw [blocksFrom, dif_pos h, List.map_cons, List.sum_cons, ih (by omega), hnext, hlength]
      omega
  | case2 offset number h =>
      rw [UInt64.lt_iff_toNat_lt] at h
      rw [blocksFrom, dif_neg (by rwa [UInt64.lt_iff_toNat_lt]), List.map_nil, List.sum_nil]
      omega

/-- The pieces of a range, built from its start, are gapless as long as their numbers fit. -/
theorem gapless_blocksFrom (hblock : blockBytes ≠ 0)
    (hcount : sizeBytes.toNat ⌈/⌉ blockBytes.toNat ≤ maximumPlanPieces.toNat) :
    Gapless sizeBytes.toNat blockBytes.toNat (blocksFrom sizeBytes blockBytes hblock 0 1) := by
  have hlength := length_blocksFrom hblock 0 1 (Nat.zero_le sizeBytes.toNat)
  rw [UInt64.toNat_zero, Nat.sub_zero] at hlength
  have hzero : (0 : UInt64).toNat = min (0 * blockBytes.toNat) sizeBytes.toNat := by
    rw [Nat.zero_mul, Nat.zero_min, UInt64.toNat_zero]
  have hmaximum : maximumPlanPieces.toNat = 100000 := rfl
  constructor
  · intro index h
    obtain ⟨hnumber, _, _⟩ := getElem_blocksFrom hblock 0 1 hzero rfl index h
    rw [hnumber, UInt32.toNat_ofNat']
    omega
  · intro index h
    obtain ⟨_, hoffset, _⟩ := getElem_blocksFrom hblock 0 1 hzero rfl index h
    rw [hoffset, Nat.zero_add]
  · intro index h
    obtain ⟨_, _, hpiece⟩ := getElem_blocksFrom hblock 0 1 hzero rfl index h
    rw [hpiece, Nat.zero_add]
  · rw [sum_blocksFrom hblock 0 1 (Nat.zero_le _), UInt64.toNat_zero, Nat.sub_zero]
  · exact hlength

/-! ### Builders and validators -/

theorem validateBlocksFrom_blocksFrom (hblock : blockBytes ≠ 0) (index : Nat) (offset : UInt64)
    (hoffset : offset.toNat ≤ sizeBytes.toNat) :
    validateBlocksFrom sizeBytes blockBytes index offset
      (blocksFrom sizeBytes blockBytes hblock offset (.ofNat (index + 1))) = .ok sizeBytes := by
  generalize hnumber : UInt32.ofNat (index + 1) = number
  induction offset, number using blocksFrom.induct sizeBytes blockBytes hblock generalizing index with
  | case1 offset number h length =>
      rename_i ih
      have hnext : (offset + length).toNat = _ := (Words.blockLength_spec blockBytes h).2
      have hlt := UInt64.lt_iff_toNat_lt.mp h
      rw [blocksFrom, dif_pos h, validateBlocksFrom]
      simp only [hnumber, bne_self_eq_false, Bool.or_self, Bool.not_false, ensure_true, ok_bind]
      apply ih (index + 1) (by omega)
      rw [← hnumber]
      exact UInt32.toNat_inj.mp (by simp)
  | case2 offset number h =>
      rw [UInt64.lt_iff_toNat_lt] at h
      have hend : offset = sizeBytes := UInt64.toNat_inj.mp (by omega)
      rw [blocksFrom, dif_neg (by rwa [UInt64.lt_iff_toNat_lt]), validateBlocksFrom, hend]

/-- What a builder lays out from the start of a range is a layout that the validator accepts. -/
theorem validateBlocks_blocksFrom (hsize : sizeBytes ≠ 0) (hblock : blockBytes ≠ 0)
    (hcount : sizeBytes.toNat ⌈/⌉ blockBytes.toNat ≤ maximumPlanPieces.toNat) :
    validateBlocks sizeBytes blockBytes (blocksFrom sizeBytes blockBytes hblock 0 1) = .ok () := by
  have hlength := (gapless_blocksFrom hblock hcount).count
  have hsome : (blocksFrom sizeBytes blockBytes hblock 0 1).length ≠ 0 := by
    have hpositive := ceilDiv_rest (toNat_pos hblock) (toNat_pos hsize)
    omega
  rw [validateBlocks, if_neg hsize]
  have hwalk := validateBlocksFrom_blocksFrom hblock 0 0 (Nat.zero_le sizeBytes.toNat)
  change validateBlocksFrom sizeBytes blockBytes 0 0 (blocksFrom sizeBytes blockBytes hblock 0 1) = _ at hwalk
  have hnonempty : (!(blockBytes == 0 || (blocksFrom sizeBytes blockBytes hblock 0 1).length == 0)) = true := by
    simp [hblock, hsome]
  have hfits : (!decide ((blocksFrom sizeBytes blockBytes hblock 0 1).length > maximumPlanPieces.toNat)) = true := by
    simp only [Bool.not_eq_true', decide_eq_false_iff_not]
    omega
  rw [hnonempty, ensure_true, ok_bind, hfits, ensure_true, ok_bind, hwalk]
  simp

/-- A part without its checksum. -/
def PlannedPart.block (part : PlannedPart) : PlannedBlock := ⟨part.number, part.offset, part.length⟩

theorem validatePartsFrom_eq_ok {partBytes nextOffset covered : UInt64} {index : Nat} {parts : List PlannedPart}
    (hchecksums : ∀ part ∈ parts, isHexOf 32 part.checksum = true)
    (h : validateBlocksFrom sizeBytes partBytes index nextOffset (parts.map PlannedPart.block) = .ok covered) :
    validatePartsFrom sizeBytes partBytes index nextOffset parts = .ok covered := by
  induction parts generalizing index nextOffset with
  | nil => exact h
  | cons part rest ih =>
      obtain ⟨hplace, hrest⟩ := ensure_bind_eq_ok.mp h
      have hchecksum : validateSHA256 part.checksum = .ok () := by
        rw [validateSHA256, hchecksums part List.mem_cons_self, ensure_true]
      rw [validatePartsFrom]
      refine ensure_bind_eq_ok.mpr ⟨hplace, ?_⟩
      rw [hchecksum, ok_bind]
      exact ih (fun other hother => hchecksums other (List.mem_cons_of_mem _ hother)) hrest

theorem validateParts_eq_ok {partBytes : UInt64} {parts : List PlannedPart}
    (hchecksums : ∀ part ∈ parts, isHexOf 32 part.checksum = true)
    (h : validateBlocks sizeBytes partBytes (parts.map PlannedPart.block) = .ok ()) :
    validateParts sizeBytes partBytes parts = .ok () := by
  rw [validateBlocks, List.length_map] at h
  rw [validateParts]
  split_ifs at h ⊢ with hsize
  · simpa only [ensure_eq_ok] using h
  · obtain ⟨hnonempty, h⟩ := ensure_bind_eq_ok.mp h
    obtain ⟨hfits, h⟩ := ensure_bind_eq_ok.mp h
    obtain ⟨covered, hcovered, h⟩ := bind_eq_ok.mp h
    rw [ensure_eq_ok] at h
    refine ensure_bind_eq_ok.mpr ⟨hnonempty, ensure_bind_eq_ok.mpr ⟨hfits, ?_⟩⟩
    rw [validatePartsFrom_eq_ok hchecksums hcovered, ok_bind, h, ensure_true]

/-! ### Stable sources -/

/-- During one inspection the source holds `content`: every range delivers the bytes there. -/
structure ReplayableSource.Stable (source : ReplayableSource) (content : List UInt8) : Prop where
  metadata : ∃ metadata, source.before = .ok metadata ∧ source.after = .ok metadata ∧
    metadata.sizeBytes.toNat = content.length
  openRange : ∀ offset length : UInt64, offset.toNat + length.toNat ≤ content.length →
    source.openRange offset length = .ok ((content.drop offset.toNat).take length.toNat)

theorem isHexOf_digestBytes (prims : Primitives) (content : List UInt8) :
    isHexOf 32 (digestBytes prims content) = true := by
  rw [digestBytes, isHexOf, hexDecode_hexEncode]
  simp [(prims.sha256 content).property]

/-- Hashing a stable source lays its parts out as blocks, each with a checksum, and reads its whole rest. -/
theorem hashPartsFrom_stable (prims : Primitives) {source : ReplayableSource} {content : List UInt8}
    (hstable : source.Stable content) {partBytes : UInt64} (hsize : content.length = sizeBytes.toNat)
    (hpart : partBytes ≠ 0) (offset : UInt64) (number : UInt32) (hoffset : offset.toNat ≤ sizeBytes.toNat) :
    ∃ parts, hashPartsFrom prims source sizeBytes partBytes hpart offset number =
        .ok (parts, content.drop offset.toNat) ∧
      parts.map PlannedPart.block = blocksFrom sizeBytes partBytes hpart offset number ∧
      ∀ part ∈ parts, isHexOf 32 part.checksum = true := by
  induction offset, number using blocksFrom.induct sizeBytes partBytes hpart with
  | case1 offset number h length ih =>
      obtain ⟨hlength, hnext⟩ := Words.blockLength_spec partBytes h
      change length.toNat = _ at hlength
      change (offset + length).toNat = _ at hnext
      have hlt := UInt64.lt_iff_toNat_lt.mp h
      obtain ⟨parts, hparts, hblocks, hchecksums⟩ := ih (by omega)
      have hstream := hstable.openRange offset length (by omega)
      have hread : ((content.drop offset.toNat).take length.toNat).length = length.toNat := by
        rw [List.length_take, List.length_drop]
        omega
      have hrest : (content.drop offset.toNat).take length.toNat ++ content.drop (offset + length).toNat =
          content.drop offset.toNat := by
        have hend : (offset + length).toNat = offset.toNat + length.toNat := by omega
        rw [hend, ← List.drop_drop, List.take_append_drop]
      rw [hashPartsFrom, dif_pos h]
      change ∃ found, (source.openRange offset length >>= _) = _ ∧ _
      rw [hstream, ok_bind, hread, beq_self_eq_true, ensure_true, ok_bind]
      change ∃ found, (hashPartsFrom prims source sizeBytes partBytes hpart (offset + length) (number + 1) >>= _) = _ ∧ _
      rw [hparts, ok_bind]
      refine ⟨_, congrArg (fun bytes => Except.ok (_, bytes)) hrest, ?_, ?_⟩
      · rw [blocksFrom, dif_pos h, List.map_cons, hblocks]
        rfl
      · intro part hmem
        rcases List.mem_cons.mp hmem with rfl | hmem
        · exact isHexOf_digestBytes prims _
        · exact hchecksums part hmem
  | case2 offset number h =>
      have hge := h
      rw [UInt64.lt_iff_toNat_lt] at hge
      refine ⟨[], ?_, ?_, by simp⟩
      · rw [hashPartsFrom, dif_neg h, List.drop_eq_nil_of_le (by omega)]
      · rw [blocksFrom, dif_neg h, List.map_nil]

/-! ### Chosen sizes -/

theorem ceilDiv_eq_ite (value : Nat) {divisor : Nat} (hdivisor : 0 < divisor) :
    value ⌈/⌉ divisor = if value % divisor ≠ 0 then value / divisor + 1 else value / divisor := by
  have hremainder := Nat.mod_lt value hdivisor
  have hsplit : value + divisor - 1 = divisor * (value / divisor) + (value % divisor + divisor - 1) := by
    have := Nat.div_add_mod value divisor
    omega
  rw [Nat.ceilDiv_eq_add_pred_div, hsplit, Nat.mul_add_div hdivisor]
  split_ifs with h
  · have hlast : (value % divisor + divisor - 1) / divisor = 1 := Nat.div_eq_of_lt_le (by omega) (by omega)
    rw [hlast]
  · have hlast : (value % divisor + divisor - 1) / divisor = 0 := Nat.div_eq_of_lt (by omega)
    rw [hlast, Nat.add_zero]

theorem toNat_divideRoundUp (value : UInt64) {divisor : UInt64} (hdivisor : divisor ≠ 0) :
    (divideRoundUp value divisor).toNat = value.toNat ⌈/⌉ divisor.toNat := by
  have hpositive := toNat_pos hdivisor
  have hremainder : value % divisor ≠ 0 ↔ value.toNat % divisor.toNat ≠ 0 := by
    rw [ne_eq, ne_eq, ← UInt64.toNat_inj, UInt64.toNat_mod, UInt64.toNat_zero]
  rw [ceilDiv_eq_ite value.toNat hpositive, divideRoundUp]
  split_ifs with h h' h'
  · -- a remainder leaves room above the quotient
    have hroom : value.toNat / divisor.toNat < value.toNat := by
      rcases Nat.eq_or_lt_of_le (Nat.div_le_self value.toNat divisor.toNat) with heq | hlt
      · have hsplit := Nat.div_add_mod value.toNat divisor.toNat
        rw [heq] at hsplit
        have hle := Nat.le_mul_of_pos_left value.toNat hpositive
        omega
      · exact hlt
    have hbound := value.toNat_lt
    rw [UInt64.toNat_add, UInt64.toNat_div, UInt64.toNat_one, Nat.mod_eq_of_lt (by omega)]
  · exact absurd (hremainder.mp h) h'
  · exact absurd (hremainder.mpr h') h
  · exact UInt64.toNat_div value divisor

/-- How many parts an object may have. -/
def maximumParts (capabilities : Capabilities) : UInt32 :=
  if capabilities.write.resume.available then min maximumPlanPieces capabilities.write.maximumParts
  else maximumPlanPieces

/-- The driver takes parts of this size. -/
def AdmitsPart (capabilities : Capabilities) (partBytes : UInt64) : Prop :=
  partBytes ≠ 0 ∧ (capabilities.write.resume.available = true →
    capabilities.write.minimumNonFinalPartBytes ≤ partBytes ∧ partBytes ≤ capabilities.write.maximumPartBytes)

/-- The driver serves ranges of this size. -/
def AdmitsBlock (capabilities : Capabilities) (blockBytes : UInt64) : Prop :=
  blockBytes ≠ 0 ∧ (capabilities.read.range.available = true → capabilities.read.maximumRangeBytes ≠ 0 →
    blockBytes ≤ capabilities.read.maximumRangeBytes)

theorem partLimits_of_validate {capabilities : Capabilities} (h : capabilities.validate = .ok ())
    (hresume : capabilities.write.resume.available = true) :
    capabilities.write.minimumNonFinalPartBytes ≠ 0 ∧ capabilities.write.maximumParts ≠ 0 ∧
      capabilities.write.minimumNonFinalPartBytes ≤ capabilities.write.maximumPartBytes := by
  obtain ⟨_, _, h⟩ := bind_eq_ok.mp h
  obtain ⟨_, _, h⟩ := bind_eq_ok.mp h
  obtain ⟨_, hwrites, _⟩ := bind_eq_ok.mp h
  obtain ⟨_, _, hwrites⟩ := bind_eq_ok.mp hwrites
  split_ifs at hwrites with hcomplete hunavailable
  · obtain ⟨hnone, _⟩ := ensure_bind_eq_ok.mp hwrites
    rw [hresume, Bool.true_or] at hnone
    exact absurd hnone Bool.false_ne_true
  · rw [hresume] at hunavailable
    exact absurd hunavailable Bool.false_ne_true
  · obtain ⟨_, hlimits, _⟩ := bind_eq_ok.mp hwrites
    obtain ⟨hpresent, hlimits⟩ := ensure_bind_eq_ok.mp hlimits
    obtain ⟨hordered, _⟩ := ensure_bind_eq_ok.mp hlimits
    simp only [Bool.not_eq_true', Bool.or_eq_false_iff, beq_eq_false_iff_ne] at hpresent
    simp only [gt_iff_lt, Bool.not_eq_true', decide_eq_false_iff_not, UInt64.not_lt] at hordered
    exact ⟨hpresent.1.1.2, hpresent.2, hordered⟩

theorem toNat_maximumParts_le (capabilities : Capabilities) :
    (maximumParts capabilities).toNat ≤ maximumPlanPieces.toNat := by
  rw [maximumParts]
  split_ifs
  · rw [Words.toNat_min32]
    exact Nat.min_le_left _ _
  · exact le_rfl

/-- Pieces of a length number at most `limit` exactly when the length is at least the size over the limit. -/
theorem ceilDiv_le_comm {size piece limit : Nat} (hpiece : 0 < piece) (hlimit : 0 < limit) :
    size ⌈/⌉ piece ≤ limit ↔ size ⌈/⌉ limit ≤ piece := by
  rw [ceilDiv_le_iff_le_smul hpiece, ceilDiv_le_iff_le_smul hlimit, smul_eq_mul, smul_eq_mul, Nat.mul_comm]

/-- The size behind the requested one, the preference and the default, inside the driver's limits. -/
def clampedPartBytes (capabilities : Capabilities) (requested : UInt64) : UInt64 :=
  let partBytes := if requested = 0 then capabilities.preferredPartBytes else requested
  let partBytes := if partBytes = 0 then defaultPartBytes else partBytes
  if capabilities.write.resume.available then
    min (max partBytes capabilities.write.minimumNonFinalPartBytes) capabilities.write.maximumPartBytes
  else partBytes

theorem choosePartBytes_of_ne_zero {sizeBytes : UInt64} (hsize : sizeBytes ≠ 0) (capabilities : Capabilities)
    (requested : UInt64) :
    choosePartBytes sizeBytes capabilities requested = (do
      ensure (.invalidPlan "source exceeds driver complete-object limit")
        (!(capabilities.maximumObjectBytes != 0 && sizeBytes > capabilities.maximumObjectBytes))
      ensure (.invalidPlan "source exceeds local journal I/O limit") (!(sizeBytes > maxInt64))
      ensure (.invalidPlan "requested part size is outside driver limits")
        (!(capabilities.write.resume.available && (requested != 0 &&
          (requested < capabilities.write.minimumNonFinalPartBytes ||
            requested > capabilities.write.maximumPartBytes))))
      let partBytes := max (clampedPartBytes capabilities requested)
        (divideRoundUp sizeBytes (maximumParts capabilities).toUInt64)
      ensure (.invalidPlan "object cannot fit within driver maximum part count")
        (!(capabilities.write.resume.available && partBytes > capabilities.write.maximumPartBytes))
      .ok partBytes) := by
  rw [choosePartBytes]
  simp only [if_neg hsize]
  rfl

section Chosen

variable {capabilities : Capabilities} (hvalid : capabilities.validate = .ok ())
include hvalid

theorem toNat_maximumParts_pos : 0 < (maximumParts capabilities).toNat := by
  rw [maximumParts]
  split_ifs with hresume
  · have hparts := (partLimits_of_validate hvalid hresume).2.1
    rw [ne_eq, ← UInt32.toNat_inj, UInt32.toNat_zero] at hparts
    rw [Words.toNat_min32]
    have hmaximum : maximumPlanPieces.toNat = 100000 := rfl
    omega
  · decide

theorem maximumParts_ne_zero : (maximumParts capabilities).toUInt64 ≠ 0 := by
  have hpositive := toNat_maximumParts_pos hvalid
  rw [ne_eq, ← UInt64.toNat_inj, UInt32.toNat_toUInt64, UInt64.toNat_zero]
  omega

theorem clampedPartBytes_ne_zero (requested : UInt64) : clampedPartBytes capabilities requested ≠ 0 := by
  rw [clampedPartBytes]
  generalize (if requested = 0 then capabilities.preferredPartBytes else requested) = wanted
  have hwanted : (if wanted = 0 then defaultPartBytes else wanted) ≠ 0 := by
    split_ifs with h
    · decide
    · exact h
  generalize (if wanted = 0 then defaultPartBytes else wanted) = wanted at hwanted
  split_ifs with hresume
  · obtain ⟨hminimum, _, hordered⟩ := partLimits_of_validate hvalid hresume
    have hpositive := toNat_pos hminimum
    rw [UInt64.le_iff_toNat_le] at hordered
    rw [ne_eq, ← UInt64.toNat_inj, UInt64.toNat_zero, Words.toNat_min, Words.toNat_max]
    omega
  · exact hwanted

/-- What a chosen part size is: within the limits, and large enough for the number of parts. -/
theorem choosePartBytes_eq_ok {sizeBytes requested partBytes : UInt64}
    (h : choosePartBytes sizeBytes capabilities requested = .ok partBytes) :
    (capabilities.maximumObjectBytes = 0 ∨ sizeBytes ≤ capabilities.maximumObjectBytes) ∧
      ((sizeBytes = 0 ∧ partBytes = 0) ∨ (sizeBytes ≠ 0 ∧ AdmitsPart capabilities partBytes ∧
        sizeBytes.toNat ⌈/⌉ partBytes.toNat ≤ (maximumParts capabilities).toNat)) := by
  have hobject : (!(capabilities.maximumObjectBytes != 0 && decide (sizeBytes > capabilities.maximumObjectBytes))) =
      true := (ensure_bind_eq_ok.mp h).1
  simp only [gt_iff_lt, Bool.not_eq_true', Bool.and_eq_false_iff, bne_eq_false_iff_eq, decide_eq_false_iff_not,
    UInt64.not_lt] at hobject
  refine ⟨hobject, ?_⟩
  by_cases hsize : sizeBytes = 0
  · obtain ⟨_, h⟩ := ensure_bind_eq_ok.mp h
    obtain ⟨_, h⟩ := ensure_bind_eq_ok.mp h
    rw [if_pos hsize] at h
    cases h
    exact .inl ⟨hsize, rfl⟩
  · rw [choosePartBytes_of_ne_zero hsize] at h
    obtain ⟨_, h⟩ := ensure_bind_eq_ok.mp h
    obtain ⟨_, h⟩ := ensure_bind_eq_ok.mp h
    obtain ⟨_, h⟩ := ensure_bind_eq_ok.mp h
    obtain ⟨hfits, h⟩ := ensure_bind_eq_ok.mp h
    cases h
    have hclamped := toNat_pos (clampedPartBytes_ne_zero hvalid requested)
    have hdivided := toNat_divideRoundUp sizeBytes (maximumParts_ne_zero hvalid)
    have hmaximum := Words.toNat_max (clampedPartBytes capabilities requested)
      (divideRoundUp sizeBytes (maximumParts capabilities).toUInt64)
    rw [UInt32.toNat_toUInt64] at hdivided
    refine .inr ⟨hsize, ⟨?_, fun hresume => ⟨?_, ?_⟩⟩, ?_⟩
    · rw [ne_eq, ← UInt64.toNat_inj, UInt64.toNat_zero]
      omega
    · have hordered := (partLimits_of_validate hvalid hresume).2.2
      rw [UInt64.le_iff_toNat_le] at hordered ⊢
      rw [clampedPartBytes] at hmaximum ⊢
      simp only [if_pos hresume, Words.toNat_min, Words.toNat_max] at hmaximum ⊢
      omega
    · simpa only [hresume, Bool.true_and, gt_iff_lt, Bool.not_eq_true', decide_eq_false_iff_not, UInt64.not_lt]
        using hfits
    · rw [ceilDiv_le_comm (by omega) (toNat_maximumParts_pos hvalid)]
      omega

/-- Without a requested size, the choice fails only where every choice would. -/
theorem choosePartBytes_eq_error {sizeBytes : UInt64} {error : JournalError}
    (h : choosePartBytes sizeBytes capabilities 0 = .error error) :
    (capabilities.maximumObjectBytes ≠ 0 ∧ capabilities.maximumObjectBytes < sizeBytes) ∨ maxInt64 < sizeBytes ∨
      ∀ partBytes, AdmitsPart capabilities partBytes →
        (maximumParts capabilities).toNat < sizeBytes.toNat ⌈/⌉ partBytes.toNat := by
  have hobject : ∀ {condition : Bool}, condition = false →
      condition = !(capabilities.maximumObjectBytes != 0 && decide (sizeBytes > capabilities.maximumObjectBytes)) →
      capabilities.maximumObjectBytes ≠ 0 ∧ capabilities.maximumObjectBytes < sizeBytes := by
    intro condition hfalse heq
    rw [hfalse] at heq
    simpa only [gt_iff_lt, Bool.false_eq, Bool.not_eq_false', Bool.and_eq_true, bne_iff_ne, ne_eq, decide_eq_true_eq]
      using heq
  by_cases hsize : sizeBytes = 0
  · rcases ensure_bind_eq_error.mp h with ⟨hfalse, _⟩ | ⟨_, h⟩
    · exact .inl (hobject hfalse rfl)
    rcases ensure_bind_eq_error.mp h with ⟨hfalse, _⟩ | ⟨_, h⟩
    · exact .inr (.inl (by simpa using hfalse))
    rw [if_pos hsize] at h
    cases h
  · rw [choosePartBytes_of_ne_zero hsize] at h
    rcases ensure_bind_eq_error.mp h with ⟨hfalse, _⟩ | ⟨_, h⟩
    · exact .inl (hobject hfalse rfl)
    rcases ensure_bind_eq_error.mp h with ⟨hfalse, _⟩ | ⟨_, h⟩
    · exact .inr (.inl (by simpa using hfalse))
    rcases ensure_bind_eq_error.mp h with ⟨hfalse, _⟩ | ⟨_, h⟩
    · simp at hfalse
    rcases ensure_bind_eq_error.mp h with ⟨hfalse, _⟩ | ⟨_, h⟩
    · refine .inr (.inr fun partBytes hadmits => ?_)
      simp only [gt_iff_lt, Bool.not_eq_false', Bool.and_eq_true, decide_eq_true_eq] at hfalse
      obtain ⟨hresume, hexceeds⟩ := hfalse
      have hbound := (hadmits.2 hresume).2
      have hpositive := toNat_pos hadmits.1
      have hdivided := toNat_divideRoundUp sizeBytes (maximumParts_ne_zero hvalid)
      rw [UInt32.toNat_toUInt64] at hdivided
      rw [clampedPartBytes] at hexceeds
      simp only [if_pos hresume] at hexceeds
      rw [UInt64.lt_iff_toNat_lt, Words.toNat_max, Words.toNat_min, hdivided] at hexceeds
      rw [UInt64.le_iff_toNat_le] at hbound
      rw [← Nat.not_le, ceilDiv_le_comm hpositive (toNat_maximumParts_pos hvalid)]
      omega
    · cases h

end Chosen

/-- The block size behind the requested one and the default, inside the driver's range limit. -/
def clampedBlockBytes (capabilities : Capabilities) (requested : UInt64) : UInt64 :=
  let blockBytes := if requested = 0 then defaultBlockBytes else requested
  if capabilities.read.range.available && capabilities.read.maximumRangeBytes != 0 then
    min blockBytes capabilities.read.maximumRangeBytes
  else blockBytes

theorem clampedBlockBytes_ne_zero (capabilities : Capabilities) (requested : UInt64) :
    clampedBlockBytes capabilities requested ≠ 0 := by
  rw [clampedBlockBytes]
  have hwanted : (if requested = 0 then defaultBlockBytes else requested) ≠ 0 := by
    split_ifs with h
    · decide
    · exact h
  generalize (if requested = 0 then defaultBlockBytes else requested) = wanted at hwanted
  split_ifs with hlimited
  · rw [Bool.and_eq_true, bne_iff_ne] at hlimited
    have hpositive := toNat_pos hlimited.2
    have hwanted := toNat_pos hwanted
    rw [ne_eq, ← UInt64.toNat_inj, UInt64.toNat_zero, Words.toNat_min]
    omega
  · exact hwanted

theorem chooseBlockBytes_of_ne_zero (hsize : sizeBytes ≠ 0) (capabilities : Capabilities) (requested : UInt64) :
    chooseBlockBytes sizeBytes capabilities requested = (do
      ensure (.invalidPlan "object exceeds local journal I/O limit") (!(sizeBytes > maxInt64))
      ensure (.invalidPlan "requested block exceeds driver range limit")
        (!(capabilities.read.range.available && capabilities.read.maximumRangeBytes != 0 &&
          requested > capabilities.read.maximumRangeBytes))
      let blockBytes := max (clampedBlockBytes capabilities requested)
        (divideRoundUp sizeBytes maximumPlanPieces.toUInt64)
      ensure (.invalidPlan "object cannot fit journal blocks within range limit")
        (!(capabilities.read.range.available && capabilities.read.maximumRangeBytes != 0 &&
          blockBytes > capabilities.read.maximumRangeBytes))
      .ok blockBytes) := by
  rw [chooseBlockBytes]
  simp only [if_neg hsize]
  rfl

theorem toNat_divideRoundUp_pieces (sizeBytes : UInt64) :
    (divideRoundUp sizeBytes maximumPlanPieces.toUInt64).toNat = sizeBytes.toNat ⌈/⌉ maximumPlanPieces.toNat :=
  toNat_divideRoundUp sizeBytes (by decide)

theorem chooseBlockBytes_eq_ok {capabilities : Capabilities} {requested : UInt64}
    (h : chooseBlockBytes sizeBytes capabilities requested = .ok blockBytes) :
    (sizeBytes = 0 ∧ blockBytes = 0) ∨ (sizeBytes ≠ 0 ∧ AdmitsBlock capabilities blockBytes ∧
      sizeBytes.toNat ⌈/⌉ blockBytes.toNat ≤ maximumPlanPieces.toNat) := by
  by_cases hsize : sizeBytes = 0
  · obtain ⟨_, h⟩ := ensure_bind_eq_ok.mp h
    rw [if_pos hsize] at h
    cases h
    exact .inl ⟨hsize, rfl⟩
  · rw [chooseBlockBytes_of_ne_zero hsize] at h
    obtain ⟨_, h⟩ := ensure_bind_eq_ok.mp h
    obtain ⟨_, h⟩ := ensure_bind_eq_ok.mp h
    obtain ⟨hfits, h⟩ := ensure_bind_eq_ok.mp h
    cases h
    have hclamped := toNat_pos (clampedBlockBytes_ne_zero capabilities requested)
    have hdivided := toNat_divideRoundUp_pieces sizeBytes
    have hmaximum := Words.toNat_max (clampedBlockBytes capabilities requested)
      (divideRoundUp sizeBytes maximumPlanPieces.toUInt64)
    refine .inr ⟨hsize, ⟨?_, fun hrange hlimited => ?_⟩, ?_⟩
    · rw [ne_eq, ← UInt64.toNat_inj, UInt64.toNat_zero]
      omega
    · simpa only [hrange, bne_iff_ne.mpr hlimited, Bool.true_and, gt_iff_lt, Bool.not_eq_true',
        decide_eq_false_iff_not, UInt64.not_lt] using hfits
    · rw [ceilDiv_le_comm (by omega) (by decide)]
      omega

theorem chooseBlockBytes_eq_error {capabilities : Capabilities} {error : JournalError}
    (h : chooseBlockBytes sizeBytes capabilities 0 = .error error) :
    maxInt64 < sizeBytes ∨ ∀ blockBytes, AdmitsBlock capabilities blockBytes →
      maximumPlanPieces.toNat < sizeBytes.toNat ⌈/⌉ blockBytes.toNat := by
  by_cases hsize : sizeBytes = 0
  · rcases ensure_bind_eq_error.mp h with ⟨hfalse, _⟩ | ⟨_, h⟩
    · exact .inl (by simpa using hfalse)
    rw [if_pos hsize] at h
    cases h
  · rw [chooseBlockBytes_of_ne_zero hsize] at h
    rcases ensure_bind_eq_error.mp h with ⟨hfalse, _⟩ | ⟨_, h⟩
    · exact .inl (by simpa using hfalse)
    rcases ensure_bind_eq_error.mp h with ⟨hfalse, _⟩ | ⟨_, h⟩
    · simp at hfalse
    rcases ensure_bind_eq_error.mp h with ⟨hfalse, _⟩ | ⟨_, h⟩
    · refine .inr fun blockBytes hadmits => ?_
      simp only [gt_iff_lt, Bool.not_eq_false', Bool.and_eq_true, decide_eq_true_eq] at hfalse
      obtain ⟨hlimited, hexceeds⟩ := hfalse
      have hbound := hadmits.2 hlimited.1 (bne_iff_ne.mp hlimited.2)
      have hpositive := toNat_pos hadmits.1
      rw [clampedBlockBytes] at hexceeds
      simp only [hlimited.1, hlimited.2, Bool.and_self, if_true] at hexceeds
      rw [UInt64.lt_iff_toNat_lt, Words.toNat_max, Words.toNat_min, toNat_divideRoundUp_pieces] at hexceeds
      rw [UInt64.le_iff_toNat_le] at hbound
      rw [← Nat.not_le, ceilDiv_le_comm hpositive (by decide)]
      omega
    · cases h

/-! ### Plans with a chosen layout -/

/-- The upload plan of these parts of an object. -/
structure UploadPlan.Lays (plan : UploadPlan) (capabilities : Capabilities) (sizeBytes partBytes : UInt64)
    (parts : List PlannedPart) (checksum : Text) : Prop where
  driver : plan.driver.validate = .ok ()
  capabilities : plan.driver.capabilities = capabilities
  storageKey : isBlankText plan.storageKey = false
  source : plan.source.validate = .ok ()
  size : plan.sizeBytes = sizeBytes ∧ plan.source.sizeBytes = sizeBytes
  checksum : plan.checksum = checksum ∧ plan.source.checksum = checksum
  partBytes : plan.partBytes = partBytes
  parts : plan.parts = parts

/-- The download plan of these blocks of an object within the driver's object limit. -/
structure DownloadPlan.Lays (plan : DownloadPlan) (capabilities : Capabilities) (sizeBytes blockBytes : UInt64)
    (blocks : List PlannedBlock) : Prop where
  object : capabilities.maximumObjectBytes = 0 ∨ sizeBytes ≤ capabilities.maximumObjectBytes
  driver : plan.driver.validate = .ok ()
  capabilities : plan.driver.capabilities = capabilities
  storageKey : isBlankText plan.object.locator.storageKey = false
  checksum : validateSHA256 plan.checksum = .ok ()
  paths : canonicalAbsolutePath plan.destination = true ∧ canonicalAbsolutePath plan.stagingPath = true ∧
    dir plan.destination = dir plan.stagingPath ∧ plan.destination ≠ plan.stagingPath
  sizeBytes : plan.object.sizeBytes = sizeBytes
  blockBytes : plan.blockBytes = blockBytes
  blocks : plan.blocks = blocks

/-- Part planning is exact: the arithmetic does not go wrong, the choice fails only where every choice would, and the
parts of a stable source are gapless, within the limits, and accepted in a plan. -/
structure PartsExact (prims : Primitives) (capabilities : Capabilities) : Prop where
  divides : (maximumParts capabilities).toUInt64 ≠ 0 ∧ ∀ sizeBytes,
    (divideRoundUp sizeBytes (maximumParts capabilities).toUInt64).toNat =
      sizeBytes.toNat ⌈/⌉ (maximumParts capabilities).toNat
  fails : ∀ sizeBytes error, choosePartBytes sizeBytes capabilities 0 = .error error →
    (capabilities.maximumObjectBytes ≠ 0 ∧ capabilities.maximumObjectBytes < sizeBytes) ∨ maxInt64 < sizeBytes ∨
      ∀ partBytes, AdmitsPart capabilities partBytes →
        (maximumParts capabilities).toNat < sizeBytes.toNat ⌈/⌉ partBytes.toNat
  succeeds : ∀ sizeBytes requested partBytes, choosePartBytes sizeBytes capabilities requested = .ok partBytes →
    ∀ source content, ReplayableSource.Stable source content → content.length = sizeBytes.toNat →
      ∃ parts, hashSourceRanges prims source sizeBytes partBytes = .ok (parts, digestBytes prims content) ∧
        Gapless sizeBytes.toNat partBytes.toNat (parts.map PlannedPart.block) ∧
        (sizeBytes ≠ 0 → AdmitsPart capabilities partBytes) ∧
        parts.length ≤ (maximumParts capabilities).toNat ∧
        ∀ plan : UploadPlan, plan.Lays capabilities sizeBytes partBytes parts (digestBytes prims content) →
          plan.validate = .ok ()

/-- The same for the blocks of a download. -/
structure BlocksExact (capabilities : Capabilities) : Prop where
  divides : maximumPlanPieces.toUInt64 ≠ 0 ∧ ∀ sizeBytes,
    (divideRoundUp sizeBytes maximumPlanPieces.toUInt64).toNat = sizeBytes.toNat ⌈/⌉ maximumPlanPieces.toNat
  fails : ∀ sizeBytes error, chooseBlockBytes sizeBytes capabilities 0 = .error error →
    maxInt64 < sizeBytes ∨ ∀ blockBytes, AdmitsBlock capabilities blockBytes →
      maximumPlanPieces.toNat < sizeBytes.toNat ⌈/⌉ blockBytes.toNat
  succeeds : ∀ sizeBytes requested blockBytes, chooseBlockBytes sizeBytes capabilities requested = .ok blockBytes →
    ∃ blocks, buildBlocks sizeBytes blockBytes = .ok blocks ∧
      Gapless sizeBytes.toNat blockBytes.toNat blocks ∧
      (sizeBytes ≠ 0 → AdmitsBlock capabilities blockBytes) ∧
      blocks.length ≤ maximumPlanPieces.toNat ∧
      ∀ plan : DownloadPlan, plan.Lays capabilities sizeBytes blockBytes blocks → plan.validate = .ok ()

theorem gapless_nil (pieceBytes : Nat) : Gapless 0 pieceBytes [] :=
  ⟨by simp, by simp, by simp, rfl, (ceilDiv_zero_left pieceBytes).symm⟩

theorem UploadPlan.Lays.validate {plan : UploadPlan} {capabilities : Capabilities} {partBytes : UInt64}
    {parts : List PlannedPart} {prims : Primitives} {content : List UInt8}
    (h : plan.Lays capabilities sizeBytes partBytes parts (digestBytes prims content))
    (hobject : capabilities.maximumObjectBytes = 0 ∨ sizeBytes ≤ capabilities.maximumObjectBytes)
    (hlimits : sizeBytes ≠ 0 → AdmitsPart capabilities partBytes ∧
      parts.length ≤ (maximumParts capabilities).toNat)
    (hparts : validateParts sizeBytes partBytes parts = .ok ()) : plan.validate = .ok () := by
  have hidentity : (!(isBlankText plan.storageKey || plan.sizeBytes != plan.source.sizeBytes ||
      plan.checksum != plan.source.checksum)) = true := by
    simp [h.storageKey, h.size.1, h.size.2, h.checksum.1, h.checksum.2]
  have hchecksum : validateSHA256 plan.checksum = .ok () := by
    rw [validateSHA256, h.checksum.1, isHexOf_digestBytes, ensure_true]
  have hfits : (!(plan.driver.capabilities.maximumObjectBytes != 0 &&
      decide (plan.sizeBytes > plan.driver.capabilities.maximumObjectBytes))) = true := by
    rw [h.capabilities, h.size.1]
    simpa only [gt_iff_lt, Bool.not_eq_true', Bool.and_eq_false_iff, bne_eq_false_iff_eq, decide_eq_false_iff_not,
      UInt64.not_lt] using hobject
  have hlayout : (!(plan.sizeBytes != 0 && plan.driver.capabilities.write.resume.available &&
      (plan.partBytes < plan.driver.capabilities.write.minimumNonFinalPartBytes ||
        plan.partBytes > plan.driver.capabilities.write.maximumPartBytes ||
        plan.parts.length > plan.driver.capabilities.write.maximumParts.toNat))) = true := by
    rw [h.capabilities, h.size.1, h.partBytes, h.parts]
    by_cases hsize : sizeBytes = 0
    · simp [hsize]
    by_cases hresume : capabilities.write.resume.available = true
    · obtain ⟨hadmits, hcount⟩ := hlimits hsize
      obtain ⟨hminimum, hmaximum⟩ := hadmits.2 hresume
      rw [maximumParts, if_pos hresume, Words.toNat_min32] at hcount
      have hnumber : ¬parts.length > capabilities.write.maximumParts.toNat := by omega
      simp [UInt64.not_lt.mpr hminimum, UInt64.not_lt.mpr hmaximum, hnumber]
    · simp [hresume]
  rw [UploadPlan.validate, mapError_eq_ok.mpr h.driver, ok_bind]
  refine ensure_bind_eq_ok.mpr ⟨hidentity, ?_⟩
  rw [h.source, ok_bind, hchecksum, ok_bind]
  refine ensure_bind_eq_ok.mpr ⟨hfits, ensure_bind_eq_ok.mpr ⟨hlayout, ?_⟩⟩
  rw [h.size.1, h.partBytes, h.parts, hparts]

theorem DownloadPlan.Lays.validate {plan : DownloadPlan} {capabilities : Capabilities} {blocks : List PlannedBlock}
    (h : plan.Lays capabilities sizeBytes blockBytes blocks)
    (hlimits : sizeBytes ≠ 0 → AdmitsBlock capabilities blockBytes) (hzero : sizeBytes = 0 → blockBytes = 0)
    (hblocks : validateBlocks sizeBytes blockBytes blocks = .ok ()) : plan.validate = .ok () := by
  have hfits : (!(plan.driver.capabilities.maximumObjectBytes != 0 &&
      decide (plan.object.sizeBytes > plan.driver.capabilities.maximumObjectBytes))) = true := by
    rw [h.capabilities, h.sizeBytes]
    simpa only [gt_iff_lt, Bool.not_eq_true', Bool.and_eq_false_iff, bne_eq_false_iff_eq, decide_eq_false_iff_not,
      UInt64.not_lt] using h.object
  have hrange : (!(plan.driver.capabilities.read.range.available &&
      plan.driver.capabilities.read.maximumRangeBytes != 0 &&
      decide (plan.blockBytes > plan.driver.capabilities.read.maximumRangeBytes))) = true := by
    rw [h.capabilities, h.blockBytes, Bool.not_eq_true', Bool.and_eq_false_iff]
    by_cases hlimited : (capabilities.read.range.available && capabilities.read.maximumRangeBytes != 0) = true
    · right
      rw [decide_eq_false_iff_not, gt_iff_lt, UInt64.not_lt]
      rw [Bool.and_eq_true, bne_iff_ne] at hlimited
      by_cases hsize : sizeBytes = 0
      · rw [hzero hsize]
        exact UInt64.le_iff_toNat_le.mpr (Nat.zero_le _)
      · exact (hlimits hsize).2 hlimited.1 hlimited.2
    · exact .inl (Bool.eq_false_iff.mpr hlimited)
  obtain ⟨hdestination, hstaging, hdir, hdistinct⟩ := h.paths
  have hkey : (!isBlankText plan.object.locator.storageKey) = true := by
    rw [h.storageKey]
    rfl
  have hpaths : (!(!canonicalAbsolutePath plan.destination || !canonicalAbsolutePath plan.stagingPath ||
      dir plan.destination != dir plan.stagingPath || plan.destination == plan.stagingPath)) = true := by
    simp [hdestination, hstaging, hdir, hdistinct]
  rw [DownloadPlan.validate, mapError_eq_ok.mpr h.driver, ok_bind]
  refine ensure_bind_eq_ok.mpr ⟨hkey, ?_⟩
  rw [h.checksum, ok_bind]
  refine ensure_bind_eq_ok.mpr ⟨hfits, ensure_bind_eq_ok.mpr ⟨hrange, ensure_bind_eq_ok.mpr ⟨hpaths, ?_⟩⟩⟩
  rw [h.sizeBytes, h.blockBytes, h.blocks, hblocks]

theorem partsExact (prims : Primitives) {capabilities : Capabilities} (hvalid : capabilities.validate = .ok ()) :
    PartsExact prims capabilities := by
  refine ⟨⟨maximumParts_ne_zero hvalid, fun sizeBytes => ?_⟩, fun _ _ => choosePartBytes_eq_error hvalid, ?_⟩
  · rw [toNat_divideRoundUp sizeBytes (maximumParts_ne_zero hvalid), UInt32.toNat_toUInt64]
  intro sizeBytes requested partBytes hchosen source content hstable hlength
  obtain ⟨hobject, hcases⟩ := choosePartBytes_eq_ok hvalid hchosen
  rcases hcases with ⟨rfl, rfl⟩ | ⟨hsize, hadmits, hcount⟩
  · have hcontent : content = [] := List.eq_nil_of_length_eq_zero hlength
    subst hcontent
    refine ⟨[], by rw [hashSourceRanges, if_pos rfl], gapless_nil _, fun hsize => absurd rfl hsize, Nat.zero_le _, ?_⟩
    exact fun plan hplan => hplan.validate hobject (fun hsize => absurd rfl hsize) rfl
  · have hpieces := hcount.trans (toNat_maximumParts_le capabilities)
    obtain ⟨parts, hparts, hblocks, hchecksums⟩ :=
      hashPartsFrom_stable prims hstable hlength hadmits.1 0 1 (Nat.zero_le sizeBytes.toNat)
    have hgapless := gapless_blocksFrom hadmits.1 hpieces
    have hnumber : parts.length ≤ (maximumParts capabilities).toNat := by
      rw [← List.length_map (f := PlannedPart.block), hblocks, hgapless.count]
      exact hcount
    have hvalidated : validateParts sizeBytes partBytes parts = .ok () := by
      apply validateParts_eq_ok hchecksums
      rw [hblocks]
      exact validateBlocks_blocksFrom hsize hadmits.1 hpieces
    refine ⟨parts, ?_, hblocks ▸ hgapless, fun _ => hadmits, hnumber, ?_⟩
    · rw [hashSourceRanges, if_neg hsize, dif_neg hadmits.1, hparts, ok_bind, UInt64.toNat_zero, List.drop_zero]
    · exact fun plan hplan => hplan.validate hobject (fun _ => ⟨hadmits, hnumber⟩) hvalidated

theorem blocksExact (capabilities : Capabilities) : BlocksExact capabilities := by
  refine ⟨⟨by decide, toNat_divideRoundUp_pieces⟩, fun _ _ => chooseBlockBytes_eq_error, ?_⟩
  intro sizeBytes requested blockBytes hchosen
  rcases chooseBlockBytes_eq_ok hchosen with ⟨rfl, rfl⟩ | ⟨hsize, hadmits, hcount⟩
  · refine ⟨[], by rw [buildBlocks, if_pos rfl], gapless_nil _, fun hsize => absurd rfl hsize, Nat.zero_le _, ?_⟩
    exact fun plan hplan => hplan.validate (fun hsize => absurd rfl hsize) (fun _ => rfl) rfl
  · have hgapless := gapless_blocksFrom hadmits.1 hcount
    have hnumber := hgapless.count.trans_le hcount
    have hfits : (!decide ((blocksFrom sizeBytes blockBytes hadmits.1 0 1).length > maximumPlanPieces.toNat)) = true := by
      simp only [Bool.not_eq_true', decide_eq_false_iff_not]
      omega
    refine ⟨_, ?_, hgapless, fun _ => hadmits, hnumber, ?_⟩
    · rw [buildBlocks, if_neg hsize, dif_neg hadmits.1]
      exact ensure_bind_eq_ok.mpr ⟨hfits, rfl⟩
    · intro plan hplan
      exact hplan.validate (fun _ => hadmits) (fun hzero => absurd hzero hsize)
        (validateBlocks_blocksFrom hsize hadmits.1 hcount)

/-- **Transfer planning is exact** for every capability record that the validator accepts. -/
theorem transferPlanning_exact (prims : Primitives) (capabilities : Capabilities)
    (hvalid : capabilities.validate = .ok ()) : PartsExact prims capabilities ∧ BlocksExact capabilities :=
  ⟨partsExact prims hvalid, blocksExact capabilities⟩

/-- A driver with multipart uploads and bounded ranges. -/
def multipartCapabilities : Capabilities where
  read := { complete := .native, range := .native, maxParallelRanges := 4, maximumRangeBytes := 8388608 }
  write :=
    { complete := .native, resume := .native, parallelParts := .native, partOrdering := .arbitrary
      maxParallelParts := 4, minimumNonFinalPartBytes := 5242880, maximumPartBytes := 5368709120
      maximumParts := 10000, uploadSessionTTLSeconds := 0 }
  delete := .native
  inventory := .native
  serverSideCopy := .unavailable
  integrity := { strongUploadChecksum := .native, algorithms := some [utf8 "sha256"], requiresReadback := false }
  maximumObjectBytes := 53687091200000
  preferredPartBytes := 67108864
  safeConcurrency := 4

theorem transferPlanning_exact_multipart :
    PartsExact { sha256 := fun _ => Bytes.zero 32, isNfc := fun _ => true } multipartCapabilities ∧
      BlocksExact multipartCapabilities :=
  transferPlanning_exact _ multipartCapabilities (by decide)

end Skydriver.Journal
