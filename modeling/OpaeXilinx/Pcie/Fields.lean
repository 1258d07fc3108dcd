import OpaeXilinx.Pcie.Bridge

/-!
# The descriptors that the bridge reads and writes

What the request controller has latched is, for the fields that are used, what the packet
said; and what the completion controller puts on its stream reads back as the completion of
that packet.
-/

namespace OpaeXilinx.Pcie

theorem extractLsb'_latch {n start len : Nat} (old new : Beat) (inside : start + len ≤ n)
    (wide : n ≤ 256) : (latch n old new).extractLsb' start len = new.extractLsb' start len := by
  apply BitVec.eq_of_getLsbD_eq
  intro i small
  have below : start + i < n := by omega
  have bound : start + i < 256 := by omega
  simp [latch, small, below, bound]

/-- The controller holds the header of a packet. -/
structure SaxisController.Holds (s : SaxisController) (t : Request) : Prop where
  header : s.tdataWide.extractLsb' 0 128 = t.tdata.extractLsb' 0 128
  firstBe : s.firstBe = t.firstBe

/-- The record of a packet. -/
def Request.record (t : Request) : TagRecord where
  attr := attrOf t.tdata
  trafficClass := trafficClass t.tdata
  requesterId := requesterId t.tdata
  lowerAddr := lowerAddr t.tdata
  completerFunc := completerFunc t.tdata
  tag := tagOf t.tdata
  firstBe := t.firstBe

namespace SaxisController.Holds

variable {s : SaxisController} {t : Request}

/-- A field of the header. -/
theorem field (holds : s.Holds t) {start len : Nat} (inside : start + len ≤ 128) :
    s.tdataWide.extractLsb' start len = t.tdata.extractLsb' start len := by
  have same := congrArg (BitVec.extractLsb' start len) holds.header
  rwa [BitVec.extractLsb'_extractLsb'_of_le inside,
    BitVec.extractLsb'_extractLsb'_of_le inside] at same

theorem record (holds : s.Holds t) : s.record = t.record := by
  have attr : attrOf s.tdataWide = attrOf t.tdata := holds.field (by decide)
  have tc : trafficClass s.tdataWide = trafficClass t.tdata := holds.field (by decide)
  have id : requesterId s.tdataWide = requesterId t.tdata := holds.field (by decide)
  have lower : lowerAddr s.tdataWide = lowerAddr t.tdata := holds.field (by decide)
  have func : completerFunc s.tdataWide = completerFunc t.tdata := holds.field (by decide)
  have tag : tagOf s.tdataWide = tagOf t.tdata := holds.field (by decide)
  rw [SaxisController.record, attr, tc, id, lower, func, tag, holds.firstBe, Request.record]

theorem axiAddr (holds : s.Holds t) (bars : Bars) :
    bars.axiAddr s.memReq.barHit s.memReq.pcieAddress = t.axiAddr bars := by
  have hit : s.memReq.barHit = barHit t.tdata := holds.field (by decide)
  have addr : s.memReq.pcieAddress = address t.tdata := holds.field (by decide)
  rw [hit, addr, Request.axiAddr]

end SaxisController.Holds

/-- The byte count is that of the enabled bytes and of those between them. -/
theorem byteCount_eq_byteSpan (be : BitVec 4) : byteCount be = byteSpan be := by
  revert be
  decide

/-- The words of the data that the read engine hands over. -/
def cpldWords (two : Bool) (data : BitVec 64) : List Word :=
  if two then [data.extractLsb' 0 32, data.extractLsb' 32 32] else [data.extractLsb' 0 32]

section Beat

variable {n : Nat} (data : BitVec n) (dw3 dw2 dw1 : Word) (start len : Nat)

theorem extractLsb'_dw1 (inside : start + len ≤ 32) :
    ((data ++ (dw3 ++ (dw2 ++ dw1))).setWidth 256).extractLsb' start len =
      dw1.extractLsb' start len := by
  rw [BitVec.extractLsb'_setWidth_of_le (by omega), BitVec.extractLsb'_append_eq_of_add_le (by omega),
    BitVec.extractLsb'_append_eq_of_add_le (by omega),
    BitVec.extractLsb'_append_eq_of_add_le inside]

theorem extractLsb'_dw2 (inside : start + len ≤ 32) :
    ((data ++ (dw3 ++ (dw2 ++ dw1))).setWidth 256).extractLsb' (start + 32) len =
      dw2.extractLsb' start len := by
  rw [BitVec.extractLsb'_setWidth_of_le (by omega), BitVec.extractLsb'_append_eq_of_add_le (by omega),
    BitVec.extractLsb'_append_eq_of_add_le (by omega), BitVec.extractLsb'_append_eq_of_le (by omega),
    Nat.add_sub_cancel]

theorem extractLsb'_dw3 (inside : start + len ≤ 32) :
    ((data ++ (dw3 ++ (dw2 ++ dw1))).setWidth 256).extractLsb' (start + 64) len =
      dw3.extractLsb' start len := by
  have behind : start + 64 - (32 + 32) = start := Nat.add_sub_cancel ..
  rw [BitVec.extractLsb'_setWidth_of_le (by omega), BitVec.extractLsb'_append_eq_of_add_le (by omega),
    BitVec.extractLsb'_append_eq_of_le (by omega), behind]

theorem extractLsb'_data (inside : start + len ≤ 128) :
    ((data ++ (dw3 ++ (dw2 ++ dw1))).setWidth 256).extractLsb' (start + 96) len =
      data.extractLsb' start len := by
  rw [BitVec.extractLsb'_setWidth_of_le (by omega), BitVec.extractLsb'_append_eq_of_le (by omega),
    Nat.add_sub_cancel]

end Beat

namespace TagRecord

variable (rec : TagRecord) (two : Bool)

/-- The number of words, as the request controller counts them. -/
def dwordNum (two : Bool) : BitVec 2 := if two then 2#2 else 1#2

theorem lowerAddr_dw1 (num : BitVec 2) : (rec.dw1Header num).extractLsb' 0 7 = rec.lowerAddr :=
  BitVec.extractLsb'_append_eq_right

theorem byteCount_dw1 : (rec.dw1Header (dwordNum two)).extractLsb' 16 13 =
    if two then 8 else BitVec.ofNat 13 (byteCount rec.firstBe) := by
  have low : ∀ be : BitVec 4,
      (0#12 ++ BitVec.ofNat 4 (byteCount be)).extractLsb' 0 13 = BitVec.ofNat 13 (byteCount be) := by
    decide
  rw [dw1Header, BitVec.extractLsb'_append_eq_of_le (by omega),
    BitVec.extractLsb'_append_eq_of_le (by omega)]
  cases two with
  | true => simp [dwordNum]
  | false => exact low rec.firstBe

theorem dwordCount_dw2 : (rec.dw2Header (dwordNum two)).extractLsb' 0 11 = if two then 2 else 1 := by
  rw [dw2Header, BitVec.extractLsb'_append_eq_of_add_le (by omega)]
  cases two <;> rfl

theorem status_dw2 : (rec.dw2Header (dwordNum two)).extractLsb' 11 3 = 0 := by
  rw [dw2Header, BitVec.extractLsb'_append_eq_of_add_le (by omega)]
  cases two <;> rfl

theorem requesterId_dw2 (num : BitVec 2) :
    (rec.dw2Header num).extractLsb' 16 16 = rec.requesterId :=
  BitVec.extractLsb'_append_eq_left

theorem tag_dw3 : rec.dw3Header.extractLsb' 0 8 = rec.tag :=
  BitVec.extractLsb'_append_eq_right

theorem trafficClass_dw3 : rec.dw3Header.extractLsb' 25 3 = rec.trafficClass := by
  rw [dw3Header, BitVec.extractLsb'_append_eq_of_le (by omega),
    BitVec.extractLsb'_append_eq_of_le (by omega), BitVec.extractLsb'_append_eq_of_le (by omega),
    BitVec.extractLsb'_append_eq_of_add_le (by omega), BitVec.extractLsb'_eq_self]

theorem attr_dw3 : rec.dw3Header.extractLsb' 28 3 = rec.attr := by
  rw [dw3Header, BitVec.extractLsb'_append_eq_of_le (by omega),
    BitVec.extractLsb'_append_eq_of_le (by omega), BitVec.extractLsb'_append_eq_of_le (by omega),
    BitVec.extractLsb'_append_eq_of_le (by omega), BitVec.extractLsb'_append_eq_of_add_le (by omega),
    BitVec.extractLsb'_eq_self]

theorem lowerAddr_dw1Ur : rec.dw1HeaderUr.extractLsb' 0 7 = rec.lowerAddr :=
  BitVec.extractLsb'_append_eq_right

theorem byteCount_dw1Ur :
    rec.dw1HeaderUr.extractLsb' 16 13 = BitVec.ofNat 13 (byteCount rec.firstBe) := by
  have low : ∀ be : BitVec 4,
      (0#13 ++ BitVec.ofNat 3 (byteCount be)).extractLsb' 0 13 = BitVec.ofNat 13 (byteCount be) := by
    decide
  rw [dw1HeaderUr, BitVec.extractLsb'_append_eq_of_le (by omega),
    BitVec.extractLsb'_append_eq_of_le (by omega)]
  exact low rec.firstBe

theorem dwordCount_dw2Ur : rec.dw2HeaderUr.extractLsb' 0 11 = 0 :=
  BitVec.extractLsb'_append_eq_right

theorem status_dw2Ur : rec.dw2HeaderUr.extractLsb' 11 3 = unsupported := by
  rw [dw2HeaderUr, BitVec.extractLsb'_append_eq_of_le (by omega),
    BitVec.extractLsb'_append_eq_of_add_le (by omega)]
  rfl

theorem requesterId_dw2Ur : rec.dw2HeaderUr.extractLsb' 16 16 = rec.requesterId := by
  rw [dw2HeaderUr, BitVec.extractLsb'_append_eq_of_le (by omega),
    BitVec.extractLsb'_append_eq_of_le (by omega), BitVec.extractLsb'_eq_self]

end TagRecord

theorem kept_keepOf (two : Bool) :
    (List.range' 3 5).filter (MaxisController.keepOf (TagRecord.dwordNum two)).getLsbD =
      if two then [3, 4] else [3] := by
  cases two <;> decide

/-- The completion of a read reads back as that of the packet, with the data read. -/
theorem completion_cpldBeat {m : MaxisController} {pins : CpldPins} {t : Request} {two : Bool}
    (tag : pins.tag = t.record) (num : pins.cpldDwordNum = TagRecord.dwordNum two) :
    (CcBeat.mk (m.cpldBeat pins) (MaxisController.keepOf (TagRecord.dwordNum two))).completion =
      t.completion (cpldWords two m.cpldData) := by
  simp only [CcBeat.completion, Request.completion, MaxisController.cpldBeat, tag, num,
    Completion.mk.injEq]
  refine ⟨?_, ?_, ?_, ?_, ?_, ?_, ?_, ?_, ?_⟩
  · exact (extractLsb'_dw1 _ _ _ _ 0 7 (by omega)).trans (t.record.lowerAddr_dw1 _)
  · rw [extractLsb'_dw1 _ _ _ _ 16 13 (by omega), t.record.byteCount_dw1, byteCount_eq_byteSpan]
    cases two <;> rfl
  · rw [extractLsb'_dw2 _ _ _ _ 0 11 (by omega), t.record.dwordCount_dw2]
    cases two <;> rfl
  · exact (extractLsb'_dw2 _ _ _ _ 11 3 (by omega)).trans (t.record.status_dw2 two)
  · exact (extractLsb'_dw2 _ _ _ _ 16 16 (by omega)).trans (t.record.requesterId_dw2 _)
  · exact (extractLsb'_dw3 _ _ _ _ 0 8 (by omega)).trans t.record.tag_dw3
  · exact (extractLsb'_dw3 _ _ _ _ 25 3 (by omega)).trans t.record.trafficClass_dw3
  · exact (extractLsb'_dw3 _ _ _ _ 28 3 (by omega)).trans t.record.attr_dw3
  · have low := extractLsb'_data m.cpldData t.record.dw3Header
      (t.record.dw2Header (TagRecord.dwordNum two)) (t.record.dw1Header (TagRecord.dwordNum two))
      0 32 (by omega)
    have high := extractLsb'_data m.cpldData t.record.dw3Header
      (t.record.dw2Header (TagRecord.dwordNum two)) (t.record.dw1Header (TagRecord.dwordNum two))
      32 32 (by omega)
    rw [CcBeat.payload, kept_keepOf, cpldWords]
    cases two with
    | true => exact congrArg₂ (fun low high => [low, high]) low high
    | false => exact congrArg (fun low => [low]) low

/-- The completion of a read that is not supported reads back as its rejection. -/
theorem completion_urBeat {pins : CpldPins} {t : Request} (tag : pins.completionUr = t.record) :
    (CcBeat.mk (MaxisController.urBeat pins) 0x07#8).completion = t.rejection := by
  simp only [CcBeat.completion, Request.rejection, Request.completion, MaxisController.urBeat, tag,
    Completion.mk.injEq]
  refine ⟨?_, ?_, ?_, ?_, ?_, ?_, ?_, ?_, ?_⟩
  · exact (extractLsb'_dw1 _ _ _ _ 0 7 (by omega)).trans t.record.lowerAddr_dw1Ur
  · rw [extractLsb'_dw1 _ _ _ _ 16 13 (by omega), t.record.byteCount_dw1Ur, byteCount_eq_byteSpan]
    rfl
  · exact (extractLsb'_dw2 _ _ _ _ 0 11 (by omega)).trans t.record.dwordCount_dw2Ur
  · exact (extractLsb'_dw2 _ _ _ _ 11 3 (by omega)).trans t.record.status_dw2Ur
  · exact (extractLsb'_dw2 _ _ _ _ 16 16 (by omega)).trans t.record.requesterId_dw2Ur
  · exact (extractLsb'_dw3 _ _ _ _ 0 8 (by omega)).trans t.record.tag_dw3
  · exact (extractLsb'_dw3 _ _ _ _ 25 3 (by omega)).trans t.record.trafficClass_dw3
  · exact (extractLsb'_dw3 _ _ _ _ 28 3 (by omega)).trans t.record.attr_dw3
  · have none : (List.range' 3 5).filter (0x07#8).getLsbD = [] := by decide
    rw [CcBeat.payload, none]
    rfl

end OpaeXilinx.Pcie
