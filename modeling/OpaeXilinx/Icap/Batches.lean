import OpaeXilinx.Icap.Download

/-!
# Batches of the ICAP writer

`bitstream_icap_helper` with a record of its accesses to the device.  Each round reads the
vacancy of the FIFO, writes no more words than that, starts the transfer and polls the
control register until the transfer is done or the polls run out.
-/

namespace OpaeXilinx.Icap

/-- An access to the registers of the ICAP: `XHWICAP_WFV` read, `XHWICAP_WF` written, 1
written to `XHWICAP_CR`, and `XHWICAP_CR` read. -/
inductive IcapAccess where
  | vacancy (value : Word)
  | word (value : Word)
  | start
  | poll (value : Word)
  deriving DecidableEq, Repr

/-- The words written to the FIFO. -/
def wordsOf (log : List IcapAccess) : List Word :=
  log.filterMap fun
    | .word value => some value
    | _ => none

/-- A 32 bit load of four bytes in memory order, on a little-endian host. -/
def le32 (first second third fourth : Byte) : Word := fourth ++ third ++ second ++ first

/-- `be32_to_cpu` on a little-endian host. -/
def swab32 (value : Word) : Word :=
  be32 (value.extractLsb' 0 8) (value.extractLsb' 8 8) (value.extractLsb' 16 8)
    (value.extractLsb' 24 8)

/-- The words of the buffer as they are loaded, `word_buf[i]` from an offset on. -/
def wordBuf (buffer : Nat → Byte) (offset count : Nat) : List Word :=
  (List.range count).map fun i => le32 (buffer (4 * (offset + i)))
    (buffer (4 * (offset + i) + 1)) (buffer (4 * (offset + i) + 2)) (buffer (4 * (offset + i) + 3))

/-- `pollCr` with its reads. -/
def pollCrTraced (env : IcapEnv) : Nat → MgmtDev → (Bool × MgmtDev) × List IcapAccess
  | 0, lro => ((false, lro), [])
  | polls + 1, lro =>
      let value := env.cr lro.crReads
      let lro := { lro with crReads := lro.crReads + 1 }
      if value &&& 1 = 0 then ((true, lro), [.poll value])
      else
        let (result, log) := pollCrTraced env polls lro
        (result, .poll value :: log)

/-- `hwicapWrite` with its accesses. -/
def hwicapWriteTraced (env : IcapEnv) (lro : MgmtDev) (buffer : Nat → Byte)
    (offset size : Nat) : (Bool × MgmtDev) × List IcapAccess :=
  let written := (wordBuf buffer offset size).map swab32
  let (result, polls) := pollCrTraced env 20 { lro with words := lro.words ++ written }
  (result, written.map .word ++ .start :: polls)

/-- `bitstream_icap_helper` with its accesses. -/
def bitstreamIcapHelperTraced (env : IcapEnv) (lro : MgmtDev) (buffer : Nat → Byte)
    (offset remainWord : Nat) : (Except Errno Unit × MgmtDev) × List IcapAccess :=
  if remainWord = 0 then ((.ok (), lro), [])
  else
    let vacancy := (env.vacancy lro.vacancyReads).toInt
    let read : IcapAccess := .vacancy (env.vacancy lro.vacancyReads)
    let lro := { lro with vacancyReads := lro.vacancyReads + 1 }
    if _full : vacancy ≤ 0 then ((.error .eio, { lro with hwicapStatus := .error }), [read])
    else
      let wordWritten := if vacancy < remainWord then vacancy.toNat else remainWord
      match hwicapWriteTraced env lro buffer offset wordWritten with
      | ((false, lro), log) => ((.error .eio, { lro with hwicapStatus := .error }), read :: log)
      | ((true, lro), log) =>
          let (result, rest) := bitstreamIcapHelperTraced env lro buffer (offset + wordWritten)
            (remainWord - wordWritten)
          (result, read :: log ++ rest)
termination_by remainWord
decreasing_by split <;> omega

theorem extract_lowest {width : Nat} (high : BitVec width) (low : Byte) :
    (high ++ low).extractLsb' 0 8 = low := BitVec.extractLsb'_append_eq_right

/-- The bytes of a word above the lowest. -/
theorem extract_above {width : Nat} (high : BitVec width) (low : Byte) (start : Nat) :
    (high ++ low).extractLsb' (start + 8) 8 = high.extractLsb' start 8 :=
  BitVec.extractLsb'_append_eq_of_le (Nat.le_add_left 8 start)

theorem swab32_le32 (first second third fourth : Byte) :
    swab32 (le32 first second third fourth) = be32 first second third fourth := by
  have byte0 : (le32 first second third fourth).extractLsb' 0 8 = first :=
    extract_lowest (fourth ++ third ++ second) first
  have byte1 : (le32 first second third fourth).extractLsb' 8 8 = second :=
    (extract_above (fourth ++ third ++ second) first 0).trans
      (extract_lowest (fourth ++ third) second)
  have byte2 : (le32 first second third fourth).extractLsb' 16 8 = third :=
    (extract_above (fourth ++ third ++ second) first 8).trans
      ((extract_above (fourth ++ third) second 0).trans (extract_lowest fourth third))
  have byte3 : (le32 first second third fourth).extractLsb' 24 8 = fourth :=
    (extract_above (fourth ++ third ++ second) first 16).trans
      ((extract_above (fourth ++ third) second 8).trans
        ((extract_above fourth third 0).trans BitVec.extractLsb'_eq_self))
  rw [swab32, byte0, byte1, byte2, byte3]

theorem wordBuf_swab32 (buffer : Nat → Byte) (offset count : Nat) :
    (wordBuf buffer offset count).map swab32 = wordsAt buffer offset count := by
  simp [wordBuf, wordsAt, wordAt, Function.comp_def, swab32_le32]

theorem pollCrTraced_fst (env : IcapEnv) (polls : Nat) (lro : MgmtDev) :
    (pollCrTraced env polls lro).1 = pollCr env polls lro := by
  induction polls generalizing lro with
  | zero => rfl
  | succ polls ih =>
      simp only [pollCrTraced, pollCr]
      split
      · rfl
      · exact ih _

theorem hwicapWriteTraced_fst (env : IcapEnv) (lro : MgmtDev) (buffer : Nat → Byte)
    (offset size : Nat) :
    (hwicapWriteTraced env lro buffer offset size).1 = hwicapWrite env lro buffer offset size := by
  simp only [hwicapWriteTraced, hwicapWrite, wordBuf_swab32, pollCrTraced_fst]

theorem bitstreamIcapHelperTraced_fst (env : IcapEnv) (lro : MgmtDev) (buffer : Nat → Byte)
    (offset remainWord : Nat) :
    (bitstreamIcapHelperTraced env lro buffer offset remainWord).1 =
      bitstreamIcapHelper env lro buffer offset remainWord := by
  induction remainWord using Nat.strongRecOn generalizing lro offset with
  | ind remain ih =>
      rw [bitstreamIcapHelperTraced, bitstreamIcapHelper]
      split
      · rfl
      dsimp only
      split
      · rfl
      next nonzero full =>
        obtain ⟨written, isWritten⟩ : ∃ written, written =
            if (env.vacancy lro.vacancyReads).toInt < remain then
              (env.vacancy lro.vacancyReads).toInt.toNat else remain := ⟨_, rfl⟩
        have advances : remain - written < remain := by
          rw [isWritten]
          split <;> omega
        rw [← isWritten, ← hwicapWriteTraced_fst]
        rcases hwicapWriteTraced env { lro with vacancyReads := lro.vacancyReads + 1 } buffer
          offset written with ⟨⟨_ | _, lro'⟩, log⟩
        · rfl
        · exact ih _ advances lro' (offset + written)

/-- One round: the vacancy read, the words written and the polls after the start. -/
structure Batch where
  vacancy : Word
  words : List Word
  polls : List Word

namespace Batch

/-- The accesses of a round, in order. -/
def accesses (batch : Batch) : List IcapAccess :=
  .vacancy batch.vacancy :: batch.words.map .word ++ .start :: batch.polls.map .poll

/-- A poll has found the transfer done. -/
def Acknowledged (batch : Batch) : Prop := ∃ value ∈ batch.polls, value &&& 1 = 0

end Batch

/-- The record of a run consists of the batches, and at the end perhaps a vacancy that is
not positive. -/
structure Batched (run : (Except Errno Unit × MgmtDev) × List IcapAccess) (words : List Word)
    (batches : List Batch) (last : List IcapAccess) : Prop where
  record : run.2 = batches.flatMap Batch.accesses ++ last
  last : last = [] ∨ ∃ value : Word, value.toInt ≤ 0 ∧ last = [.vacancy value]
  limited : ∀ batch ∈ batches, (batch.words.length : Int) ≤ batch.vacancy.toInt
  pushed : batches.flatMap Batch.words <+: words
  returns : run.1.1 = .ok () ↔
    batches.flatMap Batch.words = words ∧ ∀ batch ∈ batches, batch.Acknowledged
  fails : run.1.1 ≠ .ok () → run.1.2.hwicapStatus = .error

theorem pollCrTraced_polls (env : IcapEnv) (polls : Nat) (lro : MgmtDev) :
    ∃ values : List Word, (pollCrTraced env polls lro).2 = values.map .poll ∧
      ((pollCrTraced env polls lro).1.1 = true ↔ ∃ value ∈ values, value &&& 1 = 0) := by
  induction polls generalizing lro with
  | zero => exact ⟨[], rfl, by simp [pollCrTraced]⟩
  | succ polls ih =>
      simp only [pollCrTraced]
      split
      next done =>
        exact ⟨[env.cr lro.crReads], rfl, fun _ => ⟨_, .head _, done⟩, fun _ => rfl⟩
      next busy =>
        obtain ⟨values, log, acknowledged⟩ := ih { lro with crReads := lro.crReads + 1 }
        refine ⟨env.cr lro.crReads :: values, by simp [log], ?_⟩
        rw [acknowledged, List.exists_mem_cons_iff]
        exact (or_iff_right busy).symm

/-- What `hwicapWrite` does after the vacancy has been read makes up a batch. -/
theorem hwicapWriteTraced_batch (env : IcapEnv) (lro : MgmtDev) (buffer : Nat → Byte)
    (offset size : Nat) (vacancy : Word) :
    ∃ batch : Batch, batch.vacancy = vacancy ∧
      batch.words = (wordBuf buffer offset size).map swab32 ∧
      batch.accesses = .vacancy vacancy :: (hwicapWriteTraced env lro buffer offset size).2 ∧
      ((hwicapWriteTraced env lro buffer offset size).1.1 = true ↔ batch.Acknowledged) := by
  obtain ⟨values, log, acknowledged⟩ := pollCrTraced_polls env 20
    { lro with words := lro.words ++ (wordBuf buffer offset size).map swab32 }
  refine ⟨⟨vacancy, (wordBuf buffer offset size).map swab32, values⟩, rfl, rfl, ?_, acknowledged⟩
  simp [Batch.accesses, hwicapWriteTraced, log]

theorem wordBuf_add (buffer : Nat → Byte) (offset first second : Nat) :
    (wordBuf buffer offset (first + second)).map swab32 =
      (wordBuf buffer offset first).map swab32 ++
        (wordBuf buffer (offset + first) second).map swab32 := by
  simp only [wordBuf_swab32]
  exact wordsAt_add buffer offset first second

/-- A run without a word written that fails. -/
theorem batched_full {lro : MgmtDev} {words : List Word} {value : Word}
    (status : lro.hwicapStatus = .error) (full : value.toInt ≤ 0) (some : words ≠ []) :
    Batched ((.error .eio, lro), [.vacancy value]) words [] [.vacancy value] where
  record := rfl
  last := .inr ⟨value, full, rfl⟩
  limited := nofun
  pushed := List.nil_prefix
  returns := ⟨nofun, fun whole => absurd whole.1.symm some⟩
  fails _ := status

/-- A batch that is not acknowledged ends the run. -/
theorem batched_timeout {lro : MgmtDev} {words : List Word} {batch : Batch}
    (status : lro.hwicapStatus = .error)
    (limited : (batch.words.length : Int) ≤ batch.vacancy.toInt) (pushed : batch.words <+: words)
    (timeout : ¬ batch.Acknowledged) :
    Batched ((.error .eio, lro), batch.accesses) words [batch] [] where
  record := by simp
  last := .inl rfl
  limited other member := List.mem_singleton.mp member ▸ limited
  pushed := by simpa using pushed
  returns := ⟨nofun, fun whole => absurd (whole.2 batch (.head _)) timeout⟩
  fails _ := status

/-- A batch that is acknowledged goes before the rest of the run. -/
theorem Batched.cons {result : Except Errno Unit × MgmtDev} {log : List IcapAccess}
    {words : List Word} {batches : List Batch} {last : List IcapAccess} {batch : Batch}
    (rest : Batched (result, log) words batches last)
    (limited : (batch.words.length : Int) ≤ batch.vacancy.toInt)
    (acknowledged : batch.Acknowledged) :
    Batched (result, batch.accesses ++ log) (batch.words ++ words) (batch :: batches) last where
  record := by
    have record : log = batches.flatMap Batch.accesses ++ last := rest.record
    simp [record]
  last := rest.last
  limited := List.forall_mem_cons.mpr ⟨limited, rest.limited⟩
  pushed := by
    rw [List.flatMap_cons, List.prefix_append_right_inj]
    exact rest.pushed
  returns := by
    rw [rest.returns, List.flatMap_cons, List.append_cancel_left_eq, List.forall_mem_cons]
    simp [acknowledged]
  fails := rest.fails

theorem bitstreamIcapHelperTraced_batched (env : IcapEnv) (lro : MgmtDev)
    (buffer : Nat → Byte) (offset remainWord : Nat) :
    ∃ batches last, Batched (bitstreamIcapHelperTraced env lro buffer offset remainWord)
      ((wordBuf buffer offset remainWord).map swab32) batches last := by
  induction remainWord using Nat.strongRecOn generalizing lro offset with
  | ind remain ih =>
      have length : ((wordBuf buffer offset remain).map swab32).length = remain := by
        simp [wordBuf]
      rw [bitstreamIcapHelperTraced]
      split
      next none =>
        subst none
        exact ⟨[], [], rfl, .inl rfl, nofun, List.nil_prefix, by simp [wordBuf], nofun⟩
      dsimp only
      split
      next nonzero full =>
        refine ⟨[], _, batched_full rfl full ?_⟩
        intro empty
        rw [empty] at length
        exact nonzero length.symm
      next nonzero room =>
        obtain ⟨written, isWritten⟩ : ∃ written, written =
            if (env.vacancy lro.vacancyReads).toInt < remain then
              (env.vacancy lro.vacancyReads).toInt.toNat else remain := ⟨_, rfl⟩
        have sizes : remain - written < remain ∧ remain = written + (remain - written) ∧
            (written : Int) ≤ (env.vacancy lro.vacancyReads).toInt := by
          rw [isWritten]
          split <;> omega
        obtain ⟨advances, split, limited⟩ := sizes
        rw [← isWritten]
        obtain ⟨batch, vacancy, words, accesses, acknowledged⟩ := hwicapWriteTraced_batch env
          { lro with vacancyReads := lro.vacancyReads + 1 } buffer offset written
          (env.vacancy lro.vacancyReads)
        have batchLimited : (batch.words.length : Int) ≤ batch.vacancy.toInt := by
          rw [words, vacancy]
          simpa [wordBuf] using limited
        rw [split, wordBuf_add, ← words, ← split]
        rcases traced : hwicapWriteTraced env { lro with vacancyReads := lro.vacancyReads + 1 }
          buffer offset written with ⟨⟨_ | _, lro'⟩, log⟩ <;> rw [traced] at accesses acknowledged
        · refine ⟨[batch], [], ?_⟩
          have timeout : ¬ batch.Acknowledged := fun holds => nomatch acknowledged.mpr holds
          have stopped : Batched ((.error .eio, { lro' with hwicapStatus := .error }),
              batch.accesses) (batch.words ++
                (wordBuf buffer (offset + written) (remain - written)).map swab32) [batch] [] :=
            batched_timeout rfl batchLimited (List.prefix_append ..) timeout
          rw [accesses] at stopped
          exact stopped
        · obtain ⟨batches, last, batched⟩ := ih _ advances lro' (offset + written)
          refine ⟨batch :: batches, last, ?_⟩
          have whole := batched.cons batchLimited (acknowledged.mp rfl)
          rw [accesses] at whole
          exact whole

theorem wordsOf_word (value : Word) (rest : List IcapAccess) :
    wordsOf (.word value :: rest) = value :: wordsOf rest := rfl

theorem wordsOf_append (first second : List IcapAccess) :
    wordsOf (first ++ second) = wordsOf first ++ wordsOf second := List.filterMap_append ..

/-- What a record contains of a word list when it is cut off anywhere. -/
theorem wordsOf_prefix {seen log : List IcapAccess} (cut : seen <+: log) :
    wordsOf seen <+: wordsOf log := by
  obtain ⟨rest, rfl⟩ := cut
  exact ⟨wordsOf rest, (wordsOf_append seen rest).symm⟩

theorem wordsOf_accesses (batch : Batch) : wordsOf batch.accesses = batch.words := by
  simp [wordsOf, Batch.accesses, List.filterMap_append, List.filterMap_map]

theorem wordsOf_batches (batches : List Batch) :
    wordsOf (batches.flatMap Batch.accesses) = batches.flatMap Batch.words := by
  induction batches with
  | nil => rfl
  | cons batch rest ih =>
      rw [List.flatMap_cons, List.flatMap_cons, ← ih, ← wordsOf_accesses, wordsOf_append]

theorem Batched.wordsOf_eq {run : (Except Errno Unit × MgmtDev) × List IcapAccess}
    {words : List Word} {batches : List Batch} {last : List IcapAccess}
    (batched : Batched run words batches last) :
    wordsOf run.2 = batches.flatMap Batch.words := by
  have none : wordsOf last = [] := by
    rcases batched.last with rfl | ⟨value, -, rfl⟩ <;> rfl
  rw [batched.record, wordsOf_append, wordsOf_batches, none, List.append_nil]

/-- For every buffer, every sequence of vacancies and every outcome of the polls, the
helper ends, and its accesses are batches, each of no more words than the vacancy read
before it and followed by a start and its polls before the next vacancy is read.  At any
time what has been written is a prefix of the byte-swapped words; 0 is returned exactly if
all of them were written and every batch acknowledged, and any other result leaves the
error status. -/
theorem bitstreamIcapHelper_batches (env : IcapEnv) (lro : MgmtDev) (buffer : Nat → Byte)
    (wordCount : Nat) :
    let run := bitstreamIcapHelperTraced env lro buffer 0 wordCount
    let swapped := (wordBuf buffer 0 wordCount).map swab32
    run.1 = bitstreamIcapHelper env lro buffer 0 wordCount ∧
    (∃ batches last, Batched run swapped batches last) ∧
    ∀ seen, seen <+: run.2 → wordsOf seen <+: swapped := by
  obtain ⟨batches, last, batched⟩ := bitstreamIcapHelperTraced_batched env lro buffer 0 wordCount
  refine ⟨bitstreamIcapHelperTraced_fst env lro buffer 0 wordCount, ⟨batches, last, batched⟩, ?_⟩
  intro seen cut
  exact (batched.wordsOf_eq ▸ wordsOf_prefix cut).trans batched.pushed

end OpaeXilinx.Icap
