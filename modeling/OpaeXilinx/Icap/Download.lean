import OpaeXilinx.Icap.BitHeader

/-!
# Downloading a bitstream through the ICAP

`bitstream_ioctl_icap` parses the header of the user's bit file, then copies the
file to the device in kilobytes, each of them written to the ICAP's FIFO in batches
that its vacancy allows.  The copy starts after the header but runs for the length of
the whole buffer, so it always reads past the buffer's end by the length of the header.
-/

namespace OpaeXilinx.Icap

abbrev Word := BitVec 32

/-- Error numbers returned by the driver, without their sign. -/
inductive Errno where
  | eio | enomem | efault | einval | etimedout
  deriving DecidableEq, Repr

/-- `hwicap_status`. -/
inductive Status where
  | downloading | finish | error
  deriving DecidableEq, Repr

/-- `struct mgmt_dev`, with what the download does outside the driver: the words
written to `XHWICAP_WF`, the registers read so far, and the ranges of user memory
copied. -/
structure MgmtDev where
  axiGateFrozen : Bool
  /-- The stashed clearing bitstream, by its length. -/
  clearBitstream : Option Nat
  hwicapStatus : Status
  words : List Word
  vacancyReads : Nat
  crReads : Nat
  srReads : Nat
  copied : List (Nat × Nat)

/-- What one call meets: the results of the allocations and the values that the
registers `WFV`, `CR` and `SR` give, one read after the other. -/
structure IcapEnv where
  bufferOk : Bool
  fieldOk : Field → Bool
  vacancy : Nat → Word
  cr : Nat → Word
  sr : Nat → Word

/-- `be32_to_cpu` of four bytes in memory order. -/
def be32 (first second third fourth : Byte) : Word := first ++ second ++ third ++ fourth

/-- The word at a word offset of a buffer. -/
def wordAt (buffer : Nat → Byte) (offset : Nat) : Word :=
  be32 (buffer (4 * offset)) (buffer (4 * offset + 1)) (buffer (4 * offset + 2))
    (buffer (4 * offset + 3))

/-- Consecutive words of a buffer. -/
def wordsAt (buffer : Nat → Byte) (offset count : Nat) : List Word :=
  (List.range count).map fun i => wordAt buffer (offset + i)

/-- The polls of `CR` after a batch. -/
def pollCr (env : IcapEnv) : Nat → MgmtDev → Bool × MgmtDev
  | 0, lro => (false, lro)
  | polls + 1, lro =>
      let value := env.cr lro.crReads
      let lro := { lro with crReads := lro.crReads + 1 }
      if value &&& 1 = 0 then (true, lro) else pollCr env polls lro

def hwicapWrite (env : IcapEnv) (lro : MgmtDev) (buffer : Nat → Byte) (offset size : Nat) :
    Bool × MgmtDev :=
  pollCr env 20 { lro with words := lro.words ++ wordsAt buffer offset size }

/-- `bitstream_icap_helper`, from a word offset of the buffer on. -/
def bitstreamIcapHelper (env : IcapEnv) (lro : MgmtDev) (buffer : Nat → Byte)
    (offset remainWord : Nat) : Except Errno Unit × MgmtDev :=
  if remainWord = 0 then (.ok (), lro)
  else
    -- the register is read into a signed integer
    let vacancy := (env.vacancy lro.vacancyReads).toInt
    let lro := { lro with vacancyReads := lro.vacancyReads + 1 }
    if _full : vacancy ≤ 0 then (.error .eio, { lro with hwicapStatus := .error })
    else
      let wordWritten := if vacancy < remainWord then vacancy.toNat else remainWord
      match hwicapWrite env lro buffer offset wordWritten with
      | (false, lro) => (.error .eio, { lro with hwicapStatus := .error })
      | (true, lro) =>
          bitstreamIcapHelper env lro buffer (offset + wordWritten) (remainWord - wordWritten)
termination_by remainWord
decreasing_by split <;> omega

/-- `wait_for_done` with a number of polls left. -/
def waitForDone (env : IcapEnv) : Nat → MgmtDev → Bool × MgmtDev
  | 0, lro => (false, lro)
  | polls + 1, lro =>
      let value := env.sr lro.srReads
      let lro := { lro with srReads := lro.srReads + 1 }
      if value &&& 5 ≠ 0 then (true, { lro with hwicapStatus := .finish })
      else waitForDone env polls lro

/-- User memory from the start of the user's buffer on; `none` cannot be read. -/
abbrev UserMem := Nat → Option Byte

/-- The bytes of a range are all readable. -/
def Readable (user : UserMem) (start count : Nat) : Prop :=
  ∀ i < count, (user (start + i)).isSome = true

instance (user : UserMem) (start count : Nat) : Decidable (Readable user start count) :=
  inferInstanceAs (Decidable (∀ i < count, (user (start + i)).isSome = true))

/-- The bytes of user memory, read from an offset on. -/
def bytesFrom (user : UserMem) (start : Nat) : Nat → Byte := fun i => (user (start + i)).getD 0

/-- `copy_from_user` into the start of the buffer, if the whole range is readable. -/
def copyFromUser (user : UserMem) (buffer : Nat → Byte) (start count : Nat) :
    Option (Nat → Byte) :=
  if Readable user start count then
    some fun i => if i < count then bytesFrom user start i else buffer i
  else none

theorem copyFromUser_readable {user : UserMem} {start count : Nat}
    (readable : Readable user start count) (buffer : Nat → Byte) :
    copyFromUser user buffer start count =
      some fun i => if i < count then bytesFrom user start i else buffer i :=
  if_pos readable

/-- What a call comes to.  Without enough fuel it is still running. -/
inductive Outcome where
  | returned (result : Except Errno Unit) (lro : MgmtDev)
  | fault
  | running

/-- `free_buffers`. -/
def freeBuffers (lro : MgmtDev) (result : Except Errno Unit) : Outcome :=
  .returned result { lro with axiGateFrozen := false }

/-- The copy loop.  `byte_read` and `numCharsRead` have 32 bits, `length` has 64. -/
def downloadLoop (env : IcapEnv) (user : UserMem) (length : Nat) :
    (fuel byteRead bitBuf : Nat) → (Nat → Byte) → MgmtDev → Outcome
  | 0, _, _, _, _ => .running
  | fuel + 1, byteRead, bitBuf, buffer, lro =>
      if byteRead < length then
        let numCharsRead := (length - byteRead) % 2 ^ 32
        let numCharsRead := if numCharsRead > bufferSize then bufferSize else numCharsRead
        let lro := { lro with copied := lro.copied ++ [(bitBuf, numCharsRead)] }
        match copyFromUser user buffer bitBuf numCharsRead with
        | none => freeBuffers { lro with hwicapStatus := .error } (.error .efault)
        | some buffer =>
            match bitstreamIcapHelper env lro buffer 0 (numCharsRead / 4) with
            | (.error err, lro) => freeBuffers { lro with hwicapStatus := .error } (.error err)
            | (.ok _, lro) =>
                downloadLoop env user length fuel ((byteRead + numCharsRead) % 2 ^ 32)
                  (bitBuf + numCharsRead) buffer lro
      else
        match waitForDone env 1000 lro with
        | (false, lro) => freeBuffers lro (.error .etimedout)
        | (true, lro) => freeBuffers lro (.ok ())

/-- `bitstream_clear_icap` only drops the stashed bitstream. -/
def bitstreamClearIcap (lro : MgmtDev) : MgmtDev := { lro with clearBitstream := none }

/-- `bitstream_ioctl_icap` once the header has been parsed. -/
def downloadParsed (env : IcapEnv) (user : UserMem) (length fuel : Nat) (lro : MgmtDev)
    (buffer : Nat → Byte) : Except Halt (BitHeader × Nat) → Outcome
  | .error .fault => .fault
  | .error .invalid => freeBuffers { lro with hwicapStatus := .error } (.error .einval)
  | .ok (header, _) =>
      if (header.headerLength + header.bitstreamLength) % 2 ^ 32 > length then
        freeBuffers { lro with hwicapStatus := .error } (.error .einval)
      else downloadLoop env user length fuel 0 header.headerLength buffer lro

def bitstreamIoctlIcap (env : IcapEnv) (user : UserMem) (length fuel : Nat) (lro : MgmtDev) :
    Outcome :=
  if lro.axiGateFrozen then .fault
  else
    let lro := bitstreamClearIcap { lro with axiGateFrozen := true }
    if env.bufferOk = false then freeBuffers lro (.error .enomem)
    else
      let lro := { lro with copied := lro.copied ++ [(0, bufferSize)] }
      match copyFromUser user (fun _ => 0) 0 bufferSize with
      | none => freeBuffers { lro with hwicapStatus := .error } (.error .efault)
      | some buffer =>
          downloadParsed env user length fuel lro buffer (bitstreamParseHeader buffer env.fieldOk 0)

theorem wordsAt_add (buffer : Nat → Byte) (offset first second : Nat) :
    wordsAt buffer offset (first + second) =
      wordsAt buffer offset first ++ wordsAt buffer (offset + first) second := by
  simp only [wordsAt, List.range_add, List.map_append, List.map_map, List.append_cancel_left_eq]
  apply List.map_congr_left
  intro i _
  simp [Nat.add_assoc]

/-- Words depend on the bytes they are made of only. -/
theorem wordsAt_congr {first second : Nat → Byte} {from_ from' count : Nat}
    (agree : ∀ i < 4 * count, first (4 * from_ + i) = second (4 * from' + i)) :
    wordsAt first from_ count = wordsAt second from' count := by
  apply List.map_congr_left
  intro i member
  have inside := List.mem_range.mp member
  have same : ∀ k < 4, first (4 * (from_ + i) + k) = second (4 * (from' + i) + k) := by
    intro k small
    have here := agree (4 * i + k) (by omega)
    rw [show 4 * from_ + (4 * i + k) = 4 * (from_ + i) + k by omega,
      show 4 * from' + (4 * i + k) = 4 * (from' + i) + k by omega] at here
    exact here
  have head := same 0 (by omega)
  simp only [Nat.add_zero] at head
  simp only [wordAt, head, same 1 (by omega), same 2 (by omega), same 3 (by omega)]

theorem pollCr_words (env : IcapEnv) (polls : Nat) (lro : MgmtDev) :
    (pollCr env polls lro).2.words = lro.words := by
  induction polls generalizing lro with
  | zero => rfl
  | succ polls ih =>
      simp only [pollCr]
      split
      · rfl
      · rw [ih]

theorem waitForDone_words (env : IcapEnv) (polls : Nat) (lro : MgmtDev) :
    (waitForDone env polls lro).2.words = lro.words := by
  induction polls generalizing lro with
  | zero => rfl
  | succ polls ih =>
      simp only [waitForDone]
      split
      · rfl
      · rw [ih]

/-- A successful helper call has written all its words in order, whatever the
vacancies were. -/
theorem bitstreamIcapHelper_words {env : IcapEnv} {lro after : MgmtDev} {buffer : Nat → Byte}
    {offset remainWord : Nat}
    (ok : bitstreamIcapHelper env lro buffer offset remainWord = (.ok (), after)) :
    after.words = lro.words ++ wordsAt buffer offset remainWord := by
  fun_induction bitstreamIcapHelper env lro buffer offset remainWord with
  | case1 =>
      cases ok
      simp [wordsAt]
  | case2 => cases ok
  | case3 => cases ok
  | case4 lro offset remain nonzero vacancy lro' full written lro'' wrote ih =>
      have batch : lro''.words = lro.words ++ wordsAt buffer offset written := by
        have polled := pollCr_words env 20
          { lro' with words := lro'.words ++ wordsAt buffer offset written }
        rw [hwicapWrite] at wrote
        rw [wrote] at polled
        exact polled
      have split : remain = written + (remain - written) := by
        simp only [written]
        split <;> omega
      rw [ih ok, batch, List.append_assoc, ← wordsAt_add, ← split]

theorem pollCr_idle {env : IcapEnv} (idle : ∀ k, env.cr k &&& 1 = 0) (lro : MgmtDev) :
    (pollCr env 20 lro).1 = true := by
  rw [pollCr]
  simp only [idle, if_true]

/-- A device with room that acknowledges every batch takes every word. -/
theorem bitstreamIcapHelper_completes {env : IcapEnv} (room : ∀ k, 1 ≤ (env.vacancy k).toInt)
    (polled : ∀ lro, (pollCr env 20 lro).1 = true) (lro : MgmtDev) (buffer : Nat → Byte)
    (offset remainWord : Nat) :
    (bitstreamIcapHelper env lro buffer offset remainWord).1 = .ok () := by
  fun_induction bitstreamIcapHelper env lro buffer offset remainWord with
  | case1 => rfl
  | case2 lro offset remain nonzero vacancy lro' full =>
      have here := room lro.vacancyReads
      omega
  | case3 lro offset remain nonzero vacancy lro' full written lro'' wrote =>
      have accepted := polled { lro' with words := lro'.words ++ wordsAt buffer offset written }
      rw [hwicapWrite] at wrote
      rw [wrote] at accepted
      cases accepted
  | case4 lro offset remain nonzero vacancy lro' full written lro'' wrote ih => exact ih

section Loop

variable {env : IcapEnv} {user : UserMem} {length : Nat}

/-- Size of the next chunk of a buffer whose length fits 32 bits. -/
theorem chunk_eq {byteRead : Nat} (short : length < 2 ^ 32) :
    (if (length - byteRead) % 2 ^ 32 > bufferSize then bufferSize
      else (length - byteRead) % 2 ^ 32) = min bufferSize (length - byteRead) := by
  rw [Nat.mod_eq_of_lt (by omega)]
  split <;> omega

theorem readable_add {start first second : Nat} (firstReadable : Readable user start first)
    (secondReadable : Readable user (start + first) second) :
    Readable user start (first + second) := by
  intro i inside
  rcases Nat.lt_or_ge i first with here | later
  · exact firstReadable i here
  · have there := secondReadable (i - first) (by omega)
    rwa [show start + first + (i - first) = start + i by omega] at there

theorem readable_add_left {start first second : Nat}
    (readable : Readable user start (first + second)) : Readable user start first :=
  fun i inside => readable i (by omega)

theorem readable_add_right {start first second : Nat}
    (readable : Readable user start (first + second)) : Readable user (start + first) second := by
  intro i inside
  have there := readable (first + i) (by omega)
  rwa [← Nat.add_assoc] at there

/-- The words of a chunk and of what follows it, when the chunk is made of whole words
or nothing follows. -/
theorem wordsAt_chunk (bitBuf chunk rest : Nat) (whole : chunk % 4 = 0 ∨ rest = 0) :
    wordsAt (bytesFrom user bitBuf) 0 (chunk / 4) ++
        wordsAt (bytesFrom user (bitBuf + chunk)) 0 (rest / 4) =
      wordsAt (bytesFrom user bitBuf) 0 ((chunk + rest) / 4) := by
  rcases whole with aligned | rfl
  · have moved : wordsAt (bytesFrom user (bitBuf + chunk)) 0 (rest / 4) =
        wordsAt (bytesFrom user bitBuf) (0 + chunk / 4) (rest / 4) := by
      apply wordsAt_congr
      intro i _
      simp only [bytesFrom]
      rw [show bitBuf + chunk + (4 * 0 + i) = bitBuf + (4 * (0 + chunk / 4) + i) by omega]
    rw [moved, ← wordsAt_add, show (chunk + rest) / 4 = chunk / 4 + rest / 4 by omega]
  · simp [wordsAt]

/-- What has been copied to the start of the buffer makes the words of the user's memory. -/
theorem wordsAt_copied (buffer : Nat → Byte) (bitBuf chunk : Nat) :
    wordsAt (fun i => if i < chunk then bytesFrom user bitBuf i else buffer i) 0 (chunk / 4) =
      wordsAt (bytesFrom user bitBuf) 0 (chunk / 4) := by
  apply wordsAt_congr
  intro i small
  rw [if_pos (by omega)]

/-- A loop that returns 0 has read everything from its position to the end, counted by
the length of the whole buffer, and has written the words of it. -/
theorem downloadLoop_returned {fuel byteRead bitBuf : Nat} {buffer : Nat → Byte}
    {lro after : MgmtDev} (short : length < 2 ^ 32) (inside : byteRead ≤ length)
    (ok : downloadLoop env user length fuel byteRead bitBuf buffer lro = .returned (.ok ()) after) :
    Readable user bitBuf (length - byteRead) ∧
      after.words = lro.words ++ wordsAt (bytesFrom user bitBuf) 0 ((length - byteRead) / 4) := by
  induction fuel generalizing byteRead bitBuf buffer lro with
  | zero => cases ok
  | succ fuel ih =>
      rw [downloadLoop] at ok
      split at ok
      next more =>
        simp only [chunk_eq short] at ok
        obtain ⟨chunk, chunkEq⟩ : ∃ chunk, chunk = min bufferSize (length - byteRead) := ⟨_, rfl⟩
        rw [← chunkEq] at ok
        have chunkBound : chunk = bufferSize ∨ chunk = length - byteRead := by omega
        simp only [copyFromUser] at ok
        by_cases readable : Readable user bitBuf chunk
        · rw [if_pos readable] at ok
          split at ok
          · cases ok
          next next copied =>
            cases copied
            split at ok
            · cases ok
            next lro' wrote =>
              have advanced : (byteRead + chunk) % 2 ^ 32 = byteRead + chunk :=
                Nat.mod_eq_of_lt (by omega)
              rw [advanced] at ok
              obtain ⟨restReadable, restWords⟩ := ih (by omega) ok
              have rest : length - byteRead = chunk + (length - (byteRead + chunk)) := by omega
              refine ⟨rest ▸ readable_add readable restReadable, ?_⟩
              have chunkWords := bitstreamIcapHelper_words wrote
              rw [restWords, chunkWords, wordsAt_copied, List.append_assoc, wordsAt_chunk, ← rest]
              simp only [bufferSize] at chunkBound
              omega
        · rw [if_neg readable] at ok
          cases ok
      next done =>
        have nothing : length - byteRead = 0 := by omega
        have frame := waitForDone_words env 1000 lro
        split at ok
        · cases ok
        next lro' waited =>
          cases ok
          rw [waited] at frame
          rw [nothing]
          refine ⟨fun i impossible => absurd impossible (Nat.not_lt_zero i), ?_⟩
          simpa [wordsAt] using frame

/-- A length of 2^32 or more keeps the loop running until something fails. -/
theorem downloadLoop_long {fuel byteRead bitBuf : Nat} {buffer : Nat → Byte}
    {lro after : MgmtDev} (long : 2 ^ 32 ≤ length) (wrapped : byteRead < 2 ^ 32) :
    downloadLoop env user length fuel byteRead bitBuf buffer lro ≠ .returned (.ok ()) after := by
  induction fuel generalizing byteRead bitBuf buffer lro with
  | zero => exact nofun
  | succ fuel ih =>
      rw [downloadLoop, if_pos (by omega)]
      dsimp only
      generalize (if (length - byteRead) % 2 ^ 32 > bufferSize then bufferSize
        else (length - byteRead) % 2 ^ 32) = chunk
      split
      · exact nofun
      split
      · exact nofun
      · exact ih (Nat.mod_lt _ (by decide))

/-- With a device that always has room, is never busy and ends at once, the loop
returns 0. -/
theorem downloadLoop_granted (room : ∀ k, 0 < (env.vacancy k).toInt)
    (idle : ∀ k, env.cr k &&& 1 = 0) (done : ∀ k, env.sr k &&& 5 ≠ 0)
    {fuel byteRead bitBuf : Nat} {buffer : Nat → Byte} {lro : MgmtDev}
    (short : length < 2 ^ 32) (inside : byteRead ≤ length) (enough : length - byteRead < fuel)
    (readable : Readable user bitBuf (length - byteRead)) :
    ∃ after, downloadLoop env user length fuel byteRead bitBuf buffer lro =
      .returned (.ok ()) after := by
  induction fuel generalizing byteRead bitBuf buffer lro with
  | zero => omega
  | succ fuel ih =>
      rw [downloadLoop]
      by_cases more : byteRead < length
      · rw [if_pos more]
        simp only [chunk_eq short]
        obtain ⟨chunk, chunkEq⟩ : ∃ chunk, chunk = min bufferSize (length - byteRead) := ⟨_, rfl⟩
        rw [← chunkEq]
        have positive : 0 < chunk := by
          simp only [bufferSize] at chunkEq
          omega
        have split : length - byteRead = chunk + (length - (byteRead + chunk)) := by omega
        rw [split] at readable
        simp only [copyFromUser_readable (readable_add_left readable)]
        split
        next err lro' failed =>
          have granted := congrArg Prod.fst failed
          rw [bitstreamIcapHelper_completes room (pollCr_idle idle)] at granted
          cases granted
        next lro' wrote =>
          rw [Nat.mod_eq_of_lt (show byteRead + chunk < 2 ^ 32 by omega)]
          exact ih (by omega) (by omega) (readable_add_right readable)
      · rw [if_neg more, waitForDone]
        simp only [done, ne_eq, not_false_eq_true, if_true]
        exact ⟨_, rfl⟩

end Loop

/-! ## Exactness -/

/-- A bit file as the user is meant to pass it. -/
structure BitFile where
  header : ValidHeader
  payload : List Byte
  payload_length : payload.length = header.bitstreamLength
  aligned : payload.length % 4 = 0
  header_le : header.bytes.length ≤ bufferSize
  le_length : bufferSize ≤ header.bytes.length + payload.length

namespace BitFile

/-- Length of the file, the `length` of the call. -/
def length (file : BitFile) : Nat := file.header.bytes.length + file.payload.length

/-- The user's buffer holds the file; nothing is said of what follows it. -/
def StoredIn (file : BitFile) (user : UserMem) : Prop :=
  ∀ k (inside : k < (file.header.bytes ++ file.payload).length),
    user k = some (file.header.bytes ++ file.payload)[k]

end BitFile

/-- Groups of four bytes, read with the most significant byte first. -/
def groups : List Byte → List Word
  | first :: second :: third :: fourth :: rest => be32 first second third fourth :: groups rest
  | _ => []

theorem groups_length (bytes : List Byte) : (groups bytes).length = bytes.length / 4 := by
  fun_induction groups bytes with
  | case1 first second third fourth rest ih =>
      simp only [List.length_cons, ih]
      omega
  | case2 bytes short =>
      match bytes, short with
      | [], _ => rfl
      | [_], _ => simp
      | [_, _], _ => simp
      | [_, _, _], _ => simp
      | _ :: _ :: _ :: _ :: _, short => exact absurd rfl (short _ _ _ _ _)

/-- The words written are those of the payload, and only the user's buffer is read. -/
structure Exact (file : BitFile) (lro : MgmtDev) : Prop where
  words : lro.words = groups file.payload
  inside : ∀ range ∈ lro.copied, range.1 + range.2 ≤ file.length

/-- The device when a call starts. -/
def MgmtDev.start (clearBitstream : Option Nat) (hwicapStatus : Status) : MgmtDev :=
  ⟨false, clearBitstream, hwicapStatus, [], 0, 0, 0, []⟩

section Ioctl

variable {file : BitFile} {user : UserMem} {clearBitstream : Option Nat} {status : Status}

theorem BitFile.StoredIn.readable (stored : file.StoredIn user) :
    Readable user 0 file.length := by
  intro i inside
  rw [Nat.zero_add, stored i (by simpa [BitFile.length] using inside)]
  rfl

/-- The header is found at the start of the buffer. -/
theorem BitFile.StoredIn.reads (stored : file.StoredIn user) {buffer : Nat → Byte}
    (copied : ∀ i < bufferSize, buffer i = bytesFrom user 0 i) :
    Reads buffer 0 file.header.bytes := by
  have fits := file.header_le
  apply reads_of_getElem (by omega)
  intro k inside
  have here := stored k (by rw [List.length_append]; omega)
  rw [Nat.zero_add, copied k (by omega), bytesFrom, Nat.zero_add, here, Option.getD_some,
    List.getElem_append_left inside]

/-- With a valid header parsed, the loop starts after the header. -/
theorem downloadParsed_ok {env : IcapEnv} {lro : MgmtDev} {fuel index : Nat} {buffer : Nat → Byte} :
    downloadParsed env user file.length fuel lro buffer (.ok (file.header.parsed, index)) =
      downloadLoop env user file.length fuel 0 file.header.bytes.length buffer lro := by
  have bound := Nat.mod_le (file.header.bytes.length + file.header.bitstreamLength) (2 ^ 32)
  apply if_neg
  simp only [ValidHeader.parsed, BitFile.length, file.payload_length]
  omega

/-- The call on a stored file either fails before the loop or comes to the loop, which
starts after the header. -/
theorem bitstreamIoctlIcap_stored (stored : file.StoredIn user) (env : IcapEnv) (fuel : Nat) :
    (∃ buffer lro, lro.words = [] ∧
      bitstreamIoctlIcap env user file.length fuel (.start clearBitstream status) =
        downloadLoop env user file.length fuel 0 file.header.bytes.length buffer lro) ∨
    ((env.bufferOk = false ∨ ∃ field, env.fieldOk field = false) ∧
      ∀ after, bitstreamIoctlIcap env user file.length fuel (.start clearBitstream status) ≠
        .returned (.ok ()) after) := by
  cases allocated : env.bufferOk with
  | false =>
      refine .inr ⟨.inl rfl, fun after => ?_⟩
      simp [bitstreamIoctlIcap, MgmtDev.start, allocated, freeBuffers]
  | true =>
      have readable : Readable user 0 bufferSize := fun i inside =>
        stored.readable i (Nat.lt_of_lt_of_le inside file.le_length)
      obtain ⟨buffer, lro, copied, fresh, called⟩ : ∃ buffer lro,
          (∀ i < bufferSize, buffer i = bytesFrom user 0 i) ∧ lro.words = [] ∧
          bitstreamIoctlIcap env user file.length fuel (.start clearBitstream status) =
            downloadParsed env user file.length fuel lro buffer
              (bitstreamParseHeader buffer env.fieldOk 0) := by
        simp only [bitstreamIoctlIcap, MgmtDev.start, allocated, Bool.false_eq_true,
          Bool.true_eq_false, if_false, copyFromUser_readable readable]
        exact ⟨_, _, fun i inside => if_pos inside, rfl, rfl⟩
      rw [called]
      rcases bitstreamParseHeader_eq env.fieldOk file.header (stored.reads copied) with
        accepted | ⟨failed, denied⟩
      · rw [accepted, downloadParsed_ok]
        exact .inl ⟨buffer, lro, fresh, rfl⟩
      · rw [failed]
        exact .inr ⟨.inr denied, fun after => nofun⟩

/-- A call that returns 0 has read the user's memory to a header's length past the end
of the buffer and has written as many words. -/
theorem bitstreamIoctlIcap_returned (stored : file.StoredIn user) {env : IcapEnv} {fuel : Nat}
    {after : MgmtDev}
    (ok : bitstreamIoctlIcap env user file.length fuel (.start clearBitstream status) =
      .returned (.ok ()) after) :
    file.length < 2 ^ 32 ∧ Readable user file.header.bytes.length file.length ∧
      after.words =
        wordsAt (bytesFrom user file.header.bytes.length) 0 (file.length / 4) := by
  rcases bitstreamIoctlIcap_stored stored env fuel with
    ⟨buffer, lro, fresh, loop⟩ | ⟨-, never⟩
  · rw [loop] at ok
    rcases Nat.lt_or_ge file.length (2 ^ 32) with short | long
    · obtain ⟨readable, words⟩ := downloadLoop_returned short (Nat.zero_le _) ok
      rw [fresh, List.nil_append] at words
      exact ⟨short, readable, words⟩
    · exact absurd ok (downloadLoop_long long (by decide))
  · exact absurd ok (never after)

/-- No call that returns 0 was exact. -/
theorem not_exact_of_returned (stored : file.StoredIn user) {env : IcapEnv} {fuel : Nat}
    {after : MgmtDev}
    (ok : bitstreamIoctlIcap env user file.length fuel (.start clearBitstream status) =
      .returned (.ok ()) after) : ¬ Exact file after := by
  intro exact
  obtain ⟨-, -, words⟩ := bitstreamIoctlIcap_returned stored ok
  have counts := congrArg List.length (words.symm.trans exact.words)
  rw [groups_length, wordsAt, List.length_map, List.length_range, BitFile.length,
    file.header.bytes_length] at counts
  omega

/-- A device without faults. -/
def IcapEnv.granting : IcapEnv := ⟨true, fun _ => true, fun _ => 1024, fun _ => 0, fun _ => 1⟩

/-- If the memory after the buffer can be read, a device without faults makes the call
return 0. -/
theorem bitstreamIoctlIcap_granted (clearBitstream : Option Nat) (status : Status)
    (stored : file.StoredIn user) (short : file.length < 2 ^ 32)
    (readable : Readable user file.length file.header.bytes.length) :
    ∃ after, bitstreamIoctlIcap .granting user file.length (file.length + 1)
      (.start clearBitstream status) = .returned (.ok ()) after := by
  rcases bitstreamIoctlIcap_stored stored .granting (file.length + 1) with
    ⟨buffer, lro, -, loop⟩ | ⟨denied, -⟩
  · rw [loop]
    have all : Readable user 0 (file.length + file.header.bytes.length) :=
      readable_add stored.readable (by rwa [Nat.zero_add])
    have fromHeader : Readable user file.header.bytes.length (file.length - 0) := by
      intro i inside
      have here := all (file.header.bytes.length + i) (by omega)
      rwa [Nat.zero_add] at here
    exact downloadLoop_granted (fun _ => show 0 < (1024 : Word).toInt by decide)
      (fun _ => show (0 : Word) &&& 1 = 0 by decide) (fun _ => show (1 : Word) &&& 5 ≠ 0 by decide)
      short (Nat.zero_le _) (by omega) fromHeader
  · simp [IcapEnv.granting] at denied

end Ioctl

/-- Downloads of a bit file are exact, over all devices, only where none of them can
succeed: the length does not fit 32 bits, or the memory right after the buffer cannot be
read for the length of the header. -/
theorem icap_download_exact_iff (file : BitFile) (user : UserMem) (stored : file.StoredIn user)
    (clearBitstream : Option Nat) (status : Status) :
    (∀ env fuel after,
      bitstreamIoctlIcap env user file.length fuel (.start clearBitstream status) =
        .returned (.ok ()) after → Exact file after) ↔
      2 ^ 32 ≤ file.length ∨ ¬ Readable user file.length file.header.bytes.length := by
  constructor
  · intro exact
    by_contra condition
    simp only [not_or, Nat.not_le, not_not] at condition
    obtain ⟨after, ok⟩ := bitstreamIoctlIcap_granted clearBitstream status stored
      condition.1 condition.2
    exact not_exact_of_returned stored ok (exact _ _ _ ok)
  · intro condition env fuel after ok
    obtain ⟨short, readable, -⟩ := bitstreamIoctlIcap_returned stored ok
    rcases condition with long | unreadable
    · omega
    · -- the last bytes read are those after the buffer
      refine absurd (fun i inside => ?_) unreadable
      have payload := file.le_length
      have header := file.header_le
      have here := readable (file.payload.length + i) (by
        simp only [BitFile.length]
        omega)
      rwa [← Nat.add_assoc] at here

/-- A file of 1024 zero bytes behind the shortest header. -/
def BitFile.blank : BitFile where
  header := {
    magicLength := 1
    text := fun _ => [0]
    bitstreamLength := 1024
    magic_pos := by decide
    magic_lt := by decide
    isText := fun _ => ⟨rfl, by decide⟩
    bitstream_lt := by decide }
  payload := List.replicate 1024 0
  payload_length := List.length_replicate
  aligned := by rw [List.length_replicate]
  header_le := by rw [ValidHeader.bytes_length]; decide
  le_length := by rw [ValidHeader.bytes_length, List.length_replicate]; decide

/-- Memory that holds a file, followed by the given bytes. -/
def BitFile.inMemory (file : BitFile) (rest : List Byte) : UserMem :=
  fun k => (file.header.bytes ++ file.payload ++ rest)[k]?

theorem BitFile.storedIn_inMemory (file : BitFile) (rest : List Byte) :
    file.StoredIn (file.inMemory rest) := by
  intro k inside
  rw [BitFile.inMemory, List.getElem?_append_left inside]
  exact List.getElem?_eq_getElem inside

/-- The memory behind the file ends with the given bytes. -/
theorem BitFile.readable_behind_iff (file : BitFile) (rest : List Byte) (count : Nat) :
    Readable (file.inMemory rest) file.length count ↔ count ≤ rest.length := by
  have total : (file.header.bytes ++ file.payload ++ rest).length = file.length + rest.length := by
    simp only [BitFile.length, List.length_append]
  constructor
  · intro readable
    by_contra more
    have last := readable rest.length (by omega)
    rw [BitFile.inMemory, List.getElem?_eq_none (by omega)] at last
    cases last
  · intro enough i inside
    rw [BitFile.inMemory, List.getElem?_eq_getElem (by omega)]
    rfl

/-- Memory that holds the blank file and some bytes behind it. -/
def blankThen (behind : Nat) : UserMem :=
  BitFile.blank.inMemory (List.replicate behind 0)

theorem readable_blankThen_iff (behind count : Nat) :
    Readable (blankThen behind) BitFile.blank.length count ↔ count ≤ behind := by
  rw [blankThen, BitFile.readable_behind_iff, List.length_replicate]

/-- All downloads from that memory are exact. -/
def BlankExact (behind : Nat) : Prop :=
  ∀ env fuel after, bitstreamIoctlIcap env (blankThen behind) BitFile.blank.length fuel
    (.start none .downloading) = .returned (.ok ()) after → Exact .blank after

theorem BitFile.blank_header_length : BitFile.blank.header.bytes.length = 26 := by
  rw [ValidHeader.bytes_length]
  rfl

theorem BitFile.blank_length : BitFile.blank.length = 1050 := by
  rw [BitFile.length, blank_header_length, BitFile.blank, List.length_replicate]

/-- It takes as many readable bytes behind the file to go wrong as its header has. -/
theorem icap_download_exact_iff_blank :
    BitFile.blank.StoredIn (blankThen 25) ∧ BlankExact 25 ∧ ¬ BlankExact 26 := by
  have stored (behind : Nat) : BitFile.blank.StoredIn (blankThen behind) :=
    BitFile.blank.storedIn_inMemory _
  have condition (behind : Nat) : BlankExact behind ↔ 2 ^ 32 ≤ 1050 ∨ ¬ 26 ≤ behind := by
    refine (icap_download_exact_iff .blank (blankThen behind) (stored behind) none
      .downloading).trans ?_
    rw [readable_blankThen_iff, BitFile.blank_header_length, BitFile.blank_length]
  rw [condition, condition]
  exact ⟨stored 25, by decide⟩

/-- Readable memory after the buffer lets a download succeed that has written more than
the payload. -/
theorem icap_download_overruns :
    BitFile.blank.StoredIn (blankThen 26) ∧ ∃ after,
      bitstreamIoctlIcap .granting (blankThen 26) BitFile.blank.length (BitFile.blank.length + 1)
        (.start none .downloading) = .returned (.ok ()) after ∧ ¬ Exact .blank after := by
  have stored : BitFile.blank.StoredIn (blankThen 26) := BitFile.blank.storedIn_inMemory _
  have short : BitFile.blank.length < 2 ^ 32 := by
    rw [BitFile.blank_length]
    decide
  have readable : Readable (blankThen 26) BitFile.blank.length
      BitFile.blank.header.bytes.length := by
    rw [readable_blankThen_iff, BitFile.blank_header_length]
  obtain ⟨after, ok⟩ := bitstreamIoctlIcap_granted none .downloading stored short readable
  exact ⟨stored, after, ok, not_exact_of_returned stored ok⟩

end OpaeXilinx.Icap
