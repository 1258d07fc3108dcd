import OpaeXilinx.Icap.Batches

/-!
# The ICAP from user space

`FIFO_Icap::xclProgramPRbit` programs a file without the driver: it puts the words of the
file together from signed characters and writes them to the FIFO one after the other, with
a start every 64 bytes.  The driver's copy loop, with a record of its accesses, writes the
same words, if the number of bytes fits the 32 bits in which both of them count.
-/

namespace OpaeXilinx.Icap

/-- `tmpdata` of a round. -/
def tmpdata (inbuffer : Nat → Byte) (i : Nat) : Word :=
  0#32 + (((inbuffer i).signExtend 32 <<< 24) &&& 0xff000000#32)
    + (((inbuffer (i + 1)).signExtend 32 <<< 16) &&& 0x00ff0000#32)
    + (((inbuffer (i + 2)).signExtend 32 <<< 8) &&& 0x0000ff00#32)
    + ((inbuffer (i + 3)).signExtend 32 &&& 0x000000ff#32)

/-- What `xclProgramPRbit` returns, once it does. -/
inductive ProgramResult where
  | done | eacces | unopened
  deriving DecidableEq, Repr

/-- The loop of `xclProgramPRbit`.  `i` has 32 bits, `size` has 64. -/
def programLoop (inbuffer : Nat → Byte) (size : Nat) :
    (fuel i : Nat) → Option ProgramResult × List IcapAccess
  | 0, _ => (none, [])
  | fuel + 1, i =>
      if i < size then
        let (result, rest) := programLoop inbuffer size fuel ((i + 4) % 2 ^ 32)
        let start := if i % 64 = 0 ∧ i > 0 then [IcapAccess.start] else []
        (result, .word (tmpdata inbuffer i) :: start ++ rest)
      else (some .done, [.start])

/-- `FIFO_Icap::xclProgramPRbit`, with `mMgmtMap` mapped or not and a file that can be
opened or not. -/
def xclProgramPRbit (mMgmtMap : Bool) (prFile : Option (List Byte)) (fuel : Nat) :
    Option ProgramResult × List IcapAccess :=
  if mMgmtMap = false then (some .eacces, [])
  else
    match prFile with
    | none => (some .unopened, [])
    | some bytes => programLoop (fun i => bytes[i]?.getD 0) bytes.length fuel 0

/-- `downloadLoop` with its accesses. -/
def downloadLoopTraced (env : IcapEnv) (user : UserMem) (length : Nat) :
    (fuel byteRead bitBuf : Nat) → (Nat → Byte) → MgmtDev → Outcome × List IcapAccess
  | 0, _, _, _, _ => (.running, [])
  | fuel + 1, byteRead, bitBuf, buffer, lro =>
      if byteRead < length then
        let numCharsRead := (length - byteRead) % 2 ^ 32
        let numCharsRead := if numCharsRead > bufferSize then bufferSize else numCharsRead
        let lro := { lro with copied := lro.copied ++ [(bitBuf, numCharsRead)] }
        match copyFromUser user buffer bitBuf numCharsRead with
        | none => (freeBuffers { lro with hwicapStatus := .error } (.error .efault), [])
        | some buffer =>
            match bitstreamIcapHelperTraced env lro buffer 0 (numCharsRead / 4) with
            | ((.error err, lro), log) =>
                (freeBuffers { lro with hwicapStatus := .error } (.error err), log)
            | ((.ok _, lro), log) =>
                let (outcome, rest) := downloadLoopTraced env user length fuel
                  ((byteRead + numCharsRead) % 2 ^ 32) (bitBuf + numCharsRead) buffer lro
                (outcome, log ++ rest)
      else
        match waitForDone env 1000 lro with
        | (false, lro) => (freeBuffers lro (.error .etimedout), [])
        | (true, lro) => (freeBuffers lro (.ok ()), [])

theorem downloadLoopTraced_fst (env : IcapEnv) (user : UserMem) (length fuel byteRead bitBuf : Nat)
    (buffer : Nat → Byte) (lro : MgmtDev) :
    (downloadLoopTraced env user length fuel byteRead bitBuf buffer lro).1 =
      downloadLoop env user length fuel byteRead bitBuf buffer lro := by
  induction fuel generalizing byteRead bitBuf buffer lro with
  | zero => rfl
  | succ fuel ih =>
      rw [downloadLoopTraced, downloadLoop]
      split
      · dsimp only
        generalize (if (length - byteRead) % 2 ^ 32 > bufferSize then bufferSize
          else (length - byteRead) % 2 ^ 32) = chunk
        cases copyFromUser user buffer bitBuf chunk with
        | none => rfl
        | some copied =>
            dsimp only
            rw [← bitstreamIcapHelperTraced_fst]
            rcases bitstreamIcapHelperTraced env _ copied 0 _ with ⟨⟨_ | _, lro'⟩, log⟩
            · rfl
            · exact ih ..
      · rcases waitForDone env 1000 lro with ⟨_ | _, lro'⟩ <;> rfl

/-- Both runs write the same words, every word is followed by a later start, and user space
never writes more than 17 words in a row without one.  A run is given by what it has
recorded with any fuel. -/
structure PathsAgree (kernel user : Nat → List IcapAccess) : Prop where
  words : ∀ words, (∃ fuel, words <+: wordsOf (kernel fuel)) ↔ ∃ fuel, words <+: wordsOf (user fuel)
  kernelStarts : ∀ fuel before value after, kernel fuel = before ++ .word value :: after →
    ∃ more rest, kernel more = before ++ .word value :: rest ∧ .start ∈ rest
  userStarts : ∀ fuel before value after, user fuel = before ++ .word value :: after →
    ∃ more rest, user more = before ++ .word value :: rest ∧ .start ∈ rest
  userLimited : ∀ fuel row, row <:+: user fuel → .start ∉ row → (wordsOf row).length ≤ 17

/-- A run in which every word has been followed by a start. -/
def Started : List IcapAccess → Prop
  | [] => True
  | .word _ :: rest => .start ∈ rest ∧ Started rest
  | _ :: rest => Started rest

/-- At most as many words as there is room for come before the next start, and no more
than 17 between two starts. -/
def Limited : (room : Nat) → List IcapAccess → Prop
  | _, [] => True
  | room, .word _ :: rest => 0 < room ∧ Limited (room - 1) rest
  | _, .start :: rest => Limited 17 rest
  | room, _ :: rest => Limited room rest

theorem lane0 (byte : Byte) : (byte.signExtend 32 &&& 0x000000ff#32).toNat = byte.toNat := by
  revert byte
  decide +kernel

theorem lane8 (byte : Byte) :
    ((byte.signExtend 32 <<< 8) &&& 0x0000ff00#32).toNat = byte.toNat * 2 ^ 8 := by
  revert byte
  decide +kernel

theorem lane16 (byte : Byte) :
    ((byte.signExtend 32 <<< 16) &&& 0x00ff0000#32).toNat = byte.toNat * 2 ^ 16 := by
  revert byte
  decide +kernel

theorem lane24 (byte : Byte) :
    ((byte.signExtend 32 <<< 24) &&& 0xff000000#32).toNat = byte.toNat * 2 ^ 24 := by
  revert byte
  decide +kernel

theorem append_byte_toNat {width : Nat} (high : BitVec width) (low : Byte) :
    (high ++ low).toNat = high.toNat * 2 ^ 8 + low.toNat := by
  rw [BitVec.toNat_append, ← Nat.shiftLeft_add_eq_or_of_lt low.isLt, Nat.shiftLeft_eq]

/-- Shifts and masks of signed characters make up the word that `be32_to_cpu` makes of the
four bytes. -/
theorem tmpdata_eq (inbuffer : Nat → Byte) (i : Nat) :
    tmpdata inbuffer i =
      be32 (inbuffer i) (inbuffer (i + 1)) (inbuffer (i + 2)) (inbuffer (i + 3)) := by
  apply BitVec.eq_of_toNat_eq
  rw [be32, append_byte_toNat, append_byte_toNat, append_byte_toNat, tmpdata]
  simp only [BitVec.toNat_add, lane0, lane8, lane16, lane24, BitVec.toNat_ofNat]
  have byte0 := (inbuffer i).isLt
  have byte1 := (inbuffer (i + 1)).isLt
  have byte2 := (inbuffer (i + 2)).isLt
  have byte3 := (inbuffer (i + 3)).isLt
  omega

theorem tmpdata_wordAt (inbuffer : Nat → Byte) (k : Nat) :
    tmpdata inbuffer (4 * k) = wordAt inbuffer k := tmpdata_eq inbuffer (4 * k)

theorem Started.append {first second : List IcapAccess} (before : Started first)
    (after : Started second) : Started (first ++ second) := by
  induction first with
  | nil => exact after
  | cons access rest ih =>
      cases access with
      | word value => exact ⟨List.mem_append_left _ before.1, ih before.2⟩
      | vacancy value => exact ih before
      | start => exact ih before
      | poll value => exact ih before

/-- A start makes up for all the words before it. -/
theorem Started.start {words : List Word} {rest : List IcapAccess} (after : Started rest) :
    Started (words.map .word ++ .start :: rest) := by
  induction words with
  | nil => exact after
  | cons value words ih => exact ⟨by simp, ih⟩

theorem Started.of_word {before after : List IcapAccess} {value : Word}
    (started : Started (before ++ .word value :: after)) : .start ∈ after := by
  induction before with
  | nil => exact started.1
  | cons access rest ih =>
      cases access with
      | word value => exact ih started.2
      | vacancy value => exact ih started
      | start => exact ih started
      | poll value => exact ih started

theorem started_polls (values : List Word) : Started (values.map .poll) := by
  induction values with
  | nil => trivial
  | cons value values ih => exact ih

theorem started_batches (batches : List Batch) : Started (batches.flatMap Batch.accesses) := by
  induction batches with
  | nil => trivial
  | cons batch rest ih => exact Started.append (started_polls batch.polls).start ih

theorem Batched.started {run : (Except Errno Unit × MgmtDev) × List IcapAccess}
    {words : List Word} {batches : List Batch} {last : List IcapAccess}
    (batched : Batched run words batches last) : Started run.2 := by
  rw [batched.record]
  apply (started_batches batches).append
  rcases batched.last with rfl | ⟨value, -, rfl⟩ <;> trivial

/-- What comes after the first accesses of a limited record is limited by at most 17. -/
theorem Limited.drop {before after : List IcapAccess} {room : Nat} (small : room ≤ 17)
    (limited : Limited room (before ++ after)) : ∃ left ≤ 17, Limited left after := by
  induction before generalizing room with
  | nil => exact ⟨room, small, limited⟩
  | cons access rest ih =>
      cases access with
      | word value => exact ih (Nat.le_trans (Nat.sub_le ..) small) limited.2
      | vacancy value => exact ih small limited
      | start => exact ih (Nat.le_refl _) limited
      | poll value => exact ih small limited

theorem Limited.row {row after : List IcapAccess} {room : Nat}
    (limited : Limited room (row ++ after)) (unstarted : .start ∉ row) :
    (wordsOf row).length ≤ room := by
  induction row generalizing room with
  | nil => exact Nat.zero_le _
  | cons access rest ih =>
      have later : .start ∉ rest := fun member => unstarted (.tail _ member)
      cases access with
      | word value =>
          have short := ih limited.2 later
          have positive := limited.1
          rw [wordsOf_word, List.length_cons]
          omega
      | vacancy value => exact ih limited later
      | start => exact absurd (.head _) unstarted
      | poll value => exact ih limited later

theorem Limited.mono {log : List IcapAccess} {room more : Nat} (limited : Limited room log)
    (le : room ≤ more) : Limited more log := by
  induction log generalizing room more with
  | nil => trivial
  | cons access rest ih =>
      cases access with
      | word value =>
          exact ⟨Nat.lt_of_lt_of_le limited.1 le, ih limited.2 (Nat.sub_le_sub_right le 1)⟩
      | vacancy value => exact ih limited le
      | start => exact limited
      | poll value => exact ih limited le

/-- A limited record has no row of more than 17 words. -/
theorem Limited.infix {log row : List IcapAccess} (limited : Limited 17 log) (part : row <:+: log)
    (unstarted : .start ∉ row) : (wordsOf row).length ≤ 17 := by
  obtain ⟨before, after, rfl⟩ := part
  rw [List.append_assoc] at limited
  obtain ⟨left, small, rest⟩ := limited.drop (Nat.le_refl _)
  exact Nat.le_trans (rest.row unstarted) small

section User

variable {inbuffer : Nat → Byte} {size : Nat}

theorem programLoop_grows (fuel i : Nat) :
    (programLoop inbuffer size fuel i).2 <+: (programLoop inbuffer size (fuel + 1) i).2 := by
  induction fuel generalizing i with
  | zero => exact List.nil_prefix
  | succ fuel ih =>
      rw [programLoop, programLoop]
      split
      · exact (List.prefix_append_right_inj _).mpr (ih _)
      · exact List.prefix_refl _

/-- With 32 bits a file of 4 GiB or more never comes to its end. -/
theorem programLoop_long (long : 2 ^ 32 ≤ size) (fuel : Nat) {i : Nat} (wrapped : i < 2 ^ 32) :
    (wordsOf (programLoop inbuffer size fuel i).2).length = fuel := by
  induction fuel generalizing i with
  | zero => rfl
  | succ fuel ih =>
      rw [programLoop, if_pos (Nat.lt_of_lt_of_le wrapped long)]
      have starts : wordsOf (if i % 64 = 0 ∧ i > 0 then [IcapAccess.start] else []) = [] := by
        split <;> rfl
      have rest := ih (Nat.mod_lt (i + 4) (show 2 ^ 32 > 0 by decide))
      dsimp only
      rw [List.cons_append, wordsOf_word, wordsOf_append, starts, List.nil_append,
        List.length_cons, rest]

/-- How many words are written until the next start, from a byte index on. -/
def untilStart (i : Nat) : Nat := if i = 0 then 17 else (64 - i % 64) % 64 / 4 + 1

theorem untilStart_bounds (i : Nat) : 0 < untilStart i ∧ untilStart i ≤ 17 := by
  rw [untilStart]
  split <;> omega

theorem untilStart_succ {k : Nat} (kick : ¬ (4 * k % 64 = 0 ∧ 4 * k > 0)) :
    untilStart (4 * (k + 1)) = untilStart (4 * k) - 1 := by
  rw [untilStart, untilStart, if_neg (by omega)]
  split <;> omega

/-- The words that are left of a file, each followed by a start. -/
theorem programLoop_short (short : size < 2 ^ 32) (aligned : size % 4 = 0) {fuel k : Nat}
    (inside : k ≤ size / 4) (enough : size / 4 - k < fuel) :
    wordsOf (programLoop inbuffer size fuel (4 * k)).2 = wordsAt inbuffer k (size / 4 - k) ∧
      .start ∈ (programLoop inbuffer size fuel (4 * k)).2 ∧
      Started (programLoop inbuffer size fuel (4 * k)).2 ∧
      Limited (untilStart (4 * k)) (programLoop inbuffer size fuel (4 * k)).2 := by
  induction fuel generalizing k with
  | zero => omega
  | succ fuel ih =>
      rw [programLoop]
      by_cases more : 4 * k < size
      · rw [if_pos more, Nat.mod_eq_of_lt (by omega)]
        obtain ⟨words, started, each, limited⟩ := @ih (k + 1) (by omega) (by omega)
        rw [show 4 * k + 4 = 4 * (k + 1) by omega]
        generalize programLoop inbuffer size fuel (4 * (k + 1)) = rest at *
        have split : size / 4 - k = 1 + (size / 4 - (k + 1)) := by omega
        dsimp only
        rw [List.cons_append, wordsOf_word, wordsOf_append, words, tmpdata_wordAt, split,
          wordsAt_add]
        by_cases kick : 4 * k % 64 = 0 ∧ 4 * k > 0
        · rw [if_pos kick]
          exact ⟨rfl, by simp, ⟨by simp, each⟩, (untilStart_bounds _).1,
            limited.mono (untilStart_bounds _).2⟩
        · rw [if_neg kick]
          exact ⟨rfl, .tail _ started, ⟨started, each⟩, (untilStart_bounds _).1,
            untilStart_succ kick ▸ limited⟩
      · have none : size / 4 - k = 0 := by omega
        rw [if_neg more, none]
        exact ⟨rfl, .head _, trivial, trivial⟩

end User

/-! ## The driver -/

section Kernel

variable {env : IcapEnv} {user : UserMem} {length : Nat}

theorem downloadLoopTraced_grows (fuel byteRead bitBuf : Nat) (buffer : Nat → Byte)
    (lro : MgmtDev) :
    (downloadLoopTraced env user length fuel byteRead bitBuf buffer lro).2 <+:
      (downloadLoopTraced env user length (fuel + 1) byteRead bitBuf buffer lro).2 := by
  induction fuel generalizing byteRead bitBuf buffer lro with
  | zero => exact List.nil_prefix
  | succ fuel ih =>
      rw [downloadLoopTraced, downloadLoopTraced]
      split
      · dsimp only
        generalize (if (length - byteRead) % 2 ^ 32 > bufferSize then bufferSize
          else (length - byteRead) % 2 ^ 32) = chunk
        cases copyFromUser user buffer bitBuf chunk with
        | none => exact List.prefix_refl _
        | some copied =>
            dsimp only
            rcases bitstreamIcapHelperTraced env _ copied 0 _ with ⟨⟨_ | _, lro'⟩, log⟩
            · exact List.prefix_refl _
            · exact (List.prefix_append_right_inj _).mpr (ih ..)
      · exact List.prefix_refl _

/-- What a call of the helper writes, and that each of it is followed by a start. -/
theorem bitstreamIcapHelperTraced_words (env : IcapEnv) (lro : MgmtDev) (buffer : Nat → Byte)
    (offset remainWord : Nat) :
    wordsOf (bitstreamIcapHelperTraced env lro buffer offset remainWord).2 <+:
        wordsAt buffer offset remainWord ∧
      Started (bitstreamIcapHelperTraced env lro buffer offset remainWord).2 ∧
      ((bitstreamIcapHelperTraced env lro buffer offset remainWord).1.1 = .ok () →
        wordsOf (bitstreamIcapHelperTraced env lro buffer offset remainWord).2 =
          wordsAt buffer offset remainWord) := by
  obtain ⟨batches, last, batched⟩ :=
    bitstreamIcapHelperTraced_batched env lro buffer offset remainWord
  rw [wordBuf_swab32] at batched
  rw [batched.wordsOf_eq]
  exact ⟨batched.pushed, batched.started, fun ok => (batched.returns.mp ok).1⟩

theorem readable_le {bytes : List Byte} {start count : Nat} (inside : start ≤ bytes.length)
    (readable : Readable (fun i => bytes[i]?) start count) : start + count ≤ bytes.length := by
  cases count with
  | zero => exact inside
  | succ count =>
      have last := readable count (Nat.lt_succ_self count)
      obtain ⟨byte, found⟩ := Option.isSome_iff_exists.mp last
      obtain ⟨within, -⟩ := List.getElem?_eq_some_iff.mp found
      omega

/-- If the memory ends with the string, the driver writes no more words than it has. -/
theorem downloadLoopTraced_bounded {bytes : List Byte} (fuel : Nat) {byteRead bitBuf : Nat}
    (inside : bitBuf ≤ bytes.length) (buffer : Nat → Byte) (lro : MgmtDev) :
    4 * (wordsOf (downloadLoopTraced env (fun i => bytes[i]?) length fuel byteRead bitBuf buffer
      lro).2).length ≤ bytes.length - bitBuf := by
  induction fuel generalizing byteRead bitBuf buffer lro with
  | zero => exact Nat.zero_le _
  | succ fuel ih =>
      rw [downloadLoopTraced]
      split
      · dsimp only
        generalize (if (length - byteRead) % 2 ^ 32 > bufferSize then bufferSize
          else (length - byteRead) % 2 ^ 32) = chunk
        by_cases readable : Readable (fun i => bytes[i]?) bitBuf chunk
        · rw [copyFromUser_readable readable]
          have ends := readable_le inside readable
          dsimp only
          have pushed := (bitstreamIcapHelperTraced_words env
            { lro with copied := lro.copied ++ [(bitBuf, chunk)] }
            (fun i => if i < chunk then bytesFrom (fun i => bytes[i]?) bitBuf i else buffer i) 0
            (chunk / 4)).1.length_le
          rw [wordsAt, List.length_map, List.length_range] at pushed
          generalize bitstreamIcapHelperTraced env _ _ 0 (chunk / 4) = run at pushed
          rcases run with ⟨⟨_ | _, lro'⟩, log⟩
          · dsimp only at pushed ⊢
            omega
          · have rest := @ih ((byteRead + chunk) % 2 ^ 32) (bitBuf + chunk) ends
              (fun i => if i < chunk then bytesFrom (fun i => bytes[i]?) bitBuf i else buffer i)
              lro'
            dsimp only at pushed ⊢
            rw [wordsOf_append, List.length_append]
            omega
        · rw [copyFromUser, if_neg readable]
          exact Nat.zero_le _
      · split <;> exact Nat.zero_le _

/-- The words that are left of the string, each followed by a start. -/
theorem downloadLoopTraced_short (room : ∀ k, 1 ≤ (env.vacancy k).toInt)
    (polled : ∀ lro, (pollCr env 20 lro).1 = true) (short : length < 2 ^ 32)
    {fuel byteRead bitBuf : Nat} (buffer : Nat → Byte) (lro : MgmtDev) (inside : byteRead ≤ length)
    (enough : length - byteRead < fuel) (readable : Readable user bitBuf (length - byteRead)) :
    wordsOf (downloadLoopTraced env user length fuel byteRead bitBuf buffer lro).2 =
        wordsAt (bytesFrom user bitBuf) 0 ((length - byteRead) / 4) ∧
      Started (downloadLoopTraced env user length fuel byteRead bitBuf buffer lro).2 := by
  induction fuel generalizing byteRead bitBuf buffer lro with
  | zero => omega
  | succ fuel ih =>
      rw [downloadLoopTraced]
      by_cases more : byteRead < length
      · rw [if_pos more]
        simp only [chunk_eq short]
        obtain ⟨chunk, chunkEq⟩ : ∃ chunk, chunk = min bufferSize (length - byteRead) := ⟨_, rfl⟩
        rw [← chunkEq]
        have chunkBound : 0 < chunk ∧ (chunk % 4 = 0 ∨ length - (byteRead + chunk) = 0) ∧
            length - byteRead = chunk + (length - (byteRead + chunk)) := by
          simp only [bufferSize] at chunkEq
          omega
        obtain ⟨positive, whole, split⟩ := chunkBound
        rw [split] at readable
        simp only [copyFromUser_readable (readable_add_left readable)]
        obtain ⟨-, started, words⟩ := bitstreamIcapHelperTraced_words env
          { lro with copied := lro.copied ++ [(bitBuf, chunk)] }
          (fun i => if i < chunk then bytesFrom user bitBuf i else buffer i) 0 (chunk / 4)
        have completes := bitstreamIcapHelper_completes room polled
          { lro with copied := lro.copied ++ [(bitBuf, chunk)] }
          (fun i => if i < chunk then bytesFrom user bitBuf i else buffer i) 0 (chunk / 4)
        rw [← bitstreamIcapHelperTraced_fst] at completes
        specialize words completes
        generalize bitstreamIcapHelperTraced env _ _ 0 (chunk / 4) = run at *
        rcases run with ⟨⟨_ | _, lro'⟩, log⟩
        · cases completes
        · rw [Nat.mod_eq_of_lt (show byteRead + chunk < 2 ^ 32 by omega)]
          obtain ⟨restWords, restStarted⟩ := @ih (byteRead + chunk) (bitBuf + chunk)
            (fun i => if i < chunk then bytesFrom user bitBuf i else buffer i) lro' (by omega)
            (by omega) (readable_add_right readable)
          dsimp only at words started ⊢
          rw [wordsOf_append, words, restWords, wordsAt_copied, wordsAt_chunk _ _ _ whole, ← split]
          exact ⟨rfl, started.append restStarted⟩
      · have nothing : length - byteRead = 0 := by omega
        rw [if_neg more, nothing]
        split <;> exact ⟨rfl, trivial⟩

end Kernel

theorem grows_le {run : Nat → List IcapAccess} (grows : ∀ fuel, run fuel <+: run (fuel + 1))
    {fuel more : Nat} (le : fuel ≤ more) : run fuel <+: run more := by
  induction le with
  | refl => exact List.prefix_refl _
  | step _ ih => exact ih.trans (grows _)

/-- A word that is recorded at any time is followed by a start in the whole record. -/
theorem starts_of_started {run : Nat → List IcapAccess}
    (grows : ∀ fuel, run fuel <+: run (fuel + 1)) {enough : Nat}
    (started : ∀ fuel ≥ enough, Started (run fuel)) {fuel : Nat} {before after : List IcapAccess}
    {value : Word} (now : run fuel = before ++ .word value :: after) :
    ∃ more rest, run more = before ++ .word value :: rest ∧ .start ∈ rest := by
  obtain ⟨later, whole⟩ := grows_le grows (Nat.le_max_left fuel enough)
  rw [now, List.append_assoc, List.cons_append] at whole
  have each := started (max fuel enough) (Nat.le_max_right fuel enough)
  rw [← whole] at each
  exact ⟨_, _, whole.symm, each.of_word⟩

/-- What a record has of a list of words, a record that comes to be the whole list has too. -/
theorem words_of_words {first second : Nat → List IcapAccess}
    (grows : ∀ fuel, first fuel <+: first (fuel + 1)) {enough : Nat} {whole words : List Word}
    (firstWords : ∀ fuel ≥ enough, wordsOf (first fuel) = whole)
    (secondWords : ∀ fuel ≥ enough, wordsOf (second fuel) = whole) :
    (∃ fuel, words <+: wordsOf (first fuel)) → ∃ fuel, words <+: wordsOf (second fuel) := by
  intro ⟨fuel, now⟩
  have later := wordsOf_prefix (grows_le grows (Nat.le_max_left fuel enough))
  rw [firstWords _ (Nat.le_max_right fuel enough)] at later
  have all := secondWords enough (Nat.le_refl _)
  exact ⟨enough, all ▸ now.trans later⟩

/-- Records whose words come to be the same list have the same words. -/
theorem words_iff {kernel user : Nat → List IcapAccess}
    (kernelGrows : ∀ fuel, kernel fuel <+: kernel (fuel + 1))
    (userGrows : ∀ fuel, user fuel <+: user (fuel + 1)) {enough : Nat} {whole : List Word}
    (kernelWords : ∀ fuel ≥ enough, wordsOf (kernel fuel) = whole)
    (userWords : ∀ fuel ≥ enough, wordsOf (user fuel) = whole) (words : List Word) :
    (∃ fuel, words <+: wordsOf (kernel fuel)) ↔ ∃ fuel, words <+: wordsOf (user fuel) := by
  constructor
  · exact words_of_words kernelGrows kernelWords userWords
  · exact words_of_words userGrows userWords kernelWords

/-- The driver's run on a string in user memory. -/
def kernelRun (env : IcapEnv) (bytes : List Byte) (buffer : Nat → Byte) (lro : MgmtDev)
    (fuel : Nat) : List IcapAccess :=
  (downloadLoopTraced env (fun i => bytes[i]?) bytes.length fuel 0 0 buffer lro).2

/-- The run of user space on a file with that content. -/
def userRun (bytes : List Byte) (fuel : Nat) : List IcapAccess :=
  (xclProgramPRbit true (some bytes) fuel).2

theorem not_agree_of_long (env : IcapEnv) {bytes : List Byte} (long : 2 ^ 32 ≤ bytes.length)
    (buffer : Nat → Byte) (lro : MgmtDev) :
    ¬ PathsAgree (kernelRun env bytes buffer lro) (userRun bytes) := by
  intro agree
  have many : (wordsOf (userRun bytes (bytes.length + 1))).length = bytes.length + 1 :=
    programLoop_long long (bytes.length + 1) (by decide)
  obtain ⟨fuel, written⟩ := (agree.words _).mpr ⟨bytes.length + 1, List.prefix_refl _⟩
  have few : 4 * (wordsOf (kernelRun env bytes buffer lro fuel)).length ≤ bytes.length - 0 :=
    downloadLoopTraced_bounded fuel (Nat.zero_le _) buffer lro
  have le := written.length_le
  omega

/-- The two paths write the same words, with starts as they should be, exactly if the
number of bytes fits the counters. -/
theorem icap_paths_agree_iff (env : IcapEnv) (bytes : List Byte) (buffer : Nat → Byte)
    (lro : MgmtDev) (aligned : bytes.length % 4 = 0) (room : ∀ k, 1 ≤ (env.vacancy k).toInt)
    (polled : ∀ lro, (pollCr env 20 lro).1 = true) :
    PathsAgree (kernelRun env bytes buffer lro) (userRun bytes) ↔ bytes.length < 2 ^ 32 := by
  constructor
  · intro agree
    exact Nat.lt_of_not_le fun long => not_agree_of_long env long buffer lro agree
  · intro short
    have kernelGrows : ∀ fuel, kernelRun env bytes buffer lro fuel <+:
        kernelRun env bytes buffer lro (fuel + 1) :=
      fun fuel => downloadLoopTraced_grows fuel 0 0 buffer lro
    have userGrows : ∀ fuel, userRun bytes fuel <+: userRun bytes (fuel + 1) :=
      fun fuel => programLoop_grows fuel 0
    have readable : Readable (fun i => bytes[i]?) 0 (bytes.length - 0) := by
      intro i inside
      have within : i < bytes.length := by omega
      simp [within]
    have kernel (fuel : Nat) (enough : fuel ≥ bytes.length + 1) :=
      downloadLoopTraced_short room polled short buffer lro (Nat.zero_le _)
        (show bytes.length - 0 < fuel by omega) readable
    have user (fuel : Nat) (enough : fuel ≥ bytes.length + 1) :=
      @programLoop_short (fun i => bytes[i]?.getD 0) bytes.length short aligned fuel 0
        (Nat.zero_le _) (by omega)
    have sameBytes : bytesFrom (fun i => bytes[i]?) 0 = fun i => bytes[i]?.getD 0 := by
      funext i
      rw [bytesFrom, Nat.zero_add]
    refine ⟨?_, ?_, ?_, ?_⟩
    · apply words_iff kernelGrows userGrows (fun fuel enough => (kernel fuel enough).1)
      intro fuel enough
      rw [sameBytes]
      exact (user fuel enough).1
    · intro fuel before value after now
      exact starts_of_started kernelGrows (fun fuel enough => (kernel fuel enough).2) now
    · intro fuel before value after now
      exact starts_of_started userGrows (fun fuel enough => (user fuel enough).2.2.1) now
    · intro fuel row part unstarted
      have whole := grows_le userGrows (Nat.le_max_left fuel (bytes.length + 1))
      have limited := (user _ (Nat.le_max_right fuel (bytes.length + 1))).2.2.2
      exact limited.infix (part.trans whole.isInfix) unstarted

/-- The paths agree on 8 bytes. -/
theorem icap_paths_agree_iff_eight :
    PathsAgree (kernelRun .granting [0xff, 0x80, 1, 2, 3, 4, 5, 0xfe] (fun _ => 0)
      (.start none .downloading)) (userRun [0xff, 0x80, 1, 2, 3, 4, 5, 0xfe]) :=
  (icap_paths_agree_iff .granting [0xff, 0x80, 1, 2, 3, 4, 5, 0xfe] (fun _ => 0)
    (.start none .downloading) rfl (fun _ => show 1 ≤ (1024 : Word).toInt by decide)
    (pollCr_idle fun _ => show (0 : Word) &&& 1 = 0 by decide)).mpr (by decide)

/-- On 4 GiB of zeros they do not: the driver copies nothing in each round, and user space
starts the file anew. -/
theorem icap_paths_disagree :
    ¬ PathsAgree (kernelRun .granting (List.replicate (2 ^ 32) 0) (fun _ => 0)
      (.start none .downloading)) (userRun (List.replicate (2 ^ 32) 0)) :=
  not_agree_of_long .granting (Nat.le_of_eq List.length_replicate.symm) (fun _ => 0)
    (.start none .downloading)

end OpaeXilinx.Icap
