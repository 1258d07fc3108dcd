import OpaeXilinx.Icap.HeaderSafety

/-!
# The download request and its status

`PCIe_Ioctl` runs a download with the device marked busy.  A client reads the outcome
from the status of the device, which is set by hand at the exits of the functions below;
the error code travels up beside it and is dropped by `bitstream_ioctl`.
-/

namespace OpaeXilinx.Icap

/-- The device behind the character device: the part that a download works on, and what
the request itself reads and writes. -/
structure Device where
  lro : MgmtDev
  busy : Bool
  uniqueIdLastBitstream : Nat

/-- Numbers of the errors. -/
def Errno.code : Errno → Int
  | .eio => 5
  | .enomem => 12
  | .efault => 14
  | .einval => 22
  | .etimedout => 110

/-- `EBUSY` and `ENOTTY`. -/
def ebusy : Int := 16
def enotty : Int := 25

/-- A request `FME_IOC_ICAP_DOWNLOAD`, and what it meets. -/
structure IoctlCall where
  /-- The file is that of the user's character device. -/
  isUserCharDev : Bool
  /-- `access_ok` of the argument. -/
  argOk : Bool
  /-- `struct fme_ioc_bitstream`, if it can be copied: its `len`. -/
  bitstreamObj : Option Int
  /-- `access_ok` of the buffer. -/
  bufferOk : Bool
  /-- User memory from `buff` on. -/
  user : UserMem
  env : IcapEnv

/-- What a request comes to: its return value and the device, if it returns. -/
inductive IoctlOutcome where
  | returned (ret : Int) (device : Device)
  | fault
  | running

def Device.setStatus (device : Device) (status : Status) : Device :=
  { device with lro := { device.lro with hwicapStatus := status } }

/-- `bitstream_ioctl`.  `err` is 0 when `bitstream_ioctl_icap` is called, and its value is
not assigned. -/
def bitstreamIoctl (fuel : Nat) (call : IoctlCall) (device : Device) : IoctlOutcome :=
  match call.bitstreamObj with
  | none => .returned (-Errno.efault.code) (device.setStatus .error)
  | some len =>
      if call.bufferOk = false then .returned (-Errno.efault.code) (device.setStatus .error)
      else
        let device := { device with uniqueIdLastBitstream := 0 }
        match bitstreamIoctlIcap call.env call.user (ulong len) fuel device.lro with
        | .returned _ lro => .returned 0 { device with lro := lro }
        | .fault => .fault
        | .running => .running

/-- `PCIe_Ioctl` with the command `FME_IOC_ICAP_DOWNLOAD`, whose type is that of the driver
and whose direction is `_IOC_WRITE`. -/
def pcieIoctl (fuel : Nat) (call : IoctlCall) (device : Device) : IoctlOutcome :=
  if call.isUserCharDev = false then .returned (-enotty) device
  else if call.argOk = false then .returned (-Errno.efault.code) device
  else if device.busy then .returned (-ebusy) device
  else
    let device := { device with busy := true }
    match bitstreamIoctl fuel call (device.setStatus .downloading) with
    | .returned ret device => .returned ret { device with busy := false }
    | .fault => .fault
    | .running => .running

/-- No request is in progress. -/
structure Device.Idle (device : Device) : Prop where
  busy : device.busy = false
  gate : device.lro.axiGateFrozen = false

/-- What a client may rely on when a request returns. -/
structure StatusAgrees (ret : Int) (device : Device) : Prop where
  settled : device.lro.hwicapStatus = .finish ∨ device.lro.hwicapStatus = .error
  ret : ret = 0 ↔ device.lro.hwicapStatus = .finish
  busy : device.busy = false
  gate : device.lro.axiGateFrozen = false

/-- The device is found idle at one of the twenty polls of `CR`, after so many others. -/
def IdleAfter (env : IcapEnv) (crReads polls : Nat) : Prop :=
  polls < 20 ∧ env.cr (crReads + polls) &&& 1 = 0 ∧
    ∀ earlier < polls, env.cr (crReads + earlier) &&& 1 ≠ 0

/-- Words of the next batch. -/
def batchSize (env : IcapEnv) (vacancyReads remainWord : Nat) : Nat :=
  if (env.vacancy vacancyReads).toInt < remainWord then (env.vacancy vacancyReads).toInt.toNat
  else remainWord

/-- The FIFO takes a number of words: each batch finds room, and the device idle after it.
The registers are read from two positions on and up to two others. -/
inductive Takes (env : IcapEnv) : (remainWord vacancyReads crReads vacancy' cr' : Nat) → Prop
  | done {vacancyReads crReads : Nat} : Takes env 0 vacancyReads crReads vacancyReads crReads
  | batch {remainWord vacancyReads crReads polls vacancy' cr' : Nat} : remainWord ≠ 0 →
      0 < (env.vacancy vacancyReads).toInt → IdleAfter env crReads polls →
      Takes env (remainWord - batchSize env vacancyReads remainWord) (vacancyReads + 1)
        (crReads + polls + 1) vacancy' cr' →
      Takes env remainWord vacancyReads crReads vacancy' cr'

/-- Bytes of the next chunk. -/
def chunkSize (length byteRead : Nat) : Nat :=
  if (length - byteRead) % 2 ^ 32 > bufferSize then bufferSize else (length - byteRead) % 2 ^ 32

/-- A step of the copy loop fails: a chunk cannot be read, the FIFO does not take it, or the
device does not report the end within the polls of `SR`. -/
inductive LoopFails (env : IcapEnv) (user : UserMem) (length srReads : Nat) :
    (byteRead bitBuf vacancyReads crReads : Nat) → Prop
  | unreadable {byteRead bitBuf vacancyReads crReads : Nat} : byteRead < length →
      ¬ Readable user bitBuf (chunkSize length byteRead) →
      LoopFails env user length srReads byteRead bitBuf vacancyReads crReads
  | refused {byteRead bitBuf vacancyReads crReads : Nat} : byteRead < length →
      Readable user bitBuf (chunkSize length byteRead) →
      (∀ vacancy' cr',
        ¬ Takes env (chunkSize length byteRead / 4) vacancyReads crReads vacancy' cr') →
      LoopFails env user length srReads byteRead bitBuf vacancyReads crReads
  | later {byteRead bitBuf vacancyReads crReads vacancy' cr' : Nat} : byteRead < length →
      Readable user bitBuf (chunkSize length byteRead) →
      Takes env (chunkSize length byteRead / 4) vacancyReads crReads vacancy' cr' →
      LoopFails env user length srReads ((byteRead + chunkSize length byteRead) % 2 ^ 32)
        (bitBuf + chunkSize length byteRead) vacancy' cr' →
      LoopFails env user length srReads byteRead bitBuf vacancyReads crReads
  | timeout {byteRead bitBuf vacancyReads crReads : Nat} : length ≤ byteRead →
      (∀ poll < 1000, env.sr (srReads + poll) &&& 5 = 0) →
      LoopFails env user length srReads byteRead bitBuf vacancyReads crReads

/-- The buffer that the header is parsed in. -/
def headerBuffer (user : UserMem) : Nat → Byte :=
  fun i => if i < bufferSize then bytesFrom user 0 i else 0

/-- The header is copied, and its parser runs to its end. -/
structure HeaderRead (env : IcapEnv) (user : UserMem) : Prop where
  bufferOk : env.bufferOk = true
  readable : Readable user 0 bufferSize
  fitting : Fitting (headerBuffer user) env.fieldOk headerParts 0

/-- A step of `bitstream_ioctl_icap` fails. -/
inductive DownloadFails (env : IcapEnv) (user : UserMem) (length : Nat) (lro : MgmtDev) : Prop
  | kmalloc : env.bufferOk = false → DownloadFails env user length lro
  | copy : env.bufferOk = true → ¬ Readable user 0 bufferSize → DownloadFails env user length lro
  | header : HeaderRead env user → ¬ WellFormed (headerBuffer user) headerParts 0 →
      DownloadFails env user length lro
  | size : HeaderRead env user → WellFormed (headerBuffer user) headerParts 0 →
      length < (headerEnd (headerBuffer user) + declaredLength (headerBuffer user)) % 2 ^ 32 →
      DownloadFails env user length lro
  | loop : HeaderRead env user → WellFormed (headerBuffer user) headerParts 0 →
      (headerEnd (headerBuffer user) + declaredLength (headerBuffer user)) % 2 ^ 32 ≤ length →
      LoopFails env user length lro.srReads 0 (headerEnd (headerBuffer user)) lro.vacancyReads
        lro.crReads →
      DownloadFails env user length lro

/-- A request that is refused at once finds the status of a failed download, and a download
that is started meets no failing step. -/
def StatusKept (call : IoctlCall) (device : Device) : Prop :=
  if call.isUserCharDev = false ∨ call.argOk = false then device.lro.hwicapStatus = .error
  else ∀ len, call.bitstreamObj = some len → call.bufferOk = true →
    ¬ DownloadFails call.env call.user (ulong len) device.lro

section Steps

variable {env : IcapEnv}

theorem pollCr_cases (env : IcapEnv) (polls : Nat) (lro : MgmtDev) :
    (∃ k < polls, env.cr (lro.crReads + k) &&& 1 = 0 ∧
      (∀ earlier < k, env.cr (lro.crReads + earlier) &&& 1 ≠ 0) ∧
      pollCr env polls lro = (true, { lro with crReads := lro.crReads + k + 1 })) ∨
    (∀ k < polls, env.cr (lro.crReads + k) &&& 1 ≠ 0) ∧ (pollCr env polls lro).1 = false := by
  induction polls generalizing lro with
  | zero => exact .inr ⟨nofun, rfl⟩
  | succ polls ih =>
      simp only [pollCr]
      by_cases idle : env.cr lro.crReads &&& 1 = 0
      · rw [if_pos idle]
        exact .inl ⟨0, Nat.succ_pos _, idle, nofun, rfl⟩
      rw [if_neg idle]
      have shift : ∀ k, lro.crReads + 1 + k = lro.crReads + (k + 1) := by omega
      have first : ∀ k, k = 0 → env.cr (lro.crReads + k) &&& 1 ≠ 0 := by
        rintro _ rfl
        exact idle
      rcases ih { lro with crReads := lro.crReads + 1 } with ⟨k, below, found, busy, result⟩ |
        ⟨busy, result⟩
      · simp only [shift] at found busy result
        refine .inl ⟨k + 1, by omega, found, fun earlier less => ?_, result⟩
        rcases Nat.eq_zero_or_eq_succ_pred earlier with zero | succ
        · exact first earlier zero
        · rw [succ]
          exact busy _ (by omega)
      · simp only [shift] at busy
        refine .inr ⟨fun k below => ?_, result⟩
        rcases Nat.eq_zero_or_eq_succ_pred k with zero | succ
        · exact first k zero
        · rw [succ]
          exact busy _ (by omega)

theorem waitForDone_cases (env : IcapEnv) (polls : Nat) (lro : MgmtDev) :
    (∃ k < polls, env.sr (lro.srReads + k) &&& 5 ≠ 0 ∧ ∃ after,
      waitForDone env polls lro = (true, after) ∧ after.hwicapStatus = .finish) ∨
    (∀ k < polls, env.sr (lro.srReads + k) &&& 5 = 0) ∧ ∃ after,
      waitForDone env polls lro = (false, after) ∧ after.hwicapStatus = lro.hwicapStatus := by
  induction polls generalizing lro with
  | zero => exact .inr ⟨nofun, lro, rfl, rfl⟩
  | succ polls ih =>
      simp only [waitForDone]
      by_cases done : env.sr lro.srReads &&& 5 ≠ 0
      · rw [if_pos done]
        exact .inl ⟨0, Nat.succ_pos _, done, _, rfl, rfl⟩
      rw [if_neg done]
      have shift : ∀ k, lro.srReads + 1 + k = lro.srReads + (k + 1) := by omega
      rcases ih { lro with srReads := lro.srReads + 1 } with ⟨k, below, found, result⟩ |
        ⟨silent, result⟩
      · simp only [shift] at found
        exact .inl ⟨k + 1, by omega, found, result⟩
      · simp only [shift] at silent
        refine .inr ⟨fun k below => ?_, result⟩
        rcases Nat.eq_zero_or_eq_succ_pred k with zero | succ
        · rw [zero]
          exact not_not.mp done
        · rw [succ]
          exact silent _ (by omega)

/-- The first idle poll is one. -/
theorem IdleAfter.unique {crReads first second : Nat} (one : IdleAfter env crReads first)
    (two : IdleAfter env crReads second) : first = second := by
  rcases Nat.lt_trichotomy first second with less | same | greater
  · exact absurd one.2.1 (two.2.2 first less)
  · exact same
  · exact absurd two.2.1 (one.2.2 second greater)

theorem hwicapWrite_cases (env : IcapEnv) (lro : MgmtDev) (buffer : Nat → Byte)
    (offset size : Nat) :
    (∃ polls, IdleAfter env lro.crReads polls ∧ hwicapWrite env lro buffer offset size =
      (true, { lro with
        words := lro.words ++ wordsAt buffer offset size
        crReads := lro.crReads + polls + 1 })) ∨
    (∀ polls, ¬ IdleAfter env lro.crReads polls) ∧
      (hwicapWrite env lro buffer offset size).1 = false := by
  rcases pollCr_cases env 20 { lro with words := lro.words ++ wordsAt buffer offset size } with
    ⟨k, below, found, busy, result⟩ | ⟨busy, result⟩
  · exact .inl ⟨k, ⟨below, found, busy⟩, result⟩
  · exact .inr ⟨fun k idle => busy k idle.1 idle.2.1, result⟩

/-- The registers are read a determined number of times. -/
theorem Takes.unique {remainWord vacancyReads crReads vacancy' cr' vacancy'' cr'' : Nat}
    (one : Takes env remainWord vacancyReads crReads vacancy' cr')
    (two : Takes env remainWord vacancyReads crReads vacancy'' cr'') :
    vacancy' = vacancy'' ∧ cr' = cr'' := by
  induction one with
  | done =>
      cases two with
      | done => exact ⟨rfl, rfl⟩
      | batch nonzero => exact absurd rfl nonzero
  | batch nonzero _ idle _ ih =>
      cases two with
      | done => exact absurd rfl nonzero
      | batch _ _ found rest =>
          cases idle.unique found
          exact ih rest

/-- The helper succeeds exactly if the FIFO takes the words. -/
theorem bitstreamIcapHelper_cases (env : IcapEnv) (lro : MgmtDev) (buffer : Nat → Byte)
    (offset remainWord : Nat) :
    (∃ after, Takes env remainWord lro.vacancyReads lro.crReads after.vacancyReads after.crReads ∧
      bitstreamIcapHelper env lro buffer offset remainWord = (.ok (), after) ∧
      after.srReads = lro.srReads ∧ after.hwicapStatus = lro.hwicapStatus) ∨
    (∀ vacancy' cr', ¬ Takes env remainWord lro.vacancyReads lro.crReads vacancy' cr') ∧
      ∃ err after, bitstreamIcapHelper env lro buffer offset remainWord = (.error err, after) := by
  fun_induction bitstreamIcapHelper env lro buffer offset remainWord with
  | case1 lro offset => exact .inl ⟨lro, .done, rfl, rfl, rfl⟩
  | case2 lro offset remain nonzero vacancy lro' full =>
      refine .inr ⟨fun vacancy' cr' takes => ?_, _, _, rfl⟩
      cases takes with
      | done => exact nonzero rfl
      | batch _ room => omega
  | case3 lro offset remain nonzero vacancy lro' full written lro'' wrote =>
      refine .inr ⟨fun vacancy' cr' takes => ?_, _, _, rfl⟩
      rcases hwicapWrite_cases env lro' buffer offset written with ⟨polls, -, result⟩ | ⟨busy, -⟩
      · simp [result] at wrote
      · cases takes with
        | done => exact nonzero rfl
        | batch _ _ idle => exact busy _ idle
  | case4 lro offset remain nonzero vacancy lro' full written lro'' wrote ih =>
      rcases hwicapWrite_cases env lro' buffer offset
        written with ⟨polls, idle, result⟩ | ⟨-, result⟩
      · rw [result] at wrote
        cases wrote
        rcases ih with ⟨after, takes, ok, sr, status⟩ | ⟨refused, failed⟩
        · exact .inl ⟨after, .batch nonzero (by omega) idle takes, ok, sr, status⟩
        · refine .inr ⟨fun vacancy' cr' takes => ?_, failed⟩
          cases takes with
          | done => exact nonzero rfl
          | batch _ _ found rest =>
              cases idle.unique found
              exact refused _ _ rest
      · simp [wrote] at result

end Steps

section Loop

variable {env : IcapEnv} {user : UserMem} {length : Nat}

/-- What a returned download says: the gate is open, and the status is that of a finished
download exactly if the result is 0. -/
structure Told (result : Except Errno Unit) (lro : MgmtDev) : Prop where
  gate : lro.axiGateFrozen = false
  finished : result = .ok () ↔ lro.hwicapStatus = .finish

theorem downloadLoop_told {fuel byteRead bitBuf : Nat} {buffer : Nat → Byte} {lro after : MgmtDev}
    {result : Except Errno Unit} (unfinished : lro.hwicapStatus ≠ .finish)
    (returned : downloadLoop env user length fuel byteRead bitBuf buffer lro =
      .returned result after) : Told result after := by
  induction fuel generalizing byteRead bitBuf buffer lro with
  | zero => cases returned
  | succ fuel ih =>
      rw [downloadLoop] at returned
      split at returned
      · simp only at returned
        split at returned
        · cases returned
          exact ⟨rfl, by simp⟩
        · split at returned
          · cases returned
            exact ⟨rfl, by simp⟩
          next wrote =>
            refine ih ?_ returned
            rcases bitstreamIcapHelper_cases env _ _ _ _ with
              ⟨after', -, ok, -, status⟩ | ⟨-, err, after', failed⟩
            · rw [wrote] at ok
              cases ok
              rw [status]
              exact unfinished
            · rw [wrote] at failed
              cases failed
      · rcases waitForDone_cases env 1000 lro with
          ⟨k, -, -, waited, result, status⟩ | ⟨-, waited, result, status⟩
        · simp only [result] at returned
          cases returned
          exact ⟨rfl, by simp [status]⟩
        · simp only [result] at returned
          cases returned
          exact ⟨rfl, by simp [status, unfinished]⟩

/-- One round of the loop, in terms of the chunk. -/
theorem downloadLoop_succ (env : IcapEnv) (user : UserMem) (length fuel byteRead bitBuf : Nat)
    (buffer : Nat → Byte) (lro : MgmtDev) (more : byteRead < length) :
    downloadLoop env user length (fuel + 1) byteRead bitBuf buffer lro =
      match copyFromUser user buffer bitBuf (chunkSize length byteRead) with
      | none => freeBuffers { lro with
          copied := lro.copied ++ [(bitBuf, chunkSize length byteRead)]
          hwicapStatus := .error } (.error .efault)
      | some buffer =>
          match bitstreamIcapHelper env { lro with
            copied := lro.copied ++ [(bitBuf, chunkSize length byteRead)] } buffer 0
            (chunkSize length byteRead / 4) with
          | (.error err, lro) => freeBuffers { lro with hwicapStatus := .error } (.error err)
          | (.ok _, lro) => downloadLoop env user length fuel
              ((byteRead + chunkSize length byteRead) % 2 ^ 32)
              (bitBuf + chunkSize length byteRead) buffer lro := by
  rw [downloadLoop, if_pos more]
  rfl

/-- A loop with a failing step comes to an error. -/
theorem LoopFails.returns {srReads byteRead bitBuf vacancyReads crReads : Nat}
    (fails : LoopFails env user length srReads byteRead bitBuf vacancyReads crReads)
    {buffer : Nat → Byte} {lro : MgmtDev} (sr : lro.srReads = srReads)
    (vacancy : lro.vacancyReads = vacancyReads) (cr : lro.crReads = crReads) :
    ∃ fuel err after, downloadLoop env user length fuel byteRead bitBuf buffer lro =
      .returned (.error err) after := by
  induction fails generalizing buffer lro with
  | @unreadable byteRead bitBuf _ _ more unreadable =>
      refine ⟨1, .efault, { lro with
        copied := lro.copied ++ [(bitBuf, chunkSize length byteRead)]
        hwicapStatus := .error, axiGateFrozen := false }, ?_⟩
      rw [downloadLoop_succ _ _ _ _ _ _ _ _ more, copyFromUser, if_neg unreadable]
      rfl
  | @refused byteRead bitBuf _ _ more readable refused =>
      subst vacancy cr
      obtain ⟨after, takes, -⟩ | ⟨-, err, after, failed⟩ := bitstreamIcapHelper_cases env
        { lro with copied := lro.copied ++ [(bitBuf, chunkSize length byteRead)] }
        (fun i => if i < chunkSize length byteRead then bytesFrom user bitBuf i else buffer i) 0
        (chunkSize length byteRead / 4)
      · exact absurd takes (refused _ _)
      · refine ⟨1, err, { after with hwicapStatus := .error, axiGateFrozen := false }, ?_⟩
        rw [downloadLoop_succ _ _ _ _ _ _ _ _ more, copyFromUser_readable readable]
        simp only [failed, freeBuffers]
  | @later byteRead bitBuf vacancyReads crReads vacancy' cr' more readable takes rest ih =>
      subst vacancy cr
      obtain ⟨after, took, ok, srKept, -⟩ | ⟨refused, -⟩ := bitstreamIcapHelper_cases env
        { lro with copied := lro.copied ++ [(bitBuf, chunkSize length byteRead)] }
        (fun i => if i < chunkSize length byteRead then bytesFrom user bitBuf i else buffer i) 0
        (chunkSize length byteRead / 4)
      · obtain ⟨vacancySame, crSame⟩ := took.unique takes
        obtain ⟨fuel, err, stop, result⟩ : ∃ fuel err stop, downloadLoop env user length fuel
            ((byteRead + chunkSize length byteRead) % 2 ^ 32) (bitBuf + chunkSize length byteRead)
            (fun i => if i < chunkSize length byteRead then bytesFrom user bitBuf i else buffer i)
            after = .returned (.error err) stop := ih (srKept.trans sr) vacancySame crSame
        refine ⟨fuel + 1, err, stop, ?_⟩
        rw [downloadLoop_succ _ _ _ _ _ _ _ _ more, copyFromUser_readable readable]
        simp only [ok, result]
      · exact absurd takes (refused _ _)
  | timeout ended silent =>
      subst sr
      obtain ⟨k, below, found, -⟩ | ⟨-, after, waited, -⟩ := waitForDone_cases env 1000 lro
      · exact absurd (silent k below) found
      · refine ⟨1, .etimedout, { after with axiGateFrozen := false }, ?_⟩
        rw [downloadLoop, if_neg (Nat.not_lt.mpr ended), waited]
        rfl

/-- A loop that comes to an error has met a failing step. -/
theorem loopFails_of_returned {fuel byteRead bitBuf : Nat} {buffer : Nat → Byte}
    {lro after : MgmtDev} {err : Errno}
    (returned : downloadLoop env user length fuel byteRead bitBuf buffer lro =
      .returned (.error err) after) :
    LoopFails env user length lro.srReads byteRead bitBuf lro.vacancyReads lro.crReads := by
  induction fuel generalizing byteRead bitBuf buffer lro with
  | zero => cases returned
  | succ fuel ih =>
      rcases Nat.lt_or_ge byteRead length with more | ended
      · rw [downloadLoop_succ _ _ _ _ _ _ _ _ more] at returned
        by_cases readable : Readable user bitBuf (chunkSize length byteRead)
        · rw [copyFromUser_readable readable] at returned
          obtain ⟨next, takes, ok, srKept, -⟩ | ⟨refused, -⟩ := bitstreamIcapHelper_cases env
            { lro with copied := lro.copied ++ [(bitBuf, chunkSize length byteRead)] }
            (fun i => if i < chunkSize length byteRead then bytesFrom user bitBuf i else buffer i)
            0 (chunkSize length byteRead / 4)
          · simp only [ok] at returned
            have rest := ih returned
            rw [srKept] at rest
            exact .later more readable takes rest
          · exact .refused more readable refused
        · exact .unreadable more readable
      · rw [downloadLoop, if_neg (Nat.not_lt.mpr ended)] at returned
        obtain ⟨k, -, -, next, waited, -⟩ | ⟨silent, -⟩ := waitForDone_cases env 1000 lro
        · rw [waited] at returned
          cases returned
        · exact .timeout ended silent

end Loop

/-! ## The request -/

section Request

variable {env : IcapEnv} {user : UserMem} {length : Nat} {lro : MgmtDev}

/-- The device that the header is parsed with. -/
def afterCopy (lro : MgmtDev) : MgmtDev :=
  { bitstreamClearIcap { lro with axiGateFrozen := true } with
    copied := lro.copied ++ [(0, bufferSize)] }

/-- The call up to the parser, when the header can be copied. -/
theorem bitstreamIoctlIcap_copied (gate : lro.axiGateFrozen = false)
    (allocated : env.bufferOk = true)
    (readable : Readable user 0 bufferSize) (fuel : Nat) :
    bitstreamIoctlIcap env user length fuel lro =
      downloadParsed env user length fuel (afterCopy lro) (headerBuffer user)
        (bitstreamParseHeader (headerBuffer user) env.fieldOk 0) := by
  simp only [bitstreamIoctlIcap, gate, allocated, Bool.false_eq_true, Bool.true_eq_false, if_false,
    copyFromUser_readable readable]
  rfl

/-- The call after the parser, in terms of the header's two lengths. -/
theorem downloadParsed_header {fuel index headerLength bitstreamLength : Nat}
    {buffer : Nat → Byte} {header : BitHeader} (first : header.headerLength = headerLength)
    (second : header.bitstreamLength = bitstreamLength) :
    downloadParsed env user length fuel lro buffer (.ok (header, index)) =
      if (headerLength + bitstreamLength) % 2 ^ 32 > length then
        freeBuffers { lro with hwicapStatus := .error } (.error .einval)
      else downloadLoop env user length fuel 0 headerLength buffer lro := by
  rw [downloadParsed, first, second]

/-- The call when the header is well formed: the size test, and the loop. -/
theorem bitstreamIoctlIcap_formed (gate : lro.axiGateFrozen = false) (read : HeaderRead env user)
    (formed : WellFormed (headerBuffer user) headerParts 0) (fuel : Nat) :
    bitstreamIoctlIcap env user length fuel lro =
      if (headerEnd (headerBuffer user) + declaredLength (headerBuffer user)) % 2 ^ 32 > length then
        freeBuffers { afterCopy lro with hwicapStatus := .error } (.error .einval)
      else downloadLoop env user length fuel 0 (headerEnd (headerBuffer user)) (headerBuffer user)
        (afterCopy lro) := by
  rw [bitstreamIoctlIcap_copied gate read.bufferOk read.readable,
    (bitstreamParseHeader_parses _ _).ok read.fitting formed]
  exact downloadParsed_header (headerAt_headerLength _) (headerAt_bitstreamLength _)

theorem bitstreamIoctlIcap_told (gate : lro.axiGateFrozen = false)
    (unfinished : lro.hwicapStatus ≠ .finish) {fuel : Nat} {result : Except Errno Unit}
    {after : MgmtDev}
    (returned : bitstreamIoctlIcap env user length fuel lro = .returned result after) :
    Told result after := by
  rw [bitstreamIoctlIcap, if_neg (by simp [gate])] at returned
  simp only at returned
  split at returned
  · cases returned
    exact ⟨rfl, by simpa [bitstreamClearIcap] using unfinished⟩
  split at returned
  · cases returned
    exact ⟨rfl, by simp⟩
  · rw [downloadParsed.eq_def] at returned
    split at returned
    · cases returned
    · cases returned
      exact ⟨rfl, by simp⟩
    · split at returned
      · cases returned
        exact ⟨rfl, by simp⟩
      · exact downloadLoop_told (by simpa [bitstreamClearIcap] using unfinished) returned

/-- A download comes to an error, with enough fuel, exactly if one of its steps fails. -/
theorem downloadFails_iff (gate : lro.axiGateFrozen = false) :
    DownloadFails env user length lro ↔
      ∃ fuel err after, bitstreamIoctlIcap env user length fuel lro =
        .returned (.error err) after := by
  constructor
  · rintro (denied | ⟨allocated, unreadable⟩ | ⟨read, malformed⟩ | ⟨read, formed, long⟩ |
      ⟨read, formed, fits, loop⟩)
    · refine ⟨0, .enomem, { bitstreamClearIcap { lro with axiGateFrozen := true } with
        axiGateFrozen := false }, ?_⟩
      simp [bitstreamIoctlIcap, gate, denied, freeBuffers]
    · refine ⟨0, .efault, { afterCopy lro with hwicapStatus := .error, axiGateFrozen := false }, ?_⟩
      simp [bitstreamIoctlIcap, gate, allocated, freeBuffers, copyFromUser, unreadable, afterCopy,
        bitstreamClearIcap]
    · refine ⟨0, .einval, { afterCopy lro with hwicapStatus := .error, axiGateFrozen := false }, ?_⟩
      rw [bitstreamIoctlIcap_copied gate read.bufferOk read.readable,
        (bitstreamParseHeader_parses _ _).invalid read.fitting malformed]
      rfl
    · refine ⟨0, .einval, { afterCopy lro with hwicapStatus := .error, axiGateFrozen := false }, ?_⟩
      rw [bitstreamIoctlIcap_formed gate read formed, if_pos long]
      rfl
    · obtain ⟨fuel, err, after, result⟩ : ∃ fuel err after,
          downloadLoop env user length fuel 0 (headerEnd (headerBuffer user)) (headerBuffer user)
            (afterCopy lro) = .returned (.error err) after := loop.returns rfl rfl rfl
      refine ⟨fuel, err, after, ?_⟩
      rw [bitstreamIoctlIcap_formed gate read formed, if_neg (Nat.not_lt.mpr fits)]
      exact result
  · rintro ⟨fuel, err, after, returned⟩
    by_cases allocated : env.bufferOk = true
    swap
    · exact .kmalloc (by simpa using allocated)
    by_cases readable : Readable user 0 bufferSize
    swap
    · exact .copy allocated readable
    have parses := bitstreamParseHeader_parses (headerBuffer user) env.fieldOk
    by_cases fitting : Fitting (headerBuffer user) env.fieldOk headerParts 0
    swap
    · rw [bitstreamIoctlIcap_copied gate allocated readable, parses.fault fitting] at returned
      cases returned
    have read : HeaderRead env user := ⟨allocated, readable, fitting⟩
    by_cases formed : WellFormed (headerBuffer user) headerParts 0
    swap
    · exact .header read formed
    rcases Nat.lt_or_ge length
      ((headerEnd (headerBuffer user) + declaredLength (headerBuffer user)) % 2 ^ 32) with
      long | fits
    · exact .size read formed long
    · rw [bitstreamIoctlIcap_formed gate read formed, if_neg (Nat.not_lt.mpr fits)] at returned
      have fails := loopFails_of_returned returned
      exact .loop read formed fits fails

/-- The steps do not depend on the status. -/
theorem DownloadFails.setStatus (fails : DownloadFails env user length lro) (status : Status) :
    DownloadFails env user length { lro with hwicapStatus := status } := by
  rcases fails with denied | ⟨allocated, unreadable⟩ | ⟨read, malformed⟩ | ⟨read, formed, long⟩ |
    ⟨read, formed, fits, loop⟩
  · exact .kmalloc denied
  · exact .copy allocated unreadable
  · exact .header read malformed
  · exact .size read formed long
  · exact .loop read formed fits loop

/-- The return value is 0 whatever a download came to, which agrees with its status
exactly if no step of it fails. -/
theorem download_agrees_iff (gate : lro.axiGateFrozen = false)
    (unfinished : lro.hwicapStatus ≠ .finish) :
    (∀ fuel result after, bitstreamIoctlIcap env user length fuel lro = .returned result after →
      StatusAgrees 0 ⟨after, false, 0⟩) ↔ ¬ DownloadFails env user length lro := by
  constructor
  · intro agrees fails
    obtain ⟨fuel, err, after, returned⟩ := (downloadFails_iff gate).mp fails
    have told := bitstreamIoctlIcap_told gate unfinished returned
    have agreed := agrees fuel (.error err) after returned
    cases told.finished.mpr (agreed.ret.mp rfl)
  · intro succeeds fuel result after returned
    have told := bitstreamIoctlIcap_told gate unfinished returned
    cases result with
    | ok _ =>
        have finished := told.finished.mp rfl
        exact ⟨.inl finished, by simp [finished], rfl, told.gate⟩
    | error err => exact absurd ((downloadFails_iff gate).mpr ⟨fuel, err, after, returned⟩) succeeds

end Request

section Call

variable {call : IoctlCall} {device : Device}

/-- A request that is refused at once leaves the device as it is. -/
theorem pcieIoctl_refused (refused : call.isUserCharDev = false ∨ call.argOk = false)
    (device : Device) :
    ∃ ret, ret ≠ 0 ∧ ∀ fuel, pcieIoctl fuel call device = .returned ret device := by
  by_cases isUser : call.isUserCharDev = false
  · exact ⟨-enotty, by decide, fun fuel => if_pos isUser⟩
  · refine ⟨-Errno.efault.code, by decide, fun fuel => ?_⟩
    rw [pcieIoctl, if_neg isUser, if_pos (refused.resolve_left isUser)]

/-- A request that fails before the download leaves the status of a failed one. -/
theorem pcieIoctl_unreadable (idle : device.Idle)
    (taken : ¬ (call.isUserCharDev = false ∨ call.argOk = false))
    (unreadable : call.bitstreamObj = none ∨ call.bufferOk = false) (fuel : Nat) :
    pcieIoctl fuel call device = .returned (-Errno.efault.code) (device.setStatus .error) := by
  rw [not_or] at taken
  rw [pcieIoctl, if_neg taken.1, if_neg taken.2, if_neg (by simp [idle.busy])]
  cases copied : call.bitstreamObj with
  | none => simp [bitstreamIoctl, copied, Device.setStatus, idle.busy]
  | some len =>
      have denied := unreadable.resolve_left (by simp [copied])
      simp [bitstreamIoctl, copied, denied, Device.setStatus, idle.busy]

/-- A request that comes to the download returns 0 when that returns. -/
theorem pcieIoctl_download (idle : device.Idle)
    (taken : ¬ (call.isUserCharDev = false ∨ call.argOk = false)) {len : Int}
    (copied : call.bitstreamObj = some len) (allowed : call.bufferOk = true) (fuel : Nat) :
    pcieIoctl fuel call device =
      match bitstreamIoctlIcap call.env call.user (ulong len) fuel
        { device.lro with hwicapStatus := .downloading } with
      | .returned _ lro => .returned 0 ⟨lro, false, 0⟩
      | .fault => .fault
      | .running => .running := by
  rw [not_or] at taken
  rw [pcieIoctl, if_neg taken.1, if_neg taken.2, if_neg (by simp [idle.busy])]
  simp only [bitstreamIoctl, copied, allowed, Bool.true_eq_false, if_false, Device.setStatus]
  cases bitstreamIoctlIcap call.env call.user (ulong len) fuel
    { device.lro with hwicapStatus := .downloading } <;> rfl

end Call

/-- A header without configuration data, in memory that can be read everywhere. -/
def smallFile : UserMem := fun k =>
  some ([0, 1, 0, 0, 1, 0x61, 0, 1, 0, 0x62, 0, 1, 0, 0x63, 0, 1, 0, 0x64, 0, 1, 0,
    0x65, 0, 0, 0, 0][k]?.getD 0)

/-- A device without faults takes a chunk in one batch. -/
theorem granting_takes {remainWord : Nat} (small : remainWord ≤ 1024) (vacancyReads crReads : Nat) :
    ∃ vacancy' cr', Takes .granting remainWord vacancyReads crReads vacancy' cr' := by
  rcases Nat.eq_zero_or_pos remainWord with rfl | positive
  · exact ⟨_, _, .done⟩
  have whole : batchSize .granting vacancyReads remainWord = remainWord := by
    have room : (IcapEnv.granting.vacancy vacancyReads).toInt = 1024 := rfl
    rw [batchSize, room]
    split <;> omega
  have idle : IdleAfter .granting crReads 0 :=
    ⟨by decide, (by decide : (0 : Word) &&& 1 = 0), fun _ less => absurd less (Nat.not_lt_zero _)⟩
  refine ⟨vacancyReads + 1, crReads + 0 + 1, .batch (Nat.ne_of_gt positive) ?_ idle ?_⟩
  · exact (by decide : 0 < (1024 : Word).toInt)
  · rw [whole, Nat.sub_self]
    exact .done

theorem granting_loop {user : UserMem} (readable : ∀ start count, Readable user start count)
    {length srReads byteRead bitBuf vacancyReads crReads : Nat} :
    ¬ LoopFails .granting user length srReads byteRead bitBuf vacancyReads crReads := by
  intro fails
  induction fails with
  | unreadable _ unreadable => exact unreadable (readable _ _)
  | @refused byteRead _ _ _ _ _ refused =>
      have chunk : chunkSize length byteRead ≤ 1024 := by
        rw [chunkSize, bufferSize]
        split <;> omega
      have small : chunkSize length byteRead / 4 ≤ 1024 := by omega
      obtain ⟨_, _, takes⟩ := granting_takes small _ _
      exact refused _ _ takes
  | later _ _ _ _ ih => exact ih
  | timeout _ silent =>
      have first : (1 : Word) &&& 5 = 0 := silent 0 (by decide)
      exact absurd first (by decide)

end OpaeXilinx.Icap
