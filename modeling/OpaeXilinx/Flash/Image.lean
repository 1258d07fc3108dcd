import Mathlib.Data.List.Pairwise
import OpaeXilinx.Flash.Coverage
import OpaeXilinx.Flash.WellFormed

/-!
# The image of a file

What a run that succeeds leaves in the flash: the bytes of the file at their shifted
addresses, 0xFF in the rest of the subsectors they touch and in the subsector of the guard,
and everything else as it was.
-/

namespace OpaeXilinx.Flash

open OpaeXilinx.Base

/-- The memory after some calls, of which the first one comes first. -/
def callsImage (calls : List Call) (mem : Mem) : Mem :=
  calls.foldl (fun mem call => call.applied mem) mem

section Calls

variable {call : Call} {calls : List Call} {mem : Mem} {x : Nat}

theorem callsImage_append (first second : List Call) (mem : Mem) :
    callsImage (first ++ second) mem = callsImage second (callsImage first mem) :=
  List.foldl_append

theorem imageAfter_eq (work : List Note) (mem : Mem) :
    imageAfter work mem = callsImage (callsOf work) mem := by
  induction work with
  | nil => rfl
  | cons note earlier ih =>
      have last : callsOf (note :: earlier) = callsOf earlier ++ callsOf [note] :=
        callsOf_append [note] earlier
      rw [last, callsImage_append, ← ih]
      cases note <;> rfl

theorem applied_erase (erases : call.Erases x) : call.applied mem x = 0xFF := by
  obtain ⟨isErase, same⟩ := erases
  rw [Call.applied, isErase]
  exact if_pos same

theorem applied_other_erase (isErase : call.kind = .erase) (elsewhere : ¬ call.Erases x) :
    call.applied mem x = mem x := by
  rw [Call.applied, isErase]
  apply if_neg
  intro same
  exact elsewhere ⟨isErase, same⟩

/-- Bytes of 0xFF change nothing. -/
theorem programFrom_blank {address i : Nat} {data : List Byte}
    (blank : ∀ j byte, data[j]? = some byte → inPage address (i + j) = x → byte = 0xFF) :
    programFrom address i data mem x = mem x := by
  induction data generalizing i mem with
  | nil => rfl
  | cons first rest ih =>
      have further :
          ∀ j byte, rest[j]? = some byte → inPage address (i + 1 + j) = x → byte = 0xFF := by
        intro j byte here same
        apply blank (j + 1) byte here
        rw [← same, Nat.add_assoc, Nat.add_comm 1]
      rw [programFrom, ih further]
      by_cases here : x = inPage address i
      · have full : first = 0xFF := blank 0 first rfl here.symm
        rw [here, Function.update_self, full]
        exact BitVec.and_allOnes
      · rw [Function.update_of_ne here]

theorem inPage_injective {address i j : Nat} (first : i < pageSize) (second : j < pageSize)
    (same : inPage address i = inPage address j) : i = j := by
  simp only [inPage, pageSize] at first second same
  omega

/-- A byte is programmed at its place. -/
theorem programFrom_at {address i j : Nat} {data : List Byte} {byte : Byte}
    (short : i + data.length ≤ pageSize) (here : data[j]? = some byte)
    (place : inPage address (i + j) = x) : programFrom address i data mem x = mem x &&& byte := by
  induction data generalizing i j mem with
  | nil => cases here
  | cons first rest ih =>
      rw [List.length_cons] at short
      rw [programFrom]
      cases j with
      | zero =>
          cases here
          have others : ∀ k other, rest[k]? = some other → inPage address (i + 1 + k) = x →
              other = 0xFF := by
            intro k other found same
            obtain ⟨inside, -⟩ := List.getElem?_eq_some_iff.mp found
            have := inPage_injective (by omega) (by omega) (same.trans place.symm)
            omega
          rw [programFrom_blank others, ← place, Nat.add_zero, Function.update_self]
      | succ j =>
          obtain ⟨inside, -⟩ := List.getElem?_eq_some_iff.mp here
          rw [List.length_cons] at inside
          have elsewhere : x ≠ inPage address i := by
            intro same
            have := inPage_injective (by omega) (by omega) (place.trans same)
            omega
          have next : inPage address (i + 1 + j) = x := by
            rw [← place, Nat.add_assoc, Nat.add_comm 1]
          rw [ih (by omega) here next, Function.update_of_ne elsewhere]

theorem applied_unset (isProgram : call.kind = .program) (unset : ¬ call.Sets x) :
    call.applied mem x = mem x := by
  rw [Call.applied, isProgram]
  apply programFrom_blank
  intro j byte here same
  rw [Nat.zero_add] at same
  by_contra other
  exact unset ⟨isProgram, j, byte, here, other, same⟩

/-- The calls leave the byte alone. -/
theorem callsImage_kept (kept : ∀ call ∈ calls, ¬ call.Erases x ∧ ¬ call.Sets x) :
    callsImage calls mem x = mem x := by
  induction calls generalizing mem with
  | nil => rfl
  | cons call rest ih =>
      obtain ⟨unerased, unset⟩ := kept call List.mem_cons_self
      have first : call.applied mem x = mem x := by
        cases kind : call.kind with
        | erase => exact applied_other_erase kind unerased
        | program => exact applied_unset kind unset
      have others : callsImage rest (call.applied mem) x = call.applied mem x :=
        ih fun other member => kept other (List.mem_cons_of_mem _ member)
      exact others.trans first

/-- One of the erases hits the byte. -/
theorem callsImage_erased (erases : ∀ call ∈ calls, call.kind = .erase)
    (erased : ∃ call ∈ calls, call.Erases x) : callsImage calls mem x = 0xFF := by
  induction calls generalizing mem with
  | nil =>
      obtain ⟨_, member, -⟩ := erased
      cases member
  | cons call rest ih =>
      have further : ∀ call ∈ rest, call.kind = .erase := fun other member =>
        erases other (List.mem_cons_of_mem _ member)
      by_cases later : ∃ call ∈ rest, call.Erases x
      · exact ih further later
      · have here : call.Erases x := by
          obtain ⟨found, member, hit⟩ := erased
          cases List.mem_cons.mp member with
          | inl same => exact same ▸ hit
          | inr inRest => exact absurd ⟨found, inRest, hit⟩ later
        have kept : ∀ other ∈ rest, ¬ other.Erases x ∧ ¬ other.Sets x := by
          intro other member
          constructor
          · intro hit
            exact later ⟨other, member, hit⟩
          · exact not_sets_of_erase (further other member)
        exact (callsImage_kept kept).trans (applied_erase here)

/-- A byte that is programmed once. -/
theorem callsImage_set {i : Nat} {byte : Byte} (programs : ∀ call ∈ calls, call.kind = .program)
    (once : calls.Pairwise fun earlier later => ∀ x, earlier.Sets x → ¬ later.Sets x)
    (member : call ∈ calls) (short : call.data.length ≤ pageSize) (here : call.data[i]? = some byte)
    (other : byte ≠ 0xFF) (place : inPage (call.address % 2 ^ 28) i = x) :
    callsImage calls mem x = mem x &&& byte := by
  have sets : call.Sets x := ⟨programs call member, i, byte, here, other, place⟩
  induction calls generalizing mem with
  | nil => cases member
  | cons first rest ih =>
      obtain ⟨apart, onceRest⟩ := List.pairwise_cons.mp once
      have further : ∀ call ∈ rest, call.kind = .program := fun other member =>
        programs other (List.mem_cons_of_mem _ member)
      change callsImage rest (first.applied mem) x = _
      cases List.mem_cons.mp member with
      | inl same =>
          subst same
          have kept : ∀ later ∈ rest, ¬ later.Erases x ∧ ¬ later.Sets x := by
            intro later inRest
            constructor
            · rintro ⟨isErase, -⟩
              cases isErase.symm.trans (further later inRest)
            · exact apart later inRest x sets
          rw [callsImage_kept kept, Call.applied, programs call member]
          exact programFrom_at (by rw [Nat.zero_add]; exact short) here
            (by rw [Nat.zero_add]; exact place)
      | inr inRest =>
          have unset : ¬ first.Sets x := fun setsFirst => apart call inRest x setsFirst sets
          rw [ih further onceRest inRest, applied_unset (programs first List.mem_cons_self) unset]

end Calls

/-- The start of the first segment. -/
def firstStart (segments : List Segment) : Nat := (segments.head?.map Segment.start).getD 0

/-- How far a file is shifted: behind the guard, which only a file at 0 does without. -/
def fileShift (segments : List Segment) : Nat := shiftOf (firstStart segments)

/-- The segments start at subsectors, ascend and lie apart. -/
structure Laid (segments : List Segment) : Prop where
  some : segments ≠ []
  aligned : ∀ segment ∈ segments, segment.start % subsectorSize = 0
  ascending : segments.Pairwise fun one other => one.start + one.data.length ≤ other.start

/-- A byte of the file goes there. -/
def FileByte (segments : List Segment) (x : Nat) : Prop :=
  ∃ segment ∈ segments, ∃ n < segment.data.length, x = segment.start + n + fileShift segments

/-- The place is in a subsector that overlaps a shifted segment. -/
def Touched (segments : List Segment) (x : Nat) : Prop :=
  ∃ segment ∈ segments, ∃ n < segment.data.length,
    x / subsectorSize = (segment.start + n + fileShift segments) / subsectorSize

/-- The place is in the subsector of the guard. -/
def InGuard (segments : List Segment) (x : Nat) : Prop :=
  firstStart segments ≠ 0 ∧ firstStart segments ≤ x ∧ x < firstStart segments + 0x1000

/-- What the file makes of a flash. -/
structure Image (segments : List Segment) (old new : Mem) : Prop where
  stored : ∀ segment ∈ segments, ∀ n byte, segment.data[n]? = some byte →
    new (segment.start + n + fileShift segments) = byte
  filled : ∀ x, Touched segments x → ¬ FileByte segments x → new x = 0xFF
  guard : ∀ x, InGuard segments x → new x = 0xFF
  kept : ∀ x, ¬ Touched segments x → ¬ InGuard segments x → new x = old x

section Segments

variable {segments : List Segment} {written : List (ElaRecord × List Byte)}

theorem fileShift_mod (segments : List Segment) : fileShift segments % subsectorSize = 0 := by
  rw [fileShift, shiftOf]
  split <;> rfl

theorem Laid.first_le (laid : Laid segments) :
    ∀ segment ∈ segments, firstStart segments ≤ segment.start := by
  intro segment member
  cases segments with
  | nil => cases member
  | cons first rest =>
      cases List.mem_cons.mp member with
      | inl same => exact same ▸ Nat.le_refl _
      | inr later =>
          have apart := (List.pairwise_cons.mp laid.ascending).1 segment later
          exact Nat.le_trans (Nat.le_add_right _ _) apart

theorem Laid.first_mod (laid : Laid segments) : firstStart segments % subsectorSize = 0 := by
  cases segments with
  | nil => rfl
  | cons first rest => exact laid.aligned first List.mem_cons_self

/-- The shifted file lies behind the guard. -/
theorem Laid.behind_guard (laid : Laid segments) (guarded : firstStart segments ≠ 0)
    {segment : Segment}
    (member : segment ∈ segments) :
    firstStart segments + subsectorSize ≤ segment.start + fileShift segments := by
  have le := laid.first_le segment member
  rw [fileShift, shiftOf, if_pos guarded]
  exact Nat.add_le_add_right le _

/-- Two bytes of the file at one address are the same byte. -/
theorem Laid.unique (laid : Laid segments) {one other : Segment} (inOne : one ∈ segments)
    (inOther : other ∈ segments) {n m : Nat} (inside : n < one.data.length)
    (inside' : m < other.data.length) (same : one.start + n = other.start + m) :
    one = other ∧ n = m := by
  have apart : segments.Pairwise fun one other =>
      one.start + one.data.length ≤ other.start ∨ other.start + other.data.length ≤ one.start :=
    laid.ascending.imp Or.inl
  have : Std.Symm fun one other : Segment =>
      one.start + one.data.length ≤ other.start ∨ other.start + other.data.length ≤ one.start :=
    ⟨fun _ _ => Or.symm⟩
  by_cases isSame : one = other
  · subst isSame
    exact ⟨rfl, Nat.add_left_cancel same⟩
  · have := apart.forall inOne inOther isSame
    omega

theorem exists_entry {shift : Nat} (all : List.Forall₂ (Loaded shift) segments written) :
    (∀ segment ∈ segments, ∃ entry ∈ written, Loaded shift segment entry) ∧
      ∀ entry ∈ written, ∃ segment ∈ segments, Loaded shift segment entry := by
  induction all with
  | nil => exact ⟨nofun, nofun⟩
  | @cons segment entry segments written loaded rest ih =>
      constructor
      · intro other member
        cases List.mem_cons.mp member with
        | inl same => exact ⟨entry, List.mem_cons_self, same ▸ loaded⟩
        | inr later =>
            obtain ⟨found, inRest, isLoaded⟩ := ih.1 other later
            exact ⟨found, List.mem_cons_of_mem _ inRest, isLoaded⟩
      · intro other member
        cases List.mem_cons.mp member with
        | inl same => exact ⟨segment, List.mem_cons_self, same ▸ loaded⟩
        | inr later =>
            obtain ⟨found, inRest, isLoaded⟩ := ih.2 other later
            exact ⟨found, List.mem_cons_of_mem _ inRest, isLoaded⟩

theorem pairwise_entries {shift : Nat} {apart : Segment → Segment → Prop}
    {apart' : ElaRecord × List Byte → ElaRecord × List Byte → Prop}
    (all : List.Forall₂ (Loaded shift) segments written) (pairwise : segments.Pairwise apart)
    (each : ∀ one ∈ segments, ∀ other ∈ segments, ∀ entry entry', Loaded shift one entry →
      Loaded shift other entry' → apart one other → apart' entry entry') :
        written.Pairwise apart' := by
  induction all with
  | nil => exact .nil
  | @cons segment entry segments written loaded rest ih =>
      obtain ⟨first, others⟩ := List.pairwise_cons.mp pairwise
      apply List.pairwise_cons.mpr
      constructor
      · intro entry' member
        obtain ⟨other, inRest, loaded'⟩ := (exists_entry rest).2 entry' member
        exact each segment List.mem_cons_self other (List.mem_cons_of_mem _ inRest)
          entry entry' loaded loaded' (first other inRest)
      · apply ih others
        intro one inOne other inOther
        exact each one (List.mem_cons_of_mem _ inOne) other (List.mem_cons_of_mem _ inOther)

/-- In a record that starts at a subsector the bytes follow on one another. -/
theorem place_eq {record : ElaRecord} {n : Nat} (aligned : record.startAddress % subsectorSize = 0)
    (small : record.startAddress + n < 2 ^ 28) : record.place n = record.startAddress + n := by
  simp only [subsectorSize] at aligned
  simp only [ElaRecord.place, inPage, ElaRecord.pageAddress, u32, writeDataSize, pageSize]
  omega

/-- The shifted segments end in the flash. -/
def InFlash (segments : List Segment) : Prop :=
  ∀ segment ∈ segments, segment.start + segment.data.length + fileShift segments ≤ 2 ^ 28

section Entries

variable (laid : Laid segments) (inFlash : InFlash segments) {segment : Segment}
    (member : segment ∈ segments) {entry : ElaRecord × List Byte}
    (loaded : Loaded (fileShift segments) segment entry)

include laid member loaded

theorem Loaded.aligned : entry.1.startAddress % subsectorSize = 0 := by
  have start := laid.aligned segment member
  have shift := fileShift_mod segments
  rw [loaded.start]
  simp only [subsectorSize] at start shift ⊢
  omega

include inFlash

theorem Loaded.place {n : Nat} (inside : n < segment.data.length) :
    entry.1.place n = segment.start + n + fileShift segments := by
  have small := inFlash segment member
  have start := loaded.start
  rw [place_eq (loaded.aligned laid member) (by omega), start]
  omega

/-- The subsectors that are erased for a segment are those that it overlaps. -/
theorem Loaded.covers {x : Nat} : entry.1.Covers x ↔
    ∃ n < segment.data.length,
      x / subsectorSize = (segment.start + n + fileShift segments) / subsectorSize := by
  have small := inFlash segment member
  have aligned := loaded.aligned laid member
  have start := loaded.start
  rw [ElaRecord.Covers, loaded.count]
  rw [start] at aligned ⊢
  simp only [subsector, subsectorSize] at aligned ⊢
  constructor
  · rintro ⟨i, inside, same⟩
    apply Exists.intro (0x1000 * i)
    omega
  · rintro ⟨n, inside, same⟩
    apply Exists.intro (n / 0x1000)
    omega

end Entries

section Runs

variable (laid : Laid segments) (inFlash : InFlash segments)
  (all : List.Forall₂ (Loaded (fileShift segments)) segments written)

include laid inFlash

theorem Laid.first_lt (guarded : firstStart segments ≠ 0) :
    firstStart segments + subsectorSize ≤ 2 ^ 28 := by
  cases segments with
  | nil => exact absurd rfl guarded
  | cons first rest =>
      have small := inFlash first List.mem_cons_self
      rw [fileShift, shiftOf, if_pos guarded] at small
      change first.start + subsectorSize ≤ 2 ^ 28
      simp only [bitstreamGuardSize, subsectorSize] at small ⊢
      omega

theorem Laid.subsector_guard (guarded : firstStart segments ≠ 0) {x : Nat} :
    x / subsectorSize = subsector (firstStart segments) ↔ InGuard segments x := by
  have aligned := laid.first_mod
  have small := laid.first_lt inFlash guarded
  simp only [subsector, subsectorSize, InGuard] at aligned small ⊢
  omega

theorem Laid.guardAt {x : Nat} (isGuard : GuardAt (firstStart segments) x) :
    InGuard segments x := by
  obtain ⟨guarded, i, -, -, rfl⟩ := isGuard
  have aligned := laid.first_mod
  have small := laid.first_lt inFlash guarded
  apply (laid.subsector_guard inFlash guarded).mp
  rw [inPage_div_subsectorSize]
  simp only [subsector, subsectorSize, writeDataSize] at aligned small ⊢
  omega

omit inFlash in
theorem Laid.not_inGuard {segment : Segment} (member : segment ∈ segments) (n : Nat) :
    ¬ InGuard segments (segment.start + n + fileShift segments) := by
  rintro ⟨guarded, -, below⟩
  have behind := laid.behind_guard guarded member
  simp only [subsectorSize] at behind
  omega

include all

/-- The segments of a file suit the erase loop. -/
theorem Laid.suits : Suits (firstStart segments) written := by
  have programmed_lt {segment : Segment} {entry : ElaRecord × List Byte} {n : Nat}
      (loaded : Loaded (fileShift segments) segment entry) (programmed : Programmed entry.2 n) :
      n < segment.data.length := loaded.bytes ▸ programmed.lt
  constructor
  · intro _
    rw [laid.first_mod]
    decide
  · intro entry member n programmed
    right
    obtain ⟨segment, inSegments, loaded⟩ := (exists_entry all).2 entry member
    apply Exists.intro entry
    apply And.intro member
    apply ElaRecord.covers_own (loaded.aligned laid inSegments)
    rw [loaded.count]
    exact programmed_lt loaded programmed
  · intro entry member n programmed isGuard
    obtain ⟨segment, inSegments, loaded⟩ := (exists_entry all).2 entry member
    rw [loaded.place laid inFlash inSegments (programmed_lt loaded programmed)] at isGuard
    exact laid.not_inGuard inSegments n (laid.guardAt inFlash isGuard)
  · apply pairwise_entries all laid.ascending
    intro one inOne other inOther entry entry' loaded loaded' apart n m first second
    have before := programmed_lt loaded first
    rw [loaded.place laid inFlash inOne before,
      loaded'.place laid inFlash inOther (programmed_lt loaded' second)]
    omega
  · intro entry member n m far first second
    obtain ⟨segment, inSegments, loaded⟩ := (exists_entry all).2 entry member
    rw [loaded.place laid inFlash inSegments (programmed_lt loaded first),
      loaded.place laid inFlash inSegments (programmed_lt loaded second)]
    omega

/-- The calls of the erase loop. -/
theorem exists_loop_erases {sectors x : Nat} :
    (∃ erase ∈ written.flatMap fun entry => erases sectors entry.1.startAddress entry.1.dataCount,
      erase.Erases x) ↔ Touched segments x := by
  constructor
  · rintro ⟨erase, member, hit⟩
    obtain ⟨entry, inList, inErases⟩ := List.mem_flatMap.mp member
    obtain ⟨segment, inSegments, loaded⟩ := (exists_entry all).2 entry inList
    have covers := exists_mem_erases.mp ⟨erase, inErases, hit⟩
    exact ⟨segment, inSegments, (loaded.covers laid inFlash inSegments).mp covers⟩
  · rintro ⟨segment, inSegments, touched⟩
    obtain ⟨entry, inList, loaded⟩ := (exists_entry all).1 segment inSegments
    have covers := (loaded.covers laid inFlash inSegments).mpr touched
    obtain ⟨erase, inErases, hit⟩ := exists_mem_erases.mpr covers
    exact ⟨erase, List.mem_flatMap.mpr ⟨entry, inList, inErases⟩, hit⟩

variable {sectors x : Nat} {mem : Mem}

theorem loop_touched (touched : Touched segments x) :
    callsImage (written.flatMap fun entry => erases sectors entry.1.startAddress entry.1.dataCount)
      mem x = 0xFF :=
  callsImage_erased (fun _ => kind_of_mem_loop) ((exists_loop_erases laid inFlash all).mpr touched)

theorem loop_untouched (untouched : ¬ Touched segments x) :
    callsImage (written.flatMap fun entry => erases sectors entry.1.startAddress entry.1.dataCount)
      mem x =
      mem x := by
  apply callsImage_kept
  intro call member
  constructor
  · intro hit
    exact untouched ((exists_loop_erases laid inFlash all).mp ⟨call, member, hit⟩)
  · exact not_sets_of_erase (kind_of_mem_loop member)

/-- Where no byte other than 0xFF of the file goes, the half pages change nothing. -/
theorem pages_kept (nothing : ∀ segment ∈ segments, ∀ n, Programmed segment.data n →
      x ≠ segment.start + n + fileShift segments) :
    callsImage (written.flatMap fun entry => halfPages entry.1 sectors entry.2) mem x = mem x := by
  apply callsImage_kept
  intro call member
  constructor
  · rintro ⟨isErase, -⟩
    cases isErase.symm.trans (kind_of_mem_pages member)
  · intro sets
    obtain ⟨entry, inList, inPages⟩ := List.mem_flatMap.mp member
    obtain ⟨segment, inSegments, loaded⟩ := (exists_entry all).2 entry inList
    obtain ⟨n, programmed, same⟩ := exists_mem_halfPages.mp ⟨call, inPages, sets⟩
    rw [loaded.bytes] at programmed
    rw [loaded.place laid inFlash inSegments programmed.lt] at same
    exact nothing segment inSegments n programmed same.symm

/-- Over erased flash the half pages leave the bytes of the file. -/
theorem pages_stored {segment : Segment} (inSegments : segment ∈ segments) {n : Nat} {byte : Byte}
    (here : segment.data[n]? = some byte)
    (erased : mem (segment.start + n + fileShift segments) = 0xFF) :
    callsImage (written.flatMap fun entry => halfPages entry.1 sectors entry.2) mem
      (segment.start + n + fileShift segments) = byte := by
  obtain ⟨inside, -⟩ := List.getElem?_eq_some_iff.mp here
  by_cases blank : byte = 0xFF
  · subst blank
    rw [pages_kept laid inFlash all, erased]
    intro other inOther m programmed same
    obtain ⟨rfl, rfl⟩ := laid.unique inSegments inOther inside programmed.lt (by omega)
    obtain ⟨value, there, notBlank⟩ := programmed
    exact notBlank (Option.some.inj (there.symm.trans here))
  · have suits := laid.suits inFlash all
    obtain ⟨entry, inList, loaded⟩ := (exists_entry all).1 segment inSegments
    have place := loaded.place laid inFlash inSegments inside
    rw [← loaded.bytes] at here inside
    have inPages : halfPage entry.1 sectors entry.2 (n / writeDataSize) ∈
        written.flatMap fun entry => halfPages entry.1 sectors entry.2 :=
      List.mem_flatMap.mpr ⟨entry, inList, halfPage_mem inside⟩
    have short : (halfPage entry.1 sectors entry.2 (n / writeDataSize)).data.length ≤ pageSize := by
      rw [halfPage, List.length_map, List.length_range]
      decide
    rw [callsImage_set (fun _ => kind_of_mem_pages)
      (pairwise_pages.mpr ⟨suits.own, suits.apart⟩) inPages
      short (getElem?_halfPage here) blank place, erased]
    exact BitVec.allOnes_and

omit all in
theorem setting_kept (outside : ¬ InGuard segments x) :
    callsImage (settingCalls sectors (firstStart segments)) mem x = mem x := by
  apply callsImage_kept
  intro call member
  constructor
  · intro hit
    obtain ⟨guarded, same⟩ := exists_setting_erases.mp ⟨call, member, hit⟩
    exact outside ((laid.subsector_guard inFlash guarded).mp same)
  · intro sets
    exact outside (laid.guardAt inFlash (exists_setting_sets.mp ⟨call, member, sets⟩))

omit all in
theorem clearing_erased (inside : InGuard segments x) :
    callsImage (clearingCalls sectors (firstStart segments)) mem x = 0xFF := by
  obtain ⟨guarded, -⟩ := id inside
  rw [clearingCalls, if_pos guarded]
  apply callsImage_erased
  · intro call member
    rw [List.mem_singleton.mp member]
  · have hit := (laid.subsector_guard inFlash guarded).mpr inside
    exact ⟨_, List.mem_cons_self, rfl, hit⟩

omit all in
theorem clearing_kept (outside : ¬ InGuard segments x) :
    callsImage (clearingCalls sectors (firstStart segments)) mem x = mem x := by
  apply callsImage_kept
  intro call member
  constructor
  · rw [clearingCalls] at member
    split at member
    next guarded =>
      rw [List.mem_singleton.mp member]
      intro hit
      exact outside ((laid.subsector_guard inFlash guarded).mp hit.2)
    next => cases member
  · exact not_sets_of_erase (kind_of_mem_clearing member)

/-- The calls of a run make the image of the file. -/
theorem image_runCalls :
    Image segments mem (callsImage (runCalls sectors (firstStart segments) written) mem) := by
  rw [runCalls, callsImage_append, callsImage_append, callsImage_append]
  constructor
  · intro segment inSegments n byte here
    obtain ⟨inside, -⟩ := List.getElem?_eq_some_iff.mp here
    rw [clearing_kept laid inFlash (laid.not_inGuard inSegments n)]
    apply pages_stored laid inFlash all inSegments here
    exact loop_touched laid inFlash all ⟨segment, inSegments, n, inside, rfl⟩
  · intro x touched noByte
    by_cases inside : InGuard segments x
    · exact clearing_erased laid inFlash inside
    · rw [clearing_kept laid inFlash inside, pages_kept laid inFlash all]
      · exact loop_touched laid inFlash all touched
      · intro segment inSegments n programmed same
        exact noByte ⟨segment, inSegments, n, programmed.lt, same⟩
  · intro x inside
    exact clearing_erased laid inFlash inside
  · intro x untouched outside
    rw [clearing_kept laid inFlash outside, pages_kept laid inFlash all,
      loop_untouched laid inFlash all untouched, setting_kept laid inFlash outside]
    intro segment inSegments n programmed same
    exact untouched ⟨segment, inSegments, n, programmed.lt, congrArg (· / subsectorSize) same⟩

end Runs

end Segments

/-! ## Upgrades -/

section Upgrade

variable {env : Env} {board : Board} {index : Slave} {segments : List Segment} {text : List Char}
  {w₀ w : Flasher}

/-- An upgrade that succeeds has parsed the file and programmed its records. -/
theorem upgrade_ok (ok : xclUpgradeFirmwareXSpi env (some text) index w₀ = .ok () w) :
    ∃ p, Parse.file text = .ok p ∧
      programXSpi env p.recordList (w₀.parsed env index p) = .ok () w := by
  cases mapped : w₀.mapped with
  | false =>
      have failed : xclUpgradeFirmwareXSpi env (some text) index w₀ =
          .error .eacces { w₀ with writeBuffer := fun _ => 0 } := by
        obtain ⟨_, _, _, _, _, _, _, _, _, _, _⟩ := w₀
        cases mapped
        rfl
      cases failed.symm.trans ok
  | true =>
      cases parsed : Parse.file text with
      | error stop =>
          have failed : ∃ w', xclUpgradeFirmwareXSpi env (some text) index w₀ = .error stop w' := by
            obtain ⟨_, _, _, _, _, _, _, _, _, _, _⟩ := w₀
            cases mapped
            simp only [xclUpgradeFirmwareXSpi, parsed]
            exact ⟨_, rfl⟩
          obtain ⟨_, failed⟩ := failed
          cases failed.symm.trans ok
      | ok p =>
          rw [xclUpgradeFirmwareXSpi_eq env parsed mapped] at ok
          exact ⟨p, rfl, ok⟩

theorem upgrade_sectors (ok : xclUpgradeFirmwareXSpi env (some text) index board.begin = .ok () w) :
    w.maxNumSectors ≤ 16 := by
  have any := Operation.filesAt_any env (.upgradeFirmwareXSpi (some text) index)
  obtain ⟨_, working⟩ := (xclUpgradeFirmwareXSpi_works index any).of_ok board.begin_startable ok
  exact working.ready.sectors

theorem McsFile.positive (isFile : McsFile segments text) :
    ∀ segment ∈ segments, 0 < segment.data.length := by
  obtain ⟨lines, isFile, -⟩ := isFile
  induction isFile with
  | last => exact nofun
  | segment isSegment _ ih =>
      intro other member
      cases List.mem_cons.mp member with
      | inl same =>
          subst same
          obtain ⟨-, -, isData⟩ := isSegment
          exact isData.positive
      | inr later => exact ih other later

theorem Laid.sane (laid : Laid segments) (inFlash : InFlash segments) {segment : Segment}
    (member : segment ∈ segments) (some : 0 < segment.data.length) :
    segment.upper < 2 ^ 12 ∧ segment.offset % 16 = 0 := by
  have aligned := laid.aligned segment member
  have small := inFlash segment member
  simp only [Segment.start, subsectorSize] at aligned small
  omega

theorem Recorded.first {records : List ElaRecord} (front : Nat)
    (all : List.Forall₂ (Recorded text) segments records) (some : segments ≠ [])
    (positive : ∀ segment ∈ segments, 0 < segment.data.length) :
    (records.head?.map ElaRecord.startAddress).getD front = firstStart segments := by
  cases all with
  | nil => exact absurd rfl some
  | cons recorded _ =>
      have nonzero := Nat.ne_of_gt (positive _ List.mem_cons_self)
      rw [List.head?_cons, Option.map_some, Option.getD_some, recorded.holds.start, if_neg nonzero]
      rfl

/-- The records of a file end behind their data. -/
theorem recorded_spans {records : List ElaRecord} {shift : Nat}
    (all : List.Forall₂ (Recorded text) segments records)
    (positive : ∀ segment ∈ segments, 0 < segment.data.length)
    (small : ∀ segment ∈ segments, segment.start + segment.data.length + shift < 2 ^ 32) :
    ∀ record ∈ records, record.endAddress = record.startAddress + record.dataCount ∧
      record.endAddress + shift < 2 ^ 32 := by
  induction all with
  | nil => exact nofun
  | @cons segment record segments records recorded rest ih =>
      intro other member
      cases List.mem_cons.mp member with
      | inl same =>
          subst same
          have nonzero := Nat.ne_of_gt (positive segment List.mem_cons_self)
          obtain ⟨count, start, ends⟩ := recorded.holds
          rw [if_neg nonzero] at start
          have less := small segment List.mem_cons_self
          omega
      | inr later =>
          exact ih (fun one inRest => positive one (List.mem_cons_of_mem _ inRest))
            (fun one inRest => small one (List.mem_cons_of_mem _ inRest)) other later

/-- An upgrade with a well-formed file that succeeds leaves the image of the file in the
flash, whatever it has held before. -/
theorem upgrade_leaves_image (isFile : McsFile segments text) (laid : Laid segments)
    (released : ∀ slave, (board.chips slave).pending = none)
    (below : ∀ segment ∈ segments, ∀ n < segment.data.length,
      segment.start + n + fileShift segments < w.maxNumSectors * 2 ^ 24)
    (ok : xclUpgradeFirmwareXSpi env (some text) index board.begin = .ok () w) :
    Image segments (board.chips index).mem (board.chips.after w.log index).mem := by
  have positive := isFile.positive
  have sectors := upgrade_sectors ok
  have inFlash : InFlash segments := by
    intro segment member
    have some := positive segment member
    have last := below segment member (segment.data.length - 1) (by omega)
    omega
  obtain ⟨p, parsed, ran⟩ := upgrade_ok ok
  obtain ⟨all, lines, more, upon⟩ := isFile.parsed laid.some
    (fun segment member => laid.sane inFlash member (positive segment member)) parsed
  let w₂ : Flasher := board.begin.parsed env index p
  have startLoc : w₂.bitstreamStartLoc = firstStart segments :=
    Recorded.first env.front all laid.some positive
  have small : ∀ segment ∈ segments,
      segment.start + segment.data.length + shiftOf w₂.bitstreamStartLoc < 2 ^ 32 := by
    intro segment member
    rw [startLoc]
    exact Nat.lt_of_le_of_lt (inFlash segment member) (by decide)
  obtain ⟨w₁, work, prepared, worked, made⟩ : ∃ w₁ work, Prepared board.chips w₂ w₁ ∧ _ :=
    programXSpi_makes rfl rfl (spans_shifted (recorded_spans all positive small)) ran
  have loaded : List.Forall₂ (Loaded (fileShift segments)) segments
      (withBytes w₂.stream (shiftedRecords (firstStart segments) p.recordList)) := by
    apply Recorded.loaded all _ upon more
    intro segment member
    have within := inFlash segment member
    omega
  have slave : w.slaveIndex = index := worked.slave.trans prepared.slave
  have old : (w₁.current board.chips).mem = (board.chips index).mem := by
    have kept := prepared.kept released w₁.slaveIndex
    rw [Flasher.current, kept, prepared.slave]
    rfl
  have new : (board.chips.after w.log index).mem = (w.current board.chips).mem := by
    rw [Flasher.current, slave]
    rfl
  rw [new, worked.mem, imageAfter_eq, made, startLoc, old]
  exact image_runCalls laid inFlash loaded

end Upgrade

/-- The segments of the file with two records. -/
def twoSegmentsOfFile : List Segment :=
  [⟨1, 0, [0, 1, 2, 3, 4, 5, 6, 7, 8, 9, 10, 11, 12, 13, 14, 15] ++ [0xAA, 0xBB]⟩,
    ⟨3, 0, [0xDE, 0xAD, 0xBE, 0xEF, 0xDE, 0xAD, 0xBE, 0xEF, 0xDE, 0xAD, 0xBE, 0xEF, 0xDE, 0xAD,
      0xBE, 0xEF] ++ [0x7F]⟩]

theorem twoRecordFile_wellFormed : McsFile twoSegmentsOfFile twoRecordFile := by
  have line : ∀ {type place : Nat} {data : List Byte} {text : List Char},
      (Spells 2 (text.take 2) data.length ∧ Spells 4 ((text.drop 2).take 4) place ∧
        Spells 2 ((text.drop 6).take 2) type ∧
        SpellsBytes ((text.drop 8).take (2 * data.length)) data ∧
        '\n' ∉ text.drop (8 + 2 * data.length)) → McsLine type place data (':' :: text) :=
    fun ⟨length, address, kind, field, check⟩ => .of_parts length address kind field check
  have lower : SegmentLines ⟨1, 0, _⟩ _ :=
    .intro rfl (line (by decide) : McsLine 4 0 [0, 1] ":020000040001F9".toList)
      (.more rfl (line (by decide +kernel) : McsLine 0 0
          [0, 1, 2, 3, 4, 5, 6, 7, 8, 9, 10, 11, 12, 13, 14, 15]
          ":10000000000102030405060708090A0B0C0D0E0F78".toList)
        (.last (by decide) (by decide)
          (line (by decide) : McsLine 0 16 [0xAA, 0xBB] ":02001000AABB89".toList)))
  have upper : SegmentLines ⟨3, 0, _⟩ _ :=
    .intro rfl (line (by decide) : McsLine 4 0 [0, 3] ":020000040003F7".toList)
      (.more rfl (line (by decide +kernel) : McsLine 0 0
          [0xDE, 0xAD, 0xBE, 0xEF, 0xDE, 0xAD, 0xBE, 0xEF, 0xDE, 0xAD, 0xBE, 0xEF, 0xDE, 0xAD,
            0xBE, 0xEF] ":10000000DEADBEEFDEADBEEFDEADBEEFDEADBEEF10".toList)
        (.last (by decide) (by decide)
          (line (by decide) : McsLine 0 16 [0x7F] ":010010007F70".toList)))
  have closing : FileLines [] _ :=
    .last (line (by decide) : McsLine 1 0 [] ":00000001FF".toList)
  exact ⟨_, .segment lower (.segment upper closing), .inr (by decide +kernel)⟩

/-- A card whose flashes have been used before. -/
def Board.used : Board := ⟨fun _ => ⟨fun x => .ofNat 8 (7 * x), 0, false, none⟩, .new true⟩

theorem upgrade_leaves_image_two : ∃ w,
    xclUpgradeFirmwareXSpi .calm (some twoRecordFile) .second Board.used.begin = .ok () w ∧
      Image twoSegmentsOfFile (Board.used.chips .second).mem
        (Board.used.chips.after w.log .second).mem := by
  have ran : succeeds
      (xclUpgradeFirmwareXSpi .calm (some twoRecordFile) .second Board.used.begin) = true := by
    decide +kernel
  have sectors : (endState (xclUpgradeFirmwareXSpi .calm (some twoRecordFile) .second
      Board.used.begin)).maxNumSectors = 4 := by
    decide +kernel
  obtain ⟨w, ok⟩ := exists_of_succeeds ran
  rw [ok] at sectors
  change w.maxNumSectors = 4 at sectors
  have laid : Laid twoSegmentsOfFile := by
    constructor
    · exact List.cons_ne_nil _ _
    · decide
    · decide
  have below : ∀ segment ∈ twoSegmentsOfFile, ∀ n < segment.data.length,
      segment.start + n + fileShift twoSegmentsOfFile < w.maxNumSectors * 2 ^ 24 := by
    rw [sectors]
    decide
  exact ⟨w, ok, upgrade_leaves_image twoRecordFile_wellFormed laid (fun _ => rfl) below ok⟩

end OpaeXilinx.Flash
