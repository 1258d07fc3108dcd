import OpaeXilinx.Flash.Guard
import OpaeXilinx.Flash.RunCalls

/-!
# Programming over erased flash

A page program can only clear bits, so each byte that it clears bits of has to be erased
before, and to be programmed once.  The erase loop sees to this for records that start at
a subsector and lie apart; from any other start its steps may end before the data do.
-/

namespace OpaeXilinx.Flash

open OpaeXilinx.Base

/-- The call programs a byte other than 0xFF at a place. -/
def Call.Sets (call : Call) (x : Nat) : Prop :=
  call.kind = .program ∧ ∃ i byte, call.data[i]? = some byte ∧ byte ≠ 0xFF ∧
    inPage (call.address % 2 ^ 28) i = x

/-- The call erases the subsector of a place. -/
def Call.Erases (call : Call) (x : Nat) : Prop :=
  call.kind = .erase ∧ x / subsectorSize = subsector call.address

/-- What is programmed has been erased by an earlier call. -/
def ErasedBefore (earlier calls : List Call) : Prop :=
  ∀ before call after, calls = before ++ call :: after → ∀ x, call.Sets x →
    ∃ erase ∈ earlier ++ before, erase.Erases x

/-- Every byte that is programmed has been erased, and has not been programmed before. -/
structure OverErased (calls : List Call) : Prop where
  erased : ErasedBefore [] calls
  once : calls.Pairwise fun earlier later => ∀ x, earlier.Sets x → ¬ later.Sets x

/-- The data have a byte other than 0xFF there. -/
def Programmed (data : List Byte) (n : Nat) : Prop := ∃ byte, data[n]? = some byte ∧ byte ≠ 0xFF

/-- Where the byte number `n` of a record goes: a half page stays in its page. -/
def ElaRecord.place (record : ElaRecord) (n : Nat) : Nat :=
  inPage (record.pageAddress (n / writeDataSize) % 2 ^ 28) (n % writeDataSize)

/-- The subsector of a place is one of those that the data count of the record fills, from
that of its start on. -/
def ElaRecord.Covers (record : ElaRecord) (x : Nat) : Prop :=
  ∃ i < (record.dataCount + (subsectorSize - 1)) / subsectorSize,
    x / subsectorSize = subsector (record.startAddress + subsectorSize * i)

/-- The guard has a byte other than 0xFF there. -/
def GuardAt (guardStart x : Nat) : Prop :=
  guardStart ≠ 0 ∧ ∃ i < writeDataSize, guardByte i ≠ 0xFF ∧
    inPage ((guardStart + writeDataSize) % 2 ^ 28) i = x

/-- The records, with their data, can be programmed without harm. -/
structure Suits (guardStart : Nat) (written : List (ElaRecord × List Byte)) : Prop where
  /-- The page of the guard does not lie behind the subsector that is erased for it. -/
  guard : guardStart ≠ 0 → guardStart % subsectorSize + writeDataSize < subsectorSize
  covered : ∀ entry ∈ written, ∀ n, Programmed entry.2 n →
    guardStart ≠ 0 ∧ entry.1.place n / subsectorSize = subsector guardStart ∨
      ∃ other ∈ written, other.1.Covers (entry.1.place n)
  unguarded : ∀ entry ∈ written, ∀ n, Programmed entry.2 n → ¬ GuardAt guardStart (entry.1.place n)
  apart : written.Pairwise fun one other => ∀ n m, Programmed one.2 n → Programmed other.2 m →
    one.1.place n ≠ other.1.place m
  /-- Addresses are cut off at 2^28; shorter records cannot meet themselves. -/
  own : ∀ entry ∈ written, ∀ n m, n + 2 ^ 27 ≤ m → Programmed entry.2 n → Programmed entry.2 m →
    entry.1.place n ≠ entry.1.place m

theorem Programmed.lt {data : List Byte} {n : Nat} (programmed : Programmed data n) :
    n < data.length := by
  obtain ⟨byte, here, -⟩ := programmed
  exact (List.getElem?_eq_some_iff.mp here).1

section Calls

variable {earlier first second calls : List Call} {x : Nat}

theorem erasedBefore_append : ErasedBefore earlier (first ++ second) ↔
    ErasedBefore earlier first ∧ ErasedBefore (earlier ++ first) second := by
  constructor
  · intro holds
    constructor
    · intro before call after same
      apply holds before call (after ++ second)
      rw [same, List.append_assoc, List.cons_append]
    · intro before call after same
      rw [List.append_assoc]
      apply holds (first ++ before) call after
      rw [same, List.append_assoc]
  · rintro ⟨one, two⟩ before call after same
    rcases List.append_eq_append_iff.mp same with ⟨more, rfl, rest⟩ | ⟨more, whole, rest⟩
    · rw [← List.append_assoc]
      exact two more call after rest
    · rcases List.cons_eq_append_iff.mp rest with ⟨rfl, here⟩ | ⟨more, rfl, -⟩
      · rw [List.append_nil] at whole
        rw [← whole, ← List.append_nil (earlier ++ first)]
        exact two [] call after here
      · exact one before call more whole

theorem erasedBefore_of_erases (erases : ∀ call ∈ calls, call.kind = .erase) :
    ErasedBefore earlier calls := by
  rintro before call after rfl x ⟨isProgram, -⟩
  have isErase := erases call (List.mem_append_right _ List.mem_cons_self)
  cases isErase.symm.trans isProgram

/-- Page programs erase nothing. -/
theorem erasedBefore_programs (programs : ∀ call ∈ calls, call.kind = .program) :
    ErasedBefore earlier calls ↔
      ∀ call ∈ calls, ∀ x, call.Sets x → ∃ erase ∈ earlier, erase.Erases x := by
  constructor
  · intro holds call member x sets
    obtain ⟨before, after, rfl⟩ := List.append_of_mem member
    obtain ⟨erase, found, erases⟩ := holds before call after rfl x sets
    refine ⟨erase, (List.mem_append.mp found).resolve_right fun inside => ?_, erases⟩
    have isProgram := programs erase (List.mem_append_left _ inside)
    cases isProgram.symm.trans erases.1
  · rintro holds before call after rfl x sets
    obtain ⟨erase, found, erases⟩ := holds call (List.mem_append_right _ List.mem_cons_self) x sets
    exact ⟨erase, List.mem_append_left _ found, erases⟩

theorem not_sets_of_erase {call : Call} (isErase : call.kind = .erase) : ¬ call.Sets x := by
  rintro ⟨isProgram, -⟩
  cases isErase.symm.trans isProgram

theorem kind_of_mem_erases {sectors first count : Nat} {call : Call}
    (member : call ∈ erases sectors first count) : call.kind = .erase := by
  obtain ⟨i, -, rfl⟩ := List.mem_map.mp member
  rfl

theorem exists_mem_erases {sectors : Nat} {record : ElaRecord} :
    (∃ erase ∈ erases sectors record.startAddress record.dataCount, erase.Erases x) ↔
      record.Covers x := by
  simp only [erases, List.mem_map, List.mem_range, ElaRecord.Covers]
  constructor
  · rintro ⟨_, ⟨i, inside, rfl⟩, -, same⟩
    exact ⟨i, inside, same⟩
  · rintro ⟨i, inside, same⟩
    exact ⟨_, ⟨i, inside, rfl⟩, rfl, same⟩

theorem kind_of_mem_halfPages {record : ElaRecord} {sectors : Nat} {data : List Byte} {call : Call}
    (member : call ∈ halfPages record sectors data) : call.kind = .program := by
  obtain ⟨k, -, rfl⟩ := List.mem_map.mp member
  rfl

variable {record : ElaRecord} {sectors : Nat} {data : List Byte}

/-- A byte of the data in its half page. -/
theorem getElem?_halfPage {n : Nat} {byte : Byte} (here : data[n]? = some byte) :
    (halfPage record sectors data (n / writeDataSize)).data[n % writeDataSize]? = some byte := by
  have inside : n % writeDataSize < writeDataSize := Nat.mod_lt _ (by decide)
  simp only [halfPage, List.getElem?_map, List.getElem?_range inside, Option.map_some,
    List.getD_eq_getElem?_getD, Nat.div_add_mod, here, Option.getD_some]

theorem halfPage_mem {n : Nat} (inside : n < data.length) :
    halfPage record sectors data (n / writeDataSize) ∈ halfPages record sectors data := by
  apply List.mem_map_of_mem
  rw [List.mem_range]
  simp only [writeDataSize]
  omega

theorem halfPage_sets {k : Nat} : (halfPage record sectors data k).Sets x ↔
    ∃ n, n / writeDataSize = k ∧ Programmed data n ∧ record.place n = x := by
  constructor
  · rintro ⟨-, i, byte, here, other, same⟩
    simp only [halfPage, List.getElem?_map, Option.map_eq_some_iff] at here same
    obtain ⟨_, inRange, isByte⟩ := here
    obtain ⟨inside, rfl⟩ := List.getElem?_eq_some_iff.mp inRange
    rw [List.length_range] at inside
    rw [List.getElem_range, List.getD_eq_getElem?_getD] at isByte
    have quotient : (writeDataSize * k + i) / writeDataSize = k := by
      simp only [writeDataSize] at inside ⊢
      omega
    have remainder : (writeDataSize * k + i) % writeDataSize = i := by
      simp only [writeDataSize] at inside ⊢
      omega
    refine ⟨writeDataSize * k + i, quotient, ?_, ?_⟩
    · cases found : data[writeDataSize * k + i]? with
      | none =>
          rw [found] at isByte
          exact absurd isByte.symm other
      | some value =>
          rw [found] at isByte
          cases isByte
          exact ⟨_, found, other⟩
    · rw [ElaRecord.place, quotient, remainder]
      exact same
  · rintro ⟨n, rfl, ⟨byte, here, other⟩, rfl⟩
    exact ⟨rfl, n % writeDataSize, byte, getElem?_halfPage here, other, rfl⟩

theorem exists_mem_halfPages :
    (∃ call ∈ halfPages record sectors data, call.Sets x) ↔
      ∃ n, Programmed data n ∧ record.place n = x := by
  constructor
  · rintro ⟨_, member, sets⟩
    obtain ⟨k, -, rfl⟩ := List.mem_map.mp member
    obtain ⟨n, -, programmed, same⟩ := halfPage_sets.mp sets
    exact ⟨n, programmed, same⟩
  · rintro ⟨n, programmed, same⟩
    exact ⟨_, halfPage_mem programmed.lt, halfPage_sets.mpr ⟨n, rfl, programmed, same⟩⟩

theorem exists_page_sets (sectors : Nat) {n : Nat} (programmed : Programmed data n) :
    ∃ call ∈ halfPages record sectors data, call.Sets (record.place n) :=
  exists_mem_halfPages.mpr ⟨n, programmed, rfl⟩

/-- Bytes of two half pages that are not far from each other go to different places. -/
theorem place_ne {n m : Nat} (different : n / writeDataSize < m / writeDataSize)
    (near : m < n + 2 ^ 27) : record.place n ≠ record.place m := by
  intro same
  have page := congrArg (· / pageSize) same
  simp only [ElaRecord.place, inPage_div_pageSize] at page
  simp only [ElaRecord.place, inPage, ElaRecord.pageAddress, u32, writeDataSize, pageSize]
    at same page different
  omega

/-- Two half pages of a record meet only if they are far from each other. -/
theorem pairwise_halfPages :
    ((halfPages record sectors data).Pairwise fun earlier later =>
      ∀ x, earlier.Sets x → ¬ later.Sets x) ↔
      ∀ n m, n + 2 ^ 27 ≤ m → Programmed data n → Programmed data m →
        record.place n ≠ record.place m := by
  rw [halfPages, List.pairwise_map, List.pairwise_iff_getElem]
  simp only [List.length_range, List.getElem_range, halfPage_sets]
  constructor
  · intro pairwise n m far one two same
    obtain ⟨byte, here, other⟩ := two
    obtain ⟨inside, -⟩ := List.getElem?_eq_some_iff.mp here
    refine pairwise (n / writeDataSize) (m / writeDataSize) ?_ ?_ ?_ (record.place n)
      ⟨n, rfl, one, rfl⟩ ⟨m, rfl, ⟨byte, here, other⟩, same.symm⟩
    all_goals
      simp only [writeDataSize]
      omega
  · rintro own k l - - less x ⟨n, rfl, one, same⟩ ⟨m, rfl, two, rfl⟩
    by_cases far : n + 2 ^ 27 ≤ m
    · exact own n m far one two same
    · exact place_ne less (Nat.lt_of_not_le far) same

/-- A record that starts at a subsector covers the bytes that have been counted for it. -/
theorem ElaRecord.covers_own {n : Nat} (aligned : record.startAddress % subsectorSize = 0)
    (counted : n < record.dataCount) : record.Covers (record.place n) := by
  refine ⟨n / subsectorSize, ?_, ?_⟩
  · simp only [subsectorSize]
    omega
  · rw [ElaRecord.place, inPage_div_subsectorSize]
    simp only [subsector, pageAddress, u32, subsectorSize, writeDataSize] at aligned ⊢
    omega

end Calls

section Guard

variable {guardStart sectors x : Nat}

theorem guardPage_sets (guarded : guardStart ≠ 0) :
    (guardPage sectors guardStart).Sets x ↔ GuardAt guardStart x := by
  have effective :
      u32 (guardStart + writeDataSize) % 2 ^ 28 = (guardStart + writeDataSize) % 2 ^ 28 :=
    Nat.mod_mod_of_dvd _ (Nat.pow_dvd_pow 2 (by decide))
  simp only [Call.Sets, guardPage, effective, GuardAt, true_and]
  constructor
  · rintro ⟨i, byte, here, other, same⟩
    rw [List.getElem?_map, Option.map_eq_some_iff] at here
    obtain ⟨_, inRange, rfl⟩ := here
    obtain ⟨inside, rfl⟩ := List.getElem?_eq_some_iff.mp inRange
    rw [List.length_range] at inside
    rw [List.getElem_range] at other
    exact ⟨guarded, i, inside, other, same⟩
  · rintro ⟨-, i, inside, other, same⟩
    refine ⟨i, guardByte i, ?_, other, same⟩
    rw [List.getElem?_map, List.getElem?_range inside]
    rfl

/-- The page of the guard lies in the subsector that has been erased for it. -/
theorem setting_erased : ErasedBefore [] (settingCalls sectors guardStart) ↔
    (guardStart ≠ 0 → guardStart % subsectorSize + writeDataSize < subsectorSize) := by
  rw [settingCalls]
  split
  next guarded =>
    have programs :
      ∀ call ∈ [guardPage sectors guardStart], call.kind = .program := by simp [guardPage]
    rw [← List.singleton_append, erasedBefore_append, List.nil_append,
      erasedBefore_programs programs]
    simp only [List.mem_singleton, forall_eq, exists_eq_left, guardPage_sets guarded]
    constructor
    · rintro ⟨-, covered⟩ -
      have at4 : guardByte 4 ≠ 0xFF := by decide
      obtain ⟨-, same⟩ := covered _ ⟨guarded, 4, by decide, at4, rfl⟩
      rw [inPage_div_subsectorSize] at same
      simp only [subsector, subsectorSize, writeDataSize] at same ⊢
      omega
    · intro fits
      refine ⟨erasedBefore_of_erases (by simp), ?_⟩
      rintro _ ⟨-, i, -, -, rfl⟩
      refine ⟨rfl, ?_⟩
      have inside := fits guarded
      rw [inPage_div_subsectorSize]
      simp only [subsector, subsectorSize, writeDataSize] at inside ⊢
      omega
  next unguarded =>
    exact ⟨fun _ guarded => absurd guarded unguarded, fun _ =>
      erasedBefore_of_erases (by simp)⟩

theorem exists_setting_sets :
    (∃ call ∈ settingCalls sectors guardStart, call.Sets x) ↔ GuardAt guardStart x := by
  rw [settingCalls]
  split
  next guarded =>
    have page : (guardPage sectors guardStart).Sets x ↔ _ := guardPage_sets guarded
    simp [not_sets_of_erase, page]
  next unguarded =>
    simp [GuardAt, not_not.mp unguarded]

theorem exists_setting_erases : (∃ erase ∈ settingCalls sectors guardStart, erase.Erases x) ↔
    guardStart ≠ 0 ∧ x / subsectorSize = subsector guardStart := by
  rw [settingCalls]
  split
  next guarded => simp [Call.Erases, guardPage, guarded]
  next unguarded => simp [not_not.mp unguarded]

end Guard

/-! ## Runs -/

section Runs

variable {guardStart sectors x : Nat} {written : List (ElaRecord × List Byte)}

/-- What is erased before the records are programmed. -/
theorem exists_erases :
    (∃ erase ∈ settingCalls sectors guardStart ++
        written.flatMap fun entry => erases sectors entry.1.startAddress entry.1.dataCount,
      erase.Erases x) ↔
      guardStart ≠ 0 ∧ x / subsectorSize = subsector guardStart ∨
        ∃ other ∈ written, other.1.Covers x := by
  constructor
  · rintro ⟨erase, member, erases⟩
    rcases List.mem_append.mp member with setting | loop
    · exact .inl (exists_setting_erases.mp ⟨erase, setting, erases⟩)
    · obtain ⟨other, inList, member⟩ := List.mem_flatMap.mp loop
      exact .inr ⟨other, inList, exists_mem_erases.mp ⟨erase, member, erases⟩⟩
  · rintro (guard | ⟨other, inList, covers⟩)
    · obtain ⟨erase, setting, erases⟩ := exists_setting_erases.mpr guard
      exact ⟨erase, List.mem_append_left _ setting, erases⟩
    · obtain ⟨erase, member, erases⟩ := exists_mem_erases.mpr covers
      exact ⟨erase, List.mem_append_right _ (List.mem_flatMap.mpr ⟨other, inList, member⟩), erases⟩

theorem kind_of_mem_clearing {call : Call} (member : call ∈ clearingCalls sectors guardStart) :
    call.kind = .erase := by
  rw [clearingCalls] at member
  split at member
  · rw [List.mem_singleton.mp member]
  · cases member

theorem kind_of_mem_loop {call : Call}
    (member : call ∈ written.flatMap fun entry =>
      erases sectors entry.1.startAddress entry.1.dataCount) :
    call.kind = .erase := by
  obtain ⟨entry, -, inErases⟩ := List.mem_flatMap.mp member
  exact kind_of_mem_erases inErases

theorem kind_of_mem_pages {call : Call}
    (member : call ∈ written.flatMap fun entry => halfPages entry.1 sectors entry.2) :
    call.kind = .program := by
  obtain ⟨entry, -, inPages⟩ := List.mem_flatMap.mp member
  exact kind_of_mem_halfPages inPages

theorem runCalls_erased : ErasedBefore [] (runCalls sectors guardStart written) ↔
    (guardStart ≠ 0 → guardStart % subsectorSize + writeDataSize < subsectorSize) ∧
      ∀ entry ∈ written, ∀ n, Programmed entry.2 n →
        guardStart ≠ 0 ∧ entry.1.place n / subsectorSize = subsector guardStart ∨
          ∃ other ∈ written, other.1.Covers (entry.1.place n) := by
  rw [runCalls, erasedBefore_append, erasedBefore_append, erasedBefore_append, setting_erased,
    List.nil_append, List.nil_append, erasedBefore_programs fun _ => kind_of_mem_pages]
  constructor
  · rintro ⟨⟨⟨fits, -⟩, covered⟩, -⟩
    refine ⟨fits, fun entry inList n programmed => ?_⟩
    obtain ⟨call, inPages, sets⟩ := exists_page_sets sectors programmed
    exact exists_erases.mp (covered call (List.mem_flatMap.mpr ⟨entry, inList, inPages⟩) _ sets)
  · rintro ⟨fits, covered⟩
    refine ⟨⟨⟨fits, erasedBefore_of_erases fun _ => kind_of_mem_loop⟩, ?_⟩,
      erasedBefore_of_erases fun _ => kind_of_mem_clearing⟩
    intro call member x sets
    obtain ⟨entry, inList, inPages⟩ := List.mem_flatMap.mp member
    obtain ⟨n, programmed, rfl⟩ := exists_mem_halfPages.mp ⟨call, inPages, sets⟩
    exact exists_erases.mpr (covered entry inList n programmed)

theorem pairwise_of_erases {calls : List Call} (erases : ∀ call ∈ calls, call.kind = .erase) :
    calls.Pairwise fun earlier later => ∀ x, earlier.Sets x → ¬ later.Sets x :=
  List.pairwise_of_forall_mem_list fun call member _ _ _ sets =>
    absurd sets (not_sets_of_erase (erases call member))

theorem pairwise_setting : (settingCalls sectors guardStart).Pairwise fun earlier later =>
    ∀ x, earlier.Sets x → ¬ later.Sets x := by
  rw [settingCalls]
  split
  next guarded => simp [not_sets_of_erase]
  next unguarded => exact .nil

/-- The half pages of all records. -/
theorem pairwise_pages :
    ((written.flatMap fun entry => halfPages entry.1 sectors entry.2).Pairwise fun earlier later =>
      ∀ x, earlier.Sets x → ¬ later.Sets x) ↔
      (∀ entry ∈ written, ∀ n m, n + 2 ^ 27 ≤ m → Programmed entry.2 n → Programmed entry.2 m →
        entry.1.place n ≠ entry.1.place m) ∧
      written.Pairwise fun one other => ∀ n m, Programmed one.2 n → Programmed other.2 m →
        one.1.place n ≠ other.1.place m := by
  rw [List.pairwise_flatMap]
  refine and_congr (forall₂_congr fun _ _ => pairwise_halfPages) ?_
  constructor
  · refine List.Pairwise.imp fun {one other} pairwise n m first second same => ?_
    obtain ⟨call, member, sets⟩ := exists_page_sets sectors first
    obtain ⟨call', member', sets'⟩ := exists_page_sets sectors second
    rw [← same] at sets'
    exact pairwise call member call' member' _ sets sets'
  · refine List.Pairwise.imp fun {one other} apart call member call' member' x sets sets' => ?_
    obtain ⟨n, first, rfl⟩ := exists_mem_halfPages.mp ⟨call, member, sets⟩
    obtain ⟨m, second, same⟩ := exists_mem_halfPages.mp ⟨call', member', sets'⟩
    exact apart n m first second same.symm

theorem runCalls_once :
    ((runCalls sectors guardStart written).Pairwise fun earlier later =>
      ∀ x, earlier.Sets x → ¬ later.Sets x) ↔
      (∀ entry ∈ written, ∀ n, Programmed entry.2 n → ¬ GuardAt guardStart (entry.1.place n)) ∧
        (∀ entry ∈ written, ∀ n m, n + 2 ^ 27 ≤ m → Programmed entry.2 n → Programmed entry.2 m →
          entry.1.place n ≠ entry.1.place m) ∧
        written.Pairwise fun one other => ∀ n m, Programmed one.2 n → Programmed other.2 m →
          one.1.place n ≠ other.1.place m := by
  rw [runCalls, List.pairwise_append, List.pairwise_append, List.pairwise_append, pairwise_pages]
  constructor
  · rintro ⟨⟨-, pages, guard⟩, -⟩
    refine ⟨fun entry inList n programmed guarded => ?_, pages⟩
    obtain ⟨call, setting, sets⟩ := exists_setting_sets.mpr guarded
    obtain ⟨page, inPages, sets'⟩ := exists_page_sets sectors programmed
    exact guard call (List.mem_append_left _ setting) page
      (List.mem_flatMap.mpr ⟨entry, inList, inPages⟩) _ sets sets'
  · rintro ⟨unguarded, pages⟩
    refine ⟨⟨⟨pairwise_setting, pairwise_of_erases fun _ => kind_of_mem_loop, ?_⟩, pages, ?_⟩,
      pairwise_of_erases fun _ => kind_of_mem_clearing, ?_⟩
    · exact fun _ _ erase member _ _ => not_sets_of_erase (kind_of_mem_loop member)
    · intro call member page inPages x sets sets'
      rcases List.mem_append.mp member with setting | loop
      · obtain ⟨entry, inList, inPages⟩ := List.mem_flatMap.mp inPages
        obtain ⟨n, programmed, rfl⟩ := exists_mem_halfPages.mp ⟨page, inPages, sets'⟩
        exact unguarded entry inList n programmed (exists_setting_sets.mp ⟨call, setting, sets⟩)
      · exact not_sets_of_erase (kind_of_mem_loop loop) sets
    · exact fun _ _ erase member _ _ => not_sets_of_erase (kind_of_mem_clearing member)

theorem overErased_runCalls :
    OverErased (runCalls sectors guardStart written) ↔ Suits guardStart written := by
  constructor
  · rintro ⟨erased, once⟩
    obtain ⟨guard, covered⟩ := runCalls_erased.mp erased
    obtain ⟨unguarded, own, apart⟩ := runCalls_once.mp once
    exact ⟨guard, covered, unguarded, apart, own⟩
  · rintro ⟨guard, covered, unguarded, apart, own⟩
    exact ⟨runCalls_erased.mpr ⟨guard, covered⟩, runCalls_once.mpr ⟨unguarded, own, apart⟩⟩

variable {env : Env} {w₀ w : Flasher} {records : List ElaRecord}

theorem spans_shifted (spans : ∀ record ∈ records,
      record.endAddress = record.startAddress + record.dataCount ∧
        record.endAddress + shiftOf guardStart < 2 ^ 32) :
    ∀ record ∈ shiftedRecords guardStart records, Spans record := by
  intro record member
  obtain ⟨original, inList, rfl⟩ := List.mem_map.mp member
  obtain ⟨ends, small⟩ := spans original inList
  constructor
  · simp only [ElaRecord.shifted, u32]
    omega
  · exact Nat.mod_lt _ (Nat.two_pow_pos 32)

theorem callsOf_run (outside : w₀.during = none) (blank : w₀.log = [])
    (spans : ∀ record ∈ records, record.endAddress = record.startAddress + record.dataCount ∧
      record.endAddress + shiftOf w₀.bitstreamStartLoc < 2 ^ 32)
    (ok : programXSpi env records w₀ = .ok () w) :
    ∃ sectors, callsOf (notes w.log) = runCalls sectors w₀.bitstreamStartLoc
      (withBytes w₀.stream (shiftedRecords w₀.bitstreamStartLoc records)) := by
  obtain ⟨w₁, work, prepared, worked, made⟩ : ∃ w₁ work, Prepared Board.blank.chips w₀ w₁ ∧ _ :=
    programXSpi_makes outside blank (spans_shifted spans) ok
  refine ⟨w₁.maxNumSectors, ?_⟩
  rw [worked.noted, prepared.noted, blank, ← made]
  exact congrArg callsOf (List.append_nil work)

/-- In a run that succeeds, every byte that is programmed has been erased before and has not
been programmed before exactly if the records suit the erase loop. -/
theorem programs_over_erased_iff (outside : w₀.during = none) (blank : w₀.log = [])
    (spans : ∀ record ∈ records, record.endAddress = record.startAddress + record.dataCount ∧
      record.endAddress + shiftOf w₀.bitstreamStartLoc < 2 ^ 32)
    (ok : programXSpi env records w₀ = .ok () w) :
    OverErased (callsOf (notes w.log)) ↔
      Suits w₀.bitstreamStartLoc
        (withBytes w₀.stream (shiftedRecords w₀.bitstreamStartLoc records)) := by
  obtain ⟨sectors, made⟩ := callsOf_run outside blank spans ok
  rw [made, overErased_runCalls]

end Runs

/-- The flasher before it programs a file whose first record starts there. -/
def Flasher.reading (text : List Char) (guardStart : Nat) : Flasher :=
  { Flasher.new true with stream := .ofText text, bitstreamStartLoc := guardStart }

def succeeds (result : EStateM.Result Stop Flasher Unit) : Bool :=
  match result with
  | .ok _ _ => true
  | .error _ _ => false

theorem exists_of_succeeds {result : EStateM.Result Stop Flasher Unit}
    (ran : succeeds result = true) :
    ∃ w, result = .ok () w := by
  cases result with
  | ok _ w => exact ⟨w, rfl⟩
  | error _ _ => cases ran

/-- Of short records, every byte may be looked at. -/
theorem Suits.of_short {guardStart : Nat} {written : List (ElaRecord × List Byte)}
    (guard : guardStart ≠ 0 → guardStart % subsectorSize + writeDataSize < subsectorSize)
    (short : ∀ entry ∈ written, entry.2.length ≤ 2 ^ 27)
    (covered : ∀ entry ∈ written, ∀ n < entry.2.length,
      ∃ other ∈ written, other.1.Covers (entry.1.place n))
    (unguarded : ∀ entry ∈ written, ∀ n < entry.2.length,
      entry.1.place n / subsectorSize ≠ subsector (guardStart + writeDataSize))
    (apart : written.Pairwise fun one other => ∀ n < one.2.length, ∀ m < other.2.length,
      one.1.place n ≠ other.1.place m) : Suits guardStart written := by
  refine ⟨guard, fun entry member n programmed => .inr (covered entry member n programmed.lt), ?_,
    apart.imp fun free n m one other => free n one.lt m other.lt, ?_⟩
  · rintro entry member n programmed ⟨-, i, -, -, same⟩
    apply unguarded entry member n programmed.lt
    rw [← same, inPage_div_subsectorSize]
    rfl
  · intro entry member n m far _ programmed
    have := short entry member
    have := programmed.lt
    omega

/-- The flasher when it begins to program the two records. -/
def readingTwo : Flasher := .reading twoRecordFile 0x10000

theorem twoRecords_suit :
    Suits 0x10000 (withBytes readingTwo.stream (shiftedRecords 0x10000 twoRecords)) := by
  have read : withBytes readingTwo.stream (shiftedRecords 0x10000 twoRecords) =
      [(lowerRecord.shifted 0x1000, (List.range 16).map (.ofNat 8) ++ [0xAA, 0xBB]),
        (upperRecord.shifted 0x1000,
          (List.replicate 4 [0xDE, 0xAD, 0xBE, 0xEF]).flatten ++ [0x7F])] := by
    decide +kernel
  rw [read]
  refine .of_short (by decide) (by decide) ?_ (by decide +kernel) (by decide +kernel)
  simp only [ElaRecord.Covers]
  decide +kernel

theorem programs_over_erased_two : ∃ w,
    programXSpi .calm twoRecords readingTwo = .ok () w ∧
      (callsOf (notes w.log)).length = 7 ∧ OverErased (callsOf (notes w.log)) := by
  have ran : succeeds (programXSpi .calm twoRecords readingTwo) = true := by decide +kernel
  have many : (callsOf (notes (endState (programXSpi .calm twoRecords readingTwo)).log)).length =
      7 := by decide +kernel
  obtain ⟨w, ok⟩ := exists_of_succeeds ran
  rw [ok] at many
  have spans :
    ∀ record ∈ twoRecords, record.endAddress = record.startAddress + record.dataCount ∧
      record.endAddress + shiftOf 0x10000 < 2 ^ 32 := by decide
  exact ⟨w, ok, many, (programs_over_erased_iff rfl rfl spans ok).mpr twoRecords_suit⟩

/-- A line of 16 bytes of zero. -/
def zeroLine (head check : String) : List Char :=
  ":10".toList ++ head.toList ++ List.replicate 32 '0' ++ check.toList ++ ['\n']

/-- 129 bytes of zero from 0x10F80 on. -/
def unalignedFile : List Char :=
  ":020000040001F9\n".toList ++ zeroLine "0F8000" "61" ++ zeroLine "0F9000" "51" ++
    zeroLine "0FA000" "41" ++ zeroLine "0FB000" "31" ++ zeroLine "0FC000" "21" ++
    zeroLine "0FD000" "11" ++ zeroLine "0FE000" "01" ++ zeroLine "0FF000" "F1" ++
    ":0110000000EF\n:00000001FF\n".toList

/-- The erase loop takes one step for the record, whose last byte lies in the next subsector. -/
theorem last_byte_programmed_unerased : ∃ env w₀ records w,
    w₀.during = none ∧ w₀.log = [] ∧ records ≠ [] ∧
      (∀ record ∈ records, record.endAddress = record.startAddress + record.dataCount ∧
        record.endAddress + shiftOf w₀.bitstreamStartLoc < 2 ^ 32) ∧
      programXSpi env records w₀ = .ok () w ∧ ¬ OverErased (callsOf (notes w.log)) := by
  let record : ElaRecord := ⟨0x10F80, 0x11001, 129, 16, []⟩
  let shifted : ElaRecord := ⟨0x11F80, 0x12001, 129, 16, []⟩
  obtain ⟨w, ok⟩ := exists_of_succeeds
    (by decide +kernel : succeeds (programXSpi .calm [record]
      (.reading unalignedFile 0x10F80)) = true)
  have spans : ∀ other ∈ [record], other.endAddress = other.startAddress + other.dataCount ∧
      other.endAddress + shiftOf 0x10F80 < 2 ^ 32 := by
    simp [record, shiftOf, bitstreamGuardSize]
  have read : withBytes (.ofText unalignedFile) (shiftedRecords 0x10F80 [record]) =
      [(shifted, List.replicate 129 0)] := by decide +kernel
  refine ⟨.calm, _, [record], w, rfl, rfl, List.cons_ne_nil _ _, spans, ok, fun holds => ?_⟩
  obtain ⟨sectors, made⟩ := callsOf_run rfl rfl spans ok
  rw [made, overErased_runCalls] at holds
  have suits : Suits 0x10F80 [(shifted, List.replicate 129 0)] := read ▸ holds
  rcases suits.covered _ List.mem_cons_self 128 ⟨0, by decide, by decide⟩ with
    ⟨-, same⟩ | ⟨_, _ | ⟨_, ⟨⟩⟩, i, inside, same⟩
  · exact absurd same (by decide)
  · obtain rfl : i = 0 := by simpa [shifted, subsectorSize] using inside
    exact absurd same (by decide)

end OpaeXilinx.Flash
