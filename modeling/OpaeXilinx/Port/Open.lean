import Mathlib.Algebra.BigOperators.Ring.Finset
import OpaeXilinx.Base.Transition
import OpaeXilinx.Port.DmaRegion

/-!
# Opening and closing a port

A port counts its open files and keeps a list of the tasks that have opened them, so that
these can be told when the card is removed.  A file is entered under the task that opens it
and taken out under the task that closes it, which need not be the same one: it may be another
process, or another thread of the same process.

`afu_open` takes the port's lock twice, with nothing held in between; `afu_release` takes
it once.
-/

namespace OpaeXilinx.Port

open OpaeXilinx.Base

/-- A task, as `task_pid(current)` tells it: the `struct pid` of the calling thread. -/
abbrev Task := Nat

/-- `struct pid_info`. -/
structure PidInfo where
  pid : Task
  count : Int
  deriving DecidableEq, Repr

/-- The part of `struct feature_platform_data` that is about the users of a port. -/
structure PortData where
  exclOpen : Bool
  openCount : Int
  unplug : Bool
  pidList : List PidInfo
  deriving DecidableEq, Repr

def PortData.new : PortData := ⟨false, 0, false, []⟩

def featureDevUseExclBegin (d : PortData) : Except Errno Unit × PortData :=
  if d.openCount ≠ 0 ∨ d.unplug = true then (.error .ebusy, d)
  else (.ok (), { d with exclOpen := true, openCount := d.openCount + 1 })

def featureDevUseBegin (d : PortData) : Except Errno Unit × PortData :=
  if d.exclOpen = true ∨ d.unplug = true then (.error .ebusy, d)
  else (.ok (), { d with openCount := d.openCount + 1 })

def featureDevUseEnd (d : PortData) : PortData :=
  { d with exclOpen := false, openCount := d.openCount - 1 }

/-- Count another open file of a task that is in the list. -/
def countOpen (pid : Task) : List PidInfo → Option (List PidInfo)
  | [] => none
  | info :: rest =>
      if info.pid = pid then some ({ info with count := info.count + 1 } :: rest)
      else (countOpen pid rest).map (info :: ·)

/-- The first half of `afu_open`. -/
def afuOpenBegin (excl : Bool) (d : PortData) : Except Errno Unit × PortData :=
  if excl then featureDevUseExclBegin d else featureDevUseBegin d

/-- The second half of `afu_open`, with the outcome of the allocation. -/
def afuOpenRecord (pid : Task) (allocated : Bool) (d : PortData) : Except Errno Unit × PortData :=
  match countOpen pid d.pidList with
  | some pidList => (.ok (), { d with pidList := pidList })
  | none =>
      if allocated then (.ok (), { d with pidList := ⟨pid, 1⟩ :: d.pidList })
      else (.error .enomem, featureDevUseEnd d)

def afuOpen (pid : Task) (excl allocated : Bool) (d : PortData) : Except Errno Unit × PortData :=
  match afuOpenBegin excl d with
  | (.error err, d) => (.error err, d)
  | (.ok _, d) => afuOpenRecord pid allocated d

/-- An entry after a file has been closed by a task; `none` if it is deleted. -/
def PidInfo.released (pid : Task) (info : PidInfo) : Option PidInfo :=
  if info.pid = pid then
    if info.count - 1 = 0 then none else some { info with count := info.count - 1 }
  else some info

def afuRelease (pid : Task) (d : PortData) : PortData :=
  let d := featureDevUseEnd d
  { d with pidList := d.pidList.filterMap (·.released pid) }

/-- The tasks that `cci_pci_remove` sends a signal. -/
def cciPciRemoveSignals (d : PortData) : List Task := d.pidList.map PidInfo.pid

/-- A port with the openers of its open files, and the tasks that are in the middle of
`afu_open`. -/
structure Opened where
  data : PortData
  opening : List Task
  files : List Task
  deriving DecidableEq, Repr

inductive OpenStep where
  | begin (task : Task) (excl : Bool)
  | record (task : Task) (allocated : Bool)
  | release (opener closer : Task)

/-- Only an open that has begun goes on, and only an open file is released. -/
def OpenStep.Possible (s : Opened) : OpenStep → Prop
  | .begin _ _ => True
  | .record task _ => task ∈ s.opening
  | .release opener _ => opener ∈ s.files

instance (s : Opened) : (label : OpenStep) → Decidable (label.Possible s)
  | .begin _ _ => .isTrue trivial
  | .record task _ => inferInstanceAs (Decidable (task ∈ s.opening))
  | .release opener _ => inferInstanceAs (Decidable (opener ∈ s.files))

def Opened.take (s : Opened) : OpenStep → Opened
  | .begin task excl => match afuOpenBegin excl s.data with
    | (.error _, d) => { s with data := d }
    | (.ok _, d) => { s with data := d, opening := task :: s.opening }
  | .record task allocated => match afuOpenRecord task allocated s.data with
    | (.error _, d) => { s with data := d, opening := s.opening.erase task }
    | (.ok _, d) => { data := d, opening := s.opening.erase task, files := task :: s.files }
  | .release opener closer =>
      { s with data := afuRelease closer s.data, files := s.files.erase opener }

def openSystem : System Opened OpenStep where
  init s := s = ⟨.new, [], []⟩
  step s label next := label.Possible s ∧ next = s.take label

/-- The list of tasks tells who has files open, and how many. -/
structure Booked (pidList : List PidInfo) (files : List Task) : Prop where
  unique : (pidList.map PidInfo.pid).Nodup
  entry : ∀ task, task ∈ pidList.map PidInfo.pid ↔ task ∈ files
  count : ∀ info ∈ pidList, info.count = files.count info.pid

/-- The books of a port are right, also in what they are used for, and also for any group of
tasks, such as the threads of a process. -/
structure BooksRight (s : Opened) : Prop where
  booked : Booked s.data.pidList s.files
  sum : (s.data.pidList.map PidInfo.count).sum = s.data.openCount
  empty : s.data.openCount = 0 → s.data.pidList = []
  signals : ∀ task, task ∈ cciPciRemoveSignals s.data ↔ task ∈ s.files
  group : ∀ among : Task → Bool, ((s.data.pidList.filter fun info => among info.pid).map
    PidInfo.count).sum = (s.files.filter among).length

/-- A file is released by the task that has opened it. -/
def ClosedByOpener (_ : Opened) : OpenStep → Prop
  | .release opener closer => closer = opener
  | _ => True

instance (s : Opened) : (label : OpenStep) → Decidable (ClosedByOpener s label)
  | .begin _ _ => .isTrue trivial
  | .record _ _ => .isTrue trivial
  | .release opener closer => inferInstanceAs (Decidable (closer = opener))

/-- An entry after another file has been opened by a task. -/
def PidInfo.opened (pid : Task) (info : PidInfo) : PidInfo :=
  if info.pid = pid then { info with count := info.count + 1 } else info

@[simp]
theorem PidInfo.opened_pid (pid : Task) (info : PidInfo) : (info.opened pid).pid = info.pid := by
  unfold PidInfo.opened
  split <;> rfl

theorem countOpen_none {pid : Task} {pidList : List PidInfo}
    (absent : countOpen pid pidList = none) :
    pid ∉ pidList.map PidInfo.pid := by
  induction pidList with
  | nil => simp
  | cons info rest ih =>
      simp only [countOpen] at absent
      split at absent
      · cases absent
      · rename_i other
        have notInRest := ih (Option.map_eq_none_iff.mp absent)
        simpa [Ne.symm other] using notInRest

theorem countOpen_some {pid : Task} {pidList next : List PidInfo}
    (unique : (pidList.map PidInfo.pid).Nodup) (found : countOpen pid pidList = some next) :
    next = pidList.map (·.opened pid) ∧ pid ∈ pidList.map PidInfo.pid := by
  induction pidList generalizing next with
  | nil => cases found
  | cons info rest ih =>
      rw [List.map_cons, List.nodup_cons] at unique
      obtain ⟨notInRest, unique⟩ := unique
      simp only [countOpen] at found
      split at found
      case isTrue same =>
        cases found
        -- no other entry is of this task
        have others : rest.map (·.opened pid) = rest.map id := by
          refine List.map_congr_left fun other member => if_neg fun isPid => notInRest ?_
          rw [same, ← isPid]
          exact List.mem_map_of_mem member
        have first : info.opened pid = { info with count := info.count + 1 } := if_pos same
        rw [List.map_cons, others, first, List.map_id]
        exact ⟨rfl, by simp [same]⟩
      case isFalse other =>
        obtain ⟨counted, inRest, rfl⟩ := Option.map_eq_some_iff.mp found
        obtain ⟨rfl, member⟩ := ih unique inRest
        exact ⟨by simp [PidInfo.opened, other], by simp [member]⟩

namespace Booked

variable {pidList : List PidInfo} {files : List Task} {task : Task}

/-- A task that has files open opens another one. -/
theorem opened (booked : Booked pidList files) (member : task ∈ pidList.map PidInfo.pid) :
    Booked (pidList.map (·.opened task)) (task :: files) := by
  have pids : (pidList.map (·.opened task)).map PidInfo.pid = pidList.map PidInfo.pid := by simp
  refine ⟨pids ▸ booked.unique, fun other => ?_, fun info inList => ?_⟩
  · rw [pids, booked.entry, List.mem_cons]
    constructor
    · exact .inr
    · rintro (rfl | inFiles)
      · exact (booked.entry _).mp member
      · exact inFiles
  · obtain ⟨before, inBefore, rfl⟩ := List.mem_map.mp inList
    have known := booked.count before inBefore
    by_cases same : before.pid = task
    · simp [PidInfo.opened, same, known]
    · simp [PidInfo.opened, same, known, List.count_cons_of_ne (Ne.symm same)]

/-- A task opens its first file. -/
theorem added (booked : Booked pidList files) (absent : task ∉ pidList.map PidInfo.pid) :
    Booked (⟨task, 1⟩ :: pidList) (task :: files) := by
  refine ⟨List.nodup_cons.mpr ⟨absent, booked.unique⟩, fun other => ?_, fun info inList => ?_⟩
  · simp only [List.map_cons, List.mem_cons, booked.entry]
  · rcases List.mem_cons.mp inList with rfl | inRest
    · have none : task ∉ files := fun member => absent ((booked.entry task).mpr member)
      simp [List.count_eq_zero_of_not_mem none]
    · have other : task ≠ info.pid := by
        rintro rfl
        exact absent (List.mem_map_of_mem inRest)
      rw [booked.count info inRest, List.count_cons_of_ne other]

theorem released_pid {info after : PidInfo} (kept : info.released task = some after) :
    after.pid = info.pid := by
  unfold PidInfo.released at kept
  split at kept
  · split at kept <;> cases kept
    rfl
  · cases kept
    rfl

theorem released_sublist (pidList : List PidInfo) :
    ((pidList.filterMap (·.released task)).map PidInfo.pid).Sublist (pidList.map PidInfo.pid) := by
  induction pidList with
  | nil => exact .slnil
  | cons info rest ih =>
      rw [List.map_cons, List.filterMap_cons]
      split
      · exact .cons _ ih
      · rename_i after kept
        rw [List.map_cons, released_pid kept]
        exact .cons_cons _ ih

/-- What becomes of an entry follows from the files that are left. -/
theorem released_eq (booked : Booked pidList files) {info : PidInfo} (member : info ∈ pidList) :
    info.released task = if (files.erase task).count info.pid = 0 then none
      else some ⟨info.pid, (files.erase task).count info.pid⟩ := by
  have known := booked.count info member
  have opener : 0 < files.count info.pid :=
    List.count_pos_iff.mpr ((booked.entry _).mp (List.mem_map_of_mem member))
  unfold PidInfo.released
  by_cases same : info.pid = task
  · subst same
    rw [if_pos rfl, List.count_erase_self, known]
    by_cases last : files.count info.pid = 1
    · simp [last]
    · rw [if_neg (by omega), if_neg (by omega)]
      simp only [Option.some.injEq, PidInfo.mk.injEq, true_and]
      omega
  · rw [if_neg same, List.count_erase_of_ne same, if_neg (by omega), ← known]

/-- A task closes one of its own files. -/
theorem released (booked : Booked pidList files) :
    Booked (pidList.filterMap (·.released task)) (files.erase task) := by
  refine ⟨booked.unique.sublist (released_sublist pidList), fun other => ?_, fun info inList => ?_⟩
  · constructor
    · intro inList
      obtain ⟨after, inAfter, rfl⟩ := List.mem_map.mp inList
      obtain ⟨info, member, kept⟩ := List.mem_filterMap.mp inAfter
      rw [booked.released_eq member] at kept
      split at kept <;> cases kept
      rename_i some
      exact List.count_pos_iff.mp (Nat.pos_of_ne_zero some)
    · intro isLeft
      have left := List.count_pos_iff.mpr isLeft
      have before : other ∈ files := List.mem_of_mem_erase isLeft
      obtain ⟨info, member, rfl⟩ := List.mem_map.mp ((booked.entry other).mpr before)
      refine List.mem_map.mpr ⟨⟨info.pid, (files.erase task).count info.pid⟩, ?_, rfl⟩
      refine List.mem_filterMap.mpr ⟨info, member, ?_⟩
      rw [booked.released_eq member, if_neg (by omega)]
  · obtain ⟨before, member, kept⟩ := List.mem_filterMap.mp inList
    rw [booked.released_eq member] at kept
    split at kept <;> cases kept
    rfl

/-- All open files are in the books. -/
theorem sum_eq (booked : Booked pidList files) :
    (pidList.map PidInfo.count).sum = files.length := by
  have counts : pidList.map PidInfo.count =
      (pidList.map PidInfo.pid).map fun task => (files.count task : Int) := by
    rw [List.map_map]
    exact List.map_congr_left booked.count
  have perm : (pidList.map PidInfo.pid).Perm files.dedup := by
    apply (List.perm_ext_iff_of_nodup booked.unique files.nodup_dedup).mpr
    intro task
    rw [booked.entry, List.mem_dedup]
  rw [counts, (perm.map _).sum_eq, ← List.sum_map_count_dedup_eq_length files]
  rw [Nat.cast_list_sum, List.map_map]
  rfl

/-- The entries of a group of tasks are about the files of the group. -/
theorem filter (booked : Booked pidList files) (among : Task → Bool) :
    Booked (pidList.filter fun info => among info.pid) (files.filter among) := by
  have pids : (pidList.filter fun info => among info.pid).map PidInfo.pid =
      (pidList.map PidInfo.pid).filter among := by
    rw [List.filter_map]
    rfl
  refine ⟨pids ▸ booked.unique.filter _, fun other => ?_, fun info inList => ?_⟩
  · rw [pids, List.mem_filter, List.mem_filter, booked.entry]
  · obtain ⟨member, inGroup⟩ := List.mem_filter.mp inList
    rw [booked.count info member, List.count_filter inGroup]

end Booked

/-- What holds between any two steps. -/
structure OpenInv (s : Opened) : Prop where
  booked : Booked s.data.pidList s.files
  openCount : s.data.openCount = s.files.length + s.opening.length

theorem OpenInv.begin {s : Opened} (inv : OpenInv s) (task : Task) (excl : Bool) :
    OpenInv (s.take (.begin task excl)) := by
  obtain ⟨booked, openCount⟩ := inv
  cases excl <;>
    simp only [Opened.take, afuOpenBegin, featureDevUseExclBegin, featureDevUseBegin, if_true,
      Bool.false_eq_true, if_false] <;> split_ifs <;> refine ⟨booked, ?_⟩ <;>
    simp only [List.length_cons] <;> omega

theorem OpenInv.record {s : Opened} (inv : OpenInv s) {task : Task} (begun : task ∈ s.opening)
    (allocated : Bool) : OpenInv (s.take (.record task allocated)) := by
  have left := List.length_erase_of_mem begun
  have some := List.length_pos_of_mem begun
  have total := inv.openCount
  simp only [Opened.take, afuOpenRecord]
  cases found : countOpen task s.data.pidList with
  | some pidList =>
      obtain ⟨rfl, member⟩ := countOpen_some inv.booked.unique found
      refine ⟨inv.booked.opened member, ?_⟩
      simp only [List.length_cons]
      omega
  | none =>
      cases allocated with
      | true =>
          refine ⟨inv.booked.added (countOpen_none found), ?_⟩
          simp only [List.length_cons, if_true]
          omega
      | false =>
          refine ⟨inv.booked, ?_⟩
          simp only [Bool.false_eq_true, if_false, featureDevUseEnd]
          omega

theorem OpenInv.release {s : Opened} (inv : OpenInv s) {opener : Task} (isOpen : opener ∈ s.files) :
    OpenInv (s.take (.release opener opener)) := by
  have left := List.length_erase_of_mem isOpen
  have some := List.length_pos_of_mem isOpen
  have total := inv.openCount
  refine ⟨inv.booked.released, ?_⟩
  simp only [Opened.take, afuRelease, featureDevUseEnd]
  omega

theorem OpenInv.reach {s : Opened} (reach : openSystem.Reach ClosedByOpener s) : OpenInv s := by
  apply reach.invariant
  · rintro _ rfl
    exact ⟨⟨.nil, by simp [PortData.new], by simp [PortData.new]⟩, rfl⟩
  · rintro s label _ inv byOpener ⟨possible, rfl⟩
    cases label with
    | begin task excl => exact inv.begin task excl
    | record task allocated => exact inv.record possible allocated
    | release opener closer =>
        cases byOpener
        exact inv.release possible

/-- If files are released by the tasks that have opened them, the books are right
whenever no open is in progress. -/
theorem open_books_right {s : Opened} (reach : openSystem.Reach ClosedByOpener s)
    (quiet : s.opening = []) : BooksRight s := by
  have inv := OpenInv.reach reach
  have total : s.data.openCount = s.files.length := by simpa [quiet] using inv.openCount
  refine ⟨inv.booked, inv.booked.sum_eq.trans total.symm, fun zero => ?_, inv.booked.entry,
    fun among => (inv.booked.filter among).sum_eq⟩
  have noFiles : s.files = [] := List.length_eq_zero_iff.mp (by omega)
  apply List.eq_nil_iff_forall_not_mem.mpr
  intro info member
  have opener := (inv.booked.entry _).mp (List.mem_map_of_mem member)
  simp [noFiles] at opener

/-- The port before anyone has opened it. -/
theorem open_reach_new (allowed : Opened → OpenStep → Prop) :
    openSystem.Reach allowed ⟨.new, [], []⟩ := .init rfl

/-- Two files of one task, one of which is closed again. -/
def closedByOpener : List OpenStep :=
  [.begin 7 false, .record 7 true, .begin 7 false, .record 7 false, .release 7 7]

theorem open_books_right_one_task :
    (closedByOpener.foldl Opened.take ⟨.new, [], []⟩).data.pidList = [⟨7, 1⟩] ∧
      BooksRight (closedByOpener.foldl Opened.take ⟨.new, [], []⟩) := by
  have reach : openSystem.Reach ClosedByOpener
      (closedByOpener.foldl Opened.take ⟨.new, [], []⟩) :=
    (open_reach_new _).along (fun s label => ClosedByOpener s label ∧ label.Possible s) Opened.take
      (fun _ _ good => ⟨good.1, good.2, rfl⟩) (by decide)
  exact ⟨by decide, open_books_right reach (by decide)⟩

/-- A file that another task closes, be it a thread of the same process. -/
def passedFile : List OpenStep := [.begin 7 false, .record 7 true, .release 7 8]

/-- It stays in the books for ever. -/
theorem passed_file_stays_booked :
    openSystem.Reachable (passedFile.foldl Opened.take ⟨.new, [], []⟩) ∧
      (passedFile.foldl Opened.take ⟨.new, [], []⟩).opening = [] ∧
      ¬ BooksRight (passedFile.foldl Opened.take ⟨.new, [], []⟩) := by
  have reach : openSystem.Reachable (passedFile.foldl Opened.take ⟨.new, [], []⟩) :=
    (open_reach_new _).along (fun s label => label.Possible s) Opened.take
      (fun _ _ possible => ⟨trivial, possible, rfl⟩) (by decide)
  exact ⟨reach, by decide, fun right => absurd (right.empty (by decide)) (by decide)⟩

end OpaeXilinx.Port
