import OpaeXilinx.Flash.Session

/-!
# The bitstream guard

While records are erased and programmed, a guard at the start of the bitstream keeps the
FPGA from loading it.  The guard is safe as long as no call for a record goes to one of its
subsectors; nothing in the flasher sees to that, since records can lie anywhere.
-/

namespace OpaeXilinx.Flash

open OpaeXilinx.Base

/-- The subsector that a command for an address goes to. -/
def subsector (address : Nat) : Nat := address % 2 ^ 28 / subsectorSize

/-- Memory of a slave at some point. -/
def Chips.memAfter (start : Chips) (point : List Event) (slave : Slave) : Mem :=
  (start.after point slave).mem

/-- The half pages of file data that have been written. -/
def FilePage (point : List Event) (call : Call) : Prop :=
  ∃ later earlier, notes point = later ++ .records :: earlier ∧ .call call ∈ later ∧
    call.kind = .program

/-- What the guard promises at every point of a run. -/
structure Guarded (start : Chips) (slave : Slave) (guardStart : Nat) (point : List Event) : Prop where
  /-- Until the guard is in place, nothing but the guard is erased or programmed. -/
  first : ∀ call earlier, .call call :: earlier <:+ notes point → .guardSet ∉ earlier →
    .records ∉ earlier ∧ call.SetsGuard guardStart
  /-- From the time it has been set until it is cleared, its page does not change. -/
  intact : ∀ since, .note .guardSet :: since <:+ point → .clearIssued ∉ notes point →
    ∀ i < writeDataSize, start.memAfter point slave ((guardStart + writeDataSize + i) % 2 ^ 28) =
      start.memAfter since slave ((guardStart + writeDataSize + i) % 2 ^ 28)
  /-- Clearing it does not change file data. -/
  dataKept : ∀ since, .note .clearIssued :: since <:+ point → ∀ call, FilePage since call →
    ∀ i < writeDataSize, start.memAfter point slave (inPage (call.address % 2 ^ 28) i) =
      start.memAfter since slave (inPage (call.address % 2 ^ 28) i)

/-- A call leaves the subsectors of the guard alone. -/
def Clear (guardStart address : Nat) : Prop :=
  subsector address ≠ subsector guardStart ∧
    subsector address ≠ subsector (guardStart + writeDataSize) ∧
    subsector address ≠ subsector (guardStart + 2 * writeDataSize - 1)

/-- Between setting and clearing the guard, the call leaves it alone. -/
def StepClear (guardStart : Nat) (note : Note) (earlier : List Note) : Prop :=
  .guardSet ∈ earlier → .clearIssued ∉ earlier →
    ∀ call, note = .call call → Clear guardStart call.address

instance (guardStart address : Nat) : Decidable (Clear guardStart address) :=
  inferInstanceAs (Decidable (_ ∧ _ ∧ _))

instance (guardStart : Nat) (earlier : List Note) : (note : Note) →
    Decidable (StepClear guardStart note earlier)
  | .call call => decidable_of_iff
      (.guardSet ∈ earlier → .clearIssued ∉ earlier → Clear guardStart call.address)
      ⟨fun clear set uncleared _ same => by cases same; exact clear set uncleared,
        fun clear set uncleared => clear set uncleared call rfl⟩
  | .line _ _ => .isTrue nofun
  | .guardSet => .isTrue nofun
  | .records => .isTrue nofun
  | .clearIssued => .isTrue nofun

/-- Records are touched after the guard has been set, and clearing it is the last thing. -/
structure InOrder (guardStart : Nat) (note : Note) (earlier : List Note) : Prop where
  records : note = .records → .guardSet ∈ earlier
  first : ∀ call, note = .call call → .guardSet ∉ earlier → call.SetsGuard guardStart
  last : .clearIssued ∈ earlier → ∃ sectors, note = .call ⟨.erase, guardStart, [], sectors⟩

section Notes

variable {start : Chips} {guardStart : Nat} {slave : Slave} {log : List Event}

/-- A note after which a point lies is among the notes of that point. -/
theorem mem_notes_of_suffix {note : Note} {since point : List Event}
    (later : .note note :: since <:+ point) : note ∈ notes point :=
  (notes_suffix later).subset List.mem_cons_self

/-- An event after the guard has been set changes the memory in the subsector of the call
that is noted last. -/
theorem mem_kept {event : Event} {earlier : List Event} {x : Nat}
    (sound : Sound start event earlier) (guarded : .guardSet ∈ notes earlier)
    (misses : ∀ call rest, notes earlier = .call call :: rest →
      subsector call.address ≠ x / subsectorSize) :
    start.memAfter (event :: earlier) slave x = start.memAfter earlier slave x := by
  apply Chip.react_mem
  intro command target completes found same
  rcases sound.hits slave command target completes found with ⟨-, unguarded⟩
    | ⟨call, isCall, hit, -⟩
  · exact unguarded guarded
  · obtain ⟨rest, here⟩ := List.head?_eq_some_iff.mp (sound.called call isCall)
    apply misses call rest here
    rw [subsector, ← hit, same]

/-- The subsectors of the guard's page. -/
theorem subsector_guard {guardStart i : Nat} (inPage : i < writeDataSize) :
    subsector (guardStart + writeDataSize + i) = subsector (guardStart + writeDataSize) ∨
      subsector (guardStart + writeDataSize + i) =
        subsector (guardStart + 2 * writeDataSize - 1) := by
  simp only [subsector, writeDataSize, subsectorSize] at inPage ⊢
  omega

/-- What no event after a note has changed is what it was then. -/
theorem memAfter_eq {note : Note} {since point : List Event} {x : Nat}
    (later : .note note :: since <:+ point)
    (kept : ∀ event earlier, event :: earlier <:+ point → .note note :: since <:+ earlier →
      start.memAfter (event :: earlier) slave x = start.memAfter earlier slave x) :
    start.memAfter point slave x = start.memAfter since slave x := by
  show _ = start.memAfter (.note note :: since) slave x
  exact replay_view_eq (fun chip : Chip => chip.mem x) later kept

section Points

variable (sound : Throughout (Sound start) log)
    (inOrder : Throughout (InOrder guardStart) (notes log))
  (clear : Throughout (StepClear guardStart) (notes log)) {point : List Event}

include inOrder in
theorem guard_first {call : Call} {ns : List Note} (part : .call call :: ns <:+ notes log)
    (unguarded : .guardSet ∉ ns) : .records ∉ ns ∧ call.SetsGuard guardStart := by
  refine ⟨fun member => unguarded ?_, (inOrder.at_suffix part).first call rfl unguarded⟩
  obtain ⟨later, earlier, rfl⟩ := List.append_of_mem member
  have here := inOrder.at_suffix
    (((List.suffix_append later _).trans (List.suffix_cons _ _)).trans part)
  exact List.mem_append_right _ (List.mem_cons_of_mem _ (here.records rfl))

include sound clear in
theorem guard_intact (reached : point <:+ log) {since : List Event}
    (later : .note .guardSet :: since <:+ point) (uncleared : .clearIssued ∉ notes point) {i : Nat}
    (inPage : i < writeDataSize) :
    start.memAfter point slave ((guardStart + writeDataSize + i) % 2 ^ 28) =
      start.memAfter since slave ((guardStart + writeDataSize + i) % 2 ^ 28) := by
  apply memAfter_eq later
  intro event earlier now after
  have guarded := mem_notes_of_suffix after
  apply mem_kept (sound.at_suffix (now.trans reached)) guarded
  intro call rest here same
  have part : .call call :: rest <:+ notes point :=
    here ▸ notes_suffix ((List.suffix_cons _ _).trans now)
  rw [here] at guarded
  obtain ⟨-, other, otherEnd⟩ := clear.at_suffix (part.trans (notes_suffix reached))
    (List.mem_of_ne_of_mem (by simp) guarded)
    (fun cleared => uncleared (part.subset (List.mem_cons_of_mem _ cleared))) call rfl
  -- the page of the guard may reach into a second subsector
  have same' : subsector call.address = subsector (guardStart + writeDataSize + i) := same
  rcases subsector_guard inPage with isFirst | isSecond
  · exact other (same'.trans isFirst)
  · exact otherEnd (same'.trans isSecond)

include sound inOrder clear in
theorem file_data_kept (reached : point <:+ log) {since : List Event}
    (later : .note .clearIssued :: since <:+ point) {call : Call}
    (page : FilePage since call) (i : Nat) :
    start.memAfter point slave (inPage (call.address % 2 ^ 28) i) =
      start.memAfter since slave (inPage (call.address % 2 ^ 28) i) := by
  obtain ⟨after, before, split, member, -⟩ := page
  have partSince : .clearIssued :: notes since <:+ notes log := notes_suffix (later.trans reached)
  have part : notes since <:+ notes log := (List.suffix_cons _ _).trans partSince
  have uncleared : .clearIssued ∉ notes since := fun cleared => by
    obtain ⟨_, impossible⟩ := (inOrder.at_suffix partSince).last cleared
    cases impossible
  have guarded : .guardSet ∈ before := by
    have here : Note.records :: before <:+ notes log :=
      (split ▸ List.suffix_append after _ : .records :: before <:+ notes since).trans part
    exact (inOrder.at_suffix here).records rfl
  -- the call for the page was clear of the guard
  have other : subsector call.address ≠ subsector guardStart := by
    obtain ⟨newer, older, rfl⟩ := List.append_of_mem member
    have here : Note.call call :: (older ++ .records :: before) <:+ notes since := by
      rw [split, List.append_assoc]
      exact List.suffix_append newer _
    refine (clear.at_suffix (here.trans part) ?_ ?_ call rfl).1
    · exact List.mem_append_right _ (List.mem_cons_of_mem _ guarded)
    · exact fun cleared => uncleared (here.subset (List.mem_cons_of_mem _ cleared))
  apply memAfter_eq later
  intro event earlier now afterClear
  have cleared := mem_notes_of_suffix afterClear
  have guardedThen : .guardSet ∈ notes earlier := by
    have sinceGuard : .guardSet ∈ notes since := by
      rw [split]
      exact List.mem_append_right _ (List.mem_cons_of_mem _ guarded)
    exact (notes_suffix ((List.suffix_cons _ _).trans afterClear)).subset sinceGuard
  apply mem_kept (sound.at_suffix (now.trans reached)) guardedThen
  intro last rest here same
  have partLast : .call last :: rest <:+ notes log :=
    here ▸ notes_suffix (((List.suffix_cons _ _).trans now).trans reached)
  rw [here] at cleared
  obtain ⟨sectors, isErase⟩ :=
    (inOrder.at_suffix partLast).last (List.mem_of_ne_of_mem (by simp) cleared)
  cases isErase
  rw [inPage_div_subsectorSize] at same
  exact other same.symm

include sound inOrder clear in
theorem guarded_of_clear (reached : point <:+ log) : Guarded start slave guardStart point :=
  ⟨fun _ _ part => guard_first inOrder (part.trans (notes_suffix reached)),
    fun _ later uncleared _ inPage => guard_intact sound clear reached later uncleared inPage,
    fun _ later _ page i _ => file_data_kept sound inOrder clear reached later page i⟩

end Points

end Notes

section Runs

variable (env : Env) {start : Chips} {guardStart : Nat} {s : Stream} {w₀ : Flasher}

/-- The notes are in order, and between setting and clearing the guard it is left alone. -/
structure Guarding (guardStart : Nat) (ns : List Note) : Prop where
  inOrder : Throughout (InOrder guardStart) ns
  clear : Throughout (StepClear guardStart) ns

/-- Before the guard is cleared, and after it has been set if so required. -/
structure Uncleared (set : Bool) (guardStart : Nat) (ns : List Note) : Prop where
  guarding : Guarding guardStart ns
  uncleared : .clearIssued ∉ ns
  guarded : set = true ↔ .guardSet ∈ ns

/-- A note that is allowed at its place, and neither sets nor clears the guard. -/
theorem Uncleared.cons {set : Bool} {note : Note} {earlier : List Note}
    (holds : Uncleared set guardStart earlier) (inOrder : InOrder guardStart note earlier)
    (clear : StepClear guardStart note earlier) (noSet : note ≠ .guardSet)
    (noClear : note ≠ .clearIssued) : Uncleared set guardStart (note :: earlier) := by
  refine ⟨⟨⟨inOrder, holds.guarding.inOrder⟩, ⟨clear, holds.guarding.clear⟩⟩,
    List.not_mem_cons_of_ne_of_not_mem (Ne.symm noClear) holds.uncleared, ?_⟩
  rw [List.mem_cons, holds.guarded]
  exact ⟨.inr, fun member => member.resolve_left (Ne.symm noSet)⟩

/-- Once the guard is set, work may go on that leaves it alone. -/
theorem uncleared_permits : Permits (Clear guardStart) (Uncleared true guardStart) := by
  constructor
  · intro call earlier clear holds
    have guarded := holds.guarded.mp rfl
    refine holds.cons ⟨nofun, fun _ _ unguarded => absurd guarded unguarded,
      fun cleared => absurd cleared holds.uncleared⟩ (fun _ _ other same => ?_) nofun nofun
    cases same
    exact clear
  · intro line taken earlier holds
    exact holds.cons ⟨nofun, nofun, fun cleared => absurd cleared holds.uncleared⟩
      (fun _ _ _ => nofun) nofun nofun

/-- A note that is not work. -/
theorem addNote_triple {before after : List Note → Prop} (note : Note)
    (holds : ∀ ns, before ns → after (note :: ns)) :
    Triple (Working start before s) (addNote note) (fun _ => Working start after s)
      (fun _ => Ended start (Guarding guardStart)) :=
  Triple.modify fun _ working =>
    ⟨working.ready.note note, holds _ working.notes, working.stream⟩

/-- However work ends, the guard has been left alone. -/
theorem guarding_of_works {α : Type} {set : Bool} {after : Stream} {program : FlashM α}
    (works : Triple (Working start (Uncleared set guardStart) s) program
      (fun _ => Working start (Uncleared set guardStart) after)
      (fun _ => Ended start (Uncleared set guardStart))) :
    Triple (Working start (Uncleared set guardStart) s) program
      (fun _ => Working start (Uncleared set guardStart) after)
      (fun _ => Ended start (Guarding guardStart)) :=
  works.consequence (fun _ holds => holds) (fun _ _ holds => holds)
    fun _ _ ended => ⟨ended.sound, ended.notes.guarding⟩

/-- Setting the guard comes before its note. -/
theorem writeBitstreamGuard_guarding :
    Triple (Working start (Uncleared false guardStart) s)
      (failing .flash .einval (writeBitstreamGuard env guardStart))
      (fun _ => Working start (Uncleared false guardStart) s)
      (fun _ => Ended start (Guarding guardStart)) := by
  refine failing_triple .flash .einval (guarding_of_works
    (writeBitstreamGuard_works env fun call earlier sets holds => ?_))
  have unguarded : .guardSet ∉ earlier := fun guarded => by cases holds.guarded.mpr guarded
  refine holds.cons ⟨nofun, fun _ same _ => ?_, fun cleared => absurd cleared holds.uncleared⟩
    (fun guarded => absurd guarded unguarded) nofun nofun
  cases same
  exact sets

theorem clearBitstreamGuard_guarding :
    Triple (Working start (fun ns => Guarding guardStart ns ∧ .clearIssued ∈ ns) s)
      (clearBitstreamGuard env guardStart)
      (fun _ => Ended start (Guarding guardStart)) (fun _ => Ended start (Guarding guardStart)) := by
  intro w working
  obtain ⟨guarding, issued⟩ := working.notes
  have erase : ∀ sectors,
      Guarding guardStart (.call ⟨.erase, guardStart, [], sectors⟩ :: notes w.log) := fun sectors =>
    ⟨⟨⟨nofun, fun call isCall _ => by cases isCall; exact .inl ⟨rfl, rfl⟩, fun _ => ⟨sectors, rfl⟩⟩,
      guarding.inOrder⟩, ⟨fun _ uncleared => absurd issued uncleared, guarding.clear⟩⟩
  refine (sectorErase_triple env working.ready guardStart).consequence
    (fun _ same => same) ?_ ?_ w rfl
  · exact fun _ _ called => ⟨called.ready.idle.sound, called.noted ▸ erase _⟩
  · exact fun _ _ stopped => ⟨stopped.sound, stopped.noted ▸ erase _⟩

/-- Records that lie apart from the guard leave it alone, however their run ends. -/
theorem programXSpi_guarding {records : List ElaRecord} (blank : w₀.log = [])
    (outside : w₀.during = none) (startLoc : w₀.bitstreamStartLoc = guardStart)
    (nonzero : guardStart ≠ 0)
    (apart : ∀ address, GoesTo w₀.stream (shiftedRecords guardStart records) address →
      Clear guardStart address) :
    Triple (fun w => w = w₀) (programXSpi env records)
      (fun _ => Ended start (Guarding guardStart)) (fun _ => Ended start (Guarding guardStart)) := by
  have noNotes : notes w₀.log = [] := by rw [blank]; rfl
  have startable : Startable start (Uncleared false guardStart) w₀ := by
    refine ⟨by rw [blank]; trivial, .inr (by simp [noNotes]), outside, ?_⟩
    rw [noNotes]
    exact ⟨⟨trivial, trivial⟩, nofun, nofun, nofun⟩
  refine Triple.bind_at _ ((prepareXSpi_works env startable).consequence (fun _ same => same)
    (fun _ _ holds => holds) fun _ _ ended => ⟨ended.sound, ended.notes.guarding⟩)
      fun _ w ⟨same, working⟩ => Triple.get_bind fun w isCurrent => ?_
  subst isCurrent
  have isStart : w.bitstreamStartLoc = guardStart := same.trans startLoc
  rw [isStart]
  let s := w₀.stream
  suffices Triple (Working start (Uncleared false guardStart) s) _ _ _ from
    this.consequence (fun _ same => same ▸ working) (fun _ _ holds => holds) fun _ _ holds => holds
  refine Triple.bind (fun _ => Working start (Uncleared true guardStart) s)
    (Triple.runIf (fun _ => ?_) fun zero => absurd nonzero zero) fun _ => ?_
  · refine Triple.bind _ (writeBitstreamGuard_guarding env) fun _ =>
      addNote_triple .guardSet fun ns holds => ?_
    refine ⟨⟨⟨⟨nofun, nofun, fun cleared => absurd cleared holds.uncleared⟩,
      holds.guarding.inOrder⟩, ⟨fun _ _ _ => nofun, holds.guarding.clear⟩⟩,
      List.not_mem_cons_of_ne_of_not_mem nofun holds.uncleared, ?_⟩
    exact ⟨fun _ => List.mem_cons_self, fun _ => rfl⟩
  refine Triple.bind (fun _ => Working start (Uncleared true guardStart) s)
    (addNote_triple .records fun ns holds => ?_) fun _ => ?_
  · exact holds.cons ⟨fun _ => holds.guarded.mp rfl, nofun,
      fun cleared => absurd cleared holds.uncleared⟩ (fun _ _ _ => nofun) nofun nofun
  refine Triple.bind _ (guarding_of_works (eraseRecords_works env uncleared_permits
      fun record member address swept => apart address (.of_swept member swept))) fun _ =>
    Triple.bind _ (guarding_of_works (programRecords_works env uncleared_permits
      fun entry member address page => apart address ⟨entry, member, .inr page⟩)) fun _ =>
    Triple.runIf (fun _ => ?_) fun zero => absurd nonzero zero
  refine Triple.bind _ (addNote_triple .clearIssued fun ns holds => ?_) fun _ =>
    failing_triple .flash .einval (clearBitstreamGuard_guarding env)
  refine ⟨⟨⟨⟨nofun, nofun, fun cleared => absurd cleared holds.uncleared⟩, holds.guarding.inOrder⟩,
    ⟨fun _ _ _ => nofun, holds.guarding.clear⟩⟩, List.mem_cons_self⟩

theorem upgrade_guarding (board : Board) {text : List Char} {p : Parse} {record : ElaRecord}
    {rest : List ElaRecord} (accepted : Parse.file text = .ok p)
    (list : p.recordList = record :: rest)
    (nonzero : record.startAddress ≠ 0) (index : Slave)
    (apart : ∀ address,
      GoesTo (p.stream.seekg 0) (shiftedRecords record.startAddress p.recordList) address →
        Clear record.startAddress address) :
    Guarding record.startAddress
      (notes (board.outcome env (.upgradeFirmwareXSpi (some text) index)).log) := by
  rw [Board.outcome, Operation.run]
  by_cases mapped : board.begin.mapped = true
  · rw [xclUpgradeFirmwareXSpi_eq env accepted mapped]
    have isStart : (board.begin.parsed env index p).bitstreamStartLoc = record.startAddress := by
      simp [Flasher.parsed, list]
    have ends : Ended board.chips (Guarding record.startAddress) _ :=
      (programXSpi_guarding env rfl rfl isStart nonzero apart).at_end rfl
    exact ends.notes
  · -- nothing happens on a card that is not mapped
    have same : xclUpgradeFirmwareXSpi env (some text) index board.begin =
        .error .eacces { board.begin with writeBuffer := fun _ => 0 } := by
      obtain ⟨_, isMapped, _⟩ := board
      cases isMapped with
      | true => exact absurd rfl mapped
      | false => rfl
    rw [same]
    exact ⟨trivial, trivial⟩

end Runs

/-- If no erase and no half page of the shifted records goes to one of the guard's subsectors, the
guard protects the bitstream at every point of every run, however it ends. -/
theorem guard_protects (board : Board) (env : Env) {text : List Char} {p : Parse}
    {record : ElaRecord} {rest : List ElaRecord} (accepted : Parse.file text = .ok p)
    (list : p.recordList = record :: rest)
    (nonzero : record.startAddress ≠ 0) (index : Slave)
    (apart : ∀ address,
      GoesTo (p.stream.seekg 0) (shiftedRecords record.startAddress p.recordList) address →
        Clear record.startAddress address)
    {point : List Event}
    (reached : point <:+ (board.outcome env (.upgradeFirmwareXSpi (some text) index)).log) :
    Guarded board.chips index record.startAddress point := by
  have guarding := upgrade_guarding env board accepted list nonzero index apart
  exact guarded_of_clear (board.outcome_sound env _) guarding.inOrder guarding.clear reached

/-- Shifted records behind a guard at the start of a subsector leave it alone. -/
theorem clear_of_behind {guardStart : Nat} {s : Stream} {records : List ElaRecord}
    (aligned : guardStart % subsectorSize = 0)
    (lie : ∀ entry ∈ withBytes s records, LiesIn (guardStart + subsectorSize) (2 ^ 28) entry)
    (address : Nat) (goes : GoesTo s records address) : Clear guardStart address := by
  obtain ⟨behind, below⟩ := goes.range (by decide) lie
  simp only [Clear, subsector, subsectorSize, writeDataSize] at aligned behind ⊢
  omega

/-- The transfer that programs the second of two records fails. -/
def failingEnv : Env :=
  { Env.calm with transfer := fun tick => if tick = 44 then .refused else Env.calm.transfer tick }

/-- What an upgrade that ends so has done. -/
def failedUpgrade : List Event :=
  (Board.blank.outcome failingEnv (.upgradeFirmwareXSpi (some twoRecordFile) .first)).log

/-- The guard stays in place. -/
theorem guard_protects_two_records :
    .guardSet ∈ notes failedUpgrade ∧ .clearIssued ∉ notes failedUpgrade ∧
      Guarded Board.blank.chips .first 0x10000 failedUpgrade := by
  refine ⟨by decide +kernel, by decide +kernel, guard_protects .blank failingEnv
    twoRecordFile_accepted rfl (by decide) .first ?_ List.suffix_rfl⟩
  exact clear_of_behind (by decide) fun entry member =>
    have lies := twoRecords_lie entry member
    ⟨lies.start, Nat.le_trans lies.ends (by decide), Nat.le_trans lies.bytes (by decide)⟩

/-- The history before a note was made for the last time. -/
def before (note : Note) (log : List Event) : List Event := (log.dropWhile (· ≠ .note note)).tail

theorem before_suffix {note : Note} {log : List Event} (noted : .note note ∈ log) :
    .note note :: before note log <:+ log := by
  induction log with
  | nil => cases noted
  | cons event log ih =>
      by_cases same : event = .note note
      · simp [before, same]
      · have skip : before note (event :: log) = before note log := by simp [before, same]
        rw [skip]
        exact (ih (List.mem_of_ne_of_mem (Ne.symm same) noted)).trans (List.suffix_cons _ _)

/-- Part of the guard has been lost before it was to be cleared. -/
theorem guard_lost (start : Chips) (slave : Slave) (guardStart i : Nat) (log : List Event)
    (issued : .note .clearIssued ∈ log) (set : .note .guardSet ∈ before .clearIssued log)
    (uncleared : .clearIssued ∉ notes (before .clearIssued log)) (inside : i < writeDataSize)
    (changed : start.memAfter (before .clearIssued log) slave
        ((guardStart + writeDataSize + i) % 2 ^ 28) ≠
      start.memAfter (before .guardSet (before .clearIssued log)) slave
        ((guardStart + writeDataSize + i) % 2 ^ 28)) :
    ∃ point, point <:+ log ∧ ¬ Guarded start slave guardStart point := by
  refine ⟨_, (List.suffix_cons _ _).trans (before_suffix issued), fun guarded => changed ?_⟩
  exact guarded.intact _ (before_suffix set) uncleared i inside

/-- Two records of one byte, the second a subsector below the first one. -/
def descendingFile : List Char :=
  ":020000040001F9\n:0110000000EF\n:020000040001F9\n:0100000000FF\n:00000001FF\n".toList

def descendingRecords : List ElaRecord :=
  [⟨0x11000, 0x11001, 1, 16, [":0110000000EF".toList]⟩,
    ⟨0x10000, 0x10001, 1, 46, [":0100000000FF".toList]⟩]

def descendingParse : Parse :=
  ⟨⟨descendingFile, 72, false, false⟩, ⟨0x10000, 0x10001, 1, 46, [":0100000000FF".toList]⟩,
    "0001".toList, descendingRecords, true⟩

/-- The second record is moved onto the guard, and erases it. -/
theorem guard_erased_by_record :
    Parse.file descendingFile = .ok descendingParse ∧
      ∃ point, point <:+ (Board.blank.outcome .calm
          (.upgradeFirmwareXSpi (some descendingFile) .first)).log ∧
        ¬ Guarded Board.blank.chips .first 0x11000 point := by
  have parsed : Parse.file descendingFile = .ok descendingParse := by decide
  have ran : Operation.run .calm (.upgradeFirmwareXSpi (some descendingFile) .first)
      Board.blank.begin =
        programXSpi .calm descendingRecords (Board.blank.begin.parsed .calm .first descendingParse) :=
    xclUpgradeFirmwareXSpi_eq .calm parsed rfl .first
  have lost := guard_lost Board.blank.chips .first 0x11000 4
    (Board.blank.outcome .calm (.upgradeFirmwareXSpi (some descendingFile) .first)).log
  rw [Board.outcome, ran] at lost ⊢
  exact ⟨parsed, lost (by decide +kernel) (by decide +kernel) (by decide +kernel) (by decide)
    (by decide +kernel)⟩

end OpaeXilinx.Flash
