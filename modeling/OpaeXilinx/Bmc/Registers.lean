import OpaeXilinx.Bmc.Stages

/-!
# Bytes of the mailbox through its registers

An access takes effect between steps of the board controller.  Properties of the mailbox which that
does not end go through an access with what the access itself does or sees.
-/

namespace OpaeXilinx.Bmc

open OpaeXilinx.Base
open OpaeXilinx.Base.NorMemory (programmed contents)

variable {serve : List (List Byte) → List Byte} {acts : List Event → List Act} {start : Board}
  {dev : Device}

/-- A property of the mailbox after a history. -/
def Holds (serve : List (List Byte) → List Byte) (acts : List Event → List Act) (start : Board)
    (P : Mailbox → Prop) (history : List Event) : Prop :=
  P (Board.after serve acts start history).box

section Accesses

variable {P Q : Mailbox → Prop} {R : Byte → Mailbox → Prop} {addr : Nat} {val : Byte}
  {board : Board} {history : List Event}

/-- A byte that is read while a property holds, whenever it is fetched, has another one. -/
structure Sees (serve : List (List Byte) → List Byte) (P : Mailbox → Prop) (addr : Nat)
    (R : Byte → Mailbox → Prop) : Prop where
  stable : Stable serve P
  later : ∀ value, Stable serve (R value)
  now : ∀ box, P box → R (box.mem addr) box

/-- An address is being read. -/
structure Reading (P : Mailbox → Prop) (addr : Nat) (R : Byte → Mailbox → Prop) (board : Board) :
    Prop where
  holds : P board.box
  reading : ∃ got, board.reading = some (addr, got) ∧ ∀ value, got = some value → R value board.box

/-- A byte has been put into the data register. -/
structure Loaded (P : Mailbox → Prop) (val : Byte) (board : Board) : Prop where
  holds : P board.box
  wdata : board.wdata = val

theorem Board.box_act (stable : Stable serve P) (holds : P board.box) (act : Act) :
    P (board.act serve act).box := by
  cases act with
  | bmc => exact stable _ holds
  | fetch =>
      rw [Board.act]
      split <;> exact holds

theorem Loaded.act (stable : Stable serve P) (loaded : Loaded P val board) (act : Act) :
    Loaded P val (board.act serve act) := by
  refine ⟨Board.box_act stable loaded.holds act, ?_⟩
  cases act with
  | bmc => exact loaded.wdata
  | fetch =>
      rw [Board.act]
      split <;> exact loaded.wdata

theorem Reading.act (sees : Sees serve P addr R) (reading : Reading P addr R board) (act : Act) :
    Reading P addr R (board.act serve act) := by
  refine ⟨Board.box_act sees.stable reading.holds act, ?_⟩
  obtain ⟨got, here, fetched⟩ := reading.reading
  cases act with
  | bmc => exact ⟨got, here, fun value same => sees.later value _ (fetched value same)⟩
  | fetch =>
      rw [Board.act, here]
      cases got with
      | none =>
          refine ⟨some (board.box.mem addr), rfl, ?_⟩
          rintro value ⟨⟩
          exact sees.now _ reading.holds
      | some value => exact ⟨some value, here, fetched⟩

/-- What each act keeps is kept by all that happens before an access. -/
theorem foldl_act {B : Board → Prop} (keeps : ∀ board act, B board → B (board.act serve act))
    (happening : List Act) (holds : B board) : B (happening.foldl (Board.act serve) board) := by
  induction happening generalizing board with
  | nil => exact holds
  | cons act happening ih => exact ih (keeps board act holds)

/-- What happens before an access that does not touch the mailbox. -/
theorem holds_before (stable : Stable serve P) (holds : Holds serve acts start P history) :
    P ((acts history).foldl (Board.act serve) (Board.after serve acts start history)).box :=
  foldl_act (B := fun board => P board.box)
    (fun _ act holds => Board.box_act stable holds act) (acts history) holds

theorem address_setWidth {bit : BitVec 64} (high : bit.setWidth 16 = 0#16) (small : addr < 65536) :
    ((BitVec.ofNat 64 (addr % 0x10000) ||| bit).setWidth 16).toNat = addr := by
  rw [BitVec.setWidth_or, high, BitVec.or_zero, BitVec.toNat_setWidth, BitVec.toNat_ofNat]
  omega

theorem address_getLsbD {bit : BitVec 64} {i : Nat} (high : 16 ≤ i) :
    (BitVec.ofNat 64 (addr % 0x10000) ||| bit).getLsbD i = bit.getLsbD i := by
  have bound : addr % 0x10000 < 2 ^ 16 := Nat.mod_lt addr (by decide)
  have below : (addr % 0x10000).testBit i = false :=
    Nat.testBit_lt_two_pow (Nat.lt_of_lt_of_le bound (Nat.pow_le_pow_right Nat.two_pos high))
  rw [BitVec.getLsbD_or, BitVec.getLsbD_ofNat, below, Bool.and_false, Bool.false_or]

end Accesses

section Registers

variable {P Q : Mailbox → Prop} {R : Byte → Mailbox → Prop} {addr : Nat} {val : Byte}
  {fail : Errno → List Event → Prop}

/-- An access of `bus_mutex`. -/
theorem note_lock {event : Event} (stable : Stable serve P)
    (lock : ∀ board : Board, board.react event = board) :
    Triple (Holds serve acts start P) (note event) (fun _ => Holds serve acts start P) fail := by
  apply Triple.modify
  intro history holds
  show P ((((acts history).foldl (Board.act serve)
    (Board.after serve acts start history)).react event)).box
  rw [lock]
  exact holds_before stable holds

theorem note_writeData (stable : Stable serve P) :
    Triple (Holds serve acts start P) (note (.writeData (val.setWidth 64)))
      (fun _ history => Loaded P val (Board.after serve acts start history)) fail := by
  apply Triple.modify
  intro history holds
  refine ⟨holds_before stable holds, ?_⟩
  show (val.setWidth 64).setWidth 8 = val
  rw [BitVec.setWidth_setWidth_of_le _ (by decide), BitVec.setWidth_eq]

theorem avmmiWrite8_stores (small : addr < 65536) (stable : Stable serve P)
    (stored : ∀ box, P box → Q (box.store addr [val])) :
    Triple (Holds serve acts start P) (avmmiWrite8 addr val)
      (fun _ => Holds serve acts start Q) fail := by
  apply Triple.bind _ (note_writeData stable)
  intro _
  apply Triple.modify
  intro history loaded
  obtain ⟨holds, wdata⟩ := foldl_act (B := Loaded P val)
    (fun _ act loaded => Loaded.act stable loaded act) (acts history) loaded
  show Q (Board.react _ _).box
  rw [Board.react, if_pos (by rw [address_getLsbD (Nat.le_refl 16)]; rfl),
    address_setWidth rfl small, wdata]
  exact stored _ holds

theorem readData_reads (faithful : Faithful dev serve acts start) (sees : Sees serve P addr R) :
    Triple (fun history => Reading P addr R (Board.after serve acts start history))
      (readData dev)
      (fun reg history => Reading P addr R (Board.after serve acts start history) ∧
        (valid reg = true → Holds serve acts start (R (reg.setWidth 8)) history)) fail := by
  intro history reading
  have now := foldl_act (B := Reading P addr R)
    (fun _ act reading => Reading.act sees reading act) (acts history) reading
  refine ⟨now, ?_⟩
  intro isValid
  obtain ⟨_, value, here, same⟩ := faithful history isValid
  obtain ⟨got, there, fetched⟩ := now.reading
  rw [here] at there
  injection there with there
  injection there with _ there
  rw [same]
  exact fetched value there.symm

/-- One round of a poll. -/
theorem readData_bind {rest : Driver (BitVec 64)} (faithful : Faithful dev serve acts start)
    (sees : Sees serve P addr R)
    (later : Triple (fun history => Reading P addr R (Board.after serve acts start history)) rest
      (fun reg => Holds serve acts start (R (reg.setWidth 8))) fail) :
    Triple (fun history => Reading P addr R (Board.after serve acts start history))
      (readData dev >>= fun reg => if valid reg then pure reg else rest)
      (fun reg => Holds serve acts start (R (reg.setWidth 8))) fail := by
  apply Triple.bind _ (readData_reads faithful sees)
  intro reg
  apply Triple.ite
  · intro isValid
    exact Triple.pure fun _ seen => seen.2 isValid
  · intro _
    exact later.consequence (fun _ seen => seen.1) (fun _ _ seen => seen) fun _ _ failed => failed

theorem pollValid_reads (faithful : Faithful dev serve acts start) (sees : Sees serve P addr R)
    (rounds : Nat) :
    Triple (fun history => Reading P addr R (Board.after serve acts start history))
      (pollValid dev rounds) (fun reg => Holds serve acts start (R (reg.setWidth 8)))
      fun err _ => err = .etimedout := by
  induction rounds with
  | zero =>
      apply readData_bind faithful sees
      apply readData_bind faithful sees
      exact Triple.throw fun _ _ => rfl
  | succ rounds ih => exact readData_bind faithful sees ih

/-- A read of a byte, where something is known to hold when it begins. -/
theorem avmmiRead8_begins (faithful : Faithful dev serve acts start) (small : addr < 65536)
    (sees : Sees serve P addr R)
    (begins : ∀ history, Holds serve acts start Q history →
      P ((acts history).foldl (Board.act serve) (Board.after serve acts start history)).box) :
    Triple (Holds serve acts start Q) (avmmiRead8 dev addr)
      (fun val => Holds serve acts start (R val)) fun err _ => err = .etimedout := by
  apply Triple.bind (fun _ history => Reading P addr R (Board.after serve acts start history))
  · apply Triple.modify
    intro history holds
    show Reading P addr R (Board.react _ _)
    rw [Board.react, if_neg (by rw [address_getLsbD (Nat.le_refl 16)]; decide),
      if_pos (by rw [address_getLsbD (Nat.le_succ 16)]; rfl), address_setWidth rfl small]
    exact ⟨begins history holds, none, rfl, nofun⟩
  intro _
  apply Triple.get_bind
  intro history reading
  have polled : Triple (fun current => current = history) (pollValid dev (dev.patience history))
      (fun reg => Holds serve acts start (R (reg.setWidth 8))) fun err _ => err = .etimedout := by
    rintro _ rfl
    exact pollValid_reads faithful sees _ _ reading
  apply Triple.bind _ polled
  intro reg
  exact Triple.pure fun _ seen => seen

theorem avmmiRead8_sees (faithful : Faithful dev serve acts start) (small : addr < 65536)
    (sees : Sees serve P addr R) :
    Triple (Holds serve acts start P) (avmmiRead8 dev addr)
      (fun val => Holds serve acts start (R val)) fun err _ => err = .etimedout :=
  avmmiRead8_begins faithful small sees fun _ holds => holds_before sees.stable holds

/-- While the mailbox stays as it is, what is read is what it holds. -/
theorem avmmiRead8s_calm {taken : List (List Byte)} {box : Mailbox} {len : Nat}
    (faithful : Faithful dev serve acts start) (calm : Calm taken box)
    (inside : addr + len ≤ 65536) :
    Triple (Holds serve acts start fun current => current = box) (avmmiRead8s dev addr len)
      (fun bytes => Holds serve acts start fun current =>
        bytes = contents box.mem addr len ∧ current = box)
      fun err _ => err = .etimedout := by
  induction len generalizing addr with
  | zero => exact Triple.pure fun _ same => ⟨rfl, same⟩
  | succ len ih =>
      have stays : Stable serve fun current => current = box := by
        rintro _ rfl
        exact calm.step
      have sees : Sees serve (fun current => current = box) addr
          fun val current => val = box.mem addr ∧ current = box :=
        ⟨stays, fun _ current seen => ⟨seen.1, stays current seen.2⟩,
          fun _ same => ⟨same ▸ rfl, same⟩⟩
      apply Triple.bind _ (avmmiRead8_sees faithful (by omega) sees)
      intro byte
      apply Triple.of_fact
      rintro rfl
      apply Triple.bind _ (ih (by omega))
      intro bytes
      exact Triple.pure fun _ seen => ⟨by rw [seen.1, NorMemory.contents_succ], seen.2⟩

/-- The bytes of a count are read one after the other, and the mailbox may change in between. -/
theorem readCount_begins {S : Byte → Byte → Mailbox → Prop}
    (faithful : Faithful dev serve acts start) (inside : addr + 1 < 65536)
    (low : Sees serve P addr R) (high : ∀ first, Sees serve (R first) (addr + 1) (S first))
    (begins : ∀ history, Holds serve acts start Q history →
      P ((acts history).foldl (Board.act serve) (Board.after serve acts start history)).box) :
    Triple (Holds serve acts start Q) (readCount dev addr)
      (fun count => Holds serve acts start fun box =>
        ∃ first second, count = number [first, second] ∧ S first second box)
      fun err _ => err = .etimedout := by
  apply Triple.bind (fun bytes => Holds serve acts start fun box =>
    ∃ first second, bytes = [first, second] ∧ S first second box)
  · apply Triple.bind _ (avmmiRead8_begins faithful (by omega) low begins)
    intro first
    apply Triple.bind (fun bytes => Holds serve acts start fun box =>
      ∃ second, bytes = [second] ∧ S first second box)
    · apply Triple.bind _ (avmmiRead8_sees faithful inside (high first))
      intro second
      exact Triple.pure fun _ seen => ⟨second, rfl, seen⟩
    intro bytes
    apply Triple.pure
    rintro _ ⟨second, rfl, seen⟩
    exact ⟨first, second, rfl, seen⟩
  intro bytes
  apply Triple.pure
  rintro _ ⟨first, second, rfl, seen⟩
  exact ⟨first, second, rfl, seen⟩

theorem readCount_sees {S : Byte → Byte → Mailbox → Prop}
    (faithful : Faithful dev serve acts start) (inside : addr + 1 < 65536)
    (low : Sees serve P addr R) (high : ∀ first, Sees serve (R first) (addr + 1) (S first)) :
    Triple (Holds serve acts start P) (readCount dev addr)
      (fun count => Holds serve acts start fun box =>
        ∃ first second, count = number [first, second] ∧ S first second box)
      fun err _ => err = .etimedout :=
  readCount_begins faithful inside low high fun _ holds => holds_before low.stable holds

end Registers

end OpaeXilinx.Bmc
