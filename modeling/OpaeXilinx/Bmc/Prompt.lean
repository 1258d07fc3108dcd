import OpaeXilinx.Bmc.Exchange

/-!
# Transactions with a prompt board controller

A board controller that takes a step, and a bus that has fetched what is asked for, before each
access of the driver: no transaction times out then.
-/

namespace OpaeXilinx.Bmc

open OpaeXilinx.Base

variable {serve : List (List Byte) → List Byte} {acts : List Event → List Act} {start : Board}
  {dev : Device} {taken : List (List Byte)} {txbuf reply : List Byte}

/-- Before each access the board controller goes on and a byte is fetched, and the data register
shows it. -/
structure Prompt (dev : Device) (serve : List (List Byte) → List Byte)
    (acts : List Event → List Act) (start : Board) : Prop where
  faithful : Faithful dev serve acts start
  bmc : ∀ history, Act.bmc ∈ acts history
  fetch : ∀ history, Act.fetch ∈ acts history
  shows : ∀ history addr value,
    ((acts history).foldl (Board.act serve) (Board.after serve acts start history)).reading =
      some (addr, some value) → valid (dev.rdata history) = true

section Reads

variable {addr : Nat} {board : Board} {happening : List Act}

theorem reading_fetched {value : Byte} (fetched : board.reading = some (addr, some value)) :
    (happening.foldl (Board.act serve) board).reading = some (addr, some value) := by
  apply foldl_act (B := fun board => board.reading = some (addr, some value)) _ happening fetched
  intro board act fetched
  cases act with
  | bmc => exact fetched
  | fetch =>
      rw [Board.act, fetched]
      exact fetched

theorem reading_fetch {got : Option Byte} (reading : board.reading = some (addr, got))
    (fetch : Act.fetch ∈ happening) :
    ∃ value, (happening.foldl (Board.act serve) board).reading = some (addr, some value) := by
  cases got with
  | some value => exact ⟨value, reading_fetched reading⟩
  | none =>
      induction happening generalizing board with
      | nil => cases fetch
      | cons act happening ih =>
          cases act with
          | bmc => exact ih (by simpa using fetch) reading
          | fetch =>
              have here : (board.act serve .fetch).reading =
                  some (addr, some (board.box.mem addr)) := by
                rw [Board.act, reading]
              show ∃ value, (happening.foldl (Board.act serve) (board.act serve .fetch)).reading =
                some (addr, some value)
              exact ⟨board.box.mem addr, reading_fetched here⟩

theorem avmmiRead8_prompt (prompt : Prompt dev serve acts start) :
    Triple (fun _ => True) (avmmiRead8 dev addr) (fun _ _ => True) fun _ _ => False := by
  apply Triple.bind (fun _ history => ∃ addr,
    (Board.after serve acts start history).reading = some (addr, none))
  · apply Triple.modify
    intro history _
    show ∃ addr, (Board.react _ _).reading = some (addr, none)
    rw [Board.react, if_neg (by rw [address_getLsbD (Nat.le_refl 16)]; decide),
      if_pos (by rw [address_getLsbD (Nat.le_succ 16)]; rfl)]
    exact ⟨_, rfl⟩
  intro _
  apply Triple.get_bind
  rintro history ⟨addr, reading⟩
  have shows : valid (dev.rdata history) = true := by
    obtain ⟨value, fetched⟩ := reading_fetch reading (prompt.fetch history)
    exact prompt.shows history addr value fetched
  have once : ∀ rest : Driver (BitVec 64), Triple (fun current => current = history)
      (readData dev >>= fun reg => if valid reg then pure reg else rest) (fun _ _ => True)
      fun _ _ => False := by
    intro rest
    apply Triple.bind (fun reg _ => valid reg = true)
    · rintro _ rfl
      exact shows
    intro reg
    apply Triple.ite
    · exact fun _ => Triple.pure fun _ _ => trivial
    · exact fun missing _ isValid => absurd isValid missing
  have polled : Triple (fun current => current = history) (pollValid dev (dev.patience history))
      (fun _ _ => True) fun _ _ => False := by
    cases dev.patience history with
    | zero => exact once _
    | succ rounds => exact once _
  apply Triple.bind _ polled
  intro reg
  exact Triple.pure fun _ _ => trivial

theorem avmmiRead8s_prompt (prompt : Prompt dev serve acts start) (len : Nat) :
    Triple (fun _ => True) (avmmiRead8s dev addr len) (fun _ _ => True) fun _ _ => False := by
  induction len generalizing addr with
  | zero => exact Triple.pure fun _ _ => trivial
  | succ len ih =>
      apply Triple.bind _ (avmmiRead8_prompt prompt)
      intro byte
      apply Triple.bind _ ih
      intro bytes
      exact Triple.pure fun _ _ => trivial

theorem readCount_prompt (prompt : Prompt dev serve acts start) :
    Triple (fun _ => True) (readCount dev addr) (fun _ _ => True) fun _ _ => False := by
  apply Triple.bind _ (avmmiRead8s_prompt prompt 2)
  intro bytes
  exact Triple.pure fun _ _ => trivial

/-- A read of a count that does not time out. -/
theorem readCount_ends {pre : List Event → Prop} {post : Nat → List Event → Prop}
    (prompt : Prompt dev serve acts start)
    (reads : Triple pre (readCount dev addr) post fun err _ => err = .etimedout) :
    Triple pre (readCount dev addr) post fun _ _ => False :=
  (reads.and (readCount_prompt prompt)).consequence (fun _ holds => ⟨holds, trivial⟩)
    (fun _ _ ends => ends.1) fun _ _ failed => failed.2

end Reads

/-- A request has been taken. -/
inductive Underway (serve : List (List Byte) → List Byte) (taken : List (List Byte))
    (box : Mailbox) : Prop
  | working (stage : Working taken box)
  | answered (stage : Answered taken (serve taken) box)

section Progress

variable {P Q : Mailbox → Prop} {box : Mailbox} {board : Board} {happening : List Act}

theorem Asked.step (asked : Asked serve taken txbuf box) (some : 0 < txbuf.length)
    (short : txbuf.length < 256) : Underway serve (txbuf :: taken) (box.step serve) := by
  cases asked with
  | announced stage => exact .working (stage.step some short)
  | working stage => exact .answered stage.step
  | answered stage => exact .answered stage.step

theorem Underway.step (underway : Underway serve taken box) :
    Answered taken (serve taken) (box.step serve) := by
  cases underway with
  | working stage => exact stage.step
  | answered stage => exact stage.step

theorem stable_underway : Stable serve (Underway serve taken) :=
  fun _ underway => .answered underway.step

theorem Underway.request (underway : Underway serve taken box) :
    box.mem requestCountAddress = 0 ∧ box.mem (requestCountAddress + 1) = 0 := by
  cases underway with
  | working stage => exact ⟨stage.requestLow, stage.requestHigh⟩
  | answered stage => exact ⟨stage.requestLow, stage.requestHigh⟩

/-- The board controller takes a step before an access. -/
theorem foldl_goesOn (goesOn : ∀ box, P box → Q (box.step serve)) (stable : Stable serve Q)
    (bmc : Act.bmc ∈ happening) (holds : P board.box) :
    Q (happening.foldl (Board.act serve) board).box := by
  induction happening generalizing board with
  | nil => cases bmc
  | cons act happening ih =>
      cases act with
      | bmc =>
          exact foldl_act (B := fun board => Q board.box)
            (fun _ act holds => Board.box_act stable holds act) happening (goesOn _ holds)
      | fetch =>
          apply ih (by simpa using bmc)
          show P (board.act serve .fetch).box
          rw [Board.act]
          split <;> exact holds

theorem awaitTaken_prompt (prompt : Prompt dev serve acts start) (some : 0 < txbuf.length)
    (short : txbuf.length < 256) (rounds : Nat) :
    Triple (Holds serve acts start (Asked serve taken txbuf)) (awaitTaken dev (rounds + 1))
      (fun _ => Holds serve acts start (Underway serve (txbuf :: taken))) fun _ _ => False := by
  have low : Sees serve (Underway serve (txbuf :: taken)) requestCountAddress
      fun first box => first = 0 ∧ Underway serve (txbuf :: taken) box :=
    ⟨stable_underway, fun _ _ seen => ⟨seen.1, stable_underway _ seen.2⟩,
      fun _ underway => ⟨underway.request.1, underway⟩⟩
  have high : ∀ first : Byte, Sees serve
      (fun box => first = 0 ∧ Underway serve (txbuf :: taken) box) (requestCountAddress + 1)
      fun second box => first = 0 ∧ second = 0 ∧ Underway serve (txbuf :: taken) box :=
    fun _ => ⟨fun _ seen => ⟨seen.1, stable_underway _ seen.2⟩,
      fun _ _ seen => ⟨seen.1, seen.2.1, stable_underway _ seen.2.2⟩,
      fun _ seen => ⟨seen.1, seen.2.request.2, seen.2⟩⟩
  have reads := readCount_ends prompt (readCount_begins prompt.faithful (by decide) low high
    fun history asked => foldl_goesOn
      (fun _ (asked : Asked serve taken txbuf _) => asked.step some short) stable_underway
      (prompt.bmc history) asked)
  apply Triple.bind _ reads
  intro count
  apply Triple.ite
  · intro _
    apply Triple.pure
    rintro _ ⟨_, _, _, _, _, underway⟩
    exact underway
  · rintro nonzero _ ⟨first, second, rfl, rfl, rfl, _⟩
    exact absurd rfl nonzero

theorem readCount_answered (prompt : Prompt dev serve acts start)
    (small : (serve taken).length < 65536) :
    Triple (Holds serve acts start (Underway serve taken)) (readCount dev responseCountAddress)
      (fun count => Holds serve acts start fun box => count = (serve taken).length ∧
        Underway serve taken box) fun _ _ => False := by
  have low : Sees serve (Answered taken (serve taken)) responseCountAddress
      fun first box => first = BitVec.ofNat 8 (serve taken).length ∧
        Answered taken (serve taken) box :=
    ⟨fun _ answered => answered.step, fun _ _ seen => ⟨seen.1, seen.2.step⟩,
      fun _ answered => ⟨answered.responseLow, answered⟩⟩
  have high : ∀ first : Byte, Sees serve
      (fun box => first = BitVec.ofNat 8 (serve taken).length ∧ Answered taken (serve taken) box)
      (responseCountAddress + 1) fun second box =>
        [first, second] = countBytes (serve taken).length ∧ Answered taken (serve taken) box :=
    fun _ => ⟨fun _ seen => ⟨seen.1, seen.2.step⟩, fun _ _ seen => ⟨seen.1, seen.2.step⟩,
      fun _ seen => ⟨by rw [seen.1, seen.2.responseHigh]; rfl, seen.2⟩⟩
  have reads := readCount_ends prompt (readCount_begins prompt.faithful (by decide) low high
    fun history underway => foldl_goesOn
      (fun _ (underway : Underway serve taken _) => underway.step)
      (fun _ answered => answered.step) (prompt.bmc history) underway)
  apply reads.consequence (fun _ underway => underway) _ fun _ _ failed => failed
  rintro _ _ ⟨first, second, rfl, same, answered⟩
  exact ⟨by rw [same, number_countBytes small], .answered answered⟩

/-- The second look at the count finds what the first one has found. -/
theorem awaitResponse_prompt (prompt : Prompt dev serve acts start)
    (small : (serve taken).length < 65536) (nonempty : 0 < (serve taken).length) (rounds : Nat) :
    Triple (Holds serve acts start (Underway serve taken)) (awaitResponse dev 0 (rounds + 2))
      (fun _ _ => True) fun _ _ => False := by
  have found : ∀ lastCount (rest : Nat → Driver Nat),
      (lastCount = (serve taken).length ∨ ∀ count, Triple (Holds serve acts start fun box =>
        count = (serve taken).length ∧ Underway serve taken box) (rest count)
        (fun _ _ => True) fun _ _ => False) →
      Triple (Holds serve acts start (Underway serve taken))
        (readCount dev responseCountAddress >>= fun count =>
          if count = 0 ∨ count ≠ lastCount then rest count else pure count)
        (fun _ _ => True) fun _ _ => False := by
    intro lastCount rest later
    apply Triple.bind _ (readCount_answered prompt small)
    intro count
    apply Triple.ite
    · intro again
      cases later with
      | inl same =>
          rintro _ ⟨rfl, _⟩
          omega
      | inr later => exact later count
    · exact fun _ => Triple.pure fun _ _ => trivial
  apply found 0 (fun count => awaitResponse dev count (rounds + 1)) (.inr _)
  intro count
  apply Triple.of_fact
  rintro rfl
  exact found _ (fun count => awaitResponse dev count rounds) (.inl rfl)

end Progress

section Transaction

variable {rxlen : Nat} {calls : List (List Byte × Nat)}

theorem avmmiWrite8s_ends {pre : List Event → Prop} {fail : Errno → List Event → Prop}
    (addr : Nat) (bytes : List Byte) :
    Triple pre (avmmiWrite8s addr bytes) (fun _ _ => True) fail := by
  induction bytes generalizing pre addr with
  | nil => exact Triple.pure fun _ _ => trivial
  | cons byte bytes ih =>
      apply Triple.bind (fun _ _ => True)
      · apply Triple.bind (fun _ _ => True)
        · exact Triple.modify fun _ _ => trivial
        · exact fun _ => Triple.modify fun _ _ => trivial
      · exact fun _ => ih (addr + 1)

theorem takeResponse_prompt (prompt : Prompt dev serve acts start) (count : Nat) :
    Triple (fun _ => True) (takeResponse dev count rxlen) (fun _ _ => True)
      fun err _ => err = .enomem := by
  apply Triple.bind (fun ret _ => (∀ err, ret = .error err → err = .enomem) ∧ True)
  · apply Triple.ite
    · intro _
      apply Triple.bind _ ((avmmiRead8s_prompt prompt count).consequence (fun _ holds => holds)
        (fun _ _ ends => ends) fun _ _ failed => failed.elim)
      intro rxbuf
      exact Triple.pure fun _ _ => ⟨fun _ same => (nomatch same), trivial⟩
    · intro _
      apply Triple.pure
      refine fun _ _ => ⟨?_, trivial⟩
      rintro _ ⟨⟩
      rfl
  intro ret
  apply Triple.of_fact
  intro known
  apply Triple.bind _ (avmmiWrite8s_ends _ _)
  intro _
  exact Triple.conclude (fun _ _ _ _ => trivial) fun err same _ _ => known err same

theorem exchange_prompt (prompt : Prompt dev serve acts start) (some : 0 < txbuf.length)
    (short : txbuf.length < 256) (small : (serve (txbuf :: taken)).length < 65536)
    (nonempty : 0 < (serve (txbuf :: taken)).length) :
    Triple (Holds serve acts start (Quiet taken)) (exchange dev txbuf rxlen) (fun _ _ => True)
      fun err _ => err = .enomem := by
  apply Triple.bind _ (avmmiWrite8s_whole (by omega))
  intro _
  apply Triple.bind _ (avmmiWrite8s_count some short)
  intro _
  have manyPolls : polls = 1999998 + 2 := rfl
  rw [manyPolls]
  apply Triple.bind _ ((awaitTaken_prompt prompt some short (1999998 + 1)).consequence
    (fun _ asked => asked) (fun _ _ underway => underway) fun _ _ failed => failed.elim)
  intro _
  apply Triple.bind _ ((awaitResponse_prompt prompt small nonempty 1999998).consequence
    (fun _ underway => underway) (fun _ _ ends => ends) fun _ _ failed => failed.elim)
  exact takeResponse_prompt prompt

theorem avmmiSendOne_prompt (prompt : Prompt dev serve acts start) (priv : dev.priv = true)
    (some : 0 < txbuf.length) (short : txbuf.length < 256)
    (small : (serve (txbuf :: taken)).length < 65536)
    (nonempty : 0 < (serve (txbuf :: taken)).length) :
    Triple (Holds serve acts start (Quiet taken)) (avmmiSendOne dev txbuf rxlen)
      (fun _ _ => True) fun err _ => err = .enomem := by
  apply avmmiSendOne_checked priv short
  apply Triple.bind _ (note_lock (stable_of_calm fun _ quiet => quiet.toCalm) fun _ => rfl)
  intro _
  apply Triple.attempt_bind (exchange_prompt prompt some short small nonempty)
  · intro rxbuf
    apply Triple.bind (fun _ _ => True) (Triple.modify fun _ _ => trivial)
    intro _
    exact Triple.conclude (fun _ _ _ _ => trivial) fun _ is => nomatch is
  · intro err
    apply Triple.bind (fun _ _ => err = .enomem) (Triple.modify fun _ same => same)
    intro _
    exact Triple.conclude (fun _ _ _ _ => trivial) fun _ is _ same => by cases is; exact same

/-- Where no transaction times out, all of them settle. -/
theorem sendAll_settles (prompt : Prompt dev serve acts start) (priv : dev.priv = true)
    (requests : ∀ call ∈ calls, 0 < call.1.length ∧ call.1.length < 256)
    (replies : ∀ requests, 0 < (serve requests).length ∧ (serve requests).length < 65536) :
    Triple (Holds serve acts start (Quiet taken)) (sendAll dev calls)
      (fun rets _ => rets = outcomes serve taken calls) fun _ _ => False := by
  induction calls generalizing taken with
  | nil => exact Triple.pure fun _ _ => rfl
  | cons call calls ih =>
      obtain ⟨txbuf, rxlen⟩ := call
      have request : 0 < txbuf.length ∧ txbuf.length < 256 :=
        requests (txbuf, rxlen) (List.mem_cons_self ..)
      have reply := replies (txbuf :: taken)
      have ends : Triple (Holds serve acts start (Quiet taken)) (avmmiSendOne dev txbuf rxlen)
          (fun rxbuf => Settled serve acts start (txbuf :: taken) (serve (txbuf :: taken)) rxlen
            (.ok rxbuf))
          fun err => Settled serve acts start (txbuf :: taken) (serve (txbuf :: taken)) rxlen
            (.error err) := by
        apply ((avmmiSendOne_settles prompt.faithful priv request.1 request.2 reply.2).and
          (avmmiSendOne_prompt prompt priv request.1 request.2 reply.2 reply.1)).consequence
          (fun _ quiet => ⟨quiet, quiet⟩) fun _ _ ends => ends.1
        rintro err _ ⟨late | settled, same⟩
        · rw [late] at same
          cases same
        · exact settled
      have later : ∀ taken, Triple (Holds serve acts start (Quiet taken)) (sendAll dev calls)
          (fun rets _ => rets = outcomes serve taken calls) fun _ _ => False :=
        fun _ => ih fun call member => requests call (List.mem_cons_of_mem _ member)
      have goesOn : ∀ ret, Triple (Settled serve acts start (txbuf :: taken)
          (serve (txbuf :: taken)) rxlen ret)
          (if timedOut ret = true then pure [ret]
          else do
            let rets ← sendAll dev calls
            pure (ret :: rets))
          (fun rets _ => rets = outcomes serve taken ((txbuf, rxlen) :: calls))
          fun _ _ => False := by
        intro ret
        apply Triple.of_fact
        rintro rfl
        rw [timedOut_outcome]
        apply Triple.bind _ (later (txbuf :: taken))
        intro rets
        exact Triple.pure fun _ same => congrArg _ same
      exact Triple.attempt_bind ends (fun _ => goesOn _) fun _ => goesOn _

/-- With a prompt board controller each request gets the response to it. -/
theorem sendAll_answers (prompt : Prompt dev serve acts start) (priv : dev.priv = true)
    (quiet : Quiet [] start.box)
    (requests : ∀ call ∈ calls, 0 < call.1.length ∧ call.1.length < 256)
    (replies : ∀ requests, 0 < (serve requests).length ∧ (serve requests).length < 65536) :
    ∃ history, sendAll dev calls [] = .ok (outcomes serve [] calls) history := by
  obtain ⟨_, history, result, rfl⟩ :=
    (sendAll_settles prompt priv requests replies).succeeds [] quiet
  exact ⟨history, result⟩

theorem valid_shown (addr : Nat) (value : Byte) :
    valid (shown (some (addr, some value))) = true := by
  show (value.setWidth 64 ||| 0x100#64).getLsbD 8 = true
  rw [BitVec.getLsbD_or]
  exact Bool.or_true _

theorem deviceOf_prompt {patience : List Event → Nat} (bmc : ∀ history, Act.bmc ∈ acts history)
    (fetch : ∀ history, Act.fetch ∈ acts history) :
    Prompt (deviceOf serve acts start patience) serve acts start where
  faithful := deviceOf_faithful patience
  bmc := bmc
  fetch := fetch
  shows history addr value fetched := by
    show valid (shown _) = true
    rw [fetched]
    exact valid_shown addr value

/-- A prompt board controller answers with 300 bytes, and then with one. -/
theorem sendAll_answers_long : ∃ history,
    sendAll (deviceOf longFirst (fun _ => [.bmc, .fetch]) restingBoard fun _ => 3) (twoCalls 1024)
        [] = .ok [.ok (List.replicate 300 7), .ok [9]] history := by
  have prompt : Prompt (deviceOf longFirst (fun _ => [.bmc, .fetch]) restingBoard fun _ => 3)
      longFirst (fun _ => [.bmc, .fetch]) restingBoard :=
    deviceOf_prompt (fun _ => by decide) fun _ => by decide
  obtain ⟨history, result⟩ := sendAll_answers prompt rfl quiet_restingBoard (twoCalls_short 1024)
    longFirst_length
  rw [outcomes_longFirst, if_pos (by decide)] at result
  exact ⟨history, result⟩

end Transaction

end OpaeXilinx.Bmc
