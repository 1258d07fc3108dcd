import Mathlib.Data.List.Infix
import OpaeXilinx.Bmc.Registers

/-!
# Transactions with the board controller

The driver and the board controller take turns without looking at each other's steps: whatever the
order of these steps is, each request gets the response to it.
-/

namespace OpaeXilinx.Bmc

open OpaeXilinx.Base
open OpaeXilinx.Base.NorMemory (programmed contents)

variable {serve : List (List Byte) → List Byte} {acts : List Event → List Act} {start : Board}
  {dev : Device} {taken : List (List Byte)} {txbuf reply : List Byte}

section Request

variable {box : Mailbox} {fail : Errno → List Event → Prop}

theorem store_same {addr : Nat} {val : Byte} (same : box.mem addr = val) :
    box.store addr [val] = box := by
  have kept : (box.store addr [val]).mem = box.mem := by
    show Function.update box.mem addr val = box.mem
    rw [← same, Function.update_eq_self]
  exact congrArg (fun mem => { box with mem }) kept

/-- A byte outside of the request and of the counts. -/
theorem Quiet.store {addr : Nat} {val : Byte} (quiet : Quiet taken box)
    (above : requestAddress ≤ addr) (below : addr < responseCountAddress) :
    Quiet taken (box.store addr [val]) := by
  have other : ∀ x, x < requestAddress ∨ responseCountAddress ≤ x →
      (box.store addr [val]).mem x = box.mem x := by
    intro x outside
    apply store_outside
    rw [List.length_singleton]
    omega
  refine ⟨⟨quiet.idle, quiet.taken, ?_, ?_⟩, ?_, ?_⟩
  · exact (other _ (by decide)).trans quiet.requestLow
  · exact (other _ (by decide)).trans quiet.requestHigh
  · exact (other _ (by decide)).trans quiet.responseLow
  · exact (other _ (by decide)).trans quiet.responseHigh

theorem Writing.store {bytes : List Byte} {val : Byte} (writing : Writing taken bytes box)
    (short : bytes.length < 1024) :
    Writing taken (bytes ++ [val]) (box.store (requestAddress + bytes.length) [val]) := by
  refine ⟨writing.toQuiet.store (Nat.le_add_right ..) ?_, ?_⟩
  · show 0x1002 + bytes.length < 0x1800
    omega
  rw [List.length_append, NorMemory.contents_add,
    contents_store_outside (.inl (Nat.le_refl _)), writing.request]
  exact congrArg (bytes ++ ·) contents_stored

/-- The rest of a request is written behind what is there. -/
theorem avmmiWrite8s_request (bytes rest : List Byte) (fits : bytes.length + rest.length ≤ 1024) :
    Triple (Holds serve acts start (Writing taken bytes))
      (avmmiWrite8s (requestAddress + bytes.length) rest)
      (fun _ => Holds serve acts start (Writing taken (bytes ++ rest))) fail := by
  induction rest generalizing bytes with
  | nil =>
      rw [List.append_nil]
      exact Triple.pure fun _ writing => writing
  | cons byte rest ih =>
      rw [List.length_cons] at fits
      have small : requestAddress + bytes.length < 65536 := by
        show 0x1002 + bytes.length < 65536
        omega
      apply Triple.bind (fun _ => Holds serve acts start (Writing taken (bytes ++ [byte])))
      · exact avmmiWrite8_stores small (stable_of_calm fun _ writing => writing.toCalm)
          fun _ writing => writing.store (by omega)
      intro _
      have next := ih (bytes ++ [byte]) (by rw [List.length_append, List.length_singleton]; omega)
      rw [List.append_assoc, List.length_append] at next
      exact next

/-- A whole request is written. -/
theorem avmmiWrite8s_whole (fits : txbuf.length ≤ 1024) :
    Triple (Holds serve acts start (Quiet taken)) (avmmiWrite8s requestAddress txbuf)
      (fun _ => Holds serve acts start (Writing taken txbuf)) fail := by
  have room : ([] : List Byte).length + txbuf.length ≤ 1024 := by
    rwa [List.length_nil, Nat.zero_add]
  exact (avmmiWrite8s_request [] txbuf room).consequence (fun _ quiet => ⟨quiet, rfl⟩)
    (fun _ _ writing => writing) fun _ _ failed => failed

theorem Writing.announce (writing : Writing taken txbuf box) :
    Announced taken txbuf (box.store requestCountAddress [BitVec.ofNat 8 txbuf.length]) := by
  have other : ∀ x, requestCountAddress < x →
      (box.store requestCountAddress [BitVec.ofNat 8 txbuf.length]).mem x = box.mem x :=
    fun x above => store_outside (.inr above)
  refine ⟨writing.idle, writing.taken, ?_, ?_, ?_, ?_, ?_⟩
  · exact NorMemory.programmed_inside (x := 0) (by exact Nat.zero_lt_one)
  · exact (other _ (by decide)).trans writing.requestHigh
  · exact (other _ (by decide)).trans writing.responseLow
  · exact (other _ (by decide)).trans writing.responseHigh
  · exact (contents_store_outside (.inr (Nat.le_succ _))).trans writing.request

theorem Asked.requestHigh (asked : Asked serve taken txbuf box) :
    box.mem (requestCountAddress + 1) = 0 := by
  cases asked with
  | announced stage => exact stage.requestHigh
  | working stage => exact stage.requestHigh
  | answered stage => exact stage.requestHigh

/-- The count of a request of less than 256 bytes is complete with its first byte. -/
theorem avmmiWrite8s_count (some : 0 < txbuf.length) (short : txbuf.length < 256) :
    Triple (Holds serve acts start (Writing taken txbuf))
      (avmmiWrite8s requestCountAddress (countBytes txbuf.length))
      (fun _ => Holds serve acts start (Asked serve taken txbuf)) fail := by
  have high : BitVec.ofNat 8 (txbuf.length / 256) = 0 := by
    rw [Nat.div_eq_of_lt short]
    rfl
  apply Triple.bind (fun _ => Holds serve acts start (Asked serve taken txbuf))
  · exact avmmiWrite8_stores (by decide) (stable_of_calm fun _ writing => writing.toCalm)
      fun _ writing => .announced writing.announce
  intro _
  apply Triple.bind (fun _ => Holds serve acts start (Asked serve taken txbuf))
  · apply avmmiWrite8_stores (by decide) (stable_asked some short)
    intro box asked
    rw [high, store_same asked.requestHigh]
    exact asked
  intro _
  exact Triple.pure fun _ asked => asked

theorem awaitTaken_keeps (faithful : Faithful dev serve acts start) (some : 0 < txbuf.length)
    (short : txbuf.length < 256) (rounds : Nat) :
    Triple (Holds serve acts start (Asked serve taken txbuf)) (awaitTaken dev rounds)
      (fun _ => Holds serve acts start (Asked serve taken txbuf))
      fun err _ => err = .etimedout := by
  have stable : Stable serve (Asked serve taken txbuf) := stable_asked some short
  induction rounds with
  | zero => exact Triple.throw fun _ _ => rfl
  | succ rounds ih =>
      apply Triple.bind (fun _ => Holds serve acts start (Asked serve taken txbuf))
      · have sees : ∀ addr, Sees serve (Asked serve taken txbuf) addr
            fun _ => Asked serve taken txbuf :=
          fun _ => ⟨stable, fun _ => stable, fun _ asked => asked⟩
        refine (readCount_sees faithful (by decide) (sees _) fun _ => sees _).consequence
          (fun _ asked => asked) ?_ fun _ _ failed => failed
        rintro _ _ ⟨_, _, _, asked⟩
        exact asked
      intro count
      exact Triple.ite (fun _ => Triple.pure fun _ asked => asked) fun _ => ih

end Request

/-- What is known when a count has been seen. -/
structure Counted (serve : List (List Byte) → List Byte) (taken : List (List Byte))
    (txbuf : List Byte) (lastCount : Nat) (box : Mailbox) : Prop where
  asked : Asked serve taken txbuf box
  answered : lastCount ≠ 0 → Answered (txbuf :: taken) (serve (txbuf :: taken)) box

/-- The same, with the first byte of the next count. -/
structure CountedLow (serve : List (List Byte) → List Byte) (taken : List (List Byte))
    (txbuf : List Byte) (lastCount : Nat) (low : Byte) (box : Mailbox) : Prop
    extends Counted serve taken txbuf lastCount box where
  lowThere : low ≠ 0 → Answered (txbuf :: taken) (serve (txbuf :: taken)) box
  lowSame : lastCount ≠ 0 → low = BitVec.ofNat 8 (serve (txbuf :: taken)).length

/-- The same, with both of its bytes. -/
structure CountedBoth (serve : List (List Byte) → List Byte) (taken : List (List Byte))
    (txbuf : List Byte) (lastCount : Nat) (low high : Byte) (box : Mailbox) : Prop
    extends CountedLow serve taken txbuf lastCount low box where
  highThere : high ≠ 0 → Answered (txbuf :: taken) (serve (txbuf :: taken)) box
  highSame : lastCount ≠ 0 → high = BitVec.ofNat 8 ((serve (txbuf :: taken)).length / 256)

section Response

variable {box : Mailbox} {lastCount : Nat} {low high : Byte} {fail : Errno → List Event → Prop}

theorem Answered.step (answered : Answered taken reply box) :
    Answered taken reply (box.step serve) := by
  rwa [answered.toCalm.step]

theorem Asked.answered_of_low (asked : Asked serve taken txbuf box)
    (there : box.mem responseCountAddress ≠ 0) :
    Answered (txbuf :: taken) (serve (txbuf :: taken)) box := by
  cases asked with
  | announced stage => exact absurd stage.responseLow there
  | working stage => exact absurd stage.responseLow there
  | answered stage => exact stage

theorem Asked.answered_of_high (asked : Asked serve taken txbuf box)
    (there : box.mem (responseCountAddress + 1) ≠ 0) :
    Answered (txbuf :: taken) (serve (txbuf :: taken)) box := by
  cases asked with
  | announced stage => exact absurd stage.responseHigh there
  | working stage => exact absurd stage.responseHigh there
  | answered stage => exact stage

theorem stable_counted (some : 0 < txbuf.length) (short : txbuf.length < 256) :
    Stable serve (Counted serve taken txbuf lastCount) :=
  fun _ counted => ⟨stable_asked some short _ counted.asked,
    fun nonzero => (counted.answered nonzero).step⟩

theorem stable_countedLow (some : 0 < txbuf.length) (short : txbuf.length < 256) :
    Stable serve (CountedLow serve taken txbuf lastCount low) :=
  fun _ counted => ⟨stable_counted some short _ counted.toCounted,
    fun nonzero => (counted.lowThere nonzero).step, counted.lowSame⟩

theorem stable_countedBoth (some : 0 < txbuf.length) (short : txbuf.length < 256) :
    Stable serve (CountedBoth serve taken txbuf lastCount low high) :=
  fun _ counted => ⟨stable_countedLow some short _ counted.toCountedLow,
    fun nonzero => (counted.highThere nonzero).step, counted.highSame⟩

theorem sees_countedLow (some : 0 < txbuf.length) (short : txbuf.length < 256) :
    Sees serve (Counted serve taken txbuf lastCount) responseCountAddress
      (CountedLow serve taken txbuf lastCount) :=
  ⟨stable_counted some short, fun _ => stable_countedLow some short,
    fun _ counted => ⟨counted, counted.asked.answered_of_low,
      fun nonzero => (counted.answered nonzero).responseLow⟩⟩

theorem sees_countedBoth (some : 0 < txbuf.length) (short : txbuf.length < 256) :
    Sees serve (CountedLow serve taken txbuf lastCount low) (responseCountAddress + 1)
      (CountedBoth serve taken txbuf lastCount low) :=
  ⟨stable_countedLow some short, fun _ => stable_countedBoth some short,
    fun _ counted => ⟨counted, counted.asked.answered_of_high,
      fun nonzero => (counted.answered nonzero).responseHigh⟩⟩

/-- A count that is not zero says that the response is there, if not how long it is. -/
theorem CountedBoth.next (counted : CountedBoth serve taken txbuf lastCount low high box) :
    Counted serve taken txbuf (number [low, high]) box := by
  refine ⟨counted.asked, fun nonzero => ?_⟩
  by_cases lowZero : low = 0
  · apply counted.highThere
    rintro rfl
    rw [lowZero] at nonzero
    exact nonzero rfl
  · exact counted.lowThere lowZero

/-- A count that is read when the response is there says how long it is. -/
theorem CountedBoth.length (counted : CountedBoth serve taken txbuf lastCount low high box)
    (nonzero : lastCount ≠ 0) (small : (serve (txbuf :: taken)).length < 65536) :
    number [low, high] = (serve (txbuf :: taken)).length := by
  rw [counted.lowSame nonzero, counted.highSame nonzero]
  exact number_countBytes small

theorem awaitResponse_counts (faithful : Faithful dev serve acts start) (some : 0 < txbuf.length)
    (short : txbuf.length < 256) (small : (serve (txbuf :: taken)).length < 65536)
    (lastCount rounds : Nat) :
    Triple (Holds serve acts start (Counted serve taken txbuf lastCount))
      (awaitResponse dev lastCount rounds)
      (fun count => Holds serve acts start fun box => count = (serve (txbuf :: taken)).length ∧
        Answered (txbuf :: taken) (serve (txbuf :: taken)) box)
      fun err _ => err = .etimedout := by
  induction rounds generalizing lastCount with
  | zero => exact Triple.throw fun _ _ => rfl
  | succ rounds ih =>
      apply Triple.bind _ (readCount_sees faithful (by decide) (sees_countedLow some short)
        fun _ => sees_countedBoth some short)
      intro count
      apply Triple.ite
      · intro _
        apply (ih count).consequence _ (fun _ _ counts => counts) fun _ _ failed => failed
        rintro _ ⟨low, high, rfl, counted⟩
        exact counted.next
      · intro accepted
        apply Triple.pure
        rintro _ ⟨low, high, rfl, counted⟩
        rw [not_or, Decidable.not_not] at accepted
        have nonzero : lastCount ≠ 0 := accepted.2 ▸ accepted.1
        exact ⟨counted.length nonzero small, counted.answered nonzero⟩

/-- The response is taken away. -/
theorem avmmiWrite8s_taken :
    Triple (Holds serve acts start (Calm taken)) (avmmiWrite8s responseCountAddress (countBytes 0))
      (fun _ => Holds serve acts start (Quiet taken)) fail := by
  have calm : ∀ addr val box, Calm taken box → responseCountAddress ≤ addr →
      Calm taken (box.store addr [val]) := by
    intro addr val box calm above
    have other : ∀ x < responseCountAddress, (box.store addr [val]).mem x = box.mem x :=
      fun x below => store_outside (.inl (Nat.lt_of_lt_of_le below above))
    exact ⟨calm.idle, calm.taken, (other _ (by decide)).trans calm.requestLow,
      (other _ (by decide)).trans calm.requestHigh⟩
  have stored : ∀ addr (val : Byte) (box : Mailbox), (box.store addr [val]).mem addr = val :=
    fun addr val box => NorMemory.programmed_inside (x := 0) (by exact Nat.zero_lt_one)
  apply Triple.bind (fun _ => Holds serve acts start fun box =>
    Calm taken box ∧ box.mem responseCountAddress = 0)
  · exact avmmiWrite8_stores (by decide) (stable_of_calm fun _ calm => calm) fun box holds =>
      ⟨calm _ _ box holds (Nat.le_refl _), stored _ _ box⟩
  intro _
  apply Triple.bind (fun _ => Holds serve acts start (Quiet taken))
  · apply avmmiWrite8_stores (by decide) (stable_of_calm fun _ holds => And.left holds)
    rintro box ⟨holds, low⟩
    exact ⟨calm _ _ box holds (Nat.le_succ _),
      (store_outside (.inl (Nat.lt_succ_self _))).trans low, stored _ _ box⟩
  intro _
  exact Triple.pure fun _ quiet => quiet

theorem avmmiRead8s_response (faithful : Faithful dev serve acts start)
    (fits : reply.length ≤ maxPacketSize) :
    Triple (Holds serve acts start (Answered taken reply))
      (avmmiRead8s dev responseAddress reply.length)
      (fun bytes => Holds serve acts start fun box => bytes = reply ∧ Answered taken reply box)
      fun err _ => err = .etimedout := by
  intro history answered
  have inside : responseAddress + reply.length ≤ 65536 := by
    show 0x1802 + reply.length ≤ 65536
    have bound : reply.length ≤ 1024 := fits
    omega
  have read := avmmiRead8s_calm faithful (Answered.toCalm answered) inside
  apply read.consequence (fun _ same => same) _ (fun _ _ failed => failed) history rfl
  rintro bytes _ ⟨rfl, same⟩
  exact ⟨Answered.response answered, same ▸ answered⟩

end Response

/-! ## A whole transaction -/

/-- What a response in time amounts to. -/
def outcome (reply : List Byte) (rxlen : Nat) : Except Errno (List Byte) :=
  if reply.length ≤ maxPacketSize ∧ reply.length ≤ rxlen then .ok reply else .error .enomem

/-- A result after which the mailbox is quiet again. -/
def Settled (serve : List (List Byte) → List Byte) (acts : List Event → List Act) (start : Board)
    (taken : List (List Byte)) (reply : List Byte) (rxlen : Nat)
    (ret : Except Errno (List Byte)) (history : List Event) : Prop :=
  ret = outcome reply rxlen ∧ Holds serve acts start (Quiet taken) history

section Transaction

variable {rxlen : Nat}

/-- A program that ends with a timeout at worst is one that ends so or in some other way. -/
theorem timeout_or {α : Type} {pre : List Event → Prop} {program : Driver α}
    {post : α → List Event → Prop} {other : Errno → List Event → Prop}
    (triple : Triple pre program post fun err _ => err = .etimedout) :
    Triple pre program post fun err history => err = .etimedout ∨ other err history :=
  triple.consequence (fun _ holds => holds) (fun _ _ holds => holds) fun _ _ late => .inl late

theorem takeResponse_settles (faithful : Faithful dev serve acts start) :
    Triple (Holds serve acts start (Answered taken reply)) (takeResponse dev reply.length rxlen)
      (fun rxbuf => Settled serve acts start taken reply rxlen (.ok rxbuf))
      fun err history => err = .etimedout ∨
        Settled serve acts start taken reply rxlen (.error err) history := by
  apply Triple.bind (fun ret history => ret = outcome reply rxlen ∧
    Holds serve acts start (Calm taken) history)
  · apply Triple.ite
    · intro fits
      apply Triple.bind _ (timeout_or (avmmiRead8s_response faithful fits.1))
      intro rxbuf
      apply Triple.pure
      rintro _ ⟨rfl, answered⟩
      exact ⟨(if_pos fits).symm, answered.toCalm⟩
    · intro long
      exact Triple.pure fun _ answered => ⟨(if_neg long).symm, Answered.toCalm answered⟩
  intro ret
  apply Triple.of_fact
  intro same
  apply Triple.bind _ avmmiWrite8s_taken
  intro _
  apply Triple.conclude
  · rintro rxbuf rfl _ quiet
    exact ⟨same, quiet⟩
  · rintro err rfl _ quiet
    exact .inr ⟨same, quiet⟩

theorem exchange_settles (faithful : Faithful dev serve acts start) (some : 0 < txbuf.length)
    (short : txbuf.length < 256) (small : (serve (txbuf :: taken)).length < 65536) :
    Triple (Holds serve acts start (Quiet taken)) (exchange dev txbuf rxlen)
      (fun rxbuf => Settled serve acts start (txbuf :: taken) (serve (txbuf :: taken)) rxlen
        (.ok rxbuf))
      fun err history => err = .etimedout ∨ Settled serve acts start (txbuf :: taken)
        (serve (txbuf :: taken)) rxlen (.error err) history := by
  apply Triple.bind _ (avmmiWrite8s_whole (by omega))
  intro _
  apply Triple.bind _ (avmmiWrite8s_count some short)
  intro _
  apply Triple.bind _ (timeout_or (awaitTaken_keeps faithful some short polls))
  intro _
  have counts := awaitResponse_counts faithful some short small 0 polls
  apply Triple.bind _ (timeout_or (counts.consequence
    (fun _ asked => ⟨asked, fun nonzero => absurd rfl nonzero⟩) (fun _ _ counts => counts)
    fun _ _ late => late))
  intro count
  apply Triple.of_fact
  rintro rfl
  exact takeResponse_settles faithful

/-- The checks before a transaction are passed. -/
theorem avmmiSendOne_checked {pre : List Event → Prop} {post : List Byte → List Event → Prop}
    {fail : Errno → List Event → Prop} (priv : dev.priv = true) (short : txbuf.length < 256)
    (locked : Triple pre (do
        note .mutexLock
        let ret ← attempt (exchange dev txbuf rxlen)
        note .mutexUnlock
        conclude ret) post fail) :
    Triple pre (avmmiSendOne dev txbuf rxlen) post fail := by
  have fits : ¬ maxPacketSize < txbuf.length := by
    show ¬ 1024 < txbuf.length
    omega
  apply Triple.bind (fun _ => pre)
  · exact Triple.throwIf (fun missing => by rw [priv] at missing; cases missing)
      fun _ _ holds => holds
  intro _
  apply Triple.bind (fun _ => pre)
  · exact Triple.throwIf (fun long => absurd long fits) fun _ _ holds => holds
  intro _
  exact locked

theorem avmmiSendOne_settles (faithful : Faithful dev serve acts start) (priv : dev.priv = true)
    (some : 0 < txbuf.length) (short : txbuf.length < 256)
    (small : (serve (txbuf :: taken)).length < 65536) :
    Triple (Holds serve acts start (Quiet taken)) (avmmiSendOne dev txbuf rxlen)
      (fun rxbuf => Settled serve acts start (txbuf :: taken) (serve (txbuf :: taken)) rxlen
        (.ok rxbuf))
      fun err history => err = .etimedout ∨ Settled serve acts start (txbuf :: taken)
        (serve (txbuf :: taken)) rxlen (.error err) history := by
  have quietStays : ∀ {taken}, Stable serve (Quiet taken) :=
    stable_of_calm fun _ quiet => quiet.toCalm
  apply avmmiSendOne_checked priv short
  apply Triple.bind _ (note_lock quietStays fun _ => rfl)
  intro _
  apply Triple.attempt_bind (exchange_settles faithful some short small)
  · intro rxbuf
    apply Triple.of_fact
    intro same
    apply Triple.bind _ (note_lock quietStays fun _ => rfl)
    intro _
    apply Triple.conclude
    · rintro _ ⟨⟩ _ quiet
      exact ⟨same, quiet⟩
    · rintro _ ⟨⟩
  · intro err
    apply Triple.bind (fun _ history => err = .etimedout ∨ Settled serve acts start
      (txbuf :: taken) (serve (txbuf :: taken)) rxlen (.error err) history)
    · intro history failed
      cases failed with
      | inl late => exact .inl late
      | inr settled =>
          have unlocked : Triple (Holds serve acts start (Quiet (txbuf :: taken)))
              (note .mutexUnlock) (fun _ => Holds serve acts start (Quiet (txbuf :: taken)))
              fun _ _ => False := note_lock quietStays fun _ => rfl
          exact .inr ⟨settled.1, unlocked history settled.2⟩
    intro _
    apply Triple.conclude
    · rintro _ ⟨⟩
    · rintro _ ⟨⟩ _ failed
      exact failed

end Transaction

def timedOut : Except Errno (List Byte) → Bool
  | .error .etimedout => true
  | _ => false

/-- Transactions in a row, until one of them has timed out. -/
def sendAll (dev : Device) :
    List (List Byte × Nat) → Driver (List (Except Errno (List Byte)))
  | [] => pure []
  | (txbuf, rxlen) :: calls => do
      let ret ← attempt (avmmiSendOne dev txbuf rxlen)
      if timedOut ret = true then pure [ret]
      else do
        let rets ← sendAll dev calls
        pure (ret :: rets)

/-- What the responses to requests in a row amount to. -/
def outcomes (serve : List (List Byte) → List Byte) :
    List (List Byte) → List (List Byte × Nat) → List (Except Errno (List Byte))
  | _, [] => []
  | taken, (txbuf, rxlen) :: calls =>
      outcome (serve (txbuf :: taken)) rxlen :: outcomes serve (txbuf :: taken) calls

/-- The results are as expected, but for a timeout at their end. -/
def UpToTimeout (rets expected : List (Except Errno (List Byte))) : Prop :=
  rets = expected ∨ ∃ n < expected.length, rets = expected.take n ++ [.error .etimedout]

section Runs

variable {rets expected : List (Except Errno (List Byte))} {calls : List (List Byte × Nat)}

theorem timedOut_outcome (reply : List Byte) (rxlen : Nat) :
    timedOut (outcome reply rxlen) = false := by
  rw [outcome]
  split <;> rfl

theorem UpToTimeout.cons {ret : Except Errno (List Byte)} (upTo : UpToTimeout rets expected) :
    UpToTimeout (ret :: rets) (ret :: expected) := by
  obtain rfl | ⟨n, early, rfl⟩ := upTo
  · exact .inl rfl
  · exact .inr ⟨n + 1, Nat.succ_lt_succ early, rfl⟩

theorem sendAll_upToTimeout (faithful : Faithful dev serve acts start) (priv : dev.priv = true)
    (requests : ∀ call ∈ calls, 0 < call.1.length ∧ call.1.length < 256)
    (replies : ∀ requests, (serve requests).length < 65536) :
    Triple (Holds serve acts start (Quiet taken)) (sendAll dev calls)
      (fun rets _ => UpToTimeout rets (outcomes serve taken calls)) fun _ _ => False := by
  induction calls generalizing taken with
  | nil => exact Triple.pure fun _ _ => .inl rfl
  | cons call calls ih =>
      obtain ⟨txbuf, rxlen⟩ := call
      have request : 0 < txbuf.length ∧ txbuf.length < 256 :=
        requests (txbuf, rxlen) (List.mem_cons_self ..)
      have settles : Triple (Holds serve acts start (Quiet taken)) (avmmiSendOne dev txbuf rxlen)
          _ _ := avmmiSendOne_settles faithful priv request.1 request.2 (replies (txbuf :: taken))
      apply Triple.attempt_bind settles
      · intro rxbuf
        apply Triple.of_fact
        intro same
        rw [same, timedOut_outcome]
        apply Triple.bind _ (ih fun call member => requests call (List.mem_cons_of_mem _ member))
        intro rets
        exact Triple.pure fun _ upTo => upTo.cons
      · rintro err history (rfl | ⟨same, quiet⟩)
        · exact .inr ⟨0, Nat.succ_pos _, rfl⟩
        · rw [same, timedOut_outcome]
          apply Triple.bind _ (ih fun call member => requests call
            (List.mem_cons_of_mem _ member)) _ history quiet
          intro rets
          exact Triple.pure fun _ upTo => upTo.cons

/-- Each request gets the response to it, until a transaction times out. -/
theorem sendAll_replies (faithful : Faithful dev serve acts start) (priv : dev.priv = true)
    (quiet : Quiet [] start.box)
    (requests : ∀ call ∈ calls, 0 < call.1.length ∧ call.1.length < 256)
    (replies : ∀ requests, (serve requests).length < 65536) :
    ∃ rets history, sendAll dev calls [] = .ok rets history ∧
      UpToTimeout rets (outcomes serve [] calls) :=
  (sendAll_upToTimeout faithful priv requests replies).succeeds [] quiet

/-- What the data register shows of what is read. -/
def shown : Option (Nat × Option Byte) → BitVec 64
  | some (_, some value) => value.setWidth 64 ||| 0x100#64
  | _ => 0

/-- The device in front of a board. -/
def deviceOf (serve : List (List Byte) → List Byte) (acts : List Event → List Act) (start : Board)
    (patience : List Event → Nat) : Device where
  priv := true
  rdata history := shown
    ((acts history).foldl (Board.act serve) (Board.after serve acts start history)).reading
  patience := patience

theorem shown_faithful {reading : Option (Nat × Option Byte)}
    (isValid : valid (shown reading) = true) :
    ∃ addr value, reading = some (addr, some value) ∧ (shown reading).setWidth 8 = value := by
  match reading with
  | none => cases isValid
  | some (_, none) => exact absurd (show valid 0 = true from isValid) (by decide)
  | some (addr, some value) =>
      refine ⟨addr, value, rfl, ?_⟩
      show (value.setWidth 64 ||| 0x100#64).setWidth 8 = value
      rw [BitVec.setWidth_or, BitVec.setWidth_setWidth_of_le _ (by decide), BitVec.setWidth_eq]
      exact BitVec.or_zero

theorem deviceOf_faithful (patience : List Event → Nat) :
    Faithful (deviceOf serve acts start patience) serve acts start :=
  fun _ isValid => shown_faithful isValid

/-- A board at rest. -/
def restingBoard : Board where
  box := ⟨fun _ => 0, false, []⟩
  wdata := 0
  reading := none

theorem quiet_restingBoard : Quiet [] restingBoard.box :=
  ⟨⟨rfl, rfl, rfl, rfl⟩, rfl, rfl⟩

/-- A board controller with a long response to the first request, and short ones after it. -/
def longFirst (requests : List (List Byte)) : List Byte :=
  if requests.length = 1 then List.replicate 300 7 else [9]

theorem longFirst_length (requests : List (List Byte)) :
    0 < (longFirst requests).length ∧ (longFirst requests).length < 65536 := by
  rw [longFirst]
  split
  · rw [List.length_replicate]
    decide
  · decide

/-- Two requests, with room for the second response. -/
def twoCalls (rxlen : Nat) : List (List Byte × Nat) := [([1, 2], rxlen), ([3], 4)]

theorem twoCalls_short (rxlen : Nat) :
    ∀ call ∈ twoCalls rxlen, 0 < call.1.length ∧ call.1.length < 256 := by
  simp [twoCalls]

theorem outcomes_longFirst (rxlen : Nat) :
    outcomes longFirst [] (twoCalls rxlen) =
      [if 300 ≤ rxlen then .ok (List.replicate 300 7) else .error .enomem, .ok [9]] := by
  have first : longFirst [[1, 2]] = List.replicate 300 7 := if_pos rfl
  have second : longFirst [[3], [1, 2]] = [9] := if_neg (by decide)
  have long : outcome (List.replicate 300 7) rxlen =
      if 300 ≤ rxlen then .ok (List.replicate 300 7) else .error .enomem := by
    rw [outcome, List.length_replicate]
    simp only [maxPacketSize, Nat.reduceLeDiff, true_and]
  have short : outcome [9] 4 = .ok [9] := if_pos (by decide)
  rw [twoCalls, outcomes, outcomes, outcomes, first, second, long, short]

/-- The board controller goes on while the driver waits for the low byte of the request's count,
and while it waits for the high byte of the response's. -/
def tearing (history : List Event) : List Act :=
  match history.head? with
  | some (.writeAddr reg) =>
    if reg = 0x21000#64 ∨ reg = 0x21801#64 then [.bmc, .fetch] else [.fetch]
  | _ => [.fetch]

/-- The driver reads a count of 256, the last access first. -/
def tornCount : List Event :=
  [.readData 0x101#64, .writeAddr 0x21801#64, .readData 0x100#64, .writeAddr 0x21800#64]

/-- There is room for 256 bytes of the first response, but not for all of it. -/
def tornRun : EStateM.Result Errno (List Event) (List (Except Errno (List Byte))) :=
  sendAll (deviceOf longFirst tearing restingBoard fun _ => 3) (twoCalls 280) []

/-- A run ends with a response to the second request only, and has read that count. -/
def endsTorn : EStateM.Result Errno (List Event) (List (Except Errno (List Byte))) → Bool
  | .ok rets history => rets.map Except.toOption = [none, some [9]] ∧ tornCount <:+: history
  | .error _ _ => false

/-- A count that is torn is read again: the response of 300 bytes is refused. -/
theorem sendAll_replies_torn : ∃ history, tornRun = .ok [.error .enomem, .ok [9]] history ∧
    tornCount <:+: history ∧
    UpToTimeout [.error .enomem, .ok [9]] (outcomes longFirst [] (twoCalls 280)) := by
  obtain ⟨rets, history, result, upTo⟩ := sendAll_replies (deviceOf_faithful fun _ => 3) rfl
    quiet_restingBoard (twoCalls_short 280) fun requests => (longFirst_length requests).2
  have ends : endsTorn tornRun = true := by
    decide +kernel
  rw [tornRun, result] at ends
  have torn := of_decide_eq_true ends
  have same : rets = [.error .enomem, .ok [9]] := by
    rw [outcomes_longFirst, if_neg (by decide)] at upTo
    obtain same | ⟨n, early, late⟩ := upTo
    · exact same
    · have values := torn.1
      rw [late] at values
      match n with
      | 0 => cases values
      | 1 => cases values
  exact ⟨history, same ▸ result, torn.2, same ▸ upTo⟩

end Runs

end OpaeXilinx.Bmc
