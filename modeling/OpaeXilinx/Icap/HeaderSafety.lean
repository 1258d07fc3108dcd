import OpaeXilinx.Icap.Download

/-!
# Safety of the header parser

The parser takes the parts of the header one after the other and stops at the first that
is malformed.  Whether it stays inside the buffer and inside its allocations is a matter
of the parts that it gets to: each has to fit the buffer unless it is malformed before
the buffer's end.
-/

namespace OpaeXilinx.Icap

/-- What a parser does at an index: it faults unless the input fits, it refuses the input
unless it is good, and it goes on with a value otherwise. -/
structure Parses {α : Type} (parser : Parser α) (index : Nat) (fits good : Prop) (value : α)
    (after : Nat) : Prop where
  fault : ¬ fits → parser index = .error .fault
  invalid : fits → ¬ good → parser index = .error .invalid
  ok : fits → good → parser index = .ok (value, after)

namespace Parses

variable {α β : Type} {parser : Parser α} {rest : α → Parser β} {index middle after : Nat}
  {fits good fits' good' : Prop} {value : α} {result : β}

/-- One parser after the other. -/
theorem bind (first : Parses parser index fits good value middle)
    (second : fits → Parses (rest value) middle fits' good' result after) :
    Parses (parser >>= rest) index (fits ∧ (good → fits')) (good ∧ good') result after := by
  constructor
  · intro unfit
    by_cases fit : fits
    · by_cases well : good
      · rw [bind_ok (first.ok fit well)]
        exact (second fit).fault fun fit' => unfit ⟨fit, fun _ => fit'⟩
      · exact absurd ⟨fit, fun well' => absurd well' well⟩ unfit
    · exact bind_error (first.fault fit)
  · rintro ⟨fit, later⟩ bad
    by_cases well : good
    · rw [bind_ok (first.ok fit well)]
      exact (second fit).invalid (later well) fun well' => bad ⟨well, well'⟩
    · exact bind_error (first.invalid fit well)
  · rintro ⟨fit, later⟩ ⟨well, well'⟩
    rw [bind_ok (first.ok fit well)]
    exact (second fit).ok (later well) well'

/-- A test that refuses the input. -/
theorem check {bad : Prop} [Decidable bad] {jump : Unit → Parser β}
    (parses : Parses (jump ()) index fits good result after) :
    Parses (if bad then (do let r ← throw .invalid; jump r) else jump ()) index (¬ bad → fits)
      (¬ bad ∧ good) result after := by
  by_cases isBad : bad
  · simp only [if_pos isBad]
    exact ⟨fun unfit => absurd (fun holds => absurd isBad holds) unfit, fun _ _ => rfl,
      fun _ well => absurd isBad well.1⟩
  · simp only [if_neg isBad]
    exact ⟨fun unfit => parses.fault fun fit => unfit fun _ => fit,
      fun fit bad' => parses.invalid (fit isBad) fun well => bad' ⟨isBad, well⟩,
      fun fit well => parses.ok (fit isBad) well.2⟩

/-- A test that must not fail. -/
theorem assert {bad : Prop} [Decidable bad] {jump : Unit → Parser β}
    (parses : Parses (jump ()) index fits good result after) :
    Parses (if bad then (do let r ← throw .fault; jump r) else jump ()) index (¬ bad ∧ fits)
      good result after := by
  by_cases isBad : bad
  · simp only [if_pos isBad]
    exact ⟨fun _ => rfl, fun fit => absurd isBad fit.1, fun fit => absurd isBad fit.1⟩
  · simp only [if_neg isBad]
    exact ⟨fun unfit => parses.fault fun fit => unfit ⟨isBad, fit⟩,
      fun fit => parses.invalid fit.2, fun fit => parses.ok fit.2⟩

/-- The same outcomes in other words. -/
theorem congr (parses : Parses parser index fits good value after) (sameFits : fits' ↔ fits)
    (sameGood : fits' → (good' ↔ good)) : Parses parser index fits' good' value after :=
  ⟨fun unfit => parses.fault (mt sameFits.mpr unfit),
    fun fit bad => parses.invalid (sameFits.mp fit) (mt (sameGood fit).mpr bad),
    fun fit well => parses.ok (sameFits.mp fit) ((sameGood fit).mp well)⟩

end Parses

section Parts

variable (data : Nat → Byte)

/-- The half word at an index. -/
def half (index : Nat) : Nat := (data index).toNat * 256 + (data (index + 1)).toNat

/-- The magic byte in a position. -/
def magicByte (i : Nat) : Byte := if i % 2 = 0 then evenMagicByte else oddMagicByte

/-- Magic bytes that a length asks for, its zero excluded; an unsigned number. -/
def magicCount (length : Nat) : Nat := (length + (2 ^ 32 - 1)) % 2 ^ 32

/-- The parts of a header. -/
inductive Part where
  /-- A half word of any value. -/
  | half
  /-- The magic string, its length in the two bytes before it. -/
  | magic
  /-- A byte of any value. -/
  | any
  /-- The half word 1. -/
  | one
  /-- A tagged text. -/
  | text (field : Field)
  /-- The tag of the bitstream's length. -/
  | close

/-- The parts in file order. -/
def headerParts : List Part :=
  [.half, .magic, .any, .one, .text .designName, .text .partName, .text .date, .text .time,
    .close, .half, .half]

/-- Bytes of a part that starts at an index. -/
def Part.width (index : Nat) : Part → Nat
  | .half | .one => 2
  | .magic => magicCount (Icap.half data (index - 2))
  | .any | .close => 1
  | .text _ => 3 + Icap.half data (index + 1)

/-- The part is well formed, as far as the parser looks. -/
def Part.Good (index : Nat) : Part → Prop
  | .half | .any => True
  | .magic => ∀ i < Part.magic.width data index, data (index + i) = magicByte i
  | .one => Icap.half data index = 1
  | .text field => data index = field.tag ∧ data (index + (2 + Icap.half data (index + 1))) = 0
  | .close => data index = 0x65

/-- The part lies inside the buffer, or the parser finds it malformed inside the buffer.  A
text also has to be allocated, and to have a last byte. -/
def Part.Fits (kmallocOk : Field → Bool) (index : Nat) : Part → Prop
  | .half | .one => index + 2 ≤ bufferSize
  | .magic => index + Part.magic.width data index ≤ bufferSize ∨
      ∃ i < Part.magic.width data index, index + i < bufferSize ∧ data (index + i) ≠ magicByte i
  | .any | .close => index < bufferSize
  | .text field => index < bufferSize ∧ (data index = field.tag →
      index + 3 ≤ bufferSize ∧ kmallocOk field = true ∧ 0 < Icap.half data (index + 1) ∧
      index + (3 + Icap.half data (index + 1)) ≤ bufferSize)

instance Part.Good.decidable (index : Nat) : (part : Part) → Decidable (part.Good data index)
  | .half | .any => inferInstanceAs (Decidable True)
  | .magic => inferInstanceAs (Decidable (∀ i < _, data (index + i) = magicByte i))
  | .one => inferInstanceAs (Decidable (_ = 1))
  | .text _ => inferInstanceAs (Decidable (_ = _ ∧ _ = 0))
  | .close => inferInstanceAs (Decidable (_ = 0x65))

instance Part.Fits.decidable (kmallocOk : Field → Bool) (index : Nat) :
    (part : Part) → Decidable (part.Fits data kmallocOk index)
  | .half | .one => inferInstanceAs (Decidable (_ ≤ _))
  | .magic => inferInstanceAs (Decidable (_ ≤ _ ∨ ∃ i < _, _ < _ ∧ data (index + i) ≠ magicByte i))
  | .any | .close => inferInstanceAs (Decidable (_ < _))
  | .text _ => inferInstanceAs (Decidable (_ < _ ∧ (_ = _ → _ ≤ _ ∧ _ = true ∧ 0 < _ ∧ _ ≤ _)))

/-- Every part that the parser gets to fits. -/
def Fitting (kmallocOk : Field → Bool) : List Part → Nat → Prop
  | [], _ => True
  | part :: parts, index => part.Fits data kmallocOk index ∧
      (part.Good data index → Fitting kmallocOk parts (index + part.width data index))

instance Fitting.decidable (kmallocOk : Field → Bool) :
    (parts : List Part) → (index : Nat) → Decidable (Fitting data kmallocOk parts index)
  | [], _ => .isTrue trivial
  | part :: parts, index =>
      have : Decidable (Fitting data kmallocOk parts (index + part.width data index)) :=
        decidable kmallocOk parts _
      inferInstanceAs (Decidable (part.Fits data kmallocOk index ∧ (part.Good data index → _)))

/-- All parts are well formed. -/
def WellFormed : List Part → Nat → Prop
  | [], _ => True
  | part :: parts, index =>
      part.Good data index ∧ WellFormed parts (index + part.width data index)

instance WellFormed.decidable :
    (parts : List Part) → (index : Nat) → Decidable (WellFormed data parts index)
  | [], _ => .isTrue trivial
  | part :: parts, index =>
      have : Decidable (WellFormed data parts (index + part.width data index)) :=
        decidable parts _
      inferInstanceAs (Decidable (part.Good data index ∧ _))

/-- The index after the parts. -/
def endIndex : List Part → Nat → Nat
  | [], index => index
  | part :: parts, index => endIndex parts (index + part.width data index)

end Parts

section Parser

variable {data : Nat → Byte} {index : Nat}

theorem next_parses :
    Parses (next data) index (index < bufferSize) True (data index) (index + 1) := by
  refine ⟨fun unfit => ?_, fun _ bad => absurd trivial bad, fun fit _ => ?_⟩
  · rw [next, if_neg unfit]
  · rw [next, if_pos fit]

theorem pure_parses {α : Type} (value : α) :
    Parses (pure value : Parser α) index True True value index :=
  ⟨fun unfit => absurd trivial unfit, fun _ bad => absurd trivial bad, fun _ _ => rfl⟩

theorem nextHalf_parses :
    Parses (nextHalf data) index (index + 2 ≤ bufferSize) True (half data index) (index + 2) := by
  have low : Parses (do let low ← next data; return (data index).toNat * 256 + low.toNat)
      (index + 1) _ _ (half data index) (index + 2) := next_parses.bind fun _ => pure_parses _
  have both : Parses (nextHalf data) index _ _ _ _ := next_parses.bind fun _ => low
  refine both.congr ?_ fun _ => by simp
  simp only [true_imp_iff, and_true]
  omega

/-- The two tests of the loop, together. -/
theorem magic_tests_iff {byte : Byte} {i : Nat} :
    (¬ (i % 2 = 0 ∧ byte ≠ evenMagicByte) ∧ ¬ (i % 2 = 1 ∧ byte ≠ oddMagicByte)) ↔
      byte = magicByte i := by
  rcases Nat.mod_two_eq_zero_or_one i with even | odd
  · simp [magicByte, even]
  · simp [magicByte, odd]

/-- The loop over the magic bytes, from some position on. -/
theorem readMagic_parses {count i : Nat} (inside : index ≤ bufferSize) :
    Parses (readMagic data count i) index
      (index + count ≤ bufferSize ∨
        ∃ k < count, index + k < bufferSize ∧ data (index + k) ≠ magicByte (i + k))
      (∀ k < count, data (index + k) = magicByte (i + k)) () (index + count) := by
  induction count generalizing i index with
  | zero => exact (pure_parses ()).congr (by simp [inside]) fun _ => by simp
  | succ count ih =>
      have shift : ∀ start k, start + 1 + k = start + (k + 1) := by omega
      by_cases room : index < bufferSize
      · have step : Parses (readMagic data (count + 1) i) index _ _ () (index + 1 + count) :=
          next_parses.bind fun _ => Parses.check (Parses.check (ih room))
        simp only [shift] at step
        rw [Nat.exists_lt_succ_left, Nat.forall_lt_succ_left]
        simp only [Nat.add_zero, room, true_and]
        by_cases same : data index = magicByte i
        · obtain ⟨even, odd⟩ := magic_tests_iff.mpr same
          have right : ¬ data index ≠ magicByte i := not_not.mpr same
          apply step.congr
          · simp only [room, even, odd, right, not_false_eq_true, true_imp_iff, true_and, false_or]
          · exact fun _ =>
              ⟨fun good => ⟨trivial, even, odd, good.2⟩, fun good => ⟨same, good.2.2.2⟩⟩
        · have tests := mt magic_tests_iff.mp same
          refine step.congr (iff_of_true (.inr (.inl same)) ⟨room, fun _ even odd => ?_⟩)
            fun _ => (iff_of_false (fun good => same good.1)
              fun good => tests ⟨good.2.1, good.2.2.1⟩)
          exact absurd ⟨even, odd⟩ tests
      · have unfit : ¬ (index + (count + 1) ≤ bufferSize ∨ ∃ k < count + 1,
            index + k < bufferSize ∧ data (index + k) ≠ magicByte (i + k)) := by
          rintro (fit | ⟨k, -, fit, -⟩) <;> omega
        exact ⟨fun _ => bind_error (next_parses.fault room), fun fit => absurd fit unfit,
          fun fit => absurd fit unfit⟩

/-- The bytes of a text at an index. -/
def textAt (data : Nat → Byte) (index length : Nat) : List Byte :=
  (List.range length).map fun k => data (index + k)

theorem textAt_ne_nil {length : Nat} : textAt data index length ≠ [] ↔ 0 < length := by
  cases length <;> simp [textAt]

theorem textAt_getLast {length : Nat} (positive : 0 < length) :
    (textAt data index length).getLast? = some (data (index + (length - 1))) := by
  obtain ⟨less, rfl⟩ : ∃ less, length = less + 1 := ⟨length - 1, by omega⟩
  simp [textAt, List.range_succ]

theorem readBytes_parses {count : Nat} (inside : index ≤ bufferSize) :
    Parses (readBytes data count) index (index + count ≤ bufferSize) True
      (textAt data index count) (index + count) := by
  induction count generalizing index with
  | zero => exact (pure_parses []).congr (by simp [inside]) fun _ => by simp
  | succ count ih =>
      by_cases room : index < bufferSize
      · have step : Parses (readBytes data (count + 1)) index _ _ _ (index + 1 + count) :=
          next_parses.bind fun _ => (ih room).bind fun _ => pure_parses _
        rw [Nat.add_right_comm, Nat.add_assoc] at step
        have text :
            textAt data index (count + 1) = data index :: textAt data (index + 1) count := by
          simp [textAt, List.range_succ_eq_map, Function.comp_def, Nat.add_comm, Nat.add_left_comm]
        rw [text]
        refine step.congr ?_ fun _ => by simp
        simp [room, Nat.add_comm, Nat.add_left_comm]
      · exact ⟨fun _ => bind_error (next_parses.fault room), fun fit => by omega,
          fun fit => by omega⟩

/-- The look at the last byte of a text. -/
theorem lastByte_parses {text : List Byte} :
    Parses (match text.getLast? with
      | none => throw .fault
      | some last => if last ≠ 0 then throw .invalid else pure text : Parser (List Byte)) index
      (text ≠ []) (text.getLast? = some 0) text index := by
  rcases List.eq_nil_or_concat' text with rfl | ⟨front, last, rfl⟩
  · exact ⟨fun _ => rfl, fun fit => absurd rfl fit, fun fit => absurd rfl fit⟩
  · simp only [List.getLast?_append, List.getLast?_singleton, Option.some_or, ne_eq,
      Option.some.injEq]
    by_cases zero : last = 0
    · subst zero
      exact (pure_parses _).congr (by simp) fun _ => by simp
    · rw [if_pos zero]
      exact ⟨fun unfit => absurd (by simp) unfit, fun _ _ => rfl, fun _ good => absurd good zero⟩

/-- A text field, with the bytes it consists of. -/
theorem readField_parses {kmallocOk : Field → Bool} {field : Field} :
    Parses (readField data kmallocOk field) index ((Part.text field).Fits data kmallocOk index)
      ((Part.text field).Good data index)
      (textAt data (index + 3) (half data (index + 1)))
      (index + (Part.text field).width data index) := by
  have parsed : Parses (readField data kmallocOk field) index _ _
      (textAt data (index + 3) (half data (index + 1)))
      (index + 3 + half data (index + 1)) :=
    next_parses.bind fun _ => Parses.check <| nextHalf_parses.bind fun inside =>
      Parses.assert <| (readBytes_parses inside).bind fun _ => lastByte_parses
  rw [Nat.add_assoc index 3] at parsed
  refine parsed.congr ?_ fun fits => ?_
  · simp only [Part.Fits, ne_eq, not_not, true_imp_iff, textAt_ne_nil, Bool.not_eq_false]
    rw [show index + 1 + 2 = index + 3 by omega]
    tauto
  · simp only [Part.Good, ne_eq, not_not, true_and]
    apply and_congr_right
    intro tag
    obtain ⟨-, -, positive, -⟩ := fits.2 tag
    rw [textAt_getLast positive, Option.some.injEq,
      show index + 3 + (half data (index + 1) - 1) = index + (2 + half data (index + 1)) by omega]

/-- A half word of any value, as a part. -/
theorem half_parses {kmallocOk : Field → Bool} :
    Parses (nextHalf data) index (Part.half.Fits data kmallocOk index)
      (Part.half.Good data index) (half data index) (index + Part.half.width data index) :=
  nextHalf_parses

theorem any_parses {kmallocOk : Field → Bool} :
    Parses (next data) index (Part.any.Fits data kmallocOk index)
      (Part.any.Good data index) (data index) (index + Part.any.width data index) :=
  next_parses

theorem magic_parses {kmallocOk : Field → Bool} (inside : index ≤ bufferSize) :
    Parses (readMagic data (Part.magic.width data index) 0) index
      (Part.magic.Fits data kmallocOk index) (Part.magic.Good data index) ()
      (index + Part.magic.width data index) :=
  (readMagic_parses inside).congr (by simp [Part.Fits]) fun _ => by simp [Part.Good]

section Tests

variable {β : Type} {jump : Unit → Parser β} {kmallocOk : Field → Bool} {fits good : Prop}
  {result : β} {after : Nat}

/-- The half word 1, and what follows it. -/
theorem one_parses (rest : Parses (jump ()) (index + Part.one.width data index) fits good result
    after) :
    Parses (nextHalf data >>= fun tmp =>
        if tmp ≠ 1 then (do let r ← throw .invalid; jump r) else jump ()) index
      (Part.one.Fits data kmallocOk index ∧ (Part.one.Good data index → fits))
      (Part.one.Good data index ∧ good) result after := by
  refine (nextHalf_parses.bind fun _ => Parses.check rest).congr ?_ fun _ => ?_
  · simp only [Part.Fits, Part.Good, ne_eq, not_not, true_imp_iff]
  · simp only [Part.Good, ne_eq, not_not, true_and]

/-- The last tag, and what follows it. -/
theorem close_parses (rest : Parses (jump ()) (index + Part.close.width data index) fits good
    result after) :
    Parses (next data >>= fun tmp =>
        if tmp ≠ 0x65 then (do let r ← throw .invalid; jump r) else jump ()) index
      (Part.close.Fits data kmallocOk index ∧ (Part.close.Good data index → fits))
      (Part.close.Good data index ∧ good) result after := by
  refine (next_parses.bind fun _ => Parses.check rest).congr ?_ fun _ => ?_
  · simp only [Part.Fits, Part.Good, ne_eq, not_not, true_imp_iff]
  · simp only [Part.Good, ne_eq, not_not, true_and]

end Tests

end Parser

/-! ## Safety -/

section Safety

variable (data : Nat → Byte)

/-- Where the bitstream's length stands. -/
def lengthIndex : Nat := endIndex data (headerParts.take 9) 0

/-- Length of the header. -/
def headerEnd : Nat := lengthIndex data + 4

/-- The bitstream's length that the header declares. -/
def declaredLength : Nat := half data (lengthIndex data) * 65536 + half data (lengthIndex data + 2)

/-- The text of a part, by its place in the file order. -/
def partText (place : Nat) : List Byte :=
  textAt data (endIndex data (headerParts.take place) 0 + 3)
    (half data (endIndex data (headerParts.take place) 0 + 1))

/-- The header that the parts make up. -/
def headerAt : BitHeader :=
  ⟨headerEnd data, declaredLength data, partText data 4, partText data 5, partText data 6,
    partText data 7, half data 0⟩

@[simp] theorem headerAt_headerLength : (headerAt data).headerLength = headerEnd data := rfl

@[simp] theorem headerAt_bitstreamLength :
    (headerAt data).bitstreamLength = declaredLength data := rfl

/-- The bitstream's length, and the end. -/
theorem length_parses (kmallocOk : Field → Bool) (index : Nat) (header : BitHeader) :
    Parses (do
      let high ← nextHalf data
      let low ← nextHalf data
      let index ← get
      return { header with headerLength := index, bitstreamLength := high * 65536 + low }) index
      (Fitting data kmallocOk [.half, .half] index) (WellFormed data [.half, .half] index)
      { header with
        headerLength := index + 4
        bitstreamLength := half data index * 65536 + half data (index + 2) } (index + 4) :=
  half_parses.bind fun _ => half_parses.bind fun _ =>
    ⟨fun unfit => absurd trivial unfit, fun _ bad => absurd trivial bad, fun _ _ => rfl⟩

/-- The parser faults unless all parts that it gets to fit, and accepts if they are all
well formed. -/
theorem bitstreamParseHeader_parses (kmallocOk : Field → Bool) :
    Parses (bitstreamParseHeader data kmallocOk) 0 (Fitting data kmallocOk headerParts 0)
      (WellFormed data headerParts 0) (headerAt data) (headerEnd data) := by
  rw [bitstreamParseHeader]
  refine half_parses.bind fun inside => (magic_parses inside).bind fun _ => ?_
  refine any_parses.bind fun _ => one_parses ?_
  refine readField_parses.bind fun _ => readField_parses.bind fun _ => ?_
  refine readField_parses.bind fun _ => readField_parses.bind fun _ => close_parses ?_
  exact length_parses data kmallocOk (lengthIndex data) (headerAt data)

/-- An `int` as an `unsigned long`. -/
def ulong (len : Int) : Nat := (len % 2 ^ 64).toNat

/-- The parser reads the buffer and its texts only inside of them, and the size test that
follows passes only headers whose file is no longer than the caller says. -/
structure HeaderSafe (kmallocOk : Field → Bool) (len : Int) : Prop where
  inside : bitstreamParseHeader data kmallocOk 0 ≠ .error .fault
  short : ∀ header index, bitstreamParseHeader data kmallocOk 0 = .ok (header, index) →
    (header.headerLength + header.bitstreamLength) % 2 ^ 32 ≤ ulong len →
    ((header.headerLength + header.bitstreamLength : Nat) : Int) ≤ len

/-- Every part that the parser gets to fits, and for a well formed header the caller's
length is not negative and not reached by a sum that wraps. -/
structure HeaderFits (kmallocOk : Field → Bool) (len : Int) : Prop where
  parts : Fitting data kmallocOk headerParts 0
  length : WellFormed data headerParts 0 → 0 ≤ len ∧
    (headerEnd data + declaredLength data < 2 ^ 32 ∨
      len < ((headerEnd data + declaredLength data - 2 ^ 32 : Nat) : Int))

variable {data}

theorem half_lt (index : Nat) : half data index < 2 ^ 16 := by
  have high := (data index).isLt
  have low := (data (index + 1)).isLt
  simp only [half]
  omega

/-- A header that fits ends inside the buffer. -/
theorem endIndex_le {kmallocOk : Field → Bool} {parts : List Part} {index : Nat}
    (inside : index ≤ bufferSize) (fitting : Fitting data kmallocOk parts index)
    (formed : WellFormed data parts index) : endIndex data parts index ≤ bufferSize := by
  induction parts generalizing index with
  | nil => exact inside
  | cons part parts ih =>
      obtain ⟨fits, later⟩ := fitting
      obtain ⟨good, rest⟩ := formed
      refine ih ?_ (later good) rest
      cases part with
      | magic =>
          rcases fits with fit | ⟨i, below, -, bad⟩
          · exact fit
          · exact absurd (good i below) bad
      | text field => exact (fits.2 good.1).2.2.2
      | half | any | one | close =>
          simp only [Part.Fits, Part.width] at fits ⊢
          omega

theorem endIndex_append {first second : List Part} {index : Nat} :
    endIndex data (first ++ second) index = endIndex data second (endIndex data first index) := by
  induction first generalizing index with
  | nil => rfl
  | cons part first ih => exact ih

theorem headerEnd_eq : headerEnd data = endIndex data headerParts 0 := by
  have split : headerParts = headerParts.take 9 ++ [.half, .half] := rfl
  rw [split, endIndex_append, headerEnd, lengthIndex]
  generalize endIndex data (headerParts.take 9) 0 = index
  rfl

theorem size_test_iff {sum : Nat} (bound : sum < 2 ^ 33) {len : Int} (low : -2 ^ 31 ≤ len)
    (high : len < 2 ^ 31) :
    (sum % 2 ^ 32 ≤ ulong len → (sum : Int) ≤ len) ↔
      0 ≤ len ∧ (sum < 2 ^ 32 ∨ len < ((sum - 2 ^ 32 : Nat) : Int)) := by
  simp only [ulong]
  omega

end Safety

/-- For every buffer, every outcome of the allocations and every length, the parser is safe
exactly if the header fits. -/
theorem bitstreamParseHeader_safe_iff (data : Nat → Byte) (kmallocOk : Field → Bool) {len : Int}
    (low : -2 ^ 31 ≤ len) (high : len < 2 ^ 31) :
    HeaderSafe data kmallocOk len ↔ HeaderFits data kmallocOk len := by
  have parses := bitstreamParseHeader_parses data kmallocOk
  have declared : declaredLength data < 2 ^ 32 := by
    have upper : half data (lengthIndex data) < 2 ^ 16 := half_lt _
    have lower : half data (lengthIndex data + 2) < 2 ^ 16 := half_lt _
    simp only [declaredLength]
    omega
  have bound (fitting : Fitting data kmallocOk headerParts 0)
      (formed : WellFormed data headerParts 0) :
      headerEnd data + declaredLength data < 2 ^ 33 := by
    have inside := endIndex_le (Nat.zero_le _) fitting formed
    rw [← headerEnd_eq, bufferSize] at inside
    omega
  constructor
  · rintro ⟨inside, short⟩
    have fitting : Fitting data kmallocOk headerParts 0 := by
      by_contra unfit
      exact inside (parses.fault unfit)
    exact ⟨fitting, fun formed =>
      (size_test_iff (bound fitting formed) low high).mp (short _ _ (parses.ok fitting formed))⟩
  · rintro ⟨fitting, length⟩
    by_cases formed : WellFormed data headerParts 0
    · have accepted := parses.ok fitting formed
      refine ⟨by simp [accepted], fun header index result => ?_⟩
      rw [accepted] at result
      cases result
      exact (size_test_iff (bound fitting formed) low high).mpr (length formed)
    · have refused := parses.invalid fitting formed
      exact ⟨by simp [refused], fun header index result => by simp [refused] at result⟩

/-- A buffer that starts with the given bytes and is zero after them. -/
def bufferOf (bytes : List Byte) : Nat → Byte := fun index => bytes[index]?.getD 0

/-- A header with eight magic bytes, short texts and four bytes of bitstream behind it. -/
def smallHeader : List Byte :=
  halfBytes 9 ++ magicBytes 8 0 ++ [0] ++ halfBytes 1 ++
    fieldBytes .designName [0x74, 0] ++ fieldBytes .partName [0x76, 0x37, 0] ++
    fieldBytes .date [0] ++ fieldBytes .time [0] ++ [0x65] ++ halfBytes 0 ++ halfBytes 4

/-- The header is parsed to its end, and a length that has room for the bitstream passes
the size test. -/
theorem bitstreamParseHeader_safe_iff_parsed :
    (∃ header, bitstreamParseHeader (bufferOf smallHeader) (fun _ => true) 0 = .ok (header, 37) ∧
      header.headerLength + header.bitstreamLength = 41) ∧
      HeaderSafe (bufferOf smallHeader) (fun _ => true) 41 := by
  have fitting : Fitting (bufferOf smallHeader) (fun _ => true) headerParts 0 := by
    decide +kernel
  have formed : WellFormed (bufferOf smallHeader) headerParts 0 := by
    decide +kernel
  have parsed := (bitstreamParseHeader_parses (bufferOf smallHeader) fun _ => true).ok fitting formed
  refine ⟨⟨_, parsed, by decide +kernel⟩, ?_⟩
  refine (bitstreamParseHeader_safe_iff _ _ (by decide) (by decide)).mpr ⟨fitting, fun _ => ?_⟩
  decide +kernel

/-- A design name without a byte: the parser looks at the byte before the first, which the
unsigned index puts 4 GiB - 1 behind it on a machine with 64 bits. -/
theorem empty_name_is_read_outside :
    ∃ data kmallocOk len, -2 ^ 31 ≤ len ∧ len < 2 ^ 31 ∧ ¬ HeaderSafe data kmallocOk len := by
  refine ⟨bufferOf [0, 1, 0, 0, 1, 0x61, 0, 0], fun _ => true, 1024, by decide, by decide, ?_⟩
  exact fun safe => safe.inside (by decide)

end OpaeXilinx.Icap
