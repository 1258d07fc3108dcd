import OpaeXilinx.Port.Open

/-!
# Sharing ports between functions

A port can be released, so that a virtual function gets it, and assigned again.  What is
known about a port is spread over four places: whether its device is registered, the
access bit in the FME header, the use count of its device, and the number of released
ports.  Every call runs under the locks of the driver and is one step here.
-/

namespace OpaeXilinx.Port

open OpaeXilinx.Base

/-- A port of the card, with the openers of its open files. -/
structure PortDev where
  number : Nat
  /-- `device_is_registered`. -/
  registered : Bool
  data : PortData
  files : List Task
  deriving DecidableEq, Repr

/-- `struct cci_drvdata`, with the access bits of the FME header and whether SR-IOV is
enabled. -/
structure Card where
  ports : List PortDev
  /-- `afu_access_control` of a port is `FME_AFU_ACCESS_VF`. -/
  vf : Nat → Bool
  releasedPortNum : Int
  sriov : Bool

/-- `cci_pci_lookup_port_by_id`. -/
def lookupPort (portId : Nat) (ports : List PortDev) : Option PortDev :=
  ports.find? fun port => port.number = portId

/-- The ports after the first one of a number has changed. -/
def setPort (port : PortDev) : List PortDev → List PortDev
  | [] => []
  | other :: rest => if other.number = port.number then port :: rest else other :: setPort port rest

/-- The result of a call, and the card after it. -/
abbrev Outcome := Except Errno Nat × Card

def attachPortDev (portId : Nat) (added : Except Errno Unit) (c : Card) : Outcome :=
  if c.vf portId = true then (.error .ebusy, c)
  else match lookupPort portId c.ports with
    | none => (.error .einval, c)
    | some port =>
        if port.registered = true then (.error .ebusy, c)
        else match added with
          | .error err => (.error err, c)
          | .ok _ => (.ok 0, { c with
              ports := setPort { port with
                registered := true, data := featureDevUseEnd port.data } c.ports
              releasedPortNum := c.releasedPortNum - 1 })

def detachPortDev (portId : Nat) (c : Card) : Outcome :=
  match lookupPort portId c.ports with
  | none => (.error .einval, c)
  | some port =>
      if port.registered = false then (.error .ebusy, c)
      else match featureDevUseExclBegin port.data with
        | (.error err, _) => (.error err, c)
        | (.ok _, data) => (.ok 0, { c with
            ports := setPort { port with registered := false, data := data } c.ports
            releasedPortNum := c.releasedPortNum + 1 })

def portConfigVf (portId : Nat) (isVf : Bool) (vf : Nat → Bool) : Nat → Bool :=
  Function.update vf portId isVf

/-- The loop that turns released ports to VF, until there are enough of them. -/
def turnToVf (numVfs : Nat) : Nat → List PortDev → (Nat → Bool) → Nat → Bool
  | _, [], vf => vf
  | vfPorts, port :: rest, vf =>
      if port.registered = true then turnToVf numVfs vfPorts rest vf
      else if vfPorts + 1 = numVfs then portConfigVf port.number true vf
      else turnToVf numVfs (vfPorts + 1) rest (portConfigVf port.number true vf)

/-- The loop that turns released ports to PF. -/
def turnToPf : List PortDev → (Nat → Bool) → Nat → Bool
  | [], vf => vf
  | port :: rest, vf =>
      if port.registered = true then turnToPf rest vf
      else turnToPf rest (portConfigVf port.number false vf)

def cciPciSriovConfigure (numVfs : Nat) (enabled : Except Errno Unit) (c : Card) : Outcome :=
  if c.releasedPortNum < numVfs then (.error .ebusy, c)
  else if numVfs = 0 then (.ok 0, { c with sriov := false, vf := turnToPf c.ports c.vf })
  else
    let vf := turnToVf numVfs 0 c.ports c.vf
    match enabled with
    | .error err => (.error err, { c with vf := turnToPf c.ports vf })
    | .ok _ => (.ok numVfs, { c with sriov := true, vf := vf })

/-- `afu_open` on the device of a port. -/
def openPort (portId : Nat) (task : Task) (excl allocated : Bool) (c : Card) : Outcome :=
  match lookupPort portId c.ports with
  | none => (.error .enodev, c)
  | some port => match afuOpen task excl allocated port.data with
    | (.error err, data) =>
      (.error err, { c with ports := setPort { port with data := data } c.ports })
    | (.ok _, data) => (.ok 0, { c with
        ports := setPort { port with data := data, files := task :: port.files } c.ports })

/-- `afu_release` on the device of a port. -/
def closePort (portId : Nat) (opener closer : Task) (c : Card) : Outcome :=
  match lookupPort portId c.ports with
  | none => (.error .enodev, c)
  | some port => (.ok 0, { c with ports := setPort { port with
      data := afuRelease closer port.data, files := port.files.erase opener } c.ports })

inductive CardCall where
  | attach (portId : Nat) (added : Except Errno Unit)
  | detach (portId : Nat)
  | sriovConfigure (numVfs : Nat) (enabled : Except Errno Unit)
  | openFile (portId : Nat) (task : Task) (excl allocated : Bool)
  | closeFile (portId : Nat) (opener closer : Task)

def Card.call (c : Card) : CardCall → Outcome
  | .attach portId added => attachPortDev portId added c
  | .detach portId => detachPortDev portId c
  | .sriovConfigure numVfs enabled => cciPciSriovConfigure numVfs enabled c
  | .openFile portId task excl allocated => openPort portId task excl allocated c
  | .closeFile portId opener closer => closePort portId opener closer c

/-- The PCI core asks for virtual functions only while there are none, and for none only
while there are some.  A file that is closed is open. -/
def CardCall.Possible (c : Card) : CardCall → Prop
  | .sriovConfigure numVfs _ => 0 < numVfs ↔ c.sriov = false
  | .closeFile portId opener _ =>
    ∀ port, lookupPort portId c.ports = some port → opener ∈ port.files
  | _ => True

/-- All ports are registered and belong to the physical function, and nothing is open. -/
structure Card.Fresh (c : Card) : Prop where
  numbers : (c.ports.map PortDev.number).Nodup
  ports : ∀ port ∈ c.ports, port.registered = true ∧ port.data = .new ∧ port.files = []
  vf : ∀ port ∈ c.ports, c.vf port.number = false
  released : c.releasedPortNum = 0
  sriov : c.sriov = false

def cardSystem : System Card CardCall where
  init := Card.Fresh
  step c call next := call.Possible c ∧ next = (c.call call).2

/-- Ports that are not registered. -/
def PortDev.isReleased (port : PortDev) : Bool := !port.registered

/-- Ports of virtual functions. -/
def Card.vfPorts (c : Card) : Nat := c.ports.countP fun port => c.vf port.number

/-- The four places agree. -/
structure Agreed (c : Card) : Prop where
  released : c.releasedPortNum = c.ports.countP PortDev.isReleased
  vf : ∀ port ∈ c.ports, c.vf port.number = true → port.registered = false
  closed : ∀ port ∈ c.ports, port.registered = false → port.data.exclOpen = true ∧
    ∀ task excl allocated, ∃ err, (openPort port.number task excl allocated c).1 = .error err
  excl : ∀ port ∈ c.ports, port.data.exclOpen = true → port.data.openCount = 1

/-- What a call that fails must not change. -/
def Card.view (c : Card) : List (Nat × Bool × Int × Bool) × (Nat → Bool) × Int :=
  (c.ports.map fun port => (port.number, port.registered, port.data.openCount, port.data.exclOpen),
    c.vf, c.releasedPortNum)

section Lists

variable {portId : Nat} {port after : PortDev} {ports : List PortDev}

theorem lookupPort_number (found : lookupPort portId ports = some port) : port.number = portId := by
  simpa using List.find?_some found

theorem lookupPort_mem (found : lookupPort portId ports = some port) : port ∈ ports :=
  List.mem_of_find?_eq_some found

theorem eq_of_number (numbers : (ports.map PortDev.number).Nodup) {other : PortDev}
    (member : port ∈ ports) (otherMember : other ∈ ports) (same : other.number = port.number) :
    other = port :=
  List.inj_on_of_nodup_map numbers otherMember member same

theorem lookupPort_of_mem (numbers : (ports.map PortDev.number).Nodup) (member : port ∈ ports) :
    lookupPort port.number ports = some port := by
  cases found : lookupPort port.number ports with
  | none =>
      have absent := List.find?_eq_none.mp found port member
      simp at absent
  | some other =>
      exact congrArg some
        (eq_of_number numbers member (lookupPort_mem found) (lookupPort_number found))

/-- A property of the ports as a list, at a port that has changed. -/
theorem map_setPort {β : Type} (look : PortDev → β) (found : lookupPort portId ports = some port)
    (number : after.number = portId) (same : look after = look port) :
    (setPort after ports).map look = ports.map look := by
  induction ports with
  | nil => cases found
  | cons other rest ih =>
      simp only [lookupPort, List.find?_cons] at found
      by_cases here : other.number = portId
      · simp only [here, decide_true, Option.some.injEq] at found
        subst found
        simp [setPort, here, number, same]
      · simp only [here, decide_false] at found
        simp [setPort, number, here, ih found]

theorem mem_setPort (numbers : (ports.map PortDev.number).Nodup)
    (found : lookupPort portId ports = some port) (number : after.number = portId)
    {other : PortDev} :
    other ∈ setPort after ports ↔ other = after ∨ other ∈ ports ∧ other.number ≠ portId := by
  induction ports with
  | nil => cases found
  | cons first rest ih =>
      rw [List.map_cons, List.nodup_cons] at numbers
      simp only [lookupPort, List.find?_cons] at found
      by_cases here : first.number = portId
      · have others : ∀ other ∈ rest, other.number ≠ portId := fun other member same =>
          numbers.1 (here.trans same.symm ▸ List.mem_map_of_mem member)
        simp only [setPort, here, number, if_true, List.mem_cons]
        constructor
        · rintro (rfl | member)
          · exact .inl rfl
          · exact .inr ⟨.inr member, others _ member⟩
        · rintro (rfl | ⟨rfl | member, different⟩)
          · exact .inl rfl
          · exact absurd here different
          · exact .inr member
      · simp only [here, decide_false] at found
        simp only [setPort, number, here, if_false, List.mem_cons, ih numbers.2 found]
        constructor
        · rintro (rfl | rfl | ⟨member, different⟩)
          · exact .inr ⟨.inl rfl, here⟩
          · exact .inl rfl
          · exact .inr ⟨.inr member, different⟩
        · rintro (rfl | ⟨rfl | member, different⟩)
          · exact .inr (.inl rfl)
          · exact .inl rfl
          · exact .inr (.inr ⟨member, different⟩)

theorem countP_setPort (count : PortDev → Bool) (found : lookupPort portId ports = some port)
    (number : after.number = portId) :
    (setPort after ports).countP count + (if count port then 1 else 0) =
      ports.countP count + (if count after then 1 else 0) := by
  induction ports with
  | nil => cases found
  | cons first rest ih =>
      simp only [lookupPort, List.find?_cons] at found
      by_cases here : first.number = portId
      · simp only [here, decide_true, Option.some.injEq] at found
        subst found
        simp only [setPort, here, number, if_true, List.countP_cons]
        omega
      · simp only [here, decide_false] at found
        have rest := ih found
        simp only [setPort, number, here, if_false, List.countP_cons]
        omega

end Lists

section Access

variable {ports : List PortDev} {vf : Nat → Bool} {numVfs vfPorts number : Nat}

/-- Turning ports to VF leaves all others alone. -/
theorem turnToVf_other (other : ∀ port ∈ ports, port.registered = false → port.number ≠ number) :
    turnToVf numVfs vfPorts ports vf number = vf number := by
  induction ports generalizing vfPorts vf with
  | nil => rfl
  | cons port rest ih =>
      have inRest : ∀ next ∈ rest, next.registered = false → next.number ≠ number :=
        fun next member => other next (List.mem_cons_of_mem _ member)
      simp only [turnToVf]
      cases registered : port.registered with
      | true => exact ih inRest
      | false =>
          have different := other port List.mem_cons_self registered
          have same : portConfigVf port.number true vf number = vf number :=
            Function.update_of_ne (Ne.symm different) _ _
          simp only [Bool.false_eq_true, if_false]
          split
          · exact same
          · rw [ih inRest, same]

theorem turnToPf_other (other : ∀ port ∈ ports, port.registered = false → port.number ≠ number) :
    turnToPf ports vf number = vf number := by
  induction ports generalizing vf with
  | nil => rfl
  | cons port rest ih =>
      have inRest : ∀ next ∈ rest, next.registered = false → next.number ≠ number :=
        fun next member => other next (List.mem_cons_of_mem _ member)
      simp only [turnToPf]
      cases registered : port.registered with
      | true => exact ih inRest
      | false =>
          have different := other port List.mem_cons_self registered
          simp only [Bool.false_eq_true, if_false]
          rw [ih inRest]
          exact Function.update_of_ne (Ne.symm different) _ _

/-- A port that has been turned to PF stays so to the end of the loop. -/
theorem turnToPf_keeps (pf : vf number = false) : turnToPf ports vf number = false := by
  induction ports generalizing vf with
  | nil => exact pf
  | cons port rest ih =>
      simp only [turnToPf]
      split
      · exact ih pf
      · apply ih
        by_cases same : number = port.number
        · rw [portConfigVf, same, Function.update_self]
        · rw [portConfigVf, Function.update_of_ne same, pf]

theorem turnToPf_released {port : PortDev} (member : port ∈ ports)
    (released : port.registered = false) :
    turnToPf ports vf port.number = false := by
  induction ports generalizing vf with
  | nil => cases member
  | cons first rest ih =>
      simp only [turnToPf]
      rcases List.mem_cons.mp member with rfl | inRest
      · rw [released]
        exact turnToPf_keeps (Function.update_self ..)
      · split
        · exact ih inRest
        · exact ih inRest

/-- Turning to VF takes as many released ports as are asked for. -/
theorem countP_turnToVf (numbers : (ports.map PortDev.number).Nodup)
    (pf : ∀ port ∈ ports, vf port.number = false) (more : vfPorts < numVfs)
    (enough : numVfs ≤ vfPorts + ports.countP PortDev.isReleased) :
    vfPorts + ports.countP (fun port => turnToVf numVfs vfPorts ports vf port.number) = numVfs := by
  induction ports generalizing vfPorts vf with
  | nil =>
      simp only [List.countP_nil] at enough
      omega
  | cons port rest ih =>
      rw [List.map_cons, List.nodup_cons] at numbers
      obtain ⟨notInRest, numbers⟩ := numbers
      have others : ∀ next ∈ rest, next.number ≠ port.number := fun next member same =>
        notInRest (same ▸ List.mem_map_of_mem member)
      have pfRest : ∀ next ∈ rest, vf next.number = false :=
        fun next member => pf next (List.mem_cons_of_mem _ member)
      rw [List.countP_cons] at enough
      rw [List.countP_cons]
      cases registered : port.registered with
      | true =>
          simp only [turnToVf, registered, if_true]
          have isPf : turnToVf numVfs vfPorts rest vf port.number = false := by
            rw [turnToVf_other fun next member _ => others next member]
            exact pf port List.mem_cons_self
          have counted :=
            ih numbers pfRest more (by simpa [PortDev.isReleased, registered] using enough)
          simp only [isPf, Bool.false_eq_true, if_false]
          omega
      | false =>
          have turned : ∀ next ∈ rest, portConfigVf port.number true vf next.number = false := by
            intro next member
            rw [portConfigVf, Function.update_of_ne (others next member), pfRest next member]
          have isVf : portConfigVf port.number true vf port.number = true := Function.update_self ..
          simp only [turnToVf, registered, Bool.false_eq_true, if_false]
          by_cases last : vfPorts + 1 = numVfs
          · have none :
                rest.countP (fun next => portConfigVf port.number true vf next.number) = 0 := by
              apply List.countP_eq_zero.mpr
              intro next member
              simp [turned next member]
            simp only [last, if_true, none, isVf]
          · simp only [PortDev.isReleased, registered, Bool.not_false, if_true] at enough
            have counted : vfPorts + 1 + rest.countP (fun next => turnToVf numVfs (vfPorts + 1) rest
                (portConfigVf port.number true vf) next.number) = numVfs :=
              ih numbers turned (by omega) (by omega)
            have stays : turnToVf numVfs (vfPorts + 1) rest (portConfigVf port.number true vf)
                port.number = true := by
              rw [turnToVf_other fun next member _ => others next member, isVf]
            simp only [last, if_false, stays, if_true]
            omega

end Access

/-! ## Invariant -/

/-- The use count of a port's device. -/
structure UseInv (port : PortDev) : Prop where
  openCount : port.data.openCount = port.files.length + if port.registered then 0 else 1
  excl : port.data.exclOpen = true → port.data.openCount = 1
  released : port.registered = false → port.data.exclOpen = true ∧ port.files = []

structure CardInv (c : Card) : Prop where
  numbers : (c.ports.map PortDev.number).Nodup
  use : ∀ port ∈ c.ports, UseInv port
  released : c.releasedPortNum = c.ports.countP PortDev.isReleased
  vf : ∀ port ∈ c.ports, c.vf port.number = true → port.registered = false
  pf : c.sriov = false → ∀ port ∈ c.ports, c.vf port.number = false

section Open

variable {task : Task} {excl allocated : Bool} {d after : PortData} {err : Errno}

theorem afuOpenBegin_ok (begun : afuOpenBegin excl d = (.ok (), after)) :
    after.openCount = d.openCount + 1 ∧ (after.exclOpen = true → d.openCount = 0) ∧
      (d.exclOpen = true → d.openCount = 0) := by
  cases excl with
  | true =>
      simp only [afuOpenBegin, featureDevUseExclBegin, if_true] at begun
      split at begun
      · simp at begun
      · rename_i free
        cases begun
        have zero : d.openCount = 0 := by
          by_contra used
          exact free (.inl used)
        exact ⟨rfl, fun _ => zero, fun _ => zero⟩
  | false =>
      simp only [afuOpenBegin, featureDevUseBegin, Bool.false_eq_true, if_false] at begun
      split at begun
      · simp at begun
      · rename_i free
        cases begun
        have shared : d.exclOpen ≠ true := fun excl => free (.inl excl)
        exact ⟨rfl, fun excl => absurd excl shared, fun excl => absurd excl shared⟩

theorem afuOpenBegin_error (failed : afuOpenBegin excl d = (.error err, after)) : after = d := by
  cases excl <;>
    simp only [afuOpenBegin, featureDevUseExclBegin, featureDevUseBegin, if_true,
      Bool.false_eq_true, if_false] at failed <;>
    split at failed <;> simp_all

/-- An open that succeeds. -/
theorem afuOpen_ok (done : afuOpen task excl allocated d = (.ok (), after)) :
    after.openCount = d.openCount + 1 ∧ (after.exclOpen = true → d.openCount = 0) ∧
      (d.exclOpen = true → d.openCount = 0) := by
  simp only [afuOpen] at done
  split at done
  · simp at done
  · rename_i middle begun
    have spec := afuOpenBegin_ok begun
    simp only [afuOpenRecord] at done
    split at done
    · cases done
      exact spec
    · split at done
      · cases done
        exact spec
      · simp at done

/-- An open that fails gives back what it has taken. -/
theorem afuOpen_error (use : d.exclOpen = true → d.openCount = 1)
    (failed : afuOpen task excl allocated d = (.error err, after)) :
    after.openCount = d.openCount ∧ after.exclOpen = d.exclOpen := by
  simp only [afuOpen] at failed
  split at failed
  · rename_i begun
    cases failed
    rw [afuOpenBegin_error begun]
    exact ⟨rfl, rfl⟩
  · rename_i middle begun
    obtain ⟨counted, -, shared⟩ := afuOpenBegin_ok begun
    have notExcl : d.exclOpen = false := by
      by_contra excl
      have one := use (Bool.eq_true_of_not_eq_false excl)
      have zero := shared (Bool.eq_true_of_not_eq_false excl)
      omega
    simp only [afuOpenRecord] at failed
    split at failed
    · simp at failed
    · split at failed
      · simp at failed
      · cases failed
        simp only [featureDevUseEnd, notExcl, and_true]
        omega

/-- A port that is in exclusive use cannot be opened. -/
theorem afuOpen_excl (excl : Bool) (inUse : d.exclOpen = true) (count : d.openCount = 1) :
    afuOpen task excl allocated d = (.error .ebusy, d) := by
  cases excl <;>
    simp [afuOpen, afuOpenBegin, featureDevUseExclBegin, featureDevUseBegin, inUse, count]

end Open

namespace CardInv

variable {c : Card} {port after : PortDev} {portId : Nat}

theorem initial (fresh : c.Fresh) : CardInv c := by
  refine ⟨fresh.numbers, fun port member => ?_, ?_, fun port member isVf => ?_, fun _ => fresh.vf⟩
  · obtain ⟨registered, data, files⟩ := fresh.ports port member
    exact ⟨by simp [registered, data, files, PortData.new], by simp [data, PortData.new],
      by simp [registered]⟩
  · have none : c.ports.countP PortDev.isReleased = 0 := by
      apply List.countP_eq_zero.mpr
      intro port member
      simp [PortDev.isReleased, (fresh.ports port member).1]
    rw [fresh.released, none]
    rfl
  · rw [fresh.vf port member] at isVf
    cases isVf

/-- A change of one port that keeps the access bits. -/
theorem set (inv : CardInv c) (found : lookupPort portId c.ports = some port)
    (use : UseInv after) (same : after.number = port.number) {released : Int}
    (counted : released + (if port.isReleased then 1 else 0) =
      c.releasedPortNum + if after.isReleased then 1 else 0)
    (vf : c.vf portId = true → after.registered = false) :
    CardInv { c with ports := setPort after c.ports, releasedPortNum := released } := by
  have number : after.number = portId := same.trans (lookupPort_number found)
  have member : ∀ {other}, other ∈ setPort after c.ports ↔
      other = after ∨ other ∈ c.ports ∧ other.number ≠ portId :=
        mem_setPort inv.numbers found number
  refine ⟨?_, fun other inside => ?_, ?_, fun other inside isVf => ?_,
    fun disabled other inside => ?_⟩
  · rw [map_setPort PortDev.number found number same]
    exact inv.numbers
  · rcases member.mp inside with rfl | ⟨old, -⟩
    · exact use
    · exact inv.use other old
  · have total := countP_setPort PortDev.isReleased found number
    have before := inv.released
    show released = ((setPort after c.ports).countP PortDev.isReleased : Int)
    split_ifs at counted total <;> omega
  · rcases member.mp inside with rfl | ⟨old, -⟩
    · exact vf (number ▸ isVf)
    · exact inv.vf other old isVf
  · rcases member.mp inside with rfl | ⟨old, -⟩
    · show c.vf other.number = false
      rw [same]
      exact inv.pf disabled port (lookupPort_mem found)
    · exact inv.pf disabled other old

theorem attach (inv : CardInv c) (portId : Nat) (added : Except Errno Unit) :
    CardInv (attachPortDev portId added c).2 := by
  unfold attachPortDev
  split
  case isTrue => exact inv
  case isFalse notVf =>
    split
    case h_1 => exact inv
    case h_2 port found =>
      split
      case isTrue => exact inv
      case isFalse released =>
        cases added with
        | error err => exact inv
        | ok _ =>
            have unregistered := Bool.eq_false_of_not_eq_true released
            have use := inv.use port (lookupPort_mem found)
            obtain ⟨excl, files⟩ := use.released unregistered
            let assigned : PortDev :=
              { port with registered := true, data := featureDevUseEnd port.data }
            have useAfter : UseInv assigned :=
              ⟨by simp [assigned, featureDevUseEnd, use.excl excl, files],
                by simp [assigned, featureDevUseEnd], by simp [assigned]⟩
            refine inv.set found useAfter rfl ?_ fun isVf => absurd isVf notVf
            simp [assigned, PortDev.isReleased, unregistered]

theorem detach (inv : CardInv c) (portId : Nat) : CardInv (detachPortDev portId c).2 := by
  unfold detachPortDev
  split
  case h_1 => exact inv
  case h_2 port found =>
    split
    case isTrue => exact inv
    case isFalse notReleased =>
      have registered := Bool.eq_true_of_not_eq_false notReleased
      have use := inv.use port (lookupPort_mem found)
      have count := use.openCount
      unfold featureDevUseExclBegin
      split_ifs with busy
      · exact inv
      · have zero : port.data.openCount = 0 := by
          by_contra used
          exact busy (.inl used)
        have noFiles : port.files = [] := by
          apply List.length_eq_zero_iff.mp
          simp only [registered, if_true] at count
          omega
        let released : PortDev := { port with
          registered := false
          data := { port.data with exclOpen := true, openCount := port.data.openCount + 1 } }
        have useAfter : UseInv released :=
          ⟨by simp [released, zero, noFiles], by simp [released, zero],
            fun _ => ⟨rfl, noFiles⟩⟩
        refine inv.set found useAfter rfl ?_ fun _ => rfl
        simp [released, PortDev.isReleased, registered]

/-- A change of one port that neither releases nor assigns it. -/
theorem set_data (inv : CardInv c) (found : lookupPort portId c.ports = some port) {data : PortData}
    {files : List Task} (use : UseInv { port with data := data, files := files }) :
    CardInv { c with ports := setPort { port with data := data, files := files } c.ports } := by
  apply inv.set found use rfl rfl
  intro isVf
  exact inv.vf port (lookupPort_mem found) (lookupPort_number found ▸ isVf)

theorem openFile (inv : CardInv c) (portId : Nat) (task : Task) (excl allocated : Bool) :
    CardInv (openPort portId task excl allocated c).2 := by
  unfold openPort
  split
  case h_1 => exact inv
  case h_2 port found =>
    have use := inv.use port (lookupPort_mem found)
    split
    case h_1 err data failed =>
      obtain ⟨count, flag⟩ := afuOpen_error use.excl failed
      refine inv.set_data found ⟨?_, ?_, ?_⟩
      · exact count.trans use.openCount
      · exact fun excl => count.trans (use.excl (flag ▸ excl))
      · exact fun released => ⟨flag.trans (use.released released).1, (use.released released).2⟩
    case h_2 data done =>
      obtain ⟨count, free, shared⟩ := afuOpen_ok done
      -- a released port is in exclusive use
      have registered : port.registered = true := by
        by_contra notRegistered
        obtain ⟨excl, -⟩ := use.released (Bool.eq_false_of_not_eq_true notRegistered)
        have one := use.excl excl
        have zero := shared excl
        omega
      have before := use.openCount
      refine inv.set_data found ⟨?_, fun excl => ?_, fun released => ?_⟩
      · simp only [registered, if_true, List.length_cons] at before ⊢
        omega
      · have zero := free excl
        show data.openCount = 1
        omega
      · cases registered.symm.trans released

theorem closeFile (inv : CardInv c) {portId : Nat} {opener : Task}
    (isOpen : ∀ port, lookupPort portId c.ports = some port → opener ∈ port.files) (closer : Task) :
    CardInv (closePort portId opener closer c).2 := by
  unfold closePort
  split
  case h_1 => exact inv
  case h_2 port found =>
    have use := inv.use port (lookupPort_mem found)
    have inFiles := isOpen port found
    have left := List.length_erase_of_mem inFiles
    have some := List.length_pos_of_mem inFiles
    have registered : port.registered = true := by
      by_contra notRegistered
      obtain ⟨-, noFiles⟩ := use.released (Bool.eq_false_of_not_eq_true notRegistered)
      simp [noFiles] at inFiles
    have before := use.openCount
    refine inv.set_data found ⟨?_, nofun, fun released => ?_⟩
    · simp only [afuRelease, featureDevUseEnd, registered, if_true] at before ⊢
      omega
    · cases registered.symm.trans released

/-- After all released ports have been turned to PF, no port is left to a VF. -/
theorem all_pf (inv : CardInv c) {vf : Nat → Bool}
    (same : ∀ port ∈ c.ports, port.registered = true → vf port.number = c.vf port.number) :
    ∀ port ∈ c.ports, turnToPf c.ports vf port.number = false := by
  intro port member
  cases registered : port.registered with
  | false => exact turnToPf_released member registered
  | true =>
      apply turnToPf_keeps
      rw [same port member registered]
      by_contra isVf
      have released := inv.vf port member (Bool.eq_true_of_not_eq_false isVf)
      cases registered.symm.trans released

/-- Turning to VF concerns released ports only. -/
theorem turnToVf_registered (inv : CardInv c) (member : port ∈ c.ports)
    (registered : port.registered = true) (numVfs : Nat) :
    turnToVf numVfs 0 c.ports c.vf port.number = c.vf port.number := by
  apply turnToVf_other
  intro other otherMember released same
  have equal := eq_of_number inv.numbers member otherMember same
  rw [equal, registered] at released
  cases released

theorem sriovConfigure (inv : CardInv c) (numVfs : Nat) (enabled : Except Errno Unit) :
    CardInv (cciPciSriovConfigure numVfs enabled c).2 := by
  unfold cciPciSriovConfigure
  split
  case isTrue => exact inv
  case isFalse =>
    split
    case isTrue =>
      have pf := inv.all_pf fun _ _ _ => rfl
      exact ⟨inv.numbers, inv.use, inv.released,
        fun port member isVf => absurd isVf (by simp [pf port member]), fun _ => pf⟩
    case isFalse =>
      cases enabled with
      | error err =>
          have pf := inv.all_pf fun port member registered =>
            inv.turnToVf_registered member registered numVfs
          exact ⟨inv.numbers, inv.use, inv.released,
            fun port member isVf => absurd isVf (by simp [pf port member]), fun _ => pf⟩
      | ok _ =>
          refine ⟨inv.numbers, inv.use, inv.released, fun port member isVf => ?_, nofun⟩
          by_contra notReleased
          have registered := Bool.eq_true_of_not_eq_false notReleased
          have isVf' : turnToVf numVfs 0 c.ports c.vf port.number = true := isVf
          rw [inv.turnToVf_registered member registered] at isVf'
          exact notReleased (inv.vf port member isVf')

theorem reach (reachable : cardSystem.Reachable c) : CardInv c := by
  apply reachable.invariant (fun _ => initial)
  rintro c call _ inv - ⟨possible, rfl⟩
  cases call with
  | attach portId added => exact inv.attach portId added
  | detach portId => exact inv.detach portId
  | sriovConfigure numVfs enabled => exact inv.sriovConfigure numVfs enabled
  | openFile portId task excl allocated => exact inv.openFile portId task excl allocated
  | closeFile portId opener closer => exact inv.closeFile possible closer

theorem agreed (inv : CardInv c) : Agreed c := by
  refine ⟨inv.released, inv.vf, fun port member released => ?_, fun port member excl =>
    (inv.use port member).excl excl⟩
  have use := inv.use port member
  obtain ⟨excl, -⟩ := use.released released
  refine ⟨excl, fun task isExcl allocated => ⟨.ebusy, ?_⟩⟩
  rw [openPort, lookupPort_of_mem inv.numbers member]
  simp only [afuOpen_excl isExcl excl (use.excl excl)]

end CardInv

section Calls

variable {c : Card} {err : Errno}

theorem attachPortDev_error {portId : Nat} {added : Except Errno Unit} :
    (attachPortDev portId added c).1 = .error err → (attachPortDev portId added c).2 = c := by
  unfold attachPortDev
  split
  · exact fun _ => rfl
  split
  · exact fun _ => rfl
  split
  · exact fun _ => rfl
  cases added with
  | error _ => exact fun _ => rfl
  | ok _ => exact nofun

theorem detachPortDev_error {portId : Nat} :
    (detachPortDev portId c).1 = .error err → (detachPortDev portId c).2 = c := by
  unfold detachPortDev
  split
  · exact fun _ => rfl
  split
  · exact fun _ => rfl
  split
  · exact fun _ => rfl
  · exact nofun

theorem openPort_error (inv : CardInv c) {portId : Nat} {task : Task} {excl allocated : Bool}
    (failed : (openPort portId task excl allocated c).1 = .error err) :
    (openPort portId task excl allocated c).2.view = c.view := by
  unfold openPort at failed ⊢
  split
  case h_1 => rfl
  case h_2 port found =>
    simp only [found] at failed
    split
    case h_1 _ data refused =>
      obtain ⟨count, flag⟩ := afuOpen_error (inv.use port (lookupPort_mem found)).excl refused
      let after : PortDev := { port with data := data }
      have number : after.number = portId := (lookupPort_number found : port.number = portId)
      have same := map_setPort
        (fun port => (port.number, port.registered, port.data.openCount, port.data.exclOpen)) found
        number (by simp [after, count, flag])
      simp [Card.view, after, same]
    case h_2 data done =>
      simp only [done] at failed
      cases failed

theorem cciPciSriovConfigure_error (inv : CardInv c) {numVfs : Nat} {enabled : Except Errno Unit}
    (possible : 0 < numVfs ↔ c.sriov = false)
    (failed : (cciPciSriovConfigure numVfs enabled c).1 = .error err) :
    (cciPciSriovConfigure numVfs enabled c).2.view = c.view := by
  unfold cciPciSriovConfigure at failed ⊢
  split
  case isTrue => rfl
  case isFalse enough =>
    rw [if_neg enough] at failed
    split
    case isTrue zero =>
      rw [if_pos zero] at failed
      cases failed
    case isFalse some =>
      rw [if_neg some] at failed
      cases enabled with
      | ok _ => cases failed
      | error _ =>
          have pf := inv.pf (possible.mp (by omega))
          -- all released ports were PF before
          have same : turnToPf c.ports (turnToVf numVfs 0 c.ports c.vf) = c.vf := by
            funext number
            by_cases isPort : ∃ port ∈ c.ports, port.registered = false ∧ port.number = number
            · obtain ⟨port, member, released, rfl⟩ := isPort
              rw [turnToPf_released member released, pf port member]
            · have other : ∀ port ∈ c.ports, port.registered = false → port.number ≠ number :=
                fun port member released same => isPort ⟨port, member, released, same⟩
              rw [turnToPf_other other, turnToVf_other other]
          simp [Card.view, same]

theorem cciPciSriovConfigure_ok (inv : CardInv c) {numVfs result : Nat}
    {enabled : Except Errno Unit} (possible : 0 < numVfs ↔ c.sriov = false) (some : 0 < numVfs)
    (done : (cciPciSriovConfigure numVfs enabled c).1 = .ok result) :
    (cciPciSriovConfigure numVfs enabled c).2.vfPorts = numVfs := by
  unfold cciPciSriovConfigure at done ⊢
  split
  case isTrue few =>
    rw [if_pos few] at done
    cases done
  case isFalse enough =>
    rw [if_neg enough] at done
    rw [if_neg (by omega)] at done ⊢
    cases enabled with
    | error _ => cases done
    | ok _ =>
        have released := inv.released
        have counted := countP_turnToVf inv.numbers (inv.pf (possible.mp some)) some
          (by omega : numVfs ≤ 0 + c.ports.countP PortDev.isReleased)
        simpa [Card.vfPorts] using counted

end Calls

/-- Whatever is called, in whatever order, the four places agree; a call that fails changes
nothing, and a call for virtual functions gives them as many ports. -/
theorem port_sharing_safe {c : Card} (reachable : cardSystem.Reachable c) :
    Agreed c ∧ ∀ call, call.Possible c →
      (∀ err, (c.call call).1 = .error err → (c.call call).2.view = c.view) ∧
      ∀ numVfs enabled result, call = .sriovConfigure numVfs enabled → 0 < numVfs →
        (c.call call).1 = .ok result → (c.call call).2.vfPorts = numVfs := by
  have inv := CardInv.reach reachable
  refine ⟨inv.agreed, fun call possible => ⟨fun err failed => ?_, ?_⟩⟩
  · cases call with
    | attach portId added => exact congrArg Card.view (attachPortDev_error failed)
    | detach portId => exact congrArg Card.view (detachPortDev_error failed)
    | sriovConfigure numVfs enabled => exact cciPciSriovConfigure_error inv possible failed
    | openFile portId task excl allocated => exact openPort_error inv failed
    | closeFile portId opener closer =>
        simp only [Card.call, closePort] at failed ⊢
        split at failed
        · rfl
        · cases failed
  · rintro numVfs enabled result rfl some done
    exact cciPciSriovConfigure_ok inv possible some done

/-- Two ports, one of which goes to a virtual function. -/
theorem port_sharing_safe_two_ports : ∃ c, cardSystem.Reachable c ∧ c.releasedPortNum = 1 ∧
    c.vfPorts = 1 ∧ Agreed c := by
  let fresh : Card := ⟨[⟨0, true, .new, []⟩, ⟨1, true, .new, []⟩], fun _ => false, 0, false⟩
  have isFresh : fresh.Fresh := ⟨by decide, by decide, fun _ _ => rfl, rfl, rfl⟩
  let released := (fresh.call (.detach 1)).2
  have detached : CardCall.Possible fresh (.detach 1) := trivial
  have enabled : CardCall.Possible released (.sriovConfigure 1 (.ok ())) :=
    ⟨fun _ => rfl, fun _ => Nat.one_pos⟩
  have reach : cardSystem.Reachable (released.call (.sriovConfigure 1 (.ok ()))).2 :=
    .step (.step (.init isFresh) trivial ⟨detached, rfl⟩) trivial ⟨enabled, rfl⟩
  exact ⟨_, reach, by decide, by decide, (port_sharing_safe reach).1⟩

end OpaeXilinx.Port
