import RobotFirmware.Imu.Sample
import RobotFirmware.Library.EarlyReturn
import RobotFirmware.Library.Resource

/-! The start of the ICM42670P backend: the pause queue, the I2C bus and device, the checks and
the configuration of the sensor, and the acquisition task. Every call out of the driver is
logged, newest first, with its answer; whatever answers has a state of its own. -/
namespace RobotFirmware.Imu
open EarlyReturn

/-- The drivers of the system and the sensor on the bus. -/
structure Outside (ω : Type) where
  createQueue : ω → Bool × ω
  newMasterBus : ω → Option EspErr × ω
  addDevice : ω → Option EspErr × ω
  transmit : ω → UInt8 → UInt8 → Option EspErr × ω
  transmitReceive : ω → UInt8 → Except EspErr UInt8 × ω
  delay : ω → ℕ → ω
  createTask : ω → Bool × ω
  removeDevice : ω → ω
  deleteBus : ω → ω
  deleteQueue : ω → ω

inductive Entry
  | createQueue (created : Bool)
  | newMasterBus (err : Option EspErr)
  | addDevice (err : Option EspErr)
  | transmit (register value : UInt8) (err : Option EspErr)
  | transmitReceive (register : UInt8) (reply : Except EspErr UInt8)
  | delay (ms : ℕ)
  | createTask (created : Bool)
  | removeDevice
  | deleteBus
  | deleteQueue

structure Counters where
  samplesOk : UInt32
  i2cErrors : UInt32
  protocolErrors : UInt32
  dataReadyTimeouts : UInt32
  parseErrors : UInt32
  submitErrors : UInt32
  testPauses : UInt32
  deriving DecidableEq

def Counters.zero : Counters := ⟨0, 0, 0, 0, 0, 0, 0⟩

/-- The static variables of the file, a handle as whether it is not null, with the outside and
the calls made so far. -/
structure Driver (ω : Type) where
  bus : Bool
  device : Bool
  testPauseQueue : Bool
  started : Bool
  counters : Counters
  outside : ω
  log : List Entry

variable {ω : Type}

def Driver.reset (outside : ω) : Driver ω := ⟨false, false, false, false, .zero, outside, []⟩

def Driver.called (d : Driver ω) (e : Entry) (outside : ω) : Driver ω :=
  { d with outside := outside, log := e :: d.log }

def Driver.countI2cError (d : Driver ω) : Driver ω :=
  { d with counters := { d.counters with i2cErrors := d.counters.i2cErrors + 1 } }

def Driver.countProtocolError (d : Driver ω) : Driver ω :=
  { d with counters := { d.counters with protocolErrors := d.counters.protocolErrors + 1 } }

/-- A function that returns true or, early, false. -/
abbrev Check (ω α : Type) := EStateM Unit (Driver ω) α

/-- A byte from a register, as far as the bus delivers it; `esp_err_t` is only tested. -/
def readRegister (o : Outside ω) (register : UInt8) : Check ω UInt8 := fun d =>
  let (reply, outside) := o.transmitReceive d.outside register
  let d := d.called (.transmitReceive register reply) outside
  match reply with
  | .ok value => .ok value d
  | .error _ => .error () d.countI2cError

def writeRegister (o : Outside ω) (register value : UInt8) : Check ω Unit := fun d =>
  let (err, outside) := o.transmit d.outside register value
  let d := d.called (.transmit register value err) outside
  match err with
  | none => .ok () d
  | some _ => .error () d.countI2cError

def vTaskDelay (o : Outside ω) (ms : ℕ) : Check ω Unit := fun d =>
  .ok () (d.called (.delay ms) (o.delay d.outside ms))

/-- The branch for a value that is not the expected one. -/
def refuseIf (wrong : Prop) [Decidable wrong] : Check ω Unit := fun d =>
  if wrong then .error () d.countProtocolError else .ok () d

def writeAndVerify (o : Outside ω) (registerAddress expectedValue : UInt8) : Check ω Unit := do
  writeRegister o registerAddress expectedValue
  let actualValue ← readRegister o registerAddress
  refuseIf (actualValue ≠ expectedValue)

def verifyWhoAmI (o : Outside ω) : Check ω Unit := do
  let whoAmI ← readRegister o 0x75
  refuseIf (whoAmI ≠ 0x67)

def softResetAndVerify (o : Outside ω) : Check ω Unit := do
  writeRegister o 0x02 0x10
  vTaskDelay o 2
  let resetStatus ← readRegister o 0x3A
  refuseIf (resetStatus &&& 0x10 = 0)
  verifyWhoAmI o

def configureSensor (o : Outside ω) : Check ω Unit := do
  let interfaceConfig ← readRegister o 0x35
  refuseIf (interfaceConfig &&& 0x10 = 0)
  writeAndVerify o 0x20 0x07
  writeAndVerify o 0x21 0x47
  let interruptSource ← readRegister o 0x2B
  writeAndVerify o 0x2B (interruptSource ||| 0x08)
  writeAndVerify o 0x1F 0x0F
  vTaskDelay o 60

def removeDevice (o : Outside ω) (d : Driver ω) : Driver ω :=
  if d.device then { d.called .removeDevice (o.removeDevice d.outside) with device := false }
  else d

def deleteBus (o : Outside ω) (d : Driver ω) : Driver ω :=
  if d.bus then { d.called .deleteBus (o.deleteBus d.outside) with bus := false } else d

def deleteQueue (o : Outside ω) (d : Driver ω) : Driver ω :=
  if d.testPauseQueue then
    { d.called .deleteQueue (o.deleteQueue d.outside) with testPauseQueue := false }
  else d

def cleanupStartFailure (o : Outside ω) (d : Driver ω) : Driver ω :=
  deleteQueue o (deleteBus o (removeDevice o d))

def invalidResponse : EspErr := .driver 0x108

abbrev Session (ω α : Type) := EStateM EspErr (Driver ω) α

def createTestPauseQueue (o : Outside ω) : Session ω Unit := fun d =>
  let (created, outside) := o.createQueue d.outside
  let d := { d.called (.createQueue created) outside with testPauseQueue := created }
  if created then .ok () d else .error .noMem d

def newMasterBus (o : Outside ω) : Session ω Unit := fun d =>
  let (err, outside) := o.newMasterBus d.outside
  let d := d.called (.newMasterBus err) outside
  match err with
  | none => .ok () { d with bus := true }
  | some e => .error e d

def addDevice (o : Outside ω) : Session ω Unit := fun d =>
  let (err, outside) := o.addDevice d.outside
  let d := d.called (.addDevice err) outside
  match err with
  | none => .ok () { d with device := true }
  | some e => .error e d

def createTask (o : Outside ω) : Session ω Unit := fun d =>
  let (created, outside) := o.createTask d.outside
  let d := d.called (.createTask created) outside
  if created then .ok () { d with started := true } else .error .noMem d

/-- The checks of the sensor in the condition of one `if`. -/
def verifySensor (o : Outside ω) : Check ω Unit := do
  verifyWhoAmI o
  softResetAndVerify o
  configureSensor o

/-- What the start does once it has its queue. -/
def startSensor (o : Outside ω) : Session ω Unit := do
  newMasterBus o
  addDevice o
  (verifySensor o).adaptExcept fun _ => invalidResponse
  createTask o

def startWithQueue (o : Outside ω) : Session ω Unit := do
  createTestPauseQueue o
  orCleanUp (cleanupStartFailure o) (startSensor o)

def robotImuIcm42670pBackendStart (o : Outside ω) : Session ω Unit := fun d =>
  if d.started then .error .invalidState d
  else startWithQueue o { d with counters := .zero }

/-- Exchanges with the sensor, which take nothing and give nothing back. -/
def Entry.talks : Entry → Bool
  | .transmit _ _ _ | .transmitReceive _ _ | .delay _ => true
  | _ => false

/-- Between the two the handles have stayed. -/
structure SameHandles (d t : Driver ω) : Prop where
  bus : t.bus = d.bus
  device : t.device = d.device
  testPauseQueue : t.testPauseQueue = d.testPauseQueue
  started : t.started = d.started

/-- The exchanges `new` and nothing else happened. -/
structure Went (d t : Driver ω) (new : List Entry) : Prop where
  log : t.log = new ++ d.log
  talks : ∀ e ∈ new, e.talks = true
  handles : SameHandles d t
  counters : t.counters = d.counters

def Entry.failed : Entry → Bool
  | .transmit _ _ (some _) | .transmitReceive _ (.error _) => true
  | _ => false

/-- The counter that the exchange raises where it ends a check. -/
def Entry.count (e : Entry) (c : Counters) : Counters :=
  if e.failed then { c with i2cErrors := c.i2cErrors + 1 }
  else { c with protocolErrors := c.protocolErrors + 1 }

/-- Both ask for the same, whatever the answers. -/
def Entry.SameRequest : Entry → Entry → Prop
  | .transmit register value _, .transmit register' value' _ =>
    register = register' ∧ value = value'
  | .transmitReceive register _, .transmitReceive register' _ => register = register'
  | _, _ => False

/-- The answers that a check refuses, after the exchanges `good`, newest first. -/
inductive Fails : List Entry → Entry → Prop
  | bus {good : List Entry} {bad : Entry} (hfailed : bad.failed = true) : Fails good bad
  | identity {good : List Entry} {value : UInt8} (hvalue : value ≠ 0x67) :
      Fails good (.transmitReceive 0x75 (.ok value))
  | resetStatus {good : List Entry} {value : UInt8} (hvalue : value &&& 0x10 = 0) :
      Fails good (.transmitReceive 0x3A (.ok value))
  | byteOrder {good : List Entry} {value : UInt8} (hvalue : value &&& 0x10 = 0) :
      Fails good (.transmitReceive 0x35 (.ok value))
  | readBack {older : List Entry} {register written value : UInt8} (hvalue : value ≠ written) :
      Fails (.transmit register written none :: older) (.transmitReceive register (.ok value))

/-- The exchanges `good` went as in some accepted run, and `bad`, the one it makes next, failed. -/
structure Stops (accepted : List Entry → Prop) (good : List Entry) (bad : Entry) : Prop where
  fails : Fails good bad
  next : ∃ want whole, accepted whole ∧ want :: good <:+ whole ∧ bad.SameRequest want

/-- The check stopped at an exchange, which has been counted. -/
structure Refused (accepted : List Entry → Prop) (d t : Driver ω) : Prop where
  stops : ∃ good bad, Stops accepted good bad ∧ (∀ e ∈ good, e.talks = true) ∧
    t.log = bad :: good ++ d.log ∧ t.counters = bad.count d.counters
  handles : SameHandles d t

theorem Fails.append {good older : List Entry} {bad : Entry} (h : Fails good bad) :
    Fails (good ++ older) bad := by
  cases h with
  | bus hfailed => exact .bus hfailed
  | identity hvalue => exact .identity hvalue
  | resetStatus hvalue => exact .resetStatus hvalue
  | byteOrder hvalue => exact .byteOrder hvalue
  | readBack hvalue => exact .readBack hvalue

theorem Entry.SameRequest.talks {bad want : Entry} (h : bad.SameRequest want) :
    bad.talks = true := by
  cases bad <;> first | rfl | exact absurd h id

theorem SameHandles.trans {d t u : Driver ω} (h : SameHandles d t) (h' : SameHandles t u) :
    SameHandles d u :=
  ⟨h'.bus.trans h.bus, h'.device.trans h.device, h'.testPauseQueue.trans h.testPauseQueue,
    h'.started.trans h.started⟩

theorem Went.nil (d : Driver ω) : Went d d [] := ⟨rfl, nofun, ⟨rfl, rfl, rfl, rfl⟩, rfl⟩

theorem Went.trans {d t u : Driver ω} {new newer : List Entry} (h : Went d t new)
    (h' : Went t u newer) : Went d u (newer ++ new) := by
  refine ⟨?_, ?_, h.handles.trans h'.handles, h'.counters.trans h.counters⟩
  · rw [h'.log, h.log, List.append_assoc]
  · intro e he
    rcases List.mem_append.mp he with he | he
    · exact h'.talks e he
    · exact h.talks e he

theorem Refused.after {accepted accepted' : List Entry → Prop} {d t u : Driver ω}
    {older : List Entry} (h : Refused accepted t u) (hwent : Went d t older)
    (hmore : ∀ whole, accepted whole → accepted' (whole ++ older)) : Refused accepted' d u := by
  obtain ⟨⟨good, bad, hstops, htalks, hlog, hcounters⟩, hhandles⟩ := h
  obtain ⟨want, whole, haccepted, hsuffix, hsame⟩ := hstops.next
  have hsuffix' : want :: (good ++ older) <:+ whole ++ older := by
    obtain ⟨rest, hrest⟩ := hsuffix
    exact ⟨rest, by rw [← hrest]; simp⟩
  refine ⟨⟨good ++ older, bad, ⟨hstops.fails.append, want, _, hmore whole haccepted, hsuffix',
    hsame⟩, ?_, ?_, ?_⟩, hwent.handles.trans hhandles⟩
  · intro e he
    rcases List.mem_append.mp he with he | he
    · exact htalks e he
    · exact hwent.talks e he
  · rw [hlog, hwent.log]
    simp
  · rw [hcounters, hwent.counters]

theorem Refused.mono {accepted accepted' : List Entry → Prop} {d t : Driver ω}
    (h : Refused accepted d t)
    (hmore : ∀ whole, accepted whole → ∃ newer, accepted' (newer ++ whole)) :
    Refused accepted' d t := by
  obtain ⟨⟨good, bad, hstops, hrest⟩, hhandles⟩ := h
  obtain ⟨want, whole, haccepted, hsuffix, hsame⟩ := hstops.next
  obtain ⟨newer, hnewer⟩ := hmore whole haccepted
  exact ⟨⟨good, bad, ⟨hstops.fails, want, newer ++ whole, hnewer,
    hsuffix.trans (List.suffix_append newer whole), hsame⟩, hrest⟩, hhandles⟩

/-- The check returns only after exchanges that satisfy `P`, and there are such exchanges;
otherwise it stops at the first answer that does not fit. -/
structure Checks {α : Type} (x : Check ω α) (P : α → List Entry → Prop) : Prop where
  possible : ∃ a new, P a new
  ends : ∀ d, Ends x d (fun a t => ∃ new, P a new ∧ Went d t new)
    fun _ t => Refused (fun new => ∃ a, P a new) d t

section
variable {α β : Type} {x : Check ω α} {f : α → Check ω β} {P P' : α → List Entry → Prop}
  {R : α → β → List Entry → Prop}

theorem Checks.bind (hx : Checks x P) (hf : ∀ a, Checks (f a) (R a)) :
    Checks (x >>= f) fun b new => ∃ a older newer, P a older ∧ R a b newer ∧
      new = newer ++ older := by
  constructor
  · obtain ⟨a, older, hP⟩ := hx.possible
    obtain ⟨b, newer, hR⟩ := (hf a).possible
    exact ⟨b, newer ++ older, a, older, newer, hP, hR, rfl⟩
  · intro d
    have hfirst : Ends x d (fun a t => ∃ new, P a new ∧ Went d t new)
        fun _ t => Refused (fun new => ∃ b a older newer, P a older ∧ R a b newer ∧
          new = newer ++ older) d t := by
      apply (hx.ends d).mono (fun _ _ h => h)
      intro _ t ht
      apply ht.mono
      rintro older ⟨a, hP⟩
      obtain ⟨b, newer, hR⟩ := (hf a).possible
      exact ⟨newer, b, a, older, newer, hP, hR, rfl⟩
    apply hfirst.bind
    intro a t ht
    obtain ⟨older, hP, hwent⟩ := ht
    apply ((hf a).ends t).mono
    · intro b u hu
      obtain ⟨newer, hR, hwent'⟩ := hu
      exact ⟨newer ++ older, ⟨a, older, newer, hP, hR, rfl⟩, hwent.trans hwent'⟩
    · intro _ u hu
      apply hu.after hwent
      rintro newer ⟨b, hR⟩
      exact ⟨b, a, older, newer, hP, hR, rfl⟩

theorem Checks.mono (hx : Checks x P) (hP : ∀ a new, P a new → P' a new) : Checks x P' := by
  constructor
  · obtain ⟨a, new, hnew⟩ := hx.possible
    exact ⟨a, new, hP a new hnew⟩
  · intro d
    apply (hx.ends d).mono
    · intro a t ht
      obtain ⟨new, hnew, hwent⟩ := ht
      exact ⟨new, hP a new hnew, hwent⟩
    · intro _ t ht
      apply ht.mono
      rintro whole ⟨a, hwhole⟩
      exact ⟨[], a, hP a whole hwhole⟩

end

section
variable (o : Outside ω) (register value : UInt8)

theorem readRegister_checks :
    Checks (readRegister o register) fun v new => new = [.transmitReceive register (.ok v)] := by
  refine ⟨⟨0, _, rfl⟩, fun d => ?_⟩
  unfold Ends readRegister
  dsimp only
  cases hreply : (o.transmitReceive d.outside register).1 with
  | ok v => exact ⟨_, rfl, rfl, by simp [Entry.talks], ⟨rfl, rfl, rfl, rfl⟩, rfl⟩
  | error e =>
    have hnext : [.transmitReceive register (.ok 0)] <:+
        [Entry.transmitReceive register (.ok 0)] := List.suffix_rfl
    exact ⟨⟨[], .transmitReceive register (.error e), ⟨.bus rfl, _, _, ⟨0, rfl⟩, hnext, rfl⟩, nofun,
      rfl, rfl⟩, ⟨rfl, rfl, rfl, rfl⟩⟩

theorem writeRegister_checks :
    Checks (writeRegister o register value) fun _ new => new = [.transmit register value none] := by
  refine ⟨⟨(), _, rfl⟩, fun d => ?_⟩
  unfold Ends writeRegister
  dsimp only
  cases herr : (o.transmit d.outside register value).1 with
  | none => exact ⟨_, rfl, rfl, by simp [Entry.talks], ⟨rfl, rfl, rfl, rfl⟩, rfl⟩
  | some e =>
    have hnext : [.transmit register value none] <:+
        [Entry.transmit register value none] := List.suffix_rfl
    exact ⟨⟨[], .transmit register value (some e), ⟨.bus rfl, _, _, ⟨(), rfl⟩, hnext, rfl, rfl⟩,
      nofun, rfl, rfl⟩, ⟨rfl, rfl, rfl, rfl⟩⟩

theorem vTaskDelay_checks (ms : ℕ) :
    Checks (vTaskDelay o ms) fun _ new => new = [.delay ms] :=
  ⟨⟨(), _, rfl⟩, fun _ => ⟨_, rfl, rfl, by simp [Entry.talks], ⟨rfl, rfl, rfl, rfl⟩, rfl⟩⟩

theorem SameHandles.counted {d t : Driver ω} (h : SameHandles d t) (e : Entry) (outside : ω)
    (c : Counters) : SameHandles d { t.called e outside with counters := c } :=
  ⟨h.bus, h.device, h.testPauseQueue, h.started⟩

/-- A register is read after the exchanges `good`, and its value refused where it is wrong. -/
theorem readRefuse_ends (wrong : UInt8 → Prop) [DecidablePred wrong] (accepted : List Entry → Prop)
    {d t : Driver ω} {good : List Entry} (hwent : Went d t good) {right : UInt8}
    (haccepted : accepted (.transmitReceive register (.ok right) :: good))
    (hfails : ∀ v, wrong v → Fails good (.transmitReceive register (.ok v))) :
    Ends (readRegister o register >>= fun v => refuseIf (wrong v)) t
      (fun _ u => ∃ v, ¬ wrong v ∧ Went d u (.transmitReceive register (.ok v) :: good))
      (fun _ u => Refused accepted d u) := by
  have hstops : ∀ reply, Fails good (.transmitReceive register reply) →
      Stops accepted good (.transmitReceive register reply) :=
    fun _ h => ⟨h, _, _, haccepted, List.suffix_rfl, rfl⟩
  have hlog : ∀ reply, (Entry.transmitReceive register reply) :: t.log =
      .transmitReceive register reply :: good ++ d.log := fun _ => congrArg _ hwent.log
  have hread : Ends (readRegister o register) t
      (fun v u => Went d u (.transmitReceive register (.ok v) :: good))
      (fun _ u => Refused accepted d u) := by
    unfold Ends readRegister
    dsimp only
    cases hreply : (o.transmitReceive t.outside register).1 with
    | ok v =>
      exact ⟨hlog (.ok v), List.forall_mem_cons.mpr ⟨rfl, hwent.talks⟩,
        hwent.handles.counted _ _ t.counters, hwent.counters⟩
    | error e =>
      refine ⟨⟨good, _, hstops (.error e) (.bus rfl), hwent.talks, hlog (.error e), ?_⟩,
        hwent.handles.counted _ _ _⟩
      show { t.counters with i2cErrors := t.counters.i2cErrors + 1 } = _
      rw [hwent.counters]
      rfl
  apply hread.bind
  intro v u hu
  unfold Ends refuseIf
  by_cases hwrong : wrong v
  · rw [if_pos hwrong]
    refine ⟨⟨good, _, hstops (.ok v) (hfails v hwrong), hwent.talks, hu.log, ?_⟩,
      ⟨hu.handles.bus, hu.handles.device, hu.handles.testPauseQueue, hu.handles.started⟩⟩
    show { u.counters with protocolErrors := u.counters.protocolErrors + 1 } = _
    rw [hu.counters]
    rfl
  · rw [if_neg hwrong]
    exact ⟨v, hwrong, hu⟩

theorem readRefuse_checks (wrong : UInt8 → Prop) [DecidablePred wrong] (right : UInt8)
    (hright : ¬ wrong right)
    (hfails : ∀ v, wrong v → Fails [] (.transmitReceive register (.ok v))) :
    Checks (readRegister o register >>= fun v => refuseIf (wrong v)) fun _ new =>
      ∃ v, ¬ wrong v ∧ new = [.transmitReceive register (.ok v)] := by
  refine ⟨⟨(), _, right, hright, rfl⟩, fun d => ?_⟩
  apply (readRefuse_ends o register wrong
    (fun new => ∃ _ : Unit, ∃ v, ¬ wrong v ∧ new = [.transmitReceive register (.ok v)]) (Went.nil d)
    ⟨(), right, hright, rfl⟩ hfails).mono
  · rintro _ t ⟨v, hv, hwent⟩
    exact ⟨_, ⟨v, hv, rfl⟩, hwent⟩
  · exact fun _ _ h => h

end

def verified (register value : UInt8) : List Entry :=
  [.transmitReceive register (.ok value), .transmit register value none]

def identified : List Entry := [.transmitReceive 0x75 (.ok 0x67)]

def resetDone (status : UInt8) : List Entry :=
  identified ++ [.transmitReceive 0x3A (.ok status), .delay 2, .transmit 0x02 0x10 none]

/-- The configuration, which keeps the other interrupt sources. -/
def configured (interface source : UInt8) : List Entry :=
  [.delay 60] ++ verified 0x1F 0x0F ++ verified 0x2B (source ||| 0x08) ++
    [.transmitReceive 0x2B (.ok source)] ++ verified 0x21 0x47 ++ verified 0x20 0x07 ++
    [.transmitReceive 0x35 (.ok interface)]

/-- All exchanges of a start that accepts the sensor, newest first. -/
def transcript (status interface source : UInt8) : List Entry :=
  configured interface source ++ resetDone status ++ identified

section
variable (o : Outside ω)

theorem writeAndVerify_checks (register value : UInt8) :
    Checks (writeAndVerify o register value) fun _ new => new = verified register value := by
  refine ⟨⟨(), _, rfl⟩, fun d => ?_⟩
  apply (((writeRegister_checks o register value).ends d).mono (fun _ _ h => h) ?_).bind
  · rintro _ t ⟨_, rfl, hwent⟩
    apply (readRefuse_ends o register (fun actualValue => actualValue ≠ value)
      (fun new => ∃ _ : Unit, new = verified register value) hwent ⟨(), rfl⟩
      fun v hv => .readBack hv).mono
    · rintro _ u ⟨v, hv, hwent'⟩
      rw [not_not.mp hv] at hwent'
      exact ⟨_, rfl, hwent'⟩
    · exact fun _ _ h => h
  · intro _ t ht
    apply ht.mono
    rintro _ ⟨_, rfl⟩
    exact ⟨[.transmitReceive register (.ok value)], (), rfl⟩

theorem verifyWhoAmI_checks : Checks (verifyWhoAmI o) fun _ new => new = identified := by
  apply (readRefuse_checks o 0x75 (fun whoAmI => whoAmI ≠ 0x67) 0x67 (not_not.mpr rfl)
    fun _ hv => .identity hv).mono
  rintro _ _ ⟨v, hv, rfl⟩
  rw [not_not.mp hv]
  rfl

theorem softResetAndVerify_checks :
    Checks (softResetAndVerify o) fun _ new =>
      ∃ status, status &&& 0x10 ≠ 0 ∧ new = resetDone status := by
  have hstatus := readRefuse_checks o 0x3A (fun status => status &&& 0x10 = 0) 0x10
    (by decide) fun _ hv => .resetStatus hv
  have hchecks := (writeRegister_checks o 0x02 0x10).bind fun _ => (vTaskDelay_checks o 2).bind
    fun _ => hstatus.bind fun _ => verifyWhoAmI_checks o
  simp only [bind_assoc] at hchecks
  apply hchecks.mono
  rintro _ _ ⟨_, _, _, rfl, ⟨_, _, _, rfl, ⟨_, _, _, ⟨status, hv, rfl⟩, rfl, rfl⟩, rfl⟩, rfl⟩
  exact ⟨status, hv, rfl⟩

theorem configureSensor_checks :
    Checks (configureSensor o) fun _ new =>
      ∃ interface source, interface &&& 0x10 ≠ 0 ∧ new = configured interface source := by
  have hinterface := readRefuse_checks o 0x35 (fun interface => interface &&& 0x10 = 0) 0x10
    (by decide) fun _ hv => .byteOrder hv
  have hchecks := hinterface.bind fun _ =>
    (writeAndVerify_checks o 0x20 0x07).bind fun _ =>
    (writeAndVerify_checks o 0x21 0x47).bind fun _ =>
    (readRegister_checks o 0x2B).bind fun source =>
    (writeAndVerify_checks o 0x2B (source ||| 0x08)).bind fun _ =>
    (writeAndVerify_checks o 0x1F 0x0F).bind fun _ => vTaskDelay_checks o 60
  simp only [bind_assoc] at hchecks
  apply hchecks.mono
  rintro _ _ ⟨_, _, _, ⟨interface, hv, rfl⟩, ⟨_, _, _, rfl, ⟨_, _, _, rfl,
    ⟨source, _, _, rfl, ⟨_, _, _, rfl, ⟨_, _, _, rfl, rfl, rfl⟩, rfl⟩, rfl⟩, rfl⟩, rfl⟩, rfl⟩
  exact ⟨interface, source, hv, rfl⟩

theorem verifySensor_checks :
    Checks (verifySensor o) fun _ new => ∃ status interface source, status &&& 0x10 ≠ 0 ∧
      interface &&& 0x10 ≠ 0 ∧ new = transcript status interface source := by
  apply ((verifyWhoAmI_checks o).bind fun _ => (softResetAndVerify_checks o).bind fun _ =>
    configureSensor_checks o).mono
  rintro _ _ ⟨_, _, _, rfl, ⟨_, _, _, ⟨status, hstatus, rfl⟩,
    ⟨interface, source, hinterface, rfl⟩, rfl⟩, rfl⟩
  exact ⟨status, interface, source, hstatus, hinterface, rfl⟩

end

inductive Holding
  | queue
  | bus
  | device
  | task
  deriving DecidableEq

def effect : Entry → Resource.Effect Holding
  | .createQueue true => .take .queue
  | .newMasterBus none => .take .bus
  | .addDevice none => .take .device
  | .createTask true => .take .task
  | .deleteQueue => .giveBack .queue
  | .deleteBus => .giveBack .bus
  | .removeDevice => .giveBack .device
  | _ => .nothing

/-- The task reads from the device and from the queue as long as it runs. -/
def users : Holding → List Holding
  | .queue => [.task]
  | .bus => [.device, .task]
  | .device => [.task]
  | .task => []

def Driver.holds (d : Driver ω) : Holding → Bool
  | .queue => d.testPauseQueue
  | .bus => d.bus
  | .device => d.device
  | .task => d.started

/-- The calls were disciplined and the statics tell what is held. -/
structure Accounted (d : Driver ω) : Prop where
  disciplined : Resource.Disciplined effect users d.log
  live (r : Holding) : Resource.live effect d.log r = d.holds r

theorem accounted_reset (outside : ω) : Accounted (Driver.reset outside) :=
  ⟨trivial, fun r => by cases r <;> rfl⟩

theorem effect_of_talks {e : Entry} (h : e.talks = true) : effect e = .nothing := by
  cases e <;> first | rfl | cases h

theorem SameHandles.holds {d t : Driver ω} (h : SameHandles d t) (r : Holding) :
    t.holds r = d.holds r := by
  cases r with
  | queue => exact h.testPauseQueue
  | bus => exact h.bus
  | device => exact h.device
  | task => exact h.started

theorem talk_log {new log : List Entry} (htalks : ∀ e ∈ new, e.talks = true)
    (hd : Resource.Disciplined effect users log) :
    Resource.Disciplined effect users (new ++ log) ∧
      ∀ r, Resource.live effect (new ++ log) r = Resource.live effect log r := by
  induction new with
  | nil => exact ⟨hd, fun _ => rfl⟩
  | cons e new ih =>
    have heffect := effect_of_talks (htalks e List.mem_cons_self)
    obtain ⟨hold, hlive⟩ := ih fun x hx => htalks x (List.mem_cons_of_mem e hx)
    refine ⟨hold.nothing heffect, fun r => ?_⟩
    rw [List.cons_append, Resource.live_nothing heffect, hlive r]

theorem Accounted.talk {d t : Driver ω} (h : Accounted d) {new : List Entry}
    (hlog : t.log = new ++ d.log) (htalks : ∀ e ∈ new, e.talks = true)
    (hsame : SameHandles d t) : Accounted t := by
  obtain ⟨hdisciplined, hlive⟩ := talk_log htalks h.disciplined
  constructor
  · rw [hlog]
    exact hdisciplined
  · intro r
    rw [hlog, hlive r, h.live r, hsame.holds r]

theorem Accounted.take {d t : Driver ω} (h : Accounted d) {e : Entry} {k : Holding}
    (hlog : t.log = e :: d.log) (he : effect e = .take k) (hfree : d.holds k = false)
    (hholds : ∀ r, t.holds r = (decide (r = k) || d.holds r)) : Accounted t := by
  constructor
  · rw [hlog]
    exact h.disciplined.take he ((h.live k).trans hfree)
  · intro r
    rw [hlog, Resource.live_take he, h.live r, hholds r]

theorem Accounted.nothing {d t : Driver ω} (h : Accounted d) {e : Entry}
    (hlog : t.log = e :: d.log) (he : effect e = .nothing)
    (hholds : ∀ r, t.holds r = d.holds r) : Accounted t := by
  constructor
  · rw [hlog]
    exact h.disciplined.nothing he
  · intro r
    rw [hlog, Resource.live_nothing he, h.live r, hholds r]

theorem Accounted.giveBack {d t : Driver ω} (h : Accounted d) {e : Entry} {k : Holding}
    (hlog : t.log = e :: d.log) (he : effect e = .giveBack k) (hheld : d.holds k = true)
    (husers : ∀ u ∈ users k, d.holds u = false)
    (hholds : ∀ r, t.holds r = (!decide (r = k) && d.holds r)) : Accounted t := by
  constructor
  · rw [hlog]
    apply h.disciplined.giveBack he ((h.live k).trans hheld)
    exact fun u hu => (h.live u).trans (husers u hu)
  · intro r
    rw [hlog, Resource.live_giveBack he, h.live r, hholds r]

section
variable {o : Outside ω} {d : Driver ω} (h : Accounted d) (hidle : d.started = false)
include h hidle

theorem Accounted.afterRemoveDevice : Accounted (removeDevice o d) := by
  unfold removeDevice
  split_ifs with hdevice
  · apply h.giveBack (k := .device) rfl rfl hdevice
    · intro u hu
      rw [List.mem_singleton.mp hu]
      exact hidle
    · intro r
      cases r <;> rfl
  · exact h

theorem Accounted.afterDeleteBus (hdevice : d.device = false) : Accounted (deleteBus o d) := by
  unfold deleteBus
  split_ifs with hbus
  · apply h.giveBack (k := .bus) rfl rfl hbus
    · intro u hu
      rcases List.mem_cons.mp hu with rfl | hu
      · exact hdevice
      · rw [List.mem_singleton.mp hu]
        exact hidle
    · intro r
      cases r <;> rfl
  · exact h

theorem Accounted.afterDeleteQueue : Accounted (deleteQueue o d) := by
  unfold deleteQueue
  split_ifs with hqueue
  · apply h.giveBack (k := .queue) rfl rfl hqueue
    · intro u hu
      rw [List.mem_singleton.mp hu]
      exact hidle
    · intro r
      cases r <;> rfl
  · exact h

end

/-- The cleanup gives back what the statics show and leaves them null. -/
theorem Accounted.cleanup {o : Outside ω} {d : Driver ω} (h : Accounted d)
    (hidle : d.started = false) : Accounted (cleanupStartFailure o d) ∧
      (∀ r, (cleanupStartFailure o d).holds r = false) ∧
      (cleanupStartFailure o d).counters = d.counters := by
  have hfirst : (removeDevice o d).device = false ∧ (removeDevice o d).started = false ∧
      (removeDevice o d).counters = d.counters := by
    unfold removeDevice
    split_ifs with hdevice
    · exact ⟨rfl, hidle, rfl⟩
    · exact ⟨by simpa using hdevice, hidle, rfl⟩
  have hsecond : (deleteBus o (removeDevice o d)).bus = false ∧
      (deleteBus o (removeDevice o d)).device = false ∧
      (deleteBus o (removeDevice o d)).started = false ∧
      (deleteBus o (removeDevice o d)).counters = d.counters := by
    unfold deleteBus
    split_ifs with hbus
    · exact ⟨rfl, hfirst⟩
    · exact ⟨by simpa using hbus, hfirst⟩
  have haccounted :=
    (h.afterRemoveDevice (o := o) hidle).afterDeleteBus (o := o) hfirst.2.1 hfirst.1
  refine ⟨haccounted.afterDeleteQueue hsecond.2.2.1, ?_, ?_⟩
  · unfold cleanupStartFailure
    intro r
    unfold deleteQueue
    split_ifs with hqueue
    · cases r with
      | queue => rfl
      | bus => exact hsecond.1
      | device => exact hsecond.2.1
      | task => exact hsecond.2.2.1
    · cases r with
      | queue => exact Bool.eq_false_iff.mpr hqueue
      | bus => exact hsecond.1
      | device => exact hsecond.2.1
      | task => exact hsecond.2.2.1
  · unfold cleanupStartFailure deleteQueue
    split_ifs
    · exact hsecond.2.2.2
    · exact hsecond.2.2.2

/-- The drivers are held from the queue on up to some point. -/
def Driver.upTo (d : Driver ω) (queue bus device task : Bool) : Prop :=
  d.testPauseQueue = queue ∧ d.bus = bus ∧ d.device = device ∧ d.started = task

/-- The cleanup releases what there is, the newest first. -/
theorem cleanupStartFailure_log (o : Outside ω) {d : Driver ω} {bus device : Bool}
    (hd : d.upTo true bus device false) :
    (cleanupStartFailure o d).log = .deleteQueue :: (if bus then [.deleteBus] else []) ++
      (if device then [.removeDevice] else []) ++ d.log := by
  obtain ⟨hqueue, hbus, hdevice, _⟩ := hd
  unfold cleanupStartFailure deleteQueue deleteBus removeDevice
  cases bus <;> cases device <;> simp [hqueue, hbus, hdevice, Driver.called]

def Accepts (new : List Entry) : Prop :=
  ∃ status interface source, status &&& 0x10 ≠ 0 ∧ interface &&& 0x10 ≠ 0 ∧
    new = transcript status interface source

/-- A start that stops with the queue, and maybe the bus and the device, in its hands. -/
structure Abandoned (d t : Driver ω) (bus device : Bool) (new : List Entry) (c : Counters) :
    Prop where
  accounted : Accounted t
  held : t.upTo true bus device false
  log : t.log = new ++ d.log
  counters : t.counters = c

inductive GaveUp (d t : Driver ω) : EspErr → Prop
  | bus {err : EspErr}
      (h : Abandoned d t false false [.newMasterBus (some err)] d.counters) : GaveUp d t err
  | device {err : EspErr}
      (h : Abandoned d t true false [.addDevice (some err), .newMasterBus none] d.counters) :
      GaveUp d t err
  | sensor {good : List Entry} {bad : Entry} (hstops : Stops Accepts good bad)
      (h : Abandoned d t true true (bad :: good ++ [.addDevice none, .newMasterBus none])
        (bad.count d.counters)) : GaveUp d t invalidResponse
  | task {new : List Entry} (haccepts : Accepts new)
      (h : Abandoned d t true true
        (.createTask false :: new ++ [.addDevice none, .newMasterBus none]) d.counters) :
      GaveUp d t .noMem

theorem Abandoned.after {d t u : Driver ω} {bus device : Bool} {new older : List Entry}
    {c : Counters} (h : Abandoned t u bus device new c) (hlog : t.log = older ++ d.log) :
    Abandoned d u bus device (new ++ older) c :=
  ⟨h.accounted, h.held, by rw [h.log, hlog, List.append_assoc], h.counters⟩

theorem newMasterBus_ends (o : Outside ω) {d : Driver ω} (h : Accounted d)
    (hd : d.upTo true false false false) :
    Ends (newMasterBus o) d
      (fun _ t => Accounted t ∧ t.upTo true true false false ∧ t.counters = d.counters ∧
        t.log = .newMasterBus none :: d.log)
      (fun e t => Abandoned d t false false [.newMasterBus (some e)] d.counters) := by
  obtain ⟨hqueue, hbus, hdevice, hidle⟩ := hd
  unfold Ends newMasterBus
  dsimp only
  cases herr : (o.newMasterBus d.outside).1 with
  | none =>
    refine ⟨h.take (k := .bus) rfl rfl hbus ?_, ⟨hqueue, rfl, hdevice, hidle⟩, rfl, rfl⟩
    intro r
    cases r <;> rfl
  | some e =>
    refine ⟨h.nothing rfl rfl ?_, ⟨hqueue, hbus, hdevice, hidle⟩, rfl, rfl⟩
    intro r
    cases r <;> rfl

theorem addDevice_ends (o : Outside ω) {d : Driver ω} (h : Accounted d)
    (hd : d.upTo true true false false) :
    Ends (addDevice o) d
      (fun _ t => Accounted t ∧ t.upTo true true true false ∧ t.counters = d.counters ∧
        t.log = .addDevice none :: d.log)
      (fun e t => Abandoned d t true false [.addDevice (some e)] d.counters) := by
  obtain ⟨hqueue, hbus, hdevice, hidle⟩ := hd
  unfold Ends addDevice
  dsimp only
  cases herr : (o.addDevice d.outside).1 with
  | none =>
    refine ⟨h.take (k := .device) rfl rfl hdevice ?_, ⟨hqueue, hbus, rfl, hidle⟩, rfl, rfl⟩
    intro r
    cases r <;> rfl
  | some e =>
    refine ⟨h.nothing rfl rfl ?_, ⟨hqueue, hbus, hdevice, hidle⟩, rfl, rfl⟩
    intro r
    cases r <;> rfl

theorem SameHandles.upTo {d t : Driver ω} (h : SameHandles d t) {queue bus device task : Bool}
    (hd : d.upTo queue bus device task) : t.upTo queue bus device task :=
  ⟨h.testPauseQueue.trans hd.1, h.bus.trans hd.2.1, h.device.trans hd.2.2.1,
    h.started.trans hd.2.2.2⟩

theorem verifySensor_ends (o : Outside ω) {d : Driver ω} (h : Accounted d)
    (hd : d.upTo true true true false) :
    Ends ((verifySensor o).adaptExcept fun _ => invalidResponse) d
      (fun _ t => Accounted t ∧ t.upTo true true true false ∧ t.counters = d.counters ∧
        ∃ new, Accepts new ∧ t.log = new ++ d.log)
      (fun e t => e = invalidResponse ∧ ∃ good bad, Stops Accepts good bad ∧
        Abandoned d t true true (bad :: good) (bad.count d.counters)) := by
  apply Ends.adapt
  apply ((verifySensor_checks o).ends d).mono
  · rintro _ t ⟨new, haccepts, hwent⟩
    exact ⟨h.talk hwent.log hwent.talks hwent.handles, hwent.handles.upTo hd, hwent.counters, new,
      haccepts, hwent.log⟩
  · rintro _ t ⟨⟨good, bad, hstops, htalks, hlog, hcounters⟩, hhandles⟩
    obtain ⟨want, whole, ⟨_, haccepts⟩, hsuffix, hsame⟩ := hstops.next
    have htalks' : ∀ e ∈ bad :: good, e.talks = true :=
      List.forall_mem_cons.mpr ⟨hsame.talks, htalks⟩
    exact ⟨rfl, good, bad, ⟨hstops.fails, want, whole, haccepts, hsuffix, hsame⟩,
      h.talk hlog htalks' hhandles, hhandles.upTo hd, hlog, hcounters⟩

theorem createTask_ends (o : Outside ω) {d : Driver ω} (h : Accounted d)
    (hd : d.upTo true true true false) :
    Ends (createTask o) d
      (fun _ t => Accounted t ∧ t.upTo true true true true ∧ t.counters = d.counters ∧
        t.log = .createTask true :: d.log)
      (fun e t => e = .noMem ∧ Abandoned d t true true [.createTask false] d.counters) := by
  obtain ⟨hqueue, hbus, hdevice, hidle⟩ := hd
  unfold Ends createTask
  dsimp only
  cases hcreated : (o.createTask d.outside).1 with
  | true =>
    refine ⟨h.take (k := .task) rfl rfl hidle ?_, ⟨hqueue, hbus, hdevice, rfl⟩, rfl, rfl⟩
    intro r
    cases r <;> rfl
  | false =>
    refine ⟨rfl, h.nothing rfl rfl ?_, ⟨hqueue, hbus, hdevice, hidle⟩, rfl, rfl⟩
    intro r
    cases r <;> rfl

theorem startSensor_ends (o : Outside ω) {d : Driver ω} (h : Accounted d)
    (hd : d.upTo true false false false) :
    Ends (startSensor o) d
      (fun _ t => Accounted t ∧ t.upTo true true true true ∧ t.counters = d.counters ∧
        ∃ new, Accepts new ∧
          t.log = .createTask true :: new ++ [.addDevice none, .newMasterBus none] ++ d.log)
      (fun e t => GaveUp d t e) := by
  apply ((newMasterBus_ends o h hd).mono (fun _ _ hP => hP) fun _ _ hQ => .bus hQ).bind
  rintro _ t₁ ⟨haccounted₁, hd₁, hcounters₁, hlog₁⟩
  apply ((addDevice_ends o haccounted₁ hd₁).mono (fun _ _ hP => hP) ?_).bind
  · rintro _ t₂ ⟨haccounted₂, hd₂, hcounters₂, hlog₂⟩
    have hsame₂ := hcounters₂.trans hcounters₁
    have hlog : t₂.log = [.addDevice none, .newMasterBus none] ++ d.log := by
      rw [hlog₂, hlog₁]
      rfl
    apply ((verifySensor_ends o haccounted₂ hd₂).mono (fun _ _ hP => hP) ?_).bind
    · rintro _ t₃ ⟨haccounted₃, hd₃, hcounters₃, new, haccepts, hlog₃⟩
      have hsame₃ := hcounters₃.trans hsame₂
      have hlog' : t₃.log = new ++ [.addDevice none, .newMasterBus none] ++ d.log := by
        rw [hlog₃, hlog, List.append_assoc]
      apply (createTask_ends o haccounted₃ hd₃).mono
      · rintro _ t ⟨haccounted, hd', hcounters, hlog₄⟩
        refine ⟨haccounted, hd', hcounters.trans hsame₃, new, haccepts, ?_⟩
        rw [hlog₄, hlog']
        rfl
      · rintro _ t ⟨rfl, habandoned⟩
        rw [hsame₃] at habandoned
        exact .task haccepts (habandoned.after hlog')
    · rintro _ t ⟨rfl, good, bad, hstops, habandoned⟩
      rw [hsame₂] at habandoned
      exact .sensor hstops (habandoned.after hlog)
  · intro e t habandoned
    rw [hcounters₁] at habandoned
    exact .device (habandoned.after hlog₁)

structure Settled (d : Driver ω) : Prop where
  accounted : Accounted d
  holds (r : Holding) : d.holds r = d.started

/-- The calls of a start that succeeds, newest first. -/
def StartCalls (d t : Driver ω) : Prop :=
  ∃ new, Accepts new ∧ t.log = .createTask true :: new ++
    [.addDevice none, .newMasterBus none, .createQueue true] ++ d.log

/-- The calls of a start that fails, newest first: those up to the answer that was refused, and the
cleanup. Only an answer of the sensor is counted. -/
inductive Refusal (d t : Driver ω) : EspErr → Prop
  | queue (hlog : t.log = [.createQueue false] ++ d.log) (hcounters : t.counters = .zero) :
      Refusal d t .noMem
  | bus {err : EspErr}
      (hlog : t.log = [.deleteQueue, .newMasterBus (some err), .createQueue true] ++ d.log)
      (hcounters : t.counters = .zero) : Refusal d t err
  | device {err : EspErr}
      (hlog : t.log = [.deleteQueue, .deleteBus, .addDevice (some err), .newMasterBus none,
        .createQueue true] ++ d.log)
      (hcounters : t.counters = .zero) : Refusal d t err
  | sensor {good : List Entry} {bad : Entry} (hstops : Stops Accepts good bad)
      (hlog : t.log = [.deleteQueue, .deleteBus, .removeDevice] ++ bad :: good ++
        [.addDevice none, .newMasterBus none, .createQueue true] ++ d.log)
      (hcounters : t.counters = bad.count .zero) : Refusal d t invalidResponse
  | task {new : List Entry} (haccepts : Accepts new)
      (hlog : t.log = [.deleteQueue, .deleteBus, .removeDevice, .createTask false] ++ new ++
        [.addDevice none, .newMasterBus none, .createQueue true] ++ d.log)
      (hcounters : t.counters = .zero) : Refusal d t .noMem

/-- The cleanup after the stage that gave up. -/
theorem GaveUp.refusal {o : Outside ω} {d t u : Driver ω} {e : EspErr} (h : GaveUp t u e)
    (hlog : t.log = .createQueue true :: d.log) (hzero : t.counters = .zero) :
    Refusal d (cleanupStartFailure o u) e ∧ Accounted u ∧ u.started = false := by
  have hcleaned : ∀ {bus device : Bool} {new : List Entry} {c : Counters},
      Abandoned t u bus device new c → (cleanupStartFailure o u).log = .deleteQueue ::
        (if bus then [.deleteBus] else []) ++ (if device then [.removeDevice] else []) ++ new ++
          .createQueue true :: d.log ∧ (cleanupStartFailure o u).counters = c := by
    intro bus device new c ha
    refine ⟨?_, (ha.accounted.cleanup ha.held.2.2.2).2.2.trans ha.counters⟩
    rw [cleanupStartFailure_log o ha.held, ha.log, hlog, List.append_assoc _ new]
  cases h with
  | bus ha =>
    obtain ⟨hcalls, hcounters⟩ := hcleaned ha
    exact ⟨.bus hcalls (hcounters.trans hzero), ha.accounted, ha.held.2.2.2⟩
  | device ha =>
    obtain ⟨hcalls, hcounters⟩ := hcleaned ha
    exact ⟨.device hcalls (hcounters.trans hzero), ha.accounted, ha.held.2.2.2⟩
  | sensor hstops ha =>
    obtain ⟨hcalls, hcounters⟩ := hcleaned ha
    rw [hzero] at hcounters
    refine ⟨.sensor hstops ?_ hcounters, ha.accounted, ha.held.2.2.2⟩
    rw [hcalls]
    simp
  | task haccepts ha =>
    obtain ⟨hcalls, hcounters⟩ := hcleaned ha
    refine ⟨.task haccepts ?_ (hcounters.trans hzero), ha.accounted, ha.held.2.2.2⟩
    rw [hcalls]
    simp

theorem createTestPauseQueue_ends (o : Outside ω) {d : Driver ω} (h : Accounted d)
    (hd : d.upTo false false false false) :
    Ends (createTestPauseQueue o) d
      (fun _ t => Accounted t ∧ t.upTo true false false false ∧ t.counters = d.counters ∧
        t.log = .createQueue true :: d.log)
      (fun e t => e = .noMem ∧ Accounted t ∧ t.upTo false false false false ∧
        t.counters = d.counters ∧ t.log = .createQueue false :: d.log) := by
  obtain ⟨hqueue, hbus, hdevice, hidle⟩ := hd
  unfold Ends createTestPauseQueue
  dsimp only
  cases hcreated : (o.createQueue d.outside).1 with
  | true =>
    refine ⟨h.take (k := .queue) rfl rfl hqueue ?_, ⟨rfl, hbus, hdevice, hidle⟩, rfl, rfl⟩
    intro r
    cases r <;> rfl
  | false =>
    refine ⟨rfl, h.nothing rfl rfl ?_, ⟨rfl, hbus, hdevice, hidle⟩, rfl, rfl⟩
    intro r
    cases r with
    | queue => exact hqueue.symm
    | _ => rfl

theorem Driver.upTo.holds {d : Driver ω} {b : Bool} (h : d.upTo b b b b) (r : Holding) :
    d.holds r = b := by
  obtain ⟨hqueue, hbus, hdevice, htask⟩ := h
  cases r with
  | queue => exact hqueue
  | bus => exact hbus
  | device => exact hdevice
  | task => exact htask

theorem startWithQueue_ends (o : Outside ω) {d : Driver ω} (h : Accounted d)
    (hd : d.upTo false false false false) (hzero : d.counters = .zero) :
    Ends (startWithQueue o) d
      (fun _ t => Settled t ∧ t.started = true ∧ t.counters = .zero ∧ StartCalls d t)
      (fun e t => Settled t ∧ t.started = false ∧ Refusal d t e) := by
  apply ((createTestPauseQueue_ends o h hd).mono (fun _ _ hP => hP) ?_).bind
  · rintro _ t₁ ⟨haccounted₁, hd₁, hcounters₁, hlog₁⟩
    apply Ends.orCleanUp
    apply (startSensor_ends o haccounted₁ hd₁).mono
    · rintro _ t ⟨haccounted, hd', hcounters, new, haccepts, hlog⟩
      have htask := hd'.holds .task
      refine ⟨⟨haccounted, fun r => (hd'.holds r).trans htask.symm⟩, htask,
        hcounters.trans (hcounters₁.trans hzero), new, haccepts, ?_⟩
      rw [hlog, hlog₁]
      simp
    · intro e t hgaveUp
      obtain ⟨hrefusal, haccounted', hidle⟩ :=
        hgaveUp.refusal (o := o) hlog₁ (hcounters₁.trans hzero)
      obtain ⟨haccounted, hnone, _⟩ := haccounted'.cleanup (o := o) hidle
      have htask := hnone .task
      exact ⟨⟨haccounted, fun r => (hnone r).trans htask.symm⟩, htask, hrefusal⟩
  · rintro _ t ⟨rfl, haccounted, hd', hcounters, hlog⟩
    have htask := hd'.holds .task
    exact ⟨⟨haccounted, fun r => (hd'.holds r).trans htask.symm⟩, htask,
      .queue hlog (hcounters.trans hzero)⟩

/-- A start leaves everything held, with all counters at zero, or nothing. -/
theorem start_ends (o : Outside ω) {d : Driver ω} (h : Settled d) :
    Ends (robotImuIcm42670pBackendStart o) d
      (fun _ t => d.started = false ∧ Settled t ∧ t.started = true ∧ t.counters = .zero ∧
        StartCalls d t)
      (fun e t => Settled t ∧ t.started = d.started ∧
        (d.started = true → e = .invalidState ∧ t = d) ∧
        (d.started = false → Refusal d t e)) := by
  cases hstarted : d.started with
  | true =>
    have hrefused : robotImuIcm42670pBackendStart o d = .error .invalidState d := if_pos hstarted
    unfold Ends
    rw [hrefused]
    exact ⟨h, hstarted, fun _ => ⟨rfl, rfl⟩, nofun⟩
  | false =>
    have hnone : ∀ r, d.holds r = false := fun r => (h.holds r).trans hstarted
    have hrun : robotImuIcm42670pBackendStart o d =
        startWithQueue o { d with counters := .zero } :=
      if_neg (Bool.eq_false_iff.mp hstarted)
    have haccounted : Accounted { d with counters := Counters.zero } :=
      ⟨h.accounted.disciplined, fun r => by rw [h.accounted.live r]; cases r <;> rfl⟩
    have hends := startWithQueue_ends o haccounted
      ⟨hnone .queue, hnone .bus, hnone .device, hnone .task⟩ rfl
    unfold Ends at hends ⊢
    rw [hrun]
    cases hresult : startWithQueue o { d with counters := .zero } with
    | ok a t =>
      rw [hresult] at hends
      exact ⟨rfl, hends⟩
    | error e t =>
      rw [hresult] at hends
      obtain ⟨hsettled, hidle, hrefusal⟩ := hends
      refine ⟨hsettled, hidle, nofun, fun _ => ?_⟩
      cases hrefusal with
      | queue hlog hcounters => exact .queue hlog hcounters
      | bus hlog hcounters => exact .bus hlog hcounters
      | device hlog hcounters => exact .device hlog hcounters
      | sensor hstops hlog hcounters => exact .sensor hstops hlog hcounters
      | task haccepts hlog hcounters => exact .task haccepts hlog hcounters

/-- The driver after a start, whatever it returned. -/
def attempt (o : Outside ω) (d : Driver ω) : Driver ω :=
  match robotImuIcm42670pBackendStart o d with
  | .ok _ t => t
  | .error _ t => t

theorem Settled.attempt {o : Outside ω} {d : Driver ω} (h : Settled d) :
    Settled (attempt o d) := by
  have hends := start_ends o h
  unfold Ends at hends
  unfold Imu.attempt
  cases hresult : robotImuIcm42670pBackendStart o d with
  | ok a t =>
    rw [hresult] at hends
    exact hends.2.1
  | error e t =>
    rw [hresult] at hends
    exact hends.1

theorem settled_attempts (o : Outside ω) (outside : ω) (n : ℕ) :
    Settled ((attempt o)^[n] (Driver.reset outside)) := by
  induction n with
  | zero => exact ⟨accounted_reset outside, fun r => by cases r <;> rfl⟩
  | succ n ih =>
    rw [Function.iterate_succ_apply']
    exact ih.attempt

/-- Over any number of starts no handle is lost or freed twice, nothing is freed under the
acquisition task, and what is held is all there is or nothing. -/
theorem starts_balanced (o : Outside ω) (outside : ω) (n : ℕ) (r : Holding) :
    Resource.Disciplined effect users ((attempt o)^[n] (Driver.reset outside)).log ∧
      Resource.live effect ((attempt o)^[n] (Driver.reset outside)).log r =
        ((attempt o)^[n] (Driver.reset outside)).started ∧
      Resource.takes effect r ((attempt o)^[n] (Driver.reset outside)).log =
        Resource.giveBacks effect r ((attempt o)^[n] (Driver.reset outside)).log +
          if ((attempt o)^[n] (Driver.reset outside)).started then 1 else 0 := by
  have hsettled := settled_attempts o outside n
  have hlive := (hsettled.accounted.live r).trans (hsettled.holds r)
  refine ⟨hsettled.accounted.disciplined, hlive, ?_⟩
  rw [hsettled.accounted.disciplined.takes_eq r, hlive]

theorem Settled.not_startCalls {d t : Driver ω} (h : Settled t) (hstarted : t.started = d.started)
    (hsame : d.started = true → t = d) : ¬ StartCalls d t := by
  intro hcalls
  obtain ⟨new, _, hlog⟩ := hcalls
  cases hd : d.started with
  | true =>
    rw [hsame hd] at hlog
    have hlength := congrArg List.length hlog
    simp at hlength
    omega
  | false =>
    have hlive := (h.accounted.live .task).trans (hstarted.trans hd)
    have htake : effect (.createTask true) = .take .task := rfl
    rw [hlog, List.append_assoc, List.cons_append, Resource.live_take htake] at hlive
    simp at hlive

/-- After any number of starts the next one succeeds exactly when nothing runs yet, every handle
is granted and the sensor passes every check, and then no failure has been counted. A start that
fails has made the calls up to an answer that refuses it and then the cleanup, and it has counted
that answer if it is one of the sensor's, once; after a success a start is refused without a
call. -/
theorem start_outcome (o : Outside ω) (outside : ω) (n : ℕ) :
    Ends (robotImuIcm42670pBackendStart o) ((attempt o)^[n] (Driver.reset outside))
      (fun _ t => ((attempt o)^[n] (Driver.reset outside)).started = false ∧ t.started = true ∧
        t.counters = .zero ∧ StartCalls ((attempt o)^[n] (Driver.reset outside)) t)
      (fun e t => ¬ StartCalls ((attempt o)^[n] (Driver.reset outside)) t ∧
        (((attempt o)^[n] (Driver.reset outside)).started = true →
          e = .invalidState ∧ t = (attempt o)^[n] (Driver.reset outside)) ∧
        (((attempt o)^[n] (Driver.reset outside)).started = false → t.started = false ∧
          Refusal ((attempt o)^[n] (Driver.reset outside)) t e)) := by
  generalize hd : (attempt o)^[n] (Driver.reset outside) = d
  have hsettled : Settled d := hd ▸ settled_attempts o outside n
  apply (start_ends o hsettled).mono
  · intro _ t ht
    obtain ⟨hidle, _, hstarted, hcounters, hcalls⟩ := ht
    exact ⟨hidle, hstarted, hcounters, hcalls⟩
  · intro e t ht
    obtain ⟨hsettled', hstarted, hrefused, hrefusal⟩ := ht
    refine ⟨hsettled'.not_startCalls hstarted fun hd => (hrefused hd).2, hrefused, ?_⟩
    exact fun hidle => ⟨hstarted.trans hidle, hrefusal hidle⟩

/-- The registers, on a bus and with drivers that grant everything. -/
def registerFile : Outside (UInt8 → UInt8) where
  createQueue r := (true, r)
  newMasterBus r := (none, r)
  addDevice r := (none, r)
  transmit r register value := (none, Function.update r register value)
  transmitReceive r register := (.ok (r register), r)
  delay r _ := r
  createTask r := (true, r)
  removeDevice r := r
  deleteBus r := r
  deleteQueue r := r

def idleRegisters : UInt8 → UInt8
  | 0x75 => 0x67
  | 0x3A => 0x10
  | 0x35 => 0x10
  | _ => 0

example : (attempt registerFile (.reset idleRegisters)).started = true := by decide

example : (attempt registerFile (.reset fun _ => 0)).started = false ∧
    (attempt registerFile (.reset fun _ => 0)).counters.protocolErrors = 1 := by decide

end RobotFirmware.Imu
