import RobotFirmware.Library.Path

/-! The Wi-Fi station: the main task that brings it up and waits, beside the handler of its events.
Answers of the drivers and the events are inputs. -/
namespace RobotFirmware.Wifi
open Trace

inductive EspErr
  | fail
  | noMem
  | invalidArg
  | timeout
  | nvsNoFreePages
  | nvsNewVersionFound
  | driver (code : Int32)
  deriving DecidableEq

structure Bits where
  connected : Bool
  failed : Bool
  deriving DecidableEq

def Bits.or (b c : Bits) : Bits := ⟨b.connected || c.connected, b.failed || c.failed⟩

/-- The bounded copies of the credentials and the constants of `wifi_config`. -/
structure StationConfig where
  ssid : List UInt8
  password : List UInt8
  pmfCapable : Bool
  pmfRequired : Bool
  deriving DecidableEq

inductive Call
  | nvsFlashInit
  | nvsFlashErase
  | nvsFlashInitErased
  | eventGroupCreate
  | netifInit
  | eventLoopCreateDefault
  | createDefaultWifiSta
  | wifiInit
  | registerWifiEvents
  | registerIpEvents
  | setModeSta
  | setConfig
  | wifiStart
  deriving DecidableEq

inductive Pc
  | calling (call : Call)
  | waiting
  | woken (bits : Bits)
  | returned (result : Except EspErr Unit)
  deriving DecidableEq

/-- `CONFIG_ROBOT_WIFI_*`, the strings without their terminators. -/
structure Config where
  ssid : List UInt8
  password : List UInt8
  maximumRetry : ℕ

/-- The static variables of the file with the main task; the registrations and the configuration
are the driver's. Bits set without a group are a fault. -/
structure Station where
  pc : Pc
  events : Option Bits
  retryCount : ℕ
  wifiHandler : Bool
  ipHandler : Bool
  driverConfig : Option StationConfig
  fault : Bool

inductive WifiEvent
  | staStart
  | staDisconnected
  | gotIp
  | other
  deriving DecidableEq

def Station.setBits (s : Station) (b : Bits) : Station :=
  match s.events with
  | none => { s with fault := true }
  | some bits =>
    { s with
      events := some (bits.or b)
      -- a blocked task gets the bits at the moment at which they are set
      pc := if s.pc = .waiting then .woken (bits.or b) else s.pc }

def markConnectionFailed (s : Station) : Station :=
  if s.events.isSome then s.setBits ⟨false, true⟩ else s

/-- What the handler makes of the answer to `esp_wifi_connect`. -/
def Station.connecting (s : Station) : Option EspErr → Station
  | none => s
  | some _ => markConnectionFailed s

def wifiEventHandler (c : Config) (s : Station) (event : WifiEvent) (connectErr : Option EspErr) :
    Station :=
  match event with
  | .staStart => s.connecting connectErr
  | .staDisconnected =>
    if s.retryCount < c.maximumRetry then
      { s with retryCount := s.retryCount + 1 }.connecting connectErr
    else s.setBits ⟨false, true⟩
  | .gotIp => { s with retryCount := 0 }.setBits ⟨true, false⟩
  | .other => s

/-- The copies have to fit 32 and 64 bytes with their terminators. -/
def Config.station (c : Config) : StationConfig := ⟨c.ssid.take 31, c.password.take 63, true, false⟩

/-- The call after a successful one; after the last the task waits. -/
def Call.next : Call → Option Call
  | .nvsFlashInit => some .eventGroupCreate
  | .nvsFlashErase => some .nvsFlashInitErased
  | .nvsFlashInitErased => some .eventGroupCreate
  | .eventGroupCreate => some .netifInit
  | .netifInit => some .eventLoopCreateDefault
  | .eventLoopCreateDefault => some .createDefaultWifiSta
  | .createDefaultWifiSta => some .wifiInit
  | .wifiInit => some .registerWifiEvents
  | .registerWifiEvents => some .registerIpEvents
  | .registerIpEvents => some .setModeSta
  | .setModeSta => some .setConfig
  | .setConfig => some .wifiStart
  | .wifiStart => none

def Call.effect (c : Config) (s : Station) : Call → Station
  | .eventGroupCreate => { s with events := some ⟨false, false⟩ }
  | .registerWifiEvents => { s with wifiHandler := true }
  | .registerIpEvents => { s with ipHandler := true }
  | .setConfig => { s with driverConfig := some c.station }
  | _ => s

/-- The call that a failure leads to instead of a return. -/
def Call.recovery : Call → EspErr → Option Call
  | .nvsFlashInit, .nvsNoFreePages => some .nvsFlashErase
  | .nvsFlashInit, .nvsNewVersionFound => some .nvsFlashErase
  | _, _ => none

/-- The result after a failure; a null pointer has no error of its own. -/
def Call.failure : Call → EspErr → EspErr
  | .eventGroupCreate, _ => .noMem
  | .createDefaultWifiSta, _ => .fail
  | _, err => err

/-- `xEventGroupWaitBits` on either bit. -/
def Station.waitBits (s : Station) : Station :=
  match s.events with
  | none => { s with fault := true }
  | some bits => { s with pc := if bits = ⟨false, false⟩ then .waiting else .woken bits }

def Call.answered (c : Config) (s : Station) (call : Call) : Option EspErr → Station
  | none =>
    match call.next with
    | some next => { call.effect c s with pc := .calling next }
    | none => (call.effect c s).waitBits
  | some err =>
    match call.recovery err with
    | some next => { s with pc := .calling next }
    | none => { s with pc := .returned (.error (call.failure err)) }

def verdict (b : Bits) : Except EspErr Unit :=
  if b.connected then .ok () else if b.failed then .error .fail else .error .timeout

inductive Action
  | answer (err : Option EspErr)
  | event (event : WifiEvent) (connectErr : Option EspErr)
  | timeout
  | resume

/-- An event reaches the handler once it is registered for it. -/
def Station.handles (s : Station) : WifiEvent → Bool
  | .gotIp => s.ipHandler
  | _ => s.wifiHandler

def stationStep (c : Config) (s : Station) (a : Action) : Option Station :=
  match a, s.pc with
  | .answer err, .calling call => some (call.answered c s err)
  | .event event connectErr, _ =>
    if s.handles event then some (wifiEventHandler c s event connectErr) else none
  | .timeout, .waiting => some { s with pc := .woken (s.events.getD ⟨false, false⟩) }
  | .resume, .woken bits => some { s with pc := .returned (verdict bits) }
  | _, _ => none

def stationStart (c : Config) : Station where
  pc := if c.ssid = [] then .returned (.error .invalidArg) else .calling .nvsFlashInit
  events := none
  retryCount := 0
  wifiHandler := false
  ipHandler := false
  driverConfig := none
  fault := false

def marks (c : Config) (retryCount : ℕ) : WifiEvent → Option EspErr → Bits
  | .staStart, connectErr => ⟨false, connectErr.isSome⟩
  | .staDisconnected, connectErr =>
    ⟨false, decide (c.maximumRetry ≤ retryCount) || connectErr.isSome⟩
  | .gotIp, _ => ⟨true, false⟩
  | .other, _ => ⟨false, false⟩

def retries (c : Config) (retryCount : ℕ) : WifiEvent → ℕ
  | .staDisconnected => min c.maximumRetry (retryCount + 1)
  | .gotIp => 0
  | _ => retryCount

@[simp] theorem Bits.or_none (b : Bits) : b.or ⟨false, false⟩ = b := by
  unfold Bits.or
  simp

/-- Setting no bits wakes nobody. -/
def Station.marked (s : Station) (bits m : Bits) : Station :=
  { s with
    events := some (bits.or m)
    pc := if s.pc = .waiting ∧ m ≠ ⟨false, false⟩ then .woken (bits.or m) else s.pc }

theorem Station.marked_none {s : Station} {bits : Bits} (hs : s.events = some bits) :
    s.marked bits ⟨false, false⟩ = s := by
  unfold Station.marked
  rw [Bits.or_none, ← hs]
  simp

theorem Station.setBits_eq {s : Station} {bits m : Bits} (hs : s.events = some bits)
    (hm : m ≠ ⟨false, false⟩) : s.setBits m = s.marked bits m := by
  unfold Station.setBits Station.marked
  rw [hs]
  simp [hm]

theorem Station.connecting_eq {s : Station} {bits : Bits} (hs : s.events = some bits)
    (connectErr : Option EspErr) :
    s.connecting connectErr = s.marked bits ⟨false, connectErr.isSome⟩ := by
  cases connectErr with
  | none => exact (Station.marked_none hs).symm
  | some err =>
    have hsome : s.events.isSome = true := by rw [hs]; rfl
    unfold Station.connecting markConnectionFailed
    rw [if_pos hsome]
    exact Station.setBits_eq hs (by decide)

theorem wifiEventHandler_eq {c : Config} {s : Station} {bits : Bits} (hs : s.events = some bits)
    (hr : s.retryCount ≤ c.maximumRetry) (event : WifiEvent) (connectErr : Option EspErr) :
    wifiEventHandler c s event connectErr =
      { s with retryCount := retries c s.retryCount event }.marked bits
        (marks c s.retryCount event connectErr) := by
  unfold wifiEventHandler retries marks
  cases event with
  | staStart => exact Station.connecting_eq hs connectErr
  | staDisconnected =>
    dsimp only
    split_ifs with hlt
    · have hmin : min c.maximumRetry (s.retryCount + 1) = s.retryCount + 1 := by omega
      have hdecide : decide (c.maximumRetry ≤ s.retryCount) = false := decide_eq_false (by omega)
      rw [hmin, hdecide, Bool.false_or]
      exact Station.connecting_eq (s := { s with retryCount := s.retryCount + 1 }) hs connectErr
    · have hmin : min c.maximumRetry (s.retryCount + 1) = s.retryCount := by omega
      have hdecide : decide (c.maximumRetry ≤ s.retryCount) = true := decide_eq_true (by omega)
      rw [hmin, hdecide, Bool.true_or]
      exact Station.setBits_eq hs (by decide)
  | gotIp => exact Station.setBits_eq (s := { s with retryCount := 0 }) hs (by decide)
  | other => exact (Station.marked_none hs).symm

def gotIp (e : Event Station Action) : Bool :=
  match e.label with
  | .event .gotIp _ => true
  | _ => false

def disconnected (e : Event Station Action) : Bool :=
  match e.label with
  | .event .staDisconnected _ => true
  | _ => false

/-- A connection attempt that failed at once, or a disconnection with no retry left. -/
def gaveUp (c : Config) (e : Event Station Action) : Bool :=
  match e.label with
  | .event event connectErr => (marks c e.before.retryCount event connectErr).failed
  | _ => false

def heard (c : Config) (h : List (Event Station Action)) : Bits := ⟨h.any gotIp, h.any (gaveUp c)⟩

/-- The disconnections since the station last had an address. -/
def losses (h : List (Event Station Action)) : ℕ :=
  countSince (fun e => disconnected e = true) (fun e => gotIp e = true) h

theorem heard_event (c : Config) (h : List (Event Station Action)) (s s' : Station)
    (event : WifiEvent) (connectErr : Option EspErr) :
    heard c (⟨s, .event event connectErr, s'⟩ :: h) =
      (heard c h).or (marks c s.retryCount event connectErr) := by
  unfold heard Bits.or
  cases event <;> simp [gotIp, gaveUp, marks, Bool.or_comm]

theorem losses_event (h : List (Event Station Action)) (s s' : Station)
    (event : WifiEvent) (connectErr : Option EspErr) (c : Config) :
    min c.maximumRetry (losses (⟨s, .event event connectErr, s'⟩ :: h)) =
      retries c (min c.maximumRetry (losses h)) event := by
  unfold losses
  rw [countSince]
  cases event with
  | staDisconnected =>
    simp only [gotIp, disconnected, retries, Bool.false_eq_true, if_false, if_true]
    omega
  | gotIp => simp [gotIp, retries]
  | _ => simp [gotIp, disconnected, retries]

/-- The wait ended with everything heard by then, and not before something was or it timed out. -/
structure Woke (c : Config) (e : Event Station Action) (old : List (Event Station Action))
    (b : Bits) : Prop where
  before : e.before.pc = .waiting ∨ e.before.pc = .calling .wifiStart
  heard : b = heard c (e :: old)
  timeout : b = ⟨false, false⟩ ↔ e.label = .timeout

structure Refused (e : Event Station Action) (err : EspErr) : Prop where
  call : ∃ call answer, e.before.pc = .calling call ∧ e.label = .answer (some answer) ∧
    call.recovery answer = none ∧ err = call.failure answer

def Call.afterGroup : Call → Bool
  | .nvsFlashInit | .nvsFlashErase | .nvsFlashInitErased | .eventGroupCreate => false
  | _ => true

/-- How the main task came to where it stands. -/
def Reached (c : Config) (h : List (Event Station Action)) (s : Station) : Prop :=
  match s.pc with
  | .calling call => s.events.isSome = call.afterGroup
  | .waiting => s.events = some ⟨false, false⟩
  | .woken b => ∃ new e old, h = new ++ e :: old ∧ Woke c e old b
  | .returned r => (c.ssid = [] ∧ r = .error .invalidArg) ∨
      ∃ new e old, h = new ++ e :: old ∧
        ((∃ err, Refused e err ∧ r = .error err) ∨ ∃ b, Woke c e old b ∧ r = verdict b)

structure StationInv (c : Config) (h : List (Event Station Action)) (s : Station) : Prop where
  fault : s.fault = false
  group : s.wifiHandler = true ∨ s.ipHandler = true → s.events.isSome = true
  bits : s.events.getD ⟨false, false⟩ = heard c h
  retries : s.retryCount = min c.maximumRetry (losses h)
  reached : Reached c h s

theorem Call.afterGroup_next {call next : Call} (h : call.next = some next) :
    next.afterGroup = (call.afterGroup || decide (call = .eventGroupCreate)) := by
  cases call <;> cases h <;> rfl

theorem Call.next_none {call : Call} (h : call.next = none) : call = .wifiStart := by
  cases call <;> first | rfl | cases h

theorem stationStart_inv (c : Config) : StationInv c [] (stationStart c) := by
  refine ⟨rfl, fun h => ?_, rfl, (Nat.min_zero _).symm, ?_⟩
  · rcases h with h | h <;> cases h
  · unfold Reached stationStart
    by_cases hssid : c.ssid = []
    · simp [hssid]
    · simp [hssid, Call.afterGroup]

section
variable {c : Config} {h : List (Event Station Action)} {s s' : Station}

/-- A step that leaves the main task where it stands. -/
theorem Reached.cons (hr : Reached c h s) (e : Event Station Action) (hpc : s'.pc = s.pc)
    (hwaiting : s.pc = .waiting → s'.events = s.events)
    (hgroup : s'.events.isSome = s.events.isSome) : Reached c (e :: h) s' := by
  unfold Reached at hr ⊢
  rw [hpc]
  cases hs : s.pc with
  | calling call =>
    rw [hs] at hr
    exact hgroup.trans hr
  | waiting =>
    rw [hs] at hr
    exact (hwaiting hs).trans hr
  | woken b =>
    rw [hs] at hr
    obtain ⟨new, x, old, rfl, hwoke⟩ := hr
    exact ⟨e :: new, x, old, rfl, hwoke⟩
  | returned r =>
    rw [hs] at hr
    rcases hr with hr | ⟨new, x, old, rfl, hr⟩
    · exact .inl hr
    · exact .inr ⟨e :: new, x, old, rfl, hr⟩

theorem Bits.or_ne_none (b : Bits) {m : Bits} (hm : m ≠ ⟨false, false⟩) :
    b.or m ≠ ⟨false, false⟩ := by
  revert b m
  rintro ⟨b₁, b₂⟩ ⟨m₁, m₂⟩ hm
  revert hm
  revert b₁ b₂ m₁ m₂
  decide

theorem StationInv.event (hi : StationInv c h s) {event : WifiEvent}
    (hhandles : s.handles event = true) (connectErr : Option EspErr) :
    StationInv c (⟨s, .event event connectErr, wifiEventHandler c s event connectErr⟩ :: h)
      (wifiEventHandler c s event connectErr) := by
  have hgroup : s.events.isSome = true := by
    apply hi.group
    cases event with
    | gotIp => exact .inr hhandles
    | _ => exact .inl hhandles
  obtain ⟨bits, hbits⟩ := Option.isSome_iff_exists.mp hgroup
  have hheard : bits = heard c h := by
    have := hi.bits
    rwa [hbits] at this
  have hle : s.retryCount ≤ c.maximumRetry := by
    rw [hi.retries]
    exact Nat.min_le_left _ _
  have hhandler := wifiEventHandler_eq hbits hle event connectErr
  generalize wifiEventHandler c s event connectErr = s' at hhandler ⊢
  have hnext := heard_event c h s s' event connectErr
  subst hhandler
  refine ⟨hi.fault, fun _ => rfl, ?_, ?_, ?_⟩
  · rw [hnext, ← hheard]
    rfl
  · rw [losses_event, ← hi.retries]
    rfl
  · by_cases hwakes : s.pc = .waiting ∧ marks c s.retryCount event connectErr ≠ ⟨false, false⟩
    · unfold Reached Station.marked
      rw [if_pos hwakes]
      refine ⟨[], _, h, rfl, .inl hwakes.1, ?_, ?_⟩
      · rw [heard_event, hheard]
      · exact ⟨fun hnone => absurd hnone (Bits.or_ne_none bits hwakes.2), nofun⟩
    · have hpc : ({ s with retryCount := Wifi.retries c s.retryCount event }.marked bits
          (marks c s.retryCount event connectErr)).pc = s.pc := if_neg hwakes
      apply hi.reached.cons _ hpc
      · intro hwaiting
        have hnone : marks c s.retryCount event connectErr = ⟨false, false⟩ :=
          of_not_not fun hne => hwakes ⟨hwaiting, hne⟩
        show some (bits.or (marks c s.retryCount event connectErr)) = s.events
        rw [hnone, Bits.or_none, hbits]
      · exact hgroup.symm

/-- The other steps are not events. -/
theorem heard_other {a : Action} (ha : ∀ event connectErr, a ≠ .event event connectErr) :
    heard c (⟨s, a, s'⟩ :: h) = heard c h ∧ losses (⟨s, a, s'⟩ :: h) = losses h := by
  cases a with
  | event event connectErr => exact absurd rfl (ha event connectErr)
  | _ => simp [heard, losses, countSince, gotIp, gaveUp, disconnected]

theorem StationInv.other (hi : StationInv c h s) {a : Action}
    (ha : ∀ event connectErr, a ≠ .event event connectErr) (hfault : s'.fault = s.fault)
    (hgroup : s'.wifiHandler = true ∨ s'.ipHandler = true → s'.events.isSome = true)
    (hbits : s'.events.getD ⟨false, false⟩ = heard c h) (hretry : s'.retryCount = s.retryCount)
    (hreached : Reached c (⟨s, a, s'⟩ :: h) s') : StationInv c (⟨s, a, s'⟩ :: h) s' := by
  obtain ⟨hheard, hlosses⟩ :
      heard c (⟨s, a, s'⟩ :: h) = heard c h ∧ losses (⟨s, a, s'⟩ :: h) = losses h := heard_other ha
  refine ⟨hfault.trans hi.fault, hgroup, ?_, ?_, hreached⟩
  · rw [hheard, hbits]
  · rw [hlosses, hretry, hi.retries]

/-- What a successful call leaves alone, and when there is a group after it. -/
theorem Call.effect_frame (c : Config) (s : Station) (call : Call) :
    (call.effect c s).fault = s.fault ∧ (call.effect c s).retryCount = s.retryCount ∧
    (call.effect c s).events =
      if call = .eventGroupCreate then some ⟨false, false⟩ else s.events := by
  cases call <;> exact ⟨rfl, rfl, rfl⟩

theorem Call.effect_group {call : Call} (hplace : s.events.isSome = call.afterGroup)
    (hgroup : s.wifiHandler = true ∨ s.ipHandler = true → s.events.isSome = true)
    (hregistered : (call.effect c s).wifiHandler = true ∨ (call.effect c s).ipHandler = true) :
    (call.effect c s).events.isSome = true := by
  cases call with
  | eventGroupCreate => rfl
  | registerWifiEvents => exact hplace
  | registerIpEvents => exact hplace
  | _ => exact hgroup hregistered

theorem StationInv.answer (hi : StationInv c h s) {call : Call} (hpc : s.pc = .calling call)
    (err : Option EspErr) :
    StationInv c (⟨s, .answer err, call.answered c s err⟩ :: h) (call.answered c s err) := by
  have hplace : s.events.isSome = call.afterGroup := by
    have := hi.reached
    unfold Reached at this
    rwa [hpc] at this
  have hother : ∀ event connectErr, Action.answer err ≠ .event event connectErr := nofun
  unfold Call.answered
  cases err with
  | some answer =>
    dsimp only
    cases hrecovery : call.recovery answer with
    | some next =>
      have hearly : next.afterGroup = call.afterGroup := by
        cases call <;> cases answer <;> cases hrecovery <;> rfl
      exact hi.other hother rfl hi.group hi.bits rfl (hplace.trans hearly.symm)
    | none =>
      refine hi.other hother rfl hi.group hi.bits rfl (.inr ⟨[], _, h, rfl, .inl ⟨_, ?_, rfl⟩⟩)
      exact ⟨call, answer, hpc, rfl, hrecovery, rfl⟩
  | none =>
    dsimp only
    cases hnext : call.next with
    | some next =>
      obtain ⟨hfault, hretry, hevents⟩ := call.effect_frame c s
      have hbits : (call.effect c s).events.getD ⟨false, false⟩ = heard c h := by
        rw [hevents, ← hi.bits]
        split_ifs with hcreate
        · rw [hcreate] at hplace
          have hnone : s.events = none := Option.not_isSome_iff_eq_none.mp (by simp [hplace,
            Call.afterGroup])
          rw [hnone]
          rfl
        · rfl
      refine hi.other hother hfault (Call.effect_group hplace hi.group) hbits hretry ?_
      show (call.effect c s).events.isSome = next.afterGroup
      rw [Call.afterGroup_next hnext, hevents, ← hplace]
      split_ifs with hcreate <;> simp [hcreate]
    | none =>
      obtain rfl := Call.next_none hnext
      obtain ⟨bits, hsome⟩ := Option.isSome_iff_exists.mp hplace
      have hall : bits = heard c h := by
        have := hi.bits
        rwa [hsome] at this
      have hwait : (Call.wifiStart.effect c s).waitBits =
          { s with pc := if bits = ⟨false, false⟩ then .waiting else .woken bits } := by
        show s.waitBits = _
        unfold Station.waitBits
        rw [hsome]
      dsimp only
      rw [hwait]
      refine hi.other hother rfl hi.group hi.bits rfl ?_
      unfold Reached
      dsimp only
      by_cases hnone : bits = ⟨false, false⟩
      · rw [if_pos hnone]
        exact hsome.trans (congrArg some hnone)
      · rw [if_neg hnone]
        refine ⟨[], _, h, rfl, .inr hpc, ?_, ?_⟩
        · rw [(heard_other hother).1, hall]
        · exact ⟨fun hb => absurd hb hnone, nofun⟩

theorem StationInv.step (hi : StationInv c h s) {a : Action}
    (hs : Enabled (stationStep c) s a s') : StationInv c (⟨s, a, s'⟩ :: h) s' := by
  unfold Enabled stationStep at hs
  split at hs
  · rename_i call hpc
    cases hs
    exact hi.answer hpc _
  · split_ifs at hs with hhandles
    cases hs
    exact hi.event hhandles _
  · rename_i hpc
    cases hs
    have hempty : s.events = some ⟨false, false⟩ := by
      have := hi.reached
      unfold Reached at this
      rwa [hpc] at this
    have hother : ∀ event connectErr, Action.timeout ≠ .event event connectErr := nofun
    refine hi.other hother rfl hi.group hi.bits rfl ⟨[], _, h, rfl, .inl hpc, ?_, ?_⟩
    · rw [(heard_other hother).1, hi.bits]
    · rw [hempty]
      exact ⟨fun _ => rfl, fun _ => rfl⟩
  · rename_i bits hpc
    cases hs
    have hwoke := hi.reached
    unfold Reached at hwoke
    rw [hpc] at hwoke
    obtain ⟨new, e, old, rfl, hwoke⟩ := hwoke
    refine hi.other nofun rfl hi.group hi.bits rfl (.inr ⟨_ :: new, e, old, rfl, .inr ?_⟩)
    exact ⟨bits, hwoke, rfl⟩
  · cases hs

theorem station_inv (hp : Path (Enabled (stationStep c)) (stationStart c) h s) :
    StationInv c h s := by
  induction hp with
  | refl => exact stationStart_inv c
  | snoc _ hs ih => exact ih.step hs

/-- However the answers of the drivers, the events and the clock interleave, no bits are set
without a group, and `robot_wifi_connect` returns the error of the call that a driver refused or
the verdict over what the handler had heard when the wait ended: success exactly if the station
had an address by then, a timeout exactly if the time was over. -/
theorem connect_verdict (hp : Path (Enabled (stationStep c)) (stationStart c) h s) :
    s.fault = false ∧ ∀ r, s.pc = .returned r →
      (c.ssid = [] ∧ r = .error .invalidArg) ∨ ∃ new e old, h = new ++ e :: old ∧
        ((∃ err, Refused e err ∧ r = .error err) ∨
          (e.before.pc = .waiting ∨ e.before.pc = .calling .wifiStart) ∧
          (r = .ok () ↔ ∃ x ∈ e :: old, gotIp x = true) ∧
          (r = .error .fail ↔
            (∀ x ∈ e :: old, gotIp x = false) ∧ ∃ x ∈ e :: old, gaveUp c x = true) ∧
          (r = .error .timeout ↔ e.label = .timeout)) := by
  have hi := station_inv hp
  refine ⟨hi.fault, fun r hr => ?_⟩
  have hreached := hi.reached
  unfold Reached at hreached
  rw [hr] at hreached
  rcases hreached with hempty | ⟨new, e, old, hh, hrefused | ⟨b, hwoke, hverdict⟩⟩
  · exact .inl hempty
  · exact .inr ⟨new, e, old, hh, .inl hrefused⟩
  · refine .inr ⟨new, e, old, hh, .inr ⟨hwoke.before, ?_⟩⟩
    have hconnected : b.connected = true ↔ ∃ x ∈ e :: old, gotIp x = true := by
      rw [hwoke.heard]
      exact List.any_eq_true
    have hfailed : b.failed = true ↔ ∃ x ∈ e :: old, gaveUp c x = true := by
      rw [hwoke.heard]
      exact List.any_eq_true
    have hnone : (∀ x ∈ e :: old, gotIp x = false) ↔ b.connected = false := by
      rw [← Bool.not_eq_true, hconnected]
      push Not
      simp only [Bool.not_eq_true]
    rw [← hconnected, ← hfailed, hnone, ← hwoke.timeout, hverdict]
    obtain ⟨connected, failed⟩ := b
    cases connected <;> cases failed <;> simp [verdict]

def reconnects (c : Config) (e : Event Station Action) : Bool :=
  disconnected e && decide (e.before.retryCount < c.maximumRetry)

theorem Station.connecting_retryCount (s : Station) (connectErr : Option EspErr) :
    (s.connecting connectErr).retryCount = s.retryCount := by
  unfold Station.connecting markConnectionFailed Station.setBits
  cases connectErr <;> cases s.events <;> rfl

theorem Station.setBits_retryCount (s : Station) (b : Bits) :
    (s.setBits b).retryCount = s.retryCount := by
  unfold Station.setBits
  cases s.events <;> rfl

theorem Call.answered_retryCount (c : Config) (s : Station) (call : Call) (err : Option EspErr) :
    (call.answered c s err).retryCount = s.retryCount := by
  have heffect := (call.effect_frame c s).2.1
  unfold Call.answered Station.waitBits
  cases err with
  | none =>
    dsimp only
    cases call.next with
    | some next => exact heffect
    | none =>
      dsimp only
      split
      · exact heffect
      · exact heffect
  | some err =>
    dsimp only
    cases call.recovery err <;> rfl

theorem retryCount_step {e : Event Station Action}
    (hs : Enabled (stationStep c) e.before e.label e.after) :
    e.after.retryCount = if gotIp e = true then 0
      else if reconnects c e = true then e.before.retryCount + 1 else e.before.retryCount := by
  obtain ⟨s, a, s'⟩ := e
  unfold Enabled stationStep at hs
  dsimp only at hs
  split at hs
  · cases hs
    simp [gotIp, reconnects, disconnected, Call.answered_retryCount]
  · rename_i event connectErr
    split_ifs at hs
    cases hs
    unfold wifiEventHandler
    cases event with
    | staStart => simp [gotIp, reconnects, disconnected, Station.connecting_retryCount]
    | staDisconnected =>
      by_cases hlt : s.retryCount < c.maximumRetry
      · simp [gotIp, reconnects, disconnected, hlt, Station.connecting_retryCount]
      · simp [gotIp, reconnects, disconnected, hlt, Station.setBits_retryCount]
    | gotIp => simp [gotIp, Station.setBits_retryCount]
    | other => simp [gotIp, reconnects, disconnected]
  · cases hs
    simp [gotIp, reconnects, disconnected]
  · cases hs
    simp [gotIp, reconnects, disconnected]
  · cases hs

/-- In every run the handler has reconnected as often since the last address as there were
disconnections, up to the maximum; a disconnection beyond it is a failure, as is every attempt
that the driver refuses; the group remembers every failure and every address. -/
theorem retry_budget (hp : Path (Enabled (stationStep c)) (stationStart c) h s) :
    countSince (fun e => reconnects c e = true) (fun e => gotIp e = true) h =
      min c.maximumRetry (losses h) ∧
    (∀ new e old connectErr, h = new ++ e :: old →
      e.label = .event .staDisconnected connectErr →
      reconnects c e = decide (losses old < c.maximumRetry) ∧
      gaveUp c e = (decide (c.maximumRetry ≤ losses old) || connectErr.isSome)) ∧
    s.events.getD ⟨false, false⟩ = heard c h := by
  have hi := station_inv hp
  have hcount := hp.counter_eq_countSince Station.retryCount (fun e => reconnects c e = true)
    (fun e => gotIp e = true) (P := fun _ => True) (fun _ _ _ _ _ => trivial) trivial rfl
    fun e _ hs => retryCount_step hs
  refine ⟨hcount.symm.trans hi.retries, ?_, hi.bits⟩
  intro new e old connectErr hh hlabel
  subst hh
  obtain ⟨hbefore, _⟩ := hp.at_event
  have hretries := (station_inv hbefore).retries
  unfold reconnects disconnected gaveUp
  rw [hlabel]
  dsimp only [marks]
  rw [hretries, Bool.true_and]
  constructor
  · exact decide_eq_decide.mpr (by omega)
  · have hle : c.maximumRetry ≤ min c.maximumRetry (losses old) ↔ c.maximumRetry ≤ losses old := by
      omega
    rw [decide_eq_decide.mpr hle]

end

def homeConfig : Config := ⟨[104], [], 1⟩

/-- The flash is erased first; the station loses its network once before it has an address, and
twice after the task has returned. -/
def homeRun : List Action :=
  [.answer (some .nvsNewVersionFound)] ++ List.replicate 11 (.answer none) ++
    [.event .staStart none, .answer none, .event .staDisconnected none, .event .gotIp none,
      .resume, .event .staDisconnected none, .event .staDisconnected none]

theorem homeRun_path : ∃ h s,
    Path (Enabled (stationStep homeConfig)) (stationStart homeConfig) h s ∧
    s.pc = .returned (.ok ()) ∧ s.retryCount = 1 := by
  have hrun : (runAll (stationStep homeConfig) (stationStart homeConfig) homeRun).map
      (fun s => (s.pc, s.retryCount)) = some (.returned (.ok ()), 1) := by decide
  obtain ⟨s, hs, hpair⟩ := Option.map_eq_some_iff.mp hrun
  obtain ⟨h, hp, _⟩ := path_of_runAll hs
  rw [Prod.mk.injEq] at hpair
  exact ⟨h, s, hp, hpair⟩

theorem connect_verdict_home : ∃ h s,
    Path (Enabled (stationStep homeConfig)) (stationStart homeConfig) h s ∧
    s.pc = .returned (.ok ()) ∧ s.fault = false ∧ ∃ x ∈ h, gotIp x = true := by
  obtain ⟨h, s, hp, hpc, _⟩ := homeRun_path
  obtain ⟨hfault, hverdict⟩ := connect_verdict hp
  rcases hverdict _ hpc with ⟨hempty, _⟩ | ⟨new, e, old, rfl, ⟨_, _, hr⟩ | ⟨_, hok, _⟩⟩
  · cases hempty
  · cases hr
  · obtain ⟨x, hx, hip⟩ := hok.mp rfl
    exact ⟨_, s, hp, hpc, hfault, x, List.mem_append_right new hx, hip⟩

theorem retry_budget_home : ∃ h s,
    Path (Enabled (stationStep homeConfig)) (stationStart homeConfig) h s ∧
    s.retryCount = 1 ∧ countSince (fun e => reconnects homeConfig e = true)
      (fun e => gotIp e = true) h = min 1 (losses h) := by
  obtain ⟨h, s, hp, _, hretries⟩ := homeRun_path
  exact ⟨h, s, hp, hretries, (retry_budget hp).1⟩

end RobotFirmware.Wifi
