import Mathlib.Data.Fin.VecNotation
import RobotFirmware.Chassis.Encoders
import RobotFirmware.Library.EarlyReturn
import RobotFirmware.Library.Quadrature

/-! The pulse counter units of the encoders: how the two starts configure them, what the units
make of the lines of the encoders, and what of it the control task sees. -/
namespace RobotFirmware.Chassis
open Fp WrapCounter Quadrature EarlyReturn

/-- `PCNT_CHANNEL_EDGE_ACTION_*`. -/
inductive EdgeAction
  | hold
  | increase
  | decrease
  deriving DecidableEq

/-- `PCNT_CHANNEL_LEVEL_ACTION_*`. -/
inductive LevelAction
  | keep
  | inverse
  | hold
  deriving DecidableEq

structure PcntChannel where
  edgeGpio : ℕ
  levelGpio : ℕ
  posAct : EdgeAction
  negAct : EdgeAction
  highAct : LevelAction
  lowAct : LevelAction
  deriving DecidableEq

structure PcntUnit where
  highLimit : ℤ
  lowLimit : ℤ
  maxGlitchNs : ℕ
  channels : List PcntChannel
  enabled : Bool
  running : Bool
  count : ℤ
  deriving DecidableEq

def EdgeAction.edge : EdgeAction → Option Edge
  | .hold => none
  | .increase => some .up
  | .decrease => some .down

def LevelAction.apply : LevelAction → Option Edge → Option Edge
  | .keep, e => e
  | .inverse, e => e.map fun
    | .up => .down
    | .down => .up
  | .hold, _ => none

/-- What a channel counts when a pin has just changed, given the new levels. -/
def PcntChannel.sense (c : PcntChannel) (levels : ℕ → Bool) (gpio : ℕ) : Option Edge :=
  if c.edgeGpio = gpio then
    let action := if levels gpio then c.posAct else c.negAct
    let control := if levels c.levelGpio then c.highAct else c.lowAct
    control.apply action.edge
  else none

/-- The count of an edge; it restarts from zero at a limit. -/
def PcntUnit.advance (u : PcntUnit) (e : Edge) : PcntUnit :=
  let next := u.count + e.sign
  { u with count := if next = u.highLimit ∨ next = u.lowLimit then 0 else next }

def PcntUnit.sense (u : PcntUnit) (levels : ℕ → Bool) (gpio : ℕ) : PcntUnit :=
  if u.running then
    (u.channels.filterMap fun c => c.sense levels gpio).foldl PcntUnit.advance u
  else u

inductive PcntCall
  | newUnit (highLimit lowLimit : ℤ)
  | setGlitchFilter (maxGlitchNs : ℕ)
  | newChannel (edgeGpio levelGpio : ℕ)
  | setEdgeAction (channel : ℕ) (posAct negAct : EdgeAction)
  | setLevelAction (channel : ℕ) (highAct lowAct : LevelAction)
  | enable
  | clearCount
  | start
  deriving DecidableEq

def PcntCall.apply : PcntCall → PcntUnit → PcntUnit
  | .newUnit highLimit lowLimit, _ => ⟨highLimit, lowLimit, 0, [], false, false, 0⟩
  | .setGlitchFilter maxGlitchNs, u => { u with maxGlitchNs := maxGlitchNs }
  | .newChannel edgeGpio levelGpio, u =>
    { u with channels := u.channels ++ [⟨edgeGpio, levelGpio, .hold, .hold, .keep, .keep⟩] }
  | .setEdgeAction channel posAct negAct, u =>
    { u with channels := u.channels.modify channel fun c =>
        { c with posAct := posAct, negAct := negAct } }
  | .setLevelAction channel highAct lowAct, u =>
    { u with channels := u.channels.modify channel fun c =>
        { c with highAct := highAct, lowAct := lowAct } }
  | .enable, u => { u with enabled := true }
  | .clearCount, u => { u with count := 0 }
  | .start, u => { u with running := true }

structure Units (ω : Type) where
  unit : Wheels PcntUnit
  outside : ω

def PcntUnit.none : PcntUnit := ⟨0, 0, 0, [], false, false, 0⟩

def Units.none {ω : Type} (outside : ω) : Units ω := ⟨fun _ => .none, outside⟩

/-- Accepts a call or refuses it with an error. -/
abbrev PcntDriver (ω : Type) := ω → Wheel → PcntCall → Option EspErr × ω

abbrev Setup (ω : Type) := EStateM EspErr (Units ω)

variable {ω : Type}

def pcnt (o : PcntDriver ω) (index : Wheel) (call : PcntCall) : Setup ω Unit := fun s =>
  match o s.outside index call with
  | (.none, outside) =>
    .ok () ⟨Function.update s.unit index (call.apply (s.unit index)), outside⟩
  | (some err, outside) => .error err { s with outside := outside }

/-- The handle of a channel is its place in the unit. -/
def pcntNewChannel (o : PcntDriver ω) (index : Wheel) (edgeGpio levelGpio : ℕ) : Setup ω ℕ := do
  let handle := ((← get).unit index).channels.length
  pcnt o index (.newChannel edgeGpio levelGpio)
  return handle

structure EncoderPins where
  edgeGpio : ℕ
  levelGpio : ℕ
  deriving DecidableEq

/-- M3/M4 PCNT edge inputs are swapped. -/
def encoderPins : Wheels EncoderPins := ![⟨6, 7⟩, ⟨47, 48⟩, ⟨12, 11⟩, ⟨2, 1⟩]

def initEncoder (o : PcntDriver ω) (index : Wheel) : Setup ω Unit := do
  pcnt o index (.newUnit encoderCountLimit.toInt (-encoderCountLimit.toInt))
  pcnt o index (.setGlitchFilter 1000)
  let channelA ← pcntNewChannel o index (encoderPins index).edgeGpio (encoderPins index).levelGpio
  let channelB ← pcntNewChannel o index (encoderPins index).levelGpio (encoderPins index).edgeGpio
  pcnt o index (.setEdgeAction channelA .decrease .increase)
  pcnt o index (.setLevelAction channelA .keep .inverse)
  pcnt o index (.setEdgeAction channelB .increase .decrease)
  pcnt o index (.setLevelAction channelB .keep .inverse)
  pcnt o index .enable
  pcnt o index .clearCount
  pcnt o index .start

def initEncoders (o : PcntDriver ω) : Setup ω Unit := (List.finRange 4).forM (initEncoder o)

namespace Probe

def pins : Wheels EncoderPins := ![⟨6, 7⟩, ⟨47, 48⟩, ⟨12, 11⟩, ⟨2, 1⟩]

def initQuadratureUnit (o : PcntDriver ω) (index : Wheel) : Setup ω Unit := do
  pcnt o index (.newUnit 30000 (-30000))
  pcnt o index (.setGlitchFilter 1000)
  let channelA ← pcntNewChannel o index (pins index).edgeGpio (pins index).levelGpio
  let channelB ← pcntNewChannel o index (pins index).levelGpio (pins index).edgeGpio
  pcnt o index (.setEdgeAction channelA .decrease .increase)
  pcnt o index (.setLevelAction channelA .keep .inverse)
  pcnt o index (.setEdgeAction channelB .increase .decrease)
  pcnt o index (.setLevelAction channelB .keep .inverse)
  pcnt o index .enable
  pcnt o index .clearCount
  pcnt o index .start

/-- The result of the creation of the task is an input. -/
def robotEncoderProbeStart (o : PcntDriver ω) (created : Bool) : Setup ω Unit := do
  (List.finRange 4).forM (initQuadratureUnit o)
  if created then return () else throw .noMem

end Probe

/-- The probe samples the encoders as the control task does. -/
theorem initQuadratureUnit_eq (o : PcntDriver ω) (index : Wheel) :
    Probe.initQuadratureUnit o index = initEncoder o index := by
  have hlimit : encoderCountLimit.toInt = 30000 := by decide
  have hpins : Probe.pins = encoderPins := rfl
  unfold Probe.initQuadratureUnit initEncoder
  rw [hlimit, hpins]

def decoderUnit (index : Wheel) : PcntUnit where
  highLimit := encoderCountLimit.toInt
  lowLimit := -encoderCountLimit.toInt
  maxGlitchNs := 1000
  channels :=
    [⟨(encoderPins index).edgeGpio, (encoderPins index).levelGpio,
      .decrease, .increase, .keep, .inverse⟩,
    ⟨(encoderPins index).levelGpio, (encoderPins index).edgeGpio,
      .increase, .decrease, .keep, .inverse⟩]
  enabled := true
  running := true
  count := 0

def Configured (s : Units ω) (index : Wheel) (u : PcntUnit) (t : Units ω) : Prop :=
  t.unit = Function.update s.unit index u

theorem Configured.unit {s t : Units ω} {index : Wheel} {u : PcntUnit}
    (h : Configured s index u t) : t.unit index = u := by
  rw [h, Function.update_self]

def Refuses (o : PcntDriver ω) (err : EspErr) : Prop :=
  ∃ outside index call, (o outside index call).1 = some err

theorem pcnt_ends (o : PcntDriver ω) {s t : Units ω} {index : Wheel} {u : PcntUnit}
    (h : Configured s index u t) (call : PcntCall) :
    Ends (pcnt o index call) t (fun _ => Configured s index (call.apply u))
      fun err _ => Refuses o err := by
  unfold Ends pcnt
  rcases hanswer : o t.outside index call with ⟨_ | err, outside⟩
  · show Function.update t.unit index (call.apply (t.unit index)) = _
    rw [h.unit, h, Function.update_idem]
  · exact ⟨t.outside, index, call, by rw [hanswer]⟩

theorem pcntNewChannel_ends (o : PcntDriver ω) {s t : Units ω} {index : Wheel} {u : PcntUnit}
    (h : Configured s index u t) (edgeGpio levelGpio : ℕ) :
    Ends (pcntNewChannel o index edgeGpio levelGpio) t
      (fun handle t' => handle = u.channels.length ∧
        Configured s index ((PcntCall.newChannel edgeGpio levelGpio).apply u) t')
      fun err _ => Refuses o err := by
  have hhandle : (t.unit index).channels.length = u.channels.length := by rw [h.unit]
  apply (pcnt_ends o h (.newChannel edgeGpio levelGpio)).bind
  intro _ t' ht'
  exact ⟨hhandle, ht'⟩

theorem initEncoder_ends (o : PcntDriver ω) (s : Units ω) (index : Wheel) :
    Ends (initEncoder o index) s (fun _ => Configured s index (decoderUnit index))
      fun err _ => Refuses o err := by
  have hstart : Configured s index (s.unit index) s := (Function.update_eq_self _ _).symm
  unfold initEncoder
  refine (pcnt_ends o hstart _).bind fun _ _ hunit => ?_
  refine (pcnt_ends o hunit _).bind fun _ _ hfilter => ?_
  refine (pcntNewChannel_ends o hfilter _ _).bind fun channelA _ ⟨hA, hchannelA⟩ => ?_
  refine (pcntNewChannel_ends o hchannelA _ _).bind fun channelB _ ⟨hB, hchannelB⟩ => ?_
  refine (pcnt_ends o hchannelB _).bind fun _ _ hedgeA => ?_
  refine (pcnt_ends o hedgeA _).bind fun _ _ hlevelA => ?_
  refine (pcnt_ends o hlevelA _).bind fun _ _ hedgeB => ?_
  refine (pcnt_ends o hedgeB _).bind fun _ _ hlevelB => ?_
  refine (pcnt_ends o hlevelB _).bind fun _ _ henabled => ?_
  refine (pcnt_ends o henabled _).bind fun _ _ hcleared => ?_
  refine (pcnt_ends o hcleared _).mono (fun _ t ht => ?_) fun _ _ herr => herr
  subst hA hB
  exact ht

theorem initEncoders_ends (o : PcntDriver ω) (s : Units ω) {l : List Wheel} (hl : l.Nodup) :
    Ends (l.forM (initEncoder o)) s
      (fun _ t => ∀ i, t.unit i = if i ∈ l then decoderUnit i else s.unit i)
      fun err _ => Refuses o err := by
  induction l generalizing s with
  | nil => exact fun i => (if_neg (List.not_mem_nil)).symm
  | cons j l ih =>
    obtain ⟨hj, hnodup⟩ := List.nodup_cons.mp hl
    apply (initEncoder_ends o s j).bind
    intro _ t ht
    refine (ih t hnodup).mono (fun _ t' ht' i => ?_) fun _ _ herr => herr
    rw [ht' i]
    by_cases hi : i = j
    · subst hi
      rw [if_neg hj, if_pos (List.mem_cons_self), ht.unit]
    · simp only [List.mem_cons, hi, false_or]
      rw [ht, Function.update_of_ne hi]

theorem initEncoders_units {o : PcntDriver ω} {s t : Units ω}
    (h : initEncoders o s = .ok () t) : t.unit = decoderUnit := by
  funext i
  have hi := (initEncoders_ends o s (List.nodup_finRange 4)).ok h i
  rwa [if_pos (List.mem_finRange i)] at hi

/-- A started probe has the units of a started control task. -/
theorem robotEncoderProbeStart_ok (o : PcntDriver ω) (created : Bool) (s t : Units ω) :
    Probe.robotEncoderProbeStart o created s = .ok () t ↔
      created = true ∧ initEncoders o s = .ok () t := by
  have hunit : Probe.initQuadratureUnit o = initEncoder o := funext (initQuadratureUnit_eq o)
  unfold Probe.robotEncoderProbeStart
  rw [hunit]
  show EStateM.bind (initEncoders o) _ s = _ ↔ _
  unfold EStateM.bind
  cases hrun : initEncoders o s with
  | ok _ t' =>
    cases created with
    | true =>
      refine ⟨fun h => ⟨rfl, h⟩, fun h => h.2⟩
    | false => exact ⟨nofun, nofun⟩
  | error err t' => exact ⟨nofun, nofun⟩

structure Electrics where
  levels : ℕ → Bool
  units : Wheels PcntUnit

/-- A pin changes, after the glitch filters. -/
def Electrics.toggle (s : Electrics) (gpio : ℕ) : Electrics :=
  let levels := Function.update s.levels gpio (!s.levels gpio)
  ⟨levels, fun i => (s.units i).sense levels gpio⟩

def Electrics.run (s : Electrics) (gpios : List ℕ) : Electrics := gpios.foldl Electrics.toggle s

@[simp] theorem Electrics.run_nil (s : Electrics) : s.run [] = s := rfl

theorem Electrics.run_cons (s : Electrics) (gpio : ℕ) (gpios : List ℕ) :
    s.run (gpio :: gpios) = (s.toggle gpio).run gpios := rfl

theorem Electrics.run_append (s : Electrics) (gpios next : List ℕ) :
    s.run (gpios ++ next) = (s.run gpios).run next := List.foldl_append

/-- The two lines of an encoder, the one at the edge pin first. -/
def EncoderPins.lines (p : EncoderPins) (levels : ℕ → Bool) : Lines :=
  ⟨levels p.edgeGpio, levels p.levelGpio⟩

def EncoderPins.line (p : EncoderPins) (gpio : ℕ) : Option Line :=
  if gpio = p.edgeGpio then some .a else if gpio = p.levelGpio then some .b else none

def EncoderPins.toggles (p : EncoderPins) (gpios : List ℕ) : List Line := gpios.filterMap p.line

def EncoderPins.steps (p : EncoderPins) (levels : ℕ → Bool) (gpios : List ℕ) : List Edge :=
  decode (p.lines levels) (p.toggles gpios)

theorem encoderPins_ne (i : Wheel) : (encoderPins i).edgeGpio ≠ (encoderPins i).levelGpio := by
  revert i
  decide

theorem EncoderPins.lines_update {p : EncoderPins} (hp : p.edgeGpio ≠ p.levelGpio)
    (levels : ℕ → Bool) (gpio : ℕ) :
    p.lines (Function.update levels gpio (!levels gpio)) =
      after (p.lines levels) (p.line gpio).toList := by
  unfold EncoderPins.lines EncoderPins.line
  by_cases hedge : gpio = p.edgeGpio
  · subst hedge
    rw [if_pos rfl, Function.update_self, Function.update_of_ne hp.symm]
    rfl
  · rw [if_neg hedge, Function.update_of_ne (Ne.symm hedge)]
    by_cases hlevel : gpio = p.levelGpio
    · subst hlevel
      rw [if_pos rfl, Function.update_self]
      rfl
    · rw [if_neg hlevel, Function.update_of_ne (Ne.symm hlevel)]
      rfl

def decoderAt (index : Wheel) (count : ℤ) : PcntUnit := { decoderUnit index with count := count }

theorem advance_decoderAt (i : Wheel) (count : ℤ) (e : Edge) :
    (decoderAt i count).advance e = decoderAt i (step encoderCountLimit.toInt count e) := rfl

/-- The two channels count every toggle of the two lines once. -/
theorem sense_decoderAt (i : Wheel) (count : ℤ) (levels : ℕ → Bool) (gpio : ℕ) :
    (decoderAt i count).sense (Function.update levels gpio (!levels gpio)) gpio =
      decoderAt i (WrapCounter.run encoderCountLimit.toInt count
        (decode ((encoderPins i).lines levels) ((encoderPins i).line gpio).toList)) := by
  have hne := encoderPins_ne i
  unfold PcntUnit.sense EncoderPins.line EncoderPins.lines
  rw [if_pos (show (decoderAt i count).running = true from rfl)]
  show List.foldl PcntUnit.advance _ (List.filterMap _ (decoderUnit i).channels) = _
  unfold decoderUnit
  generalize (encoderPins i).edgeGpio = edgeGpio at hne ⊢
  generalize (encoderPins i).levelGpio = levelGpio at hne ⊢
  by_cases hedge : gpio = edgeGpio
  · subst hedge
    cases levels gpio <;> cases hb : levels levelGpio <;>
      simp [PcntChannel.sense, hne.symm, hb, EdgeAction.edge, LevelAction.apply, decode,
        Lines.turn, advance_decoderAt]
  · by_cases hlevel : gpio = levelGpio
    · subst hlevel
      cases ha : levels edgeGpio <;> cases levels gpio <;>
        simp [PcntChannel.sense, hne, hedge, ha, EdgeAction.edge, LevelAction.apply, decode,
          Lines.turn, advance_decoderAt]
    · simp [PcntChannel.sense, hedge, hlevel, Ne.symm hedge, Ne.symm hlevel]

theorem EncoderPins.toggles_cons (p : EncoderPins) (gpio : ℕ) (gpios : List ℕ) :
    p.toggles (gpio :: gpios) = (p.line gpio).toList ++ p.toggles gpios := by
  unfold EncoderPins.toggles
  rw [List.filterMap_cons]
  cases p.line gpio <;> rfl

theorem lines_run (s : Electrics) (gpios : List ℕ) (i : Wheel) :
    (encoderPins i).lines (s.run gpios).levels =
      after ((encoderPins i).lines s.levels) ((encoderPins i).toggles gpios) := by
  induction gpios generalizing s with
  | nil => rfl
  | cons gpio gpios ih =>
    have hlines : (encoderPins i).lines (s.toggle gpio).levels =
        after ((encoderPins i).lines s.levels) ((encoderPins i).line gpio).toList :=
      EncoderPins.lines_update (encoderPins_ne i) s.levels gpio
    rw [Electrics.run_cons, ih, hlines, EncoderPins.toggles_cons, after_append]

theorem steps_append (s : Electrics) (gpios next : List ℕ) (i : Wheel) :
    (encoderPins i).steps s.levels (gpios ++ next) =
      (encoderPins i).steps s.levels gpios ++
        (encoderPins i).steps (s.run gpios).levels next := by
  unfold EncoderPins.steps
  rw [lines_run, ← decode_append]
  unfold EncoderPins.toggles
  rw [List.filterMap_append]

/-- Each unit counts the steps of its own phase, whatever the other pins do. -/
theorem run_decoders (s : Electrics) (counts : Wheels ℤ)
    (hs : ∀ i, s.units i = decoderAt i (counts i)) (gpios : List ℕ) (i : Wheel) :
    (s.run gpios).units i = decoderAt i (WrapCounter.run encoderCountLimit.toInt (counts i)
      ((encoderPins i).steps s.levels gpios)) := by
  induction gpios generalizing s counts with
  | nil => exact hs i
  | cons gpio gpios ih =>
    have hunits : ∀ j, (s.toggle gpio).units j = decoderAt j
        (WrapCounter.run encoderCountLimit.toInt (counts j)
          ((encoderPins j).steps s.levels [gpio])) := by
      intro j
      unfold EncoderPins.steps
      rw [EncoderPins.toggles_cons]
      show (s.units j).sense _ gpio = _
      rw [hs j, sense_decoderAt, EncoderPins.toggles, List.filterMap_nil, List.append_nil]
    have happend := steps_append s [gpio] gpios i
    rw [List.singleton_append] at happend
    rw [Electrics.run_cons, ih (s.toggle gpio) _ hunits, happend, WrapCounter.run_append]
    rfl

def vendorPins : Wheels EncoderPins := ![⟨6, 7⟩, ⟨47, 48⟩, ⟨11, 12⟩, ⟨1, 2⟩]

def vendorSign (i : Wheel) : ℤ := if i.val < 2 then 1 else -1

def EncoderPins.exchange (p : EncoderPins) : EncoderPins := ⟨p.levelGpio, p.edgeGpio⟩

theorem encoderPins_eq (i : Wheel) :
    encoderPins i = if i.val < 2 then vendorPins i else (vendorPins i).exchange := by
  revert i
  decide

theorem EncoderPins.toggles_exchange {p : EncoderPins} (hp : p.edgeGpio ≠ p.levelGpio)
    (gpios : List ℕ) : p.exchange.toggles gpios = (p.toggles gpios).map Line.swap := by
  unfold EncoderPins.toggles
  rw [List.map_filterMap]
  apply List.filterMap_congr
  intro gpio _
  unfold EncoderPins.line EncoderPins.exchange
  by_cases hedge : gpio = p.edgeGpio
  · subst hedge
    simp [hp, Line.swap]
  · by_cases hlevel : gpio = p.levelGpio
    · simp [hlevel, hp.symm, Line.swap]
    · simp [hedge, hlevel]

theorem net_steps_exchange {p : EncoderPins} (hp : p.edgeGpio ≠ p.levelGpio)
    (levels : ℕ → Bool) (gpios : List ℕ) :
    net (p.exchange.steps levels gpios) = -net (p.steps levels gpios) := by
  unfold EncoderPins.steps
  rw [EncoderPins.toggles_exchange hp, ← net_decode_swap]
  rfl

theorem net_vendor_steps (levels : ℕ → Bool) (gpios : List ℕ) (i : Wheel) :
    net ((encoderPins i).steps levels gpios) =
      vendorSign i * net ((vendorPins i).steps levels gpios) := by
  have hne : (vendorPins i).edgeGpio ≠ (vendorPins i).levelGpio := by
    revert i
    decide
  rw [encoderPins_eq, vendorSign]
  split_ifs
  · rw [one_mul]
  · rw [net_steps_exchange hne]
    ring

/-- After a start that succeeds, and whatever the pins do, each unit has counted every change of
its two lines in the direction of its phase, restarting at the limits, which never makes it lose
the lines; forwards is the direction of the vendor for the first two wheels and against it for
the others. -/
theorem units_follow_lines {o : PcntDriver ω} {s t : Units ω} (h : initEncoders o s = .ok () t)
    (levels : ℕ → Bool) (gpios : List ℕ) (i : Wheel) :
    let steps := (encoderPins i).steps levels gpios
    let count := ((Electrics.run ⟨levels, t.unit⟩ gpios).units i).count
    count = WrapCounter.run 30000 0 steps ∧ |count| < 30000 ∧
    net steps = vendorSign i * net ((vendorPins i).steps levels gpios) ∧
    ∀ phase, lines phase = (encoderPins i).lines levels →
      lines (phase + net steps) =
        (encoderPins i).lines (Electrics.run ⟨levels, t.unit⟩ gpios).levels ∧
      lines (phase + count) =
        (encoderPins i).lines (Electrics.run ⟨levels, t.unit⟩ gpios).levels := by
  have hstart : ∀ i, (Electrics.mk levels t.unit).units i = decoderAt i 0 := by
    intro i
    show t.unit i = decoderUnit i
    rw [initEncoders_units h]
  have hlimit : encoderCountLimit.toInt = 30000 := by decide
  have hunit := run_decoders ⟨levels, t.unit⟩ (fun _ => 0) hstart gpios i
  have hlines := lines_run ⟨levels, t.unit⟩ gpios i
  rw [hlimit] at hunit
  dsimp only
  rw [hunit, hlines]
  have hrange : |(0 : ℤ)| < 30000 := by norm_num
  have hmoved := dvd_run_sub 30000 0 ((encoderPins i).steps levels gpios)
  refine ⟨rfl, run_inRange hrange _, net_vendor_steps levels gpios i, fun phase hphase => ?_⟩
  have hnet := lines_decode phase ((encoderPins i).toggles gpios)
  rw [hphase] at hnet
  refine ⟨hnet, ?_⟩
  -- the limit is a multiple of the period
  rw [← hnet, lines_eq_iff]
  show (phase + WrapCounter.run 30000 0 ((encoderPins i).steps levels gpios)) % 4 =
    (phase + net ((encoderPins i).steps levels gpios)) % 4
  omega

theorem initEncoders_accepted {o : PcntDriver ω} (ho : ∀ err, ¬ Refuses o err) (s : Units ω) :
    ∃ t, initEncoders o s = .ok () t := by
  have hends := initEncoders_ends o s (List.nodup_finRange 4)
  cases hrun : initEncoders o s with
  | ok _ t => exact ⟨t, rfl⟩
  | error err t => exact absurd (hends.error hrun) (ho err)

def acceptingDriver : PcntDriver Unit := fun w _ _ => (.none, w)

theorem acceptingDriver_accepts (err : EspErr) : ¬ Refuses acceptingDriver err := by
  rintro ⟨_, _, _, hrefused⟩
  cases hrefused

/-- The vendor's lines of the third wheel over one period. -/
theorem units_follow_lines_period : ∃ t, initEncoders acceptingDriver (.none ()) = .ok () t ∧
    ((Electrics.run ⟨fun _ => false, t.unit⟩ [11, 12, 11, 12]).units 2).count = -4 := by
  obtain ⟨t, ht⟩ := initEncoders_accepted acceptingDriver_accepts (.none ())
  obtain ⟨hcount, _⟩ := units_follow_lines ht (fun _ => false) [11, 12, 11, 12] 2
  have hsteps : WrapCounter.run 30000 0 ((encoderPins 2).steps (fun _ => false) [11, 12, 11, 12]) =
      -4 := by decide +kernel
  exact ⟨t, ht, hcount.trans hsteps⟩

end RobotFirmware.Chassis
