import RobotFirmware.Imu.Sample
import RobotFirmware.Library.Endian
import RobotFirmware.Library.Rounding

/-! The data registers of the ICM42670P: their decoding into raw samples and the conversion of
raw samples to SI units. -/
namespace RobotFirmware.Imu
open Fp

structure RawSample where
  accelerationRaw : Fin 3 → Int16
  angularVelocityRaw : Fin 3 → Int16

/-- The two bytes that a pointer into the buffer points at. -/
def decodeBigEndianI16 : List UInt8 → Int16
  | high :: low :: _ =>
    let value : ℤ := (high.toNat <<< 8 ||| low.toNat : ℕ)
    .ofInt (if 0x8000 ≤ value then value - 0x10000 else value)
  | _ => 0

/-- Whether the buffer was accepted, and what `out_sample` points at; a null pointer is `none`. -/
def robotImuIcm42670pParseRaw (registerBytes : Option (List UInt8)) (outSample : Option RawSample) :
    Bool × Option RawSample :=
  match registerBytes, outSample with
  | some bytes, some old =>
    if bytes.length ≠ 12 then (false, some old)
    else
      (true, some
        { accelerationRaw := fun axis => decodeBigEndianI16 (bytes.drop (axis.val * 2))
          angularVelocityRaw := fun axis => decodeBigEndianI16 (bytes.drop (6 + axis.val * 2)) })
  | _, outSample => (false, outSample)

def RawSample.values (raw : RawSample) : List ℤ :=
  (List.ofFn raw.accelerationRaw ++ List.ofFn raw.angularVelocityRaw).map Int16.toInt

/-- The registers of a device that shows the sample. -/
def RawSample.registers (raw : RawSample) : List UInt8 := Endian.frame 2 raw.values

theorem fits_toInt (n : Int16) : Endian.Fits 2 n.toInt := by
  have hle := n.le_toInt
  have hlt := n.toInt_lt
  unfold Endian.Fits
  constructor <;> omega

theorem decodeBigEndianI16_toInt {high low : UInt8} (rest : List UInt8) :
    (decodeBigEndianI16 (high :: low :: rest)).toInt = Endian.signed [high, low] := by
  have hhigh := high.toNat_lt
  have hlow := low.toNat_lt
  have hor : high.toNat <<< 8 ||| low.toNat = high.toNat * 256 + low.toNat := by
    rw [← Nat.shiftLeft_add_eq_or_of_lt hlow, Nat.shiftLeft_eq]
  have hvalue : Endian.value [high, low] = high.toNat * 256 + low.toNat := by
    simp [Endian.value]
  have hrange : 256 ^ [high, low].length = 65536 := by simp
  rw [decodeBigEndianI16, hor, Endian.signed, hvalue, hrange, Int.bmod_def]
  rw [Int16.toInt_ofInt_of_le (by split_ifs <;> omega) (by split_ifs <;> omega)]
  split_ifs <;> omega

theorem decodeBigEndianI16_take {bytes : List UInt8} (h : 2 ≤ bytes.length) :
    (decodeBigEndianI16 bytes).toInt = Endian.signed (bytes.take 2) := by
  match bytes, h with
  | high :: low :: rest, _ => exact decodeBigEndianI16_toInt rest

theorem RawSample.length_registers (raw : RawSample) : raw.registers.length = 12 := by
  simp [RawSample.registers, RawSample.values]

theorem RawSample.values_inj {raw raw' : RawSample} (h : raw.values = raw'.values) :
    raw = raw' := by
  have hlists := List.map_injective_iff.mpr (fun _ _ => Int16.toInt_inj.mp) h
  obtain ⟨hacceleration, hvelocity⟩ := List.append_inj hlists (by simp)
  have hacceleration := List.ofFn_injective hacceleration
  have hvelocity := List.ofFn_injective hvelocity
  cases raw
  cases raw'
  simp_all

def parsed (bytes : List UInt8) : RawSample where
  accelerationRaw axis := decodeBigEndianI16 (bytes.drop (axis.val * 2))
  angularVelocityRaw axis := decodeBigEndianI16 (bytes.drop (6 + axis.val * 2))

theorem parsed_values {bytes : List UInt8} (h : bytes.length = 12) :
    (parsed bytes).values = Endian.fields 2 6 bytes := by
  have hfield : ∀ offset, offset + 2 ≤ 12 →
      (decodeBigEndianI16 (bytes.drop offset)).toInt =
        Endian.signed ((bytes.drop offset).take 2) := by
    intro offset hoffset
    apply decodeBigEndianI16_take
    rw [List.length_drop]
    omega
  have hfirst := hfield 0 (by omega)
  rw [List.drop_zero] at hfirst
  simp [RawSample.values, parsed, Endian.fields, List.ofFn_succ, hfield, hfirst, List.drop_drop]

/-- Buffers of twelve bytes and raw samples are the same thing. -/
theorem parsed_registers (raw : RawSample) : parsed raw.registers = raw := by
  apply RawSample.values_inj
  rw [parsed_values raw.length_registers]
  have hfits : ∀ z ∈ raw.values, Endian.Fits 2 z := by
    intro z hz
    obtain ⟨n, _, rfl⟩ := List.mem_map.mp hz
    exact fits_toInt n
  have hlength : raw.values.length = 6 := by simp [RawSample.values]
  have hfields := Endian.fields_frame hfits
  rw [hlength] at hfields
  exact hfields

theorem registers_parsed {bytes : List UInt8} (h : bytes.length = 12) :
    (parsed bytes).registers = bytes := by
  rw [RawSample.registers, parsed_values h]
  exact Endian.frame_fields h

theorem parseRaw_of_length {bytes : List UInt8} (h : bytes.length = 12) (old : RawSample) :
    robotImuIcm42670pParseRaw (some bytes) (some old) = (true, some (parsed bytes)) := by
  unfold robotImuIcm42670pParseRaw
  exact if_neg (not_not.mpr h)

/-- The parser accepts the register images of samples and inverts them; what it refuses leaves
the output as it was. -/
theorem parse_inverts_registers (registerBytes : Option (List UInt8))
    (outSample : Option RawSample) :
    (∀ raw, robotImuIcm42670pParseRaw registerBytes outSample = (true, some raw) ↔
      outSample.isSome = true ∧ registerBytes = some raw.registers) ∧
    ((robotImuIcm42670pParseRaw registerBytes outSample).1 = true ↔
      outSample.isSome = true ∧ ∃ bytes, registerBytes = some bytes ∧ bytes.length = 12) ∧
    ((robotImuIcm42670pParseRaw registerBytes outSample).1 = false →
      (robotImuIcm42670pParseRaw registerBytes outSample).2 = outSample) := by
  cases registerBytes with
  | none => simp [robotImuIcm42670pParseRaw]
  | some bytes =>
    cases outSample with
    | none => simp [robotImuIcm42670pParseRaw]
    | some old =>
      by_cases h : bytes.length = 12
      · rw [parseRaw_of_length h old]
        refine ⟨fun raw => ?_, by simp [h], by simp⟩
        constructor
        · intro heq
          cases heq
          exact ⟨rfl, by rw [registers_parsed h]⟩
        · intro hraw
          obtain ⟨_, hbytes⟩ := hraw
          cases hbytes
          rw [parsed_registers]
      · have hrefused : robotImuIcm42670pParseRaw (some bytes) (some old) = (false, some old) :=
          if_pos h
        rw [hrefused]
        refine ⟨fun raw => ?_, by simp [h], by simp⟩
        constructor
        · intro heq
          cases heq
        · intro hraw
          obtain ⟨_, hbytes⟩ := hraw
          cases hbytes
          exact absurd raw.length_registers h

structure SiSample where
  linearAccelerationMps2 : Axes
  angularVelocityRadS : Axes

def accelerationScale (E : Env) : Datum :=
  Datum.div E.single (E.single.round (980665 / 100000)) (E.single.round 8192)

def angularVelocityScale (E : Env) : Datum :=
  Datum.div E.single (E.single.round (1745329251994329577 / 10 ^ 20)) (E.single.round (164 / 10))

def scaled (E : Env) (raw : Fin 3 → Int16) (scale : Datum) : Axes :=
  fun axis => Datum.mul E.single (E.single.round (raw axis).toInt) scale

def robotImuIcm42670pConvertToSi (E : Env) (rawSample : Option RawSample)
    (outSample : Option SiSample) : Bool × Option SiSample :=
  match rawSample, outSample with
  | some raw, some _ =>
    (true, some
      { linearAccelerationMps2 := scaled E raw.accelerationRaw (accelerationScale E)
        angularVelocityRadS := scaled E raw.angularVelocityRaw (angularVelocityScale E) })
  | _, outSample => (false, outSample)

theorem div_near {F : Format} {u p q : ℚ} (hF : F.Precise u) (hu : u ≤ 1 / 2 ^ 24)
    (hp : 1 / 100 ≤ p ∧ p ≤ 100) (hq : 1 ≤ q ∧ q ≤ 10000) :
    ∃ s, Datum.div F (F.round p) (F.round q) = .finite s ∧ Near (4 * u) (p / q) s := by
  have hu₀ := hF.nonneg
  have hppos : 0 < p := lt_of_lt_of_le (by norm_num) hp.1
  have hqpos : 0 < q := lt_of_lt_of_le (by norm_num) hq.1
  have hratio : 0 < p / q := div_pos hppos hqpos
  have hrange : ∀ x : ℚ, 1 / 10 ^ 7 ≤ x → x ≤ 10 ^ 7 →
      ∃ r, F.round x = .finite r ∧ Near u x r := by
    intro x hlo hhi
    have hpos : 0 < x := lt_of_lt_of_le (by norm_num) hlo
    apply hF.near <;> rw [abs_of_pos hpos]
    · exact le_trans (by norm_num) hlo
    · exact hhi.trans (by norm_num [singleMax])
  obtain ⟨p', hp', hnearp⟩ := hrange p (by linarith) (by linarith)
  obtain ⟨q', hq', hnearq⟩ := hrange q (by linarith) (by linarith)
  have hq'pos : 0 < q' := hnearq.pos (by linarith) hqpos
  rw [hp', hq', Datum.div_finite F p' hq'pos.ne']
  -- first the error of the exact quotient of the rounded constants
  have hinv : Near (9 / 8 * u) (p / q) (p / q') := by
    have hgrown : u / (1 - u) ≤ 9 / 8 * u := by
      rw [div_le_iff₀ (by linarith)]
      have : u * u ≤ u * (1 / 2 ^ 24) := mul_le_mul_of_nonneg_left hu hu₀
      linarith
    have := ((hnearq.inv (by linarith) hqpos.ne').mul_left p).mono hgrown
    rwa [← div_eq_mul_inv, ← div_eq_mul_inv] at this
  have hsquare : u * u ≤ u * (1 / 2 ^ 24) := mul_le_mul_of_nonneg_left hu hu₀
  have hquotient : Near (9 / 4 * u) (p / q) (p' / q') :=
    (hinv.trans (hnearp.div_right q') hu₀).mono (by linarith)
  have hlower := hquotient.abs_lower
  have hupper := hquotient.abs_upper
  have hpos : 0 < p' / q' := hquotient.pos (by linarith) hratio
  rw [abs_of_pos hratio, abs_of_pos hpos] at hlower hupper
  have hfloor : 1 / 10 ^ 6 ≤ p / q := by
    rw [le_div_iff₀ hqpos]
    linarith
  have hceiling : p / q ≤ 100 := by
    rw [div_le_iff₀ hqpos]
    linarith
  have hslack : 9 / 4 * u * (p / q) ≤ 1 / 2 * (p / q) :=
    mul_le_mul_of_nonneg_right (by linarith) hratio.le
  obtain ⟨s, hs, hnears⟩ := hrange (p' / q') (by linarith) (by linarith)
  exact ⟨s, hs, (hquotient.trans hnears hu₀).mono (by linarith)⟩

theorem mul_near {F : Format} {u s : ℚ} (hF : F.Precise u) (hs : 1 / 2 ^ 20 ≤ s ∧ s ≤ 1)
    (n : Int16) :
    ∃ v, Datum.mul F (F.round n.toInt) (.finite s) = .finite v ∧ Near u (n.toInt * s) v := by
  have hle := n.le_toInt
  have hlt := n.toInt_lt
  have hsmall : |n.toInt| ≤ 2 ^ 15 := abs_le.mpr ⟨by omega, by omega⟩
  have hint := F.round_int n.toInt (hsmall.trans (by norm_num))
  have hpos : 0 < s := lt_of_lt_of_le (by norm_num) hs.1
  rw [hint, Datum.mul_finite]
  by_cases hzero : n.toInt = 0
  · have hround := F.round_int 0 (by norm_num)
    rw [Int.cast_zero] at hround
    refine ⟨0, ?_, ?_⟩
    · rw [hzero, Int.cast_zero, zero_mul, hround]
    · rw [hzero, Int.cast_zero, zero_mul]
      simp [Near]
  · have hone : (1 : ℚ) ≤ |(n.toInt : ℚ)| := by
      exact_mod_cast Int.one_le_abs hzero
    have htop : |(n.toInt : ℚ)| ≤ 2 ^ 15 := by exact_mod_cast hsmall
    apply hF.near
    · rw [abs_mul, abs_of_pos hpos]
      calc (1 : ℚ) / 2 ^ 126 ≤ 1 * (1 / 2 ^ 20) := by norm_num
        _ ≤ |(n.toInt : ℚ)| * s := mul_le_mul hone hs.1 (by norm_num) (abs_nonneg _)
    · rw [abs_mul, abs_of_pos hpos]
      calc |(n.toInt : ℚ)| * s ≤ 2 ^ 15 * 1 := mul_le_mul htop hs.2 hpos.le (by norm_num)
        _ ≤ singleMax := by norm_num [singleMax]

/-- Sixteen bits are too few for rounding to confuse two raw values. -/
theorem mul_lt {u s v w : ℚ} (hu : u ≤ 1 / 2 ^ 24) (hs : 0 < s) {n m : Int16}
    (hlt : n.toInt < m.toInt) (hv : Near u (n.toInt * s) v) (hw : Near u (m.toInt * s) w) :
    v < w := by
  have hslack : ∀ k : Int16, u * |k.toInt * s| ≤ s / 512 := by
    intro k
    have hle := k.le_toInt
    have hlt := k.toInt_lt
    have hsmall : |k.toInt| ≤ 2 ^ 15 := abs_le.mpr ⟨by omega, by omega⟩
    have htop : |(k.toInt : ℚ)| ≤ 2 ^ 15 := by exact_mod_cast hsmall
    rw [abs_mul, abs_of_pos hs]
    calc u * (|(k.toInt : ℚ)| * s) ≤ 1 / 2 ^ 24 * (2 ^ 15 * s) := by
          apply mul_le_mul hu (mul_le_mul_of_nonneg_right htop hs.le) (by positivity)
          norm_num
      _ = s / 512 := by ring
  have hv' := (abs_le.mp (le_trans hv (hslack n))).2
  have hw' := (abs_le.mp (le_trans hw (hslack m))).1
  have hstep : (n.toInt : ℚ) + 1 ≤ m.toInt := by exact_mod_cast hlt
  have hgap := mul_le_mul_of_nonneg_right hstep hs.le
  rw [add_mul, one_mul] at hgap
  linarith

/-- What the conversion of one axis delivers: a finite value close to the physical one, with
larger raw values giving larger results. -/
structure Faithful (scale : ℚ) (convert : Int16 → Datum) : Prop where
  near (n : Int16) : ∃ v, convert n = .finite v ∧ Near (1 / 2 ^ 21) (n.toInt * scale) v
  lt_iff (n m : Int16) : Datum.lt (convert n) (convert m) = true ↔ n.toInt < m.toInt

theorem faithful_of_scale {F : Format} {u p q : ℚ} (hF : F.Precise u) (hu : u ≤ 1 / 2 ^ 24)
    (hp : 1 / 100 ≤ p ∧ p ≤ 100) (hq : 1 ≤ q ∧ q ≤ 10000)
    (hscale : 1 / 2 ^ 19 ≤ p / q ∧ p / q ≤ 1 / 2) :
    Faithful (p / q) fun n =>
      Datum.mul F (F.round n.toInt) (Datum.div F (F.round p) (F.round q)) := by
  have hu₀ := hF.nonneg
  obtain ⟨s, hs, hnear⟩ := div_near hF hu hp hq
  have hratio : 0 < p / q := lt_of_lt_of_le (by norm_num) hscale.1
  have hpos : 0 < s := hnear.pos (by linarith) hratio
  have hlower := hnear.abs_lower
  have hupper := hnear.abs_upper
  rw [abs_of_pos hratio, abs_of_pos hpos] at hlower hupper
  have hslack : 4 * u * (p / q) ≤ 1 / 2 * (p / q) :=
    mul_le_mul_of_nonneg_right (by linarith) hratio.le
  have hrange : 1 / 2 ^ 20 ≤ s ∧ s ≤ 1 := ⟨by linarith, by linarith⟩
  rw [hs]
  constructor
  · intro n
    obtain ⟨v, hv, hnearv⟩ := mul_near hF hrange n
    have hsquare : u * u ≤ u * (1 / 2 ^ 24) := mul_le_mul_of_nonneg_left hu hu₀
    exact ⟨v, hv, ((hnear.mul_left _).trans hnearv hu₀).mono (by linarith)⟩
  · intro n m
    obtain ⟨v, hv, hnearv⟩ := mul_near hF hrange n
    obtain ⟨w, hw, hnearw⟩ := mul_near hF hrange m
    rw [hv, hw, Datum.lt_finite, decide_eq_true_iff]
    constructor
    · intro hlt
      by_contra hnot
      rcases lt_or_eq_of_le (not_lt.mp hnot) with hgt | heq
      · exact absurd (mul_lt hu hpos hgt hnearw hnearv) (not_lt.mpr hlt.le)
      · rw [heq, hv] at hw
        cases hw
        exact lt_irrefl v hlt
    · exact fun hlt => mul_lt hu hpos hlt hnearv hnearw

theorem scaled_finite {scale : ℚ} {convert : Int16 → Datum} (h : Faithful scale convert)
    (n : Int16) : (convert n).isFinite = true := by
  obtain ⟨v, hv, _⟩ := h.near n
  rw [hv]
  rfl

def converted (E : Env) (raw : RawSample) : SiSample where
  linearAccelerationMps2 := scaled E raw.accelerationRaw (accelerationScale E)
  angularVelocityRadS := scaled E raw.angularVelocityRaw (angularVelocityScale E)

/-- Metres per second squared for one unit of the ±4 g range. -/
def accelerationPerLsb : ℚ := 980665 / 100000 / 8192

/-- Radians per second for one unit of the ±2000 dps range. -/
def angularVelocityPerLsb : ℚ := 1745329251994329577 / 10 ^ 20 / (164 / 10)

/-- Both scales of the conversion, each value of an axis on its own. -/
theorem scales_faithful {E : Env} {u : ℚ} (hE : E.single.Precise u) (hu : u ≤ 1 / 2 ^ 24) :
    Faithful accelerationPerLsb
      (fun n => Datum.mul E.single (E.single.round n.toInt) (accelerationScale E)) ∧
    Faithful angularVelocityPerLsb
      (fun n => Datum.mul E.single (E.single.round n.toInt) (angularVelocityScale E)) := by
  constructor
  · exact faithful_of_scale hE hu (by norm_num) (by norm_num) (by norm_num)
  · exact faithful_of_scale hE hu (by norm_num) (by norm_num) (by norm_num)

theorem converted_finite {E : Env} {u : ℚ} (hE : E.single.Precise u) (hu : u ≤ 1 / 2 ^ 24)
    (raw : RawSample) (sampledAtUs : ℤ) (sequence : UInt32) :
    robotImuSampleValuesAreFinite (some ⟨(converted E raw).linearAccelerationMps2,
      (converted E raw).angularVelocityRadS, sampledAtUs, sequence⟩) = true := by
  obtain ⟨hacceleration, hvelocity⟩ := scales_faithful hE hu
  unfold robotImuSampleValuesAreFinite
  rw [decide_eq_true_iff]
  intro axis
  exact ⟨scaled_finite hacceleration (raw.accelerationRaw axis),
    scaled_finite hvelocity (raw.angularVelocityRaw axis)⟩

/-- The conversion never fails on a sample, each axis comes out within a relative error of
`2 ^ -21` of its physical value, and the order of two readings of an axis is kept. -/
theorem convert_faithful {E : Env} {u : ℚ} (hE : E.single.Precise u) (hu : u ≤ 1 / 2 ^ 24)
    (raw raw' : RawSample) (old : SiSample) :
    ∃ si si', robotImuIcm42670pConvertToSi E (some raw) (some old) = (true, some si) ∧
      robotImuIcm42670pConvertToSi E (some raw') (some old) = (true, some si') ∧
      ∀ axis,
        (∃ v, si.linearAccelerationMps2 axis = .finite v ∧
          Near (1 / 2 ^ 21) ((raw.accelerationRaw axis).toInt * accelerationPerLsb) v) ∧
        (∃ v, si.angularVelocityRadS axis = .finite v ∧
          Near (1 / 2 ^ 21) ((raw.angularVelocityRaw axis).toInt * angularVelocityPerLsb) v) ∧
        (Datum.lt (si.linearAccelerationMps2 axis) (si'.linearAccelerationMps2 axis) = true ↔
          raw.accelerationRaw axis < raw'.accelerationRaw axis) ∧
        (Datum.lt (si.angularVelocityRadS axis) (si'.angularVelocityRadS axis) = true ↔
          raw.angularVelocityRaw axis < raw'.angularVelocityRaw axis) := by
  obtain ⟨hacceleration, hvelocity⟩ := scales_faithful hE hu
  refine ⟨converted E raw, converted E raw', rfl, rfl, fun axis => ?_⟩
  refine ⟨hacceleration.near _, hvelocity.near _, ?_, ?_⟩
  · rw [Int16.lt_iff_toInt_lt]
    exact hacceleration.lt_iff _ _
  · rw [Int16.lt_iff_toInt_lt]
    exact hvelocity.lt_iff _ _

/-- One unit apart at the end of the range. -/
theorem convert_faithful_top : ∃ si si',
    robotImuIcm42670pConvertToSi .ranged (some ⟨fun _ => 32766, fun _ => 0⟩)
      (some ⟨fun _ => .nan, fun _ => .nan⟩) = (true, some si) ∧
    robotImuIcm42670pConvertToSi .ranged (some ⟨fun _ => 32767, fun _ => 0⟩)
      (some ⟨fun _ => .nan, fun _ => .nan⟩) = (true, some si') ∧
    Datum.lt (si.linearAccelerationMps2 0) (si'.linearAccelerationMps2 0) = true := by
  obtain ⟨si, si', hsi, hsi', haxes⟩ := convert_faithful Env.ranged_precise le_rfl
    ⟨fun _ => 32766, fun _ => 0⟩ ⟨fun _ => 32767, fun _ => 0⟩ ⟨fun _ => .nan, fun _ => .nan⟩
  exact ⟨si, si', hsi, hsi', (haxes 0).2.2.1.mpr (by decide)⟩

end RobotFirmware.Imu
