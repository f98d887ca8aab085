import Mathlib.Algebra.Order.Ring.Int
import Mathlib.Algebra.Ring.Nat
import Mathlib.Tactic.Positivity
import Mathlib.Tactic.Ring

/-! Integers as bytes, most significant first: unsigned values, two's complement, and frames of
consecutive fields of one width. -/
namespace Endian

def value : List UInt8 → ℕ
  | [] => 0
  | b :: bytes => b.toNat * 256 ^ bytes.length + value bytes

/-- The last `width` bytes of the number. -/
def bytes : ℕ → ℕ → List UInt8
  | 0, _ => []
  | width + 1, n => .ofNat (n / 256 ^ width) :: bytes width n

@[simp] theorem length_bytes (width n : ℕ) : (bytes width n).length = width := by
  induction width with
  | zero => rfl
  | succ width ih => rw [bytes, List.length_cons, ih]

theorem value_lt (bs : List UInt8) : value bs < 256 ^ bs.length := by
  induction bs with
  | nil => exact Nat.one_pos
  | cons b bs ih =>
    have hb : b.toNat + 1 ≤ 256 := b.toNat_lt
    calc value (b :: bs) < b.toNat * 256 ^ bs.length + 256 ^ bs.length := by
          rw [value]
          omega
      _ = (b.toNat + 1) * 256 ^ bs.length := by ring
      _ ≤ 256 * 256 ^ bs.length := Nat.mul_le_mul_right _ hb
      _ = 256 ^ (b :: bs).length := by rw [List.length_cons, pow_succ']

theorem value_bytes (width n : ℕ) : value (bytes width n) = n % 256 ^ width := by
  induction width with
  | zero => rw [bytes, value, pow_zero, Nat.mod_one]
  | succ width ih =>
    have hsplit : n % 256 ^ (width + 1) =
        n % 256 ^ width + 256 ^ width * (n / 256 ^ width % 256) := by
      rw [pow_succ]
      exact Nat.mod_mul
    rw [bytes, value, ih, length_bytes, UInt8.toNat_ofNat', hsplit, add_comm, mul_comm]

/-- Only the last bytes count. -/
theorem bytes_add (width k n : ℕ) : bytes width (n + k * 256 ^ width) = bytes width n := by
  induction width generalizing k with
  | zero => rfl
  | succ width ih =>
    have hhead : (n + k * 256 ^ (width + 1)) / 256 ^ width = n / 256 ^ width + k * 256 := by
      rw [pow_succ', ← mul_assoc]
      exact Nat.add_mul_div_right _ _ (Nat.pow_pos (by omega))
    have htail : n + k * 256 ^ (width + 1) = n + k * 256 * 256 ^ width := by ring
    rw [bytes, bytes, hhead, htail, ih]
    congr 1
    apply UInt8.toNat_inj.mp
    rw [UInt8.toNat_ofNat', UInt8.toNat_ofNat']
    omega

theorem bytes_value (bs : List UInt8) : bytes bs.length (value bs) = bs := by
  induction bs with
  | nil => rfl
  | cons b bs ih =>
    have hpos : 0 < 256 ^ bs.length := Nat.pow_pos (by omega)
    have hhead : (b.toNat * 256 ^ bs.length + value bs) / 256 ^ bs.length = b.toNat := by
      rw [Nat.mul_comm, Nat.mul_add_div hpos, Nat.div_eq_of_lt (value_lt bs), Nat.add_zero]
    rw [List.length_cons, bytes, value, hhead, UInt8.ofNat_toNat, add_comm, bytes_add, ih]

def signed (bs : List UInt8) : ℤ := Int.bmod (value bs) (256 ^ bs.length)

def signedBytes (width : ℕ) (z : ℤ) : List UInt8 := bytes width (z % 256 ^ width).toNat

/-- The integers that fit the width. -/
def Fits (width : ℕ) (z : ℤ) : Prop := -256 ^ width ≤ 2 * z ∧ 2 * z < 256 ^ width

@[simp] theorem length_signedBytes (width : ℕ) (z : ℤ) : (signedBytes width z).length = width :=
  length_bytes width _

theorem signed_signedBytes {width : ℕ} {z : ℤ} (h : Fits width z) :
    signed (signedBytes width z) = z := by
  obtain ⟨hlo, hhi⟩ := h
  have hpos : (0 : ℤ) < 256 ^ width := by positivity
  have hvalue : ((value (signedBytes width z) : ℕ) : ℤ) = z % 256 ^ width := by
    rw [signedBytes, value_bytes]
    push_cast
    rw [Int.toNat_of_nonneg (Int.emod_nonneg z hpos.ne'), Int.emod_emod_of_dvd z (dvd_refl _)]
  have hmod : ((256 ^ width : ℕ) : ℤ) = 256 ^ width := by push_cast; rfl
  rw [signed, hvalue, length_signedBytes, ← hmod, Int.emod_bmod]
  apply Int.bmod_eq_of_le <;> rw [hmod] <;> omega

theorem signedBytes_signed (bs : List UInt8) : signedBytes bs.length (signed bs) = bs := by
  have hlt : (value bs : ℤ) < 256 ^ bs.length := by exact_mod_cast value_lt bs
  have hmod : ((256 ^ bs.length : ℕ) : ℤ) = 256 ^ bs.length := by push_cast; rfl
  have hvalue : signed bs % 256 ^ bs.length = value bs := by
    rw [signed, ← hmod, Int.bmod_emod, hmod, Int.emod_eq_of_lt (by omega) hlt]
  rw [signedBytes, hvalue, Int.toNat_natCast, bytes_value]

/-- Consecutive fields of one width. -/
def frame (width : ℕ) : List ℤ → List UInt8
  | [] => []
  | z :: zs => signedBytes width z ++ frame width zs

/-- The first `n` fields. -/
def fields (width : ℕ) : ℕ → List UInt8 → List ℤ
  | 0, _ => []
  | n + 1, bs => signed (bs.take width) :: fields width n (bs.drop width)

@[simp] theorem length_frame (width : ℕ) (zs : List ℤ) :
    (frame width zs).length = zs.length * width := by
  induction zs with
  | nil => simp [frame]
  | cons z zs ih =>
    rw [frame, List.length_append, length_signedBytes, ih, List.length_cons]
    ring

theorem fields_frame {width : ℕ} {zs : List ℤ} (h : ∀ z ∈ zs, Fits width z) :
    fields width zs.length (frame width zs) = zs := by
  induction zs with
  | nil => rfl
  | cons z zs ih =>
    have hlength := length_signedBytes width z
    have hrest := ih fun x hx => h x (List.mem_cons_of_mem z hx)
    rw [frame, List.length_cons, fields, List.take_left' hlength, List.drop_left' hlength,
      signed_signedBytes (h z List.mem_cons_self), hrest]

theorem frame_fields {width n : ℕ} {bs : List UInt8} (h : bs.length = n * width) :
    frame width (fields width n bs) = bs := by
  induction n generalizing bs with
  | zero =>
    rw [Nat.zero_mul] at h
    rw [List.length_eq_zero_iff.mp h]
    rfl
  | succ n ih =>
    rw [Nat.succ_mul] at h
    have hhead : (bs.take width).length = width := by
      rw [List.length_take]
      omega
    have htail : (bs.drop width).length = n * width := by
      rw [List.length_drop]
      omega
    have hfield := signedBytes_signed (bs.take width)
    rw [hhead] at hfield
    rw [fields, frame, hfield, ih htail, List.take_append_drop]

end Endian
