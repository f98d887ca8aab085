import Mathlib.Data.Rat.Cast.Defs
import RobotFirmware.Library.Float

/-! Arithmetic as a parameter of a computation: the floating-point data of an environment and
the exact numbers of an ordered field are two instances. -/
namespace Fp

/-- What a computation in `float` uses of its numbers. -/
structure Arith (F : Type*) where
  literal : ℚ → F
  ofInt : Int32 → F
  isFinite : F → Bool
  le : F → F → Bool
  add : F → F → F
  sub : F → F → F
  mul : F → F → F
  div : F → F → F
  cosf : F → F
  sinf : F → F

/-- Literals that every format represents. -/
def Env.arith (E : Env) : Arith Datum where
  literal := .finite
  ofInt := E.ofInt
  isFinite := Datum.isFinite
  le := Datum.le
  add := Datum.add E.single
  sub := Datum.sub E.single
  mul := Datum.mul E.single
  div := Datum.div E.single
  cosf := E.cosf
  sinf := E.sinf

/-- Exact arithmetic with any functions in place of cosine and sine. -/
def Arith.exact {K : Type*} [Field K] [LinearOrder K] (cos sin : K → K) : Arith K where
  literal q := q
  ofInt n := n.toInt
  isFinite _ := true
  le a b := decide (a ≤ b)
  add := (· + ·)
  sub := (· - ·)
  mul := (· * ·)
  div := (· / ·)
  cosf := cos
  sinf := sin

end Fp
