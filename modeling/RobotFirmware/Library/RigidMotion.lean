import Mathlib.Algebra.CharZero.Defs
import Mathlib.Data.List.Basic
import Mathlib.Tactic.FieldSimp
import Mathlib.Tactic.Ring

/-! Poses in the plane that advance along the heading half-way through each turn: how a path is
undone, and how it looks from another origin. The functions in place of cosine and sine are
arbitrary until a section assumes their addition formulas. -/
namespace Planar

variable {K : Type*}

@[ext]
structure Pose (K : Type*) where
  x : K
  y : K
  yaw : K

/-- One stretch of a path: its length and the turn it makes. -/
structure Arc (K : Type*) where
  distance : K
  turn : K

variable [Field K] (cos sin : K → K)

def Pose.origin : Pose K := ⟨0, 0, 0⟩

def Pose.advance (p : Pose K) (a : Arc K) : Pose K where
  x := p.x + a.distance * cos (p.yaw + a.turn / 2)
  y := p.y + a.distance * sin (p.yaw + a.turn / 2)
  yaw := p.yaw + a.turn

def mean (a b : K) : K := (a + b) / 2

/-- The arc of a drive whose two sides have gone these distances, each side `halfTrack` away from
the middle. -/
def Arc.ofSides (halfTrack left right : K) : Arc K :=
  ⟨mean left right, (right - left) / (2 * halfTrack)⟩

def Pose.along (p : Pose K) (path : List (Arc K)) : Pose K :=
  path.foldl (Pose.advance cos sin) p

@[simp] theorem Pose.along_nil (p : Pose K) : p.along cos sin [] = p := rfl

@[simp] theorem Pose.along_cons (p : Pose K) (a : Arc K) (path : List (Arc K)) :
    p.along cos sin (a :: path) = (p.advance cos sin a).along cos sin path := rfl

theorem Pose.along_append (p : Pose K) (path next : List (Arc K)) :
    p.along cos sin (path ++ next) = (p.along cos sin path).along cos sin next :=
  List.foldl_append

def Arc.back (a : Arc K) : Arc K := ⟨-a.distance, -a.turn⟩

theorem mean_neg (a b : K) : mean (-a) (-b) = -mean a b := by
  unfold mean
  ring

theorem Arc.ofSides_neg (halfTrack left right : K) :
    Arc.ofSides halfTrack (-left) (-right) = (Arc.ofSides halfTrack left right).back := by
  have hturn : (-right - -left) / (2 * halfTrack) = -((right - left) / (2 * halfTrack)) := by ring
  unfold Arc.ofSides Arc.back
  dsimp only
  rw [mean_neg, hturn]

variable {cos sin} in
/-- Both ways pass the middle of the turn with the same heading. -/
theorem Pose.advance_back [CharZero K] (p : Pose K) (a : Arc K) :
    (p.advance cos sin a).advance cos sin a.back = p := by
  have hmiddle : p.yaw + a.turn + -a.turn / 2 = p.yaw + a.turn / 2 := by
    field_simp
    ring
  unfold Pose.advance Arc.back
  dsimp only
  rw [hmiddle]
  ext
  · ring
  · ring
  · ring

variable {cos sin} in
/-- The way back along a path ends where the path started. -/
theorem Pose.along_back [CharZero K] (p : Pose K) (path : List (Arc K)) :
    (p.along cos sin path).along cos sin (path.reverse.map Arc.back) = p := by
  induction path generalizing p with
  | nil => rfl
  | cons a path ih =>
    rw [List.reverse_cons, List.map_append, Pose.along_append, Pose.along_cons, ih]
    exact Pose.advance_back p a

structure AngleAddition : Prop where
  cos_add (a b : K) : cos (a + b) = cos a * cos b - sin a * sin b
  sin_add (a b : K) : sin (a + b) = sin a * cos b + cos a * sin b

/-- The pose that is `q` as seen from `p`. -/
def Pose.compose (p q : Pose K) : Pose K where
  x := p.x + cos p.yaw * q.x - sin p.yaw * q.y
  y := p.y + sin p.yaw * q.x + cos p.yaw * q.y
  yaw := p.yaw + q.yaw

@[simp] theorem Pose.compose_origin (p : Pose K) : p.compose cos sin .origin = p := by
  ext
  · simp [Pose.compose, Pose.origin]
  · simp [Pose.compose, Pose.origin]
  · simp [Pose.compose, Pose.origin]

variable {cos sin} (h : AngleAddition cos sin)
include h

theorem Pose.compose_advance (p q : Pose K) (a : Arc K) :
    (p.compose cos sin q).advance cos sin a = p.compose cos sin (q.advance cos sin a) := by
  have hheading : p.yaw + q.yaw + a.turn / 2 = p.yaw + (q.yaw + a.turn / 2) := by ring
  unfold Pose.advance Pose.compose
  dsimp only
  rw [hheading, h.cos_add p.yaw, h.sin_add p.yaw]
  ext
  · ring
  · ring
  · ring

theorem Pose.compose_along (p q : Pose K) (path : List (Arc K)) :
    (p.compose cos sin q).along cos sin path = p.compose cos sin (q.along cos sin path) := by
  induction path generalizing q with
  | nil => rfl
  | cons a path ih => rw [Pose.along_cons, Pose.compose_advance h, ih, Pose.along_cons]

/-- A path looks the same from every pose it may start from. -/
theorem Pose.along_eq_compose (p : Pose K) (path : List (Arc K)) :
    p.along cos sin path = p.compose cos sin (Pose.origin.along cos sin path) := by
  have hcomposed := Pose.compose_along h p .origin path
  rwa [Pose.compose_origin] at hcomposed

end Planar
