import RvToolkit.Fault

namespace RvToolkit.Euclid

/-- Divisor and coefficients. -/
structure Bezout where
  gcd : Int
  x : Int
  y : Int
deriving DecidableEq, Repr

/-- Two consecutive remainders with the coefficients of each. -/
structure Remainders where
  a : Int
  b : Int
  x0 : Int := 1
  x1 : Int := 0
  y0 : Int := 0
  y1 : Int := 1
deriving DecidableEq, Repr

def Remainders.next (r : Remainders) : Remainders :=
  let q := r.a.fdiv r.b
  ⟨r.b, r.a.fmod r.b, r.x1, r.x0 - q * r.x1, r.y1, r.y0 - q * r.y1⟩

theorem natAbs_fmod_lt (a : Int) {b : Int} (h : b ≠ 0) : (a.fmod b).natAbs < b.natAbs := by
  have h1 := Int.emod_nonneg a h
  have h2 := Int.emod_lt a h
  rw [Int.fmod_eq_emod]
  split <;> omega

/-- Divides with remainder until nothing remains. Quotients are rounded down, so that a remainder has
the sign of its divisor. -/
def reduce (r : Remainders) : Remainders :=
  if _h : r.b = 0 then r else reduce r.next
termination_by r.b.natAbs
decreasing_by exact natAbs_fmod_lt r.a _h

/-- The divisor is made positive after the coefficients have been found. -/
def compute (a b : Int) : Bezout :=
  let r := reduce ⟨a, b, 1, 0, 0, 1⟩
  ⟨r.a.natAbs, r.x0, r.y0⟩

def gcd (a b : Int) : Int := (compute a b).gcd

/-- Inverse of `a` modulo `m`. -/
def inverse (a m : Int) : Except Fault Int :=
  let r := compute a m
  if r.gcd ≠ 1 then .error (.value (.noInverse a m r.gcd))
  else if m = 0 then .error (.eval (.moduloByZero .integer))
  else .ok (r.x.fmod m)

def solve (a b c : Int) : Except Fault (Int × Int) :=
  let r := compute a b
  if r.gcd = 0 then .error (.eval (.moduloByZero .integer))
  else if c.fmod r.gcd ≠ 0 then .error (.value (.noSolution a b c r.gcd))
  else
    let k := c.fdiv r.gcd
    .ok (r.x * k, r.y * k)

def lcm (a b : Int) : Int :=
  let g := gcd a b
  if g = 0 then 0 else ((a * b).natAbs : Int).fdiv g

def coprime (a b : Int) : Bool := gcd a b = 1

end RvToolkit.Euclid
