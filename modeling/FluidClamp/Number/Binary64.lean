/-
  FluidClamp.Number.Binary64
  ──────────────────────────
  **BINARY64 NUMBERS AS EXACT RATIONALS.**

  The magnitudes of the finite binary64 numbers, sorted, are numbered by their
  *rank*: 0 for zero, 1 for the smallest positive number, and so on without a
  gap up to `rankCount − 1`.  The rank is the number's bit pattern without the
  sign, its parity is the parity of the significand, and the rank after the last
  one is that of infinity.  Magnitudes are measured in the smallest positive
  number, 2^−1074, called a *step*; with `s = r / 2^52 − 1` (zero below that),

      steps r  =  (r − s · 2^52) · 2^s

  Each operation takes the exact rational result of its operands and rounds it
  once, to the nearest rank with ties to the even one (`Binary64.ofRat`).  Signs
  of zero, infinities and not-a-number follow the usual rules.
-/
import FluidClamp.Number.Rounding

namespace FluidClamp

/-! ## §1. The type and its exact values. -/

/-- How many ranks a binade holds, 2^52. -/
def Binary64.binade : Nat := 0x10000000000000

/-- How many magnitudes are finite; also the rank of infinity. -/
def Binary64.rankCount : Nat := 2047 * binade

/-- A binary64 number: one not-a-number, two infinities, and the finite numbers
by sign and rank (so zero has two signs). -/
inductive Binary64 where
  | nan
  | infinite (negative : Bool)
  | finite (negative : Bool) (rank : Fin Binary64.rankCount)
  deriving Repr, DecidableEq

namespace Binary64

/-- The magnitude of a rank, counted in steps of 2^−1074. -/
def steps (rank : Nat) : Nat :=
  (rank - (rank / binade - 1) * binade) * Nat.pow 2 (rank / binade - 1)

/-- How many steps make one. -/
def stepsPerOne : Nat := Nat.pow 2 1074

/-- The exact value of a finite number. -/
def finiteValue (negative : Bool) (rank : Nat) : Rat :=
  let magnitude := mkRat (steps rank) stepsPerOne
  if negative then -magnitude else magnitude

/-- **The exact value**, if the number is finite. -/
def toRat? : Binary64 → Option Rat
  | .finite negative rank => some (finiteValue negative rank)
  | _ => none

def isFinite : Binary64 → Bool
  | .finite _ _ => true
  | _ => false

/-- The sign that is written in front of the number. -/
def isNegative : Binary64 → Bool
  | .nan => false
  | .infinite negative => negative
  | .finite negative _ => negative

/-! ## §2. Rounding to the nearest number. -/

/-- The rank nearest to `num / den` steps, ties to the even rank.  One binade
holds 2^52 ranks; a quotient that rounds up out of its binade lands on the first
rank of the next. -/
def nearestRank (num den : Nat) : Nat :=
  let shift := (num / den).log2 - 52
  shift * binade + roundDiv .toEven num (den * Nat.pow 2 shift)

/-- The number of the given sign whose magnitude is nearest to `num / den`. -/
def ofQuotient (negative : Bool) (num den : Nat) : Binary64 :=
  let rank := nearestRank (num * stepsPerOne) den
  if h : rank < rankCount then .finite negative ⟨rank, h⟩ else .infinite negative

/-- **The nearest number** to a rational.  A nonzero rational keeps its sign also
where it rounds to zero; zero takes the sign it is given. -/
def ofRat (negativeZero : Bool) (q : Rat) : Binary64 :=
  ofQuotient (if q = 0 then negativeZero else decide (q < 0)) q.num.natAbs q.den

/-- The nearest number to a whole number. -/
def ofNat (n : Nat) : Binary64 := ofQuotient false n 1

def zero : Binary64 := .finite false ⟨0, by decide⟩

/-! ## §3. Signs and order. -/

def neg : Binary64 → Binary64
  | .nan => .nan
  | .infinite negative => .infinite (!negative)
  | .finite negative rank => .finite (!negative) rank

def abs : Binary64 → Binary64
  | .nan => .nan
  | .infinite _ => .infinite false
  | .finite _ rank => .finite false rank

/-- The place in the order of the numbers; the two zeros share one. -/
def place? : Binary64 → Option Int
  | .nan => none
  | .infinite negative => some (signed negative rankCount)
  | .finite negative rank => some (signed negative rank)
where
  signed (negative : Bool) (rank : Nat) : Int :=
    if negative then -(rank : Int) else rank

/-- Compare two places; not-a-number compares with nothing. -/
def compares (holds : Int → Int → Bool) (x y : Binary64) : Bool :=
  match x.place?, y.place? with
  | some i, some j => holds i j
  | _, _ => false

def lt : Binary64 → Binary64 → Bool := compares fun i j => decide (i < j)

def le : Binary64 → Binary64 → Bool := compares fun i j => decide (i ≤ j)

/-- Numerical equality: the two zeros are equal, not-a-number equals nothing. -/
def equal : Binary64 → Binary64 → Bool := compares fun i j => decide (i = j)

/-- The smaller of two numbers, or the one that is a number. -/
def min (x y : Binary64) : Binary64 :=
  if x = .nan then y else if y = .nan then x else if y.lt x then y else x

/-- The larger of two numbers, or the one that is a number. -/
def max (x y : Binary64) : Binary64 :=
  if x = .nan then y else if y = .nan then x else if x.lt y then y else x

/-! ## §4. Arithmetic. -/

/-- The sum.  Zero is negative only as the sum of two negative zeros. -/
def add : Binary64 → Binary64 → Binary64
  | .nan, _ | _, .nan => .nan
  | .infinite s, .infinite t => if s = t then .infinite s else .nan
  | .infinite s, .finite _ _ => .infinite s
  | .finite _ _, .infinite t => .infinite t
  | .finite s i, .finite t j => ofRat (s && t) (finiteValue s i + finiteValue t j)

def sub (x y : Binary64) : Binary64 := x.add y.neg

def mul : Binary64 → Binary64 → Binary64
  | .nan, _ | _, .nan => .nan
  | .infinite s, .infinite t => .infinite (s != t)
  | .infinite s, .finite t j => if j.val = 0 then .nan else .infinite (s != t)
  | .finite s i, .infinite t => if i.val = 0 then .nan else .infinite (s != t)
  | .finite s i, .finite t j => ofRat (s != t) (finiteValue s i * finiteValue t j)

def div : Binary64 → Binary64 → Binary64
  | .nan, _ | _, .nan => .nan
  | .infinite _, .infinite _ => .nan
  | .infinite s, .finite t _ => .infinite (s != t)
  | .finite s _, .infinite t => .finite (s != t) ⟨0, by decide⟩
  | .finite s i, .finite t j =>
      if j.val = 0 then
        if i.val = 0 then .nan else .infinite (s != t)
      else ofRat (s != t) (finiteValue s i / finiteValue t j)

/-- The whole part: the fraction is dropped, the sign kept. -/
def trunc : Binary64 → Binary64
  | .finite s i => ofQuotient s (steps i / stepsPerOne) 1
  | x => x

instance : Add Binary64 := ⟨add⟩
instance : Sub Binary64 := ⟨sub⟩
instance : Mul Binary64 := ⟨mul⟩
instance : Div Binary64 := ⟨div⟩
instance : Neg Binary64 := ⟨neg⟩

theorem neg_neg (x : Binary64) : x.neg.neg = x := by
  cases x <;> simp [neg]

theorem sub_eq_add_neg (x y : Binary64) : x - y = x + -y := rfl

/-! ## §5. Words. -/

/-- The weight of the top bit of a 64-bit word. -/
def signWeight : Nat := 0x8000000000000000

/-- The number that a 64-bit word stands for: the top bit is the sign, the rest
the rank, infinity's rank or, above that, not-a-number. -/
def ofWord (word : Nat) : Binary64 :=
  let negative := decide (word / signWeight % 2 = 1)
  let rank := word % signWeight
  if h : rank < rankCount then .finite negative ⟨rank, h⟩
  else if rank = rankCount then .infinite negative
  else .nan

/-- The 64-bit word of a number; not-a-number has the quiet word. -/
def toWord : Binary64 → Nat
  | .nan => rankCount + binade / 2
  | .infinite negative => signBit negative + rankCount
  | .finite negative rank => signBit negative + rank
where
  signBit (negative : Bool) : Nat := if negative then signWeight else 0

end Binary64

end FluidClamp
