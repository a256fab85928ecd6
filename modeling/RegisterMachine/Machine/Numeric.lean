import RegisterMachine.Error
import RegisterMachine.Opcode
import RegisterMachine.Value

/-!
# Arithmetic

The arithmetic of the four number types.  Whole numbers wrap around, division goes toward zero,
and a division by zero or a negative power of zero fails.  Floating-point operations never fail.
-/

namespace RegisterMachine

/-- A number type that instructions work on. -/
class Numeric (α : Type) where
  type : NumType
  ofValue? : Value → Option α
  toValue : α → Value
  arith : Arith → α → α → Except Error α
  neg : α → α
  compare : Comparison → α → α → Bool

/-- `result * base ^ exponent` by repeated squaring. -/
def squareAndMultiply {α : Type} [Mul α] (result base : α) (exponent : Nat) : α :=
  if exponent = 0 then result
  else
    squareAndMultiply (if exponent % 2 = 1 then result * base else result) (base * base)
      (exponent / 2)
termination_by exponent

/-- Whether a comparison holds, in terms of "equal", "less" and "at most". -/
def Comparison.holds {α : Type} (op : Comparison) (equal less atMost : α → α → Bool) (a b : α) :
    Bool :=
  match op with
  | .lt => less a b
  | .le => atMost a b
  | .gt => less b a
  | .ge => atMost b a
  | .eq => equal a b
  | .neq => !equal a b

/-- A whole power.  A negative power is `1 / a ^ n` with the fraction cut off. -/
def wholePower {α : Type} [DecidableEq α] [Mul α] [Mod α] [Neg α] [OfNat α 0] [OfNat α 1]
    [OfNat α 2] (toInt : α → Int) (a b : α) : Except Error α :=
  if 0 ≤ toInt b then .ok (squareAndMultiply 1 a (toInt b).toNat)
  else if a = 0 then .error .divisionByZero
  else if a = 1 then .ok 1
  else if a = -1 then .ok (if b % 2 = 0 then 1 else -1)
  else .ok 0

instance : Numeric Int32 where
  type := .i32
  ofValue? | .i32 n => some n | _ => none
  toValue := .i32
  arith
    | .add, a, b => .ok (a + b)
    | .sub, a, b => .ok (a - b)
    | .mult, a, b => .ok (a * b)
    | .pow, a, b => wholePower Int32.toInt a b
    | .div, a, b => if b = 0 then .error .divisionByZero else .ok (a / b)
  neg a := -a
  compare op := op.holds (fun a b => a == b) (fun a b => a < b) (fun a b => a ≤ b)

instance : Numeric Int64 where
  type := .i64
  ofValue? | .i64 n => some n | _ => none
  toValue := .i64
  arith
    | .add, a, b => .ok (a + b)
    | .sub, a, b => .ok (a - b)
    | .mult, a, b => .ok (a * b)
    | .pow, a, b => wholePower Int64.toInt a b
    | .div, a, b => if b = 0 then .error .divisionByZero else .ok (a / b)
  neg a := -a
  compare op := op.holds (fun a b => a == b) (fun a b => a < b) (fun a b => a ≤ b)

instance : Numeric Binary32 where
  type := .f32
  ofValue? | .f32 x => some x | _ => none
  toValue := .f32
  arith
    | .add, a, b => .ok (a.add b)
    | .sub, a, b => .ok (a.sub b)
    | .mult, a, b => .ok (a.mul b)
    | .pow, a, b => .ok (a.pow b)
    | .div, a, b => .ok (a.div b)
  neg := Binary32.neg
  compare op := op.holds Binary32.eq Binary32.lt Binary32.le

instance : Numeric Binary64 where
  type := .f64
  ofValue? | .f64 x => some x | _ => none
  toValue := .f64
  arith
    | .add, a, b => .ok (a.add b)
    | .sub, a, b => .ok (a.sub b)
    | .mult, a, b => .ok (a.mul b)
    | .pow, a, b => .ok (a.pow b)
    | .div, a, b => .ok (a.div b)
  neg := Binary64.neg
  compare op := op.holds Binary64.eq Binary64.lt Binary64.le

end RegisterMachine
