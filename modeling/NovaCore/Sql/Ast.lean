import NovaCore.Executor.Batch
import Mathlib.Data.String.Basic

/-!
# SQL expressions and what they mean

The part of the syntax tree of `sqlparser` that the analyzer looks at, and the meaning of an
expression on a row in three-valued logic.  The meaning is SQL's own: it says nothing about the
analyzer, which `NovaCore.Sql.Analyzer` models.

A number literal keeps its text, as the tokenizer does; its meaning is the exact decimal.

## Main definitions

* `NumberLit`, `Expr` : literals and expressions.
* `Expr.eval` : the value of an expression; `null` is also the unknown truth value.
* `SqlValue.compare` : comparisons, which are unknown for nulls and for values of different kinds.
-/

namespace NovaCore

/-! ### Number literals -/

/-- The number that a nonempty text of decimal digits stands for. -/
def parseDigits (cs : List Char) : Option ℕ :=
  if cs = [] then none
  else cs.foldlM (fun n c => if c.isDigit then some (10 * n + (c.toNat - '0'.toNat)) else none) 0

/-- A text of digits with an optional sign. -/
def parseInt : List Char → Option ℤ
  | '-' :: cs => (parseDigits cs).map fun n => -(n : ℤ)
  | '+' :: cs => (parseDigits cs).map Int.ofNat
  | cs => (parseDigits cs).map Int.ofNat

/-- The value fits in 64 bits. -/
def IsI64 (v : ℤ) : Prop := -2 ^ 63 ≤ v ∧ v < 2 ^ 63

instance (v : ℤ) : Decidable (IsI64 v) := inferInstanceAs (Decidable (_ ∧ _))

/-- `text.parse::<i64>().ok()`. -/
def parseI64 (text : String) : Option ℤ :=
  (parseInt text.toList).filter fun v => decide (IsI64 v)

/-- The value of a decimal with an optional fraction and an optional exponent. -/
def parseDecimal (text : String) : Option ℚ := do
  let notExponent := fun c : Char => c ≠ 'e' && c ≠ 'E'
  let mantissa := text.toList.takeWhile notExponent
  let whole := mantissa.takeWhile (· ≠ '.')
  let fraction := (mantissa.dropWhile (· ≠ '.')).drop 1
  let digits ← parseDigits (whole ++ fraction)
  let exponent ← match text.toList.dropWhile notExponent with
    | [] => some 0
    | _ :: cs => parseInt cs
  return digits * (10 : ℚ) ^ (exponent - fraction.length)

/-- A number literal: its text is a decimal. -/
structure NumberLit where
  text : String
  valid : (parseDecimal text).isSome = true

/-- The value of a number literal. -/
def NumberLit.value (n : NumberLit) : ℚ := (parseDecimal n.text).get n.valid

/-! ### Expressions -/

/-- `sqlparser::ast::Value`. -/
inductive Value
  | number (n : NumberLit)
  | singleQuotedString (s : String)
  | boolean (b : Bool)
  | null
  /-- Any other literal, by its `Debug` text. -/
  | other (debug : String)

/-- `sqlparser::ast::BinaryOperator`. -/
inductive BinaryOperator
  | plus
  | minus
  | multiply
  | divide
  | eq
  | notEq
  | gt
  | gtEq
  | lt
  | ltEq
  | and
  | or
  /-- Any other operator, by its text. -/
  | other (text : String)

/-- `sqlparser::ast::Expr`. -/
inductive Expr
  | identifier (value : String)
  | compoundIdentifier (parts : List String)
  | value (v : Value)
  | binaryOp (left : Expr) (op : BinaryOperator) (right : Expr)
  | minus (e : Expr)
  | not (e : Expr)
  | nested (e : Expr)
  | isNull (e : Expr)
  | isNotNull (e : Expr)
  | between (e : Expr) (negated : Bool) (low high : Expr)
  | inList (e : Expr) (list : List Expr) (negated : Bool)
  /-- Any other expression, by its `Debug` text. -/
  | other (debug : String)

/-! ### Values -/

/-- SQL values; `null` is also the unknown truth value. -/
inductive SqlValue
  | null
  | bool (b : Bool)
  | num (q : ℚ)
  | float (v : F64)
  | text (s : String)
  deriving DecidableEq

namespace SqlValue

/-- The comparison of two values in three-valued logic: `none` is unknown. -/
def compare (op : CmpOp) : SqlValue → SqlValue → Option Bool
  | num a, num b => some (op.eval a b)
  | num a, float b => some (op.evalF64 (.finite a) b)
  | float a, num b => some (op.evalF64 a (.finite b))
  | float a, float b => some (op.evalF64 a b)
  | text a, text b => some (op.eval a b)
  | bool a, bool b => some (op.eval a b)
  | _, _ => none

/-- The truth value of a value. -/
def truth : SqlValue → Option Bool
  | bool b => some b
  | _ => none

/-- A truth value as a value. -/
def ofTruth : Option Bool → SqlValue
  | some b => bool b
  | none => null

/-- NOT in three-valued logic. -/
def not3 : Option Bool → Option Bool := Option.map (!·)

/-- AND in three-valued logic. -/
def and3 : Option Bool → Option Bool → Option Bool
  | some false, _ => some false
  | _, some false => some false
  | some true, some true => some true
  | _, _ => none

/-- OR in three-valued logic. -/
def or3 (a b : Option Bool) : Option Bool := not3 (and3 (not3 a) (not3 b))

/-- Arithmetic on exact numbers. -/
def arith (f : ℚ → ℚ → ℚ) : SqlValue → SqlValue → SqlValue
  | num a, num b => num (f a b)
  | _, _ => null

end SqlValue

/-- The comparison that an operator stands for. -/
def BinaryOperator.cmp? : BinaryOperator → Option CmpOp
  | eq => some .eq
  | notEq => some .ne
  | gt => some .gt
  | gtEq => some .ge
  | lt => some .lt
  | ltEq => some .le
  | _ => none

/-- The value of a literal; `other` gives the meaning of what is not spelled out. -/
def Value.sqlValue (other : String → SqlValue) : Value → SqlValue
  | number n => .num n.value
  | singleQuotedString s => .text s
  | boolean b => .bool b
  | null => .null
  | .other debug => other debug

open SqlValue in
/-- The value of an operator; one without a meaning here takes it from `other`. -/
def BinaryOperator.apply (other : String → SqlValue) (a b : SqlValue) : BinaryOperator → SqlValue
  | plus => arith (· + ·) a b
  | minus => arith (· - ·) a b
  | multiply => arith (· * ·) a b
  | divide => arith (· / ·) a b
  | eq => ofTruth (compare .eq a b)
  | notEq => ofTruth (compare .ne a b)
  | gt => ofTruth (compare .gt a b)
  | gtEq => ofTruth (compare .ge a b)
  | lt => ofTruth (compare .lt a b)
  | ltEq => ofTruth (compare .le a b)
  | and => ofTruth (and3 a.truth b.truth)
  | or => ofTruth (or3 a.truth b.truth)
  | .other name => other name

namespace Expr

open SqlValue

mutual

/-- The meaning of an expression: `column` gives the values of the columns of a row, and `other`
the meaning of what is not spelled out. -/
def eval (column : String → SqlValue) (other : String → SqlValue) : Expr → SqlValue
  | identifier name => column name
  | compoundIdentifier parts => column (parts.getLastD "")
  | .value v => v.sqlValue other
  | binaryOp left op right => op.apply other (left.eval column other) (right.eval column other)
  | minus e => arith (· - ·) (num 0) (e.eval column other)
  | .not e => ofTruth (not3 (e.eval column other).truth)
  | nested e => e.eval column other
  | isNull e => bool (decide (e.eval column other = .null))
  | isNotNull e => bool (decide (e.eval column other ≠ .null))
  | between e negated low high =>
    let v := e.eval column other
    let inside := and3 (compare .ge v (low.eval column other))
      (compare .le v (high.eval column other))
    ofTruth (if negated then not3 inside else inside)
  | inList e list negated =>
    let v := e.eval column other
    let found := anyEqual column other v list
    ofTruth (if negated then not3 found else found)
  | .other debug => other debug
termination_by structural e => e

/-- Whether a value is in a list of expressions. -/
def anyEqual (column : String → SqlValue) (other : String → SqlValue) (v : SqlValue) :
    List Expr → Option Bool
  | [] => some false
  | x :: xs => or3 (compare .eq v (x.eval column other)) (anyEqual column other v xs)
termination_by structural xs => xs

end

/-- A WHERE clause selects the rows on which it is true, and not those on which it is unknown. -/
def IsTrue (column : String → SqlValue) (other : String → SqlValue) (w : Expr) : Prop :=
  w.eval column other = bool true

end Expr

end NovaCore
