/-!
# Fragments of expressions

A fragment is the text of an expression with the tier at which its outermost operator binds; a lower
tier binds tighter. A consumer names the loosest tier that it takes as it stands, and puts anything
looser between parentheses.
-/

namespace BlockMusic

/-- The named tiers of the script's expressions. -/
inductive Precedence where
  | atomic
  | functionCall
  | unary
  | multiplicative
  | additive
  | concatenation
  | none
  deriving DecidableEq, Repr

namespace Precedence

def all : List Precedence :=
  [.atomic, .functionCall, .unary, .multiplicative, .additive, .concatenation, .none]

def rank : Precedence → Int
  | .atomic => 0
  | .functionCall => 1
  | .unary => 2
  | .multiplicative => 3
  | .additive => 4
  | .concatenation => 5
  | .none => 99

def label : Precedence → String
  | .atomic => "ATOMIC"
  | .functionCall => "FUNCTION_CALL"
  | .unary => "UNARY"
  | .multiplicative => "MULTIPLICATIVE"
  | .additive => "ADDITIVE"
  | .concatenation => "CONCATENATION"
  | .none => "NONE"

def ofRank? (n : Int) : Option Precedence := all.find? fun p => p.rank = n

@[simp] theorem ofRank?_rank (p : Precedence) : ofRank? p.rank = some p := by
  cases p <;> rfl

end Precedence

/-- A tier: a named one, or a bare number. -/
inductive Tier where
  | named (p : Precedence)
  | number (n : Int)
  deriving DecidableEq, Repr

def Tier.rank : Tier → Int
  | .named p => p.rank
  | .number n => n

/-- The text of an expression and the tier of its outermost operator. -/
structure Fragment where
  text : String
  tier : Tier
  deriving DecidableEq, Repr

namespace Fragment

def atom (text : String) : Fragment := ⟨text, .named .atomic⟩

/-- The fragment of an input that has no text. -/
def empty : Fragment := atom ""

/-- The fragment as an operand of a consumer that takes tiers up to `consumer`. An empty text is
never put between parentheses. -/
def asOperand (f : Fragment) (consumer : Int) : Fragment :=
  if f.text ≠ "" ∧ consumer < f.tier.rank then atom ("(" ++ f.text ++ ")") else f

@[simp] theorem asOperand_empty (consumer : Int) : empty.asOperand consumer = empty := by
  simp [asOperand, empty, atom]

theorem asOperand_of_rank_le {f : Fragment} {consumer : Int} (h : f.tier.rank ≤ consumer) :
    f.asOperand consumer = f := by
  rw [asOperand, if_neg]
  omega

end Fragment

end BlockMusic
