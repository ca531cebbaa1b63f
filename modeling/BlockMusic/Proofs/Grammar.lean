import BlockMusic.Fragment
import Mathlib.Data.List.Forall2

/-!
# The grammar of expressions

An expression of the script is an operand, a product, a sum or a join. An operand is a literal, a list
in brackets, a power written as a call, or an expression in parentheses; `*` and `/` bind tightest,
then `+` and `-`, then `<>`, and all of them from left to right. `Derives p ts e` says that the tokens
`ts` are a phrase of sort `p` with the tree `e`, in which parentheses leave no trace.

The grammar is unambiguous. A reader that keeps the operands still waiting for their right side, one
for each strength of binding, reads every phrase token by token and without a choice, and the tree of
the phrase can be read off its state.
-/

namespace BlockMusic.Script

/-- The operators of arithmetic. -/
inductive Operator where
  | add
  | subtract
  | multiply
  | divide
  deriving DecidableEq, Repr

/-- The operator makes products, not sums. -/
def Operator.isProduct : Operator → Bool
  | .add => false
  | .subtract => false
  | .multiply => true
  | .divide => true

/-- The tree of an expression. A number is kept as it is written. -/
inductive Expr where
  | text (s : String)
  | number (numeral : String)
  | truth (b : Bool)
  | list (items : List Expr)
  | power (base exponent : Expr)
  | binary (o : Operator) (left right : Expr)
  | join (left right : Expr)

/-- Equality of trees up to the way in which joins are grouped. -/
inductive Expr.Regrouped : Expr → Expr → Prop
  | refl (e : Expr) : Regrouped e e
  | symm {a b : Expr} : Regrouped a b → Regrouped b a
  | trans {a b c : Expr} : Regrouped a b → Regrouped b c → Regrouped a c
  | assoc (a b c : Expr) : Regrouped (.join (.join a b) c) (.join a (.join b c))
  | join {a a' b b' : Expr} : Regrouped a a' → Regrouped b b' → Regrouped (.join a b) (.join a' b')
  | binary (o : Operator) {a a' b b' : Expr} :
      Regrouped a a' → Regrouped b b' → Regrouped (.binary o a b) (.binary o a' b')
  | power {a a' b b' : Expr} :
      Regrouped a a' → Regrouped b b' → Regrouped (.power a b) (.power a' b')
  | item (before after : List Expr) {a a' : Expr} :
      Regrouped a a' → Regrouped (.list (before ++ a :: after)) (.list (before ++ a' :: after))

/-- Lists are regrouped item by item. -/
theorem Expr.Regrouped.list {es es' : List Expr} (h : List.Forall₂ Expr.Regrouped es es') :
    Expr.Regrouped (.list es) (.list es') := by
  have key : ∀ before : List Expr,
      Expr.Regrouped (.list (before ++ es)) (.list (before ++ es')) := by
    induction h with
    | nil => exact fun before => .refl _
    | @cons a a' es es' ha _ ih =>
        intro before
        have htail := ih (before ++ [a'])
        rw [List.append_assoc, List.append_assoc] at htail
        exact (Expr.Regrouped.item before es ha).trans htail
  exact key []

/-- The tokens of the script's expressions. -/
inductive Token where
  | text (s : String)
  | number (numeral : String)
  | truth (b : Bool)
  | power
  | operator (o : Operator)
  | join
  | comma
  | openGroup
  | closeGroup
  | openList
  | closeList
  deriving DecidableEq

/-- The sorts of phrases. -/
inductive Phrase where
  | operand
  | product
  | sum
  | joined
  /-- Expressions with commas between them. -/
  | items
  deriving DecidableEq

/-- The tokens are a phrase of the given sort and tree. -/
inductive Derives : Phrase → List Token → Expr → Prop
  | text (s : String) : Derives .operand [.text s] (.text s)
  | number (s : String) : Derives .operand [.number s] (.number s)
  | truth (b : Bool) : Derives .operand [.truth b] (.truth b)
  | group {ts : List Token} {e : Expr} :
      Derives .joined ts e → Derives .operand (.openGroup :: ts ++ [.closeGroup]) e
  | emptyList : Derives .operand [.openList, .closeList] (.list [])
  | list {ts : List Token} {es : List Expr} :
      Derives .items ts (.list es) → Derives .operand (.openList :: ts ++ [.closeList]) (.list es)
  | power {ts us : List Token} {a b : Expr} : Derives .joined ts a → Derives .joined us b →
      Derives .operand (.power :: .openGroup :: ts ++ .comma :: us ++ [.closeGroup]) (.power a b)
  | operand {ts : List Token} {e : Expr} : Derives .operand ts e → Derives .product ts e
  | multiply {ts us : List Token} {a b : Expr} {o : Operator} (h : o.isProduct = true) :
      Derives .product ts a → Derives .operand us b →
      Derives .product (ts ++ .operator o :: us) (.binary o a b)
  | product {ts : List Token} {e : Expr} : Derives .product ts e → Derives .sum ts e
  | add {ts us : List Token} {a b : Expr} {o : Operator} (h : o.isProduct = false) :
      Derives .sum ts a → Derives .product us b →
      Derives .sum (ts ++ .operator o :: us) (.binary o a b)
  | sum {ts : List Token} {e : Expr} : Derives .sum ts e → Derives .joined ts e
  | join {ts us : List Token} {a b : Expr} : Derives .joined ts a → Derives .sum us b →
      Derives .joined (ts ++ .join :: us) (.join a b)
  | item {ts : List Token} {e : Expr} : Derives .joined ts e → Derives .items ts (.list [e])
  | items {ts us : List Token} {e : Expr} {es : List Expr} :
      Derives .joined ts e → Derives .items us (.list es) →
      Derives .items (ts ++ .comma :: us) (.list (e :: es))

/-- Two joined phrases with `<>` between them are one, up to grouping. -/
theorem Derives.join_joined {ts us : List Token} {a b : Expr} (ha : Derives .joined ts a)
    (hb : Derives .joined us b) :
    ∃ e, Derives .joined (ts ++ .join :: us) e ∧ e.Regrouped (.join a b) := by
  generalize hp : Phrase.joined = p at hb
  induction hb with
  | sum hb => exact ⟨.join a _, .join ha hb, .refl _⟩
  | @join us vs b b' _ hb' ih _ =>
      obtain ⟨e, he, hregrouped⟩ := ih hp
      refine ⟨.join e b', ?_, ?_⟩
      · have htokens : ts ++ .join :: (us ++ .join :: vs) = (ts ++ .join :: us) ++ .join :: vs := by
          simp
        rw [htokens]
        exact .join he hb'
      · exact (Expr.Regrouped.join hregrouped (.refl b')).trans (.assoc a b b')
  | _ => cases hp

/-! ## Reading token by token -/

/-- The operands inside one pair of brackets that wait for their right side. -/
structure Waiting where
  joined : Option Expr := none
  added : Option (Expr × Operator) := none
  multiplied : Option (Expr × Operator) := none

namespace Waiting

/-- The product that an operand completes. -/
def product (w : Waiting) (e : Expr) : Expr :=
  match w.multiplied with
  | none => e
  | some (a, o) => .binary o a e

/-- The sum that an operand completes. -/
def sum (w : Waiting) (e : Expr) : Expr :=
  match w.added with
  | none => w.product e
  | some (a, o) => .binary o a (w.product e)

/-- The whole expression that an operand completes. -/
def whole (w : Waiting) (e : Expr) : Expr :=
  match w.joined with
  | none => w.sum e
  | some a => .join a (w.sum e)

end Waiting

/-- An opened bracket, with what waits outside of it. -/
inductive Bracket where
  | group (outside : Waiting)
  | list (outside : Waiting) (items : List Expr)
  | base (outside : Waiting)
  | exponent (outside : Waiting) (base : Expr)

/-- The state of the reader: before an operand, behind one, or behind the name of a call. -/
inductive Reading where
  | before (w : Waiting) (brackets : List Bracket)
  | behind (w : Waiting) (e : Expr) (brackets : List Bracket)
  | called (w : Waiting) (brackets : List Bracket)

/-- One token. -/
def readToken : Reading → Token → Option Reading
  | .before w bs, .text s => some (.behind w (.text s) bs)
  | .before w bs, .number s => some (.behind w (.number s) bs)
  | .before w bs, .truth b => some (.behind w (.truth b) bs)
  | .before w bs, .openGroup => some (.before {} (.group w :: bs))
  | .before w bs, .openList => some (.before {} (.list w [] :: bs))
  | .before w bs, .power => some (.called w bs)
  | .before _ (.list w [] :: bs), .closeList => some (.behind w (.list []) bs)
  | .called w bs, .openGroup => some (.before {} (.base w :: bs))
  | .behind w e bs, .operator o =>
    if o.isProduct then some (.before { w with multiplied := some (w.product e, o) } bs)
    else some (.before { w with added := some (w.sum e, o), multiplied := none } bs)
  | .behind w e bs, .join => some (.before { joined := some (w.whole e) } bs)
  | .behind w e (.group out :: bs), .closeGroup => some (.behind out (w.whole e) bs)
  | .behind w e (.base out :: bs), .comma => some (.before {} (.exponent out (w.whole e) :: bs))
  | .behind w e (.exponent out a :: bs), .closeGroup => some (.behind out (.power a (w.whole e)) bs)
  | .behind w e (.list out items :: bs), .comma =>
    some (.before {} (.list out (items ++ [w.whole e]) :: bs))
  | .behind w e (.list out items :: bs), .closeList =>
    some (.behind out (.list (items ++ [w.whole e])) bs)
  | _, _ => none

/-- Token after token. -/
def readTokens : Reading → List Token → Option Reading
  | s, [] => some s
  | s, t :: ts => (readToken s t).bind fun s' => readTokens s' ts

@[simp] theorem readTokens_nil (s : Reading) : readTokens s [] = some s := rfl

@[simp] theorem readTokens_cons (s : Reading) (t : Token) (ts : List Token) :
    readTokens s (t :: ts) = (readToken s t).bind fun s' => readTokens s' ts := rfl

@[simp] theorem readTokens_append (s : Reading) (ts us : List Token) :
    readTokens s (ts ++ us) = (readTokens s ts).bind fun s' => readTokens s' us := by
  induction ts generalizing s with
  | nil => rfl
  | cons t ts ih =>
      rw [List.cons_append, readTokens_cons, readTokens_cons]
      cases readToken s t with
      | none => rfl
      | some s' => exact ih s'

/-- What reading a phrase leaves behind, given how much may wait in front of it. -/
def ReadsOff : Phrase → List Token → Expr → Prop
  | .operand, ts, e => ∀ w bs, readTokens (.before w bs) ts = some (.behind w e bs)
  | .product, ts, e => ∀ j a bs, ∃ w x,
      readTokens (.before ⟨j, a, none⟩ bs) ts = some (.behind w x bs) ∧
        w.joined = j ∧ w.added = a ∧ w.product x = e
  | .sum, ts, e => ∀ j bs, ∃ w x,
      readTokens (.before ⟨j, none, none⟩ bs) ts = some (.behind w x bs) ∧
        w.joined = j ∧ w.sum x = e
  | .joined, ts, e => ∀ bs, ∃ w x,
      readTokens (.before {} bs) ts = some (.behind w x bs) ∧ w.whole x = e
  | .items, ts, e => ∀ out items bs, ∃ w x front,
      readTokens (.before {} (.list out items :: bs)) ts =
          some (.behind w x (.list out (items ++ front) :: bs)) ∧
        e = .list (front ++ [w.whole x])

/-- Every phrase is read off as its tree. -/
theorem Derives.readsOff {p : Phrase} {ts : List Token} {e : Expr} (h : Derives p ts e) :
    ReadsOff p ts e := by
  induction h with
  | text s => exact fun w bs => rfl
  | number s => exact fun w bs => rfl
  | truth b => exact fun w bs => rfl
  | emptyList => exact fun w bs => rfl
  | group _ ih =>
      intro w bs
      obtain ⟨w', x, hread, hwhole⟩ := ih (.group w :: bs)
      simp [readToken, hread, hwhole]
  | list _ ih =>
      intro w bs
      obtain ⟨w', x, front, hread, hlist⟩ := ih w [] bs
      cases hlist
      simp [readToken, hread]
  | @power ts us a b _ _ iha ihb =>
      intro w bs
      obtain ⟨wa, xa, hreadA, ha⟩ := iha (.base w :: bs)
      obtain ⟨wb, xb, hreadB, hb⟩ := ihb (.exponent w a :: bs)
      simp [readToken, hreadA, hreadB, ha, hb]
  | operand _ ih =>
      intro j a bs
      exact ⟨⟨j, a, none⟩, _, ih _ bs, rfl, rfl, rfl⟩
  | @multiply ts us a b o ho _ _ iha ihb =>
      intro j ad bs
      obtain ⟨w, x, hread, hj, had, hx⟩ := iha j ad bs
      refine ⟨{ w with multiplied := some (a, o) }, b, ?_, hj, had, rfl⟩
      simp [hread, readToken, ho, hx, ihb _ bs]
  | product _ ih =>
      intro j bs
      obtain ⟨w, x, hread, hj, had, hx⟩ := ih j none bs
      refine ⟨w, x, hread, hj, ?_⟩
      rw [Waiting.sum, had]
      exact hx
  | @add ts us a b o ho _ _ iha ihb =>
      intro j bs
      obtain ⟨w, x, hread, hj, hx⟩ := iha j bs
      obtain ⟨w', x', hread', hj', had', hx'⟩ := ihb w.joined (some (a, o)) bs
      refine ⟨w', x', ?_, hj'.trans hj, ?_⟩
      · simp [hread, readToken, ho, hx, hread']
      · rw [Waiting.sum, had']
        exact congrArg (Expr.binary o a) hx'
  | sum _ ih =>
      intro bs
      obtain ⟨w, x, hread, hj, hx⟩ := ih none bs
      refine ⟨w, x, hread, ?_⟩
      rw [Waiting.whole, hj]
      exact hx
  | @join ts us a b _ _ iha ihb =>
      intro bs
      obtain ⟨w, x, hread, hx⟩ := iha bs
      obtain ⟨w', x', hread', hj', hx'⟩ := ihb (some a) bs
      refine ⟨w', x', ?_, ?_⟩
      · simp [hread, readToken, hx, hread']
      · rw [Waiting.whole, hj']
        exact congrArg (Expr.join a) hx'
  | item _ ih =>
      intro out items bs
      obtain ⟨w, x, hread, hx⟩ := ih (.list out items :: bs)
      refine ⟨w, x, [], ?_, ?_⟩
      · rw [hread, List.append_nil]
      · rw [hx, List.nil_append]
  | @items ts us e es _ _ ihe ihes =>
      intro out items bs
      obtain ⟨w, x, hread, hx⟩ := ihe (.list out items :: bs)
      obtain ⟨w', x', front, hread', hlist⟩ := ihes out (items ++ [e]) bs
      cases hlist
      refine ⟨w', x', e :: front, ?_, rfl⟩
      simp [hread, readToken, hx, hread']

theorem Derives.joined_of {p : Phrase} {ts : List Token} {e : Expr} (h : Derives p ts e)
    (hp : p ≠ .items) : Derives .joined ts e := by
  cases p with
  | operand => exact .sum (.product (.operand h))
  | product => exact .sum (.product h)
  | sum => exact .sum h
  | joined => exact h
  | items => exact absurd rfl hp

/-- The grammar is unambiguous: tokens have at most one tree. -/
theorem Derives.unique {ts : List Token} {e e' : Expr} (h : Derives .joined ts e)
    (h' : Derives .joined ts e') : e = e' := by
  obtain ⟨w, x, hread, hx⟩ := h.readsOff []
  obtain ⟨w', x', hread', hx'⟩ := h'.readsOff []
  rw [hread] at hread'
  cases hread'
  rw [← hx, ← hx']

end BlockMusic.Script
