import BlockMusic.Proofs.Drafts
import BlockMusic.Proofs.Run
import BlockMusic.Proofs.Tokens

/-!
# What the writers of values write

A value node stands for an operator over the values of its inputs. Each writer asks for its operands
at a tier and names the tier of what it writes, and a fragment that is looser than asked for is put
between parentheses. So a fragment is always a phrase of its tier, and its tree is that of the node.
Where nothing is written, the node holds an integer with too many digits.
-/

namespace BlockMusic

open Script (Expr Reads Phrase Derives)

namespace Script

/-- The text is a phrase of the given sort, and whatever tree it has is `e` up to the grouping of
joins. -/
def ReadsAs (p : Phrase) (s : String) (e : Expr) : Prop :=
  ∃ ts, tokens? s = some ts ∧ (∃ e', Derives p ts e') ∧
    ∀ e', Derives .joined ts e' → e'.Regrouped e

theorem Derives.ne_nil {p : Phrase} {ts : List Token} {e : Expr} (h : Derives p ts e) : ts ≠ [] := by
  induction h with
  | operand _ ih => exact ih
  | product _ ih => exact ih
  | sum _ ih => exact ih
  | item _ ih => exact ih
  | _ => simp

namespace Reads

theorem tokens {p : Phrase} {s : String} {e : Expr} (h : Reads p s e) :
    ∃ ts e', tokens? s = some ts ∧ Derives p ts e' ∧ e'.Regrouped e := by
  obtain ⟨ts, e', hs, hd, hr⟩ := h
  have hend := hs [] (by intro c hc; cases hc)
  refine ⟨ts, e', ?_, hd, hr⟩
  rw [List.append_nil] at hend
  rw [tokens?, hend]
  simp [tokensFrom]

theorem ne_empty {p : Phrase} {s : String} {e : Expr} (h : Reads p s e) : s ≠ "" := by
  rintro rfl
  obtain ⟨ts, e', hts, hd, -⟩ := h.tokens
  cases hts
  exact hd.ne_nil rfl

theorem readsAs {p : Phrase} {s : String} {e : Expr} (h : Reads p s e) (hp : p ≠ .items) :
    ReadsAs p s e := by
  obtain ⟨ts, e', hts, hd, hr⟩ := h.tokens
  refine ⟨ts, hts, ⟨e', hd⟩, ?_⟩
  intro e'' he
  rw [Derives.unique he (hd.joined_of hp)]
  exact hr

end Reads

end Script

/-! ## Tiers and phrases -/

/-- The phrases that bind at the tier or tighter. -/
def Script.phraseUpTo (tier : Int) : Phrase :=
  if tier < Precedence.multiplicative.rank then .operand
  else if tier < Precedence.additive.rank then .product
  else if tier < Precedence.concatenation.rank then .sum
  else .joined

open Script (phraseUpTo)

namespace Script

theorem phraseUpTo_ne_items (tier : Int) : phraseUpTo tier ≠ .items := by
  unfold phraseUpTo
  split
  · simp
  · split
    · simp
    · split <;> simp

theorem Derives.phraseUpTo_succ {t : Int} {ts : List Token} {e : Expr}
    (h : Derives (phraseUpTo t) ts e) : Derives (phraseUpTo (t + 1)) ts e := by
  have hm : Precedence.multiplicative.rank = 3 := rfl
  have ha : Precedence.additive.rank = 4 := rfl
  have hc : Precedence.concatenation.rank = 5 := rfl
  have hcases : t < 2 ∨ t = 2 ∨ t = 3 ∨ t = 4 ∨ 5 ≤ t := by omega
  rcases hcases with ht | rfl | rfl | rfl | ht
  · rw [phraseUpTo, if_pos (by omega)] at h ⊢
    exact h
  · exact .operand h
  · exact .product h
  · exact .sum h
  · rw [phraseUpTo, if_neg (by omega), if_neg (by omega), if_neg (by omega)] at h ⊢
    exact h

/-- A phrase is one of every looser tier. -/
theorem Derives.phraseUpTo_mono {s t : Int} (hst : s ≤ t) {ts : List Token} {e : Expr}
    (h : Derives (phraseUpTo s) ts e) : Derives (phraseUpTo t) ts e := by
  obtain ⟨k, rfl⟩ := Int.le.dest hst
  induction k with
  | zero => simpa using h
  | succ k ih =>
      have hstep := (ih (by omega)).phraseUpTo_succ
      rwa [Int.add_assoc] at hstep

theorem Reads.upTo {s t : Int} (hst : s ≤ t) {text : String} {e : Expr}
    (h : Reads (phraseUpTo s) text e) : Reads (phraseUpTo t) text e := by
  obtain ⟨ts, e', hs, hd, hr⟩ := h
  exact ⟨ts, e', hs, hd.phraseUpTo_mono hst, hr⟩

theorem Reads.operand_upTo (t : Int) {text : String} {e : Expr} (h : Reads .operand text e) :
    Reads (phraseUpTo t) text e := by
  by_cases ht : t < Precedence.multiplicative.rank
  · rw [phraseUpTo, if_pos ht]
    exact h
  · have h0 : Reads (phraseUpTo 0) text e := h
    exact h0.upTo (by simp only [Precedence.rank] at ht; omega)

end Script

namespace Fragment

/-- The text of the fragment is a phrase of its tier, with the tree `e`. -/
def Shows (f : Fragment) (e : Expr) : Prop := Reads (phraseUpTo f.tier.rank) f.text e

/-- What a consumer takes is a phrase of the consumer's tier. -/
theorem Shows.asOperand {f : Fragment} {e : Expr} (h : f.Shows e) (consumer : Int) :
    Reads (phraseUpTo consumer) (f.asOperand consumer).text e := by
  by_cases hwrap : consumer < f.tier.rank
  · rw [Fragment.asOperand, if_pos ⟨h.ne_empty, hwrap⟩]
    have hjoined := h.joined (Script.phraseUpTo_ne_items _)
    exact hjoined.group.operand_upTo consumer
  · rw [asOperand_of_rank_le (by omega)]
    exact Script.Reads.upTo (by omega) h

theorem shows_atom {s : String} {e : Expr} (h : Reads .operand s e) : (atom s).Shows e := h

end Fragment

/-! ## Trees of values -/

/-- The tree of a single literal; a double that is not finite has none. -/
def Scalar.tree? : Scalar → Option Expr
  | .text s => some (.text s)
  | .int n => some (.number (toString n))
  | .float x => (Script.float x).toOption.map .number
  | .bool b => some (.truth b)

/-- The tree of a literal. -/
def Literal.tree? : Literal → Option Expr
  | .scalar s => s.tree?
  | .list items => (items.mapM Scalar.tree?).map .list

theorem Scalar.reads_of_script {s : Scalar} {e : Expr} {text : String} (he : s.tree? = some e)
    (h : s.script = .ok text) : Reads .operand text e := by
  cases s with
  | text s =>
      cases he
      cases h
      exact .text s
  | int n =>
      cases he
      obtain ⟨-, rfl⟩ := Script.integer_eq_ok.1 h
      exact .integer h
  | float x =>
      have hx : Script.float x = .ok text := h
      rw [tree?, hx] at he
      cases he
      exact .float hx
  | bool b =>
      cases he
      cases h
      exact .truth b

theorem Scalar.reads_of_scripts {items : List Scalar} {es : List Expr} {texts : List String}
    (hes : items.mapM Scalar.tree? = some es)
    (h : List.Forall₂ (fun s text => s.script = .ok text) items texts) :
    List.Forall₂ (Reads .joined) texts es := by
  induction h generalizing es with
  | nil =>
      cases hes
      exact .nil
  | cons hs _ ih =>
      rw [List.mapM_cons] at hes
      obtain ⟨e, he, hrest⟩ := Option.bind_eq_some_iff.1 hes
      obtain ⟨es', hes', hcons⟩ := Option.bind_eq_some_iff.1 hrest
      cases hcons
      exact .cons ((reads_of_script he hs).joined (by decide)) (ih hes')

/-- A literal that has a tree and can be written is written so that it reads as that tree. -/
theorem Literal.reads_of_script {l : Literal} {e : Expr} {text : String} (he : l.tree? = some e)
    (h : l.script = .ok text) : Reads .operand text e := by
  cases l with
  | scalar s => exact Scalar.reads_of_script he h
  | list items =>
      obtain ⟨es, hes, rfl⟩ := Option.map_eq_some_iff.1 he
      obtain ⟨texts, htexts, rfl⟩ := list_script_eq_ok h
      exact .list (Scalar.reads_of_scripts hes (Scalar.forall₂_of_mapM_script htexts))

theorem Scalar.exists_tree {s : Scalar} (h : s.isFinite = true) : ∃ e, s.tree? = some e := by
  cases s with
  | text s => exact ⟨_, rfl⟩
  | int n => exact ⟨_, rfl⟩
  | float x =>
      have hx : x.isFinite = true := h
      exact ⟨_, by rw [tree?, Script.float, if_pos hx]; rfl⟩
  | bool b => exact ⟨_, rfl⟩

theorem Scalar.exists_trees {items : List Scalar} (h : items.all Scalar.isFinite = true) :
    ∃ es, items.mapM Scalar.tree? = some es := by
  induction items with
  | nil => exact ⟨[], rfl⟩
  | cons s items ih =>
      rw [List.all_cons, Bool.and_eq_true] at h
      obtain ⟨e, he⟩ := exists_tree h.1
      obtain ⟨es, hes⟩ := ih h.2
      exact ⟨e :: es, by rw [List.mapM_cons, he, hes]; rfl⟩

/-- A literal without a double that is not finite has a tree. -/
theorem Literal.exists_tree {l : Literal} (h : l.isFinite = true) : ∃ e, l.tree? = some e := by
  cases l with
  | scalar s => exact Scalar.exists_tree h
  | list items =>
      obtain ⟨es, hes⟩ := Scalar.exists_trees h
      exact ⟨.list es, by rw [tree?, hes]; rfl⟩

theorem Scalar.isFinite_of_tree {s : Scalar} {e : Expr} (h : s.tree? = some e) :
    s.isFinite = true := by
  cases s with
  | float x =>
      by_cases hx : x.isFinite = true
      · exact hx
      · simp [tree?, Script.float, hx, Except.toOption] at h
  | text s => rfl
  | int n => rfl
  | bool b => rfl

theorem Literal.isFinite_of_tree {l : Literal} {e : Expr} (h : l.tree? = some e) :
    l.isFinite = true := by
  cases l with
  | scalar s => exact Scalar.isFinite_of_tree h
  | list items =>
      obtain ⟨es, hes, -⟩ := Option.map_eq_some_iff.1 h
      clear h
      rw [isFinite, List.all_eq_true]
      induction items generalizing es with
      | nil => simp
      | cons s items ih =>
          rw [List.mapM_cons] at hes
          obtain ⟨e, he, hrest⟩ := Option.bind_eq_some_iff.1 hes
          obtain ⟨es', hes', -⟩ := Option.bind_eq_some_iff.1 hrest
          exact List.forall_mem_cons.2 ⟨Scalar.isFinite_of_tree he, ih es' hes'⟩

/-- The arithmetic operations by the tokens that name them. -/
def Script.operations : List (String × (Expr → Expr → Expr)) := [
  ("ADD", .binary .add), ("MINUS", .binary .subtract), ("MULTIPLY", .binary .multiply),
  ("DIVIDE", .binary .divide), ("POWER", .power)]

namespace Node

/-- The operation that an arithmetic node names; an addition unless it names another one. -/
def operation (n : Node) : Expr → Expr → Expr :=
  match n.field? "OP" with
  | some (.text token) => (Script.operations.lookup token).getD (.binary .add)
  | _ => .binary .add

/-- The numeral of a number node; what is no number counts as zero. -/
def numeral? (n : Node) : Option String :=
  match Arguments.numberIn (some ((n.field? "NUM").getD (.int 0))) with
  | .integer z => some (toString z)
  | .float x => (Script.float x).toOption
  | .longInteger _ => none
  | .none => some "0"

/-- The text of a text node, however long it is. -/
def textValue (n : Node) : String :=
  match n.field? "TEXT" with
  | none => ""
  | some (.text s) => s
  | some (.int z) => toString z
  | some (.float x) => x.text
  | some (.bool b) => Script.boolean b

/-- The tree of a value node, given the trees of its inputs. Both sides of an operator must be there;
a chord leaves out the notes that are not. -/
def tree? (n : Node) (operands : String → Option Expr) : Option Expr :=
  match n.kind with
  | "text" => some (.text n.textValue)
  | "math_number" => n.numeral?.map .number
  | "logic_boolean" => some (.truth (n.field? "BOOL" ≠ some (.text "FALSE")))
  | "math_arithmetic" => do
    let a ← operands "A"
    let b ← operands "B"
    some (n.operation a b)
  | "text_join" => do
    let a ← operands "A"
    let b ← operands "B"
    some (.join a b)
  | "chord" => some (.list (["Note1", "Note2", "Note3", "Note4"].filterMap operands))
  | "premade_chord" => some (.list (["Note1", "Note2", "Note3", "Note4"].filterMap operands))
  | _ => none

/-- A value node has a tree when its number can be written and both sides of its operator are there. -/
theorem exists_tree {n : Node} {b : Block} {operands : String → Option Expr} (hb : b ∈ Catalogue.values)
    (hkind : n.kind = b.kind) (hnumber : n.kind = "math_number" → n.numeral? ≠ none)
    (hsides : n.kind = "math_arithmetic" ∨ n.kind = "text_join" →
      ∀ j ∈ b.inputs, operands j.name ≠ none) : ∃ e, n.tree? operands = some e := by
  have hoperand : ∀ slot, operands slot ≠ none → ∃ e, operands slot = some e :=
    fun _ h => Option.ne_none_iff_exists'.1 h
  simp only [Catalogue.values, List.mem_cons, List.not_mem_nil, or_false] at hb
  rcases hb with h | h | h | h | h | h | h
  · have hk : n.kind = "chord" := by rw [hkind, h]; rfl
    rw [tree?, hk]
    exact ⟨_, rfl⟩
  · have hk : n.kind = "premade_chord" := by rw [hkind, h]; rfl
    rw [tree?, hk]
    exact ⟨_, rfl⟩
  · have hk : n.kind = "text" := by rw [hkind, h]; rfl
    rw [tree?, hk]
    exact ⟨_, rfl⟩
  · have hk : n.kind = "math_number" := by rw [hkind, h]; rfl
    obtain ⟨numeral, hnumeral⟩ := Option.ne_none_iff_exists'.1 (hnumber hk)
    exact ⟨.number numeral, by rw [tree?, hk, hnumeral]; rfl⟩
  · have hk : n.kind = "logic_boolean" := by rw [hkind, h]; rfl
    rw [tree?, hk]
    exact ⟨_, rfl⟩
  · have hk : n.kind = "math_arithmetic" := by rw [hkind, h]; rfl
    have hslots := hsides (.inl hk)
    rw [h] at hslots
    obtain ⟨x, hx⟩ := hoperand "A" (hslots _ List.mem_cons_self)
    obtain ⟨y, hy⟩ := hoperand "B" (hslots _ (List.mem_cons_of_mem _ List.mem_cons_self))
    exact ⟨n.operation x y, by rw [tree?, hk, hx, hy]; rfl⟩
  · have hk : n.kind = "text_join" := by rw [hkind, h]; rfl
    have hslots := hsides (.inr hk)
    rw [h] at hslots
    obtain ⟨x, hx⟩ := hoperand "A" (hslots _ List.mem_cons_self)
    obtain ⟨y, hy⟩ := hoperand "B" (hslots _ (List.mem_cons_of_mem _ List.mem_cons_self))
    exact ⟨.join x y, by rw [tree?, hk, hx, hy]; rfl⟩

end Node

/-! ## The writers of values -/

/-- What a fragment holds: nothing, or the text of a tree. -/
def Fragment.Holds (f : Fragment) : Option Expr → Prop
  | none => f = .empty
  | some e => f.Shows e

namespace Catalogue

variable (name : String) (options : List (String × String))

@[simp] theorem tokens_dropdown :
    (dropdown name options).choices.map Choice.token = options.map Prod.snd := by
  simp [dropdown, choices, Function.comp_def]

@[simp] theorem firstToken_dropdown :
    (dropdown name options).choices.head?.map Choice.token = options.head?.map Prod.snd := by
  rw [← List.head?_map, tokens_dropdown, List.head?_map]

end Catalogue

namespace Arguments

/-- The fragment of a value input. -/
def fragment (a : Arguments) (slot : String) : Fragment := (a.values.lookup slot).getD .empty

theorem operand_reads {a : Arguments} {slot : String} {e : Expr} (h : (a.fragment slot).Shows e)
    (consumer : Int) : Reads (phraseUpTo consumer) (a.operand slot consumer) e :=
  h.asOperand consumer

theorem value_reads {a : Arguments} {slot : String} {e : Expr} (h : (a.fragment slot).Shows e) :
    Reads .joined (a.value slot) e :=
  operand_reads h Precedence.none.rank

theorem value_empty {a : Arguments} {slot : String} (h : a.fragment slot = .empty) :
    a.value slot = "" := by
  change ((a.fragment slot).asOperand _).text = ""
  rw [h, Fragment.asOperand_empty]
  rfl

/-- A dropdown without a default is read as the choice that the node names, else as its first one. -/
theorem token_eq {a : Arguments} {name token : String} {field : Field}
    (hfield : a.block.field? name = some field) (hkind : field.kind = .dropdown)
    (hdefault : field.default = none) (h : (a.token name).outcome = .ok token) :
    token = (field.tokenFor (a.node.field? name)).getD
      ((field.choices.head?.map Choice.token).getD "") := by
  have hused : Draft.ofRender field.defaultToken = .done (field.choices.head?.map Choice.token) := by
    rw [Field.defaultToken, hdefault]
    rfl
  simp only [Arguments.token, hfield, hkind, ne_eq, not_true_eq_false, if_false, hused] at h
  cases htoken : field.tokenFor (a.node.field? name) with
  | some token' =>
      rw [htoken] at h
      exact (Except.ok.inj h).symm
  | none =>
      rw [htoken] at h
      obtain ⟨default, hdone, h⟩ := Draft.exists_outcome_of_bind h
      cases hdone
      cases hgiven : a.node.field? name with
      | none =>
          rw [hgiven] at h
          exact (Except.ok.inj h).symm
      | some value =>
          rw [hgiven] at h
          obtain ⟨shown, -, h⟩ := Draft.exists_outcome_of_bind h
          exact (Except.ok.inj h).symm

end Arguments

/-- A choice is named by its token. -/
@[simp] theorem Field.tokenFor_text (f : Field) (s : String) :
    f.tokenFor (some (.text s)) = if s ∈ f.choices.map Choice.token then some s else none := by
  rw [tokenFor]
  cases h : f.choices.find? fun c => c.token = s with
  | none =>
      rw [List.find?_eq_none] at h
      rw [if_neg]
      · rfl
      · intro hs
        obtain ⟨choice, hchoice, htoken⟩ := List.mem_map.1 hs
        exact h choice hchoice (by simpa using htoken)
  | some choice =>
      have htoken : choice.token = s := by simpa using List.find?_some h
      rw [if_pos (List.mem_map.2 ⟨choice, List.mem_of_find?_eq_some h, htoken⟩)]
      exact congrArg some htoken

namespace Writer

variable {a : Arguments} {operands : String → Option Expr} {out : Output}

/-- The token of an arithmetic node names its operation. -/
theorem token_operation {token : String} (hfield : a.block.field? "OP" =
      some (Catalogue.dropdown "OP" Catalogue.arithmeticOperators))
    (h : (a.token "OP").outcome = .ok token) : (token, a.node.operation) ∈ Script.operations := by
  rw [Arguments.token_eq hfield rfl rfl h]
  have hdefault : ("ADD", Expr.binary .add) ∈ Script.operations := List.mem_cons_self
  cases hop : a.node.field? "OP" with
  | none =>
      rw [Node.operation, hop]
      exact hdefault
  | some value =>
      rw [Node.operation, hop]
      cases value with
      | text s =>
          have hkeys : (Catalogue.dropdown "OP" Catalogue.arithmeticOperators).choices.map
              Choice.token = Script.operations.map Prod.fst := rfl
          rw [Field.tokenFor_text, hkeys]
          dsimp only
          cases hs : Script.operations.lookup s with
          | none =>
              rw [if_neg]
              · exact hdefault
              · intro hmem
                obtain ⟨entry, hentry, rfl⟩ := List.mem_map.1 hmem
                simpa using List.lookup_eq_none_iff.1 hs entry hentry
          | some operation =>
              obtain ⟨before, after, htable, -⟩ := List.lookup_eq_some_iff.1 hs
              have hmem : (s, operation) ∈ Script.operations := by
                rw [htable]
                simp
              rw [if_pos (List.mem_map.2 ⟨_, hmem, rfl⟩)]
              exact hmem
      | int n => exact hdefault
      | float x => exact hdefault
      | bool b => exact hdefault

/-- A sum is written at the tier of sums: its left side may be a sum itself, its right side may
not. -/
theorem sum_shows {x y : Expr} {o : Script.Operator} (ho : o.isProduct = false)
    (hA : (a.fragment "A").Shows x) (hB : (a.fragment "B").Shows y) :
    Fragment.Shows ⟨a.operand "A" Precedence.additive.rank ++ " " ++ o.symbol ++ " " ++
      a.operand "B" (Precedence.additive.rank - 1), .named .additive⟩ (.binary o x y) :=
  Reads.add ho (Arguments.operand_reads hA _) (Arguments.operand_reads hB _)

theorem product_shows {x y : Expr} {o : Script.Operator} (ho : o.isProduct = true)
    (hA : (a.fragment "A").Shows x) (hB : (a.fragment "B").Shows y) :
    Fragment.Shows ⟨a.operand "A" Precedence.multiplicative.rank ++ " " ++ o.symbol ++ " " ++
      a.operand "B" (Precedence.multiplicative.rank - 1), .named .multiplicative⟩ (.binary o x y) :=
  Reads.multiply ho (Arguments.operand_reads hA _) (Arguments.operand_reads hB _)

theorem mathArithmetic_symbol {token : String} {o : Script.Operator} {tier : Precedence}
    (htoken : (a.token "OP").outcome = .ok token) (hpower : token ≠ "POWER")
    (hsymbol : infixOperator? token = some (o.symbol, tier)) :
    (mathArithmetic a).outcome = .ok (.fragment ⟨a.operand "A" tier.rank ++ " " ++ o.symbol ++ " " ++
      a.operand "B" (tier.rank - 1), .named tier⟩) := by
  rw [mathArithmetic, Draft.outcome_bind htoken, if_neg hpower, hsymbol]
  rfl

theorem mathArithmetic_power (htoken : (a.token "OP").outcome = .ok "POWER") :
    (mathArithmetic a).outcome =
      .ok (.fragment ⟨call ":math.pow" [a.value "A", a.value "B"], .named .functionCall⟩) := by
  rw [mathArithmetic, Draft.outcome_bind htoken, if_pos rfl]
  rfl

theorem mathArithmetic_shows {x y : Expr} (hfield : a.block.field? "OP" =
      some (Catalogue.dropdown "OP" Catalogue.arithmeticOperators))
    (hA : (a.fragment "A").Shows x) (hB : (a.fragment "B").Shows y)
    (h : (mathArithmetic a).outcome = .ok out) :
    ∃ f, out = .fragment f ∧ f.Shows (a.node.operation x y) := by
  obtain ⟨token, htoken, -⟩ := Draft.exists_outcome_of_bind h
  have hmem := token_operation hfield htoken
  have hsymbol : ∀ {o : Script.Operator} {tier : Precedence}, token ≠ "POWER" →
      infixOperator? token = some (o.symbol, tier) → ∀ {e}, Fragment.Shows
        ⟨a.operand "A" tier.rank ++ " " ++ o.symbol ++ " " ++ a.operand "B" (tier.rank - 1),
          .named tier⟩ e →
      ∃ f, out = .fragment f ∧ f.Shows e := by
    intro o tier hpower hinfix e hshows
    exact ⟨_, (Except.ok.inj ((mathArithmetic_symbol htoken hpower hinfix).symm.trans h)).symm, hshows⟩
  simp only [Script.operations, List.mem_cons, Prod.mk.injEq, List.not_mem_nil, or_false] at hmem
  rcases hmem with ⟨rfl, hop⟩ | ⟨rfl, hop⟩ | ⟨rfl, hop⟩ | ⟨rfl, hop⟩ | ⟨rfl, hop⟩
  all_goals rw [hop]
  · exact hsymbol (o := .add) (by decide) rfl (sum_shows rfl hA hB)
  · exact hsymbol (o := .subtract) (by decide) rfl (sum_shows rfl hA hB)
  · exact hsymbol (o := .multiply) (by decide) rfl (product_shows rfl hA hB)
  · exact hsymbol (o := .divide) (by decide) rfl (product_shows rfl hA hB)
  · exact ⟨_, (Except.ok.inj ((mathArithmetic_power htoken).symm.trans h)).symm,
      Reads.power (Arguments.value_reads hA) (Arguments.value_reads hB)⟩

theorem textJoin_shows {x y : Expr} (hA : (a.fragment "A").Shows x)
    (hB : (a.fragment "B").Shows y) (h : (textJoin a).outcome = .ok out) :
    ∃ f, out = .fragment f ∧ f.Shows (.join x y) :=
  ⟨_, (Except.ok.inj h).symm,
    Reads.join (Arguments.operand_reads hA _) (Arguments.operand_reads hB _)⟩

/-- The notes of a chord that have a tree are those that have a text. -/
theorem notes_read {is : List ValueInput}
    (h : ∀ i ∈ is, (a.fragment i.name).Holds (operands i.name)) :
    List.Forall₂ (Reads .joined) ((is.map fun i => a.value i.name).filter (· ≠ ""))
      (is.filterMap fun i => operands i.name) := by
  induction is with
  | nil => exact .nil
  | cons i is ih =>
      have htail := ih fun j hj => h j (List.mem_cons_of_mem i hj)
      have hhead := h i List.mem_cons_self
      cases hi : operands i.name with
      | none =>
          rw [hi] at hhead
          simpa [hi, Arguments.value_empty hhead] using htail
      | some e =>
          rw [hi] at hhead
          have hreads := Arguments.value_reads hhead
          simpa [hi, hreads.ne_empty] using List.Forall₂.cons hreads htail

theorem chord_shows (hinputs : a.block.inputs = Catalogue.noteInputs)
    (hvalues : ∀ i ∈ a.block.inputs, (a.fragment i.name).Holds (operands i.name))
    (h : (chord a).outcome = .ok out) :
    ∃ f, out = .fragment f ∧
      f.Shows (.list (["Note1", "Note2", "Note3", "Note4"].filterMap operands)) := by
  have hlist := Reads.list (notes_read hvalues)
  refine ⟨_, (Except.ok.inj h).symm, Fragment.shows_atom ?_⟩
  rw [hinputs] at hlist ⊢
  exact hlist

theorem text_shows (hfield : a.block.field? "TEXT" =
      some { name := "TEXT", kind := .text, default := some (.text "") })
    (h : (text a).outcome = .ok out) :
    ∃ f, out = .fragment f ∧ f.Shows (.text a.node.textValue) := by
  obtain ⟨s, hs, h⟩ := Draft.exists_outcome_of_bind h
  have htext : s = a.node.textValue := by
    rw [Arguments.text, Arguments.fieldValue, hfield] at hs
    rw [Node.textValue]
    cases hgiven : a.node.field? "TEXT" with
    | none =>
        rw [hgiven] at hs
        exact (Except.ok.inj hs).symm
    | some value =>
        rw [hgiven] at hs
        cases value with
        | int z => exact (Script.integer_eq_ok.1 (Draft.outcome_ofRender_eq_ok.1 hs)).2.symm
        | text s => exact (Except.ok.inj hs).symm
        | float x => exact (Except.ok.inj hs).symm
        | bool b => exact (Except.ok.inj hs).symm
  refine ⟨_, (Except.ok.inj h).symm, Fragment.shows_atom ?_⟩
  rw [htext]
  exact .text _

theorem fieldValue_number (hfield : a.block.field? "NUM" =
      some { name := "NUM", kind := .number, default := some (.int 0) }) :
    a.fieldValue "NUM" = some ((a.node.field? "NUM").getD (.int 0)) := by
  rw [Arguments.fieldValue]
  cases a.node.field? "NUM" with
  | none =>
      rw [hfield]
      rfl
  | some value => rfl

theorem mathNumber_shows {numeral : String} (hfield : a.block.field? "NUM" =
      some { name := "NUM", kind := .number, default := some (.int 0) })
    (hnumeral : a.node.numeral? = some numeral) (h : (mathNumber a).outcome = .ok out) :
    ∃ f, out = .fragment f ∧ f.Shows (.number numeral) := by
  obtain ⟨s, hs, h⟩ := Draft.exists_outcome_of_bind h
  refine ⟨.atom s, (Except.ok.inj h).symm, Fragment.shows_atom ?_⟩
  rw [Arguments.number, fieldValue_number hfield] at hs
  rw [Node.numeral?] at hnumeral
  cases hread : Arguments.numberIn (some ((a.node.field? "NUM").getD (.int 0))) with
  | integer z =>
      simp only [hread, Option.some.injEq] at hs hnumeral
      have hz := Draft.outcome_ofRender_eq_ok.1 hs
      obtain ⟨-, rfl⟩ := Script.integer_eq_ok.1 hz
      subst hnumeral
      exact .integer hz
  | float x =>
      simp only [hread] at hs hnumeral
      have hx := Draft.outcome_ofRender_eq_ok.1 hs
      rw [hx] at hnumeral
      cases hnumeral
      exact .float hx
  | longInteger count => simp [hread] at hnumeral
  | none =>
      simp only [hread] at hs hnumeral
      cases hs
      cases hnumeral
      exact .integer (z := 0) rfl

theorem logicBoolean_shows (hfield : a.block.field? "BOOL" =
      some (Catalogue.dropdown "BOOL" [("true", "TRUE"), ("false", "FALSE")]))
    (h : (logicBoolean a).outcome = .ok out) :
    ∃ f, out = .fragment f ∧ f.Shows (.truth (a.node.field? "BOOL" ≠ some (.text "FALSE"))) := by
  obtain ⟨token, htoken, h⟩ := Draft.exists_outcome_of_bind h
  have htrue : token = "TRUE" ↔ a.node.field? "BOOL" ≠ some (.text "FALSE") := by
    rw [Arguments.token_eq hfield rfl rfl htoken]
    cases a.node.field? "BOOL" with
    | none => simp [Field.tokenFor]
    | some value =>
        cases value with
        | text s =>
            by_cases hs : s = "FALSE"
            · simp [hs]
            · by_cases ht : s = "TRUE"
              · simp [ht]
              · simp [hs, ht]
        | int n => simp [Field.tokenFor]
        | float x => simp [Field.tokenFor]
        | bool b => simp [Field.tokenFor]
  refine ⟨_, (Except.ok.inj h).symm, Fragment.shows_atom ?_⟩
  rw [← decide_eq_decide.2 htrue]
  exact .truth _

/-- Both sides of an operator that has a tree are there. -/
theorem sides_shown {compose : Expr → Expr → Expr} {e : Expr}
    (hvalues : ∀ i ∈ a.block.inputs, (a.fragment i.name).Holds (operands i.name))
    (hinputs : a.block.inputs.map ValueInput.name = ["A", "B"])
    (he : (do let x ← operands "A"; let y ← operands "B"; some (compose x y)) = some e) :
    ∃ x y, (a.fragment "A").Shows x ∧ (a.fragment "B").Shows y ∧ compose x y = e := by
  have hslot : ∀ slot ∈ a.block.inputs.map ValueInput.name,
      (a.fragment slot).Holds (operands slot) := by
    intro slot hslot
    obtain ⟨i, hi, rfl⟩ := List.mem_map.1 hslot
    exact hvalues i hi
  rw [hinputs] at hslot
  have hA := hslot "A" (by simp)
  have hB := hslot "B" (by simp)
  obtain ⟨x, hx, hrest⟩ := Option.bind_eq_some_iff.1 he
  obtain ⟨y, hy, hcompose⟩ := Option.bind_eq_some_iff.1 hrest
  rw [hx] at hA
  rw [hy] at hB
  exact ⟨x, y, hA, hB, Option.some.inj hcompose⟩

end Writer

/-- What is written for a value node is the tree of the node, given fragments with the trees of its
inputs. -/
theorem Compiler.builtin_writer_shows (unit : String) {a : Arguments}
    {operands : String → Option Expr} {e : Expr} {out : Output} (hblock : a.block ∈ Catalogue.values)
    (hkind : a.node.kind = a.block.kind)
    (hvalues : ∀ i ∈ a.block.inputs, (a.fragment i.name).Holds (operands i.name))
    (htree : a.node.tree? operands = some e)
    (hout : ((Compiler.builtin unit).writer a.block.kind a).outcome = .ok out) :
    ∃ f, out = .fragment f ∧ f.Shows e := by
  simp only [Catalogue.values, List.mem_cons, List.not_mem_nil, or_false] at hblock
  rw [Node.tree?, hkind] at htree
  rcases hblock with h | h | h | h | h | h | h
  · have hk : a.block.kind = "chord" := by rw [h]; rfl
    rw [hk] at htree hout
    cases htree
    exact Writer.chord_shows (by rw [h]; rfl) hvalues hout
  · have hk : a.block.kind = "premade_chord" := by rw [h]; rfl
    rw [hk] at htree hout
    cases htree
    exact Writer.chord_shows (by rw [h]; rfl) hvalues hout
  · have hk : a.block.kind = "text" := by rw [h]; rfl
    rw [hk] at htree hout
    cases htree
    exact Writer.text_shows (by rw [h]; rfl) hout
  · have hk : a.block.kind = "math_number" := by rw [h]; rfl
    rw [hk] at htree hout
    obtain ⟨numeral, hnumeral, rfl⟩ := Option.map_eq_some_iff.1 htree
    exact Writer.mathNumber_shows (by rw [h]; rfl) hnumeral hout
  · have hk : a.block.kind = "logic_boolean" := by rw [h]; rfl
    rw [hk] at htree hout
    cases htree
    exact Writer.logicBoolean_shows (by rw [h]; rfl) hout
  · have hk : a.block.kind = "math_arithmetic" := by rw [h]; rfl
    rw [hk] at htree hout
    obtain ⟨x, y, hA, hB, rfl⟩ := Writer.sides_shown hvalues (by rw [h]; rfl) htree
    exact Writer.mathArithmetic_shows (by rw [h]; rfl) hA hB hout
  · have hk : a.block.kind = "text_join" := by rw [h]; rfl
    rw [hk] at htree hout
    obtain ⟨x, y, hA, hB, rfl⟩ := Writer.sides_shown hvalues (by rw [h]; rfl) htree
    exact Writer.textJoin_shows hA hB hout

/-! ## When nothing is written -/

namespace Catalogue

theorem operatorField : ∀ b ∈ blocks, b.kind = "math_arithmetic" →
    b.field? "OP" = some (dropdown "OP" arithmeticOperators) := by decide

theorem numberField : ∀ b ∈ blocks, b.kind = "math_number" →
    b.field? "NUM" = some { name := "NUM", kind := .number, default := some (.int 0) } := by decide

theorem short_defaults : ∀ b ∈ blocks, ∀ f ∈ b.fields, f.default.all Scalar.isShort = true := by decide

theorem short_inputs : ∀ b ∈ blocks, ∀ i ∈ b.inputs, i.default.all Literal.isShort = true := by decide

/-- Every block has a writer. -/
theorem exists_writer : ∀ b ∈ blocks, (Writer.builtin.lookup b.kind).isSome = true := by decide

end Catalogue

/-- A field of the node holds an integer with too many digits. -/
def Node.LongField (n : Node) : Prop :=
  ∃ name z, n.field? name = some (.int z) ∧ Numeral.digitLimit < Numeral.digitCount z

/-- A literal of the node holds such an integer. -/
def Node.LongLiteral (n : Node) (slot : String) : Prop :=
  ∃ l, n.input? slot = some (.literal l) ∧ l.isShort = false

/-- No default of a block is too long, so the value is that of the node. -/
theorem Arguments.Overlong.longField {a : Arguments} {name : String} (h : a.Overlong name)
    (hblock : a.block ∈ Catalogue.blocks) : a.node.LongField := by
  obtain ⟨z, hz, hfield | hdefault⟩ := h
  · exact ⟨name, z, hfield, hz⟩
  · obtain ⟨f, hf, hvalue⟩ := Option.bind_eq_some_iff.1 hdefault
    have hshort := Catalogue.short_defaults _ hblock f (List.mem_of_find?_eq_some hf)
    simp only [hvalue, Option.all_some, Scalar.isShort, decide_eq_true_eq] at hshort
    exact absurd hz (Nat.not_lt.2 hshort)

/-- The operator of an arithmetic node is always one of those that have a symbol, so only its token can
be refused. -/
theorem Writer.error_of_mathArithmetic {a : Arguments} {fault : Fault} (hfield : a.block.field? "OP" =
      some (Catalogue.dropdown "OP" Catalogue.arithmeticOperators))
    (h : (mathArithmetic a).outcome = .error fault) : (a.token "OP").outcome = .error fault := by
  rcases Draft.error_of_bind h with h | ⟨token, htoken, -⟩
  · exact h
  have hmem := token_operation hfield htoken
  simp only [Script.operations, List.mem_cons, Prod.mk.injEq, List.not_mem_nil, or_false] at hmem
  rcases hmem with ⟨rfl, -⟩ | ⟨rfl, -⟩ | ⟨rfl, -⟩ | ⟨rfl, -⟩ | ⟨rfl, -⟩
  · cases (mathArithmetic_symbol (o := .add) htoken (by decide) rfl).symm.trans h
  · cases (mathArithmetic_symbol (o := .subtract) htoken (by decide) rfl).symm.trans h
  · cases (mathArithmetic_symbol (o := .multiply) htoken (by decide) rfl).symm.trans h
  · cases (mathArithmetic_symbol (o := .divide) htoken (by decide) rfl).symm.trans h
  · cases (mathArithmetic_power htoken).symm.trans h

namespace Compiler

variable {a : Arguments} {fault : Fault}

/-- A built-in writer is refused a field with too long an integer, or its number. -/
theorem error_of_writer (unit : String) (hblock : a.block ∈ Catalogue.blocks)
    (h : ((builtin unit).writer a.block.kind a).outcome = .error fault) :
    (a.node.LongField ∧ fault = .render .integerLimit) ∨
      a.block.kind = "math_number" ∧ (a.number "NUM").outcome = .error fault := by
  let P {α : Type} (d : Draft α) : Prop := ∀ e, d.outcome = .error e →
    (a.node.LongField ∧ e = .render .integerLimit) ∨
      a.block.kind = "math_number" ∧ (a.number "NUM").outcome = .error e
  have hereditary : Draft.Hereditary P :=
    { done := fun _ e he => by cases he
      bind := fun hx hf e he => by
        rcases Draft.error_of_bind he with he | ⟨x, -, he⟩
        · exact hx e he
        · exact hf x e he }
  have hlong : ∀ {name e}, a.Overlong name ∧ e = Fault.render .integerLimit →
      a.node.LongField ∧ e = .render .integerLimit := fun h => ⟨h.1.longField hblock, h.2⟩
  have htoken : ∀ name, P (a.token name) :=
    fun _ _ he => .inl (hlong (Arguments.overlong_of_token he))
  obtain ⟨writer, hwriter⟩ := Option.isSome_iff_exists.1 (Catalogue.exists_writer _ hblock)
  obtain ⟨before, behind, htable, -⟩ := List.lookup_eq_some_iff.1 hwriter
  have hrun : (builtin unit).writer a.block.kind = writer := by simp [builtin, hwriter]
  rw [hrun] at h
  refine Writer.hereditary_of_mem_builtin hereditary
    (fun _ _ he => .inl (hlong (Arguments.overlong_of_text he))) htoken (a.block.kind, writer)
    (by simp [htable]) ?_ ?_ fault h
  · exact fun hkind _ he => .inr ⟨hkind, he⟩
  · intro hkind e he
    exact htoken "OP" e
      (Writer.error_of_mathArithmetic (Catalogue.operatorField _ hblock hkind) he)

/-- A value whose number has a script form is refused only for a field with too long an integer. -/
theorem error_of_value_writer (unit : String) {operands : String → Option Expr} {e : Expr}
    (hblock : a.block ∈ Catalogue.values) (hkind : a.node.kind = a.block.kind)
    (htree : a.node.tree? operands = some e)
    (h : ((builtin unit).writer a.block.kind a).outcome = .error fault) :
    a.node.LongField ∧ fault = .render .integerLimit := by
  have hmem : a.block ∈ Catalogue.blocks := List.mem_append_right _ hblock
  rcases error_of_writer unit hmem h with hlong | ⟨hnumber, h⟩
  · exact hlong
  · have hvalue := Writer.fieldValue_number (Catalogue.numberField _ hmem hnumber)
    rw [Node.tree?, hkind, hnumber] at htree
    obtain ⟨numeral, hnumeral, -⟩ := Option.map_eq_some_iff.1 htree
    rw [Node.numeral?, ← hvalue] at hnumeral
    rcases Arguments.error_of_number h with ⟨hlong, rfl⟩ | ⟨x, hx, hfinite, -⟩ | ⟨digits, hdigits, -⟩
    · exact ⟨hlong.longField hmem, rfl⟩
    · simp [hx, Script.float, hfinite, Except.toOption] at hnumeral
    · simp [hdigits] at hnumeral

end Compiler

end BlockMusic
