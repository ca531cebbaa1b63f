import BlockMusic.Proofs.Frame
import BlockMusic.Proofs.Reach
import BlockMusic.Proofs.ValueWriters

/-!
# Parentheses

The value nodes behind an input form a tree of operators. The text that the compiler gives to a
consumer is read back by the grammar as the same tree, for every depth, every mix of operators and
every tier that the consumer asks for. There is always such a text, unless the tree is too deep or one of
its integers too long.
-/

namespace BlockMusic

open Script (Expr Reads phraseUpTo)

/-- The tree of operators behind a value input, with at most `depth` nodes inside each other. There is
none where nothing is written: behind an input without binding and default, and behind a statement. -/
inductive OperatorTree (g : Graph) : Nat → Node → ValueInput → Option Expr → Prop
  | unbound {depth : Nat} {n : Node} {i : ValueInput} (hin : n.input? i.name = none)
      (hdefault : i.default = none) : OperatorTree g depth n i none
  | default {depth : Nat} {n : Node} {i : ValueInput} {l : Literal} {e : Expr}
      (hin : n.input? i.name = none) (hdefault : i.default = some l) (he : l.tree? = some e) :
      OperatorTree g depth n i (some e)
  | literal {depth : Nat} {n : Node} {i : ValueInput} {l : Literal} {e : Expr}
      (hin : n.input? i.name = some (.literal l)) (he : l.tree? = some e) :
      OperatorTree g depth n i (some e)
  | statement {depth : Nat} {n child : Node} {i : ValueInput} {id : String} {b : Block}
      (hin : n.input? i.name = some (.node id)) (hnode : g.node? id = some child)
      (hb : (Registry.builtin []).get? child.kind = some b) (hv : b.producesValue = false) :
      OperatorTree g depth n i none
  | value {depth : Nat} {n child : Node} {i : ValueInput} {id : String} {b : Block} {e : Expr}
      (operands : String → Option Expr)
      (hin : n.input? i.name = some (.node id)) (hnode : g.node? id = some child)
      (hb : (Registry.builtin []).get? child.kind = some b) (hv : b.producesValue = true)
      (hoperands : ∀ j ∈ b.inputs, OperatorTree g depth child j (operands j.name))
      (he : child.tree? operands = some e) : OperatorTree g (depth + 1) n i (some e)

theorem OperatorTree.mono {g : Graph} {depth depth' : Nat} {n : Node} {i : ValueInput}
    {t : Option Expr} (h : OperatorTree g depth n i t) (hle : depth ≤ depth') :
    OperatorTree g depth' n i t := by
  induction h generalizing depth' with
  | unbound hin hdefault => exact .unbound hin hdefault
  | default hin hdefault he => exact .default hin hdefault he
  | literal hin he => exact .literal hin he
  | statement hin hnode hb hv => exact .statement hin hnode hb hv
  | value operands hin hnode hb hv hoperands he ih =>
      obtain ⟨depth'', rfl⟩ : ∃ depth'', depth' = depth'' + 1 := ⟨depth' - 1, by omega⟩
      exact .value operands hin hnode hb hv (fun j hj => ih j hj (by omega)) he

namespace Compiler

/-! ## Inputs that have a tree -/

section

variable (c : Compiler) (g : Graph)

/-- Something is written for the input: it is bound to a literal or to a value, or it has a default. -/
structure Filled (n : Node) (i : ValueInput) : Prop where
  given : n.input? i.name ≠ none ∨ i.default ≠ none
  value : ∀ id m b, n.input? i.name = some (.node id) → g.node? id = some m →
    c.registry.get? m.kind = some b → b.producesValue = true

/-- The literals of the node are finite. -/
def FiniteLiterals (n : Node) : Prop :=
  ∀ slot l, n.input? slot = some (.literal l) → l.isFinite = true

/-- The node can be written whole: both sides of an operator are there, and a number is one that the
script has. The inputs of a sum have no default, so they must be bound; those of a join have one. -/
structure Whole (n : Node) (b : Block) : Prop where
  sides : n.kind = "math_arithmetic" ∨ n.kind = "text_join" → ∀ j ∈ b.inputs, c.Filled g n j
  literals : FiniteLiterals n
  number : n.kind = "math_number" → n.numeral? ≠ none

/-- The values behind the input form a finite tree, and no operand in it is degraded to nothing. -/
structure Undegraded (n : Node) (i : ValueInput) : Prop where
  grounded : c.Grounded g n i
  filled : c.Filled g n i
  literals : FiniteLiterals n
  behind : ∀ m b, c.Behind g n i m → c.registry.get? m.kind = some b → c.Whole g m b

/-- The value of the input takes an integer with too many digits, from a literal or from a field. -/
def LongBehind (n : Node) (i : ValueInput) : Prop :=
  n.LongLiteral i.name ∨ ∃ m, c.Behind g n i m ∧ (m.LongField ∨ ∃ slot, m.LongLiteral slot)

end

open Gen

variable {unit : String} {g : Graph} {n : Node} {i : ValueInput} {depth k : Nat}
  {t : Option Expr} {ctx : Context}

/-- What has a tree is grounded. -/
theorem grounded_of_operatorTree (h : OperatorTree g depth n i t) :
    (builtin unit).Grounded g n i := by
  induction h with
  | unbound hin => exact .free fun id => by simp [hin]
  | default hin => exact .free fun id => by simp [hin]
  | literal hin => exact .free fun id => by simp [hin]
  | statement hin hnode hb hv => exact .bound hin hnode hb fun hv' => absurd hv' (by simp [hv])
  | value operands hin hnode hb hv hoperands he ih => exact .bound hin hnode hb fun _ => ih

/-- Trees of the inputs of a node, all of one depth. -/
theorem exists_depth {is : List ValueInput} {Q : ValueInput → Option Expr → Prop}
    (h : ∀ j ∈ is, ∃ depth t, OperatorTree g depth n j t ∧ Q j t) :
    ∃ depth, ∀ j ∈ is, ∃ t, OperatorTree g depth n j t ∧ Q j t := by
  induction is with
  | nil => exact ⟨0, by simp⟩
  | cons i is ih =>
      obtain ⟨depth, t, ht, hQ⟩ := h i List.mem_cons_self
      obtain ⟨depth', hrest⟩ := ih fun j hj => h j (List.mem_cons_of_mem i hj)
      refine ⟨max depth depth', List.forall_mem_cons.2 ⟨⟨t, ht.mono (by omega), hQ⟩, ?_⟩⟩
      intro j hj
      obtain ⟨t', ht', hQ'⟩ := hrest j hj
      exact ⟨t', ht'.mono (by omega), hQ'⟩

/-- What is grounded and whole has a tree, which is there wherever something is written. -/
theorem exists_operatorTree (hgrounded : (builtin unit).Grounded g n i)
    (hdefault : i.default.all Literal.isFinite = true) (hliterals : FiniteLiterals n)
    (hbehind : ∀ m b, (builtin unit).Behind g n i m → (builtin unit).registry.get? m.kind = some b →
      (builtin unit).Whole g m b) :
    ∃ depth t, OperatorTree g depth n i t ∧ ((builtin unit).Filled g n i → t ≠ none) := by
  induction hgrounded with
  | @free n i hfree =>
      cases hin : n.input? i.name with
      | none =>
          cases hd : i.default with
          | none =>
              refine ⟨0, none, .unbound hin hd, fun hfilled => ?_⟩
              exact absurd hfilled.given (by simp [hin, hd])
          | some l =>
              rw [hd] at hdefault
              obtain ⟨e, he⟩ := Literal.exists_tree hdefault
              exact ⟨0, some e, .default hin hd he, by simp⟩
      | some binding =>
          cases binding with
          | literal l =>
              obtain ⟨e, he⟩ := Literal.exists_tree (hliterals i.name l hin)
              exact ⟨0, some e, .literal hin he, by simp⟩
          | node id => exact absurd hin (hfree id)
  | @bound n child i id b hin hnode hb hinputs ih =>
      cases hv : b.producesValue with
      | false =>
          refine ⟨0, none, .statement hin hnode hb hv, fun hfilled => ?_⟩
          have hvalue := hfilled.value id child b hin hnode hb
          rw [hv] at hvalue
          cases hvalue
      | true =>
          have hblock := Registry.mem_catalogue hb
          have htarget : (builtin unit).Target g n i child := ⟨id, b, hin, hnode, hb, hv⟩
          have hwhole := hbehind child b ⟨child, htarget, .refl⟩ hb
          obtain ⟨depth, hall⟩ := exists_depth fun j hj => ih hv j hj
            (Catalogue.finite_defaults b hblock j hj) hwhole.literals
            fun m b' hm => hbehind m b' (hm.of_input htarget hb hj)
          choose! trees htrees using hall
          -- the inputs of a block have distinct names, so each name leads to its own tree
          let operands (slot : String) : Option Expr := (b.inputs.find? fun j => j.name = slot).bind trees
          have hoperand : ∀ j ∈ b.inputs, operands j.name = trees j := by
            intro j hj
            have hfind := find?_of_nodup_map (Catalogue.nodup_inputs b hblock) hj
            simp only [operands, hfind, Option.bind_some]
          have hsides : child.kind = "math_arithmetic" ∨ child.kind = "text_join" →
              ∀ j ∈ b.inputs, operands j.name ≠ none := by
            intro hkind j hj
            rw [hoperand j hj]
            exact (htrees j hj).2 (hwhole.sides hkind j hj)
          obtain ⟨e, he⟩ := Node.exists_tree (Catalogue.mem_values b hblock hv)
            (Registry.kind_of_get? hb).symm hwhole.number hsides
          refine ⟨depth + 1, some e, .value operands hin hnode hb hv ?_ he, by simp⟩
          intro j hj
          rw [hoperand j hj]
          exact (htrees j hj).1

/-- The fragments done are good for their inputs, and the stack is that of the start. -/
def Collected (start : Context) (good : String → Fragment → Prop) (is rest : List ValueInput)
    (done : List (String × Fragment)) (mid : Context) : Prop :=
  mid.resolving = start.resolving ∧ ∃ used, is = used ++ rest ∧
    ∀ i ∈ used, good i.name ((done.lookup i.name).getD .empty)

theorem Collected.step {good : String → Fragment → Prop} {is rest : List ValueInput}
    {done : List (String × Fragment)} {mid mid' : Context} {f : Fragment}
    (h : Collected ctx good is (i :: rest) done mid) (hf : good i.name f)
    (hmid : mid'.resolving = mid.resolving) :
    Collected ctx good is rest ((i.name, f) :: done) mid' := by
  obtain ⟨hstart, used, hused, hdone⟩ := h
  refine ⟨hmid.trans hstart, used ++ [i], by simp [hused], ?_⟩
  intro j hj
  by_cases hname : j.name = i.name
  · rw [hname, List.lookup_cons_self]
    exact hf
  · have hold : j ∈ used := by
      rcases List.mem_append.1 hj with hj | hj
      · exact hj
      · exact absurd (congrArg ValueInput.name (List.mem_singleton.1 hj)) hname
    rw [List.lookup_cons, beq_eq_false_iff_ne.2 hname]
    exact hdone j hold

/-- The loop over the inputs collects good fragments, if each input is resolved to one. -/
theorem ensures_resolveInputs_good (good : String → Fragment → Prop) {c : Compiler}
    {is : List ValueInput} {E : Fault → Context → Prop}
    (h : ∀ i ∈ is, ∀ mid : Context, mid.resolving = ctx.resolving →
      Ensures (c.resolveInput g (c.within g k 3) n i) mid (fun f _ => good i.name f) E) :
    Ensures (c.resolveInputs g (c.within g k 3) n [] is) ctx
      (fun done _ => ∀ i ∈ is, good i.name ((done.lookup i.name).getD .empty)) E := by
  have hloop : Ensures (c.resolveInputs g (c.within g k 3) n [] is) ctx
      (Collected ctx good is []) E := by
    refine ensures_resolveInputs (Collected ctx good is) ⟨rfl, [], rfl, by simp⟩ ?_
    intro i rest done mid hi hcollected
    have hframe := resolveInput_restored c g k n i mid
    refine ((h i hi mid hcollected.1).and hframe).mono ?_ fun _ _ he => he.1
    rintro f mid' ⟨hf, hrestored⟩
    exact hcollected.step hf hrestored.resolving
  refine hloop.mono ?_ fun _ _ he => he
  rintro done mid ⟨-, used, hused, hdone⟩ i hi
  rw [hused, List.append_nil] at hi
  exact hdone i hi

theorem ensures_literalFragment_holds {l : Literal} {e : Expr} (he : l.tree? = some e) :
    Ensures (literalFragment l) ctx (fun f _ => f.Holds (some e))
      (fun fault _ => l.isShort = false ∧ fault = .render .integerLimit) := by
  refine ensures_literalFragment (fun s hs => ?_) fun fault hfault => ?_
  · exact Fragment.shows_atom (Literal.reads_of_script he hs)
  · obtain ⟨hlong, rfl⟩ := Literal.script_eq_error (Literal.isFinite_of_tree he) hfault
    exact ⟨hlong, rfl⟩

/-- What is too long behind an input of a value is too long behind the input that takes the value. -/
theorem LongBehind.of_input {c : Compiler} {child : Node} {b : Block} {j : ValueInput}
    (htarget : c.Target g n i child) (hb : c.registry.get? child.kind = some b) (hj : j ∈ b.inputs)
    (h : c.LongBehind g child j) : c.LongBehind g n i := by
  rcases h with hliteral | ⟨m, hm, hlong⟩
  · exact .inr ⟨child, ⟨child, htarget, .refl⟩, .inr ⟨j.name, hliteral⟩⟩
  · exact .inr ⟨m, hm.of_input htarget hb hj, hlong⟩

/-- A value node writes its tree, if its inputs are resolved to theirs. -/
theorem ensures_within_shows {child : Node} {b : Block} {e : Expr} {long : Prop}
    {operands : String → Option Expr} (hb : (Registry.builtin []).get? child.kind = some b)
    (hv : b.producesValue = true) (he : child.tree? operands = some e)
    (hlong : child.LongField → long)
    (hoperands : ∀ j ∈ b.inputs, ∀ k mid, mid.resolving = ctx.resolving →
      Ensures ((builtin unit).resolveInput g ((builtin unit).within g k 3) child j) mid
        (fun f _ => f.Holds (operands j.name))
        (fun e _ => e = .tooDeep ∧ k < 3 * depth ∨ e = .render .integerLimit ∧ long)) :
    Ensures ((builtin unit).within g k 3 child b) ctx (fun o _ => ∃ f, o = .fragment f ∧ f.Shows e)
      (fun e _ => e = .tooDeep ∧ k < 3 * (depth + 1) ∨ e = .render .integerLimit ∧ long) := by
  have hmem := Registry.mem_catalogue hb
  have hvalue : b ∈ Catalogue.values := Catalogue.mem_values b hmem hv
  have hkind := (Registry.kind_of_get? hb).symm
  by_cases hk : 3 ≤ k
  · rw [within, if_pos hk, run_eq]
    apply ensures_level
    refine .mono (ensures_resolveInputs_good (fun slot f => f.Holds (operands slot))
      fun j hj mid hmid => hoperands j hj _ mid hmid) ?_ ?_
    · intro fragments mid hfragments
      rw [Catalogue.bodies_of_value b hvalue]
      let a := (builtin unit).arguments child b fragments []
      refine .pure (.ofDraft (fun o ho => ?_) fun fault hfault => .inr ?_)
      · exact builtin_writer_shows unit (a := a) hvalue hkind hfragments he ho
      · obtain ⟨hfield, rfl⟩ := error_of_value_writer unit (a := a) hvalue hkind he hfault
        exact ⟨rfl, hlong hfield⟩
    · rintro e mid (⟨rfl, hdeep⟩ | hrefused)
      · exact .inl ⟨rfl, by omega⟩
      · exact .inr hrefused
  · rw [within, if_neg hk]
    exact ensures_beyond (.inl ⟨rfl, by omega⟩)

/-- What stands behind an input is resolved to a fragment with its tree, as far as the allowance for
values inside each other goes and its integers are not too long. -/
theorem ensures_resolveInput_holds (h : OperatorTree g depth n i t)
    (hdefault : i.default.all Literal.isShort = true)
    (hstack : ∀ m, (builtin unit).Behind g n i m → m.id ∉ ctx.resolving) :
    Ensures ((builtin unit).resolveInput g ((builtin unit).within g k 3) n i) ctx
      (fun f _ => f.Holds t) (fun e _ => e = .tooDeep ∧ k < 3 * depth ∨
        e = .render .integerLimit ∧ (builtin unit).LongBehind g n i) := by
  induction h generalizing k ctx with
  | unbound hin hnone =>
      rw [resolveInput, hin]
      dsimp only
      rw [hnone]
      exact .bind (.noteIf (.pure rfl))
  | default hin hsome he =>
      rw [resolveInput, hin]
      dsimp only
      rw [hsome] at hdefault ⊢
      refine (ensures_literalFragment_holds he).mono (fun _ _ hf => hf) ?_
      rintro fault mid ⟨hlong, -⟩
      rw [Option.all_some, hlong] at hdefault
      cases hdefault
  | literal hin he =>
      rw [resolveInput, hin]
      refine (ensures_literalFragment_holds he).mono (fun _ _ hf => hf) ?_
      rintro fault mid ⟨hlong, rfl⟩
      exact .inr ⟨rfl, .inl ⟨_, hin, hlong⟩⟩
  | @statement _ n child i id b hin hnode hb hv =>
      rw [resolveInput, hin]
      dsimp only
      rw [hnode]
      dsimp only
      rw [lookup_some (c := builtin unit) hb]
      refine .bind (.pure ?_)
      rw [if_neg (by simp [hv])]
      exact .bind (.note (.pure rfl))
  | @value depth n child i id b e operands hin hnode hb hv hoperands he ih =>
      have htarget : (builtin unit).Target g n i child := ⟨id, b, hin, hnode, hb, hv⟩
      have htree : OperatorTree g (depth + 1) n i (some e) :=
        .value operands hin hnode hb hv hoperands he
      have hacyclic := (grounded_of_operatorTree htree).not_transGen htarget
      have hbehind : (builtin unit).Behind g n i child := ⟨child, htarget, .refl⟩
      rw [resolveInput, hin]
      dsimp only
      rw [hnode]
      dsimp only
      rw [lookup_some (c := builtin unit) hb]
      refine .bind (.pure ?_)
      rw [if_pos hv]
      refine .bind (.resolving ?_ ?_)
      · intro hseen
        exact absurd hseen (hstack child hbehind)
      · intro hnew
        refine .mono (ensures_within_shows hb hv he (fun hfield => .inr ⟨child, hbehind, .inl hfield⟩)
          ?_) ?_ fun _ _ h => h
        · intro j hj k mid hmid
          refine (ih j hj (Catalogue.short_inputs b (Registry.mem_catalogue hb) j hj) ?_).mono
            (fun _ _ hf => hf) fun _ _ hfault => hfault.imp_right fun hlong =>
              ⟨hlong.1, hlong.2.of_input htarget hb hj⟩
          intro m hm
          have hnode := hm.node?
          have hbehind := hm.of_input htarget hb hj
          obtain ⟨first, hfirst, hreach⟩ := hm
          have hedge : (builtin unit).ValueEdge g child first := ⟨b, j, hb, hj, hfirst⟩
          rw [hmid]
          intro hstacked
          rcases List.mem_append.1 hstacked with hold | htop
          · exact hstack m hbehind hold
          · have hid : m.id = child.id := List.mem_singleton.1 htop
            rw [hid, htarget.node?] at hnode
            obtain rfl := Option.some.inj hnode
            exact hacyclic (.head' hedge hreach)
        · rintro o mid ⟨f, rfl, hshows⟩
          exact .pure hshows

theorem valueLevel_eq (c : Compiler) (g : Graph) : c.valueLevel g = c.within g allowance 3 := rfl

theorem resolveValue_eq {c : Compiler} {b : Block} (hb : c.registry.get? n.kind = some b)
    (hnames : (b.inputs.map ValueInput.name).Nodup) (hi : i ∈ b.inputs) (consumer : Int) :
    c.resolveValue g n i.name consumer =
      c.resolveInput g (c.valueLevel g) n i >>= fun f => pure (some (f.asOperand consumer)) := by
  rw [resolveValue, lookup_some hb, pure_bind, find?_of_nodup_map hnames hi]

/-- The value inputs are distinct, so the fragment under the name of an input is that input's own. -/
theorem operand_shows {b : Block} {e : Expr} {values : List (String × Fragment)}
    {mid : Context} (hnames : (b.inputs.map ValueInput.name).Nodup) (hi : i ∈ b.inputs)
    (htree : OperatorTree g depth n i (some e)) (hdefault : i.default.all Literal.isShort = true)
    (hstack : ∀ m, (builtin unit).Behind g n i m → m.id ∉ ctx.resolving)
    (hrun : (builtin unit).resolveInputs g ((builtin unit).within g k 3) n [] b.inputs ctx =
      .ok values mid) : ((values.lookup i.name).getD .empty).Shows e := by
  have hall : Ensures ((builtin unit).resolveInputs g ((builtin unit).within g k 3) n [] b.inputs) ctx
      (fun done _ => ∀ j ∈ b.inputs, j.name = i.name → ((done.lookup j.name).getD .empty).Shows e)
      (fun _ _ => True) := by
    refine ensures_resolveInputs_good (fun slot f => slot = i.name → f.Shows e) ?_
    intro j hj mid hmid
    by_cases hname : j.name = i.name
    · obtain rfl : j = i := List.inj_on_of_nodup_map hnames hj hi hname
      have hholds :=
        ensures_resolveInput_holds (k := k) htree hdefault fun m hm => hmid ▸ hstack m hm
      exact hholds.mono (fun _ _ hf _ => hf) fun _ _ _ => trivial
    · exact .of_forall (fun _ _ _ h => absurd h hname) fun _ _ _ => trivial
  exact hall.result hrun i hi rfl

/-- The text of a value input reads back as the tree of operators behind it. Where no operand is
degraded there is such a tree, and what a consumer gets is a phrase of its tier, with no looser operator
outside of parentheses; the grammar gives that phrase the same tree up to the grouping of joins. Only a
tree deeper than the allowance is refused, and one with an integer of more digits than the limit. -/
theorem value_text_reads_back (unit : String) (ctx : Context) {g : Graph} {n : Node} {b : Block}
    {i : ValueInput} (hb : (Registry.builtin []).get? n.kind = some b) (hi : i ∈ b.inputs)
    (hwhole : (builtin unit).Undegraded g n i)
    (hstack : ∀ m, (builtin unit).Behind g n i m → m.id ∉ ctx.resolving) :
    ∃ e, (∃ depth, OperatorTree g depth n i (some e)) ∧ ∀ consumer,
      ((∃ f mid, (builtin unit).resolveValue g n i.name consumer ctx = .ok (some f) mid ∧
          Script.ReadsAs (phraseUpTo consumer) f.text e) ∨
        ((∀ depth, OperatorTree g depth n i (some e) → 300 < depth) ∧
          ∃ mid, (builtin unit).resolveValue g n i.name consumer ctx = .error .tooDeep mid) ∨
        (builtin unit).LongBehind g n i ∧ ∃ mid,
          (builtin unit).resolveValue g n i.name consumer ctx = .error (.render .integerLimit) mid) ∧
      ∀ k values texts mid,
        (builtin unit).resolveInputs g ((builtin unit).within g k 3) n [] b.inputs ctx =
          .ok values mid →
        Script.ReadsAs (phraseUpTo consumer)
          (((builtin unit).arguments n b values texts).operand i.name consumer) e := by
  have hblock := Registry.mem_catalogue hb
  have hnames := Catalogue.nodup_inputs b hblock
  obtain ⟨depth, t, htree, hsome⟩ := exists_operatorTree hwhole.grounded
    (Catalogue.finite_defaults b hblock i hi) hwhole.literals hwhole.behind
  obtain ⟨e, rfl⟩ := Option.ne_none_iff_exists'.1 (hsome hwhole.filled)
  have hdefault := Catalogue.short_inputs b hblock i hi
  refine ⟨e, ⟨depth, htree⟩, fun consumer => ⟨?_, ?_⟩⟩
  · rw [resolveValue_eq hb hnames hi, valueLevel_eq, bind_apply]
    cases hrun : (builtin unit).resolveInput g ((builtin unit).within g allowance 3) n i ctx with
    | ok f mid =>
        have hshows : f.Shows e := (ensures_resolveInput_holds htree hdefault hstack).result hrun
        have hreads := (hshows.asOperand consumer).readsAs (Script.phraseUpTo_ne_items consumer)
        exact .inl ⟨f.asOperand consumer, mid, rfl, hreads⟩
    | error fault mid =>
        have hallowance : allowance = 900 := rfl
        rcases (ensures_resolveInput_holds htree hdefault hstack).fault hrun with
          ⟨rfl, -⟩ | ⟨rfl, hlong⟩
        · refine .inr (.inl ⟨fun depth' htree' => ?_, mid, rfl⟩)
          rcases (ensures_resolveInput_holds htree' hdefault hstack).fault hrun with ⟨-, hdeep⟩ | ⟨h, -⟩
          · omega
          · cases h
        · exact .inr (.inr ⟨hlong, mid, rfl⟩)
  · intro k values texts mid hrun
    have hreads : Reads (phraseUpTo consumer)
        (((builtin unit).arguments n b values texts).operand i.name consumer) e :=
      (operand_shows hnames hi htree hdefault hstack hrun).asOperand consumer
    exact hreads.readsAs (Script.phraseUpTo_ne_items consumer)

/-- A node that subtracts. -/
def difference (id : String) (left right : Binding) : Node :=
  { id, kind := "math_arithmetic", inputs := [("A", left), ("B", right)],
    fields := [("OP", .text "MINUS")] }

/-- A sound with the notes of a node. -/
def sound (id notes : String) : Node :=
  { id, kind := "play_synth", inputs := [("NOTES", .node notes)] }

/-- A sound whose notes are `1 - (2 - 3)`. -/
def nestedDifference : Graph := ⟨[
  sound "p" "s",
  difference "s" (.literal (.scalar (.int 1))) (.node "t"),
  difference "t" (.literal (.scalar (.int 2))) (.literal (.scalar (.int 3)))]⟩

theorem slot_difference {b : Block} {j : ValueInput}
    (hb : (Registry.builtin []).get? "math_arithmetic" = some b) (hj : j ∈ b.inputs) :
    j.name = "A" ∨ j.name = "B" := by
  cases hb
  have hname : j.name ∈ ["A", "B"] := List.mem_map_of_mem hj
  simpa using hname

/-- A difference of literals and values is whole. -/
theorem whole_difference {id : String} {left right : Binding} {b : Block}
    (hb : (Registry.builtin []).get? "math_arithmetic" = some b)
    (hliteral : ∀ l, .literal l ∈ [left, right] → l.isFinite = true)
    (hvalue : ∀ id', .node id' ∈ [left, right] → ∀ m b', g.node? id' = some m →
      (Registry.builtin []).get? m.kind = some b' → b'.producesValue = true) :
    (builtin unit).Whole g (difference id left right) b where
  sides := by
    intro _ j hj
    refine ⟨Or.inl ?_, fun id' m b' hin => ?_⟩
    · rcases slot_difference hb hj with hname | hname
      · rw [hname]
        exact Option.some_ne_none left
      · rw [hname]
        exact Option.some_ne_none right
    · exact hvalue id' (List.mem_map_of_mem (f := Prod.snd) (Node.mem_inputs hin)) m b'
  literals := by
    intro slot l hin
    exact hliteral l (List.mem_map_of_mem (f := Prod.snd) (Node.mem_inputs hin))
  number := by
    intro hkind
    have hne : "math_arithmetic" ≠ "math_number" := by decide
    exact absurd hkind hne

theorem finiteLiterals_sound (id notes : String) : FiniteLiterals (sound id notes) := by
  intro slot l hin
  have hmem := Node.mem_inputs hin
  simp [sound] at hmem

theorem nestedDifference_undegraded {i : ValueInput} (hi : i.name = "NOTES") :
    (builtin unit).Undegraded nestedDifference (sound "p" "s") i where
  grounded := by
    refine .bound (by rw [hi]; rfl) rfl rfl fun _ j hj => ?_
    rcases slot_difference rfl hj with hname | hname
    · exact .free fun id h => by rw [hname] at h; cases h
    · refine .bound (by rw [hname]; rfl) rfl rfl fun _ j hj => ?_
      rcases slot_difference rfl hj with hname | hname
      · exact .free fun id h => by rw [hname] at h; cases h
      · exact .free fun id h => by rw [hname] at h; cases h
  filled := by
    refine ⟨Or.inl (by rw [hi]; exact Option.some_ne_none _), ?_⟩
    intro id m b hin hm hb
    rw [hi] at hin
    cases hin
    cases hm
    cases hb
    rfl
  literals := finiteLiterals_sound "p" "s"
  behind := by
    intro m b hm hb
    have hmem := Graph.mem_of_node? hm.node?
    simp only [nestedDifference, List.mem_cons, List.not_mem_nil, or_false] at hmem
    rcases hmem with rfl | rfl | rfl
    · have hplain : ¬ ((sound "p" "s").kind = "math_arithmetic" ∨ (sound "p" "s").kind = "text_join") := by
        decide
      exact ⟨fun h => absurd h hplain, finiteLiterals_sound "p" "s", by decide⟩
    · refine whole_difference hb ?_ ?_
      · simp [Literal.isFinite, Scalar.isFinite]
      · intro id' hid' m b' hm' hb'
        obtain rfl : id' = "t" := by simpa using hid'
        cases hm'
        cases hb'
        rfl
    · refine whole_difference hb ?_ ?_
      · rintro l hl
        rcases List.mem_pair.1 hl with h | h
        · cases h
          rfl
        · cases h
          rfl
      · simp

/-- The notes keep the parentheses on the right side that the tree needs. -/
theorem nestedDifference_reads_back : ∃ e f mid,
    (builtin "  ").resolveValue nestedDifference (sound "p" "s") "NOTES" Precedence.additive.rank {} =
        .ok (some f) mid ∧ f.text = "1 - (2 - 3)" ∧ Script.ReadsAs .sum f.text e := by
  obtain ⟨e, -, hreads⟩ := value_text_reads_back "  " {} rfl List.mem_cons_self
    (nestedDifference_undegraded rfl) (fun _ _ => List.not_mem_nil)
  have hrun : (builtin "  ").resolveValue nestedDifference (sound "p" "s") "NOTES"
      Precedence.additive.rank {} = .ok (some ⟨"1 - (2 - 3)", .named .additive⟩) {} := rfl
  rcases (hreads Precedence.additive.rank).1 with
    ⟨f, mid, hf, htext⟩ | ⟨-, mid, hdeep⟩ | ⟨-, mid, hlong⟩
  · cases hrun.symm.trans hf
    exact ⟨e, _, _, hrun, rfl, htext⟩
  · cases hrun.symm.trans hdeep
  · cases hrun.symm.trans hlong

end Compiler

end BlockMusic
