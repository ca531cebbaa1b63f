import BlockMusic.Proofs.Accepted
import BlockMusic.Proofs.Reach
import BlockMusic.Proofs.Session
import BlockMusic.Proofs.ValueWriters

/-!
# The faults of a compilation

A compilation of a graph that was read through its schema ends with a program or with a compile error,
with one exception. The schema sees to it that the numbers of a graph are finite, but not that all of
them can be written. An integer can have more digits than the limit, wherever it stands: in a literal, in
a number field, or in a field that is read as a text or as a choice. And a number field may hold a text
that denotes a number beyond the greatest double, or an integer with more digits than a reader takes.
The writer of such a node fails, and its fault is the only one that goes past the compile errors: the
table of writers has one for each block, each operator is one of the table of operators, and each macro
is there when it is filled.
-/

namespace BlockMusic

/-! ## The built-in writers -/

namespace Arguments

/-- Why the number that a text denotes cannot be written: it is not finite, or an integer with too many
digits. There is no reason if it can be written, or if the text denotes no number. -/
def unwritable? (s : String) : Option RenderError :=
  match readNumber s with
  | .integer _ => none
  | .float x => if x.isFinite then none else some (.nonFinite x)
  | .longInteger digits => some (.digitLimit digits)
  | .none => none

theorem outcome_number_of_unwritable {a : Arguments} {name s : String} {e : RenderError}
    (hvalue : a.fieldValue name = some (.text s)) (h : unwritable? s = some e) :
    (a.number name).outcome = .error (.render e) := by
  rw [number, hvalue, numberIn]
  unfold unwritable? at h
  cases hread : readNumber s with
  | integer n => simp [hread] at h
  | none => simp [hread] at h
  | longInteger digits =>
      rw [hread] at h
      cases h
      rfl
  | float x =>
      rw [hread] at h
      by_cases hx : x.isFinite = true
      · simp [hx] at h
      · simp only [hx] at h
        cases h
        simp [Script.float, hx, Draft.ofRender, Draft.fail]

/-- The number of a finite value is refused for its digits, or as a text. -/
theorem unwritable_of_number {a : Arguments} {name : String} {fault : Fault}
    (hfinite : ∀ x, a.fieldValue name = some (.float x) → x.isFinite = true)
    (h : (a.number name).outcome = .error fault) :
    (a.Overlong name ∧ fault = .render .integerLimit) ∨
      ∃ s e, a.fieldValue name = some (.text s) ∧ unwritable? s = some e ∧ fault = .render e := by
  have htext : ∀ {reading}, numberIn (a.fieldValue name) = reading →
      (∀ x, reading = .float x → x.isFinite = false) → (∀ z, reading ≠ .integer z) →
      reading ≠ .none → ∃ s, a.fieldValue name = some (.text s) ∧ readNumber s = reading := by
    rintro reading rfl hinfinite hinteger hnone
    cases hvalue : a.fieldValue name with
    | none => simp [hvalue, numberIn] at hnone
    | some value =>
        rw [hvalue] at hinfinite hinteger hnone
        cases value with
        | text s => exact ⟨s, rfl, rfl⟩
        | int z => exact absurd rfl (hinteger z)
        | float x => exact absurd (hfinite x hvalue) (by simp [hinfinite x rfl])
        | bool b => exact absurd rfl hnone
  rcases error_of_number h with hlong | ⟨x, hx, hinfinite, rfl⟩ | ⟨digits, hdigits, rfl⟩
  · exact .inl hlong
  · obtain ⟨s, hs, hread⟩ := htext hx (by rintro y ⟨⟩; exact hinfinite) (by simp) (by simp)
    exact .inr ⟨s, _, hs, by simp [unwritable?, hread, hinfinite], rfl⟩
  · obtain ⟨s, hs, hread⟩ := htext hdigits (by simp) (by simp) (by simp)
    exact .inr ⟨s, _, hs, by simp [unwritable?, hread], rfl⟩

end Arguments

/-- Something in the node cannot be written, for the given reason. -/
inductive Node.Unwritable (n : Node) : RenderError → Prop
  | literal {slot : String} (h : n.LongLiteral slot) : n.Unwritable .integerLimit
  | field (h : n.LongField) : n.Unwritable .integerLimit
  /-- The text of a number field. -/
  | number {s : String} {e : RenderError} (hkind : n.kind = "math_number")
      (hfield : n.field? "NUM" = some (.text s)) (h : Arguments.unwritable? s = some e) :
      n.Unwritable e

namespace Graph

/-- Something in a node of the graph cannot be written, for the given reason. -/
def Unwritable (g : Graph) (e : RenderError) : Prop := ∃ n ∈ g.nodes, n.Unwritable e

/-- The faults that a walk over the graph can meet. -/
def Foreseen (g : Graph) : Fault → Prop
  | .compile _ => True
  | .tooDeep => True
  | .render e => g.Unwritable e
  | .unknownOperator _ => False

end Graph

namespace Compiler

open Gen

variable {unit : String} {g : Graph} {n : Node} {b : Block} {ctx : Context}

/-- A built-in writer fails only for a field that cannot be written. -/
theorem unwritable_of_writer {a : Arguments} {fault : Fault} (hblock : a.block ∈ Catalogue.blocks)
    (hkind : a.node.kind = a.block.kind) (hfinite : a.node.Finite)
    (h : ((builtin unit).writer a.block.kind a).outcome = .error fault) :
    ∃ e, fault = .render e ∧ a.node.Unwritable e := by
  rcases error_of_writer unit hblock h with ⟨hlong, rfl⟩ | ⟨hnumber, h⟩
  · exact ⟨_, rfl, .field hlong⟩
  have hvalue := Writer.fieldValue_number (Catalogue.numberField _ hblock hnumber)
  have hgiven : ∀ {value : Scalar}, a.fieldValue "NUM" = some value → value ≠ .int 0 →
      a.node.field? "NUM" = some value := by
    intro value hsome hzero
    rw [hvalue] at hsome
    cases hfield : a.node.field? "NUM" with
    | none => exact absurd (by simpa [hfield] using hsome.symm) hzero
    | some given => simpa [hfield] using hsome
  rcases Arguments.unwritable_of_number (fun x hx => by
    obtain ⟨l₁, l₂, hfields, -⟩ := List.lookup_eq_some_iff.1 (hgiven hx (by simp))
    exact hfinite.fields ("NUM", .float x) (by simp [hfields])) h with
    ⟨hlong, rfl⟩ | ⟨s, e, htext, he, rfl⟩
  · exact ⟨_, rfl, .field (hlong.longField hblock)⟩
  · exact ⟨e, rfl, .number (hkind.trans hnumber) (hgiven htext (by simp)) he⟩

/-! ## Walks -/

/-- The level meets no other faults than those that are foreseen. -/
def Foresees (g : Graph) (r : Level) : Prop :=
  ∀ n b ctx, n ∈ g.nodes → (Registry.builtin []).get? n.kind = some b →
    Ensures (r n b) ctx (fun _ _ => True) (fun e _ => g.Foreseen e)

theorem ensures_resolveInput_foreseen {r : Level} {i : ValueInput} (hr : Foresees g r)
    (hn : n ∈ g.nodes) (hfinite : n.Finite) (hdefault : i.default.all Literal.isFinite = true)
    (hshort : i.default.all Literal.isShort = true) :
    Ensures ((builtin unit).resolveInput g r n i) ctx (fun _ _ => True)
      (fun e _ => g.Foreseen e) := by
  refine ensures_resolveInput (fun _ _ => trivial) ?_ ?_ (fun _ _ _ => trivial)
    (fun _ _ _ _ _ => trivial) (fun _ _ _ _ _ _ _ => trivial) ?_
  · intro l _ hl
    rw [hl] at hdefault hshort
    obtain ⟨text, htext⟩ := Literal.exists_script hdefault hshort
    exact ensures_literalFragment (fun _ _ => trivial) fun e he => by cases htext.symm.trans he
  · intro l hl
    refine ensures_literalFragment (fun _ _ => trivial) fun e he => ?_
    obtain ⟨hlong, rfl⟩ :=
      Literal.script_eq_error (hfinite.literals i.name l (Node.mem_inputs hl)) he
    exact ⟨n, hn, .literal ⟨l, hl, hlong⟩⟩
  · intro id child b _ hchild hb _
    refine .resolving (fun _ => trivial) fun _ => ?_
    exact hr child b _ (Graph.mem_of_node? hchild) hb

theorem ensures_chainFrom_foreseen {r : Level} (hr : Foresees g r) (more : Nat) (hn : n ∈ g.nodes) :
    Ensures ((builtin unit).chainFrom g r more n) ctx (fun _ _ => True)
      (fun e _ => g.Foreseen e) := by
  induction more generalizing n ctx with
  | zero => exact .stop trivial
  | succ more ih =>
      refine ensures_chainFrom_succ (fun _ => trivial) (fun _ => trivial) fun b hb _ => ?_
      have hstep : ∀ start, Ensures (entry r n b) start (fun _ _ => True)
          (fun e _ => g.Foreseen e) := by
        intro start
        refine ensures_entry (fun _ => ensures_statement ?_ ?_ ?_) fun _ => trivial
        · exact fun _ => hr n b _ hn hb
        · exact fun _ _ => hr n b _ hn hb
        · exact fun _ _ => hr n b _ hn hb
      refine (hstep _).mono (fun text mid _ => ?_) fun _ _ he => he
      refine ensures_follow (fun _ => trivial) (fun _ _ _ => trivial) fun id following _ hnext => ?_
      exact ih (Graph.mem_of_node? hnext)

theorem ensures_compileBody_foreseen {r : Level} (hr : Foresees g r) (i : BodyInput) :
    Ensures ((builtin unit).compileBody g r n i) ctx (fun _ _ => True)
      (fun e _ => g.Foreseen e) := by
  refine ensures_compileBody (fun _ => trivial) (fun _ _ _ => trivial) fun id first _ hfirst => ?_
  exact ensures_chainFrom_foreseen hr _ (Graph.mem_of_node? hfirst)

theorem foresees_run (hfinite : ∀ n ∈ g.nodes, n.Finite) (k : Nat) :
    Foresees g ((builtin unit).run g k) := by
  apply run_induction (P := Foresees g)
  · exact fun _ _ _ _ _ => ensures_beyond trivial
  · intro k hvalues hbodies n b ctx hn hb
    have hmem := Registry.mem_catalogue hb
    rw [run_eq]
    apply ensures_level
    refine .mono (ensures_resolveInputs (fun _ _ _ => True) trivial fun i _ _ _ hi _ => ?_)
      (fun fragments mid _ => ?_) fun _ _ he => he
    · exact ensures_resolveInput_foreseen hvalues hn (hfinite n hn)
        (Catalogue.finite_defaults b hmem i hi) (Catalogue.short_inputs b hmem i hi)
    · refine .mono (ensures_compileBodies (fun _ _ _ => True) trivial fun i _ _ _ _ _ => ?_)
        (fun texts mid' _ => ?_) fun _ _ he => he
      · exact ensures_compileBody_foreseen hbodies i
      · refine .ofDraft (fun _ _ => trivial) fun e he => ?_
        obtain ⟨e, rfl, hunwritable⟩ :=
          unwritable_of_writer (a := (builtin unit).arguments n b fragments texts) hmem
            (Registry.kind_of_get? hb).symm (hfinite n hn) he
        exact ⟨n, hn, hunwritable⟩

theorem ensures_chain_foreseen (hfinite : ∀ n ∈ g.nodes, n.Finite) (hn : n ∈ g.nodes) :
    Ensures ((builtin unit).chain g ((builtin unit).run g allowance) n) ctx (fun _ _ => True)
      (fun e _ => g.Foreseen e) :=
  ensures_chainFrom_foreseen (foresees_run hfinite allowance) _ hn

/-- Looking for the heads of the chains can only meet an unknown kind. -/
theorem ensures_statementsAmong {c : Compiler} (ns : List Node) :
    Ensures (c.statementsAmong ns) ctx (fun found _ => ∀ m ∈ found, m ∈ ns)
      (fun e _ => ∃ err, e = .compile err) := by
  induction ns generalizing ctx with
  | nil => exact .pure (by simp)
  | cons n ns ih =>
      refine .bind (ensures_lookup (fun b _ => ?_) fun _ => ⟨_, rfl⟩)
      split
      · refine .bind (ih.mono (fun found mid hfound => .pure ?_) fun _ _ he => he)
        exact List.forall_mem_cons.2
          ⟨List.mem_cons_self, fun m hm => List.mem_cons_of_mem n (hfound m hm)⟩
      · refine .bind (.note (ih.mono (fun found mid hfound => ?_) fun _ _ he => he))
        exact fun m hm => List.mem_cons_of_mem n (hfound m hm)

theorem ensures_compileHeads_foreseen (hfinite : ∀ n ∈ g.nodes, n.Finite) {hs : List Node}
    (hhs : ∀ h ∈ hs, h ∈ g.nodes) :
    Ensures ((builtin unit).compileHeads g hs) ctx (fun _ _ => True)
      (fun e _ => g.Foreseen e) := by
  induction hs generalizing ctx with
  | nil => exact .pure trivial
  | cons h hs ih =>
      obtain ⟨hh, hhs⟩ := List.forall_mem_cons.1 hhs
      refine .bind ((ensures_chain_foreseen hfinite hh).mono (fun _ _ _ => ?_) fun _ _ he => he)
      exact .bind ((ih hhs).mono (fun _ _ _ => .pure trivial) fun _ _ he => he)

theorem ensures_compileBodyText_foreseen (hfinite : ∀ n ∈ g.nodes, n.Finite)
    (root : Option String) :
    Ensures ((builtin unit).compileBodyText g root) ctx (fun _ _ => True)
      (fun e _ => g.Foreseen e) := by
  cases root with
  | some id =>
      change Ensures ((builtin unit).compileChain g id) ctx _ _
      unfold compileChain
      cases hnode : g.node? id with
      | none => exact .stop trivial
      | some first => exact ensures_chain_foreseen hfinite (Graph.mem_of_node? hnode)
  | none =>
      have hheads : Ensures ((builtin unit).heads g) ctx (fun hs _ => ∀ h ∈ hs, h ∈ g.nodes)
          (fun e _ => g.Foreseen e) := by
        refine .bind ((ensures_statementsAmong _).mono (fun found mid hfound => .pure ?_) ?_)
        · intro h hh
          have hmem := hfound h ((List.mergeSort_perm found headBefore).mem_iff.1 hh)
          exact (List.mem_filter.1 hmem).1
        · rintro e mid ⟨err, rfl⟩
          trivial
      refine .bind (hheads.mono (fun hs mid hhs => ?_) fun _ _ he => he)
      exact ensures_compileHeads_foreseen hfinite hhs

/-- The macro of a motif is there when its text is put in. -/
theorem exists_fillAt {c : Compiler} {k : Nat} {o : Output} {mid : Context} (ht : ctx.Tidy)
    (h : c.run g k n b (ctx.motifStart n.id) = .ok o mid) (text : String) :
    mid.fillAt? ctx.macros.length text = some (mid.fill ctx.macros.length text) := by
  have hgrows := ((closed_onlyAdds.run k n b _ ht.motifStart).result h).2.1.macros.length_le
  have hslot : (ctx.macros.length : Int) < mid.macros.length := by
    simp [Context.motifStart] at hgrows
    omega
  have hfront : ¬ (ctx.macros.length : Int) < 0 := by omega
  simp [Context.fillAt?, Context.place?, hfront, hslot]

/-! ## Nodes that cannot be written -/

theorem ofDraft_refused {d : Draft Output} {e : RenderError} {ctx : Context}
    {Q : Output → Context → Prop} (h : d.outcome = .error (.render e)) :
    Ensures (Gen.ofDraft d) ctx Q (fun fault _ => fault = .render e) :=
  .ofDraft (fun _ ho => by cases h.symm.trans ho)
    fun _ hfault => (Except.error.inj (h.symm.trans hfault)).symm

/-- A statement that is refused ends the compilation. -/
theorem outcome_of_refused {rest : List Node} {e : RenderError} (hg : g.nodes = n :: rest)
    (hb : (Registry.builtin []).get? n.kind = some b) (hstatement : b.isStatement = true)
    (h : ∀ ctx : Context, ctx.resolving = [] →
      Ensures ((builtin unit).level g ((builtin unit).within g allowance 3)
        ((builtin unit).within g allowance 4) n b) ctx
        (fun _ _ => False) (fun fault _ => fault = .render e)) :
    ((builtin unit).compile g (some n.id)).outcome = .error (.render e) := by
  rw [← run_eq] at h
  have hnode : g.node? n.id = some n := by simp [Graph.node?, hg]
  have hfails : Ensures ((builtin unit).compileBodyText g (some n.id)) {}
      (fun _ _ => False) (fun fault _ => fault = .render e) := by
    change Ensures ((builtin unit).compileChain g n.id) {} _ _
    rw [compileChain, hnode]
    change Ensures ((builtin unit).chainFrom g _ g.nodes.length n) {} _ _
    rw [hg]
    refine ensures_chainFrom_succ (fun hnone => ?_) (fun hseen => by cases hseen) fun b' hb' _ => ?_
    · cases hb.symm.trans hnone
    · obtain rfl := Option.some.inj (hb.symm.trans hb')
      refine ensures_entry (fun _ => ensures_statement (fun _ => ?_) (fun _ _ => ?_) fun _ _ => ?_)
        fun hvalue => ?_
      · exact (h _ rfl).mono (fun _ _ hfalse => hfalse.elim) fun _ _ he => he
      · exact (h _ rfl).mono (fun _ _ hfalse => hfalse.elim) fun _ _ he => he
      · exact (h _ rfl).mono (fun _ _ hfalse => hfalse.elim) fun _ _ he => he
      · rw [hstatement] at hvalue
        cases hvalue
  cases hrun : (builtin unit).compileBodyText g (some n.id) {} with
  | ok body ctx => exact (hfails.result hrun).elim
  | error fault ctx =>
      rw [outcome_of_error hrun, hfails.fault hrun]
      rfl

/-- A tempo that is given by a binding. -/
def boundTempo (binding : Binding) : Node :=
  { id := "a", kind := "set_tempo", inputs := [("TEMPO", binding)] }

/-- A statement with the value of a field. -/
def fieldNode (kind field : String) (value : Scalar) : Node :=
  { id := "a", kind, fields := [(field, value)] }

/-- A tempo that is given by a number node. -/
def numberTempo (value : Scalar) : Graph :=
  ⟨[boundTempo (.node "b"), { id := "b", kind := "math_number", fields := [("NUM", value)] }]⟩

/-- The graphs in which an integer stands as a literal, as a number, as a text and as a choice. -/
def integerGraphs (z : Int) : List Graph := [
  ⟨[boundTempo (.literal (.scalar (.int z)))]⟩,
  numberTempo (.int z),
  ⟨[fieldNode "trigger_sample" "NAME" (.int z)]⟩,
  ⟨[fieldNode "with_fx" "EFFECT" (.int z)]⟩]

theorem accepted_numberTempo (s : String) : (numberTempo (.text s)).Accepted :=
  ⟨.value, (numberTempo (.text s)).toJson, rfl⟩

theorem accepted_integerGraphs (z : Int) : ∀ g ∈ integerGraphs z, g.Accepted := by
  have hschema : ∀ g ∈ integerGraphs z, Graph.schema .value g.toJson = .valid g := by
    simp only [integerGraphs, List.forall_mem_cons, List.not_mem_nil, false_imp_iff, implies_true,
      and_true]
    exact ⟨rfl, rfl, rfl, rfl⟩
  exact fun g hg => ⟨.value, g.toJson, hschema g hg⟩

/-- A number node that is refused ends the compilation. -/
theorem outcome_numberTempo {value : Scalar} {e : RenderError}
    (h : ∀ a : Arguments, a.fieldValue "NUM" = some value →
      (a.number "NUM").outcome = .error (.render e)) :
    ((builtin unit).compile (numberTempo value) (some "a")).outcome = .error (.render e) := by
  refine outcome_of_refused (n := boundTempo (.node "b")) rfl rfl rfl fun ctx hstack => ?_
  refine ensures_level (Ensures.bind (ensures_resolveInput (fun habsent => by cases habsent)
    (fun _ habsent => by cases habsent) (fun _ hliteral => by cases hliteral) ?_ ?_ ?_ ?_))
  · rintro id ⟨⟩ ⟨⟩
  · rintro id child ⟨⟩ ⟨⟩ ⟨⟩
  · rintro id child b ⟨⟩ ⟨⟩ ⟨⟩ ⟨⟩
  · rintro id child b ⟨⟩ ⟨⟩ ⟨⟩ -
    refine .resolving (fun hseen => ?_) fun _ => ?_
    · rw [hstack] at hseen
      cases hseen
    · exact ensures_level (Ensures.pure (Ensures.pure
        (ofDraft_refused (Draft.outcome_bind_of_error (h _ rfl) _))))

theorem outcome_integerGraphs {z : Int} (h : Numeral.digitLimit < Numeral.digitCount z) :
    ∀ g ∈ integerGraphs z,
      ((builtin unit).compile g (some "a")).outcome = .error (.render .integerLimit) := by
  have hz : Script.integer z = .error .integerLimit := Script.integer_eq_error.2 ⟨h, rfl⟩
  have hdraft : (Draft.ofRender (Script.integer z)).outcome = .error (.render .integerLimit) :=
    Draft.outcome_ofRender_eq_error.2 ⟨_, hz, rfl⟩
  simp only [integerGraphs, List.forall_mem_cons, List.not_mem_nil, false_imp_iff, implies_true,
    and_true]
  refine ⟨?literal, ?number, ?text, ?choice⟩
  case literal =>
    refine outcome_of_refused (n := boundTempo (.literal (.scalar (.int z)))) rfl rfl rfl fun ctx _ => ?_
    refine ensures_level (Ensures.bind (ensures_resolveInput (fun habsent => by cases habsent)
      (fun _ habsent => by cases habsent) ?_ (fun _ hnode => by cases hnode)
      (fun _ _ hnode => by cases hnode) (fun _ _ _ hnode => by cases hnode)
      fun _ _ _ hnode => by cases hnode))
    rintro l ⟨⟩
    exact ensures_literalFragment (fun _ htext => by cases hz.symm.trans htext)
      fun e he => congrArg Fault.render (Except.error.inj (he.symm.trans hz))
  case number =>
    refine outcome_numberTempo fun a hvalue => ?_
    rw [Arguments.number, hvalue]
    exact hdraft
  case text =>
    refine outcome_of_refused (n := fieldNode "trigger_sample" "NAME" (.int z)) rfl rfl rfl fun _ _ => ?_
    exact ensures_level (Ensures.pure (Ensures.pure
      (ofDraft_refused (Draft.outcome_bind_of_error hdraft _))))
  case choice =>
    refine outcome_of_refused (n := fieldNode "with_fx" "EFFECT" (.int z)) rfl rfl rfl fun _ _ => ?_
    refine ensures_level (Ensures.pure (Ensures.bind (ensures_compileBody (fun _ => Ensures.pure ?_)
      (fun _ hbody => by cases hbody) fun _ _ hbody => by cases hbody)))
    refine ofDraft_refused (Draft.outcome_bind_of_error (x := Arguments.token _ "EFFECT") ?_ _)
    exact Draft.outcome_bind_of_error (x := .ofRender (Scalar.quoted (.int z))) hdraft _

/-- The compilation of an accepted graph ends with a program, with a compile error, or with the fault of
something that cannot be written: an integer with too many digits, or the text of a number. And every
text of such a number and every such integer has graphs that end with its fault. The table of writers
fits the blocks, and whenever a motif has been written its macro is there to be filled. -/
theorem only_unwritable_numbers_escape (unit : String) :
    ofTable (Registry.builtin []) Writer.builtin unit = .ok (builtin unit) ∧
    (∀ (g : Graph) (root : Option String) (fault : Fault), g.Accepted →
      ((builtin unit).compile g root).outcome = .error fault →
      (∃ e, fault = .compile e) ∨ ∃ e, fault = .render e ∧ g.Unwritable e) ∧
    (∀ (g : Graph) (ctx mid : Context) k n b o, ctx.Tidy →
      (builtin unit).run g k n b (ctx.motifStart n.id) = .ok o mid →
      ∀ text, mid.fillAt? ctx.macros.length text = some (mid.fill ctx.macros.length text)) ∧
    (∀ s e, Arguments.unwritable? s = some e → (numberTempo (.text s)).Accepted ∧
      ((builtin unit).compile (numberTempo (.text s)) (some "a")).outcome = .error (.render e)) ∧
    ∀ z, 4300 < Numeral.digitCount z → ∀ g ∈ integerGraphs z, g.Accepted ∧
      ((builtin unit).compile g (some "a")).outcome = .error (.render .integerLimit) := by
  refine ⟨rfl, ?_, fun _ _ _ _ _ _ _ ht hrun => exists_fillAt ht hrun, ?_, ?_⟩
  · intro g root fault haccepted hfault
    have hforeseen : Ensures ((builtin unit).compileBodyText g root) {} (fun _ _ => True)
        (fun e _ => g.Foreseen e) :=
      ensures_compileBodyText_foreseen haccepted.finite root
    cases hrun : (builtin unit).compileBodyText g root {} with
    | ok body ctx =>
        rw [outcome_of_ok hrun] at hfault
        cases hfault
    | error fault' ctx =>
        rw [outcome_of_error hrun] at hfault
        have hmet : g.Foreseen fault' := hforeseen.fault hrun
        cases fault' with
        | compile e => exact .inl ⟨e, (Except.error.inj hfault).symm⟩
        | tooDeep => exact .inl ⟨.tooDeep, (Except.error.inj hfault).symm⟩
        | render e => exact .inr ⟨e, (Except.error.inj hfault).symm, hmet⟩
        | unknownOperator token => exact hmet.elim
  · intro s e h
    exact ⟨accepted_numberTempo s,
      outcome_numberTempo fun a hvalue => Arguments.outcome_number_of_unwritable hvalue h⟩
  · exact fun z hz g hg => ⟨accepted_integerGraphs z g hg, outcome_integerGraphs hz g hg⟩

/-- A number beyond the greatest double is an accepted text, and its fault is no compile error. -/
theorem number_beyond_doubles_escapes : ¬ ∀ (g : Graph) (root : Option String), g.Accepted →
    (∃ p, ((builtin "  ").compile g root).outcome = .ok p) ∨
      ∃ e, ((builtin "  ").compile g root).outcome = .error (.compile e) := by
  intro h
  have hfault : ((builtin "  ").compile (numberTempo (.text "1e999")) (some "a")).outcome =
      .error (.render (.nonFinite (.infinity false))) := rfl
  rcases h (numberTempo (.text "1e999")) (some "a") (accepted_numberTempo _) with ⟨p, hp⟩ | ⟨e, he⟩
  · rw [hfault] at hp
    cases hp
  · rw [hfault] at he
    cases he

end Compiler

end BlockMusic
