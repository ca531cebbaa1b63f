import BlockMusic.Proofs.Reach
import BlockMusic.Proofs.Session

/-!
# Values are queries

A value has no bodies, so a walk that resolves values visits nothing and hoists nothing: all it does to
the context is to note. What it notes and answers depends on nothing but the stack of nodes being
resolved, as a draft does on nothing at all; and of the stack only the nodes matter that the walk may
come to. Off these, the stack shows in the path of a loop and nowhere else.

Two walks over one value with different allowances answer alike, unless one of them is stopped by the
nesting.
-/

namespace BlockMusic

/-- The fault without the stack on which a loop of values was found. -/
def Fault.offStack : Fault → Fault
  | .compile (.cyclicValue node kind _) => .compile (.cyclicValue node kind [])
  | fault => fault

namespace Draft

variable {α β : Type}

/-- The drafts are the same but for the stack of a fault. If `deep` holds, the nesting may also have
stopped one of them. -/
def Matches (deep : Prop) (d d' : Draft α) : Prop :=
  (d.notes = d'.notes ∧ d.outcome.mapError Fault.offStack = d'.outcome.mapError Fault.offStack) ∨
    deep ∧ (d.outcome = .error .tooDeep ∨ d'.outcome = .error .tooDeep)

theorem Matches.refl (deep : Prop) (d : Draft α) : Matches deep d d := .inl ⟨rfl, rfl⟩

theorem andThen_of_error {d : Draft α} {e : Fault} (h : d.outcome = .error e) (f : α → Draft β) :
    (d.andThen f).outcome = .error e := by
  rw [andThen, h]

theorem Matches.andThen {deep : Prop} {d d' : Draft α} {f f' : α → Draft β}
    (h : Matches deep d d') (hf : ∀ a, Matches deep (f a) (f' a)) :
    Matches deep (d.andThen f) (d'.andThen f') := by
  rcases h with ⟨hnotes, houtcome⟩ | ⟨hdeep, h | h⟩
  · obtain ⟨outcome, notes⟩ := d
    obtain ⟨outcome', notes'⟩ := d'
    obtain rfl : notes = notes' := hnotes
    cases outcome with
    | error e =>
        cases outcome' with
        | error e' => exact .inl ⟨rfl, congrArg Except.error (Except.error.inj houtcome)⟩
        | ok a' => cases houtcome
    | ok a =>
        cases outcome' with
        | error e' => cases houtcome
        | ok a' =>
            obtain rfl : a = a' := Except.ok.inj houtcome
            rcases hf a with ⟨hn, ho⟩ | ⟨hdeep, ho⟩
            · exact .inl ⟨congrArg (notes ++ ·) hn, ho⟩
            · exact .inr ⟨hdeep, ho⟩
  · exact .inr ⟨hdeep, .inl (andThen_of_error h f)⟩
  · exact .inr ⟨hdeep, .inr (andThen_of_error h f')⟩

end Draft

namespace Context

@[simp] theorem noteAll_nil (ctx : Context) : ctx.noteAll [] = ctx := by
  rw [noteAll, List.append_nil]

@[simp] theorem noteAll_append (ctx : Context) (ds es : List Diagnostic) :
    (ctx.noteAll ds).noteAll es = ctx.noteAll (ds ++ es) := by
  simp [noteAll]

end Context

namespace Compiler

namespace Gen

variable {α β : Type}

/-- What a run returns, or the fault it ends with. -/
def result (x : Gen α) (ctx : Context) : Except Fault α :=
  match x ctx with
  | .ok a _ => .ok a
  | .error e _ => .error e

/-- The walk only asks: it ends as the draft for the stack that it starts on. -/
def Answers (x : Gen α) (q : List String → Draft α) : Prop :=
  ∀ ctx, x ctx = ofDraft (q ctx.resolving) ctx

namespace Answers

theorem pure (a : α) : Answers (Pure.pure a) fun _ => .done a := fun ctx => by
  simp [ofDraft, Draft.done]

theorem fault (e : Fault) : Answers (throw e : Gen α) fun _ => .fail e := fun ctx => by
  simp only [ofDraft, Draft.fail, Context.noteAll_nil]
  rfl

theorem note (d : Diagnostic) : Answers (Gen.note d) fun _ => .note d := fun _ => rfl

theorem ofDraft (d : Draft α) : Answers (Gen.ofDraft d) fun _ => d := fun _ => rfl

theorem bind {x : Gen α} {f : α → Gen β} {q : List String → Draft α}
    {qf : α → List String → Draft β} (hx : Answers x q) (hf : ∀ a, Answers (f a) (qf a)) :
    Answers (x >>= f) fun stack => (q stack).andThen fun a => qf a stack := by
  intro ctx
  show _ = Gen.ofDraft ((q ctx.resolving).andThen fun a => qf a ctx.resolving) ctx
  rw [bind_apply, hx ctx]
  obtain ⟨outcome, notes⟩ := q ctx.resolving
  cases outcome with
  | error e => rfl
  | ok a =>
      have hnext : f a (ctx.noteAll notes) = Gen.ofDraft (qf a ctx.resolving) (ctx.noteAll notes) :=
        hf a (ctx.noteAll notes)
      refine hnext.trans ?_
      simp [Gen.ofDraft, Draft.andThen]

/-- While a node is being resolved it is on the stack. -/
theorem resolving {x : Gen α} {q : List String → Draft α} (n : NodeName) (hx : Answers x q) :
    Answers (Gen.resolving n x) fun stack =>
      if n.id ∈ stack then .fail (.compile (.cyclicValue (some n.id) (some n.kind) stack))
      else q (stack ++ [n.id]) := by
  intro ctx
  by_cases h : n.id ∈ ctx.resolving
  · simp [Gen.resolving, Context.enterNode, h, Gen.ofDraft, Draft.fail]
  · simp only [Gen.resolving, Context.enterNode, if_neg h, hx _, Gen.ofDraft]
    cases (q (ctx.resolving ++ [n.id])).outcome with
    | ok a => simp [Context.noteAll]
    | error e => simp [Context.noteAll]

theorem contextBehind {x : Gen α} {q : List String → Draft α} (h : Answers x q) (ctx : Context) :
    x.contextBehind ctx = ctx.noteAll (q ctx.resolving).notes := by
  rw [Gen.contextBehind, h ctx, Gen.ofDraft]
  cases (q ctx.resolving).outcome with
  | ok a => rfl
  | error e => rfl

theorem result {x : Gen α} {q : List String → Draft α} (h : Answers x q) (ctx : Context) :
    x.result ctx = (q ctx.resolving).outcome := by
  rw [Gen.result, h ctx, Gen.ofDraft]
  cases (q ctx.resolving).outcome with
  | ok a => rfl
  | error e => rfl

end Answers

/-- Two walks that only ask, and whose answers match on stacks that end alike and hold no node of `V`
in front of that. -/
def AskAlike (V : String → Prop) (deep : Prop) (x x' : Gen α) : Prop :=
  ∃ q q', Answers x q ∧ Answers x' q' ∧ ∀ base base' inner, (∀ id, V id → id ∉ base) →
    (∀ id, V id → id ∉ base') → Draft.Matches deep (q (base ++ inner)) (q' (base' ++ inner))

namespace AskAlike

variable {V : String → Prop} {deep : Prop}

theorem of_draft {x : Gen α} {d : Draft α} (h : Answers x fun _ => d) : AskAlike V deep x x :=
  ⟨_, _, h, h, fun _ _ _ _ _ => .refl deep d⟩

theorem lockstep : Lockstep fun _ x x' => AskAlike V deep x x' where
  pure a := of_draft (.pure a)
  fault e := of_draft (.fault e)
  note d := of_draft (.note d)
  bind := by
    rintro α β x x' f f' ⟨q, q', hq, hq', hmatch⟩ hf
    choose qf qf' hqf hqf' hmatchf using hf
    refine ⟨_, _, hq.bind hqf, hq'.bind hqf', ?_⟩
    intro base base' inner hbase hbase'
    exact (hmatch base base' inner hbase hbase').andThen fun a =>
      hmatchf a base base' inner hbase hbase'

/-- A node of `V` is on one stack if and only if it is on the other. -/
theorem resolving {x x' : Gen α} {n : NodeName} (hn : V n.id) (h : AskAlike V deep x x') :
    AskAlike V deep (Gen.resolving n x) (Gen.resolving n x') := by
  obtain ⟨q, q', hq, hq', hmatch⟩ := h
  refine ⟨_, _, hq.resolving n, hq'.resolving n, ?_⟩
  intro base base' inner hbase hbase'
  have hmem : n.id ∈ base ++ inner ↔ n.id ∈ inner := by simp [hbase n.id hn]
  have hmem' : n.id ∈ base' ++ inner ↔ n.id ∈ inner := by simp [hbase' n.id hn]
  by_cases h : n.id ∈ inner
  · rw [if_pos (hmem.2 h), if_pos (hmem'.2 h)]
    exact .inl ⟨rfl, rfl⟩
  · rw [if_neg (mt hmem.1 h), if_neg (mt hmem'.1 h), List.append_assoc, List.append_assoc]
    exact hmatch base base' (inner ++ [n.id]) hbase hbase'

theorem mono {V' : String → Prop} (hV : ∀ id, V id → V' id) {x x' : Gen α}
    (h : AskAlike V deep x x') : AskAlike V' deep x x' := by
  obtain ⟨q, q', hq, hq', hmatch⟩ := h
  refine ⟨q, q', hq, hq', fun base base' inner hbase hbase' => ?_⟩
  exact hmatch base base' inner (fun id hid => hbase id (hV id hid)) fun id hid =>
    hbase' id (hV id hid)

theorem tooDeep_right {x x' : Gen α} (hdeep : deep) (h : AskAlike V deep x x') :
    AskAlike V deep x (throw .tooDeep) := by
  obtain ⟨q, _, hq, _, _⟩ := h
  exact ⟨q, _, hq, .fault _, fun _ _ _ _ _ => .inr ⟨hdeep, .inr rfl⟩⟩

theorem tooDeep_left {x x' : Gen α} (hdeep : deep) (h : AskAlike V deep x x') :
    AskAlike V deep (throw .tooDeep) x' := by
  obtain ⟨_, q', _, hq', _⟩ := h
  exact ⟨_, q', .fault _, hq', fun _ _ _ _ _ => .inr ⟨hdeep, .inl rfl⟩⟩

/-- From two contexts with no node of `V` on their stacks the same is noted and the result is the same
but for the stack of a fault. -/
theorem notes_and_result {x x' : Gen α} (h : AskAlike V False x x') {ctx ctx' : Context}
    (hoff : ∀ id, V id → id ∉ ctx.resolving ∧ id ∉ ctx'.resolving) :
    (∃ notes, x.contextBehind ctx = ctx.noteAll notes ∧ x'.contextBehind ctx' = ctx'.noteAll notes) ∧
      (x.result ctx).mapError Fault.offStack = (x'.result ctx').mapError Fault.offStack := by
  obtain ⟨q, q', hq, hq', hmatch⟩ := h
  have hdrafts := hmatch ctx.resolving ctx'.resolving [] (fun id hid => (hoff id hid).1) fun id hid =>
    (hoff id hid).2
  rw [List.append_nil, List.append_nil] at hdrafts
  obtain ⟨hnotes, houtcome⟩ := hdrafts.resolve_right fun hdeep => hdeep.1
  rw [hq.result, hq'.result]
  exact ⟨⟨_, hq.contextBehind ctx, hnotes ▸ hq'.contextBehind ctx'⟩, houtcome⟩

theorem result_of_ok {x x' : Gen α} (h : AskAlike V deep x x') {ctx ctx' : Context}
    (hoff : ∀ id, V id → id ∉ ctx.resolving ∧ id ∉ ctx'.resolving) {a : α}
    (ha : x.result ctx = .ok a) : x'.result ctx' = .ok a ∨ x'.result ctx' = .error .tooDeep := by
  obtain ⟨q, q', hq, hq', hmatch⟩ := h
  have hdrafts := hmatch ctx.resolving ctx'.resolving [] (fun id hid => (hoff id hid).1) fun id hid =>
    (hoff id hid).2
  rw [List.append_nil, List.append_nil] at hdrafts
  rw [hq.result] at ha
  rw [hq'.result]
  rcases hdrafts with ⟨_, houtcome⟩ | ⟨_, hdeep | hdeep⟩
  · rw [ha] at houtcome
    cases hq' : (q' ctx'.resolving).outcome with
    | ok a' =>
        rw [hq'] at houtcome
        exact .inl (congrArg _ (Except.ok.inj houtcome).symm)
    | error e =>
        rw [hq'] at houtcome
        cases houtcome
  · rw [ha] at hdeep
    cases hdeep
  · exact .inr hdeep

end AskAlike

end Gen

open Gen

/-- The node is among the values that a declared slot leads to. -/
def BehindSlot (c : Compiler) (g : Graph) (n : Node) (slot : String) (m : Node) : Prop :=
  ∃ b i, c.registry.get? n.kind = some b ∧ i ∈ b.inputs ∧ i.name = slot ∧ c.Behind g n i m

theorem Behind.tail {c : Compiler} {g : Graph} {n m m' : Node} {i : ValueInput}
    (h : c.Behind g n i m) (hedge : c.ValueEdge g m m') : c.Behind g n i m' := by
  obtain ⟨first, hfirst, hreach⟩ := h
  exact ⟨first, hfirst, hreach.tail hedge⟩

theorem resolveInput_value {c : Compiler} {g : Graph} {r : Level} {n v : Node} {i : ValueInput}
    {id : String} {b : Block} (hin : n.input? i.name = some (.node id)) (hnode : g.node? id = some v)
    (hb : c.registry.get? v.kind = some b) (hvalue : b.producesValue = true) :
    c.resolveInput g r n i = Gen.resolving v.name (r v b) >>= fun output => pure (output.value b) := by
  simp only [resolveInput, hin, hnode, lookup_some hb, pure_bind, hvalue, if_true]

section Runs

variable {c : Compiler} {g : Graph} (hplain : c.registry.Plain)
include hplain

/-- The runs of a block without bodies only ask, and answer alike whatever their allowances. `K` is what
the nodes along the value inputs have in common. -/
theorem askAlike_run {deep : Prop} {K : Node → Prop} (hK : ∀ n m, K n → c.ValueEdge g n m → K m)
    {k k' : Nat} (hk : k = k' ∨ deep) {n : Node} {b : Block} (hn : K n)
    (hb : c.registry.get? n.kind = some b) (hbodies : b.bodies = []) :
    AskAlike (fun id => ∃ m, K m ∧ m.id = id) deep (c.run g k n b) (c.run g k' n b) := by
  -- one bound for both allowances: where one of them is used up, the other is compared with itself
  obtain ⟨bound, hbound⟩ : ∃ bound, max k k' < bound := ⟨_, Nat.lt_succ_self _⟩
  induction bound generalizing k k' n b with
  | zero => exact absurd hbound (Nat.not_lt_zero _)
  | succ bound ih =>
      rw [run_eq, run_eq]
      have hvalues : ∀ child b', K child → c.registry.get? child.kind = some b' → b'.bodies = [] →
          AskAlike (fun id => ∃ m, K m ∧ m.id = id) deep (c.within g k 3 child b')
            (c.within g k' 3 child b') := by
        intro child b' hchild hb' hbodies'
        unfold within
        by_cases h : 3 ≤ k
        · by_cases h' : 3 ≤ k'
          · rw [if_pos h, if_pos h']
            exact ih (hk.imp_left fun hk => by rw [hk]) hchild hb' hbodies' (by omega)
          · rw [if_pos h, if_neg h']
            have hself := ih (k := k - 3) (.inl rfl) hchild hb' hbodies' (by omega)
            exact hself.tooDeep_right (hk.resolve_left fun hk => h' (hk ▸ h))
        · by_cases h' : 3 ≤ k'
          · rw [if_neg h, if_pos h']
            have hself := ih (k := k' - 3) (.inl rfl) hchild hb' hbodies' (by omega)
            exact hself.tooDeep_left (hk.resolve_left fun hk => h (hk ▸ h'))
          · rw [if_neg h, if_neg h']
            exact AskAlike.lockstep.fault _
      unfold level
      rw [hbodies]
      refine AskAlike.lockstep.bind (AskAlike.lockstep.resolveInputs rfl [] b.inputs ?_) ?_
      · intro i hi child b' hin hnode hb' hvalue
        have hchild : K child := hK n child hn ⟨b, i, hb, hi, child.id, b', hin, hnode, hb', hvalue⟩
        have hbodies' := hplain.bodies_of_value b' (Registry.mem_of_get? hb') hvalue
        exact .resolving ⟨child, hchild, rfl⟩ (hvalues child b' hchild hb' hbodies')
      · intro fragments
        exact AskAlike.lockstep.bind (AskAlike.lockstep.pure []) fun _ => .of_draft (.ofDraft _)

theorem askAlike_target {deep : Prop} {k k' : Nat} (hk : k = k' ∨ deep) {n v : Node}
    {i : ValueInput} {b : Block} (htarget : c.Target g n i v)
    (hb : c.registry.get? v.kind = some b) :
    AskAlike (fun id => ∃ m, c.Behind g n i m ∧ m.id = id) deep
      (Gen.resolving v.name (c.run g k v b)) (Gen.resolving v.name (c.run g k' v b)) := by
  have hbehind : c.Behind g n i v := ⟨v, htarget, .refl⟩
  obtain ⟨_, b', _, _, hb', hvalue⟩ := htarget
  obtain rfl : b' = b := Option.some.inj (hb'.symm.trans hb)
  have hbodies := hplain.bodies_of_value b' (Registry.mem_of_get? hb) hvalue
  have hrun := askAlike_run hplain (fun _ _ => Behind.tail) hk hbehind hb hbodies
  exact .resolving ⟨v, hbehind, rfl⟩ hrun

/-- A value input is resolved alike from two contexts. -/
theorem askAlike_resolveInput {deep : Prop} {k k' : Nat} (hk : k = k' ∨ deep) (n : Node)
    (i : ValueInput) :
    AskAlike (fun id => ∃ m, c.Behind g n i m ∧ m.id = id) deep (c.resolveInput g (c.run g k) n i)
      (c.resolveInput g (c.run g k') n i) := by
  refine AskAlike.lockstep.resolveInput rfl fun child b hin hnode hb hvalue => ?_
  have htarget : c.Target g n i child := ⟨child.id, b, hin, hnode, hb, hvalue⟩
  exact askAlike_target hplain hk htarget hb

/-- Two inputs that are bound to one value are resolved alike. -/
theorem askAlike_shared {deep : Prop} {k k' : Nat} (hk : k = k' ∨ deep) {n n' v : Node}
    {i i' : ValueInput} (htarget : c.Target g n i v) (hsame : n'.input? i'.name = n.input? i.name) :
    AskAlike (fun id => ∃ m, c.Behind g n i m ∧ m.id = id) deep (c.resolveInput g (c.run g k) n i)
      (c.resolveInput g (c.run g k') n' i') := by
  obtain ⟨id, b, hin, hnode, hb, hvalue⟩ := id htarget
  rw [resolveInput_value hin hnode hb hvalue,
    resolveInput_value (hsame.trans hin) hnode hb hvalue]
  exact AskAlike.lockstep.bind (askAlike_target hplain hk htarget hb) fun _ =>
    AskAlike.lockstep.pure _

theorem askAlike_resolveValue (n : Node) (slot : String) (consumer : Int) :
    AskAlike (fun id => ∃ m, c.BehindSlot g n slot m ∧ m.id = id) False
      (c.resolveValue g n slot consumer) (c.resolveValue g n slot consumer) := by
  refine AskAlike.lockstep.lookup_bind rfl fun b hb => ?_
  cases hi : b.inputs.find? fun i => i.name = slot with
  | none => exact AskAlike.lockstep.pure _
  | some i =>
      refine AskAlike.lockstep.bind ?_ fun f => AskAlike.lockstep.pure _
      refine (askAlike_resolveInput hplain (.inl rfl) n i).mono ?_
      rintro id ⟨m, hm, rfl⟩
      have hname : i.name = slot := by simpa using List.find?_some hi
      exact ⟨m, ⟨b, i, hb, List.mem_of_find?_eq_some hi, hname, hm⟩, rfl⟩

end Runs

/-- To resolve a value is to ask. Whether it returns or fails, all that it does to the context is to
note. From two contexts on whose stacks none of the values behind the slot is being resolved, it notes
the same, and returns the same or ends with the same fault but for the path of a loop. A value that two
inputs share has one fragment, from whatever contexts and with whatever allowances it is resolved, as
long as the nesting does not stop it. -/
theorem values_only_ask (indentUnit : String) (g : Graph) (n : Node) (slot : String)
    (consumer : Int) :
    let c := builtin indentUnit
    let ask := c.resolveValue g n slot consumer
    (∀ ctx, ∃ notes, contextBehind ask ctx = ctx.noteAll notes) ∧
    (∀ ctx ctx' : Context,
      (∀ m, c.BehindSlot g n slot m → m.id ∉ ctx.resolving ∧ m.id ∉ ctx'.resolving) →
      (∃ notes, contextBehind ask ctx = ctx.noteAll notes ∧
        contextBehind ask ctx' = ctx'.noteAll notes) ∧
      (ask.result ctx).mapError Fault.offStack = (ask.result ctx').mapError Fault.offStack) ∧
    ∀ (i i' : ValueInput) (n' v : Node), c.Target g n i v → n'.input? i'.name = n.input? i.name →
      ∀ ctx ctx' : Context,
        (∀ m, c.Behind g n i m → m.id ∉ ctx.resolving ∧ m.id ∉ ctx'.resolving) →
        ∀ k k' f, (c.resolveInput g (c.run g k) n i).result ctx = .ok f →
          (c.resolveInput g (c.run g k') n' i').result ctx' = .ok f ∨
            (c.resolveInput g (c.run g k') n' i').result ctx' = .error .tooDeep := by
  intro c ask
  have hplain : c.registry.Plain := Registry.plain_builtin
  refine ⟨?_, ?_, ?_⟩
  · intro ctx
    obtain ⟨q, _, hq, _⟩ := askAlike_resolveValue hplain (g := g) n slot consumer
    exact ⟨_, hq.contextBehind ctx⟩
  · intro ctx ctx' hoff
    refine (askAlike_resolveValue hplain n slot consumer).notes_and_result ?_
    rintro id ⟨m, hm, rfl⟩
    exact hoff m hm
  · intro i i' n' v htarget hsame ctx ctx' hoff k k' f hf
    refine (askAlike_shared hplain (.inr trivial) htarget hsame).result_of_ok ?_ hf
    rintro id ⟨m, hm, rfl⟩
    exact hoff m hm

/-! ## A shared value -/

def tempoOf (id value : String) : Node :=
  { id, kind := "set_tempo", inputs := [("TEMPO", .node value)] }

/-- Two statements that share a sum, which takes one number twice. -/
def sharedSum : Graph := ⟨[
  tempoOf "a" "s",
  tempoOf "b" "s",
  { id := "s", kind := "math_arithmetic", inputs := [("A", .node "v"), ("B", .node "v")] },
  { id := "v", kind := "math_number" }]⟩

/-- A context inside a scope, with a value being resolved, a macro and a message. -/
def busy : Context where
  scope := some "music"
  macros := [some "defmotif m do\nend\n"]
  diagnostics := [.detachedValue ⟨"z", "math_number"⟩]
  resolving := ["z"]
  visited := ["y"]
  owners := [("y", 0)]

theorem not_resolving_of_behind {n m : Node} {i : ValueInput}
    (h : (builtin "  ").Behind sharedSum n i m) : m.id ∉ ({} : Context).resolving ∧
      m.id ∉ busy.resolving := by
  refine ⟨List.not_mem_nil, ?_⟩
  intro hm
  have hz : m.id = "z" := List.mem_singleton.1 hm
  have hnode := h.node?
  rw [hz] at hnode
  exact absurd (hnode.symm.trans (by decide : sharedSum.node? "z" = none)) (by simp)

theorem sharedSum_asked :
    let ask := (builtin "  ").resolveValue sharedSum (tempoOf "a" "s") "TEMPO" 0
    let input : ValueInput := { name := "TEMPO" }
    (∀ m, (builtin "  ").BehindSlot sharedSum (tempoOf "a" "s") "TEMPO" m →
      m.id ∉ ({} : Context).resolving ∧ m.id ∉ busy.resolving) ∧
    (∃ notes, contextBehind ask busy = busy.noteAll notes) ∧
    (ask.result {}).mapError Fault.offStack = (ask.result busy).mapError Fault.offStack ∧
    ask.result {} = .ok (some (.atom "(0 + 0)")) ∧
    (((builtin "  ").resolveInput sharedSum ((builtin "  ").run sharedSum 9) (tempoOf "b" "s")
        input).result busy = .ok ⟨"0 + 0", .named .additive⟩ ∨
      ((builtin "  ").resolveInput sharedSum ((builtin "  ").run sharedSum 9) (tempoOf "b" "s")
        input).result busy = .error .tooDeep) := by
  intro ask input
  have hoff : ∀ m, (builtin "  ").BehindSlot sharedSum (tempoOf "a" "s") "TEMPO" m →
      m.id ∉ ({} : Context).resolving ∧ m.id ∉ busy.resolving := by
    rintro m ⟨_, _, _, _, _, hm⟩
    exact not_resolving_of_behind hm
  obtain ⟨hframe, hsame, hshared⟩ := values_only_ask "  " sharedSum (tempoOf "a" "s") "TEMPO" 0
  have htarget : (builtin "  ").Target sharedSum (tempoOf "a" "s") input
      { id := "s", kind := "math_arithmetic", inputs := [("A", .node "v"), ("B", .node "v")] } :=
    ⟨"s", _, rfl, rfl, rfl, rfl⟩
  refine ⟨hoff, hframe busy, (hsame {} busy hoff).2, by decide +kernel, ?_⟩
  exact hshared input input (tempoOf "b" "s") _ htarget rfl {} busy (fun _ => not_resolving_of_behind)
    897 9 _ (by decide +kernel)

end Compiler

end BlockMusic
