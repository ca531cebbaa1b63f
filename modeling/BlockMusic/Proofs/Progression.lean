import BlockMusic.Proofs.Enlargement
import BlockMusic.Proofs.Presence
import BlockMusic.Proofs.Queries

/-!
# Chord progressions

A chord progression writes nothing of its own: its text is the text of its body. What it adds is a
scope. A chain in a scope is written as it is outside one, node by node, and the only thing that tells
the two apart is a note about each motif of the chain, in front of the notes that are made while the
motif is written. The motifs further inside do not see the scope, since every block with a body opens
one of its own.
-/

namespace BlockMusic

namespace Graph

/-- The nodes along the `next` links from a node on, at most `more` of them. -/
def nextFrom (g : Graph) : Nat → Node → List Node
  | 0, _ => []
  | more + 1, n => n :: (n.next.bind g.node?).elim [] (nextFrom g more)

/-- The nodes along the `next` links from an id on. -/
def nextChain (g : Graph) (id : String) : List Node :=
  (g.node? id).elim [] (g.nextFrom g.nodes.length)

end Graph

namespace Catalogue

theorem motif_iff_kind : ∀ b ∈ blocks, b.scope = .motif ↔ b.kind = "defmotif" := by decide

theorem isStatement_of_motif : ∀ b ∈ blocks, b.scope = .motif → b.isStatement = true := by decide

theorem bodies_of_plain : ∀ b ∈ blocks, b.scope ≠ .motif → ¬ b.definesScope = true → b.bodies = [] := by
  decide

end Catalogue

/-- Neither the scope nor the notes matter to what is owned. -/
theorem Context.Tidy.retold {ctx : Context} (h : ctx.Tidy) (scope : Option String)
    (diagnostics : List Diagnostic) : ({ ctx with scope, diagnostics } : Context).Tidy := h

namespace Compiler

open Gen

/-- What is noted when a node of a chain is written with nothing around it. -/
def ownNotes (c : Compiler) (g : Graph) (n : Node) : List Diagnostic :=
  (contextBehind (c.lookup n >>= step (c.run g allowance) n) {}).diagnostics

/-- What is noted of a motif in a scope. -/
def hoistNotes (tag : String) (n : Node) : List Diagnostic :=
  if n.kind = "defmotif" then [.nestedMotif n.id tag] else []

theorem hoistNotes_of_motif {tag : String} {n : Node} {b : Block}
    (hb : (Registry.builtin []).get? n.kind = some b) (h : b.scope = .motif) :
    hoistNotes tag n = [.nestedMotif n.id tag] := by
  have hkind := (Catalogue.motif_iff_kind b (Registry.mem_catalogue hb)).1 h
  rw [hoistNotes, if_pos (Registry.kind_of_get? hb ▸ hkind)]

theorem hoistNotes_of_ne_motif {tag : String} {n : Node} {b : Block}
    (hb : (Registry.builtin []).get? n.kind = some b) (h : b.scope ≠ .motif) :
    hoistNotes tag n = [] := by
  have hkind := mt (Catalogue.motif_iff_kind b (Registry.mem_catalogue hb)).2 h
  rw [hoistNotes, if_neg (Registry.kind_of_get? hb ▸ hkind)]

theorem exists_answers_run {c : Compiler} {g : Graph} (hplain : c.registry.Plain) (k : Nat) {n : Node}
    {b : Block} (hb : c.registry.get? n.kind = some b) (hbodies : b.bodies = []) :
    ∃ q, Answers (c.run g k n b) q := by
  obtain ⟨q, _, hq, _⟩ := askAlike_run (g := g) hplain (K := fun _ => True) (fun _ _ _ _ => trivial)
    (.inl rfl : k = k ∨ False) trivial hb hbodies
  exact ⟨q, hq⟩

section Scope

variable {unit : String} {g : Graph} {n : Node} {b : Block} {text : String} {k more : Nat}

theorem tidy_of_scope (scope : Option String) : ({ scope } : Context).Tidy :=
  fun _ ho => absurd ho List.not_mem_nil

theorem visit_bind_eq_ok {α : Type} {f : Unit → Gen α} {scope : Option String} {a : α} {d : Context} :
    (Gen.change (fun ctx => ctx.visit n.name) >>= f) { scope } = .ok a d ↔
      f () { scope, visited := [n.id] } = .ok a d := by
  rw [bind_eq_ok]
  constructor
  · rintro ⟨u, mid, hvisit, hrest⟩
    obtain ⟨_, rfl⟩ := change_visit_eq_ok.1 hvisit
    exact hrest
  · intro h
    exact ⟨(), _, change_visit_eq_ok.2 ⟨List.not_mem_nil, rfl⟩, h⟩

theorem step_motif_in_scope (tag : String) {d : Context} (hs : b.isStatement = true)
    (hmotif : b.scope = .motif) (h : step ((builtin unit).run g k) n b {} = .ok text d) :
    step ((builtin unit).run g k) n b { scope := some tag } =
      .ok text { d with scope := some tag, diagnostics := .nestedMotif n.id tag :: d.diagnostics } := by
  have huniform : Uniform ((builtin unit).run g k n b) := (Uniform.closed.run k n b).2
  rw [step, entry_statement hs, statement_motif hmotif] at h ⊢
  obtain ⟨_, htext, o, mid, hmid, rfl⟩ := (visit_hoisting_eq_ok (tidy_of_scope none)).1 h
  obtain ⟨added, hadded, hdisjoint, rfl⟩ := (huniform.ok_iff (tidy_of_scope none).motifStart).1 hmid
  have hmid' := (huniform.ok_iff (tidy_of_scope (some tag)).motifStart).2
    ⟨added, hadded, hdisjoint, rfl⟩
  exact (visit_hoisting_eq_ok (tidy_of_scope (some tag))).2 ⟨List.not_mem_nil, htext, o, _, hmid', rfl⟩

theorem step_other_in_scope (tag : String) {d : Context}
    (hb : (Registry.builtin []).get? n.kind = some b) (hmotif : b.scope ≠ .motif)
    (h : step ((builtin unit).run g k) n b {} = .ok text d) :
    step ((builtin unit).run g k) n b { scope := some tag } = .ok text { d with scope := some tag } := by
  rw [step] at h ⊢
  have hentry := visit_bind_eq_ok.1 h
  apply visit_bind_eq_ok.2
  cases hs : b.isStatement with
  | false =>
      rw [entry_value hs] at hentry ⊢
      cases hentry
      rfl
  | true =>
      rw [entry_statement hs] at hentry ⊢
      by_cases hscope : b.definesScope = true
      · rw [statement_scope hmotif hscope] at hentry ⊢
        obtain ⟨o, mid, hinside, hlast⟩ := bind_eq_ok.1 hentry
        obtain ⟨mid', hrun, rfl⟩ := inside_eq_ok.1 hinside
        cases hlast
        exact bind_eq_ok.2 ⟨o, _, inside_eq_ok.2 ⟨mid', hrun, rfl⟩, rfl⟩
      · rw [statement_plain hmotif hscope] at hentry ⊢
        obtain ⟨o, mid, hrun, hlast⟩ := bind_eq_ok.1 hentry
        cases hlast
        -- without bodies the node is written by a query, which does not look at the scope
        have hbodies := Catalogue.bodies_of_plain b (Registry.mem_catalogue hb) hmotif hscope
        obtain ⟨q, hq⟩ := exists_answers_run (c := builtin unit) (g := g) Registry.plain_builtin k hb
          hbodies
        rw [hq] at hrun
        obtain ⟨houtcome, rfl⟩ := ofDraft_eq_ok.1 hrun
        refine bind_eq_ok.2 ⟨o, _, ?_, rfl⟩
        rw [hq]
        exact ofDraft_eq_ok.2 ⟨houtcome, rfl⟩

/-- A node of a chain is written in a scope as it is outside; a motif is noted before. -/
theorem step_in_scope (tag : String) {d : Context} (hb : (Registry.builtin []).get? n.kind = some b)
    (h : step ((builtin unit).run g k) n b {} = .ok text d) :
    step ((builtin unit).run g k) n b { scope := some tag } =
      .ok text { d with scope := some tag, diagnostics := hoistNotes tag n ++ d.diagnostics } := by
  by_cases hmotif : b.scope = .motif
  · have hs := Catalogue.isStatement_of_motif b (Registry.mem_catalogue hb) hmotif
    rw [hoistNotes_of_motif hb hmotif]
    exact step_motif_in_scope tag hs hmotif h
  · rw [hoistNotes_of_ne_motif hb hmotif]
    exact step_other_in_scope tag hb hmotif h

theorem chainFrom_step {c : Compiler} {r : Level} :
    c.chainFrom g r (more + 1) n =
      c.lookup n >>= fun b => step r n b >>= fun text => c.follow g r more n text := by
  rw [chainFrom_succ]
  congr 1
  funext b
  rw [step, bind_assoc]

@[simp] theorem stop_apply {α : Type} (err : CompileError) (ctx : Context) :
    (Gen.stop err : Gen α) ctx = .error (.compile err) ctx := rfl

theorem follow_eq_ok {c : Compiler} {r : Level} {s : String} {ctx mid : Context} :
    c.follow g r more n text ctx = .ok s mid ↔
      (n.next = none ∧ s = terminated text ∧ mid = ctx) ∨
        ∃ m rest, n.next.bind g.node? = some m ∧ c.chainFrom g r more m ctx = .ok rest mid ∧
          s = terminated text ++ rest := by
  unfold follow
  cases n.next with
  | none => simp [eq_comm]
  | some id =>
      cases hnode : g.node? id with
      | none => simp [hnode]
      | some m =>
          simp only [hnode, bind_eq_ok, pure_apply, Option.bind_some]
          constructor
          · rintro ⟨rest, mid', hrest, h⟩
            cases h
            exact .inr ⟨m, rest, rfl, hrest, rfl⟩
          · rintro (⟨h, _⟩ | ⟨m', rest, hm, hrest, rfl⟩)
            · cases h
            · cases hm
              exact ⟨rest, mid, hrest, rfl⟩

theorem ownNotes_eq {d : Context} (hb : (Registry.builtin []).get? n.kind = some b)
    (h : step ((builtin unit).run g allowance) n b {} = .ok text d) :
    (builtin unit).ownNotes g n = d.diagnostics := by
  have hb' : (builtin unit).registry.get? n.kind = some b := hb
  rw [ownNotes, lookup_some hb', pure_bind, contextBehind, h]

/-- The context behind a node of a chain is tidy, and has no scope and no stack. -/
theorem tidy_and_bare_of_step {d : Context}
    (h : step ((builtin unit).run g k) n b {} = .ok text d) : d.Tidy ∧ d.bare = {} := by
  have hclosed := Uniform.closed.step (Uniform.closed.run (c := builtin unit) (g := g) k) n b
  exact ⟨hclosed.2.tidy (tidy_of_scope none) h,
    Context.bare_eq_of_restored ((hclosed.1 {}).result h)⟩

theorem uniform_chainFrom (more : Nat) (n : Node) :
    Uniform ((builtin unit).chainFrom g ((builtin unit).run g k) more n) :=
  (Uniform.closed.chainFrom (Uniform.closed.run k) more n).2

/-- A chain is written in a scope as it is outside, with a note in front of the notes of each motif. -/
theorem chainFrom_in_scope (tag : String) {body : String} {d : Context}
    (h : (builtin unit).chainFrom g ((builtin unit).run g allowance) more n {} = .ok body d) :
    d.diagnostics = (g.nextFrom more n).flatMap ((builtin unit).ownNotes g) ∧
      (builtin unit).chainFrom g ((builtin unit).run g allowance) more n { scope := some tag } =
        .ok body { d with
          scope := some tag
          diagnostics := (g.nextFrom more n).flatMap fun m =>
            hoistNotes tag m ++ (builtin unit).ownNotes g m } := by
  induction more generalizing n body d with
  | zero => cases h
  | succ more ih =>
      rw [chainFrom_step] at h ⊢
      cases hb : (builtin unit).registry.get? n.kind with
      | none =>
          rw [lookup_none hb] at h
          cases h
      | some b =>
          rw [lookup_some hb, pure_bind] at h ⊢
          obtain ⟨text, mid, hstep, hfollow⟩ := bind_eq_ok.1 h
          obtain ⟨htidy, hbare⟩ := tidy_and_bare_of_step hstep
          have hown := ownNotes_eq hb hstep
          have hstep' := step_in_scope tag hb hstep
          rcases follow_eq_ok.1 hfollow with ⟨hnext, rfl, rfl⟩ | ⟨m, rest, hm, hrest, rfl⟩
          · have hall : g.nextFrom (more + 1) n = [n] := by simp [Graph.nextFrom, hnext]
            rw [hall, List.flatMap_singleton, List.flatMap_singleton, hown]
            exact ⟨rfl, bind_eq_ok.2 ⟨text, _, hstep', follow_eq_ok.2 (.inl ⟨hnext, rfl, rfl⟩)⟩⟩
          · obtain ⟨added, hadded, hdisjoint, rfl⟩ := ((uniform_chainFrom more m).ok_iff htidy).1 hrest
            rw [hbare] at hadded
            obtain ⟨hnotes, hadded'⟩ := ih hadded
            have hall : g.nextFrom (more + 1) n = n :: g.nextFrom more m := by
              simp [Graph.nextFrom, hm]
            rw [hall, List.flatMap_cons, List.flatMap_cons, hown, ← hnotes]
            refine ⟨rfl, bind_eq_ok.2 ⟨text, _, hstep', follow_eq_ok.2 (.inr ⟨m, rest, hm, ?_, rfl⟩)⟩⟩
            have hresolving : mid.resolving = [] := congrArg Context.resolving hbare
            have hbare' : ({ mid with
                scope := some tag
                diagnostics := hoistNotes tag n ++ mid.diagnostics } : Context).bare =
                  { scope := some tag } := by
              rw [Context.bare, hresolving]
            rw [← hbare'] at hadded'
            exact ((uniform_chainFrom more m).ok_iff (htidy.retold _ _)).2
              ⟨_, hadded', hdisjoint, rfl⟩

end Scope

/-! ## The progression -/

section Progression

variable {unit : String} {g : Graph} {n first : Node} {head : String}

/-- The text of a body without the newlines at its end, as a statement. -/
def inlined (text : String) : String :=
  terminated (String.ofList (Text.dropEndWhile (· == '\n') text.toList))

theorem exists_progression : ∃ b i, (Registry.builtin []).get? "play_chord_progression" = some b ∧
    b.isStatement = true ∧ b.scope = .music ∧ b.inputs = [] ∧ b.bodies = [i] ∧ i.name = "DO" ∧
    b.kind = "play_chord_progression" :=
  ⟨_, _, rfl, rfl, rfl, rfl, rfl, rfl, rfl⟩

theorem ofDraft_done {α : Type} (a : α) : Gen.ofDraft (.done a) = pure a := by
  funext ctx
  simp [Gen.ofDraft, Draft.done]

theorem inside_bind_pure {α β : Type} (tag : String) (x : Gen α) (f : α → β) :
    Gen.inside tag (x >>= fun a => pure (f a)) = Gen.inside tag x >>= fun a => pure (f a) := by
  funext ctx
  rw [bind_apply, Gen.inside, Gen.inside, bind_apply]
  cases x (ctx.withScope (some tag)) with
  | ok a mid => rfl
  | error e mid => rfl

/-- The level of a progression is that of its body, and the writer takes over the text. -/
theorem run_progression {b : Block} {i : BodyInput} (hinputs : b.inputs = []) (hbodies : b.bodies = [i])
    (hi : i.name = "DO") (hkind : b.kind = "play_chord_progression")
    (hbody : n.body? "DO" = some head) (hfirst : g.node? head = some first) :
    (builtin unit).run g allowance n b =
      (builtin unit).chain g ((builtin unit).run g (allowance - 4)) first >>= fun text =>
        pure (.text (String.ofList (Text.dropEndWhile (· == '\n') text.toList))) := by
  have hwithin : (builtin unit).within g allowance 4 = (builtin unit).run g (allowance - 4) :=
    if_pos (by decide)
  have hwriter : ∀ text, (builtin unit).writer b.kind ((builtin unit).arguments n b [] [("DO", text)]) =
      .done (.text (String.ofList (Text.dropEndWhile (· == '\n') text.toList))) := by
    intro text
    rw [hkind]
    rfl
  rw [run_eq, level, hinputs, hbodies, hwithin]
  simp only [resolveInputs, compileBodies, compileBody, hi, hbody, hfirst, pure_bind, bind_assoc]
  congr 1
  funext text
  rw [← ofDraft_done, ← hwriter]
  rfl

/-- The run of a progression is that of its body, in the scope of the progression. -/
theorem compileBodyText_progression (unit : String) (hkind : n.kind = "play_chord_progression")
    (hbody : n.body? "DO" = some head) (hnext : n.next = none) (hn : g.node? n.id = some n)
    (hfirst : g.node? head = some first) :
    (builtin unit).compileBodyText g (some n.id) {} =
      (Gen.inside Scope.music.tag
          ((builtin unit).chain g ((builtin unit).run g (allowance - 4)) first) >>=
        fun text => pure (inlined text)) { visited := [n.id] } := by
  obtain ⟨b, i, hb, hs, hscope, hinputs, hbodies, hi, hbkind⟩ := exists_progression
  have hb' : (builtin unit).registry.get? n.kind = some b := hkind ▸ hb
  have hmotif : b.scope ≠ .motif := by rw [hscope]; decide
  have hdefines : b.definesScope = true := by rw [Block.definesScope, hscope]; rfl
  obtain ⟨more, hmore⟩ : ∃ more, g.nodes.length = more + 1 :=
    ⟨g.nodes.length - 1, by have := List.length_pos_of_mem (Graph.mem_of_node? hn); omega⟩
  show (builtin unit).compileChain g n.id {} = _
  rw [compileChain, hn]
  show (builtin unit).chainFrom g _ g.nodes.length n {} = _
  have hvisit : Gen.change (fun ctx => ctx.visit n.name) {} = .ok () { visited := [n.id] } :=
    change_visit_eq_ok.2 ⟨List.not_mem_nil, rfl⟩
  have hfollow : ∀ r text, (builtin unit).follow g r more n text = pure (terminated text) := by
    intro r text
    rw [follow, hnext]
  rw [hmore, chainFrom_succ, lookup_some hb', pure_bind, bind_apply, hvisit, entry_statement hs,
    statement_scope hmotif hdefines, hscope,
    run_progression hinputs hbodies hi hbkind hbody hfirst, inside_bind_pure]
  simp only [hfollow, bind_assoc, pure_bind]
  rfl

theorem compileBodyText_eq_ok {body : String} {ctx mid : Context} :
    (builtin unit).compileBodyText g (some head) ctx = .ok body mid ↔
      ∃ first, g.node? head = some first ∧
        (builtin unit).chain g ((builtin unit).run g allowance) first ctx = .ok body mid := by
  change (builtin unit).compileChain g head ctx = _ ↔ _
  unfold compileChain
  cases g.node? head with
  | none => simp
  | some first => simp

/-- The chain of a program in the scope of a progression that the graph does not have. -/
theorem chain_in_progression (hnew : ∀ m ∈ g.nodes, m.id ≠ n.id) {body : String} {d : Context}
    (hfirst : g.node? head = some first)
    (hchain : (builtin unit).chain g ((builtin unit).run g allowance) first {} = .ok body d) :
    inlined body = body ∧
      d.diagnostics = (g.nextChain head).flatMap ((builtin unit).ownNotes g) ∧
      ∃ mid, (builtin unit).chain g ((builtin unit).run g allowance) first
          { scope := some Scope.music.tag, visited := [n.id] } = .ok body mid ∧
        mid.hoisted = d.hoisted ∧
        mid.diagnostics = (g.nextChain head).flatMap fun m =>
          hoistNotes Scope.music.tag m ++ (builtin unit).ownNotes g m := by
  have hnodes : g.nextChain head = g.nextFrom g.nodes.length first := by
    rw [Graph.nextChain, hfirst]
    rfl
  obtain ⟨nodes, macros, htext, hgained⟩ :=
    (ensures_chainFrom_laid (writes_run g unit allowance) g.nodes.length (tidy_of_scope none)
      (node?_id_of_node? hfirst)).result hchain
  obtain ⟨hnotes, hscoped⟩ := chainFrom_in_scope Scope.music.tag hchain
  rw [hnodes]
  refine ⟨htext.terminated_dropEnd, hnotes, ?_⟩
  have hunvisited : [n.id].Disjoint d.visited := by
    rw [List.singleton_disjoint, hgained.visited]
    obtain ⟨ls, hlaid, _⟩ := htext.toList_eq
    rintro hid
    obtain ⟨m, hm, hmid⟩ := List.mem_map.1 hid
    exact hnew m (Graph.mem_of_node? (hlaid.complete.nodes m hm)) hmid
  have htidy : ({ scope := some Scope.music.tag, visited := [n.id] } : Context).Tidy :=
    fun _ ho => absurd ho List.not_mem_nil
  have hrun := ((uniform_chainFrom g.nodes.length first).ok_iff htidy).2
    ⟨_, hscoped, hunvisited, rfl⟩
  exact ⟨_, hrun, rfl, rfl⟩

/-- A chord progression around the chain of a program changes none of its text. In whatever place it is
added to the graph, the new program has the macros and the body of the old one, unless the nesting stops
it, and the same diagnostics, but for one about each motif of the chain itself, in front of those of the
motif. -/
theorem progression_transparent {front back : List Node} {p : Program}
    (hkind : n.kind = "play_chord_progression") (hbody : n.body? "DO" = some head)
    (hnext : n.next = none) (hnew : ∀ m ∈ front ++ back, m.id ≠ n.id)
    (hcompile : ((builtin unit).compile ⟨front ++ back⟩ (some head)).outcome = .ok p)
    (hdeep : ((builtin unit).compile ⟨front ++ n :: back⟩ (some n.id)).outcome ≠
      .error (.compile .tooDeep)) :
    p.diagnostics = (Graph.nextChain ⟨front ++ back⟩ head).flatMap
        ((builtin unit).ownNotes ⟨front ++ back⟩) ∧
      ((builtin unit).compile ⟨front ++ n :: back⟩ (some n.id)).outcome = .ok { p with
        diagnostics := (Graph.nextChain ⟨front ++ back⟩ head).flatMap fun m =>
          hoistNotes Scope.music.tag m ++ (builtin unit).ownNotes ⟨front ++ back⟩ m } := by
  have hg := Graph.enlarged_insert hnew
  obtain ⟨body, d, hrun, rfl⟩ := outcome_eq_ok.1 hcompile
  obtain ⟨first, hfirst, hchain⟩ := compileBodyText_eq_ok.1 hrun
  obtain ⟨hsame, hnotes, mid, hscoped, hmacros, hnotes'⟩ := chain_in_progression hnew hfirst hchain
  have heq := compileBodyText_progression unit hkind hbody hnext (Graph.node?_insert hnew)
    (hg.node? hfirst)
  have hinside : Gen.inside Scope.music.tag ((builtin unit).chain ⟨front ++ back⟩
      ((builtin unit).run ⟨front ++ back⟩ allowance) first) { visited := [n.id] } =
        .ok body (mid.withScope none) :=
    inside_eq_ok.2 ⟨mid, hscoped, rfl⟩
  have hrepeats := (repeats_chain (c := builtin unit) hg allowance (allowance - 4) first).inside
    Scope.music.tag
  rw [bind_apply] at heq
  rcases hrepeats _ _ _ hinside with hinside' | ⟨mid', hinside'⟩
  · rw [hinside'] at heq
    refine ⟨hnotes, ?_⟩
    rw [outcome_of_ok heq, hsame, ← hmacros, ← hnotes']
    rfl
  · rw [hinside'] at heq
    exact absurd (outcome_of_error heq) hdeep

end Progression

def motifOf (id name : String) (bodies : List (String × String)) : Node :=
  { id, kind := "defmotif", inputs := [("NAME", .literal (.scalar (.text name)))], bodies }

/-- A statement without its value, and behind it a motif with another one inside. -/
def melody : List Node := [
  { id := "t", kind := "set_tempo", next := some "m" },
  motifOf "m" "verse" [("DO", "k")],
  motifOf "k" "riff" []]

def progressionOf (id head : String) : Node :=
  { id, kind := "play_chord_progression", bodies := [("DO", head)] }

/-- In the progression only the motif of the chain itself is noted once more. -/
theorem melody_transparent :
    ((builtin "  ").compile ⟨melody⟩ (some "t")).outcome =
      .ok ⟨["defmotif \"verse\" do\nend\n", "defmotif \"riff\" do\nend\n"], "set_tempo()\n",
        [.unboundInput ⟨"t", "set_tempo"⟩ "TEMPO", .nestedMotif "k" "motif"]⟩ ∧
    ((builtin "  ").compile ⟨progressionOf "p" "t" :: melody⟩ (some "p")).outcome =
      .ok ⟨["defmotif \"verse\" do\nend\n", "defmotif \"riff\" do\nend\n"], "set_tempo()\n",
        [.unboundInput ⟨"t", "set_tempo"⟩ "TEMPO", .nestedMotif "m" "music", .nestedMotif "k" "motif"]⟩ := by
  have hcompile : ((builtin "  ").compile ⟨[] ++ melody⟩ (some "t")).outcome =
      .ok ⟨["defmotif \"verse\" do\nend\n", "defmotif \"riff\" do\nend\n"], "set_tempo()\n",
        [.unboundInput ⟨"t", "set_tempo"⟩ "TEMPO", .nestedMotif "k" "motif"]⟩ := by
    decide +kernel
  have hdeep : ((builtin "  ").compile ⟨[] ++ progressionOf "p" "t" :: melody⟩ (some "p")).outcome ≠
      .error (.compile .tooDeep) := by
    decide +kernel
  have hnotes : ((Graph.nextChain ⟨[] ++ melody⟩ "t").flatMap fun m =>
      hoistNotes Scope.music.tag m ++ (builtin "  ").ownNotes ⟨[] ++ melody⟩ m) =
        [.unboundInput ⟨"t", "set_tempo"⟩ "TEMPO", .nestedMotif "m" "music", .nestedMotif "k" "motif"] := by
    decide +kernel
  have hwrapped := (progression_transparent (n := progressionOf "p" "t") rfl rfl rfl (by decide)
    hcompile hdeep).2
  rw [hnotes] at hwrapped
  exact ⟨hcompile, hwrapped⟩

end Compiler

end BlockMusic
