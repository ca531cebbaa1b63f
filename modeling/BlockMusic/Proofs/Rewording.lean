import BlockMusic.Proofs.Hoisting

/-!
# The text of a motif stays in its macro

To see where the text of a node goes, another text is put in its place and the two compilations are
walked side by side. The text of a motif goes to its macro and nowhere else: not to the body, and not to
the macros of the motifs around it or inside it. The one other way into a program is that of a value,
and it is open only to the blocks that produce one.
-/

namespace BlockMusic

/-- The text of the macro of `id`, when `s` is written for `m`. -/
def rewordedText (m s id text : String) : String := if id = m then s ++ "\n" else text

/-- The output of the node `id`, when `s` is written for `m`. -/
def rewordedOutput (m s id : String) (o : Output) : Output := if id = m then .text s else o

theorem statement_rewordedOutput (m s id : String) (o : Output) :
    (rewordedOutput m s id o).statement ++ "\n" = rewordedText m s id (o.statement ++ "\n") := by
  unfold rewordedOutput rewordedText
  split <;> rfl

namespace Context

variable {ctx : Context} {m s : String}

/-- The context with another text in the macro of `m`. -/
def reworded (ctx : Context) (m s : String) : Context :=
  { ctx with
    macros := List.zipWith (fun id text => text.map (rewordedText m s id)) (ctx.owners.map Prod.fst)
      ctx.macros }

theorem length_reworded (h : ctx.Orderly) :
    (ctx.reworded m s).macros.length = ctx.macros.length := by
  simp [reworded, h.length]

theorem motifStart_reworded (h : ctx.Orderly) (id : String) :
    (ctx.motifStart id).reworded m s = (ctx.reworded m s).motifStart id := by
  have hlength : (ctx.owners.map Prod.fst).length = ctx.macros.length := by simp [h.length]
  simp [motifStart, reworded, List.zipWith_append hlength, h.length]

/-- The macro of a motif is filled with the other text where its own macro is filled. -/
theorem fill_reworded (h : ctx.Orderly) (d : Context) (scope : Option String) (id text : String) :
    ((((ctx.motifStart id).extend d).withScope scope).fill ctx.macros.length text).reworded m s =
      ((((ctx.motifStart id).extend d).reworded m s).withScope scope).fill ctx.macros.length
        (rewordedText m s id text) := by
  have hlength : (ctx.owners.map Prod.fst).length = ctx.macros.length := by simp [h.length]
  simp [motifStart, extend, reworded, List.zipWith_append hlength, h.length]

theorem hoisted_reworded {texts : List String} (hmacros : ctx.macros = texts.map some)
    (hne : ∀ t ∈ texts, t ≠ "") :
    (ctx.reworded m s).hoisted =
      List.zipWith (rewordedText m s) (ctx.owners.map Prod.fst) texts := by
  refine hoisted_of_macros ?_ fun t ht => ?_
  · rw [reworded, hmacros, List.zipWith_map_right, List.map_zipWith]
    rfl
  · rw [← List.map_uncurry_zip_eq_zipWith] at ht
    obtain ⟨⟨id, text⟩, hmem, rfl⟩ := List.mem_map.1 ht
    have htext : text ≠ "" := hne text (List.of_mem_zip hmem).2
    unfold Function.uncurry rewordedText
    split
    · simp
    · exact htext

end Context

namespace Compiler

open Gen

/-- The compiler that writes `s` for the node `m`, where it wrote something at all. -/
def rewording (c : Compiler) (m s : String) : Compiler :=
  { c with
    writer := fun kind a =>
      if a.node.id = m then do
        let _ ← c.writer kind a
        Writer.line s
      else c.writer kind a }

/-- No input takes a value from the node: it produces none, or no input is bound to it. -/
def Unread (c : Compiler) (g : Graph) (m : String) : Prop :=
  ∀ n ∈ g.nodes, ∀ slot child b, n.input? slot = some (.node m) → g.node? m = some child →
    c.registry.get? child.kind = some b → b.producesValue = false

/-- From the context with the other text the second walk does what the first one does, up to `w` in its
result. -/
structure Gen.Rewords {α : Type} (m s : String) (w : α → α) (x x' : Gen α) : Prop where
  orders : Orders x
  run : ∀ ⦃ctx a mid⦄, ctx.Orderly → x ctx = .ok a mid →
    x' (ctx.reworded m s) = .ok (w a) (mid.reworded m s)

namespace Gen.Rewords

variable {α β : Type} {m s : String} {x x' : Gen α} {f f' : α → Gen β} {w : β → β}

theorem bind_of_ok (hx : Rewords m s id x x')
    (hf : ∀ ctx a mid, x ctx = .ok a mid → Rewords m s w (f a) (f' a)) :
    Rewords m s w (x >>= f) (x' >>= f') where
  orders := by
    intro ctx b mid hctx h
    obtain ⟨a, mid', hmid', hrest⟩ := bind_eq_ok.1 h
    exact (hf ctx a mid' hmid').orders (hx.orders hctx hmid') hrest
  run := by
    intro ctx b mid hctx h
    obtain ⟨a, mid', hmid', hrest⟩ := bind_eq_ok.1 h
    have hsecond := (hf ctx a mid' hmid').run (hx.orders hctx hmid') hrest
    exact bind_eq_ok.2 ⟨a, _, hx.run hctx hmid', hsecond⟩

theorem bind (hx : Rewords m s id x x') (hf : ∀ a, Rewords m s w (f a) (f' a)) :
    Rewords m s w (x >>= f) (x' >>= f') :=
  hx.bind_of_ok fun _ a _ _ => hf a

theorem pure (a : α) : Rewords m s id (Pure.pure a : Gen α) (Pure.pure a) where
  orders := closed_orders.pure a
  run := by
    intro ctx a' mid _ h
    cases h
    rfl

theorem fault (e : Fault) : Rewords m s id (throw e : Gen α) (throw e) where
  orders := closed_orders.fault e
  run := by
    intro ctx a mid _ h
    cases h

theorem note (d : Diagnostic) : Rewords m s id (Gen.note d) (Gen.note d) where
  orders := closed_orders.note d
  run := by
    intro ctx u mid _ h
    cases h
    rfl

theorem lockstep : Lockstep fun _ x x' => Rewords m s id x x' where
  pure := pure
  bind := bind
  fault := fault
  note := note

theorem visit (n : NodeName) :
    Rewords m s id (Gen.change fun ctx => ctx.visit n) (Gen.change fun ctx => ctx.visit n) where
  orders := closed_orders.visit n
  run := by
    intro ctx u mid _ h
    obtain ⟨hnew, rfl⟩ := change_visit_eq_ok.1 h
    exact change_visit_eq_ok.2 ⟨hnew, rfl⟩

theorem inside {w : α → α} (tag : String) (hx : Rewords m s w x x') :
    Rewords m s w (Gen.inside tag x) (Gen.inside tag x') where
  orders := closed_orders.inside tag hx.orders
  run := by
    intro ctx a mid hctx h
    obtain ⟨mid', hmid', rfl⟩ := inside_eq_ok.1 h
    have hin : (ctx.withScope (some tag)).Orderly := hctx.of_eq rfl rfl rfl
    exact inside_eq_ok.2 ⟨mid'.reworded m s, hx.run hin hmid', rfl⟩

theorem resolving {w : α → α} (n : NodeName) (hx : Rewords m s w x x') :
    Rewords m s w (Gen.resolving n x) (Gen.resolving n x') where
  orders := closed_orders.resolving n hx.orders
  run := by
    intro ctx a mid hctx h
    obtain ⟨hnew, mid', hmid', rfl⟩ := resolving_eq_ok.1 h
    have hin : ({ ctx with resolving := ctx.resolving ++ [n.id] } : Context).Orderly :=
      hctx.of_eq rfl rfl rfl
    exact resolving_eq_ok.2 ⟨hnew, mid'.reworded m s, hx.run hin hmid', rfl⟩

/-- The other text is put in the macro that the motif reserves. -/
theorem hoisting {x x' : Gen Output} (n : NodeName) (huniform : Uniform x)
    (hx : Rewords m s (rewordedOutput m s n.id) x x') :
    Rewords m s id (Gen.change (fun ctx => ctx.visit n) >>= fun _ => Gen.hoisting n.id x)
      (Gen.change (fun ctx => ctx.visit n) >>= fun _ => Gen.hoisting n.id x') where
  orders := closed_orders.hoisting n hx.orders
  run := by
    intro ctx text mid hctx h
    have htidy : (ctx.reworded m s).Tidy := hctx.tidy
    obtain ⟨hnew, rfl, o, mid', hmid', rfl⟩ := (visit_hoisting_eq_ok hctx.tidy).1 h
    have hrun := hx.run (hctx.motifStart hnew) hmid'
    rw [Context.motifStart_reworded hctx] at hrun
    refine (visit_hoisting_eq_ok htidy).2 ⟨hnew, rfl, _, _, hrun, ?_⟩
    obtain ⟨d, -, -, rfl⟩ := (huniform.ok_iff hctx.tidy.motifStart).1 hmid'
    rw [Context.fill_reworded hctx, Context.length_reworded hctx, statement_rewordedOutput]
    rfl

theorem ofDraft_writer (c : Compiler) (kind : String) (a : Arguments) :
    Rewords m s (rewordedOutput m s a.node.id) (Gen.ofDraft (c.writer kind a))
      (Gen.ofDraft ((c.rewording m s).writer kind a)) where
  orders := closed_orders.ofDraft _
  run := by
    intro ctx o mid _ h
    obtain ⟨hok, rfl⟩ := ofDraft_eq_ok.1 h
    refine ofDraft_eq_ok.2 ?_
    by_cases hid : a.node.id = m
    · have hwriter : (c.rewording m s).writer kind a =
          (c.writer kind a).andThen fun _ => Writer.line s := if_pos hid
      rw [hwriter, rewordedOutput, if_pos hid, Draft.andThen, hok]
      exact ⟨rfl, by simp [Writer.line, Draft.done, Context.noteAll, Context.reworded]⟩
    · have hwriter : (c.rewording m s).writer kind a = c.writer kind a := if_neg hid
      rw [hwriter, rewordedOutput, if_neg hid]
      exact ⟨hok, rfl⟩

/-- Only the output of `m` is another one. -/
theorem of_ne {i : String} {x x' : Gen Output} (h : Rewords m s (rewordedOutput m s i) x x')
    (hne : i ≠ m) : Rewords m s id x x' where
  orders := h.orders
  run := by
    intro ctx o mid hctx hx
    have hrun := h.run hctx hx
    rw [rewordedOutput, if_neg hne] at hrun
    exact hrun

end Gen.Rewords

variable {c : Compiler} {g : Graph} {m s : String}

theorem rewords_step {r r' : Level} {n : Node} {b : Block} (hm : c.isMotif g m = true)
    (huniform : Uniform (r n b)) (hr : Rewords m s (rewordedOutput m s n.id) (r n b) (r' n b))
    (hn : g.node? n.id = some n) (hb : c.registry.get? n.kind = some b) :
    Rewords m s id (step r n b) (step r' n b) := by
  have hne : b.scope ≠ .motif → n.id ≠ m := by
    rintro hscope rfl
    simp [isMotif_eq hn hb, hscope] at hm
  refine Rewords.lockstep.step (fun _ => .visit n.name) (fun _ _ => .hoisting n.name huniform hr) ?_ ?_
  · exact fun _ hscope => (hr.of_ne (hne hscope)).inside _
  · exact fun _ hscope => hr.of_ne (hne hscope)

theorem rewords_run (hm : c.isMotif g m = true) (hunread : c.Unread g m) (k : Nat) {n : Node}
    (hn : g.node? n.id = some n) (b : Block) :
    Rewords m s (rewordedOutput m s n.id) (c.run g k n b) ((c.rewording m s).run g k n b) := by
  have hall : ∀ n b, g.node? n.id = some n →
      Rewords m s (rewordedOutput m s n.id) (c.run g k n b) ((c.rewording m s).run g k n b) := by
    apply run_induction₂ c (c.rewording m s) g g (P := fun r r' => ∀ n b, g.node? n.id = some n →
      Rewords m s (rewordedOutput m s n.id) (r n b) (r' n b))
    · intro n b _
      exact ⟨closed_orders.fault _, fun ctx o mid _ h => by cases h⟩
    · intro k hvalues hbodies n b hn
      rw [run_eq, run_eq]
      have hreg : (c.rewording m s).registry = c.registry := rfl
      refine Rewords.lockstep.level hreg (Q := Rewords m s (rewordedOutput m s n.id)) .bind
        (fun _ _ => node?_id_of_node?) ?_ ?_ ?_
      · intro slot child b' hin hchild hb' hvalue
        have hne : child.id ≠ m := by
          rintro rfl
          have hnone := hunread n (Graph.mem_of_node? hn) slot child b' hin hchild hb'
          rw [hnone] at hvalue
          cases hvalue
        exact ((hvalues child b' hchild).of_ne hne).resolving child.name
      · intro n b hn hb
        exact rewords_step hm (Uniform.closed.within k 4 n b).2 (hbodies n b hn) hn hb
      · exact fun fragments texts => .ofDraft_writer c b.kind (c.arguments n b fragments texts)
  exact hall n b hn

theorem rewords_chain (hm : c.isMotif g m = true) (hunread : c.Unread g m) {n : Node}
    (hn : g.node? n.id = some n) :
    Rewords m s id (c.chain g (c.run g allowance) n)
      ((c.rewording m s).chain g ((c.rewording m s).run g allowance) n) := by
  have hreg : (c.rewording m s).registry = c.registry := rfl
  refine Rewords.lockstep.chainFrom hreg (fun _ _ => node?_id_of_node?) ?_ _ hn
  intro n b hn hb
  exact rewords_step hm (Uniform.closed.run allowance n b).2
    (rewords_run hm hunread allowance hn b) hn hb

/-- A whole compilation does the same with another text for a motif that no input reads. -/
theorem rewords_compileBodyText (hids : (g.nodes.map Node.id).Nodup) (hm : c.isMotif g m = true)
    (hunread : c.Unread g m) (root : Option String) :
    Rewords m s id (c.compileBodyText g root) ((c.rewording m s).compileBodyText g root) := by
  cases root with
  | some i =>
      exact Rewords.lockstep.compileChain fun n hn => rewords_chain hm hunread (node?_id_of_node? hn)
  | none =>
      refine .bind_of_ok ⟨?_, ?_⟩ fun ctx hs mid hheads => ?_
      · intro ctx hs mid hctx hheads
        obtain ⟨-, -, rfl⟩ := heads_eq_ok.1 hheads
        exact hctx.of_eq rfl rfl rfl
      · intro ctx hs mid _ hheads
        obtain ⟨hknown, rfl, rfl⟩ := heads_eq_ok.1 hheads
        exact heads_eq_ok.2 ⟨hknown, rfl, rfl⟩
      · obtain ⟨-, rfl, -⟩ := heads_eq_ok.1 hheads
        exact Rewords.lockstep.compileHeads fun h hh =>
          rewords_chain hm hunread (Graph.node?_id hids (mem_nodes_of_mem_chainHeads hh))

/-- The macros of a program are those of the motifs visited, one for each and in the order of their
visits, all of them filled with the text of the motif's own writer. Of a motif that no input reads this
macro is all there is: with another text for the motif the program has that text in the macro and is the
same everywhere else. -/
theorem macros_are_visited_motifs (c : Compiler) (g : Graph) (root : Option String) (p : Program)
    (hids : (g.nodes.map Node.id).Nodup) (hok : (c.compile g root).outcome = .ok p) :
    ∃ ctx, c.compileBodyText g root {} = .ok p.body ctx ∧ ctx.visited.Nodup ∧
      ctx.macros = p.macros.map some ∧
      List.Forall₂ (c.OwnText g ctx.visited) (ctx.visited.filter (c.isMotif g)) p.macros ∧
      ∀ m ∈ ctx.visited, c.isMotif g m = true → c.Unread g m → ∀ s,
        ((c.rewording m s).compile g root).outcome = .ok { p with
          macros := List.zipWith (rewordedText m s) (ctx.visited.filter (c.isMotif g)) p.macros } := by
  obtain ⟨body, ctx, hrun, rfl⟩ := outcome_eq_ok.1 hok
  have hhoists := Hoists.compileBodyText (c := c) hids root
  obtain ⟨ids, texts, hbetween⟩ := hhoists.between Context.orderly_empty hrun
  have hvisited : ctx.visited = ids := hbetween.visited
  have hmacros : ctx.macros = texts.map some := hbetween.macros
  have howners : ctx.owners.map Prod.fst = ids.filter (c.isMotif g) := hbetween.owners
  have hown := hbetween.own
  have hne := ne_empty_of_ownText hown
  have hhoisted : ctx.hoisted = texts := Context.hoisted_of_macros hmacros hne
  rw [← hvisited] at hown howners
  refine ⟨ctx, hrun, (hhoists.orders Context.orderly_empty hrun).nodup, ?_, ?_, ?_⟩
  · rw [hmacros, hhoisted]
  · rw [hhoisted]
    exact hown
  · intro m _ hm hunread s
    have hreworded : (c.rewording m s).compileBodyText g root {} = .ok body (ctx.reworded m s) :=
      (rewords_compileBodyText hids hm hunread root).run Context.orderly_empty hrun
    rw [outcome_of_ok hreworded, Context.hoisted_reworded hmacros hne, howners, hhoisted]
    rfl

/-- A motif with another one in its body, and a statement behind them. -/
def nestedMotifs : Graph := ⟨[
  { id := "outer", kind := "defmotif", inputs := [("NAME", .literal (.scalar (.text "a")))],
    bodies := [("DO", "inner")], next := some "end" },
  { id := "inner", kind := "defmotif", inputs := [("NAME", .literal (.scalar (.text "b")))],
    bodies := [("DO", "stop")] },
  { id := "stop", kind := "stop_sound" },
  { id := "end", kind := "stop_sound" }]⟩

theorem nestedMotifs_macros : (nestedMotifs.nodes.map Node.id).Nodup ∧
    ∀ s, (((builtin "  ").rewording "inner" s).compile nestedMotifs (some "outer")).outcome =
      .ok ⟨["defmotif \"a\" do\nend\n", s ++ "\n"], "stop_sound()\n",
        [.nestedMotif "inner" "motif"]⟩ := by
  refine ⟨by decide, fun s => ?_⟩
  obtain ⟨ctx, hrun, -, -, -, hreworded⟩ := macros_are_visited_motifs (builtin "  ") nestedMotifs
    (some "outer") ⟨["defmotif \"a\" do\nend\n", "defmotif \"b\" do\n  stop_sound()\nend\n"],
      "stop_sound()\n", [.nestedMotif "inner" "motif"]⟩ (by decide) rfl
  have hvisited : ctx.visited = ["outer", "inner", "stop", "end"] := by
    cases hrun
    rfl
  have hunread : (builtin "  ").Unread nestedMotifs "inner" := by
    intro n _ slot child b _ hchild hb
    cases hchild
    cases hb
    rfl
  rw [hreworded "inner" (by simp [hvisited]) rfl hunread s, hvisited]
  rfl

/-- A compiler with a block that is a motif and also produces a value. -/
def withPhrase : Compiler where
  registry := Registry.builtin [
    { kind := "phrase", category := "Custom", previous := true, next := true, output := some [],
      scope := .motif }]
  writer kind :=
    if kind = "phrase" then (⟨[.literal "la"], none⟩ : Template).writer
    else (builtin "  ").writer kind
  indentUnit := "  "

/-- A phrase, and a statement behind it that takes its value. -/
def phraseRead : Graph := ⟨[
  { id := "a", kind := "phrase", next := some "b" },
  { id := "b", kind := "set_tempo", inputs := [("TEMPO", .node "a")] }]⟩

/-- A motif that also produces a value brings its text into the body through the input that takes it:
the body is another one when the text is. -/
theorem phrase_text_in_body : ¬ ∀ (c : Compiler) (g : Graph) (root : String) (p : Program),
    (c.compile g (some root)).outcome = .ok p → ∀ m ∈ c.visitedFrom g root, c.isMotif g m = true →
      ∀ s, ∃ ms, ((c.rewording m s).compile g (some root)).outcome = .ok { p with macros := ms } := by
  intro h
  have hla : (withPhrase.compile phraseRead (some "a")).outcome =
      .ok ⟨["la\n"], "set_tempo(la)\n", []⟩ := rfl
  have hdo : ((withPhrase.rewording "a" "do").compile phraseRead (some "a")).outcome =
      .ok ⟨["do\n"], "set_tempo(do)\n", []⟩ := rfl
  have hvisited : withPhrase.visitedFrom phraseRead "a" = ["a", "b"] := rfl
  obtain ⟨ms, hms⟩ := h withPhrase phraseRead "a" _ hla "a" (by simp [hvisited]) rfl "do"
  rw [hdo] at hms
  have hbody : "set_tempo(do)\n" = "set_tempo(la)\n" := congrArg Program.body (Except.ok.inj hms)
  exact absurd hbody (by decide)

end Compiler

end BlockMusic
