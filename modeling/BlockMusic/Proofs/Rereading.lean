import BlockMusic.Proofs.WellFormedDocuments

/-!
# Reading what was written

A document may be read with changes: a position given as a text or an integer becomes a float, a field that
is absent gets its default, a key that is not known is dropped. What was read can then be written with all
its fields, and that document is read without any further change.

`Schema.Rereads` is this for one schema. Each way of building a schema from others keeps it, so that it
goes from the scalars up to the graphs. No change is ever made to a scalar: two documents that are read as
the same node have the same scalars in the same places.
-/

namespace BlockMusic

open Json Schema Validated

/-! ## Schemas and writers -/

namespace Schema

variable {α : Type} {schema : Schema α} {write : α → Json}

/-- Whatever the schema accepts is read back from what is written for it, wherever that comes from. -/
def Rereads (schema : Schema α) (write : α → Json) : Prop :=
  Yields schema fun a => ∀ origin, schema origin (write a) = .valid a

theorem rereads_anyText : Rereads anyText .str :=
  fun _ _ _ _ _ => anyText_eq_valid.2 rfl

theorem rereads_nonEmptyText : Rereads nonEmptyText .str :=
  fun _ _ _ h _ => nonEmptyText_eq_valid.2 ⟨rfl, (nonEmptyText_eq_valid.1 h).2⟩

theorem rereads_scalar : Rereads scalar Scalar.toJson :=
  fun _ _ _ _ _ => scalar_eq_valid.2 rfl

-- only the first reading may have rounded an integer or read a text
theorem rereads_float : Rereads float .float := by
  intro _ _ x _ origin
  cases origin <;> rfl

theorem Rereads.list (h : Rereads schema write) :
    Rereads (Schema.list schema) fun as => .arr (as.map write) := by
  intro origin j as has origin'
  have hback := Yields.list h origin j as has
  refine list_eq_valid.2 ⟨_, rfl, List.forall₂_map_left_iff.2 (List.forall₂_same.2 fun a ha => ?_)⟩
  exact hback a ha origin'

/-- The keys are distinct after the first reading, so the second one drops no entry. -/
theorem Rereads.entries (h : Rereads schema write) :
    Rereads (Schema.entries schema) fun as => .obj (as.map fun e => (e.1, write e.2)) := by
  intro origin j as has origin'
  have hback := Yields.entries h origin j as has
  refine entries_eq_valid.2 ⟨_, as, rfl, ?_, (distinctEntries_of_nodup (nodup_entries has)).symm⟩
  exact List.forall₂_map_left_iff.2 (List.forall₂_same.2 fun e he => ⟨rfl, hback e he origin'⟩)

theorem Rereads.nullable (h : Rereads schema write) (hnull : ∀ a, write a ≠ .null) :
    Rereads (Schema.nullable schema) (Json.ofOption write) := by
  intro origin j a ha origin'
  rcases nullable_eq_valid.1 ha with ⟨-, rfl⟩ | ⟨-, x, rfl, hx⟩
  · exact nullable_eq_valid.2 (.inl ⟨rfl, rfl⟩)
  · exact nullable_eq_valid.2 (.inr ⟨hnull x, x, rfl, h origin j x hx origin'⟩)

theorem Rereads.withRule (h : Rereads schema write) (broken? : α → Option String) :
    Rereads (Schema.withRule schema broken?) write := by
  intro origin j a ha origin'
  obtain ⟨ha, hrule⟩ := withRule_eq_valid.1 ha
  exact withRule_eq_valid.2 ⟨h origin j a ha origin', hrule⟩

theorem Rereads.field (h : Rereads schema write) {key : String} {origin : Origin} {j j' : Json} {a : α}
    (ha : Schema.field key schema origin j = .valid a) (hj' : j'.get? key = some (write a))
    (origin' : Origin) : Schema.field key schema origin' j' = .valid a := by
  obtain ⟨v, -, hv⟩ := field_eq_valid.1 ha
  exact field_eq_valid.2 ⟨_, hj', h origin v a hv origin'⟩

/-- A default is written like any other value, so it has to be read back as well. -/
theorem Rereads.fieldOr (h : Rereads schema write) {key : String} {absent a : α}
    (habsent : ∀ origin, schema origin (write absent) = .valid absent) {origin : Origin} {j j' : Json}
    (ha : Schema.fieldOr key absent schema origin j = .valid a) (hj' : j'.get? key = some (write a))
    (origin' : Origin) : Schema.fieldOr key absent schema origin' j' = .valid a :=
  fieldOr_eq_valid.2 (.inr ⟨_, hj', Yields.fieldOr h habsent ha origin'⟩)

end Schema

/-! ## The parts of a graph -/

/-- The source that a binding lacks is written as null, which is not given. -/
theorem Binding.rereads_schema : Rereads Binding.schema Binding.toJson := by
  have hnull : ∀ {key : String} {j : Json}, j.get? key = some .null → ¬ Gives key j := by
    rintro key j hget ⟨v, hv, hne⟩
    exact hne (Option.some.inj (hv.symm.trans hget))
  intro origin j b hb origin'
  rw [schema_eq_valid] at hb ⊢
  cases hb with
  | literal _ _ hfinite _ => exact .literal ⟨_, rfl⟩ rfl hfinite (hnull rfl)
  | node _ _ _ hne => exact .node ⟨_, rfl⟩ (hnull rfl) rfl hne

theorem Position.rereads_schema : Rereads Position.schema Position.toJson := by
  have hzero : ∀ origin, float origin (.float (.zero false)) = .valid (.zero false) := by
    intro origin
    cases origin <;> rfl
  intro origin j p hp origin'
  rw [schema_eq_valid] at hp ⊢
  obtain ⟨-, hx, hy⟩ := hp
  exact ⟨⟨_, rfl⟩, rereads_float.fieldOr hzero hx rfl origin', rereads_float.fieldOr hzero hy rfl origin'⟩

theorem Node.rereads_schema : Rereads Node.schema Node.toJson := by
  intro origin j n hn origin'
  rw [schema_eq_valid] at hn ⊢
  have hempty : ∀ {α : Type} (schema : Schema α) (origin : Origin),
      entries schema origin (.obj []) = .valid [] := fun _ _ => rfl
  have hnext := rereads_anyText.nullable fun _ => Json.noConfusion
  exact
    { object := ⟨_, rfl⟩
      id := rfl
      id_ne := hn.id_ne
      kind := rfl
      kind_ne := hn.kind_ne
      inputs := Binding.rereads_schema.entries.fieldOr (hempty _) hn.inputs rfl origin'
      bodies := rereads_anyText.entries.fieldOr (hempty _) hn.bodies rfl origin'
      fields := (rereads_scalar.entries.withRule _).fieldOr (fun _ => rfl) hn.fields rfl origin'
      next := hnext.fieldOr (fun _ => rfl) hn.next rfl origin'
      position := Position.rereads_schema.fieldOr (fun origin => by cases origin <;> rfl) hn.position rfl
        origin' }

theorem Graph.rereads_schema : Rereads Graph.schema Graph.toJson := by
  intro origin j g hg origin'
  rw [schema_eq_valid] at hg ⊢
  exact ⟨⟨_, rfl⟩, Node.rereads_schema.list.fieldOr (fun _ => rfl) hg.nodes rfl origin', hg.size, hg.ids⟩

theorem CompileRequest.schema_eq_valid {origin : Origin} {j : Json} {r : CompileRequest} :
    CompileRequest.schema origin j = .valid r ↔
      IsObject j ∧ field "graph" Graph.schema origin j = .valid r.graph ∧
        fieldOr "root_id" none (nullable nonEmptyText) origin j = .valid r.root := by
  simp only [CompileRequest.schema, record_eq_valid, seq_eq_valid, map_eq_valid]
  constructor
  · rintro ⟨hobject, _, root, ⟨graph, hgraph, rfl⟩, hroot, rfl⟩
    exact ⟨hobject, hgraph, hroot⟩
  · rintro ⟨hobject, hgraph, hroot⟩
    exact ⟨hobject, _, r.root, ⟨r.graph, hgraph, rfl⟩, hroot, rfl⟩

theorem CompileRequest.rereads_schema : Rereads CompileRequest.schema CompileRequest.toJson := by
  have hname := rereads_nonEmptyText.nullable fun _ => Json.noConfusion
  intro origin j r hr origin'
  rw [schema_eq_valid] at hr ⊢
  obtain ⟨-, hgraph, hroot⟩ := hr
  exact ⟨⟨_, rfl⟩, Graph.rereads_schema.field hgraph rfl origin',
    hname.fieldOr (fun _ => rfl) hroot rfl origin'⟩

/-! ## Scalars -/

/-- The two documents of a node have the same fields, and the same literals bound to their inputs. -/
structure Node.SameScalars (j j' : Json) : Prop where
  fields : ∀ name, (j.get? "fields").bind (Json.get? name) = (j'.get? "fields").bind (Json.get? name)
  literals : ∀ slot,
    (((j.get? "inputs").bind (Json.get? slot)).bind (Json.get? "literal")).getD .null =
      (((j'.get? "inputs").bind (Json.get? slot)).bind (Json.get? "literal")).getD .null

/-- The two documents of a graph have the same scalars, node by node. -/
def Graph.SameScalars (j j' : Json) : Prop :=
  List.Forall₂ Node.SameScalars (nodeDocuments j) (nodeDocuments j')

/-- The entries of an optional field are read one by one. -/
theorem Schema.rel_fieldOr_entries {α : Type} {schema : Schema α} {origin : Origin} {j : Json}
    {as : List (String × α)} {field : String}
    (h : fieldOr field [] (entries schema) origin j = .valid as) (key : String) :
    Option.Rel (fun v a => schema origin v = .valid a) ((j.get? field).bind (Json.get? key))
      (as.lookup key) := by
  rcases fieldOr_eq_valid.1 h with ⟨habsent, rfl⟩ | ⟨v, hv, has⟩
  · rw [habsent]
    exact .none
  · rw [hv]
    exact rel_entries has key

/-- The literal of a binding is read as it stands, and one that is absent is written as null. -/
theorem Binding.Reads.getD_literal {j : Json} {b : Binding} (h : Binding.Reads j b) :
    (j.get? "literal").getD .null = (b.toJson.get? "literal").getD .null := by
  cases h with
  | literal _ hliteral _ _ =>
      rw [hliteral]
      rfl
  | node _ hliteral _ _ =>
      cases hget : j.get? "literal" with
      | none => rfl
      | some v => exact eq_null_of_not_gives hliteral hget

namespace Node.Reads

variable {origin origin' : Origin} {j j' : Json} {n : Node}

theorem get?_field (h : Reads origin j n) (name : String) :
    (j.get? "fields").bind (Json.get? name) = (n.fields.lookup name).map Scalar.toJson := by
  rcases fieldOr_eq_valid.1 h.fields with ⟨habsent, hempty⟩ | ⟨v, hv, hfields⟩
  · rw [habsent, hempty]
    rfl
  · rw [hv]
    exact get?_fields (withRule_eq_valid.1 hfields).1 name

theorem getD_literal (h : Reads origin j n) (slot : String) :
    (((j.get? "inputs").bind (Json.get? slot)).bind (Json.get? "literal")).getD .null =
      (((n.inputs.lookup slot).map Binding.toJson).bind (Json.get? "literal")).getD .null := by
  have hrel := rel_fieldOr_entries h.inputs slot
  revert hrel
  generalize (j.get? "inputs").bind (Json.get? slot) = v, n.inputs.lookup slot = b
  rintro (hb | _)
  · exact (Binding.schema_eq_valid.1 hb).getD_literal
  · rfl

theorem sameScalars (h : Reads origin j n) (h' : Reads origin' j' n) : SameScalars j j' :=
  ⟨fun name => (h.get?_field name).trans (h'.get?_field name).symm,
    fun slot => (h.getD_literal slot).trans (h'.getD_literal slot).symm⟩

end Node.Reads

theorem Node.forall₂_sameScalars {origin origin' : Origin} {js js' : List Json} {nodes : List Node}
    (h : List.Forall₂ (fun j n => Node.schema origin j = .valid n) js nodes)
    (h' : List.Forall₂ (fun j n => Node.schema origin' j = .valid n) js' nodes) :
    List.Forall₂ Node.SameScalars js js' := by
  induction h generalizing js' with
  | nil =>
      cases h'
      exact .nil
  | cons hn _ ih =>
      cases h' with
      | cons hn' hrest' =>
          have hsame := (schema_eq_valid.1 hn).sameScalars (schema_eq_valid.1 hn')
          exact .cons hsame (ih hrest')

/-- Two documents that are read as the same graph have the same scalars. -/
theorem Graph.Reads.sameScalars {origin origin' : Origin} {j j' : Json} {g : Graph}
    (h : Graph.Reads origin j g) (h' : Graph.Reads origin' j' g) : Graph.SameScalars j j' :=
  Node.forall₂_sameScalars (forall₂_nodeDocuments h.nodes) (forall₂_nodeDocuments h'.nodes)

/-- A graph or a request that was accepted is read back from its own document, unchanged. Every field and
every literal has there the scalars that it was given with. -/
theorem written_documents_reread :
    (∀ origin j g, Graph.schema origin j = .valid g →
      (∀ origin', Graph.schema origin' g.toJson = .valid g) ∧ Graph.SameScalars j g.toJson) ∧
    ∀ origin j r, CompileRequest.schema origin j = .valid r →
      (∀ origin', CompileRequest.schema origin' r.toJson = .valid r) ∧
        ∃ graph, j.get? "graph" = some graph ∧ Graph.SameScalars graph r.graph.toJson := by
  have hgraph : ∀ origin j g, Graph.schema origin j = .valid g → Graph.SameScalars j g.toJson := by
    intro origin j g hg
    have hback := Graph.rereads_schema origin j g hg origin
    exact (Graph.schema_eq_valid.1 hg).sameScalars (Graph.schema_eq_valid.1 hback)
  constructor
  · intro origin j g hg
    exact ⟨Graph.rereads_schema origin j g hg, hgraph origin j g hg⟩
  · intro origin j r hr
    obtain ⟨-, hread, -⟩ := CompileRequest.schema_eq_valid.1 hr
    obtain ⟨graph, hget, hread⟩ := field_eq_valid.1 hread
    exact ⟨CompileRequest.rereads_schema origin j r hr, graph, hget, hgraph origin graph r.graph hread⟩

theorem Validated.toOption_toExcept {α : Type} {x : Validated α} {a : α} :
    x.toExcept.toOption = some a ↔ x = .valid a := by
  cases x <;> simp [Validated.toExcept, Except.toOption]

/-- A node with the four scalars that are all called one, a position of an integer and a text, and a key
that is not known. -/
def onesDocument : Json :=
  .obj [("nodes", .arr [.obj [("id", .str "a"), ("kind", .str "play"),
    ("inputs", .obj [("NOTE", .obj [("literal", .arr [.int 1, .float (.ofInt 1), .str "1", .bool true])])]),
    ("fields", .obj [("INT", .int 1), ("FLOAT", .float (.ofInt 1)), ("TEXT", .str "1"),
      ("TRUTH", .bool true)]),
    ("position", .obj [("x", .int 1), ("y", .str "1")]), ("colour", .str "red")]])]

def onesGraph : Graph where
  nodes := [{
    id := "a"
    kind := "play"
    inputs := [("NOTE", .literal (.list [.int 1, .float (.ofInt 1), .text "1", .bool true]))]
    fields := [("INT", .int 1), ("FLOAT", .float (.ofInt 1)), ("TEXT", .text "1"), ("TRUTH", .bool true)]
    position := { x := .ofInt 1, y := .ofInt 1 } }]

theorem onesDocument_rereads :
    Graph.schema .value onesDocument = .valid onesGraph ∧
      Graph.schema .body onesGraph.toJson = .valid onesGraph ∧
      Graph.SameScalars onesDocument onesGraph.toJson := by
  have hread : Graph.schema .value onesDocument = .valid onesGraph :=
    Validated.toOption_toExcept.1 (by decide +kernel)
  obtain ⟨hback, hsame⟩ := written_documents_reread.1 .value onesDocument onesGraph hread
  exact ⟨hread, hback .body, hsame⟩

end BlockMusic
