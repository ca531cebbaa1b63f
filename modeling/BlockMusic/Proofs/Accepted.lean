import BlockMusic.Graph.Document
import Mathlib.Data.List.Forall2

/-!
# What the schema of graphs accepts

A graph that was read through its schema obeys the rules of the schema, whatever document it came from.
`Schema.Yields` says that all values a schema accepts have a property. Each way of building a schema
from others has a rule, so that the rules of a graph follow from those of its nodes, and these from
the rules of their bindings and fields.
-/

namespace BlockMusic

namespace Validated

variable {α β : Type}

@[simp] theorem fail_ne_valid {k : Issue.Kind} {found : Json} {a : α} :
    (fail k found : Validated α) ≠ .valid a :=
  nofun

@[simp] theorem map_eq_valid {f : α → β} {x : Validated α} {b : β} :
    f <$> x = .valid b ↔ ∃ a, x = .valid a ∧ f a = b := by
  change x.map f = .valid b ↔ _
  cases x <;> simp [map]

@[simp] theorem seq_eq_valid {f : Validated (α → β)} {x : Validated α} {b : β} :
    f <*> x = .valid b ↔ ∃ h a, f = .valid h ∧ x = .valid a ∧ h a = b := by
  change f.seq x = .valid b ↔ _
  cases f <;> cases x <;> simp [seq]

@[simp] theorem andThen_eq_valid {x : Validated α} {f : α → Validated β} {b : β} :
    x.andThen f = .valid b ↔ ∃ a, x = .valid a ∧ f a = .valid b := by
  cases x <;> simp [andThen]

@[simp] theorem under_eq_valid {x : Validated α} {step : Step} {a : α} :
    x.under step = .valid a ↔ x = .valid a := by
  cases x <;> simp [under]

end Validated

theorem Json.mem_putEntry {α : Type} {key : String} {value : α} {done : List (String × α)}
    {x : String × α} (h : x ∈ putEntry key value done) : x.2 = value ∨ x ∈ done := by
  induction done with
  | nil => exact .inl (by rw [List.mem_singleton.1 h])
  | cons first done ih =>
      rw [putEntry] at h
      split at h
      · rcases List.mem_cons.1 h with rfl | h
        · exact .inl rfl
        · exact .inr (List.mem_cons_of_mem first h)
      · rcases List.mem_cons.1 h with rfl | h
        · exact .inr List.mem_cons_self
        · exact (ih h).imp_right (List.mem_cons_of_mem first)

/-- One entry for each key is one of the entries given. -/
theorem Json.mem_distinctEntries {α : Type} {es : List (String × α)} {e : String × α}
    (h : e ∈ distinctEntries es) : ∃ e' ∈ es, e'.2 = e.2 := by
  have hfold : ∀ (es done : List (String × α)),
      ∀ x ∈ es.foldl (fun done entry => putEntry entry.1 entry.2 done) done,
        (∃ e' ∈ es, e'.2 = x.2) ∨ x ∈ done := by
    intro es
    induction es with
    | nil => exact fun done x hx => .inr hx
    | cons first es ih =>
        intro done x hx
        rcases ih _ x hx with ⟨e', he', heq⟩ | hx
        · exact .inl ⟨e', List.mem_cons_of_mem first he', heq⟩
        · exact (mem_putEntry hx).imp_left fun heq => ⟨first, List.mem_cons_self, heq.symm⟩
  simpa using hfold es [] e h

namespace Schema

open Validated

variable {α : Type}

/-- All values that the schema accepts have the property. -/
def Yields (schema : Schema α) (P : α → Prop) : Prop :=
  ∀ origin j a, schema origin j = .valid a → P a

variable {schema : Schema α} {P : α → Prop}

theorem items_eq_valid {origin : Origin} {k : Nat} {js : List Json} {as : List α} :
    items schema origin k js = .valid as ↔
      List.Forall₂ (fun j a => schema origin j = .valid a) js as := by
  induction js generalizing k as with
  | nil => cases as <;> simp [items]
  | cons j js ih =>
      rw [items, seq_eq_valid]
      simp only [map_eq_valid, under_eq_valid, ih]
      constructor
      · rintro ⟨_, as', ⟨a, ha, rfl⟩, has, rfl⟩
        exact .cons ha has
      · rintro (_ | ⟨ha, has⟩)
        exact ⟨_, _, ⟨_, ha, rfl⟩, has, rfl⟩

theorem Yields.list (h : Yields schema P) : Yields (Schema.list schema) fun as => ∀ a ∈ as, P a := by
  rintro origin (_ | _ | _ | _ | _ | js | _) as has <;> try cases has
  have hall := items_eq_valid.1 has
  clear has
  induction hall with
  | nil => simp
  | cons ha _ ih => exact List.forall_mem_cons.2 ⟨h _ _ _ ha, ih⟩

theorem Yields.entries (h : Yields schema P) :
    Yields (Schema.entries schema) fun es => ∀ e ∈ es, P e.2 := by
  have hvalues : ∀ origin es as, entryValues schema origin es = .valid as → ∀ e ∈ as, P e.2 := by
    intro origin es
    induction es with
    | nil =>
        intro as has
        cases has
        simp
    | cons entry es ih =>
        intro as has
        rw [entryValues, seq_eq_valid] at has
        simp only [map_eq_valid, under_eq_valid] at has
        obtain ⟨_, rest, ⟨a, ha, rfl⟩, hrest, rfl⟩ := has
        exact List.forall_mem_cons.2 ⟨h _ _ _ ha, ih rest hrest⟩
  rintro origin (_ | _ | _ | _ | _ | _ | es) as has <;> try cases has
  obtain ⟨given, hgiven, rfl⟩ := map_eq_valid.1 has
  intro e he
  obtain ⟨e', he', heq⟩ := Json.mem_distinctEntries he
  exact heq ▸ hvalues origin es given hgiven e' he'

theorem yields_withRule (schema : Schema α) (broken? : α → Option String) :
    Yields (withRule schema broken?) fun a => broken? a = none := by
  intro origin j a ha
  obtain ⟨a', -, hrule⟩ := andThen_eq_valid.1 ha
  cases hbroken : broken? a' with
  | none =>
      rw [hbroken] at hrule
      cases hrule
      exact hbroken
  | some message =>
      rw [hbroken] at hrule
      cases hrule

theorem Yields.withRule (h : Yields schema P) (broken? : α → Option String) :
    Yields (Schema.withRule schema broken?) P := by
  intro origin j a ha
  obtain ⟨a', ha', hrule⟩ := andThen_eq_valid.1 ha
  split at hrule
  · cases hrule
  · cases hrule
    exact h origin j a ha'

/-- The value of an optional field, or the one that stands for its absence. -/
theorem Yields.fieldOr (h : Yields schema P) {key : String} {absent : α} (habsent : P absent)
    {origin : Origin} {object : Json} {a : α}
    (ha : Schema.fieldOr key absent schema origin object = .valid a) : P a := by
  unfold Schema.fieldOr at ha
  split at ha
  · exact h _ _ _ (under_eq_valid.1 ha)
  · cases ha
    exact habsent

theorem Yields.record {fields : Origin → Json → Validated α}
    (h : ∀ origin j a, fields origin j = .valid a → P a) : Yields (Schema.record fields) P := by
  intro origin j a ha
  unfold Schema.record at ha
  split at ha
  · exact h _ _ _ ha
  · cases ha
  · cases ha

end Schema

open Schema Validated

/-- The literals and the fields of the node are finite. -/
structure Node.Finite (n : Node) : Prop where
  literals : ∀ slot l, (slot, Binding.literal l) ∈ n.inputs → l.isFinite = true
  fields : ∀ f ∈ n.fields, f.2.isFinite = true

theorem Binding.yields_schema :
    Yields Binding.schema fun binding => ∀ l, binding = .literal l → l.isFinite = true := by
  rintro origin j binding h l rfl
  obtain ⟨⟨value, id⟩, -, hrule⟩ := andThen_eq_valid.1 h
  cases value with
  | none => cases id <;> simp [Binding.ofSources] at hrule
  | some value =>
      cases id with
      | some id => simp [Binding.ofSources] at hrule
      | none =>
          by_cases hfinite : value.isFinite = true
          · simp only [Binding.ofSources, hfinite, if_true, Validated.valid.injEq,
              Binding.literal.injEq] at hrule
            exact hrule ▸ hfinite
          · simp [Binding.ofSources, hfinite] at hrule

theorem Node.fieldsBroken?_eq_none {fields : List (String × Scalar)} :
    Node.fieldsBroken? fields = none ↔ ∀ f ∈ fields, f.2.isFinite = true := by
  simp [fieldsBroken?]

theorem Node.yields_schema : Yields Node.schema Node.Finite := by
  refine .record fun origin j n h => ?_
  simp only [seq_eq_valid, map_eq_valid] at h
  obtain ⟨_, _, ⟨_, _, ⟨_, fields, ⟨_, _, ⟨_, inputs, ⟨_, _, ⟨_, -, rfl⟩, -, rfl⟩, hinputs, rfl⟩, -, rfl⟩,
    hfields, rfl⟩, -, rfl⟩, -, rfl⟩ := h
  constructor
  · intro slot l hl
    exact Binding.yields_schema.entries.fieldOr (by simp) hinputs _ hl l rfl
  · have hrule := (yields_withRule _ _).fieldOr (P := fun fields => fieldsBroken? fields = none) rfl
      hfields
    exact Node.fieldsBroken?_eq_none.1 hrule

namespace Graph

/-- The graph was read through its schema. -/
def Accepted (g : Graph) : Prop := ∃ origin j, Graph.schema origin j = .valid g

theorem Accepted.finite {g : Graph} (h : g.Accepted) : ∀ n ∈ g.nodes, n.Finite := by
  obtain ⟨origin, j, hj⟩ := h
  have hnodes : Yields Graph.schema fun g => ∀ n ∈ g.nodes, n.Finite := by
    refine .withRule (.record fun origin j g hg => ?_) _
    obtain ⟨nodes, hnodes, rfl⟩ := map_eq_valid.1 hg
    exact (Node.yields_schema.list.withRule _).fieldOr (by simp) hnodes
  exact hnodes origin j g hj

theorem idsBroken?_eq_none {g : Graph} : g.idsBroken? = none ↔ (g.nodes.map Node.id).Nodup := by
  simp [idsBroken?]

theorem Accepted.nodup {g : Graph} (h : g.Accepted) : (g.nodes.map Node.id).Nodup := by
  obtain ⟨origin, j, hj⟩ := h
  exact idsBroken?_eq_none.1 (yields_withRule _ _ origin j g hj)

end Graph

end BlockMusic
