import BlockMusic.Proofs.Origins
import BlockMusic.Proofs.Workspace

/-!
# Documents of graphs

The schema of graphs goes through a document field by field, and applies its rules on the way. What it
accepts is stated here without it, about the document alone: the parts have the types that the fields
declare, and the rules hold. `Graph.Typed` and `Graph.Sound` are these two halves.

Between the schema and the halves stand the readings. `Binding.Reads`, `Node.Reads` and `Graph.Reads` say
what the entries of a document are when it is read as a given value.
-/

namespace BlockMusic

/-! ## Types of documents -/

namespace Json

def IsObject (j : Json) : Prop := ∃ es, j = .obj es

def IsText (j : Json) : Prop := ∃ s, j = .str s

def IsScalar : Json → Prop
  | .str _ => True
  | .int _ => True
  | .float _ => True
  | .bool _ => True
  | _ => False

/-- A number, a truth value, or a text that a float is read from. Only in a document may an integer lie
beyond the doubles. -/
def IsFloat (origin : Origin) : Json → Prop
  | .float _ => True
  | .int n => origin = .document ∨ (Double.ofInt n).isFinite = true
  | .bool _ => True
  | .str s => ∃ x, Lenient.float? s = some x
  | _ => False

def OrNull (P : Json → Prop) (j : Json) : Prop := j = .null ∨ P j

def ListOf (P : Json → Prop) (j : Json) : Prop := ∃ js, j = .arr js ∧ ∀ v ∈ js, P v

/-- A scalar or a list of scalars. -/
def IsLiteral (j : Json) : Prop := IsScalar j ∨ ListOf IsScalar j

/-- An object with any keys, whose entries all have the property. -/
def EntriesOf (P : Json → Prop) (j : Json) : Prop := ∃ es, j = .obj es ∧ ∀ e ∈ es, P e.2

/-- The field is there and has the property. -/
def Needs (key : String) (P : Json → Prop) (j : Json) : Prop := ∃ v, j.get? key = some v ∧ P v

/-- The field has the property if it is there. -/
def May (key : String) (P : Json → Prop) (j : Json) : Prop := ∀ v, j.get? key = some v → P v

/-- The field is there, and not null. -/
def Gives (key : String) (j : Json) : Prop := ∃ v, j.get? key = some v ∧ v ≠ .null

/-- The floats of a literal are finite. -/
def FiniteFloats (j : Json) : Prop :=
  (∀ x, j = .float x → x.isFinite = true) ∧ ∀ js x, j = .arr js → .float x ∈ js → x.isFinite = true

end Json

open Json

structure Binding.Typed (j : Json) : Prop where
  object : IsObject j
  literal : May "literal" (OrNull IsLiteral) j
  node : May "node_id" (OrNull IsText) j

structure Position.Typed (origin : Origin) (j : Json) : Prop where
  object : IsObject j
  x : May "x" (IsFloat origin) j
  y : May "y" (IsFloat origin) j

structure Node.Typed (origin : Origin) (j : Json) : Prop where
  object : IsObject j
  id : Needs "id" IsText j
  kind : Needs "kind" IsText j
  inputs : May "inputs" (EntriesOf Binding.Typed) j
  bodies : May "statements" (EntriesOf IsText) j
  fields : May "fields" (EntriesOf IsScalar) j
  next : May "next" (OrNull IsText) j
  position : May "position" (Position.Typed origin) j

structure Graph.Typed (origin : Origin) (j : Json) : Prop where
  object : IsObject j
  nodes : May "nodes" (ListOf (Node.Typed origin)) j

/-! ## Rules of documents -/

/-- One of the two sources is given, a node is named, and the literal is finite. -/
structure Binding.Sound (j : Json) : Prop where
  one : Gives "literal" j ∧ ¬ Gives "node_id" j ∨ ¬ Gives "literal" j ∧ Gives "node_id" j
  named : j.get? "node_id" ≠ some (.str "")
  finite : ∀ v, j.get? "literal" = some v → FiniteFloats v

/-- The node is named and has a kind, its bindings are sound, and its fields are finite. -/
structure Node.Sound (j : Json) : Prop where
  id : j.get? "id" ≠ some (.str "")
  kind : j.get? "kind" ≠ some (.str "")
  inputs : ∀ es, j.get? "inputs" = some (.obj es) → ∀ e ∈ es, Binding.Sound e.2
  fields : ∀ fields, j.get? "fields" = some fields → ∀ name x, fields.get? name = some (.float x) →
    x.isFinite = true

/-- The documents of the nodes of a graph. -/
def Graph.nodeDocuments (j : Json) : List Json :=
  match j.get? "nodes" with
  | some (.arr js) => js
  | _ => []

/-- The nodes are not too many, each of them is sound, and their ids are distinct. -/
structure Graph.Sound (j : Json) : Prop where
  size : (nodeDocuments j).length ≤ 500
  nodes : ∀ n ∈ nodeDocuments j, Node.Sound n
  ids : ((nodeDocuments j).map (Json.get? "id")).Nodup

/-! ## What the parts of a schema read -/

namespace Schema

open Validated

variable {α : Type} {schema : Schema α} {origin : Origin} {j : Json}

@[simp] theorem anyText_eq_valid {s : String} : anyText origin j = .valid s ↔ j = .str s := by
  cases j with
  | str t => simp [anyText]
  | _ => simp [anyText]

@[simp] theorem nonEmptyText_eq_valid {s : String} :
    nonEmptyText origin j = .valid s ↔ j = .str s ∧ s ≠ "" := by
  cases j with
  | str t =>
      by_cases ht : t = ""
      · simp [nonEmptyText, ht, eq_comm]
      · simp only [nonEmptyText, if_neg ht, Validated.valid.injEq, Json.str.injEq]
        constructor
        · rintro rfl
          exact ⟨rfl, ht⟩
        · exact fun h => h.1
  | _ => simp [nonEmptyText]

/-- A scalar is read as it stands. -/
@[simp] theorem scalar_eq_valid {s : Scalar} : scalar origin j = .valid s ↔ j = s.toJson := by
  cases j with
  | str t => cases s <;> simp [scalar, Scalar.toJson]
  | int n => cases s <;> simp [scalar, Scalar.toJson]
  | float x => cases s <;> simp [scalar, Scalar.toJson]
  | bool b => cases s <;> simp [scalar, Scalar.toJson]
  | _ => cases s <;> simp [scalar, Scalar.toJson]

theorem forall₂_scalar_iff {js : List Json} {ss : List Scalar} :
    List.Forall₂ (fun j s => scalar origin j = .valid s) js ss ↔ js = ss.map Scalar.toJson := by
  simp only [scalar_eq_valid]
  rw [← List.forall₂_eq_eq_eq, List.forall₂_map_right_iff]

/-- A literal is read as it stands. -/
@[simp] theorem literal_eq_valid {l : Literal} : literal origin j = .valid l ↔ j = l.toJson := by
  constructor
  · intro h
    cases j with
    | arr js =>
        simp only [literal] at h
        split at h
        · rename_i ss hitems
          cases h
          exact congrArg Json.arr (forall₂_scalar_iff.1 (items_eq_valid.1 hitems))
        · cases h
    | obj es => cases h
    | null => cases h
    | _ =>
        cases h
        rfl
  · rintro rfl
    cases l with
    | scalar s => cases s <;> rfl
    | list ss =>
        have hitems : items scalar origin 0 (ss.map Scalar.toJson) = .valid ss :=
          items_eq_valid.2 (forall₂_scalar_iff.2 rfl)
        simp only [literal, Literal.toJson, hitems]

-- the double stands outside the test, so that comparing the two sides does not compute it
theorem float_value_int (n : Int) : float .value (.int n) = (fun x : Double =>
    if x.isFinite then Validated.valid x else .fail .floatExpected (.int n)) (Double.ofInt n) := rfl

theorem float_str (origin : Origin) (s : String) : float origin (.str s) =
    ((Lenient.float? s).map Validated.valid).getD (.fail .floatUnreadable (.str s)) := by
  unfold float
  cases origin <;> (dsimp only; cases Lenient.float? s <;> rfl)

theorem exists_float_iff : (∃ x, float origin j = .valid x) ↔ IsFloat origin j := by
  have hrefused : ∀ j, float origin j = .fail .floatExpected j → ¬ ∃ x, float origin j = .valid x := by
    rintro j h ⟨x, hx⟩
    cases h.symm.trans hx
  cases j with
  | int n =>
      have htest : ∀ x : Double, (∃ y, (if x.isFinite then Validated.valid x
          else .fail .floatExpected (.int n)) = .valid y) ↔ x.isFinite = true := by
        intro x
        by_cases hx : x.isFinite = true <;> simp [hx]
      cases origin with
      | document => exact ⟨fun _ => .inl rfl, fun _ => ⟨Double.ofLeading n, rfl⟩⟩
      | value => simp only [float_value_int, IsFloat, htest, reduceCtorEq, false_or]
      | body => simp only [float_body_int, IsFloat, htest, reduceCtorEq, false_or]
  | str s =>
      rw [float_str, IsFloat]
      cases Lenient.float? s with
      | none => simp
      | some x => simp
  | float x => exact ⟨fun _ => trivial, fun _ => ⟨x, by cases origin <;> rfl⟩⟩
  | bool b =>
      exact ⟨fun _ => trivial, fun _ => ⟨Double.ofInt (if b then 1 else 0), by cases origin <;> rfl⟩⟩
  | null => exact ⟨hrefused .null (by cases origin <;> rfl), False.elim⟩
  | arr js => exact ⟨hrefused (.arr js) (by cases origin <;> rfl), False.elim⟩
  | obj es => exact ⟨hrefused (.obj es) (by cases origin <;> rfl), False.elim⟩

theorem nullable_eq_valid {a : Option α} : nullable schema origin j = .valid a ↔
    j = .null ∧ a = none ∨ j ≠ .null ∧ ∃ x, a = some x ∧ schema origin j = .valid x := by
  have hmap : ∀ j, (schema origin j).map some = .valid a ↔
      ∃ x, a = some x ∧ schema origin j = .valid x := by
    intro j
    refine map_eq_valid.trans ⟨?_, ?_⟩
    · rintro ⟨x, hx, rfl⟩
      exact ⟨x, rfl, hx⟩
    · rintro ⟨x, rfl, hx⟩
      exact ⟨x, hx, rfl⟩
  cases j with
  | null => simp [nullable, eq_comm]
  | _ => simp [nullable, hmap]

@[simp] theorem list_eq_valid {as : List α} : list schema origin j = .valid as ↔
    ∃ js, j = .arr js ∧ List.Forall₂ (fun j a => schema origin j = .valid a) js as := by
  cases j with
  | arr js => simp [list, items_eq_valid]
  | _ => simp [list]

@[simp] theorem entries_eq_valid {as : List (String × α)} : entries schema origin j = .valid as ↔
    ∃ es given, j = .obj es ∧ Matching (fun j a => schema origin j = .valid a) es given ∧
      as = distinctEntries given := by
  cases j with
  | obj es =>
      refine map_eq_valid.trans ⟨?_, ?_⟩
      · rintro ⟨given, hgiven, rfl⟩
        exact ⟨es, given, rfl, entryValues_eq_valid.1 hgiven, rfl⟩
      · rintro ⟨_, given, ⟨⟩, hgiven, rfl⟩
        exact ⟨given, entryValues_eq_valid.2 hgiven, rfl⟩
  | _ => simp [entries]

@[simp] theorem record_eq_valid {fields : Origin → Json → Validated α} {a : α} :
    record fields origin j = .valid a ↔ IsObject j ∧ fields origin j = .valid a := by
  cases j with
  | obj es => simp [record, IsObject]
  | _ => cases origin <;> simp [record, IsObject]

@[simp] theorem field_eq_valid {key : String} {a : α} : field key schema origin j = .valid a ↔
    ∃ v, j.get? key = some v ∧ schema origin v = .valid a := by
  unfold field
  cases j.get? key with
  | none => simp
  | some v => simp

@[simp] theorem fieldOr_eq_valid {key : String} {absent a : α} :
    fieldOr key absent schema origin j = .valid a ↔
      j.get? key = none ∧ a = absent ∨ ∃ v, j.get? key = some v ∧ schema origin v = .valid a := by
  unfold fieldOr
  cases j.get? key with
  | none => simp [eq_comm]
  | some v => simp

@[simp] theorem withRule_eq_valid {broken? : α → Option String} {a : α} :
    withRule schema broken? origin j = .valid a ↔
      schema origin j = .valid a ∧ broken? a = none := by
  refine andThen_eq_valid.trans ⟨?_, ?_⟩
  · rintro ⟨a', ha', hrule⟩
    cases hbroken : broken? a' with
    | none =>
        rw [hbroken] at hrule
        cases hrule
        exact ⟨ha', hbroken⟩
    | some message =>
        rw [hbroken] at hrule
        cases hrule
  · rintro ⟨ha, hbroken⟩
    exact ⟨a, ha, by rw [hbroken]⟩

/-- An optional field is accepted when it is absent or its value is. -/
theorem exists_fieldOr_iff {key : String} {absent : α} {P : Json → Prop}
    (h : ∀ v, (∃ a, schema origin v = .valid a) ↔ P v) :
    (∃ a, fieldOr key absent schema origin j = .valid a) ↔ May key P j := by
  simp only [fieldOr_eq_valid]
  cases hget : j.get? key with
  | none => simp [May, hget]
  | some v => simp [May, hget, h]

theorem exists_list_iff {P : Json → Prop} (h : ∀ v, (∃ a, schema origin v = .valid a) ↔ P v) :
    (∃ as, list schema origin j = .valid as) ↔ ListOf P j := by
  simp only [list_eq_valid, ListOf, ← h]
  constructor
  · rintro ⟨as, js, rfl, has⟩
    exact ⟨js, rfl, Compiler.exists_forall₂_iff.1 ⟨as, has⟩⟩
  · rintro ⟨js, rfl, hjs⟩
    obtain ⟨as, has⟩ := Compiler.exists_forall₂_iff.2 hjs
    exact ⟨as, js, rfl, has⟩

theorem exists_entries_iff {P : Json → Prop} (h : ∀ v, (∃ a, schema origin v = .valid a) ↔ P v) :
    (∃ as, entries schema origin j = .valid as) ↔ EntriesOf P j := by
  simp only [entries_eq_valid, EntriesOf, ← h]
  constructor
  · rintro ⟨_, es, given, rfl, hgiven, rfl⟩
    refine ⟨es, rfl, fun e he => ?_⟩
    obtain ⟨e', -, ha⟩ := Compiler.exists_forall₂_iff.1 ⟨given, hgiven⟩ e he
    exact ⟨e'.2, ha⟩
  · rintro ⟨es, rfl, hes⟩
    have hmatch : ∀ e ∈ es, ∃ e' : String × α, e.1 = e'.1 ∧ schema origin e.2 = .valid e'.2 := by
      intro e he
      obtain ⟨a, ha⟩ := hes e he
      exact ⟨(e.1, a), rfl, ha⟩
    obtain ⟨given, hgiven⟩ := Compiler.exists_forall₂_iff.2 hmatch
    exact ⟨_, es, given, rfl, hgiven, rfl⟩

theorem exists_nullable_iff {P : Json → Prop} (h : ∀ v, (∃ a, schema origin v = .valid a) ↔ P v) :
    (∃ a, nullable schema origin j = .valid a) ↔ OrNull P j := by
  simp only [nullable_eq_valid, OrNull, ← h]
  by_cases hj : j = .null <;> simp [hj]

theorem exists_anyText_iff : (∃ s, anyText origin j = .valid s) ↔ IsText j := by
  simp [IsText]

theorem exists_scalar_iff : (∃ s, scalar origin j = .valid s) ↔ IsScalar j := by
  cases j <;> simp [scalar, IsScalar]

/-- An optional field that may be null is read as absent unless it is given. -/
theorem fieldOr_nullable_eq_valid {key : String} {a : Option α}
    (hnull : ∀ x, schema origin .null ≠ .valid x) :
    fieldOr key none (nullable schema) origin j = .valid a ↔
      a = none ∧ ¬ Gives key j ∨
        ∃ x v, a = some x ∧ j.get? key = some v ∧ schema origin v = .valid x := by
  simp only [fieldOr_eq_valid, nullable_eq_valid, Gives]
  cases hget : j.get? key with
  | none => simp
  | some v =>
      by_cases hv : v = .null
      · simp [hv, hnull]
      · simp [hv]

end Schema

open Schema Validated

/-! ## Bindings -/

namespace Json

/-- A field that is not given is null if it is there. -/
theorem eq_null_of_not_gives {key : String} {j v : Json} (h : ¬ Gives key j)
    (hv : j.get? key = some v) : v = .null := by
  by_contra hne
  exact h ⟨v, hv, hne⟩

theorem isScalar_iff {j : Json} : IsScalar j ↔ ∃ s : Scalar, j = s.toJson := by
  rw [← @exists_scalar_iff .value j]
  simp

theorem isLiteral_iff {j : Json} : IsLiteral j ↔ ∃ l : Literal, j = l.toJson := by
  constructor
  · rintro (hscalar | ⟨js, rfl, hjs⟩)
    · obtain ⟨s, rfl⟩ := isScalar_iff.1 hscalar
      exact ⟨.scalar s, rfl⟩
    · simp only [isScalar_iff] at hjs
      obtain ⟨ss, hss⟩ := Compiler.exists_forall₂_iff.2 hjs
      rw [← List.forall₂_map_right_iff, List.forall₂_eq_eq_eq] at hss
      exact ⟨.list ss, congrArg Json.arr hss⟩
  · rintro ⟨l, rfl⟩
    cases l with
    | scalar s => exact .inl (isScalar_iff.2 ⟨s, rfl⟩)
    | list ss =>
        refine .inr ⟨ss.map Scalar.toJson, rfl, fun v hv => ?_⟩
        obtain ⟨s, -, rfl⟩ := List.mem_map.1 hv
        exact isScalar_iff.2 ⟨s, rfl⟩

end Json

theorem Scalar.toJson_inj {s s' : Scalar} : s.toJson = s'.toJson ↔ s = s' := by
  cases s <;> cases s' <;> simp [Scalar.toJson]

theorem Literal.toJson_ne_null (l : Literal) : l.toJson ≠ .null := by
  cases l with
  | scalar s => cases s <;> exact Json.noConfusion
  | list ss => exact Json.noConfusion

theorem Scalar.isFinite_iff {s : Scalar} :
    s.isFinite = true ↔ ∀ x, s.toJson = .float x → x.isFinite = true := by
  cases s <;> simp [Scalar.isFinite, Scalar.toJson]

/-- The floats of a literal are those of its document. -/
theorem Literal.isFinite_iff {l : Literal} : l.isFinite = true ↔ FiniteFloats l.toJson := by
  cases l with
  | scalar s =>
      have hlist : ∀ js, s.toJson ≠ .arr js := by cases s <;> exact fun _ => Json.noConfusion
      simp [Literal.isFinite, Literal.toJson, FiniteFloats, Scalar.isFinite_iff, hlist]
  | list ss =>
      simp only [Literal.isFinite, Literal.toJson, FiniteFloats, List.all_eq_true, Scalar.isFinite_iff]
      constructor
      · intro h
        refine ⟨fun x hx => (by cases hx), ?_⟩
        rintro _ x ⟨⟩ hx
        obtain ⟨s, hs, heq⟩ := List.mem_map.1 hx
        exact h s hs x heq
      · intro h s hs x hx
        exact h.2 _ x rfl (List.mem_map.2 ⟨s, hs, hx⟩)

namespace Binding

/-- The document is read as the binding. -/
inductive Reads (j : Json) : Binding → Prop
  | literal {l : Literal} (hobject : IsObject j) (hliteral : j.get? "literal" = some l.toJson)
      (hfinite : l.isFinite = true) (hnode : ¬ Gives "node_id" j) : Reads j (.literal l)
  | node {id : String} (hobject : IsObject j) (hliteral : ¬ Gives "literal" j)
      (hnode : j.get? "node_id" = some (.str id)) (hne : id ≠ "") : Reads j (.node id)

theorem schema_eq_valid {origin : Origin} {j : Json} {b : Binding} :
    Binding.schema origin j = .valid b ↔ Reads j b := by
  have hliteral : ∀ l, Schema.literal origin .null ≠ .valid l := by
    intro l h
    exact l.toJson_ne_null (literal_eq_valid.1 h).symm
  have htext : ∀ s, nonEmptyText origin .null ≠ .valid s := by
    intro s h
    cases (nonEmptyText_eq_valid.1 h).1
  simp only [Binding.schema, andThen_eq_valid, record_eq_valid, seq_eq_valid, map_eq_valid,
    fieldOr_nullable_eq_valid hliteral, fieldOr_nullable_eq_valid htext, literal_eq_valid,
    nonEmptyText_eq_valid]
  constructor
  · rintro ⟨⟨value, id⟩, ⟨hobject, _, id', ⟨value', hvalue, rfl⟩, hid, heq⟩, hrule⟩
    cases heq
    rcases hvalue with ⟨rfl, hliteral⟩ | ⟨l, v, rfl, hl, rfl⟩
    · rcases hid with ⟨rfl, hnode⟩ | ⟨s, v, rfl, hs, rfl, hne⟩
      · cases hrule
      · cases hrule
        exact .node hobject hliteral hs hne
    · rcases hid with ⟨rfl, hnode⟩ | ⟨s, v, rfl, hs, rfl, hne⟩
      · by_cases hfinite : l.isFinite = true
        · simp only [ofSources, hfinite, if_true, Validated.valid.injEq] at hrule
          exact hrule ▸ .literal hobject hl hfinite hnode
        · simp [ofSources, hfinite] at hrule
      · cases hrule
  · rintro (⟨hobject, hl, hfinite, hnode⟩ | ⟨hobject, hliteral, hs, hne⟩)
    · refine ⟨(some _, none), ⟨hobject, _, none, ⟨some _, .inr ⟨_, _, rfl, hl, rfl⟩, rfl⟩,
        .inl ⟨rfl, hnode⟩, rfl⟩, ?_⟩
      simp only [ofSources, hfinite, if_true]
    · exact ⟨(none, some _), ⟨hobject, _, some _, ⟨none, .inl ⟨rfl, hliteral⟩, rfl⟩,
        .inr ⟨_, _, rfl, hs, rfl, hne⟩, rfl⟩, rfl⟩

theorem exists_schema_iff {origin : Origin} {j : Json} :
    (∃ b, Binding.schema origin j = .valid b) ↔ Typed j ∧ Sound j := by
  simp only [schema_eq_valid]
  constructor
  · rintro ⟨_, ⟨hobject, hl, hfinite, hnode⟩ | ⟨hobject, hliteral, hs, hne⟩⟩
    · have hvalue : ∀ v, j.get? "literal" = some v → v = _ := fun v hv =>
        Option.some.inj (hv.symm.trans hl)
      refine ⟨⟨hobject, fun v hv => .inr ?_, fun v hv => .inl (eq_null_of_not_gives hnode hv)⟩,
        ⟨.inl ⟨⟨_, hl, Literal.toJson_ne_null _⟩, hnode⟩, fun hv => ?_, fun v hv => ?_⟩⟩
      · exact isLiteral_iff.2 ⟨_, hvalue v hv⟩
      · cases eq_null_of_not_gives hnode hv
      · rw [hvalue v hv]
        exact Literal.isFinite_iff.1 hfinite
    · refine ⟨⟨hobject, fun v hv => .inl (eq_null_of_not_gives hliteral hv), fun v hv => .inr ?_⟩,
        ⟨.inr ⟨hliteral, _, hs, Json.noConfusion⟩, fun hv => ?_, fun v hv => ?_⟩⟩
      · exact ⟨_, Option.some.inj (hv.symm.trans hs)⟩
      · rw [hs] at hv
        cases hv
        exact hne rfl
      · rw [eq_null_of_not_gives hliteral hv]
        exact ⟨fun x hx => (by cases hx), fun js x hjs => (by cases hjs)⟩
  · rintro ⟨htyped, hsound⟩
    rcases hsound.one with ⟨⟨v, hv, hne⟩, hnode⟩ | ⟨hliteral, v, hv, hne⟩
    · obtain ⟨l, rfl⟩ := isLiteral_iff.1 ((htyped.literal v hv).resolve_left hne)
      exact ⟨_, .literal htyped.object hv (Literal.isFinite_iff.2 (hsound.finite _ hv)) hnode⟩
    · obtain ⟨id, rfl⟩ := (htyped.node v hv).resolve_left hne
      refine ⟨_, .node htyped.object hliteral hv ?_⟩
      rintro rfl
      exact hsound.named hv

end Binding

/-! ## Nodes -/

namespace Json

/-- Under distinct keys the entries are those that are found. -/
theorem mem_iff_lookup {α : Type} {es : List (String × α)} (h : (es.map Prod.fst).Nodup)
    {key : String} {a : α} : (key, a) ∈ es ↔ es.lookup key = some a := by
  induction es with
  | nil => simp
  | cons e es ih =>
      rw [List.map_cons, List.nodup_cons] at h
      rw [List.mem_cons, lookup_cons_eq_ite, ih h.2]
      by_cases hkey : key = e.1
      · have habsent : es.lookup key ≠ some a := by
          intro hfound
          exact h.1 (List.mem_map.2 ⟨(key, a), (ih h.2).2 hfound, hkey⟩)
        rw [if_pos hkey, or_iff_left habsent, Prod.ext_iff, and_iff_right hkey, Option.some.injEq,
          eq_comm]
      · have hne : (key, a) ≠ e := fun heq => hkey (congrArg Prod.fst heq)
        simp only [if_neg hkey, hne, false_or]

theorem Matching.lookup {α β : Type} {R : α → β → Prop} {es : List (String × α)}
    {es' : List (String × β)} (h : Matching R es es') (key : String) :
    Option.Rel R (es.lookup key) (es'.lookup key) := by
  induction h with
  | nil => exact .none
  | @cons e e' es es' he _ ih =>
      rw [lookup_cons_eq_ite, lookup_cons_eq_ite, ← he.1]
      by_cases hkey : key = e.1
      · rw [if_pos hkey, if_pos hkey]
        exact .some he.2
      · rw [if_neg hkey, if_neg hkey]
        exact ih

theorem May.of_absent {key : String} {P : Json → Prop} {j : Json} (h : j.get? key = none) :
    May key P j := by
  simp [May, h]

theorem May.of_get? {key : String} {P : Json → Prop} {j v : Json} (h : j.get? key = some v) (hv : P v) :
    May key P j := by
  simp [May, h, hv]

/-- Entries that have two properties are two conditions on the field. -/
theorem may_entriesOf_and_iff {key : String} {P Q : Json → Prop} {j : Json} :
    May key (EntriesOf fun v => P v ∧ Q v) j ↔ May key (EntriesOf P) j ∧
      ∀ es, j.get? key = some (.obj es) → ∀ e ∈ es, Q e.2 := by
  constructor
  · intro h
    constructor
    · intro v hv
      obtain ⟨es, rfl, hes⟩ := h v hv
      exact ⟨es, rfl, fun e he => (hes e he).1⟩
    · intro es hv e he
      obtain ⟨_, ⟨⟩, hes⟩ := h _ hv
      exact (hes e he).2
  · rintro ⟨hP, hQ⟩ v hv
    obtain ⟨es, rfl, hes⟩ := hP v hv
    exact ⟨es, rfl, fun e he => ⟨hes e he, hQ es hv e he⟩⟩

theorem may_and_iff {key : String} {P Q : Json → Prop} {j : Json} :
    May key (fun v => P v ∧ Q v) j ↔ May key P j ∧ May key Q j := by
  simp only [May, imp_and, forall_and]

end Json

namespace Schema

variable {α : Type} {schema : Schema α} {origin : Origin} {j : Json} {as : List (String × α)}

theorem nodup_entries (h : entries schema origin j = .valid as) : (as.map Prod.fst).Nodup := by
  obtain ⟨_, given, -, -, rfl⟩ := entries_eq_valid.1 h
  exact nodup_distinctEntries given

/-- The value of a key is read from the document that is found under it. -/
theorem rel_entries (h : entries schema origin j = .valid as) (key : String) :
    Option.Rel (fun v a => schema origin v = .valid a) (j.get? key) (as.lookup key) := by
  obtain ⟨es, given, rfl, hgiven, rfl⟩ := entries_eq_valid.1 h
  rw [get?, ← lookup_distinctEntries]
  exact hgiven.distinctEntries.lookup key

end Schema

namespace Position

variable {origin : Origin} {j : Json}

theorem schema_eq_valid {p : Position} : Position.schema origin j = .valid p ↔
    IsObject j ∧ fieldOr "x" (.zero false) float origin j = .valid p.x ∧
      fieldOr "y" (.zero false) float origin j = .valid p.y := by
  simp only [Position.schema, record_eq_valid, seq_eq_valid, map_eq_valid]
  constructor
  · rintro ⟨hobject, _, y, ⟨x, hx, rfl⟩, hy, rfl⟩
    exact ⟨hobject, hx, hy⟩
  · rintro ⟨hobject, hx, hy⟩
    exact ⟨hobject, _, p.y, ⟨p.x, hx, rfl⟩, hy, rfl⟩

theorem exists_schema_iff : (∃ p, Position.schema origin j = .valid p) ↔ Position.Typed origin j := by
  have hcoordinate : ∀ key, (∃ x, fieldOr key (.zero false) float origin j = .valid x) ↔
      May key (IsFloat origin) j := fun key => exists_fieldOr_iff fun _ => exists_float_iff
  simp only [schema_eq_valid]
  constructor
  · rintro ⟨p, hobject, hx, hy⟩
    exact ⟨hobject, (hcoordinate "x").1 ⟨p.x, hx⟩, (hcoordinate "y").1 ⟨p.y, hy⟩⟩
  · rintro ⟨hobject, hx, hy⟩
    obtain ⟨x, hx⟩ := (hcoordinate "x").2 hx
    obtain ⟨y, hy⟩ := (hcoordinate "y").2 hy
    exact ⟨⟨x, y⟩, hobject, hx, hy⟩

end Position

namespace Node

/-- The fields of a node are read as they stand. -/
theorem get?_fields {origin : Origin} {j : Json} {fields : List (String × Scalar)}
    (h : entries scalar origin j = .valid fields) (name : String) :
    j.get? name = (fields.lookup name).map Scalar.toJson := by
  have hrel := rel_entries h name
  simp only [scalar_eq_valid] at hrel
  revert hrel
  cases j.get? name <;> cases fields.lookup name <;> simp

/-- The fields that stay are those that are found in their document. -/
theorem mem_fields_iff {origin : Origin} {j : Json} {fields : List (String × Scalar)}
    (h : entries scalar origin j = .valid fields) {name : String} {s : Scalar} :
    (name, s) ∈ fields ↔ j.get? name = some s.toJson := by
  rw [mem_iff_lookup (nodup_entries h), get?_fields h]
  cases fields.lookup name with
  | none => simp
  | some s' => simp [Scalar.toJson_inj]

theorem exists_fields_iff {origin : Origin} {j : Json} :
    (∃ fields, withRule (entries scalar) fieldsBroken? origin j = .valid fields) ↔
      EntriesOf IsScalar j ∧ ∀ name x, j.get? name = some (.float x) → x.isFinite = true := by
  simp only [withRule_eq_valid, fieldsBroken?_eq_none]
  rw [← exists_entries_iff fun v => exists_scalar_iff]
  constructor
  · rintro ⟨fields, hfields, hfinite⟩
    refine ⟨⟨fields, hfields⟩, fun name x hx => ?_⟩
    exact hfinite (name, .float x) ((mem_fields_iff hfields).2 hx)
  · rintro ⟨⟨fields, hfields⟩, hfinite⟩
    refine ⟨fields, hfields, fun f hf => Scalar.isFinite_iff.2 fun x hx => ?_⟩
    have hget := (mem_fields_iff hfields).1 hf
    rw [hx] at hget
    exact hfinite f.1 x hget

/-- The document is read as the node. -/
structure Reads (origin : Origin) (j : Json) (n : Node) : Prop where
  object : IsObject j
  id : j.get? "id" = some (.str n.id)
  id_ne : n.id ≠ ""
  kind : j.get? "kind" = some (.str n.kind)
  kind_ne : n.kind ≠ ""
  inputs : fieldOr "inputs" [] (entries Binding.schema) origin j = .valid n.inputs
  bodies : fieldOr "statements" [] (entries anyText) origin j = .valid n.bodies
  fields : fieldOr "fields" [] (withRule (entries scalar) fieldsBroken?) origin j = .valid n.fields
  next : fieldOr "next" none (nullable anyText) origin j = .valid n.next
  position : fieldOr "position" {} Position.schema origin j = .valid n.position

theorem schema_eq_valid {origin : Origin} {j : Json} {n : Node} :
    Node.schema origin j = .valid n ↔ Reads origin j n := by
  simp only [Node.schema, record_eq_valid, seq_eq_valid, map_eq_valid, field_eq_valid,
    nonEmptyText_eq_valid]
  constructor
  · rintro ⟨hobject, _, position, ⟨_, next, ⟨_, fields, ⟨_, bodies, ⟨_, inputs, ⟨_, kind, ⟨id, hid, rfl⟩,
      hkind, rfl⟩, hinputs, rfl⟩, hbodies, rfl⟩, hfields, rfl⟩, hnext, rfl⟩, hposition, rfl⟩
    obtain ⟨_, hid, rfl, hid_ne⟩ := hid
    obtain ⟨_, hkind, rfl, hkind_ne⟩ := hkind
    exact ⟨hobject, hid, hid_ne, hkind, hkind_ne, hinputs, hbodies, hfields, hnext, hposition⟩
  · intro h
    exact ⟨h.object, _, _, ⟨_, _, ⟨_, _, ⟨_, _, ⟨_, _, ⟨_, _, ⟨_, ⟨_, h.id, rfl, h.id_ne⟩, rfl⟩,
      ⟨_, h.kind, rfl, h.kind_ne⟩, rfl⟩, h.inputs, rfl⟩, h.bodies, rfl⟩, h.fields, rfl⟩, h.next, rfl⟩,
      h.position, rfl⟩

theorem exists_schema_iff {origin : Origin} {j : Json} :
    (∃ n, Node.schema origin j = .valid n) ↔ Typed origin j ∧ Sound j := by
  have hinputs : (∃ inputs, fieldOr "inputs" [] (entries Binding.schema) origin j = .valid inputs) ↔ _ :=
    (exists_fieldOr_iff fun _ => exists_entries_iff fun _ => Binding.exists_schema_iff).trans
      may_entriesOf_and_iff
  have hbodies : (∃ bodies, fieldOr "statements" [] (entries anyText) origin j = .valid bodies) ↔ _ :=
    exists_fieldOr_iff fun _ => exists_entries_iff fun _ => exists_anyText_iff
  have hfields : (∃ fields, fieldOr "fields" [] (withRule (entries scalar) fieldsBroken?) origin j =
      .valid fields) ↔ _ :=
    (exists_fieldOr_iff fun _ => exists_fields_iff).trans may_and_iff
  have hnext : (∃ next, fieldOr "next" none (nullable anyText) origin j = .valid next) ↔ _ :=
    exists_fieldOr_iff fun _ => exists_nullable_iff fun _ => exists_anyText_iff
  have hposition : (∃ p, fieldOr "position" {} Position.schema origin j = .valid p) ↔ _ :=
    exists_fieldOr_iff fun _ => Position.exists_schema_iff
  simp only [schema_eq_valid]
  constructor
  · rintro ⟨n, h⟩
    obtain ⟨hinputs, hbindings⟩ := hinputs.1 ⟨_, h.inputs⟩
    obtain ⟨hfields, hfinite⟩ := hfields.1 ⟨_, h.fields⟩
    refine ⟨⟨h.object, ⟨_, h.id, _, rfl⟩, ⟨_, h.kind, _, rfl⟩, hinputs, hbodies.1 ⟨_, h.bodies⟩, hfields,
      hnext.1 ⟨_, h.next⟩, hposition.1 ⟨_, h.position⟩⟩, ⟨?_, ?_, hbindings, hfinite⟩⟩
    · simp [h.id, h.id_ne]
    · simp [h.kind, h.kind_ne]
  · rintro ⟨htyped, hsound⟩
    obtain ⟨_, hid, id, rfl⟩ := htyped.id
    obtain ⟨_, hkind, kind, rfl⟩ := htyped.kind
    obtain ⟨inputs, hinputs⟩ := hinputs.2 ⟨htyped.inputs, hsound.inputs⟩
    obtain ⟨bodies, hbodies⟩ := hbodies.2 htyped.bodies
    obtain ⟨fields, hfields⟩ := hfields.2 ⟨htyped.fields, hsound.fields⟩
    obtain ⟨next, hnext⟩ := hnext.2 htyped.next
    obtain ⟨position, hposition⟩ := hposition.2 htyped.position
    refine ⟨⟨id, kind, inputs, bodies, fields, next, position⟩, ⟨htyped.object, hid, ?_, hkind, ?_,
      hinputs, hbodies, hfields, hnext, hposition⟩⟩
    · rintro rfl
      exact hsound.id hid
    · rintro rfl
      exact hsound.kind hkind

end Node

/-! ## Graphs -/

namespace Graph

/-- The document is read as the graph. -/
structure Reads (origin : Origin) (j : Json) (g : Graph) : Prop where
  object : IsObject j
  nodes : fieldOr "nodes" [] (list Node.schema) origin j = .valid g.nodes
  size : g.nodes.length ≤ 500
  ids : (g.nodes.map Node.id).Nodup

theorem sizeBroken?_eq_none {nodes : List Node} :
    sizeBroken? nodes = none ↔ nodes.length ≤ 500 := by
  simp [sizeBroken?, maxNodes]

theorem schema_eq_valid {origin : Origin} {j : Json} {g : Graph} :
    Graph.schema origin j = .valid g ↔ Reads origin j g := by
  have hnodes : ∀ nodes, fieldOr "nodes" [] (withRule (list Node.schema) sizeBroken?) origin j =
      .valid nodes ↔ fieldOr "nodes" [] (list Node.schema) origin j = .valid nodes ∧
        nodes.length ≤ 500 := by
    intro nodes
    simp only [fieldOr_eq_valid, withRule_eq_valid, sizeBroken?_eq_none]
    constructor
    · rintro (⟨habsent, rfl⟩ | ⟨v, hv, hnodes, hsize⟩)
      · exact ⟨.inl ⟨habsent, rfl⟩, Nat.zero_le _⟩
      · exact ⟨.inr ⟨v, hv, hnodes⟩, hsize⟩
    · rintro ⟨⟨habsent, rfl⟩ | ⟨v, hv, hnodes⟩, hsize⟩
      · exact .inl ⟨habsent, rfl⟩
      · exact .inr ⟨v, hv, hnodes, hsize⟩
  simp only [Graph.schema, withRule_eq_valid, record_eq_valid, map_eq_valid, idsBroken?_eq_none, hnodes]
  constructor
  · rintro ⟨⟨hobject, nodes, ⟨hnodes, hsize⟩, rfl⟩, hids⟩
    exact ⟨hobject, hnodes, hsize, hids⟩
  · intro h
    exact ⟨⟨h.object, _, ⟨h.nodes, h.size⟩, rfl⟩, h.ids⟩

/-- The nodes are read from their documents one by one. -/
theorem forall₂_nodeDocuments {origin : Origin} {j : Json} {nodes : List Node}
    (h : fieldOr "nodes" [] (list Node.schema) origin j = .valid nodes) :
    List.Forall₂ (fun j n => Node.schema origin j = .valid n) (nodeDocuments j) nodes := by
  rcases fieldOr_eq_valid.1 h with ⟨habsent, rfl⟩ | ⟨v, hv, hnodes⟩
  · rw [nodeDocuments, habsent]
    exact .nil
  · obtain ⟨js, rfl, hjs⟩ := list_eq_valid.1 hnodes
    rw [nodeDocuments, hv]
    exact hjs

theorem map_get?_id {origin : Origin} {js : List Json} {nodes : List Node}
    (h : List.Forall₂ (fun j n => Node.schema origin j = .valid n) js nodes) :
    js.map (Json.get? "id") = (nodes.map Node.id).map fun id => some (.str id) := by
  induction h with
  | nil => rfl
  | cons hn _ ih => rw [List.map_cons, (Node.schema_eq_valid.1 hn).id, ih, List.map_cons, List.map_cons]

/-- The ids of the documents are distinct when those of the nodes are. -/
theorem nodup_ids_iff {origin : Origin} {js : List Json} {nodes : List Node}
    (h : List.Forall₂ (fun j n => Node.schema origin j = .valid n) js nodes) :
    (js.map (Json.get? "id")).Nodup ↔ (nodes.map Node.id).Nodup := by
  have hinjective : Function.Injective fun id : String => some (Json.str id) := by
    intro id id' heq
    exact Json.str.inj (Option.some.inj heq)
  rw [map_get?_id h, List.nodup_map_iff hinjective]

theorem exists_schema_iff {origin : Origin} {j : Json} :
    (∃ g, Graph.schema origin j = .valid g) ↔ Typed origin j ∧ Sound j := by
  have hnodes : (∃ nodes, fieldOr "nodes" [] (list Node.schema) origin j = .valid nodes) ↔ _ :=
    exists_fieldOr_iff fun _ => exists_list_iff fun _ => Node.exists_schema_iff
  simp only [schema_eq_valid]
  constructor
  · rintro ⟨g, h⟩
    have hread := forall₂_nodeDocuments h.nodes
    refine ⟨⟨h.object, fun v hv => ?_⟩, ⟨hread.length_eq ▸ h.size, fun n hn => ?_,
      (nodup_ids_iff hread).2 h.ids⟩⟩
    · obtain ⟨js, rfl, hjs⟩ := hnodes.1 ⟨_, h.nodes⟩ v hv
      exact ⟨js, rfl, fun n hn => (hjs n hn).1⟩
    · exact (Node.exists_schema_iff.1 (Compiler.exists_forall₂_iff.1 ⟨_, hread⟩ n hn)).2
  · rintro ⟨htyped, hsound⟩
    have hjs : May "nodes" (ListOf fun n => Node.Typed origin n ∧ Node.Sound n) j := by
      intro v hv
      obtain ⟨js, rfl, hjs⟩ := htyped.nodes v hv
      have hdocuments : nodeDocuments j = js := by rw [nodeDocuments, hv]
      exact ⟨js, rfl, fun n hn => ⟨hjs n hn, hsound.nodes n (hdocuments ▸ hn)⟩⟩
    obtain ⟨nodes, hnodes⟩ := hnodes.2 hjs
    have hread := forall₂_nodeDocuments hnodes
    exact ⟨⟨nodes⟩, ⟨htyped.object, hnodes, hread.length_eq ▸ hsound.size,
      (nodup_ids_iff hread).1 hsound.ids⟩⟩

/-- The nodes by id, the last one of each id. -/
def nodeMap (g : Graph) : List (String × Node) :=
  distinctEntries (g.nodes.map fun n => (n.id, n))

theorem nodeMap_of_nodup {g : Graph} (h : (g.nodes.map Node.id).Nodup) :
    g.nodeMap = g.nodes.map fun n => (n.id, n) := by
  refine distinctEntries_of_nodup ?_
  rw [List.map_map]
  exact h

/-- The first node with an id is the only one, so the two ways to find it agree. -/
theorem lookup_nodeMap {g : Graph} (h : (g.nodes.map Node.id).Nodup) (id : String) :
    g.nodeMap.lookup id = g.node? id := by
  rw [nodeMap_of_nodup h, node?]
  clear h
  induction g.nodes with
  | nil => rfl
  | cons n nodes ih =>
      rw [List.map_cons, lookup_cons_eq_ite, ih, List.find?_cons]
      by_cases hid : n.id = id
      · simp [hid]
      · simp [hid, Ne.symm hid]

/-- A document is accepted as a graph exactly when its parts have their types and its rules hold. The
nodes by id are then the nodes, each of them under its own id. -/
theorem schema_accepts_wellFormed (origin : Origin) (j : Json) :
    ((∃ g, Graph.schema origin j = .valid g) ↔ Graph.Typed origin j ∧ Graph.Sound j) ∧
      ∀ g, Graph.schema origin j = .valid g →
        g.nodeMap = g.nodes.map (fun n => (n.id, n)) ∧
          (∀ id, g.nodeMap.lookup id = g.node? id) ∧
          ∀ n ∈ g.nodes, g.nodeMap.lookup n.id = some n := by
  refine ⟨exists_schema_iff, fun g hg => ?_⟩
  have hids := (schema_eq_valid.1 hg).ids
  refine ⟨nodeMap_of_nodup hids, lookup_nodeMap hids, fun n hn => ?_⟩
  rw [lookup_nodeMap hids, node?_id hids hn]

/-- A tempo, and the end of all sound under the given id. -/
def cadenceDocument (id : String) : Json :=
  .obj [("nodes", .arr [
    .obj [("id", .str "a"), ("kind", .str "set_tempo"),
      ("inputs", .obj [("TEMPO", .obj [("literal", .int 5)])]), ("next", .str id)],
    .obj [("id", .str id), ("kind", .str "stop_sound")]])]

def cadence : Graph where
  nodes := [{ id := "a", kind := "set_tempo", inputs := [("TEMPO", .literal (.scalar (.int 5)))]
              next := some "b" },
            { id := "b", kind := "stop_sound" }]

theorem cadence_wellFormed :
    (Graph.Typed .value (cadenceDocument "b") ∧ Graph.Sound (cadenceDocument "b")) ∧
    (∀ n ∈ cadence.nodes, cadence.nodeMap.lookup n.id = some n) ∧
    ¬ (Graph.Typed .value (cadenceDocument "a") ∧ Graph.Sound (cadenceDocument "a")) := by
  have haccepts := schema_accepts_wellFormed .value (cadenceDocument "b")
  refine ⟨haccepts.1.1 ⟨cadence, rfl⟩, (haccepts.2 cadence rfl).2.2, fun h => ?_⟩
  obtain ⟨g, hg⟩ := (schema_accepts_wellFormed .value (cadenceDocument "a")).1.2 h
  cases hg

/-- A graph of one node with one binding. -/
def metronomeDocument (sources : List (String × Json)) : Json :=
  .obj [("nodes", .arr [.obj [("id", .str "a"), ("kind", .str "set_tempo"),
    ("inputs", .obj [("TEMPO", .obj sources)])]])]

/-- A name that is empty is not the absence of a name: beside a literal it is refused, although the binding
has a literal and no node of a name. -/
theorem empty_name_beside_literal_refused :
    (∃ g, Graph.schema .value (metronomeDocument [("literal", .int 5)]) = .valid g) ∧
      Graph.Typed .value (metronomeDocument [("literal", .int 5), ("node_id", .str "")]) ∧
      Gives "literal" (.obj [("literal", .int 5), ("node_id", .str "")]) ∧
      (¬ ∃ id, id ≠ "" ∧
        (Json.obj [("literal", .int 5), ("node_id", .str "")]).get? "node_id" = some (.str id)) ∧
      ∀ g, Graph.schema .value (metronomeDocument [("literal", .int 5), ("node_id", .str "")]) ≠
        .valid g := by
  have hbinding : Binding.Typed (.obj [("literal", .int 5), ("node_id", .str "")]) :=
    ⟨⟨_, rfl⟩, .of_get? rfl (.inr (.inl trivial)), .of_get? rfl (.inr ⟨_, rfl⟩)⟩
  have hinputs : EntriesOf Binding.Typed
      (.obj [("TEMPO", .obj [("literal", .int 5), ("node_id", .str "")])]) :=
    ⟨_, rfl, List.forall_mem_singleton.2 hbinding⟩
  refine ⟨⟨_, rfl⟩, ⟨⟨_, rfl⟩, .of_get? rfl ⟨_, rfl, List.forall_mem_singleton.2 ?_⟩⟩,
    ⟨_, rfl, Json.noConfusion⟩, ?_, fun g hg => ?_⟩
  · exact ⟨⟨_, rfl⟩, ⟨_, rfl, _, rfl⟩, ⟨_, rfl, _, rfl⟩, .of_get? rfl hinputs, .of_absent rfl,
      .of_absent rfl, .of_absent rfl, .of_absent rfl⟩
  · rintro ⟨id, hne, hid⟩
    have hid : some (Json.str "") = some (.str id) := hid
    cases hid
    exact hne rfl
  · cases hg

end Graph

end BlockMusic
