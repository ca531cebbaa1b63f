import BlockMusic.Compile.Compiler
import BlockMusic.Proofs.Numerals

/-!
# Drafts, one behind the other

A writer reads texts, tokens and numbers from the fields of its node, one behind the other, and puts
its text together from them. So a property that holds of these readings and of a finished draft, and
that goes on from a draft to the next one, holds of every built-in writer.

A field cannot be read only if it would show an integer with more digits than the limit, be it the
node's own value or the default of its block; or, where a number is asked for, if it holds one that the
script has no form for.
-/

namespace BlockMusic

namespace Draft

variable {α β : Type}

theorem outcome_bind {x : Draft α} {a : α} (h : x.outcome = .ok a) (f : α → Draft β) :
    (x >>= f).outcome = (f a).outcome := by
  change (x.andThen f).outcome = _
  rw [andThen, h]

theorem outcome_bind_of_error {x : Draft α} {e : Fault} (h : x.outcome = .error e)
    (f : α → Draft β) : (x >>= f).outcome = .error e := by
  change (x.andThen f).outcome = _
  rw [andThen, h]

/-- A draft that comes to an end has come to the end of its first part. -/
theorem exists_outcome_of_bind {x : Draft α} {f : α → Draft β} {b : β}
    (h : (x >>= f).outcome = .ok b) : ∃ a, x.outcome = .ok a ∧ (f a).outcome = .ok b := by
  cases hx : x.outcome with
  | ok a => exact ⟨a, rfl, (outcome_bind hx f).symm.trans h⟩
  | error e => cases (outcome_bind_of_error hx f).symm.trans h

/-- A draft fails in its first part or behind it. -/
theorem error_of_bind {x : Draft α} {f : α → Draft β} {e : Fault}
    (h : (x >>= f).outcome = .error e) :
    x.outcome = .error e ∨ ∃ a, x.outcome = .ok a ∧ (f a).outcome = .error e := by
  cases hx : x.outcome with
  | ok a => exact .inr ⟨a, rfl, (outcome_bind hx f).symm.trans h⟩
  | error e' =>
      obtain rfl := Except.error.inj ((outcome_bind_of_error hx f).symm.trans h)
      exact .inl rfl

@[simp] theorem outcome_ofRender_eq_ok {x : Except RenderError α} {a : α} :
    (ofRender x).outcome = .ok a ↔ x = .ok a := by
  cases x <;> simp [ofRender, done, fail]

@[simp] theorem outcome_ofRender_eq_error {x : Except RenderError α} {fault : Fault} :
    (ofRender x).outcome = .error fault ↔ ∃ e, x = .error e ∧ .render e = fault := by
  cases x <;> simp [ofRender, done, fail]

@[simp] theorem notes_ofRender (x : Except RenderError α) : (ofRender x).notes = [] := by
  cases x <;> rfl

/-! ## Properties of all writers -/

/-- The property holds of a finished draft, and goes on from a draft to the next one. -/
structure Hereditary (P : {α : Type} → Draft α → Prop) : Prop where
  done : ∀ {α : Type} (a : α), P (done a)
  bind : ∀ {α β : Type} {x : Draft α} {f : α → Draft β}, P x → (∀ a, P (f a)) → P (x >>= f)

/-- The property also holds of all that a writer can fail with or note. -/
structure Universal (P : {α : Type} → Draft α → Prop) : Prop extends Hereditary P where
  render : ∀ {α : Type} (e : RenderError), P (fail (.render e) : Draft α)
  operator : ∀ {α : Type} (token : String), P (fail (.unknownOperator token) : Draft α)
  choice : ∀ node field value used,
    P (⟨.ok used, [.unknownChoice node field value used]⟩ : Draft String)
  number : ∀ node field, P (⟨.ok "0", [.notANumber node field]⟩ : Draft String)

end Draft

open Draft

variable {P : {α : Type} → Draft α → Prop}

namespace Writer

theorem hereditary_mathArithmetic (h : Hereditary P) {a : Arguments} (htoken : P (a.token "OP"))
    (hoperator : ∀ token, P (fail (.unknownOperator token) : Draft Output)) : P (mathArithmetic a) := by
  refine h.bind htoken fun operator => ?_
  split
  · exact h.done _
  · split
    · exact hoperator _
    · exact h.done _

/-- What holds of the readings of a node's fields holds of what is written for the node. -/
theorem hereditary_of_mem_builtin (h : Hereditary P) {a : Arguments}
    (htext : ∀ name, P (a.text name)) (htoken : ∀ name, P (a.token name)) :
    ∀ entry ∈ builtin, (entry.1 = "math_number" → P (a.number "NUM")) →
      (entry.1 = "math_arithmetic" → P (mathArithmetic a)) → P (entry.2 a) := by
  have hone : ∀ name (f : String → Draft Output), (∀ s, P (f s)) → P (a.token name >>= f) :=
    fun name f hf => h.bind (htoken name) hf
  have hdone : ∀ {p q : Prop} (o : Output), p → q → P (Draft.done o) := fun o _ _ => h.done o
  simp only [builtin, List.forall_mem_cons, List.not_mem_nil, false_imp_iff, implies_true, and_true]
  refine ⟨hdone _, hdone _, ?triggerDrum, ?rest, ?waitFor, hdone _, hdone _, hdone _, hdone _, hdone _,
    hdone _, ?setSynth, hdone _, ?playInKey, ?withFx, ?triggerSample, hdone _, hdone _, ?text,
    ?mathNumber, ?logicBoolean, ?mathArithmetic, hdone _⟩
  case triggerDrum => exact fun _ _ => hone _ _ fun _ => hone _ _ fun _ => h.done _
  case rest => exact fun _ _ => hone _ _ fun _ => h.done _
  case waitFor => exact fun _ _ => hone _ _ fun _ => h.done _
  case setSynth => exact fun _ _ => hone _ _ fun _ => h.done _
  case playInKey => exact fun _ _ => hone _ _ fun _ => hone _ _ fun _ => h.done _
  case withFx => exact fun _ _ => hone _ _ fun _ => h.done _
  case triggerSample => exact fun _ _ => h.bind (htext _) fun _ => h.done _
  case text => exact fun _ _ => h.bind (htext _) fun _ => h.done _
  case mathNumber => exact fun hnumber _ => h.bind (hnumber trivial) fun _ => h.done _
  case logicBoolean => exact fun _ _ => hone _ _ fun _ => h.done _
  case mathArithmetic => exact fun _ harithmetic => harithmetic trivial

end Writer

namespace Draft.Universal

theorem ofRender {α : Type} (h : Universal P) (x : Except RenderError α) : P (Draft.ofRender x) := by
  cases x with
  | ok a => exact h.done a
  | error e => exact h.render e

theorem text (h : Universal P) (a : Arguments) (name : String) : P (a.text name) := by
  unfold Arguments.text
  split
  · exact h.done _
  · exact h.done _
  · exact h.ofRender _

theorem token (h : Universal P) (a : Arguments) (name : String) : P (a.token name) := by
  unfold Arguments.token
  split
  · exact h.text a name
  · split
    · exact h.text a name
    · dsimp only
      split
      · exact h.done _
      · refine h.bind (h.ofRender _) fun default => ?_
        split
        · exact h.done _
        · exact h.bind (h.ofRender _) fun shown => h.choice _ _ _ _

theorem numberOf (h : Universal P) (a : Arguments) (name : String) : P (a.number name) := by
  unfold Arguments.number
  split
  · exact h.ofRender _
  · exact h.ofRender _
  · exact h.render _
  · exact h.number _ _

theorem of_mem_builtin (h : Universal P) : ∀ entry ∈ Writer.builtin, ∀ a, P (entry.2 a) :=
  fun entry hentry a => Writer.hereditary_of_mem_builtin h.toHereditary (h.text a) (h.token a) entry
    hentry (fun _ => h.numberOf a _)
    fun _ => Writer.hereditary_mathArithmetic h.toHereditary (h.token a _) h.operator

theorem template (h : Universal P) (t : Template) (a : Arguments) : P (t.writer a) := by
  have hpart : ∀ p : Template.Part, P (p.write a) := by
    intro p
    cases p with
    | literal s => exact h.done _
    | operand slot consumer => exact h.done _
    | indentedBody slot => exact h.done _
    | inlineBody slot => exact h.done _
    | text field => exact h.text a field
    | token field => exact h.token a field
    | number field => exact h.numberOf a field
  have hparts : ∀ ps, P (Template.writeParts a ps) := by
    intro ps
    induction ps with
    | nil => exact h.done _
    | cons p ps ih => exact h.bind (hpart p) fun _ => h.bind ih fun _ => h.done _
  refine h.bind (hparts t.parts) fun s => ?_
  split
  · exact h.done _
  · exact h.done _

end Draft.Universal

/-- What holds of all that a writer can come to holds of every writer of the built-in compiler. -/
theorem Compiler.universal_builtin (h : Universal P) (unit kind : String) (a : Arguments) :
    P ((builtin unit).writer kind a) := by
  change P (((Writer.builtin.lookup kind).getD fun _ => .done (.text "")) a)
  cases hwriter : Writer.builtin.lookup kind with
  | none => exact h.done _
  | some writer =>
      obtain ⟨before, behind, htable, -⟩ := List.lookup_eq_some_iff.1 hwriter
      exact h.of_mem_builtin (kind, writer) (by simp [htable]) a

/-! ## Fields that cannot be read -/

theorem Scalar.shown_eq_error {s : Scalar} {e : RenderError} (h : s.shown = .error e) :
    ∃ z, s = .int z ∧ Numeral.digitLimit < Numeral.digitCount z ∧ e = .integerLimit := by
  cases s with
  | int z =>
      obtain ⟨hz, rfl⟩ := Script.integer_eq_error.1 h
      exact ⟨z, rfl, hz, rfl⟩
  | text s => cases h
  | float x => cases h
  | bool b => cases h

theorem Scalar.quoted_eq_error {s : Scalar} {e : RenderError} (h : s.quoted = .error e) :
    s.shown = .error e := by
  cases s with
  | text s => cases h
  | int z => exact h
  | float x => exact h
  | bool b => exact h

theorem Field.defaultToken_eq_error {f : Field} {e : RenderError} (h : f.defaultToken = .error e) :
    ∃ value, f.default = some value ∧ value.shown = .error e := by
  unfold defaultToken at h
  split at h
  · rename_i value hvalue
    refine ⟨value, hvalue, ?_⟩
    cases hshown : value.shown with
    | ok s =>
        rw [hshown] at h
        cases h
    | error e' =>
        rw [hshown] at h
        cases h
        rfl
  · cases h

namespace Arguments

variable {a : Arguments} {name : String} {fault : Fault}

/-- The field, or the default that stands in for it, is an integer with too many digits. -/
def Overlong (a : Arguments) (name : String) : Prop :=
  ∃ z, Numeral.digitLimit < Numeral.digitCount z ∧
    (a.node.field? name = some (.int z) ∨ (a.block.field? name).bind Field.default = some (.int z))

theorem overlong_of_fieldValue {z : Int} (h : a.fieldValue name = some (.int z))
    (hz : Numeral.digitLimit < Numeral.digitCount z) : a.Overlong name := by
  refine ⟨z, hz, ?_⟩
  unfold fieldValue at h
  split at h
  · rename_i value hvalue
    exact .inl (hvalue.trans h)
  · exact .inr h

theorem overlong_of_text (h : (a.text name).outcome = .error fault) :
    a.Overlong name ∧ fault = .render .integerLimit := by
  unfold text at h
  split at h
  · cases h
  · cases h
  · rename_i value _ hvalue
    obtain ⟨e, he, rfl⟩ := outcome_ofRender_eq_error.1 h
    obtain ⟨z, rfl, hz, rfl⟩ := Scalar.shown_eq_error he
    exact ⟨overlong_of_fieldValue hvalue hz, rfl⟩

theorem overlong_of_token (h : (a.token name).outcome = .error fault) :
    a.Overlong name ∧ fault = .render .integerLimit := by
  unfold token at h
  split at h
  · exact overlong_of_text h
  · rename_i field hfield
    split at h
    · exact overlong_of_text h
    · dsimp only at h
      split at h
      · cases h
      · rcases error_of_bind h with h | ⟨default, -, h⟩
        · -- the default of the block is to be shown
          obtain ⟨e, he, rfl⟩ := outcome_ofRender_eq_error.1 h
          obtain ⟨value, hvalue, hshown⟩ := Field.defaultToken_eq_error he
          obtain ⟨z, rfl, hz, rfl⟩ := Scalar.shown_eq_error hshown
          exact ⟨⟨z, hz, .inr (by simp [hfield, hvalue])⟩, rfl⟩
        · split at h
          · cases h
          · rename_i value hvalue
            rcases error_of_bind h with h | ⟨shown, -, h⟩
            · obtain ⟨e, he, rfl⟩ := outcome_ofRender_eq_error.1 h
              obtain ⟨z, rfl, hz, rfl⟩ := Scalar.shown_eq_error (Scalar.quoted_eq_error he)
              exact ⟨⟨z, hz, .inl hvalue⟩, rfl⟩
            · cases h

/-- An integer that is read from a text has no more digits than the limit. -/
theorem digitCount_of_readNumber {s : String} {z : Int} (h : readNumber s = .integer z) :
    Numeral.digitCount z ≤ Numeral.digitLimit := by
  unfold readNumber at h
  dsimp only at h
  split at h
  · rename_i negative ds hdigits
    split at h
    · cases h
    · rename_i hlength
      cases h
      exact (Numeral.digitCount_integer_le hdigits).trans (Nat.le_of_not_lt hlength)
  · split at h
    · cases h
    · cases h

/-- A number is refused because it has too many digits, or because it is read as one that has no
script form. -/
theorem error_of_number (h : (a.number name).outcome = .error fault) :
    (a.Overlong name ∧ fault = .render .integerLimit) ∨
      (∃ x, numberIn (a.fieldValue name) = .float x ∧ x.isFinite = false ∧
        fault = .render (.nonFinite x)) ∨
      ∃ digits, numberIn (a.fieldValue name) = .longInteger digits ∧
        fault = .render (.digitLimit digits) := by
  unfold number at h
  cases hread : numberIn (a.fieldValue name) with
  | none => simp [hread] at h
  | longInteger digits =>
      simp only [hread, fail, Except.error.injEq] at h
      exact .inr (.inr ⟨digits, rfl, h.symm⟩)
  | float x =>
      simp only [hread] at h
      obtain ⟨e, he, rfl⟩ := outcome_ofRender_eq_error.1 h
      unfold Script.float at he
      split at he
      · cases he
      · rename_i hfinite
        cases he
        exact .inr (.inl ⟨x, rfl, by simpa using hfinite, rfl⟩)
  | integer z =>
      simp only [hread] at h
      obtain ⟨e, he, rfl⟩ := outcome_ofRender_eq_error.1 h
      obtain ⟨hz, rfl⟩ := Script.integer_eq_error.1 he
      refine .inl ⟨?_, rfl⟩
      cases hvalue : a.fieldValue name with
      | none => simp [hvalue, numberIn] at hread
      | some value =>
          rw [hvalue] at hread
          cases value with
          | int z' =>
              cases hread
              exact overlong_of_fieldValue hvalue hz
          | text s => exact absurd hz (Nat.not_lt.2 (digitCount_of_readNumber hread))
          | float x => cases hread
          | bool b => cases hread

end Arguments

end BlockMusic
