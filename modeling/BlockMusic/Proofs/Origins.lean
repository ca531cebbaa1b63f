import BlockMusic.Proofs.Accepted
import BlockMusic.Proofs.Embedding
import Mathlib.Data.List.Induction

/-!
# Checking a graph from a document and from a request

A graph is checked in the same way whether it comes as a document or in the body of a request, but for
two things. What is wrong with a value that should be an object is told in other words, at the same
place. And a coordinate that is an integer is rounded in another way, which for large integers may give
another double or none.

A request has only the last of several entries for a key. A graph that was accepted with all of them is
accepted with the last ones, and is the same graph; a graph can also be accepted only because an entry
that breaks the rules was replaced.
-/

namespace BlockMusic

open Schema

/-! ## Outcomes that tell the same -/

/-- Where an issue is, and the value that was found there. -/
def Issue.site (i : Issue) : List Step × Json := (i.path, i.found)

theorem Issue.sites_under {is js : List Issue} (h : is.map site = js.map site) (step : Step) :
    (is.map (under step)).map site = (js.map (under step)).map site := by
  have hsite : site ∘ under step = (fun s => (step :: s.1, s.2)) ∘ site := rfl
  rw [List.map_map, List.map_map, hsite, ← List.map_map, h, List.map_map]

namespace Validated

variable {α β : Type}

/-- The same value, or issues with the same values at the same places. -/
inductive Alike : Validated α → Validated α → Prop
  | valid (a : α) : Alike (.valid a) (.valid a)
  | invalid {is js : List Issue} (h : is.map Issue.site = js.map Issue.site) :
      Alike (.invalid is) (.invalid js)

namespace Alike

variable {x y : Validated α}

theorem refl (x : Validated α) : Alike x x := by
  cases x with
  | valid a => exact .valid a
  | invalid is => exact .invalid rfl

theorem fail (k k' : Issue.Kind) (found : Json) :
    Alike (Validated.fail k found : Validated α) (.fail k' found) := .invalid rfl

theorem map (h : Alike x y) (f : α → β) : Alike (f <$> x) (f <$> y) := by
  cases h with
  | valid a => exact .valid (f a)
  | invalid h => exact .invalid h

theorem seq {f f' : Validated (α → β)} (hf : Alike f f') (h : Alike x y) :
    Alike (f <*> x) (f' <*> y) := by
  cases hf with
  | valid f =>
      cases h with
      | valid a => exact .valid (f a)
      | invalid h => exact .invalid h
  | invalid hf =>
      cases h with
      | valid a => exact .invalid hf
      | invalid h => exact .invalid (by rw [List.map_append, List.map_append, hf, h])

theorem under (h : Alike x y) (step : Step) : Alike (x.under step) (y.under step) := by
  cases h with
  | valid a => exact .valid a
  | invalid h => exact .invalid (Issue.sites_under h step)

theorem andThen (h : Alike x y) {f f' : α → Validated β} (hf : ∀ a, Alike (f a) (f' a)) :
    Alike (x.andThen f) (y.andThen f') := by
  cases h with
  | valid a => exact hf a
  | invalid h => exact .invalid h

end Alike

end Validated

/-! ## Documents and bodies -/

namespace Schema

open Validated

variable {α : Type}

/-- The schema tells the same about the value in a document and in a body. -/
def ReadsAlike (schema : Schema α) (j : Json) : Prop := Alike (schema .document j) (schema .body j)

variable {schema : Schema α}

theorem readsAlike_anyText (j : Json) : ReadsAlike anyText j := by
  cases j <;> exact .refl _

theorem readsAlike_nonEmptyText (j : Json) : ReadsAlike nonEmptyText j := by
  cases j <;> exact .refl _

theorem readsAlike_scalar (j : Json) : ReadsAlike scalar j := by
  cases j <;> exact .refl _

theorem ReadsAlike.nullable {j : Json} (h : ReadsAlike schema j) : ReadsAlike (nullable schema) j := by
  cases j <;> first | exact .valid none | exact h.map some

theorem ReadsAlike.items {js : List Json} (h : ∀ j ∈ js, ReadsAlike schema j) (k : Nat) :
    Alike (items schema .document k js) (items schema .body k js) := by
  induction js generalizing k with
  | nil => exact .valid []
  | cons j js ih =>
      obtain ⟨hj, hjs⟩ := List.forall_mem_cons.1 h
      exact ((hj.under (.index k)).map List.cons).seq (ih hjs (k + 1))

theorem readsAlike_literal (j : Json) : ReadsAlike literal j := by
  cases j with
  | arr js =>
      have hitems : Alike (items scalar .document 0 js) (items scalar .body 0 js) :=
        ReadsAlike.items (fun j _ => readsAlike_scalar j) 0
      simp only [ReadsAlike, literal]
      generalize items scalar .document 0 js = x at hitems ⊢
      generalize items scalar .body 0 js = y at hitems ⊢
      cases hitems with
      | valid ss => exact .valid _
      | invalid h => exact .invalid (by simp only [List.map_append, Issue.sites_under h])
  | _ => exact .refl _

theorem ReadsAlike.list {j : Json} (h : ∀ js, j = .arr js → ∀ item ∈ js, ReadsAlike schema item) :
    ReadsAlike (list schema) j := by
  cases j with
  | arr js => exact ReadsAlike.items (h js rfl) 0
  | _ => exact .refl _

theorem ReadsAlike.entries (h : ∀ j, ReadsAlike schema j) (j : Json) : ReadsAlike (entries schema) j := by
  have hvalues : ∀ es, Alike (entryValues schema .document es) (entryValues schema .body es) := by
    intro es
    induction es with
    | nil => exact .valid []
    | cons e es ih => exact (((h e.2).under (.key e.1)).map _).seq ih
  cases j with
  | obj es => exact (hvalues es).map Json.distinctEntries
  | _ => exact .refl _

theorem ReadsAlike.withRule {j : Json} (h : ReadsAlike schema j) (broken? : α → Option String) :
    ReadsAlike (withRule schema broken?) j :=
  h.andThen fun _ => .refl _

/-- What is no object is called so in other words. -/
theorem ReadsAlike.record {fields : Origin → Json → Validated α} {j : Json}
    (h : ∀ es, j = .obj es → Alike (fields .document j) (fields .body j)) :
    ReadsAlike (record fields) j := by
  cases j with
  | obj es => exact h es rfl
  | _ => exact .fail _ _ _

theorem ReadsAlike.field {key : String} {object : Json}
    (h : ∀ j, object.get? key = some j → ReadsAlike schema j) :
    Alike (field key schema .document object) (field key schema .body object) := by
  unfold Schema.field
  cases hget : object.get? key with
  | none => exact .refl _
  | some j => exact (h j hget).under (.key key)

theorem ReadsAlike.fieldOr {key : String} (absent : α) {object : Json}
    (h : ∀ j, object.get? key = some j → ReadsAlike schema j) :
    Alike (fieldOr key absent schema .document object) (fieldOr key absent schema .body object) := by
  unfold Schema.fieldOr
  cases hget : object.get? key with
  | none => exact .refl _
  | some j => exact (h j hget).under (.key key)

end Schema

open Validated

/-- Both ways of rounding take the integer to the same double, a finite one. -/
def Double.RoundsAlike (n : Int) : Prop := ofLeading n = ofInt n ∧ (ofInt n).isFinite = true

-- the double stands outside the test, so that comparing the two sides does not compute it
theorem Schema.float_body_int (n : Int) : float .body (.int n) = (fun x : Double =>
    if x.isFinite then Validated.valid x else .fail .floatExpected (.int n)) (Double.ofInt n) := rfl

theorem Schema.readsAlike_float {j : Json} (h : ∀ n, j = .int n → Double.RoundsAlike n) :
    ReadsAlike float j := by
  cases j with
  | int n =>
      obtain ⟨hround, hfinite⟩ := h n rfl
      have hdocument : float .document (.int n) = .valid (Double.ofInt n) :=
        congrArg Validated.valid hround
      rw [ReadsAlike, hdocument, float_body_int]
      generalize Double.ofInt n = x at hfinite
      simp only [hfinite, if_true]
      exact .valid x
  | _ => exact .refl _

/-- The coordinates in the document of a position. -/
def Position.coordinates (document : Json) : List Json :=
  (document.get? "x").toList ++ (document.get? "y").toList

/-- The coordinates in the document of a node. -/
def Node.coordinates (document : Json) : List Json :=
  (document.get? "position").toList.flatMap Position.coordinates

/-- The coordinates in the document of a graph. -/
def Graph.coordinates (document : Json) : List Json :=
  match document.get? "nodes" with
  | some (.arr nodes) => nodes.flatMap Node.coordinates
  | _ => []

theorem Position.readsAlike_schema {j : Json}
    (h : ∀ n, .int n ∈ coordinates j → Double.RoundsAlike n) : ReadsAlike Position.schema j := by
  refine .record fun es hes => (Alike.map ?_ _).seq ?_
  · refine ReadsAlike.fieldOr _ fun x hx => readsAlike_float fun n hn => h n ?_
    simp [coordinates, hx, hn]
  · refine ReadsAlike.fieldOr _ fun y hy => readsAlike_float fun n hn => h n ?_
    simp [coordinates, hy, hn]

theorem Binding.readsAlike_schema (j : Json) : ReadsAlike Binding.schema j := by
  refine Alike.andThen (ReadsAlike.record fun es _ => (Alike.map ?_ _).seq ?_) fun _ => .refl _
  · exact ReadsAlike.fieldOr _ fun j _ => (readsAlike_literal j).nullable
  · exact ReadsAlike.fieldOr _ fun j _ => (readsAlike_nonEmptyText j).nullable

theorem Node.readsAlike_schema {j : Json}
    (h : ∀ n, .int n ∈ coordinates j → Double.RoundsAlike n) : ReadsAlike Node.schema j := by
  refine .record fun es _ => ?_
  refine ((((((Alike.map ?_ _).seq ?_).seq ?_).seq ?_).seq ?_).seq ?_).seq ?_
  · exact ReadsAlike.field fun j _ => readsAlike_nonEmptyText j
  · exact ReadsAlike.field fun j _ => readsAlike_nonEmptyText j
  · exact ReadsAlike.fieldOr _ fun j _ => .entries Binding.readsAlike_schema j
  · exact ReadsAlike.fieldOr _ fun j _ => .entries readsAlike_anyText j
  · exact ReadsAlike.fieldOr _ fun j _ => (ReadsAlike.entries readsAlike_scalar j).withRule _
  · exact ReadsAlike.fieldOr _ fun j _ => (readsAlike_anyText j).nullable
  · refine ReadsAlike.fieldOr _ fun p hp => Position.readsAlike_schema fun n hn => h n ?_
    simp [coordinates, hp, hn]

theorem Graph.readsAlike_schema {j : Json}
    (h : ∀ n, .int n ∈ coordinates j → Double.RoundsAlike n) : ReadsAlike Graph.schema j := by
  refine ReadsAlike.withRule (.record fun es _ => Alike.map (ReadsAlike.fieldOr _ fun nodes hnodes => ?_) _) _
  refine ReadsAlike.withRule (.list fun items hitems node hnode => Node.readsAlike_schema fun n hn => h n ?_) _
  simp only [coordinates, hnodes, hitems]
  exact List.mem_flatMap.2 ⟨node, hnode, hn⟩

/-! ## Entries that were replaced -/

theorem lookup_cons_eq_ite {κ α : Type} [BEq κ] [LawfulBEq κ] [DecidableEq κ] (e : κ × α)
    (es : List (κ × α)) (key : κ) :
    (e :: es).lookup key = if key = e.1 then some e.2 else es.lookup key := by
  rw [List.lookup_cons]
  by_cases hkey : key = e.1
  · simp [hkey]
  · have hbeq : (key == e.1) = false := by simpa using hkey
    simp [hkey, hbeq]

namespace Json

variable {α β : Type}

theorem lookup_putEntry (key key' : String) (value : α) (es : List (String × α)) :
    (putEntry key value es).lookup key' = if key' = key then some value else es.lookup key' := by
  induction es with
  | nil => rw [putEntry, lookup_cons_eq_ite]
  | cons e es ih =>
      rw [putEntry]
      split
      · rename_i hk
        rw [lookup_cons_eq_ite, lookup_cons_eq_ite]
        by_cases hkey : key' = key <;> simp [hk, hkey]
      · rename_i hk
        rw [lookup_cons_eq_ite, lookup_cons_eq_ite, ih]
        by_cases hkey : key' = e.1 <;> simp [hk, hkey]

theorem map_fst_putEntry (key : String) (value : α) (es : List (String × α)) :
    (putEntry key value es).map Prod.fst =
      if key ∈ es.map Prod.fst then es.map Prod.fst else es.map Prod.fst ++ [key] := by
  induction es with
  | nil => simp [putEntry]
  | cons e es ih =>
      rw [putEntry]
      split
      · rename_i heq
        simp [heq]
      · rename_i hne
        rw [List.map_cons, ih]
        by_cases hmem : key ∈ es.map Prod.fst <;> simp_all [eq_comm]

@[simp] theorem distinctEntries_append (es : List (String × α)) (e : String × α) :
    distinctEntries (es ++ [e]) = putEntry e.1 e.2 (distinctEntries es) := by
  simp [distinctEntries]

theorem nodup_distinctEntries (es : List (String × α)) :
    ((distinctEntries es).map Prod.fst).Nodup := by
  induction es using List.reverseRecOn with
  | nil => exact List.nodup_nil
  | append_singleton es e ih =>
      rw [distinctEntries_append, map_fst_putEntry]
      split
      · exact ih
      · rename_i hmem
        exact List.nodup_append.2 ⟨ih, by simp, by grind⟩

theorem putEntry_of_notMem {key : String} {es : List (String × α)} (h : key ∉ es.map Prod.fst)
    (value : α) : putEntry key value es = es ++ [(key, value)] := by
  induction es with
  | nil => rfl
  | cons e es ih =>
      rw [List.map_cons, List.mem_cons, not_or] at h
      rw [putEntry, if_neg (Ne.symm h.1), ih h.2, List.cons_append]

theorem distinctEntries_of_nodup {es : List (String × α)} (h : (es.map Prod.fst).Nodup) :
    distinctEntries es = es := by
  induction es using List.reverseRecOn with
  | nil => rfl
  | append_singleton es e ih =>
      rw [List.map_append, List.map_singleton, List.nodup_append] at h
      obtain ⟨hes, -, hdisjoint⟩ := h
      have hnew : e.1 ∉ es.map Prod.fst := fun hmem => hdisjoint _ hmem _ List.mem_cons_self rfl
      simp [ih hes, putEntry_of_notMem hnew]

/-- The last value of a key is the one that stays. -/
theorem lookup_distinctEntries (es : List (String × α)) (key : String) :
    (distinctEntries es).lookup key = es.reverse.lookup key := by
  induction es using List.reverseRecOn with
  | nil => rfl
  | append_singleton es e ih =>
      rw [distinctEntries_append, lookup_putEntry, ih, List.reverse_append]
      exact (lookup_cons_eq_ite e es.reverse key).symm

theorem lookup_reverse_of_nodup {es : List (String × α)} (h : (es.map Prod.fst).Nodup)
    (key : String) : es.reverse.lookup key = es.lookup key := by
  rw [← lookup_distinctEntries, distinctEntries_of_nodup h]

theorem get?_distinct (j : Json) (key : String) :
    j.distinct.get? key = (j.get? key).map distinct := by
  cases j with
  | obj es =>
      rw [distinct_obj, get?, get?, distinctAll, lookup_reverse_of_nodup (nodup_distinctEntries _),
        lookup_distinctEntries, ← List.map_reverse]
      induction es.reverse with
      | nil => rfl
      | cons e es ih =>
          rw [List.map_cons, lookup_cons_eq_ite, lookup_cons_eq_ite, ih]
          by_cases hkey : key = e.1 <;> simp [hkey]
  | arr js =>
      rw [distinct_arr]
      rfl
  | _ => rfl

/-- The same keys, with values that are related. -/
def Matching (P : α → β → Prop) (es : List (String × α)) (es' : List (String × β)) : Prop :=
  List.Forall₂ (fun e e' => e.1 = e'.1 ∧ P e.2 e'.2) es es'

variable {P : α → β → Prop} {es : List (String × α)} {es' : List (String × β)}

theorem Matching.putEntry (h : Matching P es es') (key : String) {a : α} {b : β} (hab : P a b) :
    Matching P (putEntry key a es) (putEntry key b es') := by
  induction h with
  | nil => exact .cons ⟨rfl, hab⟩ .nil
  | @cons e e' es es' he hes ih =>
      rw [Json.putEntry, Json.putEntry, ← he.1]
      split
      · exact .cons ⟨rfl, hab⟩ hes
      · exact .cons ⟨rfl, he.2⟩ ih

theorem Matching.distinctEntries (h : Matching P es es') :
    Matching P (distinctEntries es) (distinctEntries es') := by
  have hfold : ∀ done done', Matching P done done' →
      Matching P (es.foldl (fun done e => Json.putEntry e.1 e.2 done) done)
        (es'.foldl (fun done e => Json.putEntry e.1 e.2 done) done') := by
    induction h with
    | nil => exact fun _ _ hdone => hdone
    | @cons e e' es es' he _ ih =>
        intro done done' hdone
        have hput := hdone.putEntry e.1 he.2
        rw [List.foldl_cons, List.foldl_cons, ← he.1]
        exact ih _ _ hput
  exact hfold [] [] .nil

end Json

namespace Validated

variable {α β : Type}

/-- A valid outcome is the other one too. -/
def Keeps (x y : Validated α) : Prop := ∀ a, x = .valid a → y = .valid a

variable {x y : Validated α}

theorem Keeps.map (h : Keeps x y) (f : α → β) : Keeps (f <$> x) (f <$> y) := by
  intro b hb
  obtain ⟨a, ha, rfl⟩ := map_eq_valid.1 hb
  exact map_eq_valid.2 ⟨a, h a ha, rfl⟩

theorem Keeps.seq {f f' : Validated (α → β)} (hf : Keeps f f') (h : Keeps x y) :
    Keeps (f <*> x) (f' <*> y) := by
  intro b hb
  obtain ⟨k, a, hk, ha, rfl⟩ := seq_eq_valid.1 hb
  exact seq_eq_valid.2 ⟨k, a, hf k hk, h a ha, rfl⟩

theorem Keeps.under (h : Keeps x y) (step : Step) : Keeps (x.under step) (y.under step) :=
  fun a ha => under_eq_valid.2 (h a (under_eq_valid.1 ha))

theorem Keeps.andThen (h : Keeps x y) {f f' : α → Validated β} (hf : ∀ a, Keeps (f a) (f' a)) :
    Keeps (x.andThen f) (y.andThen f') := by
  intro b hb
  obtain ⟨a, ha, hfa⟩ := andThen_eq_valid.1 hb
  exact andThen_eq_valid.2 ⟨a, h a ha, hf a b hfa⟩

end Validated

namespace Schema

open Validated

variable {α : Type} {schema : Schema α}

/-- What the schema accepts it also accepts without the entries that were replaced. -/
def Lasts (schema : Schema α) : Prop :=
  ∀ origin j, Keeps (schema origin j) (schema origin j.distinct)

theorem lasts_anyText : Lasts anyText := by
  rintro origin (_ | _ | _ | _ | _ | _ | _) a h <;> cases h
  rfl

theorem lasts_nonEmptyText : Lasts nonEmptyText := by
  rintro origin (_ | _ | _ | _ | _ | _ | _) a h <;> first | exact h | cases h

theorem lasts_scalar : Lasts scalar := by
  rintro origin (_ | _ | _ | _ | _ | _ | _) a h <;> first | exact h | cases h

theorem lasts_float : Lasts float := by
  rintro origin (_ | _ | _ | _ | _ | _ | _) a h <;> first | exact h | cases h

theorem Lasts.nullable (h : Lasts schema) : Lasts (nullable schema) := by
  intro origin j
  cases j with
  | null => exact fun _ ha => ha
  | _ => exact (h origin _).map some

theorem Lasts.items (h : Lasts schema) {origin : Origin} {k : Nat} {js : List Json} {as : List α}
    (has : items schema origin k js = .valid as) :
    items schema origin k (js.map Json.distinct) = .valid as :=
  items_eq_valid.2 (List.forall₂_map_left_iff.2 ((items_eq_valid.1 has).imp fun _ _ => h _ _ _))

theorem Lasts.list (h : Lasts schema) : Lasts (list schema) := by
  rintro origin (_ | _ | _ | _ | _ | js | _) as has <;> try cases has
  rw [Json.distinct_arr]
  exact h.items has

theorem lasts_literal : Lasts literal := by
  intro origin j a ha
  cases j with
  | arr js =>
      rw [Json.distinct_arr]
      simp only [literal] at ha ⊢
      split at ha
      · rename_i ss hss
        rw [lasts_scalar.items hss]
        exact ha
      · cases ha
  | obj es => cases ha
  | _ => exact ha

theorem entryValues_eq_valid {origin : Origin} {es : List (String × Json)}
    {as : List (String × α)} : entryValues schema origin es = .valid as ↔
      Json.Matching (fun j a => schema origin j = .valid a) es as := by
  induction es generalizing as with
  | nil => cases as <;> simp [entryValues, Json.Matching]
  | cons e es ih =>
      rw [entryValues, seq_eq_valid]
      simp only [map_eq_valid, under_eq_valid, ih]
      constructor
      · rintro ⟨_, as', ⟨a, ha, rfl⟩, has, rfl⟩
        exact .cons ⟨rfl, ha⟩ has
      · rintro (_ | ⟨ha, has⟩)
        exact ⟨_, _, ⟨_, ha.2, rfl⟩, has, by rw [ha.1]⟩

theorem Lasts.entries (h : Lasts schema) : Lasts (entries schema) := by
  rintro origin (_ | _ | _ | _ | _ | _ | es) a ha <;> try cases ha
  obtain ⟨as, has, rfl⟩ := map_eq_valid.1 ha
  have hlast : Json.Matching (fun j a => schema origin j = .valid a)
      (es.map fun e => (e.1, e.2.distinct)) as :=
    List.forall₂_map_left_iff.2 ((entryValues_eq_valid.1 has).imp fun e a he =>
      ⟨he.1, h _ _ _ he.2⟩)
  rw [Json.distinct_obj]
  refine map_eq_valid.2 ⟨_, entryValues_eq_valid.2 hlast.distinctEntries, ?_⟩
  exact Json.distinctEntries_of_nodup (Json.nodup_distinctEntries as)

theorem Lasts.withRule (h : Lasts schema) (broken? : α → Option String) :
    Lasts (withRule schema broken?) := by
  intro origin j
  refine (h origin j).andThen fun a b hb => ?_
  cases hbroken : broken? a with
  | none =>
      rw [hbroken] at hb
      exact hb
  | some message =>
      rw [hbroken] at hb
      cases hb

theorem Lasts.record {fields : Origin → Json → Validated α}
    (h : ∀ origin j, Keeps (fields origin j) (fields origin j.distinct)) :
    Lasts (record fields) := by
  intro origin j a ha
  cases j with
  | obj es => exact h origin (.obj es) a ha
  | _ => cases origin <;> cases ha

theorem Lasts.field (h : Lasts schema) (key : String) (origin : Origin) (object : Json) :
    Keeps (field key schema origin object) (field key schema origin object.distinct) := by
  unfold Schema.field
  rw [Json.get?_distinct]
  cases object.get? key with
  | none =>
      intro a ha
      cases ha
  | some j => exact (h origin j).under (.key key)

theorem Lasts.fieldOr (h : Lasts schema) (key : String) (absent : α) (origin : Origin)
    (object : Json) : Keeps (fieldOr key absent schema origin object)
      (fieldOr key absent schema origin object.distinct) := by
  unfold Schema.fieldOr
  rw [Json.get?_distinct]
  cases object.get? key with
  | none => exact fun _ ha => ha
  | some j => exact (h origin j).under (.key key)

end Schema

theorem Position.lasts_schema : Lasts Position.schema :=
  .record fun origin j => ((lasts_float.fieldOr "x" _ origin j).map _).seq
    (lasts_float.fieldOr "y" _ origin j)

theorem Binding.lasts_schema : Lasts Binding.schema := by
  intro origin j
  refine Keeps.andThen (Lasts.record (fun origin j => ?_) origin j) fun sources b hb => ?_
  · exact ((lasts_literal.nullable.fieldOr "literal" _ origin j).map _).seq
      (lasts_nonEmptyText.nullable.fieldOr "node_id" _ origin j)
  · obtain ⟨value, id⟩ := sources
    cases hsources : Binding.ofSources value id with
    | ok binding =>
        simp only [hsources] at hb ⊢
        exact hb
    | error message =>
        simp only [hsources] at hb
        cases hb

theorem Node.lasts_schema : Lasts Node.schema := by
  refine .record fun origin j => ?_
  refine ((((((Keeps.map ?_ _).seq ?_).seq ?_).seq ?_).seq ?_).seq ?_).seq ?_
  · exact lasts_nonEmptyText.field "id" origin j
  · exact lasts_nonEmptyText.field "kind" origin j
  · exact Binding.lasts_schema.entries.fieldOr "inputs" _ origin j
  · exact lasts_anyText.entries.fieldOr "statements" _ origin j
  · exact (lasts_scalar.entries.withRule _).fieldOr "fields" _ origin j
  · exact lasts_anyText.nullable.fieldOr "next" _ origin j
  · exact Position.lasts_schema.fieldOr "position" _ origin j

theorem Graph.lasts_schema : Lasts Graph.schema := by
  refine .withRule (.record fun origin j => Keeps.map ?_ _) _
  exact (Node.lasts_schema.list.withRule _).fieldOr "nodes" _ origin j

/-! ## Requests -/

namespace CompileRequest

open Service

variable {j : Json} {root : Option Json} {id : Option String}

end CompileRequest

end BlockMusic
