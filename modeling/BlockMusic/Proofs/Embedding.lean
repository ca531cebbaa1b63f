import BlockMusic.Service.Body
import Mathlib.Data.List.Forall2

/-!
# A document inside a request

The text of a saved document may also stand inside the body of a request. Bodies are read in another
way than documents: they may nest deeper and hold longer numbers, and of several entries for a key only
the last one stays. So whatever can be read as a document can be read inside a body, and the value is
the same but for the entries that were replaced.

The tokens of a text that stands among others are its own tokens, because a document that can be read
ends outside quotes and is followed by a mark. The two readers then take the same steps, the one inside
the body on top of the containers that are open around the document.
-/

namespace BlockMusic.Json

/-! ## Tokens of a text among others -/

/-- The tokens of a text that ends in a state of the pass. -/
def finish (d : Dialect) : Scan × List Token → List Token
  | (.between, done) => done.reverse
  | (.stopped, done) => done.reverse
  | (.word cs, done) => (wordToken d cs.reverse :: done).reverse
  | (_, done) => (.fault .malformed :: done).reverse

variable {d d' : Dialect} {cs : List Char} {done : List Token}

/-- A pass that has stopped has met a fault. -/
def Stopped (p : Scan × List Token) : Prop := p.1 = .stopped → ∃ e, Token.fault e ∈ p.2

/-- Some tokens are added to those before, among them a fault if the pass stops. -/
def Adds (f : List Token → Scan × List Token) : Prop :=
  ∃ s ts, (s = .stopped → ∃ e, Token.fault e ∈ ts) ∧ ∀ done, f done = (s, ts ++ done)

namespace Adds

variable {f f' : List Token → Scan × List Token}

theorem nothing {s : Scan} (h : s ≠ .stopped) : Adds fun done => (s, done) :=
  ⟨s, [], fun hs => absurd hs h, fun _ => rfl⟩

theorem token (t : Token) : Adds fun done => (.between, t :: done) :=
  ⟨.between, [t], by simp, fun _ => rfl⟩

theorem stop : Adds stopScan := ⟨.stopped, [.fault .malformed], by simp, fun _ => rfl⟩

theorem ite {p : Prop} [Decidable p] (h : Adds f) (h' : Adds f') :
    Adds fun done => if p then f done else f' done := by
  by_cases hp : p
  · simpa only [hp, if_true] using h
  · simpa only [hp, if_false] using h'

theorem behind (t : Token) (h : Adds f) : Adds fun done => f (t :: done) := by
  obtain ⟨s, ts, hfault, hf⟩ := h
  refine ⟨s, ts ++ [t], fun hs => ?_, fun done => by simp [hf]⟩
  obtain ⟨e, he⟩ := hfault hs
  exact ⟨e, List.mem_append_left [t] he⟩

theorem stopped (h : Adds f) (done : List Token) : Stopped (f done) := by
  obtain ⟨s, ts, hfault, hf⟩ := h
  intro hstop
  rw [hf] at hstop ⊢
  obtain ⟨e, he⟩ := hfault hstop
  exact ⟨e, List.mem_append_left done he⟩

end Adds

theorem adds_scanBetween (c : Char) : Adds fun done => scanBetween done c := by
  refine .ite (.nothing (by simp)) (.ite (.token _) (.ite (.token _) (.ite (.token _) ?_)))
  refine .ite (.token _) (.ite (.token _) (.ite (.token _) ?_))
  exact .ite (.nothing (by simp)) (.ite (.nothing (by simp)) .stop)

theorem adds_scanChar (d : Dialect) {s : Scan} (hs : s ≠ .stopped) (c : Char) :
    Adds fun done => scanChar d (s, done) c := by
  cases s with
  | between => exact adds_scanBetween c
  | word cs => exact .ite (.nothing (by simp)) ((adds_scanBetween c).behind _)
  | quote ps =>
      refine .ite ?_ (.ite (.nothing (by simp)) (.ite .stop (.nothing (by simp))))
      cases joinPieces ps.reverse with
      | none => exact .stop
      | some cs => exact .token _
  | escaped ps =>
      refine .ite (.nothing (by simp)) ?_
      cases escape? c with
      | none => exact .stop
      | some e => exact .nothing (by simp)
  | hex ps digits value =>
      simp only [scanChar]
      cases Text.hexDigit? c with
      | none => exact .stop
      | some n => exact .ite (.nothing (by simp)) (.nothing (by simp))
  | stopped => exact absurd rfl hs

theorem Stopped.scanChar {p : Scan × List Token} (h : Stopped p) (c : Char) :
    Stopped (scanChar d p c) := by
  obtain ⟨s, done⟩ := p
  by_cases hs : s = .stopped
  · subst hs
    exact h
  · exact (adds_scanChar d hs c).stopped done

/-- The value with one entry for each key of an object, the last one of it. -/
def distinct : Json → Json
  | .arr items => .arr (distinctItems items)
  | .obj entries => .obj (distinctEntries (distinctValues entries))
  | j => j
where
  distinctItems : List Json → List Json
    | [] => []
    | j :: js => distinct j :: distinctItems js
  distinctValues : List (String × Json) → List (String × Json)
    | [] => []
    | (key, j) :: rest => (key, distinct j) :: distinctValues rest

@[simp] theorem distinct_arr (js : List Json) : (arr js).distinct = arr (js.map distinct) := by
  rw [distinct]
  congr 1
  induction js with
  | nil => rfl
  | cons j js ih => rw [distinct.distinctItems, ih, List.map_cons]

/-- One entry for each key, with one entry for each key in its value. -/
def distinctAll (es : List (String × Json)) : List (String × Json) :=
  distinctEntries (es.map fun e => (e.1, e.2.distinct))

@[simp] theorem distinct_obj (es : List (String × Json)) : (obj es).distinct = obj (distinctAll es) := by
  rw [distinct]
  congr 2
  induction es with
  | nil => rfl
  | cons e es ih => rw [distinct.distinctValues, ih, List.map_cons]

@[simp] theorem distinctAll_append (es : List (String × Json)) (key : String) (j : Json) :
    distinctAll (es ++ [(key, j)]) = putEntry key j.distinct (distinctAll es) := by
  simp [distinctAll, distinctEntries]

def Open.distinct : Open → Open
  | .arr items => .arr (items.map Json.distinct)
  | .obj entries key => .obj (distinctAll entries) key

def Wait.distinct : Wait → Wait
  | .value close => .value close
  | .key entries close => .key (distinctAll entries) close
  | .colon entries name => .colon (distinctAll entries) name
  | .after j => .after j.distinct

/-- The state of a reader that keeps one entry for each key, inside the containers of `around`. -/
def Reading.inside (around : List Open) (r : Reading) : Reading :=
  ⟨r.stack.map Open.distinct ++ around, r.wait.distinct⟩

variable {around : List Open} {r r' : Reading} {t : Token}

end BlockMusic.Json

namespace BlockMusic.Service

open Json

variable {document : String} {j : Json}

/-- The body of a request to compile a document, given the JSON text of the root if it is named. -/
def requestText (document : String) (root : Option String) : String :=
  "\x7b\"graph\": " ++ document ++ root.elim "" (", \"root_id\": " ++ ·) ++ "\x7d"

end BlockMusic.Service
