import BlockMusic.Compile.Workbench
import Mathlib.Data.List.Nodup
import Mathlib.Data.List.Range

/-!
# What a context remembers

A context is changed by one operation after another. What it holds in the end can be told from the
operations that succeeded: the scope is the innermost one that was opened and not closed, the nodes
being resolved are those that were entered and not left, every owner of a macro has the place that its
first reservation came at, and a macro has the text that it was filled with last.

The operations are listed newest first, so that each is followed by what it was performed on.
-/

namespace BlockMusic

namespace Workbench

/-! ## Reading the past -/

/-- A scope or a resolution, as it was opened. -/
inductive Frame where
  | scope (tag : String)
  | node (id : String)
  deriving DecidableEq

def Frame.tag? : Frame → Option String
  | .scope tag => some tag
  | .node _ => none

def Frame.node? : Frame → Option String
  | .scope _ => none
  | .node id => some id

/-- What the operations opened and did not close, newest first. -/
def frames : List Action → List Frame
  | [] => []
  | .scope tag :: past => .scope tag :: frames past
  | .resolve node :: past => .node node.id :: frames past
  | .exit :: past => (frames past).tail
  | .abandon :: past => (frames past).tail
  | _ :: past => frames past

/-- The tags of the scopes among them, innermost first. -/
def openTags (past : List Action) : List String := (frames past).filterMap Frame.tag?

/-- The ids of the nodes being resolved among them, in the order in which they were entered. -/
def openNodes (past : List Action) : List String := ((frames past).filterMap Frame.node?).reverse

def Action.visited? : Action → Option String
  | .visit node => some node.id
  | _ => none

/-- The ids visited, in the order of the visits. -/
def visits (past : List Action) : List String := (past.filterMap Action.visited?).reverse

/-- The owners that a macro was reserved for, in the order of their first reservations. -/
def reservations : List Action → List String
  | [] => []
  | .reserve owner :: past =>
    if owner ∈ reservations past then reservations past else reservations past ++ [owner]
  | _ :: past => reservations past

/-- The index names a place among so many, counted from the front or from the end. -/
def Names (index : Int) (count place : Nat) : Prop :=
  place < count ∧ (index = place ∨ index + count = place)

instance (index : Int) (count place : Nat) : Decidable (Names index count place) :=
  inferInstanceAs (Decidable (_ ∧ _))

/-- The text that a place was filled with last. -/
def lastText (place : Nat) : List Action → Option String
  | [] => none
  | .fill index text :: past =>
    if Names index (reservations past).length place then some text else lastText place past
  | _ :: past => lastText place past

/-- The last texts of all places, in the order of their reservations. -/
def texts (past : List Action) : List (Option String) :=
  (List.range (reservations past).length).map (lastText · past)

def Action.remark? : Action → Option Diagnostic
  | .degrade message => some (.remark message)
  | _ => none

def remarks (past : List Action) : List Diagnostic := (past.filterMap Action.remark?).reverse

/-- The operation cannot be performed after the others. -/
def Refused (past : List Action) : Action → Prop
  | .resolve node => node.id ∈ openNodes past
  | .exit => frames past = []
  | .abandon => frames past = []
  | .visit node => node.id ∈ visits past
  | .fill index _ => ∀ place, ¬ Names index (reservations past).length place
  | _ => False

/-! ## The workbench that the past leaves behind -/

/-- What is to be returned to when the frames are closed. -/
def returns : List Frame → List Opened
  | [] => []
  | .scope _ :: fs => .scope (fs.filterMap Frame.tag?).head? :: returns fs
  | .node id :: fs => .node id :: returns fs

/-- The context that the operations leave behind. -/
def contextOf (past : List Action) : Context where
  scope := (openTags past).head?
  macros := texts past
  diagnostics := remarks past
  resolving := openNodes past
  visited := visits past
  owners := (reservations past).zipIdx

/-- The workbench that the operations leave behind. -/
def ofPast (past : List Action) : Workbench := ⟨contextOf past, returns (frames past)⟩

@[simp] theorem length_texts (past : List Action) : (texts past).length = (reservations past).length := by
  simp [texts]

theorem nodup_reservations (past : List Action) : (reservations past).Nodup := by
  fun_induction reservations past with
  | case1 => exact .nil
  | case2 owner past hold ih => exact ih
  | case3 owner past hnew ih =>
      exact ih.append (List.nodup_singleton owner) (List.disjoint_singleton.2 hnew)
  | case4 => assumption

/-- A place has no text before it is reserved. -/
theorem lastText_eq_none {past : List Action} {place : Nat}
    (h : (reservations past).length ≤ place) : lastText place past = none := by
  fun_induction lastText place past with
  | case1 => rfl
  | case2 index text past hnames => exact absurd h (Nat.not_le.2 hnames.1)
  | case3 index text past hnames ih => exact ih h
  | case4 a past ha ih =>
      refine ih (Nat.le_trans ?_ h)
      cases a with
      | reserve owner =>
          rw [reservations]
          split <;> simp
      | _ => exact Nat.le_refl _

end Workbench

/-- An index names one place at most. -/
theorem Context.place?_eq_some {c : Context} {index : Int} {place : Nat} :
    c.place? index = some place ↔ Workbench.Names index c.macros.length place := by
  unfold place? Workbench.Names
  grind

namespace Workbench

variable {past : List Action}

theorem openNodes_resolve (node : NodeName) :
    openNodes (.resolve node :: past) = openNodes past ++ [node.id] := by
  simp [openNodes, frames, Frame.node?]

@[simp] theorem visits_visit (node : NodeName) : visits (.visit node :: past) = visits past ++ [node.id] := by
  simp [visits, Action.visited?]

@[simp] theorem remarks_degrade (message : String) :
    remarks (.degrade message :: past) = remarks past ++ [.remark message] := by
  simp [remarks, Action.remark?]

theorem texts_reserve {owner : String} (hnew : owner ∉ reservations past) :
    texts (.reserve owner :: past) = texts past ++ [none] := by
  have hmore : (reservations (.reserve owner :: past)).length = (reservations past).length + 1 := by
    simp [reservations, hnew]
  rw [texts, hmore, List.range_succ, List.map_append, List.map_singleton]
  have hlast : lastText (reservations past).length past = none := lastText_eq_none (Nat.le_refl _)
  simp only [lastText, hlast]
  rfl

/-- Filling a place makes the text its last one, and leaves the other places alone. -/
theorem texts_fill {index : Int} {text : String} {place : Nat}
    (hnames : Names index (reservations past).length place) :
    texts (.fill index text :: past) = (texts past).set place (some text) := by
  have hcount : reservations (.fill index text :: past) = reservations past := rfl
  refine List.ext_getElem (by simp [texts, hcount]) fun i hi hi' => ?_
  rw [List.getElem_set]
  simp only [texts, List.getElem_map, List.getElem_range, lastText]
  simp only [texts, hcount, List.length_map, List.length_range] at hi
  -- two places that one index names are the same
  have hone : Names index (reservations past).length i ↔ place = i := by
    unfold Names at *
    omega
  simp only [hone]

/-- The place of an owner is how many owners came before it. -/
theorem lookup_zipIdx (owners : List String) (owner : String) (k : Nat) :
    (owners.zipIdx k).lookup owner =
      if owner ∈ owners then some (owners.idxOf owner + k) else none := by
  induction owners generalizing k with
  | nil => rfl
  | cons o owners ih =>
      rw [List.zipIdx_cons, List.lookup_cons, ih]
      by_cases ho : owner = o
      · simp [ho]
      · have hne : (o == owner) = false := beq_eq_false_iff_ne.2 (Ne.symm ho)
        simp [ho, List.idxOf_cons, hne, beq_eq_false_iff_ne.2 ho, Nat.add_right_comm, Nat.add_assoc]

theorem lookup_owners (past : List Action) (owner : String) :
    (contextOf past).owners.lookup owner =
      if owner ∈ reservations past then some ((reservations past).idxOf owner) else none :=
  lookup_zipIdx _ _ 0

/-! ## One operation -/

theorem leave_ofPast {f : Frame} {fs : List Frame} (hframes : frames past = f :: fs) :
    (ofPast past).leave = .ok (.closed, ofPast (.exit :: past)) := by
  have hafter : frames (.exit :: past) = fs := by
    rw [frames, hframes, List.tail_cons]
  cases f with
  | scope tag =>
      simp only [leave, ofPast, hframes, hafter, returns, close, Context.withScope, contextOf, openTags,
        openNodes]
      rfl
  | node id =>
      simp only [leave, ofPast, hframes, hafter, returns, close, Context.leaveNode, contextOf, openTags,
        openNodes, List.filterMap_cons, Frame.tag?, Frame.node?, List.reverse_cons,
        List.dropLast_concat]
      rfl

theorem leave_ofPast_nil (hframes : frames past = []) :
    (ofPast past).leave = .error .nothingOpen := by
  simp only [leave, ofPast, hframes, returns]

theorem reserve_of_mem {owner : String} (hold : owner ∈ reservations past) :
    (contextOf past).reserve owner = ((reservations past).idxOf owner, contextOf past) := by
  rw [Context.reserve, lookup_owners, if_pos hold]

theorem reserve_of_notMem {owner : String} (hnew : owner ∉ reservations past) :
    (contextOf past).reserve owner =
      ((reservations past).length, contextOf (.reserve owner :: past)) := by
  rw [Context.reserve, lookup_owners, if_neg hnew]
  simp only [contextOf, texts_reserve hnew, length_texts, reservations, if_neg hnew, List.zipIdx_append,
    Nat.zero_add]
  rfl

/-- An owner keeps its place. -/
theorem reserve_of_mem_owners {owner : String} {slot : Nat}
    (h : (owner, slot) ∈ (contextOf past).owners) :
    (contextOf past).reserve owner = (slot, contextOf past) := by
  obtain ⟨hslot, howner⟩ := List.getElem?_eq_some_iff.1 (List.mk_mem_zipIdx_iff_getElem?.1 h)
  have hmem : owner ∈ reservations past := howner ▸ List.getElem_mem hslot
  rw [reserve_of_mem hmem, ← howner, (nodup_reservations past).idxOf_getElem]

/-- An operation is refused, or it leaves behind what the past with it does. -/
theorem step_ofPast (past : List Action) (a : Action) :
    (Refused past a ∧ ∃ e, (ofPast past).step a = .error e) ∨
      ¬ Refused past a ∧ ∃ answer, (ofPast past).step a = .ok (answer, ofPast (a :: past)) := by
  cases a with
  | scope tag => exact .inr ⟨id, .done, rfl⟩
  | resolve node =>
      by_cases hopen : node.id ∈ openNodes past
      · refine .inl ⟨hopen, ?_⟩
        simp [step, ofPast, contextOf, Context.enterNode, hopen]
      · refine .inr ⟨hopen, .done, ?_⟩
        simp only [step, ofPast, contextOf, Context.enterNode, hopen, if_false, openNodes_resolve]
        rfl
  | exit =>
      cases hframes : frames past with
      | nil => exact .inl ⟨hframes, _, leave_ofPast_nil hframes⟩
      | cons f fs => exact .inr ⟨by simp [Refused, hframes], .closed, leave_ofPast hframes⟩
  | abandon =>
      cases hframes : frames past with
      | nil => exact .inl ⟨hframes, _, leave_ofPast_nil hframes⟩
      | cons f fs => exact .inr ⟨by simp [Refused, hframes], .closed, leave_ofPast hframes⟩
  | visit node =>
      by_cases hseen : node.id ∈ visits past
      · refine .inl ⟨hseen, ?_⟩
        simp [step, ofPast, contextOf, Context.visit, hseen]
      · refine .inr ⟨hseen, .done, ?_⟩
        simp only [step, ofPast, contextOf, Context.visit, hseen, if_false, visits_visit]
        rfl
  | reserve owner =>
      by_cases hold : owner ∈ reservations past
      · refine .inr ⟨id, .slot ((reservations past).idxOf owner), ?_⟩
        have hsame : reservations (.reserve owner :: past) = reservations past := by
          rw [reservations, if_pos hold]
        simp only [step, ofPast, reserve_of_mem hold]
        simp only [contextOf, texts, hsame]
        rfl
      · refine .inr ⟨id, .slot (reservations past).length, ?_⟩
        simp only [step, ofPast, reserve_of_notMem hold]
        rfl
  | fill index text =>
      have hplace : ∀ place, (contextOf past).place? index = some place ↔
          Names index (reservations past).length place := by
        intro place
        simp [Context.place?_eq_some, contextOf]
      cases hfound : (contextOf past).place? index with
      | none =>
          refine .inl ⟨fun place hnames => ?_, .noSuchMacro, ?_⟩
          · rw [(hplace place).2 hnames] at hfound
            cases hfound
          · simp [step, ofPast, Context.fillAt?, hfound]
      | some place =>
          have hnames := (hplace place).1 hfound
          refine .inr ⟨fun hrefused => hrefused place hnames, .done, ?_⟩
          simp only [step, ofPast, Context.fillAt?, hfound, Option.map_some, Context.fill]
          simp only [contextOf, texts_fill hnames]
          rfl
  | hoisted => exact .inr ⟨id, .texts (contextOf past).hoisted, rfl⟩
  | degrade message =>
      refine .inr ⟨id, .done, ?_⟩
      simp only [step, ofPast, contextOf, Context.note, remarks_degrade]
      rfl

/-- An operation that is not refused enters no node inside itself. -/
theorem nodup_openNodes_cons {a : Action} (h : (openNodes past).Nodup) (ha : ¬ Refused past a) :
    (openNodes (a :: past)).Nodup := by
  have hclosed : (((frames past).tail.filterMap Frame.node?).reverse).Nodup :=
    h.sublist (((List.tail_sublist _).filterMap _).reverse)
  cases a with
  | resolve node =>
      rw [openNodes_resolve]
      exact h.append (List.nodup_singleton _) (List.disjoint_singleton.2 ha)
  | exit => exact hclosed
  | abandon => exact hclosed
  | _ => exact h

/-- Nor does it visit a statement again. -/
theorem nodup_visits_cons {a : Action} (h : (visits past).Nodup) (ha : ¬ Refused past a) :
    (visits (a :: past)).Nodup := by
  cases a with
  | visit node =>
      rw [visits_visit]
      exact h.append (List.nodup_singleton _) (List.disjoint_singleton.2 ha)
  | _ => exact h

theorem hoisted_eq (c : Context) : c.hoisted = (c.macros.filterMap id).filter (· ≠ "") := by
  unfold Context.hoisted
  induction c.macros with
  | nil => rfl
  | cons m ms ih =>
      cases m with
      | none => simpa using ih
      | some text => by_cases htext : text = "" <;> simp [htext, ih]

/-! ## Any number of operations -/

/-- A workbench, and the operations that succeeded on it since it was new. -/
structure Transcript where
  bench : Workbench := {}
  past : List Action := []

namespace Transcript

/-- Performs an operation, and takes it down if it succeeds. -/
def perform (t : Transcript) (a : Action) : Transcript :=
  match t.bench.step a with
  | .ok (_, w) => ⟨w, a :: t.past⟩
  | .error _ => t

/-- The transcript of operations on a new workbench, in the order in which they are attempted. -/
def of (as : List Action) : Transcript := as.foldl perform {}

/-- The workbench is what its past leaves behind, where no node was entered inside itself and none
visited twice. -/
structure Faithful (t : Transcript) : Prop where
  bench : t.bench = ofPast t.past
  nodes : (openNodes t.past).Nodup
  visits : (visits t.past).Nodup

theorem bench_perform (t : Transcript) (a : Action) : (t.perform a).bench = t.bench.after a := by
  unfold perform after
  cases t.bench.step a with
  | ok result => rfl
  | error e => rfl

theorem faithful_perform {t : Transcript} (h : t.Faithful) (a : Action) : (t.perform a).Faithful := by
  rcases step_ofPast t.past a with ⟨-, e, hstep⟩ | ⟨ha, answer, hstep⟩
  · rw [perform, h.bench, hstep]
    exact h
  · rw [perform, h.bench, hstep]
    exact ⟨rfl, nodup_openNodes_cons h.nodes ha, nodup_visits_cons h.visits ha⟩

theorem faithful_of (as : List Action) : (of as).Faithful := by
  have hrun : ∀ t : Transcript, t.Faithful → (as.foldl perform t).Faithful := by
    induction as with
    | nil => exact fun t h => h
    | cons a as ih => exact fun t h => ih _ (faithful_perform h a)
  exact hrun {} ⟨rfl, .nil, .nil⟩

theorem bench_of (as : List Action) : (of as).bench = as.foldl after {} := by
  have hrun : ∀ t : Transcript, (as.foldl perform t).bench = as.foldl after t.bench := by
    induction as with
    | nil => exact fun t => rfl
    | cons a as ih =>
        intro t
        rw [List.foldl_cons, List.foldl_cons, ih, bench_perform]
  exact hrun {}

/-- After any operations on a new context, failed ones among them, it holds what those that succeeded
amount to. The scope is the innermost open one; the nodes being resolved are the open ones, in the order
of their opening and without repeats; the owners have the places from the first to the last, one each,
and keep them; the visited statements are those of the visits; and the hoisted macros are the texts
filled last that are not empty, in the order of the reservations. An operation fails under the stated
conditions only, and changes nothing then. -/
theorem context_tells_past (as : List Action) :
    let t := Transcript.of as
    let c := t.bench.context
    t.bench = as.foldl after {} ∧
    (c.scope = (openTags t.past).head? ∧ (c.inScope = true ↔ openTags t.past ≠ [])) ∧
    (c.resolving = openNodes t.past ∧ c.resolving.Nodup) ∧
    (c.owners.map Prod.fst = reservations t.past ∧ (c.owners.map Prod.fst).Nodup ∧
      c.owners.map Prod.snd = List.range c.macros.length) ∧
    (∀ owner slot, (owner, slot) ∈ c.owners →
      t.bench.step (.reserve owner) = .ok (.slot slot, t.bench)) ∧
    (c.visited = visits t.past ∧ c.visited.Nodup) ∧
    (c.macros = texts t.past ∧ c.hoisted = ((texts t.past).filterMap id).filter (· ≠ "")) ∧
    c.diagnostics = remarks t.past ∧
    ∀ a, ((∃ e, t.bench.step a = .error e) ↔ Refused t.past a) ∧
      ∀ e, t.bench.step a = .error e → t.bench.after a = t.bench := by
  intro t c
  have hfaithful : t.Faithful := faithful_of as
  have hc : c = contextOf t.past := congrArg Workbench.context hfaithful.bench
  have hfst : c.owners.map Prod.fst = reservations t.past := by
    rw [hc]
    simp [contextOf]
  have hsnd : c.owners.map Prod.snd = List.range c.macros.length := by
    rw [hc]
    simp [contextOf, List.range_eq_range']
  refine ⟨bench_of as, ⟨by rw [hc, contextOf], ?_⟩, ⟨by rw [hc, contextOf], ?_⟩,
    ⟨hfst, hfst ▸ nodup_reservations t.past, hsnd⟩, fun owner slot hmem => ?_,
    ⟨by rw [hc, contextOf], ?_⟩, ⟨by rw [hc, contextOf], ?_⟩, by rw [hc, contextOf], fun a => ⟨?_, ?_⟩⟩
  · rw [hc]
    simp [Context.inScope, contextOf]
  · rw [hc]
    exact hfaithful.nodes
  · rw [hc] at hmem
    rw [hfaithful.bench]
    simp only [step, ofPast, reserve_of_mem_owners hmem]
  · rw [hc]
    exact hfaithful.visits
  · rw [hc, hoisted_eq, contextOf]
  · rw [hfaithful.bench]
    rcases step_ofPast t.past a with ⟨ha, hstep⟩ | ⟨ha, answer, hstep⟩
    · exact ⟨fun _ => ha, fun _ => hstep⟩
    · simp [ha, hstep]
  · intro e he
    rw [after, he]

end Transcript

end Workbench

end BlockMusic
