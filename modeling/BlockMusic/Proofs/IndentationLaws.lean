import BlockMusic.Proofs.Indentation

/-!
# The laws of indentation

Where a text is cut into lines is said here without the cutting: every line is a stretch without
boundaries and the boundary that ends it, only the last line may go without one, and no carriage return
is parted from the newline behind it. A text has one such cut. A unit without boundaries goes into the
lines without moving their ends, so the indented lines are the cut of the indented text, and indenting
twice is indenting once by both units.
-/

namespace BlockMusic.Text

variable {u v cs l : List Char} {ls : List (List Char)}

/-! ## Cuts -/

/-- The characters that end a line. -/
def boundaries : List Char :=
  ['\n', '\x0b', '\x0c', '\r', '\x1c', '\x1d', '\x1e', '\x85', '\u2028', '\u2029']

theorem isBoundary_iff {c : Char} : isBoundary c = true ↔ c ∈ boundaries := by
  simp only [isBoundary, boundaries, Bool.or_eq_true, Bool.and_eq_true, decide_eq_true_eq, beq_iff_eq,
    List.mem_cons, List.not_mem_nil, or_false, ← Char.toNat_inj]
  simp only [Char.reduceToNat]
  omega

/-- A stretch without boundaries, and the boundary that ends it. -/
inductive ClosedLine : List Char → Prop
  | crlf (body : List Char) (h : ∀ c ∈ body, isBoundary c = false) : ClosedLine (body ++ ['\r', '\n'])
  | single (body : List Char) {c : Char} (h : ∀ c ∈ body, isBoundary c = false)
      (hc : isBoundary c = true) : ClosedLine (body ++ [c])

/-- The lines of a text, each with its end. -/
inductive Cut : List (List Char) → Prop
  | nil : Cut []
  | last {l : List Char} (hne : l ≠ []) (h : ∀ c ∈ l, isBoundary c = false) : Cut [l]
  | cons {l : List Char} {ls : List (List Char)} (h : ClosedLine l) (hends : EndsLine l ls.flatten)
      (hls : Cut ls) : Cut (l :: ls)

theorem ClosedLine.ne_nil (h : ClosedLine l) : l ≠ [] := by
  cases h <;> simp

theorem ClosedLine.append (h : ClosedLine l) (hu : ∀ c ∈ u, isBoundary c = false) :
    ClosedLine (u ++ l) := by
  cases h with
  | crlf body hbody =>
      rw [← List.append_assoc]
      exact .crlf (u ++ body) (List.forall_mem_append.2 ⟨hu, hbody⟩)
  | single body hbody hc =>
      rw [← List.append_assoc]
      exact .single (u ++ body) (List.forall_mem_append.2 ⟨hu, hbody⟩) hc

theorem Cut.ne_nil_of_mem (h : Cut ls) (hl : l ∈ ls) : l ≠ [] := by
  induction h with
  | nil => exact absurd hl List.not_mem_nil
  | last hne _ => exact List.mem_singleton.1 hl ▸ hne
  | cons hclosed _ _ ih =>
      rcases List.mem_cons.1 hl with rfl | hl
      · exact hclosed.ne_nil
      · exact ih hl

/-- The first line of a text goes on from what stands in front of the text. -/
theorem Cut.consLine {c : Char} (h : Cut ls) (hc : isBoundary c = false) : Cut (consLine c ls) := by
  have hplain {body : List Char} (hbody : ∀ z ∈ body, isBoundary z = false) :
      ∀ z ∈ c :: body, isBoundary z = false := List.forall_mem_cons.2 ⟨hc, hbody⟩
  cases h with
  | nil => exact .last (by simp) (hplain (by simp))
  | last _ hl => exact .last (by simp) (hplain hl)
  | cons hclosed hends hls =>
      have hone : ∀ z ∈ [c], isBoundary z = false := by simpa using hc
      refine .cons (hclosed.append hone) (fun z hz => hends z ?_) hls
      obtain ⟨x, xs, rfl⟩ := List.exists_cons_of_ne_nil hclosed.ne_nil
      simpa [List.getLast?_cons_cons] using hz

theorem cut_lines (cs : List Char) : Cut (lines cs) := by
  fun_induction lines cs with
  | case1 => exact .nil
  | case2 cs ih => exact .cons (.crlf [] (by simp)) (.of_newline (by simp)) ih
  | case3 c cs hcrlf hc ih =>
      refine .cons (.single [] (by simp) hc) ?_ ih
      intro z hz
      obtain rfl : c = z := by simpa using hz
      refine ⟨hc, ?_⟩
      -- with its newline behind it a carriage return would have been taken in the case before
      rintro rfl hhead
      rw [flatten_lines] at hhead
      obtain ⟨xs, rfl⟩ := List.head?_eq_some_iff.1 hhead
      exact hcrlf xs rfl rfl
  | case4 c cs _ hc ih => exact ih.consLine (by simpa using hc)

theorem lines_plain_append (hu : ∀ c ∈ u, isBoundary c = false) (h : lines cs = [l]) :
    lines (u ++ cs) = [u ++ l] := by
  induction u with
  | nil => exact h
  | cons c u ih =>
      have hrest := ih fun z hz => hu z (List.mem_cons_of_mem c hz)
      rw [List.cons_append, lines_cons_plain (hu c List.mem_cons_self), hrest]
      rfl

theorem lines_closed (h : ClosedLine l) : lines l = [l] := by
  cases h with
  | crlf body hbody => exact lines_plain_append hbody rfl
  | single body hbody hc =>
      refine lines_plain_append hbody ?_
      rw [lines_cons_boundary hc (by simp), lines_nil]

theorem lines_of_cut (h : Cut ls) : lines ls.flatten = ls := by
  induction h with
  | nil => rfl
  | @last l hne hl =>
      -- the text has no boundary to stop at, so the line is begun from its last character
      rcases List.eq_nil_or_concat l with rfl | ⟨q, z, rfl⟩
      · exact absurd rfl hne
      have hz : lines [z] = [[z]] := by
        rw [lines_cons_plain (hl z (by simp))]
        rfl
      rw [List.concat_eq_append] at hl ⊢
      simpa using lines_plain_append (fun c hc => hl c (List.mem_append_left [z] hc)) hz
  | cons hclosed hends _ ih =>
      rw [List.flatten_cons, lines_append hends, lines_closed hclosed, ih]
      rfl

/-- A text is cut into lines in one way. -/
theorem eq_lines_iff : ls = lines cs ↔ ls.flatten = cs ∧ Cut ls := by
  constructor
  · rintro rfl
    exact ⟨flatten_lines cs, cut_lines cs⟩
  · rintro ⟨rfl, h⟩
    exact (lines_of_cut h).symm

/-! ## Indented cuts -/

theorem indentLine_indentLine (u v l : List Char) :
    indentLine v (indentLine u l) = indentLine (v ++ u) l := by
  unfold indentLine
  by_cases hl : l.all isBlank = true
  · simp only [hl, if_true]
  · have hul : ¬ (u ++ l).all isBlank = true := by
      rw [List.all_append, Bool.and_eq_true]
      exact fun h => hl h.2
    simp only [hl, hul, if_false, List.append_assoc, Bool.false_eq_true]

/-- An indented line is the line, or the unit and the line. -/
theorem indentLine_eq_or (u l : List Char) : indentLine u l = l ∨ indentLine u l = u ++ l := by
  unfold indentLine
  split
  · exact .inl rfl
  · exact .inr rfl

theorem indentLine_ne_nil (u : List Char) (h : l ≠ []) : indentLine u l ≠ [] := by
  rcases indentLine_eq_or u l with heq | heq <;> simp [heq, h]

theorem plain_indentLine (hu : ∀ c ∈ u, isBoundary c = false) (hl : ∀ c ∈ l, isBoundary c = false) :
    ∀ c ∈ indentLine u l, isBoundary c = false := by
  rcases indentLine_eq_or u l with heq | heq <;> rw [heq]
  · exact hl
  · exact List.forall_mem_append.2 ⟨hu, hl⟩

theorem ClosedLine.indent (h : ClosedLine l) (hu : ∀ c ∈ u, isBoundary c = false) :
    ClosedLine (indentLine u l) := by
  rcases indentLine_eq_or u l with heq | heq <;> rw [heq]
  · exact h
  · exact h.append hu

theorem head?_indentLine (hu : ∀ c ∈ u, isBoundary c = false)
    (h : (indentLine u l).head? = some '\n') : l.head? = some '\n' := by
  rcases indentLine_eq_or u l with heq | heq <;> rw [heq] at h
  · exact h
  · cases u with
    | nil => exact h
    | cons c u =>
        obtain rfl : c = '\n' := by simpa using h
        exact absurd (hu '\n' List.mem_cons_self) (by decide)

/-- A line stays ended: the unit brings no newline that a carriage return could take. -/
theorem EndsLine.indent (h : EndsLine l ls.flatten) (hl : l ≠ []) (hls : ∀ m ∈ ls, m ≠ [])
    (hu : ∀ c ∈ u, isBoundary c = false) :
    EndsLine (indentLine u l) (ls.map (indentLine u)).flatten := by
  intro c hc
  rw [getLast?_indentLine u l hl] at hc
  refine ⟨(h c hc).1, fun hcr hhead => (h c hc).2 hcr ?_⟩
  cases ls with
  | nil => exact hhead
  | cons m ms =>
      have hm : m ≠ [] := hls m List.mem_cons_self
      rw [List.map_cons, List.flatten_cons,
        List.head?_append_of_ne_nil _ (indentLine_ne_nil u hm)] at hhead
      rw [List.flatten_cons, List.head?_append_of_ne_nil _ hm]
      exact head?_indentLine hu hhead

theorem Cut.indent (h : Cut ls) (hu : ∀ c ∈ u, isBoundary c = false) :
    Cut (ls.map (indentLine u)) := by
  induction h with
  | nil => exact .nil
  | last hne hl => exact .last (indentLine_ne_nil u hne) (plain_indentLine hu hl)
  | cons hclosed hends hls ih =>
      have hstays := hends.indent hclosed.ne_nil (fun m => hls.ne_nil_of_mem) hu
      exact .cons (hclosed.indent hu) hstays ih

/-- The indented lines are the lines of the indented text. -/
theorem lines_indentChars (hu : ∀ c ∈ u, isBoundary c = false) (cs : List Char) :
    lines (indentChars u cs) = (lines cs).map (indentLine u) :=
  lines_of_cut ((cut_lines cs).indent hu)

theorem indentChars_indentChars (hu : ∀ c ∈ u, isBoundary c = false) (v cs : List Char) :
    indentChars v (indentChars u cs) = indentChars (v ++ u) cs := by
  rw [indentChars, lines_indentChars hu, indentChars, List.flatMap_map]
  exact congrArg (fun f => (lines cs).flatMap f) (funext (indentLine_indentLine u v))

/-! ## Texts -/

@[simp] theorem toList_indent (unit text : String) :
    (indent unit text).toList = indentChars unit.toList text.toList :=
  String.toList_ofList

theorem indent_append {a : String} (h : a = "" ∨ ∃ front, a = front ++ "\n") (v b : String) :
    indent v (a ++ b) = indent v a ++ indent v b := by
  have hlast : ∀ c ∈ a.toList.getLast?, c = '\n' := by
    rcases h with rfl | ⟨front, rfl⟩ <;> simp
  rw [← String.toList_inj]
  simp [indentChars_append (.of_newline hlast)]

theorem indent_indent {u : String} (hu : ∀ c ∈ u.toList, isBoundary c = false) (v t : String) :
    indent v (indent u t) = indent (v ++ u) t := by
  rw [← String.toList_inj]
  simp [indentChars_indentChars hu]

@[simp] theorem indent_empty (t : String) : indent "" t = t := by
  rw [← String.toList_inj, toList_indent]
  exact indentChars_nil _

theorem plain_join_replicate {u : String} (hu : ∀ c ∈ u.toList, isBoundary c = false) (k : Nat) :
    ∀ c ∈ (String.join (List.replicate k u)).toList, isBoundary c = false := by
  intro c hc
  rw [String.toList_join, List.mem_flatMap] at hc
  obtain ⟨s, hs, hc⟩ := hc
  exact hu c (List.eq_of_mem_replicate hs ▸ hc)

theorem indent_iterate {u : String} (hu : ∀ c ∈ u.toList, isBoundary c = false) (k : Nat) (t : String) :
    (indent u)^[k] t = indent (String.join (List.replicate k u)) t := by
  induction k with
  | zero => exact (indent_empty t).symm
  | succ k ih =>
      rw [Function.iterate_succ_apply', ih, indent_indent (plain_join_replicate hu k),
        List.replicate_succ, String.join_cons]

/-- Texts that end their line are indented one by one; indenting twice is indenting once by both units,
so nested indentation is indentation by the repeated unit; and the empty unit changes nothing. All lines
of the one cut of a text are indented, but for the blank ones. -/
theorem indentation_laws :
    (∀ a b v : String, (a = "" ∨ ∃ front, a = front ++ "\n") →
      indent v (a ++ b) = indent v a ++ indent v b) ∧
    (∀ t u v : String, (∀ c ∈ u.toList, isBoundary c = false) →
      indent v (indent u t) = indent (v ++ u) t) ∧
    (∀ (t u : String) (k : Nat), (∀ c ∈ u.toList, isBoundary c = false) →
      (indent u)^[k] t = indent (String.join (List.replicate k u)) t) ∧
    (∀ t : String, indent "" t = t) ∧
    (∀ c, isBoundary c = true ↔ c ∈ boundaries) ∧
    ∀ t v : String, ∃ ls, (∀ ls', ls'.flatten = t.toList ∧ Cut ls' ↔ ls' = ls) ∧
      (indent v t).toList = ls.flatMap fun l => if l.all isBlank then l else v.toList ++ l := by
  refine ⟨fun a b v h => indent_append h v b, fun t u v hu => indent_indent hu v t,
    fun t u k hu => indent_iterate hu k t, indent_empty, fun c => isBoundary_iff, fun t v => ?_⟩
  exact ⟨lines t.toList, fun _ => eq_lines_iff.symm, toList_indent v t⟩

/-- A text whose lines end in different ways, with a blank one among them. -/
def mixedLines : String := "a\r\n \n\u2028b"

theorem mixedLines_indented :
    (∀ c ∈ "  ".toList, isBoundary c = false) ∧
      indent "\t" (indent "  " mixedLines) = "\t  a\r\n \n\u2028\t  b" ∧
      indent ("\t" ++ "  ") mixedLines = "\t  a\r\n \n\u2028\t  b" ∧
      indent "\n\t" ("x\n" ++ mixedLines) = indent "\n\t" "x\n" ++ indent "\n\t" mixedLines ∧
      (indent "  ")^[2] mixedLines = indent "    " mixedLines := by
  have hunit : ∀ c ∈ "  ".toList, isBoundary c = false := plain_of_all (by decide)
  have honce : indent ("\t" ++ "  ") mixedLines = "\t  a\r\n \n\u2028\t  b" := by decide +kernel
  obtain ⟨hsum, htwice, htimes, -⟩ := indentation_laws
  exact ⟨hunit, (htwice mixedLines "  " "\t" hunit).trans honce, honce,
    hsum "x\n" mixedLines "\n\t" (.inr ⟨"x", rfl⟩), htimes mixedLines "  " 2 hunit⟩

end BlockMusic.Text
