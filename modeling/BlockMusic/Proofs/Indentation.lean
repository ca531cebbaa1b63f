import BlockMusic.Text.Lines
import Mathlib.Data.List.DropRight
import Mathlib.Logic.Function.Iterate

/-!
# Indentation of composed texts

Indenting a text that is put together from parts. A part that ends its line is indented on its own.
A part that starts inside a line gets a hanging indentation: the unit stands in front of every line
but the first. Main statement: a line of code indented `d` times is a margin, which the unit alone
decides, in front of the line with `d` hanging indentations.
-/

namespace BlockMusic.Text

variable {u a b p q cs : List Char} {c : Char}

/-! ## Lines of an append -/

theorem isBlank_of_isBoundary (h : isBoundary c = true) : isBlank c = true := by
  simp only [isBoundary, isBlank, Bool.or_eq_true, Bool.and_eq_true, decide_eq_true_eq,
    beq_iff_eq] at h ⊢
  omega

theorem isBoundary_of_not_isBlank (h : isBlank c = false) : isBoundary c = false := by
  by_contra hc
  simp [isBlank_of_isBoundary (Bool.not_eq_false _ ▸ hc)] at h

theorem plain_of_all (h : cs.all (fun c => !isBoundary c) = true) : ∀ c ∈ cs, isBoundary c = false := by
  intro c hc
  simpa using List.all_eq_true.1 h c hc

/-- `a` is empty or its end is the end of a line, also with `b` behind it. -/
def EndsLine (a b : List Char) : Prop :=
  ∀ c ∈ a.getLast?, isBoundary c = true ∧ (c = '\r' → b.head? ≠ some '\n')

theorem EndsLine.of_newline (h : ∀ c ∈ a.getLast?, c = '\n') : EndsLine a b := by
  intro c hc
  obtain rfl := h c hc
  exact ⟨by decide, fun hcr => absurd hcr (by decide)⟩

theorem EndsLine.tail {a : List Char} (h : EndsLine (c :: a) b) : EndsLine a b := by
  intro z hz
  cases a with
  | nil => simp at hz
  | cons x xs => exact h z (by simpa [List.getLast?_cons_cons] using hz)

theorem lines_cons_boundary (h : isBoundary c = true) (hcr : c = '\r' → cs.head? ≠ some '\n') :
    lines (c :: cs) = [c] :: lines cs := by
  rw [lines]
  · simp [h]
  · rintro rest rfl rfl
    exact hcr rfl rfl

theorem lines_cons_plain (h : isBoundary c = false) : lines (c :: cs) = consLine c (lines cs) := by
  rw [lines]
  · simp [h]
  · rintro rest rfl rfl
    exact absurd h (by decide)

@[simp] theorem lines_eq_nil : lines cs = [] ↔ cs = [] := by
  constructor
  · intro h
    simpa [h] using (flatten_lines cs).symm
  · rintro rfl
    rfl

theorem consLine_append {ls ms : List (List Char)} (h : ls ≠ []) :
    consLine c (ls ++ ms) = consLine c ls ++ ms := by
  cases ls with
  | nil => exact absurd rfl h
  | cons l ls => rfl

theorem lines_append (h : EndsLine a b) : lines (a ++ b) = lines a ++ lines b := by
  fun_induction lines a with
  | case1 => rfl
  | case2 cs ih =>
      have hrest : EndsLine cs b := h.tail.tail
      simp [lines, ih hrest]
  | case3 c cs hcrlf hc ih =>
      have hcr : c = '\r' → (cs ++ b).head? ≠ some '\n' := by
        rintro rfl
        cases cs with
        | nil => exact (h '\r' (by simp)).2 rfl
        | cons x xs =>
            rintro hx
            obtain rfl : x = '\n' := by simpa using hx
            exact hcrlf xs rfl rfl
      rw [List.cons_append, lines_cons_boundary hc hcr, ih h.tail, List.cons_append]
  | case4 c cs _ hc ih =>
      have hplain : isBoundary c = false := by simpa using hc
      have hne : cs ≠ [] := by
        rintro rfl
        simp [(h c (by simp)).1] at hplain
      rw [List.cons_append, lines_cons_plain hplain, ih h.tail,
        consLine_append (mt lines_eq_nil.1 hne)]

theorem indentChars_append (h : EndsLine a b) :
    indentChars u (a ++ b) = indentChars u a ++ indentChars u b := by
  simp [indentChars, lines_append h]

/-! ## Hanging indentation -/

/-- The lines of a text whose first line has begun before: all but the first are indented. -/
def hangLines (unit : List Char) : List (List Char) → List Char
  | [] => []
  | l :: ls => l ++ ls.flatMap (indentLine unit)

/-- Every line but the first that is not blank gets `unit` in front. -/
def hang (unit cs : List Char) : List Char := hangLines unit (lines cs)

@[simp] theorem hang_nil (u : List Char) : hang u [] = [] := rfl

@[simp] theorem hang_empty (cs : List Char) : hang [] cs = cs := by
  have hls : ∀ ls : List (List Char), hangLines [] ls = ls.flatten := by
    intro ls
    cases ls <;> simp [hangLines, List.flatMap, funext indentLine_nil]
  rw [hang, hls, flatten_lines]

theorem hang_cons_plain (h : isBoundary c = false) : hang u (c :: cs) = c :: hang u cs := by
  rw [hang, hang, lines_cons_plain h]
  cases lines cs <;> simp [consLine, hangLines]

theorem hang_append_plain (hp : ∀ c ∈ p, isBoundary c = false) (cs : List Char) :
    hang u (p ++ cs) = p ++ hang u cs := by
  induction p with
  | nil => rfl
  | cons c p ih =>
      have hc : isBoundary c = false := hp c (by simp)
      have hrest : ∀ z ∈ p, isBoundary z = false := fun z hz => hp z (by simp [hz])
      rw [List.cons_append, hang_cons_plain hc, ih hrest, List.cons_append]

theorem hang_plain (hp : ∀ c ∈ p, isBoundary c = false) : hang u p = p := by
  simpa using hang_append_plain (u := u) hp []

theorem hang_append_closed (hne : a ≠ []) (h : EndsLine a b) :
    hang u (a ++ b) = hang u a ++ indentChars u b := by
  obtain ⟨l, ls, hl⟩ := List.exists_cons_of_ne_nil (mt lines_eq_nil.1 hne)
  simp [hang, lines_append h, hl, hangLines, indentChars]

/-- A stretch without a boundary goes into the first line. -/
theorem lines_append_plain (hp : ∀ c ∈ p, isBoundary c = false) (hne : p ≠ []) (u cs : List Char) :
    ∃ l ls, lines (p ++ cs) = (p ++ l) :: ls ∧ hang u cs = l ++ ls.flatMap (indentLine u) := by
  induction p with
  | nil => exact absurd rfl hne
  | cons c p ih =>
      have hc : isBoundary c = false := hp c (by simp)
      have hrest : ∀ z ∈ p, isBoundary z = false := fun z hz => hp z (by simp [hz])
      rw [List.cons_append, lines_cons_plain hc]
      by_cases hnil : p = []
      · subst hnil
        cases hl : lines cs with
        | nil => exact ⟨[], [], by simp [hl, consLine], by simp [hang, hl, hangLines]⟩
        | cons l ls => exact ⟨l, ls, by simp [hl, consLine], by simp [hang, hl, hangLines]⟩
      · obtain ⟨l, ls, hl, hh⟩ := ih hrest hnil
        exact ⟨l, ls, by simp [hl, consLine], hh⟩

/-- A line is indented if there is more than blanks before its first boundary. -/
theorem indentChars_append_nonblank (hp : ∀ c ∈ p, isBoundary c = false) (hc : isBlank c = false)
    (cs : List Char) : indentChars u (p ++ c :: cs) = u ++ (p ++ c :: hang u cs) := by
  have hplain : ∀ z ∈ p ++ [c], isBoundary z = false := by
    intro z hz
    rcases List.mem_append.1 hz with h | h
    · exact hp z h
    · obtain rfl : z = c := by simpa using h
      exact isBoundary_of_not_isBlank hc
  obtain ⟨l, ls, hl, hh⟩ := lines_append_plain hplain (by simp) u cs
  have hline : indentLine u (p ++ c :: l) = u ++ (p ++ c :: l) := by
    rw [indentLine, if_neg]
    intro hall
    simp [List.all_eq_true.1 hall c (by simp)] at hc
  simp only [List.append_assoc, List.singleton_append] at hl
  simp [indentChars, hl, hline, hh]

/-! ## Closed and open part of a text -/

/-- The final stretch without a boundary: the line that has begun. -/
def openPart (cs : List Char) : List Char := cs.rtakeWhile fun c => !isBoundary c

/-- The lines that have ended. -/
def closedPart (cs : List Char) : List Char := cs.rdropWhile fun c => !isBoundary c

theorem closedPart_append_openPart (cs : List Char) : closedPart cs ++ openPart cs = cs :=
  List.rdropWhile_append_rtakeWhile

theorem not_isBoundary_of_mem_openPart (h : c ∈ openPart cs) : isBoundary c = false := by
  simpa using List.mem_rtakeWhile_imp h

theorem isBoundary_getLast_closedPart (h : c ∈ (closedPart cs).getLast?) : isBoundary c = true := by
  obtain ⟨hne, rfl⟩ := List.mem_getLast?_eq_getLast h
  simpa [closedPart] using List.rdropWhile_last_not (fun c => !isBoundary c) cs hne

theorem closedPart_eq_nil (h : ∀ c ∈ cs, isBoundary c = false) : closedPart cs = [] := by
  simpa [closedPart, List.rdropWhile_eq_nil_iff] using h

theorem openPart_eq_self (h : ∀ c ∈ cs, isBoundary c = false) : openPart cs = cs := by
  simpa [closedPart_eq_nil h] using closedPart_append_openPart cs

/-- The line that has begun does not go on with a newline, so the part before it is closed. -/
theorem endsLine_closedPart (hc : isBlank c = false) (q cs : List Char) :
    EndsLine (closedPart q) (openPart q ++ c :: cs) := by
  have hhead : (openPart q ++ c :: cs).head? ≠ some '\n' := by
    intro h
    cases ho : openPart q with
    | nil =>
        obtain rfl : c = '\n' := by simpa [ho] using h
        exact absurd hc (by decide)
    | cons x xs =>
        obtain rfl : x = '\n' := by simpa [ho] using h
        have hx : '\n' ∈ openPart q := by simp [ho]
        exact absurd (not_isBoundary_of_mem_openPart hx) (by decide)
  exact fun _ hz => ⟨isBoundary_getLast_closedPart hz, fun _ => hhead⟩

theorem eq_closedPart_append (q cs : List Char) : q ++ cs = closedPart q ++ (openPart q ++ cs) := by
  rw [← List.append_assoc, closedPart_append_openPart]

theorem hang_append_nonblank (hne : closedPart q ≠ []) (hc : isBlank c = false) (cs : List Char) :
    hang u (q ++ c :: cs) = hang u (closedPart q) ++ (u ++ (openPart q ++ c :: hang u cs)) := by
  rw [eq_closedPart_append, hang_append_closed hne (endsLine_closedPart hc q cs),
    indentChars_append_nonblank (fun _ h => not_isBoundary_of_mem_openPart h) hc]

theorem plain_of_closedPart_eq_nil (h : closedPart q = []) : ∀ c ∈ q, isBoundary c = false := by
  intro c hc
  rw [← closedPart_append_openPart q, h] at hc
  exact not_isBoundary_of_mem_openPart hc

/-- A text that ends inside a line with more than blanks in it is cut off from what follows. -/
theorem hang_append (hq : ∀ c ∈ q.getLast?, isBlank c = false) (cs : List Char) :
    hang u (q ++ cs) = hang u q ++ hang u cs := by
  rcases List.eq_nil_or_concat q with rfl | ⟨q, z, rfl⟩
  · rfl
  rw [List.concat_eq_append] at hq ⊢
  have hz : isBlank z = false := hq z (by simp)
  rw [List.append_assoc, List.singleton_append]
  by_cases hnil : closedPart q = []
  · have hplain := plain_of_closedPart_eq_nil hnil
    simp [hang_append_plain hplain, hang_cons_plain (isBoundary_of_not_isBlank hz)]
  · simp [hang_append_nonblank hnil hz]

/-! ## What indentation keeps -/

theorem getLast?_indentLine (u l : List Char) (h : l ≠ []) :
    (indentLine u l).getLast? = l.getLast? := by
  unfold indentLine
  split
  · rfl
  · rw [List.getLast?_append_of_ne_nil _ h]

theorem ne_nil_of_mem_lines {l : List Char} (h : l ∈ lines cs) : l ≠ [] := by
  fun_induction lines cs with
  | case1 => simp at h
  | case2 cs ih =>
      rcases List.mem_cons.1 h with rfl | h
      · simp
      · exact ih h
  | case3 c cs _ _ ih =>
      rcases List.mem_cons.1 h with rfl | h
      · simp
      · exact ih h
  | case4 c cs _ _ ih =>
      cases hl : lines cs with
      | nil => simp_all [consLine]
      | cons m ms =>
          rw [hl, consLine] at h
          rcases List.mem_cons.1 h with rfl | h
          · simp
          · exact ih (by simp [hl, h])

theorem getLast?_flatMap_indentLine (u : List Char) {ls : List (List Char)} (h : ∀ l ∈ ls, l ≠ []) :
    (ls.flatMap (indentLine u)).getLast? = ls.flatten.getLast? := by
  induction ls with
  | nil => rfl
  | cons l ls ih =>
      have hl : (indentLine u l).getLast? = l.getLast? := getLast?_indentLine u l (h l (by simp))
      have hls := ih fun m hm => h m (by simp [hm])
      simp [List.getLast?_append, hl, hls]

theorem getLast?_indentChars (u cs : List Char) : (indentChars u cs).getLast? = cs.getLast? := by
  rw [indentChars, getLast?_flatMap_indentLine u fun _ h => ne_nil_of_mem_lines h, flatten_lines]

theorem getLast?_hang (u cs : List Char) : (hang u cs).getLast? = cs.getLast? := by
  cases hl : lines cs with
  | nil => simp [lines_eq_nil.1 hl]
  | cons l ls =>
      have hls : ∀ m ∈ ls, m ≠ [] := by
        intro m hm
        have hmem : m ∈ lines cs := by simp [hl, hm]
        exact ne_nil_of_mem_lines hmem
      rw [hang, hl, hangLines, ← flatten_lines cs, hl]
      simp [List.getLast?_append, getLast?_flatMap_indentLine u hls]

/-! ## Margins -/

/-- What stands in front of a line of code with `m` in front of it, once it is indented. -/
def widen (u m : List Char) : List Char := indentChars u (closedPart m) ++ (u ++ openPart m)

/-- What stands in front of a line of code that is indented `d` times. -/
def margin (u : List Char) (d : Nat) : List Char := (widen u)^[d] []

theorem margin_succ (u : List Char) (d : Nat) : margin u (d + 1) = widen u (margin u d) :=
  Function.iterate_succ_apply' ..

theorem indentChars_margin_append (hc : isBlank c = false) (m cs : List Char) :
    indentChars u (m ++ c :: cs) = widen u m ++ hang u (c :: cs) := by
  rw [eq_closedPart_append, indentChars_append (endsLine_closedPart hc m cs),
    indentChars_append_nonblank (fun _ h => not_isBoundary_of_mem_openPart h) hc,
    hang_cons_plain (isBoundary_of_not_isBlank hc)]
  simp [widen]

/-- A unit without a boundary makes the margin that it is repeated to. -/
theorem margin_eq_replicate (hu : ∀ c ∈ u, isBoundary c = false) (d : Nat) :
    margin u d = (List.replicate d u).flatten := by
  induction d with
  | zero => rfl
  | succ d ih =>
      have hplain : ∀ c ∈ margin u d, isBoundary c = false := by
        intro c hc
        rw [ih, List.mem_flatten] at hc
        obtain ⟨l, hl, hc⟩ := hc
        exact hu c (List.eq_of_mem_replicate hl ▸ hc)
      rw [margin_succ, widen, closedPart_eq_nil hplain, openPart_eq_self hplain, indentChars_empty,
        List.nil_append, ih, List.replicate_succ, List.flatten_cons]

/-! ## Repeated indentation -/

theorem indentTimes_append (h : ∀ c ∈ a.getLast?, c = '\n') (d : Nat) (b : List Char) :
    (indentChars u)^[d] (a ++ b) = (indentChars u)^[d] a ++ (indentChars u)^[d] b := by
  induction d generalizing a b with
  | zero => rfl
  | succ d ih =>
      simp only [Function.iterate_succ_apply]
      rw [indentChars_append (.of_newline h), ih (by simpa [getLast?_indentChars] using h)]

theorem getLast?_hangTimes (u cs : List Char) (d : Nat) :
    ((hang u)^[d] cs).getLast? = cs.getLast? := by
  induction d generalizing cs with
  | zero => rfl
  | succ d ih => rw [Function.iterate_succ_apply, ih, getLast?_hang]

theorem hangTimes_cons (hc : isBoundary c = false) (d : Nat) (cs : List Char) :
    (hang u)^[d] (c :: cs) = c :: (hang u)^[d] cs := by
  induction d generalizing cs with
  | zero => rfl
  | succ d ih => rw [Function.iterate_succ_apply, hang_cons_plain hc, ih, Function.iterate_succ_apply]

/-- A line of code indented `d` times is its margin and the line with `d` hanging indentations. -/
theorem indentTimes_line (hc : isBlank c = false) (hlast : ∀ z ∈ (c :: cs).getLast?, isBlank z = false)
    (d : Nat) :
    (indentChars u)^[d] (c :: cs ++ ['\n']) = margin u d ++ ((hang u)^[d] (c :: cs) ++ ['\n']) := by
  induction d with
  | zero => rfl
  | succ d ih =>
      have hplain := isBoundary_of_not_isBlank hc
      have hworn : ∀ z ∈ ((hang u)^[d] (c :: cs)).getLast?, isBlank z = false := by
        rwa [getLast?_hangTimes]
      have hnl : hang u ['\n'] = ['\n'] := by simp [hang, lines, hangLines, isBoundary]
      rw [Function.iterate_succ_apply', ih, margin_succ]
      calc indentChars u (margin u d ++ ((hang u)^[d] (c :: cs) ++ ['\n']))
          = widen u (margin u d) ++ hang u ((hang u)^[d] (c :: cs) ++ ['\n']) := by
            rw [hangTimes_cons hplain, List.cons_append, indentChars_margin_append hc]
        _ = widen u (margin u d) ++ ((hang u)^[d + 1] (c :: cs) ++ ['\n']) := by
            rw [hang_append hworn, hnl, Function.iterate_succ_apply']

/-! ## Texts that indentation changes -/

theorem length_le_flatMap_indentLine (u : List Char) (ls : List (List Char)) :
    ls.flatten.length ≤ (ls.flatMap (indentLine u)).length := by
  induction ls with
  | nil => exact Nat.le_refl _
  | cons l ls ih =>
      have hl : l.length ≤ (indentLine u l).length := by
        unfold indentLine
        split <;> simp
      simp only [List.flatten_cons, List.flatMap_cons, List.length_append]
      omega

theorem length_le_hang (u cs : List Char) : cs.length ≤ (hang u cs).length := by
  cases hl : lines cs with
  | nil => simp [lines_eq_nil.1 hl]
  | cons l ls =>
      have hls := length_le_flatMap_indentLine u ls
      conv_lhs => rw [← flatten_lines cs, hl]
      rw [hang, hl]
      simpa [hangLines] using hls

theorem length_le_hangTimes (u cs : List Char) (d : Nat) :
    cs.length ≤ ((hang u)^[d] cs).length := by
  induction d generalizing cs with
  | zero => exact Nat.le_refl _
  | succ d ih => exact (length_le_hang u cs).trans (ih _)

/-- A boundary before the end of a line of code lets the unit in behind it. -/
theorem length_add_le_hang (hb : ∃ c ∈ cs, isBoundary c = true)
    (hlast : ∀ z ∈ cs.getLast?, isBlank z = false) : cs.length + u.length ≤ (hang u cs).length := by
  obtain ⟨c, hc, hcb⟩ := hb
  rcases List.eq_nil_or_concat cs with rfl | ⟨q, z, rfl⟩
  · simp at hc
  rw [List.concat_eq_append] at hc hlast ⊢
  have hz : isBlank z = false := hlast z (by simp)
  have hclosed : closedPart q ≠ [] := by
    intro hnil
    rcases List.mem_append.1 hc with h | h
    · simp [plain_of_closedPart_eq_nil hnil c h] at hcb
    · obtain rfl : c = z := by simpa using h
      simp [isBoundary_of_not_isBlank hz] at hcb
  have hlen : q.length = (closedPart q).length + (openPart q).length := by
    rw [← List.length_append, closedPart_append_openPart]
  have hle := length_le_hang u (closedPart q)
  rw [hang_append_nonblank hclosed hz]
  simp only [List.length_append, List.length_cons, List.length_nil, hang_nil]
  omega

/-- Hanging indentation leaves a line of code alone exactly if there is nothing to put in, or no
boundary to put it behind. -/
theorem hangTimes_eq_self_iff (hlast : ∀ z ∈ cs.getLast?, isBlank z = false) (d : Nat) :
    (hang u)^[d] cs = cs ↔ d = 0 ∨ u = [] ∨ ∀ c ∈ cs, isBoundary c = false := by
  constructor
  · intro h
    by_contra hno
    push Not at hno
    obtain ⟨hd, hu, c, hc, hcb⟩ := hno
    obtain ⟨d, rfl⟩ := Nat.exists_eq_succ_of_ne_zero hd
    have hstep : cs.length + u.length ≤ (hang u cs).length :=
      length_add_le_hang ⟨c, hc, by simpa using hcb⟩ hlast
    have hrest := length_le_hangTimes u (hang u cs) d
    rw [← Function.iterate_succ_apply, h] at hrest
    have hpos := List.length_pos_iff.2 hu
    omega
  · rintro (rfl | rfl | hplain)
    · rfl
    · exact Function.iterate_fixed (hang_empty cs) d
    · exact Function.iterate_fixed (hang_plain hplain) d

end BlockMusic.Text
