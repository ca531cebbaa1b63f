import BlockMusic.Proofs.BodyLines
import Mathlib.Data.List.SplitBy

/-!
# Taking a program apart

The text of a program tells its parts. With a unit of blanks and tabs no line of a macro or of the body
is empty, so an empty line can only be the one between macros and body; and a line begins with
`defmotif ` where a macro begins, and nowhere else, since every other header begins with another letter
or with the margin. `Program.parts` takes a text apart by these two rules alone.
-/

namespace BlockMusic

open Script Text

namespace Program

/-- The lines of a text, each of which ends with a newline. -/
def textLines (text : String) : List String := (Text.split '\n' text).dropLast

/-- The line opens a macro. -/
def opensMacro (l : String) : Bool := "defmotif ".toList.isPrefixOf l.toList

/-- The lines of the macros and those of the body. -/
def cutLines (ls : List String) : List String × List String :=
  if "" ∈ ls then (ls.takeWhile (· != ""), (ls.dropWhile (· != "")).tail)
  else if ls.head?.any opensMacro then (ls, [])
  else ([], ls)

/-- The macros and the body that the text of a program consists of. -/
def parts (text : String) : List String × String :=
  let cut := cutLines (textLines text)
  ((cut.1.splitBy fun _ l => !opensMacro l).map fun ls => String.ofList (unlines ls),
    String.ofList (unlines cut.2))

end Program

/-! ## How lines begin -/

/-- The line begins, and not with the letter of a macro. -/
def BeginsOtherwise (l : String) : Prop := l.toList.head?.any (· != 'd') = true

instance (l : String) : Decidable (BeginsOtherwise l) := inferInstanceAs (Decidable (_ = true))

theorem BeginsOtherwise.ne_empty {l : String} (h : BeginsOtherwise l) : l ≠ "" := by
  rintro rfl
  exact absurd h (by decide)

theorem BeginsOtherwise.not_opensMacro {l : String} (h : BeginsOtherwise l) :
    Program.opensMacro l = false := by
  unfold BeginsOtherwise at h
  cases hl : l.toList with
  | nil =>
      rw [hl] at h
      cases h
  | cons c cs =>
      rw [hl] at h
      have hne : ('d' == c) = false := beq_eq_false_iff_ne.2 fun hc => by
        subst hc
        exact absurd h (by simp)
      have hopen : "defmotif ".toList = 'd' :: "efmotif ".toList := by decide
      rw [Program.opensMacro, hl, hopen, List.isPrefixOf, hne, Bool.false_and]

theorem Program.ne_empty_of_opensMacro {l : String} (h : opensMacro l = true) : l ≠ "" := by
  rintro rfl
  exact absurd h (by decide)

namespace Catalogue

/-- Apart from macros no header begins as a macro does. -/
theorem opening_otherwise : ∀ b ∈ blocks, (Role.ofBlock b).isMotif = false →
    (Role.ofBlock b).closing ≠ "" → BeginsOtherwise (Role.ofBlock b).opening := by
  decide

end Catalogue

section Lines

variable {unit : String} (hunit : ∀ c ∈ unit.toList, c = ' ' ∨ c = '\t') {g : Graph} {d : Nat} {n : Node}
  {b : Block} {l : String}
include hunit

theorem isBoundary_of_unit : ∀ c ∈ unit.toList, isBoundary c = false := by
  intro c hc
  rcases hunit c hc with rfl | rfl <;> decide

/-- Behind a margin of blanks and tabs a line begins otherwise if it does so without the margin. -/
theorem beginsOtherwise_of_margin {s : String} {cs : List Char} (hs : BeginsOtherwise s)
    (hl : l.toList = margin unit.toList d ++ (s.toList ++ cs)) : BeginsOtherwise l := by
  unfold BeginsOtherwise at hs ⊢
  rw [hl, margin_eq_repeated (isBoundary_of_unit hunit), toList_repeated]
  cases hmargin : (List.replicate d unit.toList).flatten with
  | nil =>
      have hne : s.toList ≠ [] := by
        intro h
        rw [h] at hs
        cases hs
      rwa [List.nil_append, List.head?_append_of_ne_nil _ hne]
  | cons c rest =>
      have hc : c ∈ (List.replicate d unit.toList).flatten := by simp [hmargin]
      obtain ⟨u, hu, hcu⟩ := List.mem_flatten.1 hc
      rcases hunit c (List.eq_of_mem_replicate hu ▸ hcu) with rfl | rfl <;> rfl

theorem OwnLine.beginsOtherwise (hb : b ∈ Catalogue.blocks) (hmotif : (Role.ofBlock b).isMotif = false)
    (hclose : (Role.ofBlock b).closing ≠ "") (h : OwnLine g unit.toList d n b l) :
    BeginsOtherwise l := by
  obtain ⟨ps, _, hl⟩ := h
  rw [List.append_assoc] at hl
  exact beginsOtherwise_of_margin hunit (Catalogue.opening_otherwise b hb hmotif hclose) hl

theorem beginsOtherwise_endLine (d : Nat) : BeginsOtherwise (endLine unit.toList d) := by
  have hl : (endLine unit.toList d).toList = margin unit.toList d ++ ("end".toList ++ []) := by
    rw [endLine, String.toList_ofList]
    rfl
  exact beginsOtherwise_of_margin hunit (by decide) hl

end Lines

theorem OwnLine.opensMacro {g : Graph} {unit : List Char} {n : Node} {b : Block} {slot l : String}
    (hrole : Role.ofBlock b = .motif slot) (h : OwnLine g unit 0 n b l) :
    Program.opensMacro l = true := by
  obtain ⟨ps, _, hl⟩ := h
  rw [hrole] at hl
  have hopen : l.toList = "defmotif ".toList ++ (write (worn unit 0) ps ++ " do".toList) := by
    have hmargin : margin unit 0 = [] := rfl
    rw [hl, hmargin, List.nil_append, List.append_assoc]
    rfl
  rw [Program.opensMacro, hopen]
  exact List.isPrefixOf_iff_prefix.2 (List.prefix_append _ _)

/-! ## The lines of a layout -/

/-- The first line opens a macro, and no other line of it does. -/
def OpensOnce (m : List String) : Prop :=
  ∃ l ls, m = l :: ls ∧ Program.opensMacro l = true ∧ ∀ s ∈ ls, BeginsOtherwise s

/-- Only the macros open with a line that opens a macro. -/
structure MacrosOpen (l : Layout) : Prop where
  lines : ∀ s ∈ l.lines, BeginsOtherwise s
  macros : ∀ m ∈ l.macros, OpensOnce m

namespace MacrosOpen

theorem empty : MacrosOpen .empty where
  lines _ hs := absurd hs List.not_mem_nil
  macros _ hm := absurd hm List.not_mem_nil

theorem append {l m : Layout} (hl : MacrosOpen l) (hm : MacrosOpen m) : MacrosOpen (l ++ m) where
  lines s hs := (List.mem_append.1 hs).elim (hl.lines s) (hm.lines s)
  macros s hs := (List.mem_append.1 hs).elim (hl.macros s) (hm.macros s)

/-- A header and the end of its block around the lines of the body. -/
theorem wrapped {nodes nodes' : List Node} {s t : String} {ls : List String}
    {ms : List (List String)} (hs : BeginsOtherwise s) (ht : BeginsOtherwise t)
    (h : MacrosOpen ⟨nodes, ls, ms⟩) : MacrosOpen ⟨nodes', s :: ls ++ [t], ms⟩ where
  lines x hx := by
    rw [List.cons_append, List.mem_cons, List.mem_append, List.mem_singleton] at hx
    rcases hx with rfl | hx | rfl
    · exact hs
    · exact h.lines x hx
    · exact ht
  macros := h.macros

/-- A macro in front of those of its body. -/
theorem hoisted {nodes nodes' : List Node} {s t : String} {ls : List String}
    {ms : List (List String)} (hs : Program.opensMacro s = true) (ht : BeginsOtherwise t)
    (h : MacrosOpen ⟨nodes, ls, ms⟩) : MacrosOpen ⟨nodes', [], (s :: ls ++ [t]) :: ms⟩ where
  lines _ hx := absurd hx List.not_mem_nil
  macros m hm := by
    rcases List.mem_cons.1 hm with rfl | hm
    · refine ⟨s, ls ++ [t], rfl, hs, fun x hx => ?_⟩
      rcases List.mem_append.1 hx with hx | hx
      · exact h.lines x hx
      · exact List.mem_singleton.1 hx ▸ ht
    · exact h.macros m hm

end MacrosOpen

theorem Laid.macrosOpen {unit : String} (hunit : ∀ c ∈ unit.toList, c = ' ' ∨ c = '\t') {g : Graph}
    {d : Nat} {start : Option String} {l : Layout}
    (h : Laid g (endLine unit.toList) (OwnLine g unit.toList) d start l) : MacrosOpen l := by
  induction h with
  | done => exact .empty
  | call _ hb hrole hline _ ih =>
      have hbegins := hline.beginsOtherwise hunit (Registry.mem_catalogue hb) (by rw [hrole]; rfl)
        (by rw [hrole]; simp [Role.closing])
      refine .append ⟨fun s hs => ?_, fun _ hm => absurd hm List.not_mem_nil⟩ ih
      exact List.mem_singleton.1 hs ▸ hbegins
  | wrapped _ hb hrole hline _ _ ihbody ih =>
      have hbegins := hline.beginsOtherwise hunit (Registry.mem_catalogue hb) (by rw [hrole]; rfl)
        (by rw [hrole]; simp [Role.closing])
      exact .append (.wrapped hbegins (beginsOtherwise_endLine hunit _) ihbody) ih
  | inlined _ _ _ _ _ ihbody ih => exact .append ⟨ihbody.lines, ihbody.macros⟩ ih
  | motif _ _ hrole hline _ _ ihbody ih =>
      exact .append (.hoisted (hline.opensMacro hrole) (beginsOtherwise_endLine hunit _) ihbody) ih
  | silent _ _ _ _ ih => exact .append ⟨MacrosOpen.empty.lines, MacrosOpen.empty.macros⟩ ih

theorem LaidAll.macrosOpen {unit : String} (hunit : ∀ c ∈ unit.toList, c = ' ' ∨ c = '\t') {g : Graph}
    {ids : List String} {l : Layout}
    (h : LaidAll g (endLine unit.toList) (OwnLine g unit.toList) ids l) : MacrosOpen l := by
  induction h with
  | nil => exact .empty
  | cons hl _ ih => exact (hl.macrosOpen hunit).append ih

/-! ## The parts of a text -/

@[simp] theorem unlines_eq_nil {ls : List String} : unlines ls = [] ↔ ls = [] := by
  cases ls with
  | nil => simp
  | cons l ls => simp

@[simp] theorem ofList_unlines_eq_empty {ls : List String} : String.ofList (unlines ls) = "" ↔ ls = [] := by
  rw [← unlines_eq_nil, ← String.toList_inj, String.toList_ofList, String.toList_empty]

theorem join_unlines (ms : List (List String)) :
    String.join (ms.map fun m => String.ofList (unlines m)) = String.ofList (unlines ms.flatten) := by
  induction ms with
  | nil => rfl
  | cons m ms ih =>
      simp [String.join_cons, ih]

/-- The lines of the macros and those of the body, with an empty line between them if there are both. -/
def Layout.assembled (l : Layout) : List String :=
  l.macros.flatten ++ (if l.macros = [] ∨ l.lines = [] then [] else [""]) ++ l.lines

theorem Layout.newline_not_mem_assembled {l : Layout} (hlines : ∀ s ∈ l.lines, '\n' ∉ s.toList)
    (hmacros : ∀ s ∈ l.macros.flatten, '\n' ∉ s.toList) : ∀ s ∈ l.assembled, '\n' ∉ s.toList := by
  intro s hs
  rw [assembled, List.mem_append, List.mem_append] at hs
  rcases hs with (hs | hs) | hs
  · exact hmacros s hs
  · split at hs
    · exact absurd hs List.not_mem_nil
    · rw [List.mem_singleton.1 hs]
      decide
  · exact hlines s hs

theorem OpensOnce.ne_nil {m : List String} (h : OpensOnce m) : m ≠ [] := by
  obtain ⟨l, ls, rfl, -, -⟩ := h
  exact List.cons_ne_nil l ls

theorem OpensOnce.empty_not_mem {m : List String} (h : OpensOnce m) : "" ∉ m := by
  obtain ⟨l, ls, rfl, hopens, hls⟩ := h
  intro hmem
  rcases List.mem_cons.1 hmem with hl | hmem
  · exact Program.ne_empty_of_opensMacro hopens hl.symm
  · exact (hls "" hmem).ne_empty rfl

namespace MacrosOpen

variable {l : Layout} (h : MacrosOpen l)
include h

theorem empty_not_mem_lines : "" ∉ l.lines := fun hmem => (h.lines "" hmem).ne_empty rfl

theorem empty_not_mem_macros : "" ∉ l.macros.flatten := by
  intro hmem
  obtain ⟨m, hm, hmem⟩ := List.mem_flatten.1 hmem
  exact (h.macros m hm).empty_not_mem hmem

theorem flatten_eq_nil_iff : l.macros.flatten = [] ↔ l.macros = [] := by
  refine ⟨fun hnil => List.eq_nil_iff_forall_not_mem.2 fun m hm => ?_, fun hnil => by rw [hnil]; rfl⟩
  exact (h.macros m hm).ne_nil (List.flatten_eq_nil_iff.1 hnil m hm)

/-- The macros are found by the lines that open them. -/
theorem splitBy_flatten : l.macros.flatten.splitBy (fun _ s => !Program.opensMacro s) = l.macros := by
  apply List.splitBy_flatten
  · exact fun hnil => (h.macros [] hnil).ne_nil rfl
  · intro m hm
    obtain ⟨s, ls, rfl, -, hls⟩ := h.macros m hm
    have hgoes : ∀ t ∈ ls, (!Program.opensMacro t) = true := fun t ht => by
      rw [(hls t ht).not_opensMacro, Bool.not_false]
    refine (List.pairwise_cons.2 ⟨hgoes, ?_⟩).isChain
    exact List.pairwise_of_forall_mem_list fun _ _ t ht => hgoes t ht
  · refine (List.pairwise_of_forall_mem_list fun m hm m' hm' => ?_).isChain
    obtain ⟨s, ls, rfl, hopens, -⟩ := h.macros m' hm'
    exact ⟨(h.macros m hm).ne_nil, List.cons_ne_nil s ls, by rw [List.head_cons, hopens, Bool.not_true]⟩

/-- An empty line is the separator; without one, the first line tells macros from a body. -/
theorem cutLines_assembled : Program.cutLines l.assembled = (l.macros.flatten, l.lines) := by
  by_cases hmacros : l.macros = []
  · have hfirst : l.lines.head?.any Program.opensMacro = false := by
      cases hl : l.lines with
      | nil => rfl
      | cons s ls => exact (h.lines s (by simp [hl])).not_opensMacro
    simp [Program.cutLines, Layout.assembled, hmacros, h.empty_not_mem_lines, hfirst]
  by_cases hlines : l.lines = []
  · have hfirst : l.macros.flatten.head?.any Program.opensMacro = true := by
      obtain ⟨m, ms, hms⟩ := List.exists_cons_of_ne_nil hmacros
      obtain ⟨s, ls, rfl, hopens, -⟩ := h.macros m (by simp [hms])
      rw [hms]
      exact hopens
    simp [Program.cutLines, Layout.assembled, hlines, h.empty_not_mem_macros, hfirst]
  · have hpass : ∀ s ∈ l.macros.flatten, (s != "") = true := fun s hs =>
      bne_iff_ne.2 fun he => h.empty_not_mem_macros (he ▸ hs)
    rw [Layout.assembled, if_neg (not_or.2 ⟨hmacros, hlines⟩), List.append_assoc, Program.cutLines,
      if_pos (by simp), List.takeWhile_append_of_pos hpass, List.dropWhile_append_of_pos hpass]
    simp

theorem assemble_eq : Program.assemble (l.macros.map fun m => String.ofList (unlines m))
      (String.ofList (unlines l.lines)) = String.ofList (unlines l.assembled) := by
  rw [Program.assemble, join_unlines, Layout.assembled]
  by_cases hmacros : l.macros = []
  · simp [hmacros, unlines]
  have hsome : String.ofList (unlines l.macros.flatten) ≠ "" := by
    rwa [Ne, ofList_unlines_eq_empty, h.flatten_eq_nil_iff]
  rw [if_neg hsome]
  by_cases hlines : l.lines = []
  · simp [hlines, unlines]
  have hbody : String.ofList (unlines l.lines) ≠ "" := by rwa [Ne, ofList_unlines_eq_empty]
  rw [if_neg hbody, if_neg (not_or.2 ⟨hmacros, hlines⟩), unlines_append, unlines_append,
    String.ofList_append, String.ofList_append]
  rfl

end MacrosOpen

namespace Program

theorem textLines_unlines {ls : List String} (h : ∀ l ∈ ls, '\n' ∉ l.toList) :
    textLines (String.ofList (unlines ls)) = ls := by
  rw [textLines, split_unlines h, List.dropLast_concat]

theorem ends_newline_or_empty (ls : List String) :
    String.ofList (unlines ls) = "" ∨ ∃ s, String.ofList (unlines ls) = s ++ "\n" := by
  rcases List.eq_nil_or_concat ls with rfl | ⟨ls, l, rfl⟩
  · exact .inl rfl
  · refine .inr ⟨String.ofList (unlines ls) ++ l, String.toList_inj.1 ?_⟩
    simp

end Program

namespace Compiler

/-- With a unit of blanks and tabs the text of a program tells its macros and its body: only the line
between the two is empty, and the parts of the text are the parts of the program. -/
theorem program_splits_back (unit : String) (g : Graph) (root : Option String) (p : Program)
    (hunit : ∀ c ∈ unit.toList, c = ' ' ∨ c = '\t') (hids : (g.nodes.map Node.id).Nodup)
    (hok : ((builtin unit).compile g root).outcome = .ok p) :
    (p.text = "" ∨ ∃ s, p.text = s ++ "\n") ∧
      Program.textLines p.text = Program.textLines (String.join p.macros) ++
        (if p.macros = [] ∨ p.body = "" then [] else [""]) ++ Program.textLines p.body ∧
      "" ∉ Program.textLines (String.join p.macros) ∧ "" ∉ Program.textLines p.body ∧
      Program.parts p.text = (p.macros, p.body) := by
  obtain ⟨body, ctx, hrun, rfl⟩ := outcome_eq_ok.1 hok
  obtain ⟨l, hlaid, hgained, htext⟩ := laidOut_of_ok hids hrun
  have hopen := hlaid.macrosOpen hunit
  have hplain := isBoundary_of_unit hunit
  obtain ⟨hlines, hmacros⟩ := hlaid.forall_lines (P := fun s => '\n' ∉ s.toList)
    (fun _ _ _ _ hb _ hl => hl.newline_not_mem hplain (Registry.mem_catalogue hb)) fun d => by
      rw [endLine_eq hplain]
      simpa [repeatedEnd] using newline_not_mem_repeated hplain d
  have hbody : body = String.ofList (unlines l.lines) := by rw [← htext, String.ofList_toList]
  have hhoisted := hoisted_of_gained hgained hlaid.ne_nil_of_mem_macros
  have hmacroLines : ∀ s ∈ l.macros.flatten, '\n' ∉ s.toList := by
    intro s hs
    obtain ⟨m, hm, hs⟩ := List.mem_flatten.1 hs
    exact hmacros m hm s hs
  have hall := Layout.newline_not_mem_assembled hlines hmacroLines
  rw [Program.text, hhoisted, hbody, hopen.assemble_eq, join_unlines, Program.textLines_unlines hall,
    Program.textLines_unlines hmacroLines, Program.textLines_unlines hlines, Program.parts,
    Program.textLines_unlines hall, hopen.cutLines_assembled]
  refine ⟨Program.ends_newline_or_empty _, ?_, hopen.empty_not_mem_macros, hopen.empty_not_mem_lines, ?_⟩
  · simp [Layout.assembled]
  · rw [hopen.splitBy_flatten]

/-- A motif inside a motif, behind an effect that quotes a line which would open a third one. -/
def quotedMotif : Graph := ⟨[
  { id := "fx", kind := "with_fx", bodies := [("COMMANDS", "hit")], next := some "outer" },
  { id := "hit", kind := "trigger_sample", fields := [("NAME", .text "a\n\ndefmotif b")] },
  { id := "outer", kind := "defmotif", inputs := [("NAME", .literal (.scalar (.text "outer")))],
    bodies := [("DO", "inner")] },
  { id := "inner", kind := "defmotif", inputs := [("NAME", .literal (.scalar (.text "inner")))],
    bodies := [("DO", "stop")] },
  { id := "stop", kind := "stop_sound" }]⟩

/-- The program of the quoted motif, with a tab for the unit. -/
def quotedProgram : Program where
  macros := ["defmotif \"outer\" do\nend\n", "defmotif \"inner\" do\n\tstop_sound()\nend\n"]
  body := "with_fx(:echo) do\n\ttrigger_sample(\"a\\n\\ndefmotif b\")\nend\n"
  diagnostics := [.nestedMotif "inner" "motif"]

theorem quotedMotif_splits_back :
    (∀ c ∈ "\t".toList, c = ' ' ∨ c = '\t') ∧ (quotedMotif.nodes.map Node.id).Nodup ∧
      ((builtin "\t").compile quotedMotif (some "fx")).outcome = .ok quotedProgram ∧
      Program.textLines quotedProgram.text = ["defmotif \"outer\" do", "end", "defmotif \"inner\" do",
        "\tstop_sound()", "end", "", "with_fx(:echo) do", "\ttrigger_sample(\"a\\n\\ndefmotif b\")",
        "end"] ∧
      Program.parts quotedProgram.text = (quotedProgram.macros, quotedProgram.body) := by
  have hunit : ∀ c ∈ "\t".toList, c = ' ' ∨ c = '\t' := fun c hc => .inr (List.mem_singleton.1 hc)
  have hids : (quotedMotif.nodes.map Node.id).Nodup := by decide
  have hok : ((builtin "\t").compile quotedMotif (some "fx")).outcome = .ok quotedProgram := by
    decide +kernel
  have hlines : Program.textLines quotedProgram.text = ["defmotif \"outer\" do", "end",
      "defmotif \"inner\" do", "\tstop_sound()", "end", "", "with_fx(:echo) do",
      "\ttrigger_sample(\"a\\n\\ndefmotif b\")", "end"] := by decide +kernel
  obtain ⟨-, -, -, -, hparts⟩ :=
    program_splits_back "\t" quotedMotif (some "fx") quotedProgram hunit hids hok
  exact ⟨hunit, hids, hok, hlines, hparts⟩

end Compiler

end BlockMusic
