import BlockMusic.Proofs.Layout
import BlockMusic.Text.Split

/-!
# The lines of a body

With a unit of indentation that holds no line boundary, the lines of a program are those of the walk over
its nodes: each line starts with the unit repeated to the depth of its node, and goes on with the header
of the node or with the end of a block. No line is lost, merged or indented wrongly, although the text of
a body is cut into lines and indented again at every level.
-/

namespace BlockMusic

open Script Text

/-! ## Splitting at newlines -/

theorem splitChars_append_newline {cs : List Char} (h : '\n' ∉ cs) (rest : List Char) :
    splitChars '\n' (cs ++ '\n' :: rest) = cs :: splitChars '\n' rest := by
  induction cs with
  | nil => simp [splitChars]
  | cons c cs ih =>
      have hc : c ≠ '\n' := fun e => h (by simp [e])
      have hcs : '\n' ∉ cs := fun hmem => h (by simp [hmem])
      simp [splitChars, hc, ih hcs]

/-- Lines without a newline, each ended by one, split back into the lines and an empty rest. -/
theorem split_unlines {ls : List String} (h : ∀ l ∈ ls, '\n' ∉ l.toList) :
    Text.split '\n' (String.ofList (unlines ls)) = ls ++ [""] := by
  have hchars : splitChars '\n' (unlines ls) = ls.map String.toList ++ [[]] := by
    induction ls with
    | nil => rfl
    | cons l ls ih =>
        rw [unlines_cons, splitChars_append_newline (h l (by simp)), ih fun m hm => h m (by simp [hm])]
        rfl
  simp [Text.split, hchars, Function.comp_def]

/-! ## No newline inside a line -/

/-- Hanging indentation brings in no other characters than those of the unit. -/
theorem mem_hang {u cs : List Char} {c : Char} (h : c ∈ hang u cs) : c ∈ u ∨ c ∈ cs := by
  have hindent : ∀ ls : List (List Char), c ∈ ls.flatMap (indentLine u) → c ∈ u ∨ c ∈ ls.flatten := by
    intro ls hc
    obtain ⟨l, hl, hc⟩ := List.mem_flatMap.1 hc
    unfold indentLine at hc
    split at hc
    · exact .inr (List.mem_flatten.2 ⟨l, hl, hc⟩)
    · exact (List.mem_append.1 hc).imp_right fun hc => List.mem_flatten.2 ⟨l, hl, hc⟩
  have hlines := flatten_lines cs
  unfold hang at h
  cases hl : lines cs with
  | nil => simp [hl, hangLines] at h
  | cons l ls =>
      rw [hl, hangLines] at h
      rw [hl, List.flatten_cons] at hlines
      rw [← hlines, List.mem_append]
      rcases List.mem_append.1 h with h | h
      · exact .inr (.inl h)
      · exact (hindent ls h).imp_right .inr

theorem mem_worn {unit : List Char} {d : Nat} {s : String} {c : Char} (h : c ∈ worn unit d s) :
    c ∈ unit ∨ c ∈ quote s.toList := by
  unfold worn at h
  induction d with
  | zero => exact .inr h
  | succ d ih =>
      rw [Function.iterate_succ_apply'] at h
      rcases mem_hang h with h | h
      · exact .inl h
      · exact ih h

theorem newline_not_mem_quote (cs : List Char) : '\n' ∉ quote cs := by
  have hescape : ∀ c, '\n' ∉ escapeChar c := by
    intro c
    unfold escapeChar
    split <;> first | decide | skip
    rename_i hn _ _
    simpa [eq_comm] using hn
  simp only [quote, List.mem_append, List.mem_cons, List.mem_flatMap]
  rintro ((h | ⟨c, -, h⟩) | h | h)
  · exact absurd h (by decide)
  · exact hescape c h
  · exact absurd h (by decide)
  · cases h

theorem newline_not_mem_plain {cs : List Char} (h : ∀ c ∈ cs, isBoundary c = false) : '\n' ∉ cs :=
  fun hmem => absurd (h '\n' hmem) (by decide)

theorem newline_not_mem_of_isPlain {cs : List Char} (h : cs.all isPlain = true) : '\n' ∉ cs :=
  newline_not_mem_plain fun c hc => isBoundary_of_isPlain (List.all_eq_true.1 h c hc)

theorem newline_not_mem_write {unit : List Char} (hunit : ∀ c ∈ unit, isBoundary c = false) (d : Nat)
    (ps : List Part) : '\n' ∉ write (worn unit d) ps := by
  intro h
  obtain ⟨p, -, hp⟩ := List.mem_flatMap.1 h
  cases p with
  | plain cs hcs => exact newline_not_mem_of_isPlain hcs hp
  | quoted s =>
      rcases mem_worn hp with hp | hp
      · exact newline_not_mem_plain hunit hp
      · exact newline_not_mem_quote s.toList hp

/-! ## Lines at their depth -/

/-- The unit, as often as the depth says. -/
def repeated (unit : String) (d : Nat) : String := String.join (List.replicate d unit)

/-- The line is the unit repeated to the depth and a header of the block: for a call its name and an
opening bracket first and a closing one last, with ` do` behind it if the call has a body. -/
def HeaderLine (unit : String) (d : Nat) (b : Block) (l : String) : Prop :=
  ∃ inner, l = repeated unit d ++ (Role.ofBlock b).header inner

/-- The end of a block at a depth. -/
def repeatedEnd (unit : String) (d : Nat) : String := repeated unit d ++ "end"

variable {unit : String} {g : Graph}

@[simp] theorem toList_repeated (unit : String) (d : Nat) :
    (repeated unit d).toList = (List.replicate d unit.toList).flatten := by
  induction d with
  | zero => rfl
  | succ d ih =>
      rw [repeated, List.replicate_succ, String.join_cons, String.toList_append]
      rw [repeated] at ih
      rw [ih, List.replicate_succ, List.flatten_cons]

theorem margin_eq_repeated (hunit : ∀ c ∈ unit.toList, isBoundary c = false) (d : Nat) :
    margin unit.toList d = (repeated unit d).toList := by
  simp [margin_eq_replicate hunit]

theorem newline_not_mem_repeated (hunit : ∀ c ∈ unit.toList, isBoundary c = false) (d : Nat) :
    '\n' ∉ (repeated unit d).toList := by
  rw [toList_repeated, List.mem_flatten]
  rintro ⟨cs, hcs, h⟩
  exact newline_not_mem_plain hunit (List.eq_of_mem_replicate hcs ▸ h)

theorem endLine_eq (hunit : ∀ c ∈ unit.toList, isBoundary c = false) :
    endLine unit.toList = repeatedEnd unit := by
  funext d
  apply String.toList_inj.1
  simp [endLine, repeatedEnd, margin_eq_repeated hunit]

theorem OwnLine.headerLine (hunit : ∀ c ∈ unit.toList, isBoundary c = false) {d : Nat} {n : Node}
    {b : Block} {l : String} (h : OwnLine g unit.toList d n b l) : HeaderLine unit d b l := by
  obtain ⟨ps, -, hl⟩ := h
  refine ⟨String.ofList (write (worn unit.toList d) ps), String.toList_inj.1 ?_⟩
  rw [hl, margin_eq_repeated hunit]
  simp [Role.header]

theorem OwnLine.newline_not_mem (hunit : ∀ c ∈ unit.toList, isBoundary c = false) {d : Nat} {n : Node}
    {b : Block} {l : String} (hb : b ∈ Catalogue.blocks) (h : OwnLine g unit.toList d n b l) :
    '\n' ∉ l.toList := by
  obtain ⟨ps, -, hl⟩ := h
  rw [hl, margin_eq_repeated hunit]
  simp only [List.mem_append, not_or]
  exact ⟨newline_not_mem_repeated hunit d,
    ⟨newline_not_mem_of_isPlain (Catalogue.plain_opening b hb), newline_not_mem_write hunit d ps⟩,
    newline_not_mem_of_isPlain (Role.ofBlock b).plain_closing⟩

namespace Compiler

/-- With a unit that holds no line boundary, the lines of the body and of the macros are those of the
walk over the visited nodes, each at the depth of its node. -/
theorem lines_follow_walk (unit : String) (g : Graph) (root : Option String) (p : Program)
    (hunit : ∀ c ∈ unit.toList, isBoundary c = false) (hids : (g.nodes.map Node.id).Nodup)
    (hok : ((builtin unit).compile g root).outcome = .ok p) :
    ∃ ctx l, (builtin unit).compileBodyText g root {} = .ok p.body ctx ∧
      ctx.visited = l.nodes.map Node.id ∧
      LaidAll g (repeatedEnd unit) (fun d _ => HeaderLine unit d) ((builtin unit).starts g root) l ∧
      Text.split '\n' p.body = l.lines ++ [""] ∧
      p.macros.map (Text.split '\n') = l.macros.map (· ++ [""]) := by
  obtain ⟨body, ctx, hrun, rfl⟩ := outcome_eq_ok.1 hok
  obtain ⟨l, hlaid, hgained, htext⟩ := laidOut_of_ok hids hrun
  obtain ⟨hlines, hmacros⟩ := hlaid.forall_lines (P := fun s => '\n' ∉ s.toList)
    (fun _ _ _ _ hb _ hl => hl.newline_not_mem hunit (Registry.mem_catalogue hb)) fun d => by
      rw [endLine_eq hunit]
      simpa [repeatedEnd] using newline_not_mem_repeated hunit d
  have hbody : body = String.ofList (unlines l.lines) := by rw [← htext, String.ofList_toList]
  have hframed := hlaid.mono fun _ _ _ _ _ hl => hl.headerLine hunit
  rw [endLine_eq hunit] at hframed
  refine ⟨ctx, l, hrun, by simpa using hgained.visited, hframed, ?_, ?_⟩
  · rw [hbody]
    exact split_unlines hlines
  · rw [hoisted_of_gained hgained hlaid.ne_nil_of_mem_macros, List.map_map]
    exact List.map_congr_left fun m hm => split_unlines (hmacros m hm)

/-- An effect around a progression, with a value between its statements, and a motif behind it. -/
def nestedBlocks : Graph := ⟨[
  { id := "fx", kind := "with_fx", bodies := [("COMMANDS", "prog")], next := some "riff" },
  { id := "prog", kind := "play_chord_progression", bodies := [("DO", "hit")] },
  { id := "hit", kind := "trigger_sample", fields := [("NAME", .text "x")], next := some "word" },
  { id := "word", kind := "text", next := some "key" },
  { id := "key", kind := "play_in_key", bodies := [("DO", "stop")] },
  { id := "stop", kind := "stop_sound" },
  { id := "riff", kind := "defmotif", inputs := [("NAME", .literal (.scalar (.text "r")))],
    bodies := [("DO", "quiet")] },
  { id := "quiet", kind := "stop_sound" }]⟩

/-- The program of the nested blocks. -/
def nestedProgram : Program where
  macros := ["defmotif \"r\" do\n  stop_sound()\nend\n"]
  body := "with_fx(:echo) do\n  trigger_sample(\"x\")\n  play_in_key(\"A\", \"Major\") do\n" ++
    "    stop_sound()\n  end\nend\n"
  diagnostics := [.valueInChain ⟨"word", "text"⟩]

theorem nestedBlocks_lines : (nestedBlocks.nodes.map Node.id).Nodup ∧
    (∀ c ∈ "  ".toList, isBoundary c = false) ∧
    ((builtin "  ").compile nestedBlocks (some "fx")).outcome = .ok nestedProgram ∧
    ∃ l, LaidAll nestedBlocks (repeatedEnd "  ") (fun d _ => HeaderLine "  " d) ["fx"] l ∧
      l.nodes.map Node.id = ["fx", "prog", "hit", "word", "key", "stop", "riff", "quiet"] ∧
      l.lines = ["with_fx(:echo) do", "  trigger_sample(\"x\")", "  play_in_key(\"A\", \"Major\") do",
        "    stop_sound()", "  end", "end"] ∧
      l.macros = [["defmotif \"r\" do", "  stop_sound()", "end"]] := by
  have hids : (nestedBlocks.nodes.map Node.id).Nodup := by decide
  have hunit : ∀ c ∈ "  ".toList, isBoundary c = false := plain_of_all (by decide)
  have hok : ((builtin "  ").compile nestedBlocks (some "fx")).outcome = .ok nestedProgram := by
    decide +kernel
  have hvisits : (builtin "  ").visitedFrom nestedBlocks "fx" =
      ["fx", "prog", "hit", "word", "key", "stop", "riff", "quiet"] := by decide +kernel
  have hlines : Text.split '\n' nestedProgram.body =
      ["with_fx(:echo) do", "  trigger_sample(\"x\")", "  play_in_key(\"A\", \"Major\") do",
        "    stop_sound()", "  end", "end"] ++ [""] := by decide +kernel
  have hmacroLines : nestedProgram.macros.map (Text.split '\n') =
      [["defmotif \"r\" do", "  stop_sound()", "end"]].map (· ++ [""]) := by decide +kernel
  obtain ⟨ctx, l, hrun, hvisited, hlaid, hbody, hmacros⟩ :=
    lines_follow_walk "  " nestedBlocks (some "fx") nestedProgram hunit hids hok
  rw [visitedFrom, hrun] at hvisits
  rw [hlines] at hbody
  rw [hmacroLines] at hmacros
  have hinjective : Function.Injective fun ls : List String => ls ++ [""] := fun _ _ h =>
    List.append_cancel_right h
  exact ⟨hids, hunit, hok, l, hlaid, hvisited.symm.trans hvisits, (List.append_cancel_right hbody).symm,
    (hinjective.list_map hmacros).symm⟩

end Compiler

end BlockMusic
