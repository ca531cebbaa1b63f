import BlockMusic.Proofs.Hoisting
import BlockMusic.Proofs.NodeTexts

/-!
# The layout of a program

A layout is what a walk leaves behind: the nodes in the order of their visits, the lines in the place of
the walk, and the lines of the macros. `Laid` says which layout a chain has at a depth, by the roles of
its nodes. Depth is nothing that a compiler knows of: the text of a body is indented as a whole, once for
every block around it. Main statement: the text of a chain, indented `d` times, consists of the lines of
its layout at depth `d`.
-/

namespace BlockMusic

open Script Text

/-- The nodes visited, the lines in their place, and the lines of each macro. -/
structure Layout where
  nodes : List Node
  lines : List String
  macros : List (List String)

namespace Layout

def append (l m : Layout) : Layout := ⟨l.nodes ++ m.nodes, l.lines ++ m.lines, l.macros ++ m.macros⟩

instance : Append Layout := ⟨append⟩

def empty : Layout := ⟨[], [], []⟩

@[simp, grind =] theorem nodes_append (l m : Layout) : (l ++ m).nodes = l.nodes ++ m.nodes := rfl

@[simp, grind =] theorem lines_append (l m : Layout) : (l ++ m).lines = l.lines ++ m.lines := rfl

@[simp, grind =] theorem macros_append (l m : Layout) : (l ++ m).macros = l.macros ++ m.macros := rfl

@[simp] theorem nodes_empty : empty.nodes = [] := rfl

@[simp] theorem lines_empty : empty.lines = [] := rfl

@[simp] theorem macros_empty : empty.macros = [] := rfl

@[simp] theorem append_empty (l : Layout) : l ++ empty = l := by
  change (⟨_, _, _⟩ : Layout) = l
  simp

end Layout

/-- Lines, each ended by a newline. -/
def unlines (ls : List String) : List Char := ls.flatMap fun l => l.toList ++ ['\n']

@[simp] theorem unlines_nil : unlines [] = [] := rfl

@[simp] theorem unlines_append (ls ms : List String) : unlines (ls ++ ms) = unlines ls ++ unlines ms :=
  List.flatMap_append

@[simp] theorem unlines_cons (l : String) (ls : List String) :
    unlines (l :: ls) = l.toList ++ '\n' :: unlines ls := by
  simp [unlines]

theorem getLast?_unlines (ls : List String) : ∀ c ∈ (unlines ls).getLast?, c = '\n' := by
  rcases List.eq_nil_or_concat ls with rfl | ⟨ls, l, rfl⟩
  · simp
  · simp [unlines, ← List.append_assoc]

/-- The line that ends a block at a depth. -/
def endLine (unit : List Char) (d : Nat) : String := String.ofList (margin unit d ++ ['e', 'n', 'd'])

/-- The layout of a chain at a depth. The lines with the headers of nodes satisfy `line`, and a block
ends with the line `ending`. -/
inductive Laid (g : Graph) (ending : Nat → String) (line : Nat → Node → Block → String → Prop) :
    Nat → Option String → Layout → Prop
  | done {d : Nat} : Laid g ending line d none .empty
  | call {d : Nat} {id name l : String} {n : Node} {b : Block} {rest : Layout}
      (hn : g.node? id = some n) (hb : (Registry.builtin []).get? n.kind = some b)
      (hrole : Role.ofBlock b = .call name) (hline : line d n b l)
      (hrest : Laid g ending line d n.next rest) :
      Laid g ending line d (some id) (⟨[n], [l], []⟩ ++ rest)
  | wrapped {d : Nat} {id name slot l : String} {n : Node} {b : Block} {body rest : Layout}
      (hn : g.node? id = some n) (hb : (Registry.builtin []).get? n.kind = some b)
      (hrole : Role.ofBlock b = .wrapped name slot) (hline : line d n b l)
      (hbody : Laid g ending line (d + 1) (n.body? slot) body)
      (hrest : Laid g ending line d n.next rest) :
      Laid g ending line d (some id)
        (⟨n :: body.nodes, l :: body.lines ++ [ending d], body.macros⟩ ++ rest)
  | inlined {d : Nat} {id slot : String} {n : Node} {b : Block} {body rest : Layout}
      (hn : g.node? id = some n) (hb : (Registry.builtin []).get? n.kind = some b)
      (hrole : Role.ofBlock b = .inlined slot) (hbody : Laid g ending line d (n.body? slot) body)
      (hrest : Laid g ending line d n.next rest) :
      Laid g ending line d (some id) (⟨n :: body.nodes, body.lines, body.macros⟩ ++ rest)
  | motif {d : Nat} {id slot l : String} {n : Node} {b : Block} {body rest : Layout}
      (hn : g.node? id = some n) (hb : (Registry.builtin []).get? n.kind = some b)
      (hrole : Role.ofBlock b = .motif slot) (hline : line 0 n b l)
      (hbody : Laid g ending line 1 (n.body? slot) body) (hrest : Laid g ending line d n.next rest) :
      Laid g ending line d (some id)
        (⟨n :: body.nodes, [], (l :: body.lines ++ [ending 0]) :: body.macros⟩ ++ rest)
  | silent {d : Nat} {id : String} {n : Node} {b : Block} {rest : Layout}
      (hn : g.node? id = some n) (hb : (Registry.builtin []).get? n.kind = some b)
      (hrole : Role.ofBlock b = .silent) (hrest : Laid g ending line d n.next rest) :
      Laid g ending line d (some id) (⟨[n], [], []⟩ ++ rest)

namespace Laid

variable {g : Graph} {ending : Nat → String} {line line' : Nat → Node → Block → String → Prop} {d : Nat}
  {start : Option String} {l : Layout}

theorem eq_empty (h : Laid g ending line d none l) : l = .empty := by
  cases h
  rfl

/-- Only the condition on the lines with headers is weakened. -/
theorem mono (hline : ∀ d n b l, (Registry.builtin []).get? n.kind = some b → line d n b l →
      line' d n b l) (h : Laid g ending line d start l) : Laid g ending line' d start l := by
  induction h with
  | done => exact .done
  | call hn hb hrole hl _ ih => exact .call hn hb hrole (hline _ _ _ _ hb hl) ih
  | wrapped hn hb hrole hl _ _ ihbody ih =>
      exact .wrapped hn hb hrole (hline _ _ _ _ hb hl) ihbody ih
  | inlined hn hb hrole _ _ ihbody ih => exact .inlined hn hb hrole ihbody ih
  | motif hn hb hrole hl _ _ ihbody ih =>
      exact .motif hn hb hrole (hline _ _ _ _ hb hl) ihbody ih
  | silent hn hb hrole _ ih => exact .silent hn hb hrole ih

/-- What holds of every header and of every end holds of every line, in the macros too. -/
theorem forall_lines {P : String → Prop} (h : Laid g ending line d start l)
    (hline : ∀ d n b l, (Registry.builtin []).get? n.kind = some b → (Role.ofBlock b).closing ≠ "" →
      line d n b l → P l) (hend : ∀ d, P (ending d)) :
    (∀ s ∈ l.lines, P s) ∧ ∀ m ∈ l.macros, ∀ s ∈ m, P s := by
  induction h with
  | done => simp
  | call _ hb hrole hl _ ih =>
      have hown := hline _ _ _ _ hb (by rw [hrole]; simp [Role.closing]) hl
      grind
  | wrapped _ hb hrole hl _ _ ihbody ih =>
      have hown := hline _ _ _ _ hb (by rw [hrole]; simp [Role.closing]) hl
      grind
  | inlined _ _ _ _ _ ihbody ih =>
      grind
  | motif _ hb hrole hl _ _ ihbody ih =>
      have hown := hline _ _ _ _ hb (by rw [hrole]; simp [Role.closing]) hl
      grind
  | silent _ _ _ _ ih =>
      grind

/-- A macro has a header at least. -/
theorem ne_nil_of_mem_macros (h : Laid g ending line d start l) : ∀ m ∈ l.macros, m ≠ [] := by
  induction h with
  | done => simp
  | call _ _ _ _ _ ih => simpa using ih
  | wrapped _ _ _ _ _ _ ihbody ih =>
      grind
  | inlined _ _ _ _ _ ihbody ih =>
      grind
  | motif _ _ _ _ _ _ ihbody ih =>
      grind
  | silent _ _ _ _ ih => simpa using ih

end Laid

/-! ## The lines of a node -/

/-- The line with the header of a node: its margin, and the header with the quotations as they are worn
at the depth. -/
def OwnLine (g : Graph) (unit : List Char) (d : Nat) (n : Node) (b : Block) (l : String) : Prop :=
  ∃ ps, NodeTexts g n b (quotations ps) ∧
    l.toList = margin unit d ++ ((Role.ofBlock b).opening.toList ++ write (worn unit d) ps ++
      (Role.ofBlock b).closing.toList)

namespace Catalogue

theorem plain_opening : ∀ b ∈ blocks, (Role.ofBlock b).opening.toList.all isPlain = true := by decide

theorem nonblank_opening : ∀ b ∈ blocks,
    (Role.ofBlock b).opening.toList.head?.all (fun c => !isBlank c) = true := by decide

end Catalogue

namespace Role

theorem closing_mem (r : Role) : r.closing ∈ [")", ") do", " do", ""] := by
  cases r <;> simp [closing]

theorem plain_closing (r : Role) : r.closing.toList.all isPlain = true := by
  have hall : ∀ s ∈ [")", ") do", " do", ""], s.toList.all isPlain = true := by decide
  exact hall _ r.closing_mem

theorem nonblank_closing (r : Role) : ∀ c ∈ r.closing.toList.getLast?, isBlank c = false := by
  have hall : ∀ s ∈ [")", ") do", " do", ""],
      s.toList.getLast?.all (fun c => !isBlank c) = true := by decide
  intro c hc
  have h := hall _ r.closing_mem
  rw [Option.mem_def.1 hc] at h
  simpa using h

end Role

variable {g : Graph} {unit : String} {d : Nat} {n : Node} {b : Block}

/-- Only the bodies of the role matter. -/
theorem Role.text_congr {r : Role} {inner : String} {f f' : String → String}
    (h : ∀ slot ∈ r.slots, f slot = f' slot) : r.text unit inner f = r.text unit inner f' := by
  cases r <;> simp_all [Role.text, Role.slots]

/-- A header that is indented as a line of its own. -/
theorem indentTimes_header (unit : String) (hb : b ∈ Catalogue.blocks)
    (hopen : (Role.ofBlock b).opening ≠ "")
    (hclose : (Role.ofBlock b).closing ≠ "") {qs : List String} {inner : String}
    (hqs : NodeTexts g n b qs) (hinner : Quotes qs inner) (d : Nat) :
    ∃ l, OwnLine g unit.toList d n b l ∧
      (indentChars unit.toList)^[d] (((Role.ofBlock b).header inner).toList ++ ['\n']) =
        l.toList ++ ['\n'] := by
  obtain ⟨ps, rfl, hps⟩ := hinner
  obtain ⟨c, cs, hcs⟩ := List.exists_cons_of_ne_nil (mt String.toList_eq_nil_iff.1 hopen)
  have hc : isBlank c = false := by
    simpa [hcs] using Catalogue.nonblank_opening b hb
  have hheader : ((Role.ofBlock b).header inner).toList =
      c :: (cs ++ inner.toList ++ (Role.ofBlock b).closing.toList) := by
    simp [Role.header, hcs]
  have hchars : ((Role.ofBlock b).header inner).toList = (Role.ofBlock b).opening.toList ++
      write (fun s => quote s.toList) ps ++ (Role.ofBlock b).closing.toList := by
    simp [Role.header, hps]
  have hlast : ∀ z ∈ (c :: (cs ++ inner.toList ++ (Role.ofBlock b).closing.toList)).getLast?,
      isBlank z = false := by
    intro z hz
    refine (Role.ofBlock b).nonblank_closing z ?_
    have hne : (Role.ofBlock b).closing.toList ≠ [] := mt String.toList_eq_nil_iff.1 hclose
    rwa [← List.cons_append, List.getLast?_append_of_ne_nil _ hne] at hz
  refine ⟨String.ofList (margin unit.toList d ++ ((Role.ofBlock b).opening.toList ++
    write (worn unit.toList d) ps ++ (Role.ofBlock b).closing.toList)), ⟨ps, hqs, ?_⟩, ?_⟩
  · rw [String.toList_ofList]
  · rw [hheader, indentTimes_line hc hlast, ← hheader, hchars,
      hangTimes_write_between (Catalogue.plain_opening b hb) (Role.ofBlock b).plain_closing]
    simp

theorem indentTimes_end (unit : List Char) (d : Nat) :
    (indentChars unit)^[d] (['e', 'n', 'd'] ++ ['\n']) = (endLine unit d).toList ++ ['\n'] := by
  have hworn : (hang unit)^[d] ['e', 'n', 'd'] = ['e', 'n', 'd'] :=
    Function.iterate_fixed (hang_plain (plain_of_all (by decide))) d
  have hlast : ∀ z ∈ ['e', 'n', 'd'].getLast?, isBlank z = false := by
    intro z hz
    obtain rfl : z = 'd' := by simpa [eq_comm] using hz
    decide
  rw [indentTimes_line (by decide) hlast, hworn, endLine, String.toList_ofList]
  simp

theorem OwnLine.getLast? {l : String} (h : OwnLine g unit.toList d n b l)
    (hclose : (Role.ofBlock b).closing ≠ "") : ∃ c, l.toList.getLast? = some c ∧ c ≠ '\n' := by
  obtain ⟨ps, -, hl⟩ := h
  have hne : (Role.ofBlock b).closing.toList ≠ [] := mt String.toList_eq_nil_iff.1 hclose
  have hlast : l.toList.getLast? = some ((Role.ofBlock b).closing.toList.getLast hne) := by
    rw [hl, ← List.append_assoc, List.getLast?_append_of_ne_nil _ hne, List.getLast?_eq_some_getLast]
  refine ⟨_, hlast, ?_⟩
  intro hnl
  have hblank := (Role.ofBlock b).nonblank_closing '\n'
    (by rw [List.getLast?_eq_some_getLast hne, hnl]; rfl)
  exact absurd hblank (by decide)

/-! ## Chains and nodes in chains -/

/-- At every depth the text of the chain consists of the lines of a layout, with the same nodes and
macros. -/
def ChainText (g : Graph) (unit : String) (start : Option String) (text : String) (nodes : List Node)
    (macros : List (List String)) : Prop :=
  ∀ d, ∃ ls, Laid g (endLine unit.toList) (OwnLine g unit.toList) d start ⟨nodes, ls, macros⟩ ∧
    (indentChars unit.toList)^[d] text.toList = unlines ls

/-- At every depth the text of the node consists of lines that stand in front of the chain behind it. -/
def EntryText (g : Graph) (unit : String) (n : Node) (text : String) (nodes : List Node)
    (macros : List (List String)) : Prop :=
  ∀ d, ∃ ls, (∀ rest, Laid g (endLine unit.toList) (OwnLine g unit.toList) d n.next rest →
      Laid g (endLine unit.toList) (OwnLine g unit.toList) d (some n.id)
        (⟨n :: nodes, ls, macros⟩ ++ rest)) ∧
    (indentChars unit.toList)^[d] (Compiler.terminated text).toList = unlines ls

namespace ChainText

variable {start : Option String} {text : String} {nodes : List Node} {macros : List (List String)}

theorem none : ChainText g unit .none "" [] [] := by
  intro d
  have hempty : (indentChars unit.toList)^[d] [] = [] :=
    Function.iterate_fixed (indentChars_empty unit.toList) d
  exact ⟨[], .done, hempty⟩

theorem toList_eq (h : ChainText g unit start text nodes macros) :
    ∃ ls, Laid g (endLine unit.toList) (OwnLine g unit.toList) 0 start ⟨nodes, ls, macros⟩ ∧
      text.toList = unlines ls :=
  h 0

theorem getLast? (h : ChainText g unit start text nodes macros) :
    ∀ c ∈ text.toList.getLast?, c = '\n' := by
  obtain ⟨ls, -, htext⟩ := h.toList_eq
  rw [htext]
  exact getLast?_unlines ls

/-- A chain ends with one newline and no more, so it is the same with that newline taken off and put
back. -/
theorem terminated_dropEnd (h : ChainText g unit start text nodes macros) :
    Compiler.terminated (String.ofList (dropEndWhile (· == '\n') text.toList)) = text := by
  obtain ⟨ls, hlaid, htext⟩ := h.toList_eq
  rcases List.eq_nil_or_concat ls with rfl | ⟨ls, l, rfl⟩
  · have hempty : text = "" := String.toList_eq_nil_iff.1 (by simpa using htext)
    rw [hempty]
    rfl
  · have hlast : ∃ c, l.toList.getLast? = some c ∧ c ≠ '\n' := by
      refine (hlaid.forall_lines (P := fun l => ∃ c, l.toList.getLast? = some c ∧ c ≠ '\n')
        (fun _ _ _ _ _ hclose hl => hl.getLast? hclose) fun d => ⟨'d', ?_, by decide⟩).1 l (by simp)
      simp [endLine]
    obtain ⟨c, hc, hne⟩ := hlast
    obtain ⟨front, hfront⟩ : ∃ front, l.toList = front ++ [c] := List.getLast?_eq_some_iff.1 hc
    have hchars : text.toList = unlines ls ++ front ++ [c] ++ ['\n'] := by
      simp [htext, hfront]
    have hdrop : dropEndWhile (· == '\n') text.toList = unlines ls ++ front ++ [c] := by
      simp [hchars, dropEndWhile, hne]
    rw [hdrop, Compiler.terminated, if_neg (by simp)]
    apply String.toList_inj.1
    simp [hchars]

end ChainText

/-! ## The text of a node by its role -/

section roles

variable {qs : List String} {inner body : String} {nodes : List Node} {macros : List (List String)}

theorem terminated_of_ne {s : String} (h : s ≠ "") :
    (Compiler.terminated s).toList = s.toList ++ ['\n'] := by
  rw [Compiler.terminated, if_neg h]
  simp

theorem entryText_call {name : String} (hn : g.node? n.id = some n)
    (hb : (Registry.builtin []).get? n.kind = some b) (hrole : Role.ofBlock b = .call name)
    (hqs : NodeTexts g n b qs) (hinner : Quotes qs inner) :
    EntryText g unit n ((Role.ofBlock b).text unit inner fun _ => body) [] [] := by
  intro d
  have hown : ((Role.ofBlock b).text unit inner fun _ => body) = (Role.ofBlock b).header inner := by
    rw [hrole]
    rfl
  obtain ⟨l, hl, htext⟩ := indentTimes_header unit (Registry.mem_catalogue hb)
    (by simp [hrole, Role.opening]) (by simp [hrole, Role.closing]) hqs hinner d
  refine ⟨[l], fun rest hrest => .call hn hb hrole hl hrest, ?_⟩
  rw [hown, terminated_of_ne (by simp [hrole, Role.header, Role.opening]), htext]
  simp

/-- A block at a depth: its header, its body one deeper, and its end. -/
theorem indentTimes_block {header : String} {start : Option String}
    (hbody : ChainText g unit start body nodes macros) {l : String} (d : Nat)
    (hl : (indentChars unit.toList)^[d] (header.toList ++ ['\n']) = l.toList ++ ['\n']) :
    ∃ ls, Laid g (endLine unit.toList) (OwnLine g unit.toList) (d + 1) start ⟨nodes, ls, macros⟩ ∧
      (indentChars unit.toList)^[d] ((Role.block unit header body).toList ++ ['\n']) =
        unlines (l :: ls ++ [endLine unit.toList d]) := by
  obtain ⟨ls, hlaid, hls⟩ := hbody (d + 1)
  have hindented : ∀ c ∈ (indentChars unit.toList body.toList).getLast?, c = '\n' := by
    rw [getLast?_indentChars]
    exact hbody.getLast?
  have hchars : (Role.block unit header body).toList ++ ['\n'] =
      (header.toList ++ ['\n']) ++
        (indentChars unit.toList body.toList ++ (['e', 'n', 'd'] ++ ['\n'])) := by
    simp [Role.block, Text.indent]
  refine ⟨ls, hlaid, ?_⟩
  rw [hchars, indentTimes_append (by simp), indentTimes_append hindented, hl, indentTimes_end,
    ← Function.iterate_succ_apply, hls]
  simp

theorem entryText_wrapped {name slot : String} (hn : g.node? n.id = some n)
    (hb : (Registry.builtin []).get? n.kind = some b) (hrole : Role.ofBlock b = .wrapped name slot)
    (hqs : NodeTexts g n b qs) (hinner : Quotes qs inner)
    (hbody : ChainText g unit (n.body? slot) body nodes macros) :
    EntryText g unit n ((Role.ofBlock b).text unit inner fun _ => body) nodes macros := by
  intro d
  have hown : ((Role.ofBlock b).text unit inner fun _ => body) =
      Role.block unit ((Role.ofBlock b).header inner) body := by
    rw [hrole]
    rfl
  obtain ⟨l, hl, hheader⟩ := indentTimes_header unit (Registry.mem_catalogue hb)
    (by simp [hrole, Role.opening]) (by simp [hrole, Role.closing]) hqs hinner d
  obtain ⟨ls, hlaid, htext⟩ := indentTimes_block hbody d hheader
  refine ⟨l :: ls ++ [endLine unit.toList d], fun rest hrest => .wrapped hn hb hrole hl hlaid hrest, ?_⟩
  rw [hown, terminated_of_ne (by simp [Role.block]), htext]

theorem entryText_inlined {slot : String} (hn : g.node? n.id = some n)
    (hb : (Registry.builtin []).get? n.kind = some b) (hrole : Role.ofBlock b = .inlined slot)
    (hbody : ChainText g unit (n.body? slot) body nodes macros) :
    EntryText g unit n ((Role.ofBlock b).text unit inner fun _ => body) nodes macros := by
  intro d
  have hown : ((Role.ofBlock b).text unit inner fun _ => body) =
      String.ofList (dropEndWhile (· == '\n') body.toList) := by
    rw [hrole]
    rfl
  obtain ⟨ls, hlaid, htext⟩ := hbody d
  refine ⟨ls, fun rest hrest => .inlined hn hb hrole hlaid hrest, ?_⟩
  rw [hown, hbody.terminated_dropEnd, htext]

theorem terminated_empty (d : Nat) :
    (indentChars unit.toList)^[d] (Compiler.terminated "").toList = unlines [] :=
  Function.iterate_fixed (indentChars_empty unit.toList) d

/-- A motif leaves nothing in its place; its text, with a newline behind it, has the lines of a macro. -/
theorem entryText_motif {slot : String} (hn : g.node? n.id = some n)
    (hb : (Registry.builtin []).get? n.kind = some b) (hrole : Role.ofBlock b = .motif slot)
    (hqs : NodeTexts g n b qs) (hinner : Quotes qs inner)
    (hbody : ChainText g unit (n.body? slot) body nodes macros) :
    ∃ ls, EntryText g unit n "" nodes (ls :: macros) ∧
      (((Role.ofBlock b).text unit inner fun _ => body) ++ "\n").toList = unlines ls := by
  have hown : ((Role.ofBlock b).text unit inner fun _ => body) =
      Role.block unit ((Role.ofBlock b).header inner) body := by
    rw [hrole]
    rfl
  obtain ⟨l, hl, hheader⟩ := indentTimes_header unit (Registry.mem_catalogue hb)
    (by simp [hrole, Role.opening]) (by simp [hrole, Role.closing]) hqs hinner 0
  obtain ⟨ls, hlaid, htext⟩ := indentTimes_block hbody 0 hheader
  refine ⟨l :: ls ++ [endLine unit.toList 0], fun d => ?_, ?_⟩
  · exact ⟨[], fun rest hrest => .motif hn hb hrole hl hlaid hrest, terminated_empty d⟩
  · rw [hown]
    simpa using htext

theorem entryText_silent (hn : g.node? n.id = some n)
    (hb : (Registry.builtin []).get? n.kind = some b) (hrole : Role.ofBlock b = .silent) :
    EntryText g unit n "" [] [] := fun d =>
  ⟨[], fun _ hrest => .silent hn hb hrole hrest, terminated_empty d⟩

/-- A node and the chain behind it. -/
theorem EntryText.chain {text rest : String} {nodes' : List Node} {macros' : List (List String)}
    (h : EntryText g unit n text nodes macros)
    (hrest : ChainText g unit n.next rest nodes' macros') :
    ChainText g unit (some n.id) (Compiler.terminated text ++ rest) (n :: nodes ++ nodes')
      (macros ++ macros') := by
  intro d
  obtain ⟨ls, hlaid, htext⟩ := h d
  obtain ⟨ms, hms, hrest⟩ := hrest d
  have hends : ∀ c ∈ (Compiler.terminated text).toList.getLast?, c = '\n' := by
    obtain ⟨ls₀, -, htext₀⟩ := h 0
    have hchars : (Compiler.terminated text).toList = unlines ls₀ := htext₀
    rw [hchars]
    exact getLast?_unlines ls₀
  refine ⟨ls ++ ms, hlaid _ hms, ?_⟩
  simp [indentTimes_append hends, htext, hrest]

end roles

/-! ## Walks -/

namespace Compiler

open Gen

variable {r : Level} {ctx mid : Context} {nodes nodes' : List Node} {macros macros' : List (List String)}

/-- Between two contexts the nodes were visited and the macros with these lines added. -/
structure Gained (ctx mid : Context) (nodes : List Node) (macros : List (List String)) : Prop where
  visited : mid.visited = ctx.visited ++ nodes.map Node.id
  macros : mid.macros = ctx.macros ++ macros.map fun ls => some (String.ofList (unlines ls))
  tidy : mid.Tidy

namespace Gained

theorem of_eq (h : ctx.Tidy) (hvisited : mid.visited = ctx.visited) (hmacros : mid.macros = ctx.macros)
    (howners : mid.owners = ctx.owners) : Gained ctx mid [] [] where
  visited := by simp [hvisited]
  macros := by simp [hmacros]
  tidy := by
    rw [Context.Tidy, howners, hvisited]
    exact h

theorem trans {mid' : Context} (h : Gained ctx mid nodes macros) (h' : Gained mid mid' nodes' macros') :
    Gained ctx mid' (nodes ++ nodes') (macros ++ macros') where
  visited := by rw [h'.visited, h.visited, List.map_append, List.append_assoc]
  macros := by rw [h'.macros, h.macros, List.map_append, List.append_assoc]
  tidy := h'.tidy

/-- The context behind may differ in what is not counted. -/
theorem of_behind {mid' : Context} (h : Gained ctx mid nodes macros)
    (hvisited : mid'.visited = mid.visited) (hmacros : mid'.macros = mid.macros)
    (howners : mid'.owners = mid.owners) : Gained ctx mid' nodes macros := by
  simpa using h.trans (.of_eq h.tidy hvisited hmacros howners)

/-- A visit in front of what is gained behind it. -/
theorem visit (h : Gained { ctx with visited := ctx.visited ++ [n.id] } mid nodes macros) :
    Gained ctx mid (n :: nodes) macros where
  visited := by simpa using h.visited
  macros := h.macros
  tidy := h.tidy

/-- A motif comes before all that is visited while it is written, and its macro before theirs. -/
theorem hoist {scope : Option String} {ls : List String} {text : String}
    (h : Gained (ctx.motifStart n.id) mid nodes macros) (htext : text.toList = unlines ls) :
    Gained ctx ((mid.withScope scope).fill ctx.macros.length text) (n :: nodes) (ls :: macros) where
  visited := by
    have hvisited : mid.visited = ctx.visited ++ [n.id] ++ nodes.map Node.id := h.visited
    simpa using hvisited
  macros := by
    have hmacros : mid.macros = ctx.macros ++ [none] ++ _ := h.macros
    have hlines : String.ofList (unlines ls) = text := by rw [← htext, String.ofList_toList]
    simp [hmacros, hlines]
  tidy := h.tidy

end Gained

/-- The first node of the body that belongs to the role. -/
def bodyStart (n : Node) (b : Block) : Option String := (Role.ofBlock b).slots.head?.bind n.body?

/-- What a level writes for a node: the chain of its body is laid out and gained, and the text has the
form of the role and quotes what the node quotes. -/
def Wrote (g : Graph) (unit : String) (n : Node) (b : Block) (ctx : Context) (o : Output)
    (mid : Context) : Prop :=
  ∃ body nodes macros qs, ChainText g unit (bodyStart n b) body nodes macros ∧
    Gained ctx mid nodes macros ∧ NodeTexts g n b qs ∧
    (b.producesValue = true → Quotes qs (o.value b).text) ∧
    (b.isStatement = true →
      ∃ inner, Quotes qs inner ∧ o = .text ((Role.ofBlock b).text unit inner fun _ => body))

/-- The level writes every node in this way. -/
def Writes (g : Graph) (unit : String) (r : Level) : Prop :=
  ∀ n b ctx, (Registry.builtin []).get? n.kind = some b → ctx.Tidy →
    Ensures (r n b) ctx (Wrote g unit n b ctx) fun _ _ => True

/-- A chain is laid out and gained. -/
def Chained (g : Graph) (unit : String) (start : Option String) (ctx : Context) (text : String)
    (mid : Context) : Prop :=
  ∃ nodes macros, ChainText g unit start text nodes macros ∧ Gained ctx mid nodes macros

/-- A value visits nothing. -/
theorem Wrote.value {o : Output} (h : Wrote g unit n b ctx o mid) (hb : b ∈ Catalogue.blocks)
    (hv : b.producesValue = true) :
    Gained ctx mid [] [] ∧ ∃ qs, NodeTexts g n b qs ∧ Quotes qs (o.value b).text := by
  obtain ⟨body, nodes, macros, qs, hbody, hgained, hqs, hvalue, -⟩ := h
  have hsilent : Role.ofBlock b = .silent :=
    (Catalogue.silent_role b hb).1 (by simpa [hv] using Catalogue.value_of_not_statement b hb)
  have hstart : bodyStart n b = none := by simp [bodyStart, hsilent, Role.slots]
  rw [hstart] at hbody
  obtain ⟨ls, hlaid, -⟩ := hbody 0
  cases hlaid.eq_empty
  exact ⟨hgained, qs, hqs, hvalue hv⟩

theorem ensures_resolveInput_texts {i : ValueInput} (hr : Writes g unit r) (ht : ctx.Tidy) :
    Ensures ((builtin unit).resolveInput g r n i) ctx
      (fun f mid => Gained ctx mid [] [] ∧ ∃ qs, InputTexts g n i qs ∧ Quotes qs f.text)
      fun _ _ => True := by
  have hempty : Quotes [] Fragment.empty.text := .plain (by decide)
  have hliteral : ∀ (l : Literal), InputTexts g n i l.texts → Ensures (literalFragment l) ctx
      (fun f mid => Gained ctx mid [] [] ∧ ∃ qs, InputTexts g n i qs ∧ Quotes qs f.text)
      fun _ _ => True := by
    intro l hl
    refine ensures_literalFragment (fun s hs => ?_) fun _ _ => trivial
    exact ⟨.of_eq ht rfl rfl rfl, l.texts, hl, Literal.quotes_script hs⟩
  refine ensures_resolveInput ?_ (fun l hin hl => hliteral l (.default hin hl))
    (fun l hin => hliteral l (.literal hin)) (fun _ _ _ => trivial) (fun _ _ _ _ _ => trivial) ?_ ?_
  · intro hin hdefault
    refine ⟨.of_eq ht ?_ ?_ ?_, [], .unbound hin hdefault, hempty⟩ <;> split <;> rfl
  · intro id child b hin hnode hb hv
    exact ⟨.of_eq ht rfl rfl rfl, [], .statement hin hnode hb hv, hempty⟩
  · intro id child b hin hnode hb hv
    have hin' : Context.Tidy { ctx with resolving := ctx.resolving ++ [child.name.id] } := ht
    refine .resolving (fun _ => trivial) fun _ => ?_
    refine (hr child b _ hb hin').mono (fun o mid ho => ?_) fun _ _ _ => trivial
    obtain ⟨hgained, qs, ⟨texts, htexts, rfl⟩, hquotes⟩ := ho.value (Registry.mem_catalogue hb) hv
    have hbehind : Gained ctx mid [] [] := ⟨hgained.visited, hgained.macros, hgained.tidy⟩
    exact ⟨hbehind.of_behind rfl rfl rfl, _, .value hin hnode hb hv htexts, hquotes⟩

/-- The fragment quotes what the input of the name quotes. -/
def QuotesInput (g : Graph) (n : Node) (b : Block) (name : String) (f : Fragment) : Prop :=
  ∃ qs, (∀ j ∈ b.inputs, j.name = name → InputTexts g n j qs) ∧ Quotes qs f.text

/-- The inputs in front of `rest` are resolved, and nothing was visited. -/
structure Resolved (g : Graph) (n : Node) (b : Block) (ctx : Context) (rest : List ValueInput)
    (done : List (String × Fragment)) (mid : Context) : Prop where
  gained : Gained ctx mid [] []
  quotes : ∃ used, b.inputs = used ++ rest ∧
    ∀ j ∈ used, QuotesInput g n b j.name ((done.lookup j.name).getD .empty)

theorem Resolved.step {i : ValueInput} {rest : List ValueInput} {done : List (String × Fragment)}
    {mid' : Context} {f : Fragment} (h : Resolved g n b ctx (i :: rest) done mid)
    (hgained : Gained mid mid' [] []) (hf : QuotesInput g n b i.name f) :
    Resolved g n b ctx rest ((i.name, f) :: done) mid' where
  gained := h.gained.trans hgained
  quotes := by
    obtain ⟨used, hused, hdone⟩ := h.quotes
    refine ⟨used ++ [i], by simp [hused], ?_⟩
    intro j hj
    by_cases hname : j.name = i.name
    · simpa [hname] using hf
    · have hmem : j ∈ used := by
        rcases List.mem_append.1 hj with h | h
        · exact h
        · exact absurd (congrArg ValueInput.name (List.mem_singleton.1 h)) hname
      have hne : (j.name == i.name) = false := by simpa using hname
      simpa [List.lookup_cons, hne] using hdone j hmem

/-- The texts of all inputs, by their names. -/
theorem Resolved.exists_texts {fragments : List (String × Fragment)}
    (h : Resolved g n b ctx [] fragments mid) :
    ∃ texts : String → List String, ∀ j ∈ b.inputs, InputTexts g n j (texts j.name) ∧
      Quotes (texts j.name) ((fragments.lookup j.name).getD .empty).text := by
  obtain ⟨used, hused, hdone⟩ := h.quotes
  rw [List.append_nil] at hused
  have hall : ∀ name, ∃ qs, ∀ j ∈ b.inputs, j.name = name →
      InputTexts g n j qs ∧ Quotes qs ((fragments.lookup name).getD .empty).text := by
    intro name
    by_cases hname : ∃ j ∈ b.inputs, j.name = name
    · obtain ⟨j, hj, rfl⟩ := hname
      obtain ⟨qs, hqs, hquotes⟩ := hdone j (hused ▸ hj)
      exact ⟨qs, fun i hi hij => ⟨hqs i hi hij, hquotes⟩⟩
    · exact ⟨[], fun j hj hij => absurd ⟨j, hj, hij⟩ hname⟩
  choose texts htexts using hall
  exact ⟨texts, fun j hj => htexts j.name j hj rfl⟩

/-- The inputs of a node, one after the other. -/
theorem ensures_resolveInputs_texts (hr : Writes g unit r) (ht : ctx.Tidy)
    (hnames : (b.inputs.map ValueInput.name).Nodup) :
    Ensures ((builtin unit).resolveInputs g r n [] b.inputs) ctx (Resolved g n b ctx [])
      fun _ _ => True := by
  refine ensures_resolveInputs (Resolved g n b ctx)
    ⟨.of_eq ht rfl rfl rfl, [], rfl, by simp⟩ fun i rest done mid hi h => ?_
  refine (ensures_resolveInput_texts hr h.gained.tidy).mono ?_ fun _ _ _ => trivial
  rintro f mid' ⟨hgained, qs, hqs, hquotes⟩
  refine h.step hgained ⟨qs, fun j hj hname => ?_, hquotes⟩
  rw [List.inj_on_of_nodup_map hnames hj hi hname]
  exact hqs

theorem bodyStart_eq {slot : String} (h : (Role.ofBlock b).slots = [slot]) :
    bodyStart n b = n.body? slot := by
  simp [bodyStart, h]

theorem eq_nil_of_no_slots {text : String} (h : (Role.ofBlock b).slots = [])
    (hbody : ChainText g unit (bodyStart n b) text nodes macros) : nodes = [] ∧ macros = [] := by
  have hstart : bodyStart n b = none := by simp [bodyStart, h]
  rw [hstart] at hbody
  obtain ⟨ls, hlaid, -⟩ := hbody 0
  cases hlaid.eq_empty
  exact ⟨rfl, rfl⟩

/-- The text of a statement that is no motif stands in its chain. -/
theorem entryText_statement {qs : List String} {inner body : String} (hn : g.node? n.id = some n)
    (hb : (Registry.builtin []).get? n.kind = some b) (hs : b.isStatement = true)
    (hscope : b.scope ≠ .motif) (hqs : NodeTexts g n b qs) (hinner : Quotes qs inner)
    (hbody : ChainText g unit (bodyStart n b) body nodes macros) :
    EntryText g unit n ((Role.ofBlock b).text unit inner fun _ => body) nodes macros := by
  have hmem := Registry.mem_catalogue hb
  have hmotif : (Role.ofBlock b).isMotif = false := by simp [Catalogue.motif_role b hmem, hscope]
  have hsilent : Role.ofBlock b ≠ .silent := fun h => by
    simp [(Catalogue.silent_role b hmem).2 h] at hs
  -- The role is named by an equation, which leaves the statement as it is.
  obtain ⟨role, hrole⟩ : ∃ role, Role.ofBlock b = role := ⟨_, rfl⟩
  cases role with
  | call name =>
      obtain ⟨rfl, rfl⟩ := eq_nil_of_no_slots (by rw [hrole]; rfl) hbody
      exact entryText_call hn hb hrole hqs hinner
  | wrapped name slot =>
      rw [bodyStart_eq (by rw [hrole]; rfl)] at hbody
      exact entryText_wrapped hn hb hrole hqs hinner hbody
  | inlined slot =>
      rw [bodyStart_eq (by rw [hrole]; rfl)] at hbody
      exact entryText_inlined hn hb hrole hbody
  | motif slot =>
      rw [hrole] at hmotif
      cases hmotif
  | silent => exact absurd hrole hsilent

/-- The text of a motif is its macro. -/
theorem entryText_of_motif {qs : List String} {inner body : String} (hn : g.node? n.id = some n)
    (hb : (Registry.builtin []).get? n.kind = some b) (hscope : b.scope = .motif)
    (hqs : NodeTexts g n b qs) (hinner : Quotes qs inner)
    (hbody : ChainText g unit (bodyStart n b) body nodes macros) :
    ∃ ls, EntryText g unit n "" nodes (ls :: macros) ∧
      (((Role.ofBlock b).text unit inner fun _ => body) ++ "\n").toList = unlines ls := by
  have hmotif : (Role.ofBlock b).isMotif = true := by
    simp [Catalogue.motif_role b (Registry.mem_catalogue hb), hscope]
  obtain ⟨slot, hrole⟩ : ∃ slot, Role.ofBlock b = .motif slot := by
    cases h : Role.ofBlock b with
    | motif slot => exact ⟨slot, rfl⟩
    | call name => simp [h, Role.isMotif] at hmotif
    | wrapped name slot => simp [h, Role.isMotif] at hmotif
    | inlined slot => simp [h, Role.isMotif] at hmotif
    | silent => simp [h, Role.isMotif] at hmotif
  rw [bodyStart_eq (by rw [hrole]; rfl)] at hbody
  exact entryText_motif hn hb hrole hqs hinner hbody

/-- A node in a chain, from the moment it is visited on. -/
theorem ensures_entry_text (hr : Writes g unit r) (ht : ctx.Tidy) (hn : g.node? n.id = some n)
    (hb : (Registry.builtin []).get? n.kind = some b) (hnew : n.id ∉ ctx.visited) :
    Ensures (entry r n b) { ctx with visited := ctx.visited ++ [n.id] }
      (fun text mid => ∃ nodes macros, EntryText g unit n text nodes macros ∧
        Gained ctx mid (n :: nodes) macros) fun _ _ => True := by
  have hmem := Registry.mem_catalogue hb
  have hvisit : Context.Tidy { ctx with visited := ctx.visited ++ [n.id] } := fun o ho =>
    List.mem_append_left _ (ht o ho)
  have hstatement : b.isStatement = true → b.scope ≠ .motif → ∀ start : Context, start.Tidy →
      Ensures (r n b) start (fun o mid => ∃ nodes macros,
        EntryText g unit n o.statement nodes macros ∧ Gained start mid nodes macros)
        fun _ _ => True := by
    intro hs hscope start hstart
    refine (hr n b start hb hstart).mono ?_ fun _ _ _ => trivial
    rintro o mid ⟨body, nodes, macros, qs, hbody, hgained, hqs, -, htext⟩
    obtain ⟨inner, hinner, rfl⟩ := htext hs
    exact ⟨nodes, macros, entryText_statement hn hb hs hscope hqs hinner hbody, hgained⟩
  refine ensures_entry (fun hs => ensures_statement ?motif ?scope ?plain) ?value
  case motif =>
    intro hscope
    rw [ht.beginMotif_visit hnew, ht.reserve_visit hnew]
    refine (hr n b _ hb ht.motifStart).mono ?_ fun _ _ _ => trivial
    rintro o mid ⟨body, nodes, macros, qs, hbody, hgained, hqs, -, htext⟩
    obtain ⟨inner, hinner, rfl⟩ := htext hs
    obtain ⟨ls, hentry, hlines⟩ := entryText_of_motif hn hb hscope hqs hinner hbody
    exact ⟨nodes, ls :: macros, hentry, hgained.hoist hlines⟩
  case scope =>
    intro hscope _
    have hin : Context.Tidy
        (Context.withScope { ctx with visited := ctx.visited ++ [n.id] } (some b.scope.tag)) := hvisit
    refine (hstatement hs hscope _ hin).mono ?_ fun _ _ _ => trivial
    rintro o mid ⟨nodes, macros, hentry, hgained⟩
    have hbehind : Gained { ctx with visited := ctx.visited ++ [n.id] } mid nodes macros :=
      ⟨hgained.visited, hgained.macros, hgained.tidy⟩
    exact ⟨nodes, macros, hentry, hbehind.visit.of_behind rfl rfl rfl⟩
  case plain =>
    intro hscope _
    refine (hstatement hs hscope _ hvisit).mono ?_ fun _ _ _ => trivial
    rintro o mid ⟨nodes, macros, hentry, hgained⟩
    exact ⟨nodes, macros, hentry, hgained.visit⟩
  case value =>
    intro hs
    have hsilent := (Catalogue.silent_role b hmem).1 hs
    have hgained : Gained ctx { ctx with visited := ctx.visited ++ [n.id] } [n] [] :=
      (Gained.of_eq hvisit rfl rfl rfl).visit
    exact ⟨[], [], entryText_silent hn hb hsilent, hgained.of_behind rfl rfl rfl⟩

/-- A chain, by induction along it. -/
theorem ensures_chainFrom_laid (hr : Writes g unit r) (more : Nat) (ht : ctx.Tidy)
    (hn : g.node? n.id = some n) :
    Ensures ((builtin unit).chainFrom g r more n) ctx (Chained g unit (some n.id) ctx)
      fun _ _ => True := by
  induction more generalizing n ctx with
  | zero => exact .stop trivial
  | succ more ih =>
      refine ensures_chainFrom_succ (fun _ => trivial) (fun _ => trivial) fun b hb hnew => ?_
      refine (ensures_entry_text hr ht hn hb hnew).mono ?_ fun _ _ _ => trivial
      rintro text mid ⟨nodes, macros, hentry, hgained⟩
      refine ensures_follow ?_ (fun _ _ _ => trivial) ?_
      · intro hnext
        have hrest : ChainText g unit n.next "" [] [] := hnext ▸ .none
        exact ⟨n :: nodes, macros, by simpa using hentry.chain hrest, hgained⟩
      · intro id following hnext hfollowing
        have hid := Graph.id_of_node? hfollowing
        refine (ih hgained.tidy (node?_id_of_node? hfollowing)).mono ?_ fun _ _ _ => trivial
        rintro rest mid' ⟨nodes', macros', hrest, hgained'⟩
        rw [hid, ← hnext] at hrest
        exact ⟨_, _, hentry.chain hrest, hgained.trans hgained'⟩

/-- The body that a node has by its role. -/
theorem ensures_compileBodies_laid (hr : Writes g unit r) (ht : ctx.Tidy)
    (hb : b ∈ Catalogue.blocks) :
    Ensures ((builtin unit).compileBodies g r n [] b.bodies) ctx
      (fun texts mid => ∃ body, Chained g unit (bodyStart n b) ctx body mid ∧
        ∀ slot ∈ (Role.ofBlock b).slots, (texts.lookup slot).getD "" = body)
      fun _ _ => True := by
  have hslots := Catalogue.slots_role b hb
  have hsingle : (Role.ofBlock b).slots = [] ∨ ∃ slot, (Role.ofBlock b).slots = [slot] := by
    cases Role.ofBlock b <;> simp [Role.slots]
  rcases hsingle with hnone | ⟨slot, hslot⟩
  · have hbodies : b.bodies = [] := by simpa [hnone] using hslots
    have hstart : bodyStart n b = none := by simp [bodyStart, hnone]
    rw [hbodies, hstart]
    exact .pure ⟨"", ⟨[], [], .none, .of_eq ht rfl rfl rfl⟩, by simp [hnone]⟩
  · obtain ⟨i, hbodies, hname⟩ : ∃ i, b.bodies = [i] ∧ i.name = slot := by
      simpa [hslot, List.map_eq_singleton_iff] using hslots
    rw [hbodies, bodyStart_eq hslot, ← hname]
    have hbody : Ensures ((builtin unit).compileBody g r n i) ctx
        (Chained g unit (n.body? i.name) ctx) fun _ _ => True := by
      refine ensures_compileBody ?_ (fun _ _ _ => trivial) ?_
      · intro hempty
        rw [hempty]
        refine ⟨[], [], .none, .of_eq ht ?_ ?_ ?_⟩ <;> split <;> rfl
      · intro id first hfirst hnode
        have hchain := ensures_chainFrom_laid hr g.nodes.length ht (node?_id_of_node? hnode)
        rw [Graph.id_of_node? hnode] at hchain
        rw [hfirst]
        exact hchain
    refine .bind (hbody.mono ?_ fun _ _ _ => trivial)
    intro text mid hchained
    exact .pure ⟨text, hchained, by simp [hslot, hname]⟩

/-- Every level writes in this way, by induction over the nesting. -/
theorem writes_run (g : Graph) (unit : String) (k : Nat) : Writes g unit ((builtin unit).run g k) := by
  apply run_induction (P := Writes g unit)
  · exact fun _ _ _ _ _ => ensures_beyond trivial
  · intro k hvalues hbodies n b ctx hb ht
    have hmem := Registry.mem_catalogue hb
    rw [run_eq]
    apply ensures_level
    refine (ensures_resolveInputs_texts hvalues ht (Catalogue.nodup_inputs b hmem)).mono ?_
      fun _ _ _ => trivial
    intro fragments mid hresolved
    have hinputs := hresolved.gained
    obtain ⟨texts, htexts⟩ := hresolved.exists_texts
    refine (ensures_compileBodies_laid hbodies hinputs.tidy hmem).mono ?_ fun _ _ _ => trivial
    rintro bodyTexts mid' ⟨body, ⟨nodes, macros, hbody, hgained⟩, hslots⟩
    refine .ofDraft (fun o ho => ?_) fun _ _ => trivial
    have hquotes : ∀ i ∈ b.inputs, Quotes (texts i.name)
        (((builtin unit).arguments n b fragments bodyTexts).fragment i.name).text :=
      fun i hi => (htexts i hi).2
    refine ⟨body, nodes, macros, _, hbody, (hinputs.trans hgained).of_behind rfl rfl rfl,
      ⟨texts, fun j hj => (htexts j hj).1, rfl⟩, fun hv => ?_, fun hs => ?_⟩
    · exact Writer.quotes_value (a := (builtin unit).arguments n b fragments bodyTexts) unit
        (Catalogue.mem_values b hmem hv) hquotes ho
    · obtain ⟨inner, hinner, rfl⟩ :=
        Writer.composes_statement (a := (builtin unit).arguments n b fragments bodyTexts) unit
          (Catalogue.mem_statements hmem hs) hquotes ho
      refine ⟨inner, hinner, congrArg Output.text ?_⟩
      exact Role.text_congr fun slot hslot => hslots slot hslot

end Compiler

/-! ## Whole compilations -/

/-- The layout of several chains, one behind the other. -/
inductive LaidAll (g : Graph) (ending : Nat → String) (line : Nat → Node → Block → String → Prop) :
    List String → Layout → Prop
  | nil : LaidAll g ending line [] .empty
  | cons {id : String} {ids : List String} {l m : Layout} (hl : Laid g ending line 0 (some id) l)
      (hm : LaidAll g ending line ids m) : LaidAll g ending line (id :: ids) (l ++ m)

namespace LaidAll

variable {ending : Nat → String} {line line' : Nat → Node → Block → String → Prop} {ids : List String}
  {l : Layout}

theorem mono (hline : ∀ d n b l, (Registry.builtin []).get? n.kind = some b → line d n b l →
      line' d n b l) (h : LaidAll g ending line ids l) : LaidAll g ending line' ids l := by
  induction h with
  | nil => exact .nil
  | cons hl _ ih => exact .cons (hl.mono hline) ih

theorem forall_lines {P : String → Prop} (h : LaidAll g ending line ids l)
    (hline : ∀ d n b l, (Registry.builtin []).get? n.kind = some b → (Role.ofBlock b).closing ≠ "" →
      line d n b l → P l) (hend : ∀ d, P (ending d)) :
    (∀ s ∈ l.lines, P s) ∧ ∀ m ∈ l.macros, ∀ s ∈ m, P s := by
  induction h with
  | nil => simp
  | cons hl _ ih =>
      have hfirst := hl.forall_lines hline hend
      grind

theorem ne_nil_of_mem_macros (h : LaidAll g ending line ids l) : ∀ m ∈ l.macros, m ≠ [] := by
  induction h with
  | nil => simp
  | cons hl _ ih =>
      have hfirst := hl.ne_nil_of_mem_macros
      grind

end LaidAll

namespace Compiler

open Gen

/-- The text has the lines of a layout of the chains from `ids` on, which is gained. -/
def LaidOut (g : Graph) (unit : String) (ids : List String) (ctx : Context) (text : String)
    (mid : Context) : Prop :=
  ∃ l, LaidAll g (endLine unit.toList) (OwnLine g unit.toList) ids l ∧
    Gained ctx mid l.nodes l.macros ∧ text.toList = unlines l.lines

theorem ensures_chain_laidOut {ctx : Context} (ht : ctx.Tidy) (hn : g.node? n.id = some n) :
    Ensures ((builtin unit).chain g ((builtin unit).run g allowance) n) ctx
      (fun text mid => ∃ l, Laid g (endLine unit.toList) (OwnLine g unit.toList) 0 (some n.id) l ∧
        Gained ctx mid l.nodes l.macros ∧ text.toList = unlines l.lines) fun _ _ => True := by
  refine (ensures_chainFrom_laid (writes_run g unit allowance) g.nodes.length ht hn).mono ?_
    fun _ _ _ => trivial
  rintro text mid ⟨nodes, macros, htext, hgained⟩
  obtain ⟨ls, hlaid, hls⟩ := htext.toList_eq
  exact ⟨_, hlaid, hgained, hls⟩

theorem ensures_compileHeads_laidOut {ctx : Context} {hs : List Node} (ht : ctx.Tidy)
    (hhs : ∀ h ∈ hs, g.node? h.id = some h) :
    Ensures ((builtin unit).compileHeads g hs) ctx (LaidOut g unit (hs.map Node.id) ctx)
      fun _ _ => True := by
  induction hs generalizing ctx with
  | nil => exact .pure ⟨.empty, .nil, .of_eq ht rfl rfl rfl, rfl⟩
  | cons h hs ih =>
      refine .bind ((ensures_chain_laidOut ht (hhs h (by simp))).mono ?_ fun _ _ _ => trivial)
      rintro first mid ⟨l, hl, hgained, hfirst⟩
      refine .bind ((ih hgained.tidy fun h' hh' => hhs h' (by simp [hh'])).mono ?_
        fun _ _ _ => trivial)
      rintro rest mid' ⟨m, hm, hgained', hrest⟩
      refine .pure ⟨l ++ m, .cons hl hm, hgained.trans hgained', ?_⟩
      rw [String.toList_append, hfirst, hrest, ← unlines_append]
      rfl

/-- A compilation that succeeds has the layout of its chains. -/
theorem laidOut_of_ok {root : Option String} {body : String} {ctx : Context}
    (hids : (g.nodes.map Node.id).Nodup)
    (hrun : (builtin unit).compileBodyText g root {} = .ok body ctx) :
    LaidOut g unit ((builtin unit).starts g root) {} body ctx := by
  have htidy : ({} : Context).Tidy := Context.orderly_empty.tidy
  cases root with
  | some id =>
      change (builtin unit).compileChain g id {} = _ at hrun
      unfold compileChain at hrun
      cases hnode : g.node? id with
      | none =>
          rw [hnode] at hrun
          cases hrun
      | some first =>
          rw [hnode] at hrun
          obtain ⟨l, hl, hgained, htext⟩ :=
            (ensures_chain_laidOut htidy (node?_id_of_node? hnode)).result hrun
          rw [Graph.id_of_node? hnode] at hl
          have hall := LaidAll.cons hl .nil
          rw [Layout.append_empty] at hall
          exact ⟨l, hall, hgained, htext⟩
  | none =>
      obtain ⟨hs, mid, hheads, hchains⟩ := bind_eq_ok.1 hrun
      obtain ⟨-, rfl, rfl⟩ := heads_eq_ok.1 hheads
      have hstart : (Context.noteAll {} ((builtin unit).detachedNotes g.unreferenced)).Tidy := htidy
      have hknown : ∀ h ∈ (builtin unit).chainHeads g, g.node? h.id = some h := fun h hh =>
        Graph.node?_id hids (mem_nodes_of_mem_chainHeads hh)
      obtain ⟨l, hl, hgained, htext⟩ := (ensures_compileHeads_laidOut hstart hknown).result hchains
      exact ⟨l, hl, ⟨hgained.visited, hgained.macros, hgained.tidy⟩, htext⟩

/-- The macros of a program are those of its layout. -/
theorem hoisted_of_gained {ctx : Context} {nodes : List Node} {macros : List (List String)}
    (h : Gained {} ctx nodes macros) (hne : ∀ m ∈ macros, m ≠ []) :
    ctx.hoisted = macros.map fun ls => String.ofList (unlines ls) := by
  apply Context.hoisted_of_macros
  · simpa [Function.comp_def] using h.macros
  · intro text htext
    obtain ⟨ls, hls, rfl⟩ := List.mem_map.1 htext
    obtain ⟨s, ss, rfl⟩ := List.exists_cons_of_ne_nil (hne ls hls)
    rw [unlines_cons]
    intro hempty
    have hnil := congrArg String.toList hempty
    simp at hnil

end Compiler

end BlockMusic
