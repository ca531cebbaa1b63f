import BlockMusic.Proofs.Quotation

/-!
# The texts of nodes

What the built-in writers make of a node. The text of a value is plain but for the quotations of the
node's own fields and of its inputs. A statement has a header of this kind, and its role says what
becomes of its body: nothing, a block between `do` and `end`, the place of the statement itself, or
a macro.
-/

namespace BlockMusic

open Script

/-! ## What is quoted -/

/-- The text of a single literal that is a text. -/
def Scalar.texts : Scalar → List String
  | .text s => [s]
  | _ => []

/-- The texts in a literal. -/
def Literal.texts : Literal → List String
  | .scalar s => s.texts
  | .list items => items.flatMap Scalar.texts

/-- The text of a draft, and none if it fails. -/
def Draft.written (d : Draft String) : String :=
  match d.outcome with
  | .ok s => s
  | .error _ => ""

@[simp] theorem Draft.written_eq {d : Draft String} {s : String} (h : d.outcome = .ok s) :
    d.written = s := by
  rw [written, h]

/-- The texts of its own fields that a node quotes. -/
def Node.fieldTexts (n : Node) (b : Block) : List String :=
  let a : Arguments := { node := n, block := b, indentUnit := "" }
  match b.kind with
  | "text" => [(a.text "TEXT").written]
  | "trigger_sample" => [(a.text "NAME").written]
  | "play_in_key" => [(a.token "KEY").written, (a.token "MODE").written]
  | _ => []

theorem Node.fieldTexts_eq_nil (n : Node) {b : Block}
    (h : b.kind ∉ ["text", "trigger_sample", "play_in_key"]) : n.fieldTexts b = [] := by
  unfold fieldTexts
  dsimp only
  split <;> simp_all

/-- The texts that the value of an input quotes. -/
inductive InputTexts (g : Graph) : Node → ValueInput → List String → Prop
  | unbound {n : Node} {i : ValueInput} (hin : n.input? i.name = none)
      (hdefault : i.default = none) : InputTexts g n i []
  | default {n : Node} {i : ValueInput} {l : Literal} (hin : n.input? i.name = none)
      (hdefault : i.default = some l) : InputTexts g n i l.texts
  | literal {n : Node} {i : ValueInput} {l : Literal} (hin : n.input? i.name = some (.literal l)) :
      InputTexts g n i l.texts
  | statement {n child : Node} {i : ValueInput} {id : String} {b : Block}
      (hin : n.input? i.name = some (.node id)) (hnode : g.node? id = some child)
      (hb : (Registry.builtin []).get? child.kind = some b) (hv : b.producesValue = false) :
      InputTexts g n i []
  | value {n child : Node} {i : ValueInput} {id : String} {b : Block} {texts : String → List String}
      (hin : n.input? i.name = some (.node id)) (hnode : g.node? id = some child)
      (hb : (Registry.builtin []).get? child.kind = some b) (hv : b.producesValue = true)
      (hinputs : ∀ j ∈ b.inputs, InputTexts g child j (texts j.name)) :
      InputTexts g n i (child.fieldTexts b ++ b.inputs.flatMap fun j => texts j.name)

/-- The texts that a node quotes: those of its fields, and those of its inputs in their order. -/
def NodeTexts (g : Graph) (n : Node) (b : Block) (qs : List String) : Prop :=
  ∃ texts : String → List String, (∀ j ∈ b.inputs, InputTexts g n j (texts j.name)) ∧
    qs = n.fieldTexts b ++ b.inputs.flatMap fun j => texts j.name

/-! ## Literals -/

theorem Script.isPlain_of_isDigit {c : Char} (h : c.isDigit = true) : isPlain c = true := by
  have hrange : 48 ≤ c.toNat ∧ c.toNat ≤ 57 := by
    simp only [Char.isDigit, Bool.and_eq_true, decide_eq_true_eq, ge_iff_le,
      UInt32.le_iff_toNat_le] at h
    exact h
  have hquote : c ≠ '"' := by
    rintro rfl
    exact absurd hrange (by decide)
  simp only [isPlain, Text.isBoundary, Bool.and_eq_true, bne_iff_ne, ne_eq, hquote,
    not_false_eq_true, true_and, Bool.not_eq_true', Bool.or_eq_false_iff, Bool.and_eq_false_iff,
    decide_eq_false_iff_not, beq_eq_false_iff_ne]
  omega

theorem Script.isPlain_of_isNumberChar {c : Char} (h : isNumberChar c = true) : isPlain c = true := by
  simp only [isNumberChar, Bool.or_eq_true, beq_iff_eq] at h
  rcases h with ((hdigit | rfl) | rfl) | rfl
  · exact isPlain_of_isDigit hdigit
  · decide
  · decide
  · decide

theorem Scalar.quotes_script {s : Scalar} {text : String} (h : s.script = .ok text) :
    Quotes s.texts text := by
  cases s with
  | text s =>
      cases h
      exact .string s
  | int n =>
      obtain ⟨-, rfl⟩ := Script.integer_eq_ok.1 h
      exact .plain (List.all_eq_true.2 fun c hc =>
        isPlain_of_isNumberChar (isNumberChar_of_mem_toString hc))
  | float x =>
      exact .plain (List.all_eq_true.2 fun c hc =>
        isPlain_of_isNumberChar (isNumberChar_of_mem_float h hc))
  | bool b =>
      cases h
      cases b <;> exact .plain (by decide)

theorem Scalar.quotes_scripts {items : List Scalar} {texts : List String}
    (h : items.mapM Scalar.script = .ok texts) :
    List.Forall₂ Quotes (items.map Scalar.texts) texts := by
  rw [List.forall₂_map_left_iff]
  exact (forall₂_of_mapM_script h).imp fun _ _ => quotes_script

theorem Script.Quotes.brackets {qss : List (List String)} {ss : List String}
    (h : List.Forall₂ Quotes qss ss) : Quotes qss.flatten (Script.brackets ss) := by
  have hopen : Quotes [] "[" := .plain (by decide)
  have hclose : Quotes [] "]" := .plain (by decide)
  have hitems : Quotes qss.flatten (",".intercalate ss) := .intercalate (by decide) h
  have hlist := (hopen.append hitems).append hclose
  simpa [Script.brackets] using hlist

theorem Literal.quotes_script {l : Literal} {text : String} (h : l.script = .ok text) :
    Quotes l.texts text := by
  cases l with
  | scalar s => exact Scalar.quotes_script h
  | list items =>
      obtain ⟨texts, hitems, rfl⟩ := list_script_eq_ok h
      simpa [Literal.texts, List.flatMap] using Quotes.brackets (Scalar.quotes_scripts hitems)

/-! ## Arguments -/

namespace Arguments

variable {a : Arguments} {qs : List String} {slot : String}

theorem quotes_operand (h : Quotes qs (a.fragment slot).text) (consumer : Int) :
    Quotes qs (a.operand slot consumer) := by
  change Quotes qs ((a.fragment slot).asOperand consumer).text
  unfold Fragment.asOperand
  split
  · have hopen : Quotes [] "(" := .plain (by decide)
    have hclose : Quotes [] ")" := .plain (by decide)
    simpa [Fragment.atom] using (hopen.append h).append hclose
  · exact h

theorem quotes_value (h : Quotes qs (a.fragment slot).text) : Quotes qs (a.value slot) :=
  quotes_operand h _

/-- A dropdown without a default is read as one of its choices. -/
theorem token_mem {name token : String} {options : List (String × String)}
    (hfield : a.block.field? name = some (Catalogue.dropdown name options)) (hne : options ≠ [])
    (h : (a.token name).outcome = .ok token) : token ∈ options.map Prod.snd := by
  have hdefault : (options.head?.map Prod.snd).getD "" ∈ options.map Prod.snd := by
    obtain ⟨option, rest, rfl⟩ := List.exists_cons_of_ne_nil hne
    simp
  rw [token_eq hfield rfl rfl h, Catalogue.firstToken_dropdown]
  cases a.node.field? name with
  | none => exact hdefault
  | some value =>
      cases value with
      | text s =>
          rw [Field.tokenFor_text, Catalogue.tokens_dropdown]
          split
          · assumption
          · exact hdefault
      | int n => exact hdefault
      | float x => exact hdefault
      | bool b => exact hdefault

/-- A dropdown with plain choices is read as a plain text. -/
theorem quotes_token {name token : String} {options : List (String × String)}
    (hfield : a.block.field? name = some (Catalogue.dropdown name options)) (hne : options ≠ [])
    (hplain : (options.map Prod.snd).all (fun t => t.toList.all isPlain) = true)
    (h : (a.token name).outcome = .ok token) : Quotes [] token :=
  .plain (List.all_eq_true.1 hplain _ (token_mem hfield hne h))

end Arguments

/-! ## The writers of values -/

namespace Writer

variable {a : Arguments} {texts : String → List String} {o : Output}

theorem quotes_call {name : String} (hname : name.toList.all isPlain = true) {qss : List (List String)}
    {args : List String} (h : List.Forall₂ Quotes qss args) : Quotes qss.flatten (call name args) := by
  have hopen : Quotes [] "(" := .plain (by decide)
  have hclose : Quotes [] ")" := .plain (by decide)
  have hargs : Quotes qss.flatten (", ".intercalate args) := .intercalate (by decide) h
  simpa [call] using (((Quotes.plain hname).append hopen).append hargs).append hclose

theorem forall₂_values {is : List ValueInput}
    (h : ∀ i ∈ is, Quotes (texts i.name) (a.fragment i.name).text) :
    List.Forall₂ Quotes (is.map fun i => texts i.name) (is.map fun i => a.value i.name) := by
  rw [List.forall₂_map_left_iff, List.forall₂_map_right_iff, List.forall₂_same]
  exact fun i hi => Arguments.quotes_value (h i hi)

/-- What has no text quotes nothing, so it may be left out of a list. -/
theorem quotes_chord {is : List ValueInput}
    (h : ∀ i ∈ is, Quotes (texts i.name) (a.fragment i.name).text) :
    Quotes (is.flatMap fun i => texts i.name)
      (Script.brackets ((is.map fun i => a.value i.name).filter (· ≠ ""))) := by
  have hfilter : ∃ qss, List.Forall₂ Quotes qss ((is.map fun i => a.value i.name).filter (· ≠ "")) ∧
      qss.flatten = is.flatMap fun i => texts i.name := by
    induction is with
    | nil => exact ⟨[], .nil, rfl⟩
    | cons i is ih =>
        obtain ⟨qss, hqss, hflat⟩ := ih fun j hj => h j (List.mem_cons_of_mem i hj)
        have hi := Arguments.quotes_value (h i List.mem_cons_self)
        by_cases hempty : a.value i.name = ""
        · rw [hempty] at hi
          exact ⟨qss, by simpa [hempty] using hqss, by simp [hflat, hi.eq_nil]⟩
        · exact ⟨texts i.name :: qss, by simpa [hempty] using List.Forall₂.cons hi hqss, by simp [hflat]⟩
  obtain ⟨qss, hqss, hflat⟩ := hfilter
  rw [← hflat]
  exact .brackets hqss

theorem quotes_number {name s : String} (h : (a.number name).outcome = .ok s) : Quotes [] s := by
  unfold Arguments.number at h
  cases hread : Arguments.numberIn (a.fieldValue name) with
  | integer n =>
      rw [hread] at h
      exact Scalar.quotes_script (s := .int n) (Draft.outcome_ofRender_eq_ok.1 h)
  | float x =>
      rw [hread] at h
      exact Scalar.quotes_script (s := .float x) (Draft.outcome_ofRender_eq_ok.1 h)
  | longInteger digits =>
      rw [hread] at h
      cases h
  | none =>
      rw [hread] at h
      cases h
      exact .plain (by decide)

/-- Two operands with a plain word between them. -/
theorem quotes_sides {qs rs : List String} {word : String} (hword : word.toList.all isPlain = true)
    (hA : Quotes qs (a.fragment "A").text) (hB : Quotes rs (a.fragment "B").text) (left right : Int) :
    Quotes (qs ++ rs) (a.operand "A" left ++ word ++ a.operand "B" right) := by
  have hleft := (Arguments.quotes_operand hA left).append (.plain hword)
  simpa using hleft.append (Arguments.quotes_operand hB right)

theorem quotes_mathArithmetic {qs rs : List String} (hfield : a.block.field? "OP" =
      some (Catalogue.dropdown "OP" Catalogue.arithmeticOperators))
    (hA : Quotes qs (a.fragment "A").text) (hB : Quotes rs (a.fragment "B").text)
    (h : (mathArithmetic a).outcome = .ok o) : Quotes (qs ++ rs) (o.value a.block).text := by
  have hsymbol : ∀ {token : String} {p : Script.Operator} {tier : Precedence},
      (a.token "OP").outcome = .ok token → token ≠ "POWER" →
      infixOperator? token = some (p.symbol, tier) → (" " ++ p.symbol ++ " ").toList.all isPlain = true →
      Quotes (qs ++ rs) (o.value a.block).text := by
    intro token p tier htoken hpower hop hplain
    rw [mathArithmetic_symbol htoken hpower hop] at h
    cases h
    simpa [Output.value, String.append_assoc] using
      quotes_sides hplain hA hB tier.rank (tier.rank - 1)
  obtain ⟨token, htoken, -⟩ := Draft.exists_outcome_of_bind h
  have hmem := token_operation hfield htoken
  simp only [Script.operations, List.mem_cons, Prod.mk.injEq, List.not_mem_nil, or_false] at hmem
  rcases hmem with ⟨rfl, -⟩ | ⟨rfl, -⟩ | ⟨rfl, -⟩ | ⟨rfl, -⟩ | ⟨rfl, -⟩
  · exact hsymbol (p := .add) htoken (by decide) rfl (by decide)
  · exact hsymbol (p := .subtract) htoken (by decide) rfl (by decide)
  · exact hsymbol (p := .multiply) htoken (by decide) rfl (by decide)
  · exact hsymbol (p := .divide) htoken (by decide) rfl (by decide)
  · rw [mathArithmetic_power htoken] at h
    cases h
    have hargs : List.Forall₂ Quotes [qs, rs] [a.value "A", a.value "B"] :=
      .cons (Arguments.quotes_value hA) (.cons (Arguments.quotes_value hB) .nil)
    have hcall : Quotes [qs, rs].flatten (call ":math.pow" [a.value "A", a.value "B"]) :=
      quotes_call (by decide) hargs
    simpa [Output.value] using hcall

/-- The text of a value quotes what its node quotes. -/
theorem quotes_value (unit : String) (hblock : a.block ∈ Catalogue.values)
    (hvalues : ∀ i ∈ a.block.inputs, Quotes (texts i.name) (a.fragment i.name).text)
    (h : ((Compiler.builtin unit).writer a.block.kind a).outcome = .ok o) :
    Quotes (a.node.fieldTexts a.block ++ a.block.inputs.flatMap fun i => texts i.name)
      (o.value a.block).text := by
  have hsides : a.block.inputs.map ValueInput.name = ["A", "B"] →
      Quotes (texts "A") (a.fragment "A").text ∧ Quotes (texts "B") (a.fragment "B").text ∧
        (a.block.inputs.flatMap fun i => texts i.name) = texts "A" ++ texts "B" := by
    intro hnames
    have hslot : ∀ slot ∈ a.block.inputs.map ValueInput.name,
        Quotes (texts slot) (a.fragment slot).text := by
      intro slot hslot
      obtain ⟨i, hi, rfl⟩ := List.mem_map.1 hslot
      exact hvalues i hi
    have hflat : (a.block.inputs.flatMap fun i => texts i.name) =
        (a.block.inputs.map ValueInput.name).flatMap texts := by simp [List.flatMap_map]
    rw [hnames] at hslot hflat
    exact ⟨hslot "A" (by simp), hslot "B" (by simp), by simpa using hflat⟩
  simp only [Catalogue.values, List.mem_cons, List.not_mem_nil, or_false] at hblock
  rcases hblock with hb | hb | hb | hb | hb | hb | hb
  · have hk : a.block.kind = "chord" := by rw [hb]; rfl
    rw [hk] at h
    cases h
    simpa [Node.fieldTexts, hk, Output.value, Fragment.atom] using quotes_chord hvalues
  · have hk : a.block.kind = "premade_chord" := by rw [hb]; rfl
    rw [hk] at h
    cases h
    simpa [Node.fieldTexts, hk, Output.value, Fragment.atom] using quotes_chord hvalues
  · have hk : a.block.kind = "text" := by rw [hb]; rfl
    have hinputs : a.block.inputs = [] := by rw [hb]; rfl
    rw [hk] at h
    obtain ⟨s, hs, ho⟩ := Draft.exists_outcome_of_bind h
    cases ho
    have hown : a.node.fieldTexts a.block = [(a.text "TEXT").written] := by
      rw [Node.fieldTexts, hk]
      rfl
    rw [hown, hinputs, Draft.written_eq hs]
    exact .string s
  · have hk : a.block.kind = "math_number" := by rw [hb]; rfl
    have hinputs : a.block.inputs = [] := by rw [hb]; rfl
    rw [hk] at h
    rw [Node.fieldTexts, hk, hinputs]
    obtain ⟨s, hs, ho⟩ := Draft.exists_outcome_of_bind h
    cases ho
    exact quotes_number hs
  · have hk : a.block.kind = "logic_boolean" := by rw [hb]; rfl
    have hinputs : a.block.inputs = [] := by rw [hb]; rfl
    rw [hk] at h
    rw [Node.fieldTexts, hk, hinputs]
    obtain ⟨token, -, ho⟩ := Draft.exists_outcome_of_bind h
    cases ho
    exact Scalar.quotes_script (s := .bool (token = "TRUE")) rfl
  · have hk : a.block.kind = "math_arithmetic" := by rw [hb]; rfl
    obtain ⟨hA, hB, hflat⟩ := hsides (by rw [hb]; rfl)
    have hown := a.node.fieldTexts_eq_nil (b := a.block) (by rw [hk]; decide)
    rw [hk] at h
    rw [hown, hflat, List.nil_append]
    exact quotes_mathArithmetic (by rw [hb]; rfl) hA hB h
  · have hk : a.block.kind = "text_join" := by rw [hb]; rfl
    obtain ⟨hA, hB, hflat⟩ := hsides (by rw [hb]; rfl)
    have hown := a.node.fieldTexts_eq_nil (b := a.block) (by rw [hk]; decide)
    rw [hk] at h
    rw [hown, hflat, List.nil_append]
    cases h
    exact quotes_sides (by decide) hA hB _ _

end Writer

/-! ## The roles of statements -/

/-- What the text of a node in a chain consists of. -/
inductive Role where
  /-- One line, a call. -/
  | call (name : String)
  /-- A call, and the body between `do` and `end`. -/
  | wrapped (name slot : String)
  /-- The body in the place of the node. -/
  | inlined (slot : String)
  /-- A macro, and nothing in the place of the node. -/
  | motif (slot : String)
  /-- Nothing: the node is a value. -/
  | silent
  deriving DecidableEq

namespace Role

/-- The role of the nodes of a block. -/
def ofBlock (b : Block) : Role :=
  if b.isStatement then
    match b.kind with
    | "defmotif" => .motif "DO"
    | "play_chord_progression" => .inlined "DO"
    | "play_in_key" => .wrapped "play_in_key" "DO"
    | "with_fx" => .wrapped "with_fx" "COMMANDS"
    | "trigger_drum" => .call "trigger_sample"
    | "sync_to_parent" => .call "sync_to"
    | kind => .call kind
  else .silent

/-- The bodies that a node of the role has. -/
def slots : Role → List String
  | .wrapped _ slot => [slot]
  | .inlined slot => [slot]
  | .motif slot => [slot]
  | .call _ => []
  | .silent => []

def isMotif : Role → Bool
  | .motif _ => true
  | _ => false

/-- How the header begins. -/
def opening : Role → String
  | .call name => name ++ "("
  | .wrapped name _ => name ++ "("
  | .motif _ => "defmotif "
  | .inlined _ => ""
  | .silent => ""

/-- How the header ends. -/
def closing : Role → String
  | .call _ => ")"
  | .wrapped _ _ => ") do"
  | .motif _ => " do"
  | .inlined _ => ""
  | .silent => ""

/-- The first line, with what stands between its ends. -/
def header (r : Role) (inner : String) : String := r.opening ++ inner ++ r.closing

/-- A header with an indented body under it. -/
def block (unit header body : String) : String := header ++ "\n" ++ Text.indent unit body ++ "end"

/-- The text of a node, with what stands in its header and the texts of its bodies. -/
def text (r : Role) (unit inner : String) (body : String → String) : String :=
  match r with
  | .call _ => r.header inner
  | .wrapped _ slot => block unit (r.header inner) (body slot)
  | .motif slot => block unit (r.header inner) (body slot)
  | .inlined slot => String.ofList (Text.dropEndWhile (· == '\n') (body slot).toList)
  | .silent => ""

theorem doBlock_eq (head body : String) :
    Writer.doBlock head body = head ++ " do" ++ "\n" ++ body ++ "end" := by
  have hdo : " do\n" = " do" ++ "\n" := by decide
  simp [Writer.doBlock, hdo, String.append_assoc]

theorem doBlock_call (unit name : String) (args : List String) (slot body : String) :
    Writer.doBlock (Writer.call name args) (Text.indent unit body) =
      block unit ((wrapped name slot).header (", ".intercalate args)) body := by
  have hdo : ")" ++ " do" = ") do" := by decide
  simp [doBlock_eq, block, header, opening, closing, Writer.call, ← hdo, String.append_assoc]

end Role

/-! ## The writers of statements -/

namespace Writer

variable {a : Arguments} {texts : String → List String} {o : Output}

/-- The output is the text of a node of the role, and quotes `qs`. -/
def Composes (a : Arguments) (r : Role) (qs : List String) (o : Output) : Prop :=
  ∃ inner, Quotes qs inner ∧ o = .text (r.text a.indentUnit inner a.inlineBody)

theorem composes_call {name : String} {qss : List (List String)} {args : List String}
    (h : List.Forall₂ Quotes qss args) :
    Composes a (.call name) qss.flatten (.text (call name args)) :=
  ⟨", ".intercalate args, .intercalate (by decide) h, by
    simp [Role.text, Role.header, Role.opening, Role.closing, call, String.append_assoc]⟩

theorem composes_wrapped {name slot : String} {qss : List (List String)} {args : List String}
    (h : List.Forall₂ Quotes qss args) :
    Composes a (.wrapped name slot) qss.flatten
      (.text (doBlock (call name args) (a.indentedBody slot))) :=
  ⟨", ".intercalate args, .intercalate (by decide) h, congrArg Output.text
    (Role.doBlock_call a.indentUnit name args slot (a.inlineBody slot))⟩

theorem composes_callWith {name : String} {slots : List String}
    (hslots : a.block.inputs.map ValueInput.name = slots)
    (hvalues : ∀ i ∈ a.block.inputs, Quotes (texts i.name) (a.fragment i.name).text)
    (h : (callWith name slots a).outcome = .ok o) :
    Composes a (.call name) (a.block.inputs.flatMap fun i => texts i.name) o := by
  cases h
  have hargs : slots.map a.value = a.block.inputs.map fun i => a.value i.name := by
    rw [← hslots, List.map_map]
    rfl
  rw [hargs]
  exact composes_call (forall₂_values hvalues)

theorem composes_defmotif {qs : List String} (hname : Quotes qs (a.fragment "NAME").text)
    (h : (defmotif a).outcome = .ok o) : Composes a (.motif "DO") qs o := by
  cases h
  refine ⟨_, Arguments.quotes_operand hname Precedence.atomic.rank, congrArg Output.text ?_⟩
  rw [Role.doBlock_eq]
  rfl

/-- A replacement brings in no other characters than those of the new word. -/
theorem mem_replaceFrom {word new cs : List Char} {skip : Nat} {c : Char}
    (h : c ∈ Text.replaceFrom word new skip cs) : c ∈ new ∨ c ∈ cs := by
  fun_induction Text.replaceFrom word new skip cs with
  | case1 => simp at h
  | case2 skip z cs ih => exact (ih h).imp_right (List.mem_cons_of_mem z)
  | case3 z cs _ ih =>
      rcases List.mem_append.1 h with h | h
      · exact .inl h
      · exact (ih h).imp_right (List.mem_cons_of_mem z)
  | case4 z cs _ ih =>
      rcases List.mem_cons.1 h with rfl | h
      · exact .inr List.mem_cons_self
      · exact (ih h).imp_right (List.mem_cons_of_mem z)

theorem quotes_replace {word new s : String} (hnew : new.toList.all isPlain = true)
    (hs : s.toList.all isPlain = true) : Quotes [] (Text.replace word new s) := by
  refine .plain (List.all_eq_true.2 fun c hc => ?_)
  rw [Text.replace, String.toList_ofList] at hc
  rcases mem_replaceFrom hc with h | h
  · exact List.all_eq_true.1 hnew c h
  · exact List.all_eq_true.1 hs c h

theorem composes_triggerDrum
    (hsample : a.block.field? "SAMPLE" = some (Catalogue.dropdown "SAMPLE" Catalogue.drumSamples))
    (hstyle : a.block.field? "STYLE" =
      some (Catalogue.dropdown "STYLE" [("hard", "hard"), ("soft", "soft")]))
    (h : (triggerDrum a).outcome = .ok o) : Composes a (.call "trigger_sample") [] o := by
  have hsamples : (Catalogue.drumSamples.map Prod.snd).all (·.toList.all isPlain) = true := by decide
  have hstyles : (["hard", "soft"] : List String).all (·.toList.all isPlain) = true := by decide
  obtain ⟨sample, hs, h⟩ := Draft.exists_outcome_of_bind h
  obtain ⟨style, ht, h⟩ := Draft.exists_outcome_of_bind h
  cases h
  have hquotes : Quotes [] (Text.replace "soft" style sample) :=
    quotes_replace (List.all_eq_true.1 hstyles _ (Arguments.token_mem hstyle (by decide) ht))
      (List.all_eq_true.1 hsamples _ (Arguments.token_mem hsample (by decide) hs))
  exact composes_call (.cons hquotes .nil)

/-- A call of one dropdown field. -/
theorem composes_choice {name : String} (field : String) (options : List (String × String))
    (hfield : a.block.field? field = some (Catalogue.dropdown field options)) (hne : options ≠ [])
    (hplain : (options.map Prod.snd).all (fun t => t.toList.all isPlain) = true)
    (h : (a.token field >>= fun t => line (call name [t])).outcome = .ok o) :
    Composes a (.call name) [] o := by
  obtain ⟨token, htoken, h⟩ := Draft.exists_outcome_of_bind h
  cases h
  exact composes_call (.cons (Arguments.quotes_token hfield hne hplain htoken) .nil)

theorem composes_rest {qs : List String} (hamount : Quotes qs (a.fragment "AMOUNT").text)
    (hunits : a.block.field? "UNITS" =
      some (Catalogue.dropdown "UNITS" [("beats", ":beats"), ("measures", ":measures")]))
    (h : (rest a).outcome = .ok o) : Composes a (.call "rest") qs o := by
  obtain ⟨token, htoken, h⟩ := Draft.exists_outcome_of_bind h
  cases h
  have hquotes := Arguments.quotes_token hunits (by decide) (by decide) htoken
  simpa using composes_call (a := a) (.cons (Arguments.quotes_value hamount) (.cons hquotes .nil))

theorem composes_playInKey (h : (playInKey a).outcome = .ok o) :
    Composes a (.wrapped "play_in_key" "DO") [(a.token "KEY").written, (a.token "MODE").written] o := by
  obtain ⟨key, hkey, h⟩ := Draft.exists_outcome_of_bind h
  obtain ⟨mode, hmode, h⟩ := Draft.exists_outcome_of_bind h
  cases h
  rw [Draft.written_eq hkey, Draft.written_eq hmode]
  exact composes_wrapped (.cons (.string _) (.cons (.string _) .nil))

theorem composes_withFx
    (heffect : a.block.field? "EFFECT" = some (Catalogue.dropdown "EFFECT" Catalogue.effects))
    (h : (withFx a).outcome = .ok o) : Composes a (.wrapped "with_fx" "COMMANDS") [] o := by
  obtain ⟨token, htoken, h⟩ := Draft.exists_outcome_of_bind h
  cases h
  exact composes_wrapped (.cons (Arguments.quotes_token heffect (by decide) (by decide) htoken) .nil)

theorem composes_triggerSample (h : (triggerSample a).outcome = .ok o) :
    Composes a (.call "trigger_sample") [(a.text "NAME").written] o := by
  obtain ⟨name, hname, h⟩ := Draft.exists_outcome_of_bind h
  cases h
  rw [Draft.written_eq hname]
  exact composes_call (.cons (.string name) .nil)

/-- The text of a statement has the form of its role, and quotes what its node quotes. -/
theorem composes_statement (unit : String)
    (hblock : a.block ∈ Catalogue.statements.map Catalogue.statement)
    (hvalues : ∀ i ∈ a.block.inputs, Quotes (texts i.name) (a.fragment i.name).text)
    (h : ((Compiler.builtin unit).writer a.block.kind a).outcome = .ok o) :
    Composes a (.ofBlock a.block)
      (a.node.fieldTexts a.block ++ a.block.inputs.flatMap fun i => texts i.name) o := by
  have hcase : ∀ (kind : String) (r : Role) {qs : List String}, a.block.kind = kind →
      Role.ofBlock a.block = r →
      (a.node.fieldTexts a.block ++ a.block.inputs.flatMap fun i => texts i.name) = qs →
      (((Compiler.builtin unit).writer kind a).outcome = .ok o → Composes a r qs o) →
      Composes a (.ofBlock a.block)
        (a.node.fieldTexts a.block ++ a.block.inputs.flatMap fun i => texts i.name) o := by
    rintro kind r qs rfl rfl rfl hwriter
    exact hwriter h
  have hinputs : a.block.kind ∉ ["text", "trigger_sample", "play_in_key"] →
      (a.node.fieldTexts a.block ++ a.block.inputs.flatMap fun i => texts i.name) =
        a.block.inputs.flatMap fun i => texts i.name := by
    intro hkind
    rw [a.node.fieldTexts_eq_nil hkind, List.nil_append]
  have hsingle : ∀ slot, a.block.inputs.map ValueInput.name = [slot] →
      Quotes (texts slot) (a.fragment slot).text ∧
        (a.block.inputs.flatMap fun i => texts i.name) = texts slot := by
    intro slot hnames
    obtain ⟨i, hi, rfl⟩ := List.map_eq_singleton_iff.1 hnames
    exact ⟨hvalues i (by simp [hi]), by simp [hi]⟩
  simp only [Catalogue.statements, List.map_cons, List.map_nil, List.mem_cons, List.not_mem_nil,
    or_false] at hblock
  rcases hblock with hb | hb | hb | hb | hb | hb | hb | hb | hb | hb | hb | hb | hb | hb | hb | hb
  · obtain ⟨hname, hflat⟩ := hsingle "NAME" (by rw [hb]; rfl)
    exact hcase "defmotif" (.motif "DO") (by rw [hb]; rfl) (by rw [hb]; rfl)
      ((hinputs (by rw [hb]; decide)).trans hflat) (composes_defmotif hname)
  · exact hcase "play_synth" (.call "play_synth") (by rw [hb]; rfl) (by rw [hb]; rfl)
      (hinputs (by rw [hb]; decide)) (composes_callWith (by rw [hb]; rfl) hvalues)
  · exact hcase "trigger_drum" (.call "trigger_sample") (by rw [hb]; rfl) (by rw [hb]; rfl)
      ((hinputs (by rw [hb]; decide)).trans (by rw [hb]; rfl))
      (composes_triggerDrum (by rw [hb]; rfl) (by rw [hb]; rfl))
  · obtain ⟨hamount, hflat⟩ := hsingle "AMOUNT" (by rw [hb]; rfl)
    exact hcase "rest" (.call "rest") (by rw [hb]; rfl) (by rw [hb]; rfl)
      ((hinputs (by rw [hb]; decide)).trans hflat) (composes_rest hamount (by rw [hb]; rfl))
  · exact hcase "wait_for" (.call "wait_for") (by rw [hb]; rfl) (by rw [hb]; rfl)
      ((hinputs (by rw [hb]; decide)).trans (by rw [hb]; rfl))
      (composes_choice "UNITS" Catalogue.beatMarkers (by rw [hb]; rfl) (by decide) (by decide))
  · exact hcase "set_volume" (.call "set_volume") (by rw [hb]; rfl) (by rw [hb]; rfl)
      (hinputs (by rw [hb]; decide)) (composes_callWith (by rw [hb]; rfl) hvalues)
  · exact hcase "set_tempo" (.call "set_tempo") (by rw [hb]; rfl) (by rw [hb]; rfl)
      (hinputs (by rw [hb]; decide)) (composes_callWith (by rw [hb]; rfl) hvalues)
  · exact hcase "stop_sound" (.call "stop_sound") (by rw [hb]; rfl) (by rw [hb]; rfl)
      (hinputs (by rw [hb]; decide)) (composes_callWith (by rw [hb]; rfl) hvalues)
  · exact hcase "cue" (.call "cue") (by rw [hb]; rfl) (by rw [hb]; rfl)
      (hinputs (by rw [hb]; decide)) (composes_callWith (by rw [hb]; rfl) hvalues)
  · exact hcase "loop" (.call "loop") (by rw [hb]; rfl) (by rw [hb]; rfl)
      (hinputs (by rw [hb]; decide)) (composes_callWith (by rw [hb]; rfl) hvalues)
  · exact hcase "sync_to_parent" (.call "sync_to") (by rw [hb]; rfl) (by rw [hb]; rfl)
      (hinputs (by rw [hb]; decide)) (composes_callWith (by rw [hb]; rfl) hvalues)
  · exact hcase "set_synth" (.call "set_synth") (by rw [hb]; rfl) (by rw [hb]; rfl)
      ((hinputs (by rw [hb]; decide)).trans (by rw [hb]; rfl))
      (composes_choice "SYNTH" Catalogue.synths (by rw [hb]; rfl) (by decide) (by decide))
  · exact hcase "play_chord_progression" (.inlined "DO") (by rw [hb]; rfl) (by rw [hb]; rfl)
      ((hinputs (by rw [hb]; decide)).trans (by rw [hb]; rfl))
      (fun h => ⟨"", .plain (by decide), by cases h; rfl⟩)
  · have hk : a.block.kind = "play_in_key" := by rw [hb]; rfl
    have hnone : a.block.inputs = [] := by rw [hb]; rfl
    exact hcase "play_in_key" (.wrapped "play_in_key" "DO") hk (by rw [hb]; rfl)
      (by rw [Node.fieldTexts, hk, hnone]; rfl)
      composes_playInKey
  · exact hcase "with_fx" (.wrapped "with_fx" "COMMANDS") (by rw [hb]; rfl) (by rw [hb]; rfl)
      ((hinputs (by rw [hb]; decide)).trans (by rw [hb]; rfl))
      (composes_withFx (by rw [hb]; rfl))
  · have hk : a.block.kind = "trigger_sample" := by rw [hb]; rfl
    have hnone : a.block.inputs = [] := by rw [hb]; rfl
    exact hcase "trigger_sample" (.call "trigger_sample") hk (by rw [hb]; rfl)
      (by rw [Node.fieldTexts, hk, hnone]; rfl) composes_triggerSample

end Writer

namespace Catalogue

/-- The bodies of a block are those of its role. -/
theorem slots_role : ∀ b ∈ blocks, b.bodies.map BodyInput.name = (Role.ofBlock b).slots := by decide

/-- The motifs are the blocks with the scope of one. -/
theorem motif_role : ∀ b ∈ blocks, (Role.ofBlock b).isMotif = decide (b.scope = .motif) := by decide

theorem silent_role : ∀ b ∈ blocks, b.isStatement = false ↔ Role.ofBlock b = .silent := by decide

theorem mem_statements {b : Block} (hb : b ∈ blocks) (hs : b.isStatement = true) :
    b ∈ statements.map statement := by
  have hvalues : ∀ b ∈ values, b.isStatement = false := by decide
  rcases List.mem_append.1 hb with h | h
  · exact h
  · simp [hvalues b h] at hs

theorem value_of_not_statement : ∀ b ∈ blocks, b.producesValue = !b.isStatement := by decide

end Catalogue

end BlockMusic
