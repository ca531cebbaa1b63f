import BlockMusic.Compile.Writer
import BlockMusic.Proofs.Grammar
import BlockMusic.Proofs.Numerals

/-!
# Reading expressions

The text of an expression is cut into tokens at its blanks, commas and brackets; a quoted text is one
token with its escapes undone. `Spells cs ts` says that `cs` reads as the tokens `ts` wherever a token
may end behind it, and `Closes cs ts` that it does so whatever follows. From these the texts that the
writers put together are shown to be phrases of the grammar.
-/

namespace BlockMusic.Script

/-- The characters at which words end, with the tokens they are themselves. -/
def punctuation? : Char → Option (List Token)
  | ' ' => some []
  | ',' => some [.comma]
  | '(' => some [.openGroup]
  | ')' => some [.closeGroup]
  | '[' => some [.openList]
  | ']' => some [.closeList]
  | _ => none

/-- The words that are no numerals. -/
def words : List (String × Token) := [
  ("+", .operator .add), ("-", .operator .subtract), ("*", .operator .multiply),
  ("/", .operator .divide), ("<>", .join), ("true", .truth true), ("false", .truth false),
  (":math.pow", .power)]

/-- The token of a word. A minus sign attached to a numeral belongs to it. -/
def word? (cs : List Char) : Option Token :=
  if (Numeral.ofChars? Text.asciiDigit? cs).isSome then some (.number (String.ofList cs))
  else words.lookup (String.ofList cs)

/-- The character that an escape stands for. -/
def unescape? : Char → Option Char
  | '\\' => some '\\'
  | '"' => some '"'
  | 'n' => some '\n'
  | 'r' => some '\r'
  | 't' => some '\t'
  | _ => none

/-- Where in a text the reader is, with what it has read of a token. -/
inductive Spot where
  | between
  | word (cs : List Char)
  | quoted (cs : List Char)
  | escaped (cs : List Char)

/-- The tokens from a spot on. -/
def tokensFrom : Spot → List Char → Option (List Token)
  | .between, [] => some []
  | .word w, [] => (word? w).map ([·])
  | .quoted _, [] => none
  | .escaped _, [] => none
  | .between, c :: cs =>
    if c = '"' then tokensFrom (.quoted []) cs
    else
      match punctuation? c with
      | some ts => (tokensFrom .between cs).map (ts ++ ·)
      | none => tokensFrom (.word [c]) cs
  | .word w, c :: cs =>
    match punctuation? c with
    | some ts => (word? w).bind fun t => (tokensFrom .between cs).map (t :: ts ++ ·)
    | none => tokensFrom (.word (w ++ [c])) cs
  | .quoted w, c :: cs =>
    if c = '"' then (tokensFrom .between cs).map (.text (String.ofList w) :: ·)
    else if c = '\\' then tokensFrom (.escaped w) cs
    else tokensFrom (.quoted (w ++ [c])) cs
  | .escaped w, c :: cs => (unescape? c).bind fun x => tokensFrom (.quoted (w ++ [x])) cs

/-- The tokens of a text. -/
def tokens? (s : String) : Option (List Token) := tokensFrom .between s.toList

/-! ## Texts with their tokens -/

/-- A token may end in front of the text. -/
def EndsToken (cs : List Char) : Prop := ∀ c ∈ cs.head?, (punctuation? c).isSome = true

/-- The characters read as the tokens wherever a token may end behind them. -/
def Spells (cs : List Char) (ts : List Token) : Prop :=
  ∀ rest, EndsToken rest → tokensFrom .between (cs ++ rest) = (tokensFrom .between rest).map (ts ++ ·)

/-- The characters read as the tokens whatever follows them. -/
def Closes (cs : List Char) (ts : List Token) : Prop :=
  ∀ rest, tokensFrom .between (cs ++ rest) = (tokensFrom .between rest).map (ts ++ ·)

theorem Closes.spells {cs : List Char} {ts : List Token} (h : Closes cs ts) : Spells cs ts :=
  fun rest _ => h rest

theorem Closes.append {cs ds : List Char} {ts us : List Token} (hc : Closes cs ts)
    (hd : Closes ds us) : Closes (cs ++ ds) (ts ++ us) := by
  intro rest
  rw [List.append_assoc, hc, hd]
  cases tokensFrom .between rest with
  | none => rfl
  | some vs => simp

theorem Closes.append_spells {cs ds : List Char} {ts us : List Token} (hc : Closes cs ts)
    (hd : Spells ds us) : Spells (cs ++ ds) (ts ++ us) := by
  intro rest hrest
  rw [List.append_assoc, hc, hd rest hrest]
  cases tokensFrom .between rest with
  | none => rfl
  | some vs => simp

/-- A text whose last token is still open is closed by a text that begins with punctuation. -/
theorem Spells.append_closes {cs ds : List Char} {ts us : List Token} (hc : Spells cs ts)
    (hd : Closes ds us) (hne : ds ≠ []) (hends : EndsToken ds) :
    Closes (cs ++ ds) (ts ++ us) := by
  intro rest
  have hrest : EndsToken (ds ++ rest) := by
    intro c hc
    rw [List.head?_append_of_ne_nil _ hne] at hc
    exact hends c hc
  rw [List.append_assoc, hc _ hrest, hd]
  cases tokensFrom .between rest with
  | none => rfl
  | some vs => simp

theorem closes_punctuation {c : Char} {ts : List Token} (h : punctuation? c = some ts) :
    Closes [c] ts := by
  intro rest
  have hquote : c ≠ '"' := by
    rintro rfl
    cases h
  simp [tokensFrom, hquote, h]

/-- A word is read to its end. -/
theorem tokensFrom_word {w cs : List Char} {rest : List Char} {t : Token}
    (hcs : ∀ c ∈ cs, punctuation? c = none) (hword : word? (w ++ cs) = some t)
    (hrest : EndsToken rest) :
    tokensFrom (.word w) (cs ++ rest) = (tokensFrom .between rest).map (t :: ·) := by
  induction cs generalizing w with
  | nil =>
      rw [List.append_nil] at hword
      cases rest with
      | nil => simp [tokensFrom, hword]
      | cons c rest =>
          obtain ⟨ts, hts⟩ := Option.isSome_iff_exists.1 (hrest c rfl)
          have hquote : c ≠ '"' := by
            rintro rfl
            cases hts
          simp only [List.nil_append, tokensFrom, hts, hword, Option.bind_some, if_neg hquote]
          cases tokensFrom .between rest with
          | none => rfl
          | some vs => rfl
  | cons c cs ih =>
      have hc : punctuation? c = none := hcs c (by simp)
      simp only [List.cons_append, tokensFrom, hc]
      apply ih
      · exact fun x hx => hcs x (List.mem_cons_of_mem c hx)
      · simpa using hword

theorem spells_word {c : Char} {cs : List Char} {t : Token} (hquote : c ≠ '"')
    (hcs : ∀ x ∈ c :: cs, punctuation? x = none) (hword : word? (c :: cs) = some t) :
    Spells (c :: cs) [t] := by
  intro rest hrest
  have hc : punctuation? c = none := hcs c (by simp)
  have hstart : tokensFrom .between (c :: (cs ++ rest)) = tokensFrom (.word [c]) (cs ++ rest) := by
    simp [tokensFrom, hquote, hc]
  have hword' : word? ([c] ++ cs) = some t := hword
  have hcs' : ∀ x ∈ cs, punctuation? x = none := fun x hx => hcs x (List.mem_cons_of_mem c hx)
  have hend := tokensFrom_word hcs' hword' hrest
  rw [List.cons_append, hstart, hend]
  rfl

/-- A character stands for itself, or is an escape that can be undone. -/
theorem escapeChar_cases (c : Char) :
    (escapeChar c = [c] ∧ c ≠ '"' ∧ c ≠ '\\') ∨
      ∃ x, escapeChar c = ['\\', x] ∧ unescape? x = some c := by
  unfold escapeChar
  split
  · exact Or.inr ⟨'\\', rfl, rfl⟩
  · exact Or.inr ⟨'"', rfl, rfl⟩
  · exact Or.inr ⟨'n', rfl, rfl⟩
  · exact Or.inr ⟨'r', rfl, rfl⟩
  · exact Or.inr ⟨'t', rfl, rfl⟩
  · rename_i hslash hquote _ _ _
    exact Or.inl ⟨rfl, hquote, hslash⟩

theorem tokensFrom_quoted (w cs rest : List Char) :
    tokensFrom (.quoted w) (cs.flatMap escapeChar ++ '"' :: rest) =
      (tokensFrom .between rest).map (.text (String.ofList (w ++ cs)) :: ·) := by
  induction cs generalizing w with
  | nil => simp [tokensFrom]
  | cons c cs ih =>
      have htail : w ++ c :: cs = (w ++ [c]) ++ cs := by simp
      rw [List.flatMap_cons, htail, ← ih (w ++ [c])]
      rcases escapeChar_cases c with ⟨hself, hquote, hslash⟩ | ⟨x, hescape, hx⟩
      · simp [hself, tokensFrom, hquote, hslash]
      · simp [hescape, tokensFrom, hx]

/-- A quoted text is one token. -/
theorem closes_quote (s : String) : Closes (quote s.toList) [.text s] := by
  intro rest
  have hcs : quote s.toList ++ rest = '"' :: (s.toList.flatMap escapeChar ++ '"' :: rest) := by
    simp [quote]
  have hopen : ∀ cs, tokensFrom .between ('"' :: cs) = tokensFrom (.quoted []) cs := by
    intro cs
    simp [tokensFrom]
  rw [hcs, hopen, tokensFrom_quoted, List.nil_append, String.ofList_toList]
  rfl

theorem punctuation?_of_isNumberChar {c : Char} (h : isNumberChar c = true) :
    punctuation? c = none := by
  unfold punctuation?
  split
  all_goals first
    | rfl
    | simp [isNumberChar, Char.isDigit] at h

/-- A numeral is one token. -/
theorem spells_number {s : String}
    (hnumeral : (Numeral.ofChars? Text.asciiDigit? s.toList).isSome = true)
    (hchars : ∀ c ∈ s.toList, isNumberChar c = true) : Spells s.toList [.number s] := by
  have hword : word? s.toList = some (.number s) := by
    rw [word?, if_pos hnumeral, String.ofList_toList]
  have hplain : ∀ c ∈ s.toList, punctuation? c = none := fun c hc =>
    punctuation?_of_isNumberChar (hchars c hc)
  cases hs : s.toList with
  | nil =>
      rw [hs] at hnumeral
      simp [Numeral.ofChars?, Numeral.sign] at hnumeral
  | cons c cs =>
      rw [hs] at hword hplain hchars
      refine spells_word ?_ hplain hword
      rintro rfl
      exact absurd (hchars '"' (by simp)) (by decide)

theorem closes_blank : Closes [' '] [] := closes_punctuation rfl

theorem spells_toList {w : String} {t : Token} (hfirst : ∃ c ∈ w.toList.head?, c ≠ '"')
    (hall : w.toList.all (fun x => punctuation? x = none) = true) (hword : word? w.toList = some t) :
    Spells w.toList [t] := by
  obtain ⟨c, hc, hquote⟩ := hfirst
  have hcs : ∀ x ∈ w.toList, punctuation? x = none := by simpa using hall
  cases hw : w.toList with
  | nil =>
      rw [hw] at hc
      cases hc
  | cons d ds =>
      rw [hw] at hc hcs hword
      obtain rfl : d = c := by simpa using hc
      exact spells_word hquote hcs hword

/-- A word with blanks around it. -/
theorem closes_between_blanks {w : String} {t : Token} (h : Spells w.toList [t]) :
    Closes (" " ++ w ++ " ").toList [t] := by
  have hends : EndsToken [' '] := by
    intro x hx
    cases hx
    rfl
  have hclosed := closes_blank.append (h.append_closes closes_blank (by simp) hends)
  simpa using hclosed

/-- The sign of an operator. -/
def Operator.symbol : Operator → String
  | .add => "+"
  | .subtract => "-"
  | .multiply => "*"
  | .divide => "/"

theorem closes_operator (o : Operator) : Closes (" " ++ o.symbol ++ " ").toList [.operator o] := by
  apply closes_between_blanks
  cases o with
  | add => exact spells_toList ⟨'+', rfl, by decide⟩ (by decide) (by decide)
  | subtract => exact spells_toList ⟨'-', rfl, by decide⟩ (by decide) (by decide)
  | multiply => exact spells_toList ⟨'*', rfl, by decide⟩ (by decide) (by decide)
  | divide => exact spells_toList ⟨'/', rfl, by decide⟩ (by decide) (by decide)

theorem closes_join : Closes " <> ".toList [.join] := by
  have hword : Spells "<>".toList [.join] :=
    spells_toList ⟨'<', rfl, by decide⟩ (by decide) (by decide)
  exact closes_between_blanks hword

/-! ## Texts with their trees -/

/-- The text is a phrase of the given sort, and its tree is `e` up to the grouping of joins. -/
def Reads (p : Phrase) (s : String) (e : Expr) : Prop :=
  ∃ ts e', Spells s.toList ts ∧ Derives p ts e' ∧ e'.Regrouped e

namespace Reads

theorem text (s : String) : Reads .operand (Script.string s) (.text s) := by
  refine ⟨[.text s], .text s, ?_, .text s, .refl _⟩
  rw [Script.string, String.toList_ofList]
  exact (closes_quote s).spells

theorem number {s : String} (hnumeral : (Numeral.ofChars? Text.asciiDigit? s.toList).isSome = true)
    (hchars : ∀ c ∈ s.toList, isNumberChar c = true) : Reads .operand s (.number s) :=
  ⟨[.number s], .number s, spells_number hnumeral hchars, .number s, .refl _⟩

theorem integer {z : Int} {s : String} (h : Script.integer z = .ok s) :
    Reads .operand s (.number s) := by
  obtain ⟨-, rfl⟩ := integer_eq_ok.1 h
  exact number (Numeral.ofChars?_toString z) fun _ hc => isNumberChar_of_mem_toString hc

theorem float {x : Double} {s : String} (h : Script.float x = .ok s) :
    Reads .operand s (.number s) :=
  number (ofChars?_float h) fun _ hc => isNumberChar_of_mem_float h hc

theorem truth (b : Bool) : Reads .operand (Script.boolean b) (.truth b) := by
  cases b with
  | true => exact ⟨[.truth true], .truth true,
      spells_toList ⟨'t', rfl, by decide⟩ (by decide) (by decide), .truth true, .refl _⟩
  | false => exact ⟨[.truth false], .truth false,
      spells_toList ⟨'f', rfl, by decide⟩ (by decide) (by decide), .truth false, .refl _⟩

theorem joined {p : Phrase} {s : String} {e : Expr} (h : Reads p s e) (hp : p ≠ .items) :
    Reads .joined s e := by
  obtain ⟨ts, e', hs, hd, hr⟩ := h
  exact ⟨ts, e', hs, hd.joined_of hp, hr⟩

/-- Parentheses make an operand of any expression. -/
theorem group {s : String} {e : Expr} (h : Reads .joined s e) :
    Reads .operand ("(" ++ s ++ ")") e := by
  obtain ⟨ts, e', hs, hd, hr⟩ := h
  refine ⟨.openGroup :: ts ++ [.closeGroup], e', ?_, .group hd, hr⟩
  have hclose := hs.append_closes (closes_punctuation (c := ')') rfl) (by simp)
    (by intro x hx; cases hx; rfl)
  have hopen : Closes ['('] [.openGroup] := closes_punctuation rfl
  simpa using (hopen.append hclose).spells

theorem multiply {a b : String} {x y : Expr} {o : Operator} (ho : o.isProduct = true)
    (ha : Reads .product a x) (hb : Reads .operand b y) :
    Reads .product (a ++ " " ++ o.symbol ++ " " ++ b) (.binary o x y) := by
  obtain ⟨ts, x', hts, hx, hxr⟩ := ha
  obtain ⟨us, y', hus, hy, hyr⟩ := hb
  refine ⟨ts ++ .operator o :: us, .binary o x' y', ?_, .multiply ho hx hy, .binary o hxr hyr⟩
  have hclosed := hts.append_closes (closes_operator o) (by simp) (by simp [EndsToken, punctuation?])
  simpa using hclosed.append_spells hus

theorem add {a b : String} {x y : Expr} {o : Operator} (ho : o.isProduct = false)
    (ha : Reads .sum a x) (hb : Reads .product b y) :
    Reads .sum (a ++ " " ++ o.symbol ++ " " ++ b) (.binary o x y) := by
  obtain ⟨ts, x', hts, hx, hxr⟩ := ha
  obtain ⟨us, y', hus, hy, hyr⟩ := hb
  refine ⟨ts ++ .operator o :: us, .binary o x' y', ?_, .add ho hx hy, .binary o hxr hyr⟩
  have hclosed := hts.append_closes (closes_operator o) (by simp) (by simp [EndsToken, punctuation?])
  simpa using hclosed.append_spells hus

theorem join {a b : String} {x y : Expr} (ha : Reads .joined a x) (hb : Reads .joined b y) :
    Reads .joined (a ++ " <> " ++ b) (.join x y) := by
  obtain ⟨ts, x', hts, hx, hxr⟩ := ha
  obtain ⟨us, y', hus, hy, hyr⟩ := hb
  obtain ⟨e, he, her⟩ := hx.join_joined hy
  refine ⟨ts ++ .join :: us, e, ?_, he, her.trans (.join hxr hyr)⟩
  have hclosed := hts.append_closes closes_join (by simp) (by simp [EndsToken, punctuation?])
  simpa using hclosed.append_spells hus

theorem power {a b : String} {x y : Expr} (ha : Reads .joined a x) (hb : Reads .joined b y) :
    Reads .operand (Writer.call ":math.pow" [a, b]) (.power x y) := by
  obtain ⟨ts, x', hts, hx, hxr⟩ := ha
  obtain ⟨us, y', hus, hy, hyr⟩ := hb
  refine ⟨.power :: .openGroup :: ts ++ .comma :: us ++ [.closeGroup], .power x' y', ?_,
    .power hx hy, .power hxr hyr⟩
  have hword : Spells ":math.pow".toList [.power] :=
    spells_toList ⟨':', rfl, by decide⟩ (by decide) (by decide)
  have hname := hword.append_closes (closes_punctuation (c := '(') rfl) (by simp)
    (by intro x hx; cases hx; rfl)
  have hcomma : Closes [',', ' '] [.comma] :=
    (closes_punctuation (c := ',') rfl).append closes_blank
  have hfirst := hts.append_closes hcomma (by simp) (by intro x hx; cases hx; rfl)
  have hsecond := hus.append_closes (closes_punctuation (c := ')') rfl) (by simp)
    (by intro x hx; cases hx; rfl)
  have hall := ((hname.append hfirst).append hsecond).spells
  have hchars : (Writer.call ":math.pow" [a, b]).toList =
      ":math.pow".toList ++ ['('] ++ (a.toList ++ [',', ' ']) ++ (b.toList ++ [')']) := by
    simp [Writer.call]
  rw [hchars]
  simpa using hall

/-- Expressions with commas between them. -/
theorem items {s : String} {e : Expr} {ss : List String} {es : List Expr} (h : Reads .joined s e)
    (hs : List.Forall₂ (Reads .joined) ss es) :
    ∃ ts es', Spells (",".intercalate (s :: ss)).toList ts ∧ Derives .items ts (.list es') ∧
      List.Forall₂ Expr.Regrouped es' (e :: es) := by
  induction hs generalizing s e with
  | nil =>
      obtain ⟨ts, e', hts, hd, hr⟩ := h
      exact ⟨ts, [e'], by simpa using hts, .item hd, .cons hr .nil⟩
  | @cons s' e' ss es hhead _ ih =>
      obtain ⟨ts, x, hts, hd, hr⟩ := h
      obtain ⟨us, xs, hus, hds, hrs⟩ := ih hhead
      refine ⟨ts ++ .comma :: us, x :: xs, ?_, .items hd hds, .cons hr hrs⟩
      have hcomma := hts.append_closes (closes_punctuation (c := ',') rfl) (by simp)
        (by intro x hx; cases hx; rfl)
      have hchars : (",".intercalate (s :: s' :: ss)).toList =
          s.toList ++ [','] ++ (",".intercalate (s' :: ss)).toList := by
        simp [String.intercalate_cons_cons]
      rw [hchars]
      simpa using hcomma.append_spells hus

/-- A list in brackets. -/
theorem list {ss : List String} {es : List Expr} (h : List.Forall₂ (Reads .joined) ss es) :
    Reads .operand (brackets ss) (.list es) := by
  have hopen : Closes ['['] [.openList] := closes_punctuation rfl
  have hclose : Closes [']'] [.closeList] := closes_punctuation rfl
  cases h with
  | nil => exact ⟨[.openList, .closeList], .list [], (hopen.append hclose).spells, .emptyList, .refl _⟩
  | cons hhead htail =>
      obtain ⟨ts, es', hts, hd, hr⟩ := items hhead htail
      refine ⟨.openList :: ts ++ [.closeList], .list es', ?_, .list hd, .list hr⟩
      have hclosed := hts.append_closes hclose (by simp) (by intro x hx; cases hx; rfl)
      simpa [brackets] using (hopen.append hclosed).spells

end Reads

end BlockMusic.Script

/-! ## Literals that can be written -/

namespace BlockMusic

/-- An integer has no more digits than the limit. -/
def Scalar.isShort : Scalar → Bool
  | .int z => Numeral.digitCount z ≤ Numeral.digitLimit
  | _ => true

/-- No integer in the literal has more digits than the limit. -/
def Literal.isShort : Literal → Bool
  | .scalar s => s.isShort
  | .list items => items.all Scalar.isShort

namespace Scalar

theorem exists_script {s : Scalar} (hfinite : s.isFinite = true) (hshort : s.isShort = true) :
    ∃ text, s.script = .ok text := by
  cases s with
  | text s => exact ⟨_, rfl⟩
  | int z => exact ⟨_, if_pos (by simpa [isShort] using hshort)⟩
  | float x => exact ⟨_, if_pos hfinite⟩
  | bool b => exact ⟨_, rfl⟩

theorem isShort_of_script {s : Scalar} {text : String} (h : s.script = .ok text) :
    s.isShort = true := by
  cases s with
  | int z => simpa [isShort] using (Script.integer_eq_ok.1 h).1
  | text s => rfl
  | float x => rfl
  | bool b => rfl

theorem script_eq_error {s : Scalar} {e : RenderError} (hfinite : s.isFinite = true)
    (h : s.script = .error e) : e = .integerLimit := by
  cases s with
  | int z => exact (Script.integer_eq_error.1 h).2.symm
  | float x =>
      obtain ⟨text, htext⟩ := exists_script hfinite rfl
      cases htext.symm.trans h
  | text s => cases h
  | bool b => cases h

theorem exists_mapM_script {items : List Scalar} (hfinite : ∀ s ∈ items, s.isFinite = true)
    (hshort : ∀ s ∈ items, s.isShort = true) : ∃ texts, items.mapM Scalar.script = .ok texts := by
  induction items with
  | nil => exact ⟨[], rfl⟩
  | cons s items ih =>
      rw [List.forall_mem_cons] at hfinite hshort
      obtain ⟨text, htext⟩ := exists_script hfinite.1 hshort.1
      obtain ⟨texts, htexts⟩ := ih hfinite.2 hshort.2
      refine ⟨text :: texts, ?_⟩
      rw [List.mapM_cons, htext, htexts]
      rfl

theorem exists_error_of_mapM_script {items : List Scalar} {e : RenderError}
    (h : items.mapM Scalar.script = .error e) : ∃ s ∈ items, s.script = .error e := by
  induction items with
  | nil => cases h
  | cons s items ih =>
      rw [List.mapM_cons] at h
      cases hs : s.script with
      | error e' =>
          rw [hs] at h
          cases h
          exact ⟨s, List.mem_cons_self, hs⟩
      | ok text =>
          cases hitems : items.mapM Scalar.script with
          | error e' =>
              rw [hs, hitems] at h
              cases h
              obtain ⟨s', hmem, hs'⟩ := ih hitems
              exact ⟨s', List.mem_cons_of_mem s hmem, hs'⟩
          | ok texts =>
              rw [hs, hitems] at h
              cases h

/-- A list of literals is written item by item. -/
theorem forall₂_of_mapM_script {items : List Scalar} {texts : List String}
    (h : items.mapM Scalar.script = .ok texts) :
    List.Forall₂ (fun s text => s.script = .ok text) items texts := by
  induction items generalizing texts with
  | nil =>
      cases h
      exact .nil
  | cons s items ih =>
      rw [List.mapM_cons] at h
      cases hs : s.script with
      | error e =>
          rw [hs] at h
          cases h
      | ok text =>
          cases hitems : items.mapM Scalar.script with
          | error e =>
              rw [hs, hitems] at h
              cases h
          | ok rest =>
              rw [hs, hitems] at h
              cases h
              exact .cons hs (ih hitems)

end Scalar

namespace Literal

/-- A list is written item by item. -/
theorem list_script_eq_ok {items : List Scalar} {text : String} (h : (list items).script = .ok text) :
    ∃ texts, items.mapM Scalar.script = .ok texts ∧ text = Script.brackets texts := by
  rw [script] at h
  cases hitems : items.mapM Scalar.script with
  | error e =>
      rw [hitems] at h
      cases h
  | ok texts =>
      rw [hitems] at h
      cases h
      exact ⟨texts, rfl, rfl⟩

theorem list_script_eq_error {items : List Scalar} {e : RenderError}
    (h : (list items).script = .error e) : items.mapM Scalar.script = .error e := by
  rw [script] at h
  cases hitems : items.mapM Scalar.script with
  | error e' =>
      rw [hitems] at h
      cases h
      rfl
  | ok texts =>
      rw [hitems] at h
      cases h

theorem exists_script {l : Literal} (hfinite : l.isFinite = true) (hshort : l.isShort = true) :
    ∃ text, l.script = .ok text := by
  cases l with
  | scalar s => exact Scalar.exists_script hfinite hshort
  | list items =>
      obtain ⟨texts, htexts⟩ :=
        Scalar.exists_mapM_script (List.all_eq_true.1 hfinite) (List.all_eq_true.1 hshort)
      exact ⟨Script.brackets texts, by rw [script, htexts]; rfl⟩

theorem isShort_of_script {l : Literal} {text : String} (h : l.script = .ok text) :
    l.isShort = true := by
  cases l with
  | scalar s => exact Scalar.isShort_of_script h
  | list items =>
      obtain ⟨texts, htexts, -⟩ := list_script_eq_ok h
      have hitems := (Scalar.forall₂_of_mapM_script htexts).imp fun s text hs =>
        And.intro (Scalar.isShort_of_script hs) hs
      exact List.all_eq_true.2 ((List.forall₂_and_left _ _).1 hitems).1

/-- A finite literal is refused only for an integer with too many digits. -/
theorem script_eq_error {l : Literal} {e : RenderError} (hfinite : l.isFinite = true)
    (h : l.script = .error e) : l.isShort = false ∧ e = .integerLimit := by
  constructor
  · rw [Bool.eq_false_iff]
    intro hshort
    obtain ⟨text, htext⟩ := exists_script hfinite hshort
    cases htext.symm.trans h
  · cases l with
    | scalar s => exact Scalar.script_eq_error hfinite h
    | list items =>
        obtain ⟨s, hs, herror⟩ := Scalar.exists_error_of_mapM_script (list_script_eq_error h)
        exact Scalar.script_eq_error (List.all_eq_true.1 hfinite s hs) herror

/-- A finite literal with too long an integer has no script form. -/
theorem script_of_long {l : Literal} (hfinite : l.isFinite = true) (hlong : l.isShort = false) :
    l.script = .error .integerLimit := by
  cases h : l.script with
  | ok text =>
      rw [isShort_of_script h] at hlong
      cases hlong
  | error e => rw [(script_eq_error hfinite h).2]

end Literal

end BlockMusic
