import BlockMusic.Proofs.Faults
import BlockMusic.Proofs.Indentation

/-!
# Quotations in the text of a node

The text of a node consists of plain stretches, which have neither a quotation mark nor a line boundary
in them, and of quotations. What indentation does to a text it does to the quotations: `worn unit d s`
is the quotation of `s` in a text that was indented `d` times. It is unchanged exactly if nothing was
put in, or if no line boundary is left unescaped.

A node quotes the texts of its own fields, and those of its inputs in their order.
-/

namespace BlockMusic

namespace Script

open Text

/-- Neither a quotation mark nor a line boundary. -/
def isPlain (c : Char) : Bool := c != '"' && !isBoundary c

theorem isBoundary_of_isPlain {c : Char} (h : isPlain c = true) : isBoundary c = false := by
  simp only [isPlain, Bool.and_eq_true, Bool.not_eq_true'] at h
  exact h.2

/-- A part of a text: a plain stretch, or the quotation of a text. -/
inductive Part where
  | plain (cs : List Char) (h : cs.all isPlain = true)
  | quoted (s : String)

/-- A part, with quotations written by `token`. -/
def Part.write (token : String → List Char) : Part → List Char
  | .plain cs _ => cs
  | .quoted s => token s

/-- What a part quotes. -/
def Part.quotation? : Part → Option String
  | .plain _ _ => none
  | .quoted s => some s

/-- The parts in a row, with quotations written by `token`. -/
def write (token : String → List Char) (ps : List Part) : List Char := ps.flatMap (Part.write token)

/-- The texts that are quoted, in their order. -/
def quotations (ps : List Part) : List String := ps.filterMap Part.quotation?

/-- The quotation of a text with `d` hanging indentations. -/
def worn (unit : List Char) (d : Nat) (s : String) : List Char := (hang unit)^[d] (quote s.toList)

/-- A line boundary that is not escaped in a quotation. -/
def isLoose (c : Char) : Bool := isBoundary c && c != '\n' && c != '\r'

theorem write_append (token : String → List Char) (ps qs : List Part) :
    write token (ps ++ qs) = write token ps ++ write token qs :=
  List.flatMap_append

theorem getLast?_quote (cs : List Char) : (quote cs).getLast? = some '"' :=
  List.getLast?_concat

theorem mem_quote_isBoundary (cs : List Char) :
    (∃ c ∈ quote cs, isBoundary c = true) ↔ ∃ c ∈ cs, isLoose c = true := by
  have hany : ∀ c, (escapeChar c).any isBoundary = isLoose c := by
    intro c
    unfold escapeChar
    split <;> first | decide | skip
    rename_i hn hr _
    have hnewline : (c != '\n') = true := bne_iff_ne.2 hn
    have hreturn : (c != '\r') = true := bne_iff_ne.2 hr
    simp [isLoose, hnewline, hreturn]
  have hescape : ∀ c, (∃ z ∈ escapeChar c, isBoundary z = true) ↔ isLoose c = true := by
    intro c
    rw [← hany, List.any_eq_true]
  have hmark : isBoundary '"' = false := by decide
  constructor
  · rintro ⟨z, hz, hzb⟩
    rcases List.mem_append.1 hz with hz | hz
    · rcases List.mem_cons.1 hz with rfl | hz
      · simp [hmark] at hzb
      · obtain ⟨c, hc, hzc⟩ := List.mem_flatMap.1 hz
        exact ⟨c, hc, (hescape c).1 ⟨z, hzc, hzb⟩⟩
    · obtain rfl : z = '"' := by simpa using hz
      simp [hmark] at hzb
  · rintro ⟨c, hc, hloose⟩
    obtain ⟨z, hz, hzb⟩ := (hescape c).2 hloose
    exact ⟨z, by simp only [quote, List.mem_append, List.mem_cons, List.mem_flatMap]
                 exact .inl (.inr ⟨c, hc, hz⟩), hzb⟩

/-- A quotation is left alone exactly if it was not indented, with nothing, or has no loose boundary. -/
theorem worn_eq_quote_iff {unit : List Char} {d : Nat} {s : String} :
    worn unit d s = quote s.toList ↔ d = 0 ∨ unit = [] ∨ ∀ c ∈ s.toList, isLoose c = false := by
  have hlast : ∀ z ∈ (quote s.toList).getLast?, isBlank z = false := by
    intro z hz
    obtain rfl : z = '"' := by simpa [getLast?_quote, eq_comm] using hz
    decide
  have hclean : (∀ c ∈ quote s.toList, isBoundary c = false) ↔ ∀ c ∈ s.toList, isLoose c = false := by
    have hboundary := mem_quote_isBoundary s.toList
    constructor
    · intro h c hc
      by_contra hloose
      obtain ⟨z, hz, hzb⟩ := hboundary.2 ⟨c, hc, by simpa using hloose⟩
      simp [h z hz] at hzb
    · intro h z hz
      by_contra hzb
      obtain ⟨c, hc, hloose⟩ := hboundary.1 ⟨z, hz, by simpa using hzb⟩
      simp [h c hc] at hloose
  rw [worn, hangTimes_eq_self_iff hlast, hclean]

theorem hang_write {unit : List Char} {token : String → List Char}
    (htoken : ∀ s, ∀ z ∈ (token s).getLast?, isBlank z = false) (ps : List Part) :
    hang unit (write token ps) = write (fun s => hang unit (token s)) ps := by
  induction ps with
  | nil => rfl
  | cons p ps ih =>
      simp only [write, List.flatMap_cons] at ih ⊢
      cases p with
      | plain cs h =>
          have hcs : ∀ c ∈ cs, isBoundary c = false := fun c hc =>
            isBoundary_of_isPlain (List.all_eq_true.1 h c hc)
          simp only [Part.write, hang_append_plain hcs, ih]
      | quoted s => simp only [Part.write, hang_append (htoken s), ih]

/-- Indentation changes nothing but the quotations. -/
theorem hangTimes_write (unit : List Char) (d : Nat) (ps : List Part) :
    (hang unit)^[d] (write (fun s => quote s.toList) ps) = write (worn unit d) ps := by
  induction d with
  | zero => rfl
  | succ d ih =>
      have hlast : ∀ s, ∀ z ∈ (worn unit d s).getLast?, isBlank z = false := by
        intro s z hz
        obtain rfl : z = '"' := by
          simpa [worn, getLast?_hangTimes, getLast?_quote, eq_comm] using hz
        decide
      have hstep : (fun s => hang unit (worn unit d s)) = worn unit (d + 1) :=
        funext fun s => (Function.iterate_succ_apply' (hang unit) d (quote s.toList)).symm
      rw [Function.iterate_succ_apply', ih, hang_write hlast, hstep]

/-- Plain ends stay as they are around the quotations. -/
theorem hangTimes_write_between {opening closing : List Char} (hopen : opening.all isPlain = true)
    (hclose : closing.all isPlain = true) (unit : List Char) (d : Nat) (ps : List Part) :
    (hang unit)^[d] (opening ++ write (fun s => quote s.toList) ps ++ closing) =
      opening ++ write (worn unit d) ps ++ closing := by
  have hwrite : ∀ token, write token (.plain opening hopen :: (ps ++ [.plain closing hclose])) =
      opening ++ write token ps ++ closing := by
    intro token
    simp [write, Part.write]
  rw [← hwrite, hangTimes_write, hwrite]

/-- The text has the given quotations, in this order, and is plain otherwise. -/
def Quotes (qs : List String) (s : String) : Prop :=
  ∃ ps, quotations ps = qs ∧ s.toList = write (fun s => quote s.toList) ps

namespace Quotes

variable {qs rs : List String} {s t : String}

theorem plain (h : s.toList.all isPlain = true) : Quotes [] s :=
  ⟨[.plain s.toList h], rfl, by simp [write, Part.write]⟩

theorem string (s : String) : Quotes [s] (Script.string s) :=
  ⟨[.quoted s], rfl, by simp [write, Part.write, Script.string]⟩

theorem append (hs : Quotes qs s) (ht : Quotes rs t) : Quotes (qs ++ rs) (s ++ t) := by
  obtain ⟨ps, rfl, hps⟩ := hs
  obtain ⟨ps', rfl, hps'⟩ := ht
  exact ⟨ps ++ ps', by simp [quotations], by simp [write_append, hps, hps']⟩

/-- A quotation takes place in a text. -/
theorem eq_nil (h : Quotes qs "") : qs = [] := by
  obtain ⟨ps, rfl, hps⟩ := h
  have hempty : ∀ p ∈ ps, Part.write (fun s => quote s.toList) p = [] :=
    List.flatMap_eq_nil_iff.1 hps.symm
  rw [quotations, List.filterMap_eq_nil_iff]
  intro p hp
  cases p with
  | plain cs h => rfl
  | quoted s => exact absurd (hempty _ hp) (List.cons_ne_nil _ _)

/-- Texts in a row with a plain separator. -/
theorem intercalate {sep : String} (hsep : sep.toList.all isPlain = true) {qss : List (List String)}
    {ss : List String} (h : List.Forall₂ Quotes qss ss) : Quotes qss.flatten (sep.intercalate ss) := by
  induction h with
  | nil => exact plain (by simp [String.intercalate])
  | @cons qs s qss ss hs hss ih =>
      cases hss with
      | nil => simpa using hs
      | @cons rs t rss ts ht hts =>
          have hrest := (hs.append (plain hsep)).append ih
          rw [String.intercalate_cons_cons]
          simpa using hrest

end Quotes

end Script

end BlockMusic
