import BlockMusic.Block.Catalogue
import BlockMusic.Block.Document
import BlockMusic.Proofs.Run
import BlockMusic.Proofs.WellFormedDocuments
import Mathlib.Algebra.GroupWithZero.Nat
import Mathlib.Data.List.Sort
import Mathlib.Data.Prod.Lex
import Mathlib.Data.String.Basic

/-!
# The categories of a registry

A listing is ordered by category, and inside a category by kind. Kinds are registered once, so the
order is strict and fixes the listing by what it holds. The listings of the categories, one behind the
other, hold the same blocks in the same order as the listing of all, and a block is counted where it
is listed.

The empty category asks for all blocks, so it must not be the category of a block; a document with
such a block is not accepted.
-/

namespace BlockMusic

/-- Sorting by a key that no two share puts the keys in strict order. -/
theorem pairwise_mergeSort_lt {α κ : Type} [LinearOrder κ] {before : α → α → Bool} (key : α → κ)
    (hbefore : ∀ a b, before a b = true ↔ key a ≤ key b) {as : List α} (hkeys : (as.map key).Nodup) :
    (as.mergeSort before).Pairwise fun a b => key a < key b := by
  have hdistinct : (as.mergeSort before).Pairwise fun a b => key a ≠ key b := by
    rw [← List.pairwise_map]
    exact ((List.mergeSort_perm as before).map key).nodup_iff.2 hkeys
  exact (pairwise_mergeSort_le key fun a _ b _ => hbefore a b).imp₂ (fun a b => lt_of_le_of_ne) hdistinct

/-- A list in strict order is fixed by what it holds. -/
theorem eq_of_pairwise_lt {α κ : Type} [LinearOrder κ] (key : α → κ) {as bs : List α}
    (has : as.Pairwise fun a b => key a < key b) (hbs : bs.Pairwise fun a b => key a < key b)
    (h : ∀ a, a ∈ as ↔ a ∈ bs) : as = bs := by
  have : Std.Irrefl fun a b : α => key a < key b := ⟨fun a => lt_irrefl (key a)⟩
  have : Std.Antisymm fun a b : α => key a < key b := ⟨fun _ _ hab hba => absurd hba (lt_asymm hab)⟩
  exact has.eq_of_mem_iff hbs h

namespace Block

/-- What orders the blocks of a listing: the category, then the kind. -/
def listingKey (b : Block) : String ×ₗ String := toLex (b.category, b.kind)

/-- The first block stands above the second in every listing that holds both. -/
def ListedAbove (a b : Block) : Prop := a.listingKey < b.listingKey

theorem listedAbove_iff {a b : Block} :
    a.ListedAbove b ↔ a.category < b.category ∨ a.category = b.category ∧ a.kind < b.kind :=
  Prod.Lex.toLex_lt_toLex

/-- Every block that is read has a category. -/
theorem yields_category : Schema.Yields Block.schema fun b => b.category ≠ "" := by
  refine .record fun origin j b h => ?_
  simp only [Validated.seq_eq_valid, Validated.map_eq_valid] at h
  obtain ⟨_, _, ⟨_, _, ⟨_, _, ⟨_, _, ⟨_, _, ⟨_, _, ⟨_, _, ⟨_, _, ⟨_, _, ⟨_, _, ⟨_, _, ⟨_, _, ⟨_, -, rfl⟩,
    hcategory, rfl⟩, -, rfl⟩, -, rfl⟩, -, rfl⟩, -, rfl⟩, -, rfl⟩, -, rfl⟩, -, rfl⟩, -, rfl⟩, -, rfl⟩, -,
    rfl⟩, -, rfl⟩ := h
  obtain ⟨_, -, hread⟩ := Schema.field_eq_valid.1 hcategory
  exact (Schema.nonEmptyText_eq_valid.1 hread).2

end Block

namespace Registry

variable {bs : List Block} {b : Block} {r : Registry} {c : String}

/-! ## Registered blocks -/

@[simp] theorem ofList_append_singleton (bs : List Block) (b : Block) :
    ofList (bs ++ [b]) = (ofList bs).add b := by
  simp [ofList]

/-- Kinds stand in the order in which they were first added. -/
theorem kinds_ofList (bs : List Block) : (ofList bs).kinds = (bs.map Block.kind).eraseDups := by
  induction bs using List.reverseRecOn with
  | nil => rfl
  | append_singleton bs b ih =>
      have hmem : b.kind ∈ (ofList bs).kinds ↔ b.kind ∈ bs.map Block.kind := by
        rw [ih, List.mem_eraseDups]
      rw [kinds] at ih hmem
      rw [ofList_append_singleton, kinds, add, Block.map_kind_putInto, List.map_append,
        List.eraseDups_append, ← ih]
      simp only [hmem]
      by_cases hb : b.kind ∈ bs.map Block.kind
      · have hnone : ([b].map Block.kind).removeAll (bs.map Block.kind) = [] := by
          simpa [List.removeAll] using hb
        rw [if_pos hb, hnone, List.eraseDups_nil, List.append_nil]
      · have hone : ([b].map Block.kind).removeAll (bs.map Block.kind) = [b.kind] := by
          simpa [List.removeAll] using hb
        rw [if_neg hb, hone]
        rfl

theorem find?_putInto (b : Block) (bs : List Block) (kind : String) :
    (b.putInto bs).find? (fun a => a.kind = kind) =
      if b.kind = kind then some b else bs.find? fun a => a.kind = kind := by
  induction bs with
  | nil => by_cases hb : b.kind = kind <;> simp [Block.putInto, hb]
  | cons a bs ih =>
      rw [Block.putInto]
      split
      · rename_i ha
        by_cases hb : b.kind = kind <;> simp [hb, ha]
      · rename_i ha
        rw [List.find?_cons, List.find?_cons, ih]
        by_cases hkind : a.kind = kind
        · have hb : ¬ b.kind = kind := fun hb => ha (hkind.trans hb.symm)
          simp [hkind, hb]
        · simp [hkind]

/-- Of the blocks of a kind the last one counts. -/
theorem get?_ofList (bs : List Block) (kind : String) :
    (ofList bs).get? kind = bs.reverse.find? fun b => b.kind = kind := by
  induction bs using List.reverseRecOn with
  | nil => rfl
  | append_singleton bs b ih =>
      rw [get?] at ih
      rw [ofList_append_singleton, get?, add, find?_putInto, ih, List.reverse_append,
        List.reverse_singleton, List.singleton_append, List.find?_cons]
      by_cases hb : b.kind = kind <;> simp [hb]

theorem mem_blocks_iff : b ∈ r.blocks ↔ r.get? b.kind = some b :=
  ⟨find?_of_nodup_map r.nodup, mem_of_get?⟩

theorem mem_of_mem_ofList (h : b ∈ (ofList bs).blocks) : b ∈ bs := by
  rw [mem_blocks_iff, get?_ofList] at h
  exact List.mem_reverse.1 (List.mem_of_find?_eq_some h)

/-! ## Listings -/

theorem listedBefore_iff {a b : Block} :
    listedBefore a b = true ↔ a.listingKey ≤ b.listingKey := by
  simp [listedBefore, Block.listingKey, Prod.Lex.toLex_le_toLex, -String.lt_iff_ltb]

theorem nodup_listingKeys (h : (bs.map Block.kind).Nodup) : (bs.map Block.listingKey).Nodup := by
  apply List.Nodup.of_map fun k => (ofLex k).2
  rw [List.map_map]
  exact h

/-- The blocks of which a listing is made. -/
def chosen (r : Registry) : Option String → List Block
  | none => r.blocks
  | some c => if c = "" then r.blocks else r.blocks.filter fun b => b.category = c

theorem list_eq (r : Registry) (category : Option String) :
    r.list category = (r.chosen category).mergeSort listedBefore := by
  cases category <;> rfl

theorem chosen_sublist (r : Registry) (category : Option String) :
    (r.chosen category).Sublist r.blocks := by
  cases category with
  | none => exact List.Sublist.refl _
  | some c =>
      rw [chosen]
      split
      · exact List.Sublist.refl _
      · exact List.filter_sublist

/-- Every listing is in strict order. -/
theorem pairwise_list (r : Registry) (category : Option String) :
    (r.list category).Pairwise Block.ListedAbove := by
  have hkinds : ((r.chosen category).map Block.kind).Nodup :=
    r.nodup.sublist ((chosen_sublist r category).map Block.kind)
  rw [list_eq]
  exact pairwise_mergeSort_lt Block.listingKey (fun _ _ => listedBefore_iff) (nodup_listingKeys hkinds)

theorem list_none_perm (r : Registry) : (r.list none).Perm r.blocks := List.mergeSort_perm _ _

theorem list_some_perm (hc : c ≠ "") (r : Registry) :
    (r.list (some c)).Perm (r.blocks.filter fun b => b.category = c) := by
  rw [list_eq, chosen, if_neg hc]
  exact List.mergeSort_perm _ _

theorem mem_list_some (hc : c ≠ "") : b ∈ r.list (some c) ↔ b ∈ r.blocks ∧ b.category = c := by
  rw [(list_some_perm hc r).mem_iff, List.mem_filter, decide_eq_true_eq]

theorem length_list_some (hc : c ≠ "") :
    (r.list (some c)).length = r.blocks.countP fun b => b.category = c := by
  rw [(list_some_perm hc r).length_eq, List.countP_eq_length_filter]

/-! ## Counts -/

/-- The entries are the positive values of `count`, each in its place once. -/
structure Counts (count : String → Nat) (es : List (String × Nat)) : Prop where
  nodup : (es.map Prod.fst).Nodup
  mem_iff : ∀ e, e ∈ es ↔ 0 < e.2 ∧ e.2 = count e.1

theorem Counts.mem_map_fst {count : String → Nat} {es : List (String × Nat)} (h : Counts count es) :
    c ∈ es.map Prod.fst ↔ 0 < count c := by
  rw [List.mem_map]
  constructor
  · rintro ⟨e, he, rfl⟩
    obtain ⟨hpos, hcount⟩ := (h.mem_iff e).1 he
    exact hcount ▸ hpos
  · exact fun hpos => ⟨(c, count c), (h.mem_iff _).2 ⟨hpos, rfl⟩, rfl⟩

/-- How many of the blocks are in the category. -/
def population (bs : List Block) (c : String) : Nat := bs.countP fun b => b.category = c

theorem population_pos : 0 < population bs c ↔ ∃ b ∈ bs, b.category = c := by
  simp [population, List.countP_pos_iff]

theorem mem_distinct {ss : List String} : c ∈ distinct ss ↔ c ∈ ss := by
  induction ss with
  | nil => rfl
  | cons s ss ih =>
      rw [distinct]
      split
      · rename_i hs
        rw [ih, List.mem_cons]
        exact ⟨.inr, fun h => h.elim (fun hc => hc ▸ hs) id⟩
      · rw [List.mem_cons, List.mem_cons, ih]

theorem nodup_distinct (ss : List String) : (distinct ss).Nodup := by
  induction ss with
  | nil => exact List.nodup_nil
  | cons s ss ih =>
      rw [distinct]
      split
      · exact ih
      · rename_i hs
        exact List.nodup_cons.2 ⟨mt mem_distinct.1 hs, ih⟩

/-- The categories stand in strict order. -/
theorem pairwise_categories (r : Registry) : r.categories.Pairwise fun d e => d.1 < e.1 := by
  rw [categories, List.pairwise_map]
  refine pairwise_mergeSort_lt id ?_ (by simpa using nodup_distinct _)
  simp [-String.lt_iff_ltb]

theorem counts_categories (r : Registry) : Counts (population r.blocks) r.categories where
  nodup := by
    rw [List.Nodup, List.pairwise_map]
    exact (pairwise_categories r).imp ne_of_lt
  mem_iff := by
    rintro ⟨c, n⟩
    have hname : c ∈ distinct (r.blocks.map Block.category) ↔ 0 < population r.blocks c := by
      rw [mem_distinct, List.mem_map, population_pos]
    simp only [categories, List.mem_map, List.mem_mergeSort, Prod.mk.injEq]
    constructor
    · rintro ⟨_, hc, rfl, rfl⟩
      exact ⟨hname.1 hc, rfl⟩
    · rintro ⟨hpos, hcount⟩
      exact ⟨c, hname.2 (hcount ▸ hpos), rfl, hcount.symm⟩

/-! ## Counting one by one -/

/-- The counts with one more for `c`. -/
def countMore (c : String) : List (String × Nat) → List (String × Nat)
  | [] => [(c, 1)]
  | e :: es => if e.1 = c then (c, e.2 + 1) :: es else e :: countMore c es

/-- The blocks counted one by one under their categories. -/
def tally (bs : List Block) : List (String × Nat) :=
  bs.foldl (fun counts b => countMore b.category counts) []

@[simp] theorem tally_append_singleton (bs : List Block) (b : Block) :
    tally (bs ++ [b]) = countMore b.category (tally bs) := by
  simp [tally]

theorem map_fst_countMore (c : String) (es : List (String × Nat)) :
    (countMore c es).map Prod.fst =
      if c ∈ es.map Prod.fst then es.map Prod.fst else es.map Prod.fst ++ [c] := by
  induction es with
  | nil => rfl
  | cons e es ih =>
      rw [countMore]
      by_cases he : e.1 = c
      · simp [he]
      · have hc : ¬ c = e.1 := fun h => he h.symm
        simp only [if_neg he, List.map_cons, ih, List.mem_cons, hc, false_or]
        split <;> rfl

/-- One more for `c`, and every other count as it was. -/
theorem mem_countMore {es : List (String × Nat)} (h : (es.map Prod.fst).Nodup) {e : String × Nat} :
    e ∈ countMore c es ↔
      if e.1 = c then e.2 = 1 ∧ c ∉ es.map Prod.fst ∨ ∃ n, (c, n) ∈ es ∧ e.2 = n + 1 else e ∈ es := by
  obtain ⟨x, n⟩ := e
  induction es with
  | nil => by_cases hx : x = c <;> simp [countMore, hx]
  | cons d es ih =>
      obtain ⟨y, m⟩ := d
      obtain ⟨hy, hrest⟩ := List.nodup_cons.1 h
      by_cases hyc : y = c
      · subst hyc
        have hfresh : ∀ k, (y, k) ∉ es := fun k hk =>
          hy (List.mem_map.2 ⟨(y, k), hk, rfl⟩)
        by_cases hx : x = y
        · subst hx
          simp [countMore, hfresh]
        · simp [countMore, hx]
      · have hcy : ¬ c = y := fun hc => hyc hc.symm
        have htail := ih hrest
        by_cases hx : x = c
        · subst hx
          simpa [countMore, hyc, hcy] using htail
        · simp only [hx, if_false] at htail ⊢
          simp [countMore, hyc, htail]

theorem Counts.countMore {count : String → Nat} {es : List (String × Nat)} (h : Counts count es) :
    Counts (fun x => count x + if x = c then 1 else 0) (countMore c es) where
  nodup := by
    rw [map_fst_countMore]
    split
    · exact h.nodup
    · rename_i hc
      exact List.nodup_append_comm.1 (List.nodup_cons.2 ⟨hc, h.nodup⟩)
  mem_iff := by
    rintro ⟨x, n⟩
    rw [mem_countMore h.nodup, h.mem_map_fst]
    by_cases hx : x = c
    · subst hx
      simp only [if_true, h.mem_iff]
      constructor
      · rintro (⟨rfl, hzero⟩ | ⟨m, ⟨-, rfl⟩, rfl⟩) <;> omega
      · intro hn
        by_cases hzero : 0 < count x
        · exact .inr ⟨count x, ⟨hzero, rfl⟩, hn.2⟩
        · exact .inl ⟨by omega, hzero⟩
    · simp only [hx, if_false, h.mem_iff, Nat.add_zero]

theorem counts_tally (bs : List Block) : Counts (population bs) (tally bs) := by
  induction bs using List.reverseRecOn with
  | nil => exact ⟨List.nodup_nil, fun e => by simp [tally, population]; omega⟩
  | append_singleton bs b ih =>
      have hmore : population (bs ++ [b]) = fun x => population bs x + if x = b.category then 1 else 0 := by
        funext x
        simp [population, List.countP_append, List.countP_singleton, eq_comm]
      rw [tally_append_singleton, hmore]
      exact ih.countMore

/-- The categories are what counting the blocks one by one gives, in order. -/
theorem categories_eq_tally (r : Registry) :
    r.categories = (tally r.blocks).mergeSort fun d e => !(e.1 < d.1) := by
  have hsorted : ((tally r.blocks).mergeSort fun d e => !(e.1 < d.1)).Pairwise fun d e => d.1 < e.1 :=
    pairwise_mergeSort_lt Prod.fst (by simp [-String.lt_iff_ltb]) (counts_tally r.blocks).nodup
  refine eq_of_pairwise_lt Prod.fst (pairwise_categories r) hsorted fun e => ?_
  rw [List.mem_mergeSort, (counts_categories r).mem_iff, (counts_tally r.blocks).mem_iff]

/-! ## Listings under categories -/

section Categorised

variable (h : ∀ b ∈ r.blocks, b.category ≠ "")

include h

theorem ne_empty_of_mem_categories {e : String × Nat} (he : e ∈ r.categories) : e.1 ≠ "" := by
  have hmem : e.1 ∈ r.categories.map Prod.fst := List.mem_map_of_mem he
  obtain ⟨b, hb, hc⟩ := population_pos.1 ((counts_categories r).mem_map_fst.1 hmem)
  exact hc ▸ h b hb

/-- The listings of the categories, one behind the other, are in strict order. -/
theorem pairwise_flatMap_list :
    (r.categories.flatMap fun e => r.list (some e.1)).Pairwise Block.ListedAbove := by
  rw [List.pairwise_flatMap]
  refine ⟨fun e _ => pairwise_list r (some e.1), ?_⟩
  refine (pairwise_categories r).imp_of_mem fun {d e} hd he hlt a ha b hb => ?_
  have hcategory : a.category = d.1 := ((mem_list_some (ne_empty_of_mem_categories h hd)).1 ha).2
  have hcategory' : b.category = e.1 := ((mem_list_some (ne_empty_of_mem_categories h he)).1 hb).2
  exact Block.listedAbove_iff.2 (.inl (hcategory ▸ hcategory' ▸ hlt))

theorem flatMap_list_eq : (r.categories.flatMap fun e => r.list (some e.1)) = r.list none := by
  refine eq_of_pairwise_lt Block.listingKey (pairwise_flatMap_list h) (pairwise_list r none) fun b => ?_
  rw [List.mem_flatMap, (list_none_perm r).mem_iff]
  constructor
  · rintro ⟨e, he, hb⟩
    exact ((mem_list_some (ne_empty_of_mem_categories h he)).1 hb).1
  · intro hb
    have hpos : 0 < population r.blocks b.category := population_pos.2 ⟨b, hb, rfl⟩
    exact ⟨(b.category, _), ((counts_categories r).mem_iff _).2 ⟨hpos, rfl⟩,
      (mem_list_some (h b hb)).2 ⟨hb, rfl⟩⟩

theorem count_eq_length_list {e : String × Nat} (he : e ∈ r.categories) :
    e.2 = (r.list (some e.1)).length := by
  rw [length_list_some (ne_empty_of_mem_categories h he)]
  exact (((counts_categories r).mem_iff e).1 he).2

theorem sum_counts : (r.categories.map Prod.snd).sum = r.blocks.length := by
  have hcounts : r.categories.map Prod.snd = r.categories.map fun e => (r.list (some e.1)).length :=
    List.map_congr_left fun e he => count_eq_length_list h he
  rw [hcounts, ← List.length_flatMap, flatMap_list_eq h, (list_none_perm r).length_eq]

end Categorised

theorem list_some_eq_nil (hc : c ≠ "") (hmem : c ∉ r.categories.map Prod.fst) :
    r.list (some c) = [] := by
  rw [(counts_categories r).mem_map_fst, population_pos] at hmem
  rw [List.eq_nil_iff_forall_not_mem]
  intro b hb
  obtain ⟨hblock, hcategory⟩ := (mem_list_some hc).1 hb
  exact hmem ⟨b, hblock, hcategory⟩

/-- The listing is split up by the categories. -/
structure Partitioned (r : Registry) : Prop where
  ascending : (r.list none).Pairwise fun a b =>
    a.category < b.category ∨ a.category = b.category ∧ a.kind < b.kind
  once : ∀ kind, ((r.list none).map Block.kind).count kind = if kind ∈ r.kinds then 1 else 0
  registered : ∀ b, b ∈ r.list none ↔ r.get? b.kind = some b
  concatenated : (r.categories.flatMap fun e => r.list (some e.1)) = r.list none
  counted : ∀ e ∈ r.categories, e.2 = (r.list (some e.1)).length ∧ 0 < e.2
  total : (r.categories.map Prod.snd).sum = r.kinds.length
  elsewhere : ∀ c, c ≠ "" → c ∉ r.categories.map Prod.fst → r.list (some c) = []

/-- In the registry of a list of blocks the kinds stand where they were first added, each with the block
that was added last. The categories, which are what counting the blocks one by one gives, split up its
listing. Every block has to have a category, as those that are read do. -/
theorem listing_partitioned_by_category {bs : List Block} (hbs : ∀ b ∈ bs, b.category ≠ "") :
    (ofList bs).kinds = (bs.map Block.kind).eraseDups ∧
      (∀ kind, (ofList bs).get? kind = bs.reverse.find? fun b => b.kind = kind) ∧
      (ofList bs).categories = (tally (ofList bs).blocks).mergeSort (fun d e => !(e.1 < d.1)) ∧
      (ofList bs).Partitioned := by
  have h : ∀ b ∈ (ofList bs).blocks, b.category ≠ "" := fun b hb => hbs b (mem_of_mem_ofList hb)
  refine ⟨kinds_ofList bs, get?_ofList bs, categories_eq_tally _, ?_⟩
  have hperm := list_none_perm (ofList bs)
  constructor
  case ascending => exact (pairwise_list _ none).imp Block.listedAbove_iff.1
  case once =>
    intro kind
    rw [(hperm.map Block.kind).count_eq]
    exact (ofList bs).nodup.count
  case registered => exact fun b => hperm.mem_iff.trans mem_blocks_iff
  case concatenated => exact flatMap_list_eq h
  case counted =>
    exact fun e he => ⟨count_eq_length_list h he, (((counts_categories _).mem_iff e).1 he).1⟩
  case total => rw [sum_counts h, kinds, List.length_map]
  case elsewhere => exact fun c => list_some_eq_nil

/-- A document with a block that takes the place of a built-in one, in a category of its own. -/
def sleepingCue : Json := .obj [("kind", .str "cue"), ("category", .str "rests")]

theorem sleepingCue_partitioned : ∃ b, Block.schema .value sleepingCue = .valid b ∧
    (∀ a ∈ Catalogue.blocks ++ [b], a.category ≠ "") ∧ (builtin [b]).get? "cue" = some b ∧
    (builtin [b]).Partitioned := by
  have hread : Block.schema .value sleepingCue = .valid { kind := "cue", category := "rests" } := rfl
  have hcategory : ∀ a ∈ Catalogue.blocks ++ [{ kind := "cue", category := "rests" }],
      a.category ≠ "" := by
    intro a ha
    rcases List.mem_append.1 ha with ha | ha
    · have hall : Catalogue.blocks.all (fun b => b.category ≠ "") = true := by decide
      simpa using List.all_eq_true.1 hall a ha
    · rw [List.mem_singleton.1 ha]
      exact Block.yields_category _ _ _ hread
  obtain ⟨-, hget, -, hparts⟩ := listing_partitioned_by_category hcategory
  exact ⟨_, hread, hcategory, (hget "cue").trans (by simp), hparts⟩

end Registry

end BlockMusic
