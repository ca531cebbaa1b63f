import BlockMusic.Block.Basic

/-!
# Registries of blocks

A registry holds the blocks of a library in the order in which their kinds were first added. A kind
is registered once: adding it again replaces the block and keeps its place.
-/

namespace BlockMusic

/-- Puts a block in the place of the one of its kind, or at the end. -/
def Block.putInto (b : Block) : List Block → List Block
  | [] => [b]
  | c :: bs => if c.kind = b.kind then b :: bs else c :: b.putInto bs

@[simp] theorem Block.putInto_nil (b : Block) : b.putInto [] = [b] := rfl

/-- The kinds stay as they are, or the new one comes last. -/
theorem Block.map_kind_putInto (b : Block) (bs : List Block) :
    (b.putInto bs).map Block.kind =
      if b.kind ∈ bs.map Block.kind then bs.map Block.kind else bs.map Block.kind ++ [b.kind] := by
  induction bs with
  | nil => rfl
  | cons c bs ih =>
      by_cases h : c.kind = b.kind
      · simp [putInto, h]
      · have h' : ¬ b.kind = c.kind := fun e => h e.symm
        simp only [putInto, if_neg h, List.map_cons, ih, List.mem_cons, h', false_or]
        split <;> rfl

/-- The blocks of a library, one of a kind. -/
structure Registry where
  blocks : List Block
  nodup : (blocks.map Block.kind).Nodup

namespace Registry

def empty : Registry := ⟨[], List.nodup_nil⟩

/-- Adds a block, in the place of the one of its kind if there is one. -/
def add (r : Registry) (b : Block) : Registry where
  blocks := b.putInto r.blocks
  nodup := by
    rw [Block.map_kind_putInto]
    split
    · exact r.nodup
    · rename_i h
      refine List.nodup_append.2 ⟨r.nodup, by simp, ?_⟩
      intro x hx y hy e
      rw [List.mem_singleton] at hy
      exact h (hy ▸ e ▸ hx)

/-- The registry of a list of blocks, where a later one of a kind replaces an earlier one. -/
def ofList (bs : List Block) : Registry := bs.foldl add empty

def kinds (r : Registry) : List String := r.blocks.map Block.kind

/-- The block of a kind. -/
def get? (r : Registry) (kind : String) : Option Block :=
  r.blocks.find? fun b => b.kind = kind

/-- The order of a listing: by category, then by kind. -/
def listedBefore (a b : Block) : Bool :=
  a.category < b.category || (a.category = b.category && !(b.kind < a.kind))

/-- The blocks of a category, or all of them, in the order of a listing. The empty category stands
for all. -/
def list (r : Registry) (category : Option String) : List Block :=
  let chosen := match category with
    | none => r.blocks
    | some c => if c = "" then r.blocks else r.blocks.filter fun b => b.category = c
  chosen.mergeSort listedBefore

/-- Every text once, in the place of its last occurrence. -/
def distinct : List String → List String
  | [] => []
  | s :: ss => if s ∈ ss then distinct ss else s :: distinct ss

/-- The categories in order, each with the number of its blocks. -/
def categories (r : Registry) : List (String × Nat) :=
  let names := (distinct (r.blocks.map Block.category)).mergeSort fun a b => !(b < a)
  names.map fun c => (c, r.blocks.countP fun b => b.category = c)

end Registry

end BlockMusic
