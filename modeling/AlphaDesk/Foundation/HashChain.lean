import Mathlib.Data.List.Chain

/-! # Chains of hashes

A link names the hash it starts from, if it is not the first, and the hash it
leads to. Links are chained when each starts where the one before it leads to.
-/

namespace HashChain

/-- Links chained from nothing to a last hash, which is none as long as there are no links. -/
structure Chained {L H : Type} (prior result : L → Option H) (links : List L)
    (tip : Option H) : Prop where
  first : ∀ l ∈ links.head?, prior l = none
  next : links.IsChain fun l l' => prior l' = result l
  last : links.getLast?.bind result = tip

namespace Chained

variable {L H : Type} {prior result : L → Option H} {links : List L} {tip : Option H} {l : L}

theorem nil : Chained prior result [] none := ⟨by simp, .nil, rfl⟩

theorem concat (h : Chained prior result links tip) (hl : prior l = tip) :
    Chained prior result (links ++ [l]) (result l) where
  first := by
    cases links with
    | nil => simpa [hl] using h.last.symm
    | cons a rest => simpa using h.first
  next := by
    rw [List.isChain_append]
    refine ⟨h.next, .singleton l, ?_⟩
    intro a ha b hb
    obtain rfl : l = b := by simpa using hb
    rw [hl, ← h.last, Option.mem_def.mp ha]
    rfl
  last := by simp

end Chained

end HashChain
