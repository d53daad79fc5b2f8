import Mathlib.Data.List.Chain
import Mathlib.Data.List.Pairwise
import Mathlib.Tactic.Linarith

/-! # Periods that follow one another

Items with a start and, unless they still last, an end. They tile the time from
a first instant on when each ends right before the next one starts and the last
has no end; then every later instant lies in exactly one of them.
-/

namespace Timeline

variable {α : Type} (start : α → ℕ) (stop : α → Option ℕ)

def Covers (a : α) (t : ℕ) : Prop := start a ≤ t ∧ ∀ e ∈ stop a, t ≤ e

def Succeeds (a b : α) : Prop := start a < start b ∧ stop a = some (start b - 1)

/-- Items that tile the time from `first` on. -/
structure Tiles (first : ℕ) (l : List α) : Prop where
  chain : l.IsChain (Succeeds start stop)
  opens : l.head?.map start = some first
  lasts : ∀ a ∈ l.getLast?, stop a = none

variable {start stop} {first t : ℕ} {l front : List α} {a a' b : α}

theorem Tiles.singleton (hs : start a = first) (he : stop a = none) :
    Tiles start stop first [a] where
  chain := .singleton a
  opens := by simp [hs]
  lasts := by simpa using he

theorem Tiles.extend (h : Tiles start stop first (front ++ [a])) (hs : start a' = start a)
    (he : stop a' = some (start b - 1)) (hlt : start a < start b) (hb : stop b = none) :
    Tiles start stop first (front ++ [a', b]) where
  chain := by
    have hc := List.isChain_append.mp h.chain
    refine List.isChain_append.mpr ⟨hc.1, by simp [Succeeds, hs, hlt, he], ?_⟩
    intro x hx y hy
    obtain rfl : a' = y := by simpa using hy
    obtain ⟨hlt', he'⟩ := hc.2.2 x hx a (by simp)
    exact ⟨hs ▸ hlt', hs ▸ he'⟩
  opens := by
    have ho := h.opens
    cases front with
    | nil => simpa [hs] using ho
    | cons x rest => simpa using ho
  lasts := by simpa using hb

/-- Earlier items start earlier and end before a later one starts. -/
theorem Tiles.pairwise (h : Tiles start stop first l) :
    l.Pairwise fun a b => start a < start b ∧ ∃ e ∈ stop a, e < start b := by
  have htrans : IsTrans α fun a b => start a < start b ∧ ∃ e ∈ stop a, e < start b :=
    ⟨fun a b c ⟨hab, e, he, hlt⟩ ⟨hbc, _⟩ => ⟨hab.trans hbc, e, he, hlt.trans hbc⟩⟩
  refine List.isChain_iff_pairwise.mp (h.chain.imp fun a b ⟨hlt, he⟩ => ⟨hlt, _, he, ?_⟩)
  omega

theorem exists_covers (hc : l.IsChain (Succeeds start stop)) (hf : l.head?.map start = some first)
    (hl : ∀ a ∈ l.getLast?, stop a = none) (ht : first ≤ t) : ∃ a ∈ l, Covers start stop a t := by
  induction l generalizing first with
  | nil => cases hf
  | cons a rest ih =>
    obtain rfl : start a = first := by simpa using hf
    cases rest with
    | nil =>
      have hnone : stop a = none := hl a rfl
      exact ⟨a, List.mem_cons_self, ht, by simp [hnone]⟩
    | cons b rest =>
      obtain ⟨⟨hlt, he⟩, hc⟩ := List.isChain_cons_cons.mp hc
      by_cases hb : start b ≤ t
      · obtain ⟨c, hmem, hcov⟩ := ih hc rfl (by simpa using hl) hb
        exact ⟨c, List.mem_cons_of_mem _ hmem, hcov⟩
      · refine ⟨a, List.mem_cons_self, ht, fun e he' => ?_⟩
        rw [he] at he'
        obtain rfl := Option.some.inj he'
        omega

theorem Tiles.existsUnique_covers (h : Tiles start stop first l) (ht : first ≤ t) :
    ∃! a, a ∈ l ∧ Covers start stop a t := by
  obtain ⟨a, ha, hcov⟩ := exists_covers h.chain h.opens h.lasts ht
  refine ⟨a, ⟨ha, hcov⟩, fun b ⟨hb, hcov'⟩ => by_contra fun hne => ?_⟩
  -- of two items the earlier one has ended when the later one starts
  have hnot : l.Pairwise fun a b => ¬(Covers start stop a t ∧ Covers start stop b t) := by
    refine h.pairwise.imp ?_
    rintro a b ⟨-, e, he, hlt⟩ ⟨ha, hb⟩
    have := ha.2 e he
    have := hb.1
    omega
  have hsymm : Std.Symm fun a b => ¬(Covers start stop a t ∧ Covers start stop b t) :=
    ⟨fun _ _ hn hc => hn hc.symm⟩
  exact hnot.forall hb ha hne ⟨hcov', hcov⟩

end Timeline
