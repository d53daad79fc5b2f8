import AlphaDesk.Domain.Rounding
import AlphaDesk.Simulation.Exits

/-! # Requests as they are read

A request that is read from JSON is validated, but it is not built by the constructors of
its parts: validation sorts a copy of each book and drops it. A request obeys the
constructors when they give it back as it is. Rebuilding a request forgets the order in
which the levels of its books were listed.
-/

namespace AlphaDesk

open Except Simulation BookSnapshot Decimal

def BookLevel.new (price : Price) (quantity : Quantity) : Except SimError BookLevel :=
  if qtyIsZero quantity ∨ quantity.raw < 0 then .error (.invalidRequest "book.level_quantity")
  else do
    let price ← alignPrice price
    let quantity ← alignQty quantity
    return ⟨price, quantity⟩

def PortfolioLimits.new (bankroll : UsdAmount) (participationLimitPpm : UInt32) :
    Except SimError PortfolioLimits :=
  if bankroll.raw ≤ 0 then .error (.unmodeledCost "bankroll")
  else if participationLimitPpm = 0 ∨ 1000000 < participationLimitPpm then
    .error (.unmodeledCost "participation_limit")
  else .ok ⟨bankroll, participationLimitPpm⟩

def BookLevel.rebuild (level : BookLevel) : Except SimError BookLevel :=
  BookLevel.new level.price level.quantity

/-- A book through the constructors of its levels and its own. -/
def BookSnapshot.rebuild (book : BookSnapshot) : Except SimError BookSnapshot := do
  let bids ← book.bids.mapM BookLevel.rebuild
  let asks ← book.asks.mapM BookLevel.rebuild
  new book.effectiveAt book.knownAt bids asks

namespace SimulationRequest

/-- A request through the constructors of its books and its limits. -/
def rebuild (r : SimulationRequest) : Except SimError SimulationRequest := do
  let books ← r.books.mapM BookSnapshot.rebuild
  let portfolio ← PortfolioLimits.new r.portfolio.bankroll r.portfolio.participationLimitPpm
  return { r with books := books, portfolio := portfolio }

end SimulationRequest

structure BookLevel.Constructed (level : BookLevel) : Prop where
  quantity : 0 < level.quantity.value
  price_scale : level.price.scale = priceScale
  quantity_scale : level.quantity.scale = qtyScale

namespace BookLevel

variable {level built : BookLevel}

theorem Constructed.rebuild (h : level.Constructed) : level.rebuild = .ok level := by
  have hq := value_pos_iff.mp h.quantity
  refine ite_error_eq_ok.mpr ⟨?_, bind_eq_ok.mpr ⟨level.price, ?_,
    bind_eq_ok.mpr ⟨level.quantity, ?_, rfl⟩⟩⟩
  · rw [qtyIsZero, decide_eq_true_eq]
    omega
  · exact amount_eq_ok.mpr (rescale_eq_ok_self_iff.mpr h.price_scale)
  · exact amount_eq_ok.mpr (rescale_eq_ok_self_iff.mpr h.quantity_scale)

end BookLevel

variable (R : BookLevel → BookLevel → Prop) [DecidableRel R] {levels relisted : List BookLevel}

theorem mapM_rebuild (h : ∀ level ∈ levels, level.Constructed) :
    levels.mapM BookLevel.rebuild = .ok levels :=
  mapM_eq_ok.mpr (List.forall₂_same.mpr fun level hlevel => (h level hlevel).rebuild)

/-- Sorting the levels of a side forgets how they were listed, unless two have one price. -/
theorem insertionSort_of_perm [Std.Total R] [IsTrans BookLevel R]
    (hR : ∀ a b, R a b → R b a → a.price.value = b.price.value) (hperm : relisted.Perm levels)
    (hsorted : levels.Pairwise R) (hnodup : (levels.map (·.price.value)).Nodup) :
    relisted.insertionSort R = levels := by
  have hperm' := (List.perm_insertionSort R relisted).trans hperm
  refine hperm'.eq_of_pairwise ?_ (List.pairwise_insertionSort R relisted) hsorted
  intro a b ha hb hab hba
  exact List.inj_on_of_nodup_map hnodup (hperm'.mem_iff.mp ha) hb (hR a b hab hba)

abbrev falls (a b : BookLevel) : Prop := b.price.numLe a.price = true

abbrev rises (a b : BookLevel) : Prop := a.price.numLe b.price = true

instance : Std.Total falls where
  total a b := by
    simp only [falls, numLe_iff]
    exact le_total _ _

instance : Std.Total rises where
  total a b := by
    simp only [rises, numLe_iff]
    exact le_total _ _

instance : IsTrans BookLevel falls where
  trans a b c := by
    simp only [falls, numLe_iff]
    exact fun hab hbc => hbc.trans hab

instance : IsTrans BookLevel rises where
  trans a b c := by
    simp only [rises, numLe_iff]
    exact le_trans

namespace BookSnapshot

variable {book built : BookSnapshot}

structure Constructed (book : BookSnapshot) : Prop where
  bids_sorted : book.bids.Pairwise falls
  asks_sorted : book.asks.Pairwise rises
  bids : ∀ level ∈ book.bids, level.Constructed
  asks : ∀ level ∈ book.asks, level.Constructed

/-- The same book with its levels in another order. -/
structure Relisted (book relisted : BookSnapshot) : Prop where
  effectiveAt : relisted.effectiveAt = book.effectiveAt
  knownAt : relisted.knownAt = book.knownAt
  bids : relisted.bids.Perm book.bids
  asks : relisted.asks.Perm book.asks

def DistinctPrices (book : BookSnapshot) : Prop :=
  (book.bids.map (·.price.value)).Nodup ∧ (book.asks.map (·.price.value)).Nodup

theorem Relisted.rebuild {relisted : BookSnapshot} (h : book.Relisted relisted)
    (hbook : book.rebuild = .ok book) (hc : book.Constructed) (hd : book.DistinctPrices) :
    relisted.rebuild = .ok book := by
  have hnew : new book.effectiveAt book.knownAt book.bids book.asks = .ok book := by
    rw [BookSnapshot.rebuild, mapM_rebuild hc.bids, mapM_rebuild hc.asks] at hbook
    exact hbook
  have hbids : relisted.bids.insertionSort falls = book.bids :=
    insertionSort_of_perm falls (fun a b hab hba => le_antisymm (numLe_iff.mp hba)
      (numLe_iff.mp hab)) h.bids hc.bids_sorted hd.1
  have hasks : relisted.asks.insertionSort rises = book.asks :=
    insertionSort_of_perm rises (fun a b hab hba => le_antisymm (numLe_iff.mp hab)
      (numLe_iff.mp hba)) h.asks hc.asks_sorted hd.2
  rw [BookSnapshot.rebuild, mapM_rebuild fun l hl => hc.bids l (h.bids.mem_iff.mp hl),
    mapM_rebuild fun l hl => hc.asks l (h.asks.mem_iff.mp hl)]
  -- the constructor sees the levels only after it has sorted them
  rw [new, hc.bids_sorted.insertionSort_eq, hc.asks_sorted.insertionSort_eq] at hnew
  rw [ok_bind, ok_bind, new, hbids, hasks, h.effectiveAt, h.knownAt]
  exact hnew

end BookSnapshot

namespace SimulationRequest

variable {r : SimulationRequest} {parse : List UInt8 → Option SimulationRequest}
  {bytes : List UInt8}

structure Constructed (r : SimulationRequest) : Prop where
  books : ∀ book ∈ r.books, book.Constructed
  bankroll : 0 < r.portfolio.bankroll.value
  participation : 0 < r.portfolio.participationLimitPpm.toNat ∧
    r.portfolio.participationLimitPpm.toNat ≤ 1000000

/-- The same request with the levels of its books in another order. -/
def Relisted (r relisted : SimulationRequest) : Prop :=
  ∃ books, relisted = { r with books := books } ∧
    List.Forall₂ BookSnapshot.Relisted r.books books

variable (B : Blake3) (encode : List SimulationEvent → List UInt8)

end SimulationRequest

end AlphaDesk
