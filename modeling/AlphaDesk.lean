import AlphaDesk.Book.Invariant
import AlphaDesk.Capture.BudgetRuns
import AlphaDesk.Capture.Committed
import AlphaDesk.Capture.Repetition
import AlphaDesk.Consumer.Redelivery
import AlphaDesk.Consumer.Transport
import AlphaDesk.Events.Merge
import AlphaDesk.Features.Window
import AlphaDesk.Graph.Membership
import AlphaDesk.Ledger.Delta
import AlphaDesk.Ledger.Tracker
import AlphaDesk.Market.Cascade
import AlphaDesk.Reducers.StateRuns
import AlphaDesk.Replay.Fold
import AlphaDesk.Research.Placement
import AlphaDesk.Sequencer.Lanes
import AlphaDesk.Sequencer.Order
import AlphaDesk.Simulation.Intake
import AlphaDesk.Simulation.Knowledge
import AlphaDesk.Simulation.Limits
import AlphaDesk.Spool.Writer
import AlphaDesk.Store.History
import AlphaDesk.Wallet.Arithmetic
import AlphaDesk.Wallet.Exactness
