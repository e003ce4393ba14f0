import SharedWatch.Connection.Script
import SharedWatch.Main
import SharedWatch.Proofs.Adapter
import SharedWatch.Proofs.Cancellation
import SharedWatch.Proofs.Coverage
import SharedWatch.Proofs.Delivery
import SharedWatch.Proofs.Ending
import SharedWatch.Proofs.Filtered
import SharedWatch.Proofs.Fold
import SharedWatch.Proofs.Isolation
import SharedWatch.Proofs.Kinds
import SharedWatch.Proofs.Office
import SharedWatch.Proofs.Pauses
import SharedWatch.Proofs.Progress
import SharedWatch.Proofs.Refusals
import SharedWatch.Proofs.Resumption
import SharedWatch.Proofs.Resync
import SharedWatch.Proofs.Selector
import SharedWatch.Proofs.WireText
import SharedWatch.Proofs.World
import SharedWatch.Proofs.Numeral
import SharedWatch.Proofs.Offers
import SharedWatch.Proofs.Keys
import SharedWatch.Proofs.Layers
import SharedWatch.Proofs.Members
import SharedWatch.Proofs.Reshaping
