import Ifrit.Wire
import Ifrit.View
import Ifrit.Rpc
import Ifrit.Node
import Ifrit.Invariants
import Ifrit.Rebuttal
import Ifrit.Interleaving
import Ifrit.GossipData
import Ifrit.Runs
import Ifrit.Ring
import Ifrit.NoteMerge
import Ifrit.Exchange
import Ifrit.Admission
import Ifrit.RebuttalSpread
import Ifrit.Schedules
import Ifrit.Batches
