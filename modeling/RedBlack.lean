import RedBlack.Command.OnLock
import RedBlack.Command.Session
import RedBlack.KeyOrder.Catalogue
import RedBlack.Proofs.Accounting
import RedBlack.Proofs.Handles
import RedBlack.Proofs.Invariants
import RedBlack.Proofs.Simulation
import RedBlack.Proofs.Bounds
import RedBlack.Proofs.Iterating
import RedBlack.Proofs.Mirroring
import RedBlack.Proofs.Endings
import RedBlack.Proofs.Questions
import RedBlack.Proofs.Safety
import RedBlack.Proofs.Containers
import RedBlack.Proofs.Faultless
import RedBlack.Proofs.Cursors
import RedBlack.Proofs.DoubleEnded
import RedBlack.Proofs.Refusals
import RedBlack.Proofs.Work
import RedBlack.Proofs.Capacity
import RedBlack.Proofs.Descents
import RedBlack.Proofs.Entries
import RedBlack.Proofs.Bulk
import RedBlack.Proofs.KeySets
import RedBlack.Proofs.Visiting
import RedBlack.Proofs.NilLinkChanges
import RedBlack.Proofs.NilLink
import RedBlack.Proofs.Reentry
import RedBlack.Proofs.Repairs
import RedBlack.Proofs.Undoing
import RedBlack.Proofs.EarlyExits
