import Custody.Proofs.Ledger.Acyclic
import Custody.Proofs.Ledger.Ancestors
import Custody.Proofs.Ledger.LockIndex
import Custody.Proofs.Ledger.Order
import Custody.Proofs.Ledger.Provenance
import Custody.Proofs.Network.Acceptance
import Custody.Proofs.Network.Agreement
import Custody.Proofs.Node.Approval
import Custody.Proofs.Node.Blobs
import Custody.Proofs.Node.Handover
import Custody.Proofs.Node.Session
import Custody.Proofs.Operation.Originals
import Custody.Proofs.Roster
import Custody.Proofs.Roster.Sessions
import Custody.Proofs.Rules.Authority
import Custody.Proofs.Rules.InputNotary
import Custody.Proofs.Session.Frame
import Custody.Proofs.Transaction.Canonical
import Custody.Session.Channel
import Custody.Settings.File
