import VotingEscrow.Basic
import VotingEscrow.State
import VotingEscrow.CheckPoint
import VotingEscrow.Delegation
import VotingEscrow.Escrow
import VotingEscrow.Query
import VotingEscrow.Contract
import VotingEscrow.Votes
import VotingEscrow.Locks
import VotingEscrow.LockChanges
import VotingEscrow.Balance
import VotingEscrow.Curve
import VotingEscrow.Guards
import VotingEscrow.Encoding
import VotingEscrow.History
import VotingEscrow.DelegateBound
import VotingEscrow.Search
import VotingEscrow.Registry
import VotingEscrow.Ledger
import VotingEscrow.Roles
import VotingEscrow.BlockQueries
