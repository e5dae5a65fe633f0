import RuleNet.Proofs.Isomorphism
import RuleNet.Proofs.Keeping
import RuleNet.Proofs.Meaning
import RuleNet.Proofs.Uniqueness
import RuleNet.Proofs.Partitions
import RuleNet.Proofs.Drafts
import RuleNet.Proofs.Scoping
import RuleNet.Proofs.Alignment
import RuleNet.Proofs.Positions
import RuleNet.Proofs.Retaining
import RuleNet.Proofs.Acceptance
import RuleNet.Proofs.Consistency
import RuleNet.Proofs.Mirroring
import RuleNet.Proofs.Sessions
import RuleNet.Proofs.Exactness
import RuleNet.Proofs.Contract
import RuleNet.Proofs.Reverting
import RuleNet.Proofs.Matchable
import RuleNet.Proofs.Repeating
import RuleNet.Proofs.Connectives
import RuleNet.Proofs.TupleMemory
import RuleNet.Proofs.Seats
import RuleNet.Proofs.Guards
import RuleNet.Proofs.Renumbering
import RuleNet.Proofs.Restoring
import RuleNet.Proofs.Warnings
import RuleNet.Proofs.Addresses
import RuleNet.Proofs.Scanning
import RuleNet.Proofs.Recycling
import RuleNet.Proofs.Demands
import RuleNet.Proofs.Opposites
import RuleNet.Proofs.Culprits
import RuleNet.Proofs.Classifying
import RuleNet.Proofs.Refusals
