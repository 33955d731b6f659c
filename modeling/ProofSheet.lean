import ProofSheet.Ascending.Lemmas
import ProofSheet.Main
import ProofSheet.Proofs.Formula.Scope
import ProofSheet.Proofs.Object.Sharing
import ProofSheet.Proofs.Object.Pairing
import ProofSheet.Proofs.Object.Meaning
import ProofSheet.Proofs.Object.Congruence
import ProofSheet.Proofs.Check.InstanceSoundness
import ProofSheet.Proofs.Check.Instances
import ProofSheet.Proofs.Check.Genuine
import ProofSheet.Proofs.Check.QuantifierChange
import ProofSheet.Proofs.Check.PropositionalSoundness
import ProofSheet.Proofs.Check.Citations
import ProofSheet.Proofs.Check.Dependencies
import ProofSheet.Proofs.Labels.Relabelling
import ProofSheet.Proofs.Comments.Weaving
import ProofSheet.Proofs.Comments.Inert
import ProofSheet.Proofs.Session.Steps
import ProofSheet.Proofs.Document.ReadBack
import ProofSheet.Proofs.Solver.PlainSearch
import ProofSheet.Proofs.Solver.MorePremises
import ProofSheet.Proofs.Solver.Depth
import ProofSheet.Proofs.Labels.Refusals
import ProofSheet.Proofs.Reach.Paths
import ProofSheet.Proofs.Draft.Faults
import ProofSheet.Proofs.Solver.DoubleNegation
import ProofSheet.Proofs.Solver.Hiding
import ProofSheet.Proofs.Solver.NormalForm
import ProofSheet.Proofs.Mapping.Choices
import ProofSheet.Proofs.Check.Introduction
import ProofSheet.Proofs.Places.Access
import ProofSheet.Proofs.Places.Pairing
import ProofSheet.Proofs.Places.Search
import ProofSheet.Proofs.Check.Resolved
import ProofSheet.Proofs.Places.Checks
