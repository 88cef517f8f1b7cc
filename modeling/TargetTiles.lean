import TargetTiles.Table
import TargetTiles.Wire.Checkpoint
import TargetTiles.Wire.Compact
import TargetTiles.Wire.Document
import TargetTiles.Wire.Round
import TargetTiles.Proofs.Dealing
import TargetTiles.Proofs.Pools
import TargetTiles.Proofs.Choices
import TargetTiles.Proofs.Dealability
import TargetTiles.Proofs.Fairness
import TargetTiles.Proofs.Orders
import TargetTiles.Proofs.Chances
import TargetTiles.Proofs.Playing
import TargetTiles.Proofs.Requests
import TargetTiles.Proofs.Soundness
import TargetTiles.Proofs.Acceptance
import TargetTiles.Proofs.Restoring
import TargetTiles.Proofs.Replaying
import TargetTiles.Proofs.Sources
import TargetTiles.Proofs.Snapshots
import TargetTiles.Proofs.SlotOrder
import TargetTiles.Proofs.Evaluating
import TargetTiles.Proofs.Expressions
import TargetTiles.Proofs.Fates
import TargetTiles.Proofs.Skipping
import TargetTiles.Proofs.Offering
import TargetTiles.Proofs.Histories
import TargetTiles.Proofs.TakingBack
import TargetTiles.Proofs.Resuming
import TargetTiles.Proofs.Branching
import TargetTiles.Proofs.Warnings
import TargetTiles.Proofs.Lines
import TargetTiles.Proofs.Locality
import TargetTiles.Proofs.Lookup
import TargetTiles.Proofs.Floats
import TargetTiles.Proofs.Rounding
import TargetTiles.Proofs.ExactHits
