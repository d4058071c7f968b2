import ArtifactGraph.Plan
import ArtifactGraph.Proofs.Collisions
import ArtifactGraph.Proofs.Strategies
import ArtifactGraph.Proofs.Handles
import ArtifactGraph.Proofs.Depictions
import ArtifactGraph.Proofs.Renumberings
import ArtifactGraph.Proofs.Listings
import ArtifactGraph.Proofs.Determinism
import ArtifactGraph.Proofs.Mirrors
import ArtifactGraph.Proofs.Equivariance
import ArtifactGraph.Proofs.Canonicity
import ArtifactGraph.Proofs.Trails
import ArtifactGraph.Proofs.Layers
import ArtifactGraph.Proofs.Explanations
import ArtifactGraph.Proofs.Recomputations
import ArtifactGraph.Proofs.Queues
import ArtifactGraph.Proofs.Retries
import ArtifactGraph.Proofs.Seals
import ArtifactGraph.Proofs.Replays
import ArtifactGraph.Proofs.Increments
import ArtifactGraph.Proofs.Loops
import ArtifactGraph.Proofs.Readings
import ArtifactGraph.Proofs.Requests
import ArtifactGraph.Proofs.Recordings
import ArtifactGraph.Proofs.Tabulations
import ArtifactGraph.Proofs.Verdicts
import ArtifactGraph.Proofs.Encodings
import ArtifactGraph.Proofs.Lettering
import ArtifactGraph.Proofs.Boundaries
import ArtifactGraph.Proofs.Cycles
import ArtifactGraph.Proofs.Positions
import ArtifactGraph.Proofs.Drawings
import ArtifactGraph.Proofs.Transcripts
