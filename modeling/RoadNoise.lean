import RoadNoise.Main
import RoadNoise.Text.Document
import RoadNoise.Text.Measure
import RoadNoise.Proofs.Exact
import RoadNoise.Proofs.Sequence
import RoadNoise.Proofs.Numbers
import RoadNoise.Proofs.Cleaned
import RoadNoise.Proofs.Outline
import RoadNoise.Proofs.Drafts
import RoadNoise.Proofs.Grid
import RoadNoise.Proofs.Inside
import RoadNoise.Proofs.Scan
import RoadNoise.Proofs.Distance
import RoadNoise.Proofs.Lookup
import RoadNoise.Proofs.Relief
import RoadNoise.Proofs.Sight
import RoadNoise.Proofs.Taut
import RoadNoise.Proofs.Ways
import RoadNoise.Proofs.Terms
import RoadNoise.Proofs.Losses
import RoadNoise.Proofs.Built
import RoadNoise.Proofs.FreeField
import RoadNoise.Proofs.Exhaustive
import RoadNoise.Proofs.Specular
import RoadNoise.Proofs.Screening
import RoadNoise.Proofs.Spans
import RoadNoise.Proofs.Circles
import RoadNoise.Proofs.Winding
import RoadNoise.Proofs.Cavity
import RoadNoise.Proofs.Delaunay
import RoadNoise.Proofs.Hull
import RoadNoise.Proofs.Cover
import RoadNoise.Proofs.Lattice
import RoadNoise.Proofs.Ground
import RoadNoise.Proofs.Received
import RoadNoise.Proofs.Reported
import RoadNoise.Proofs.Schedule
import RoadNoise.Proofs.Answers
import RoadNoise.Proofs.Louder
import RoadNoise.Proofs.Wider
import RoadNoise.Proofs.Powers
import RoadNoise.Proofs.Superposition
import RoadNoise.Proofs.Traceless
import RoadNoise.Proofs.PathOrder
import RoadNoise.Proofs.Reroofed
import RoadNoise.Proofs.Higher
import RoadNoise.Proofs.Comparison
import RoadNoise.Proofs.Insertions
import RoadNoise.Proofs.Energetic
import RoadNoise.Proofs.Discretized
import RoadNoise.Proofs.Softer
import RoadNoise.Proofs.Reciprocity
import RoadNoise.Proofs.Parted
import RoadNoise.Proofs.Stretched
import RoadNoise.Proofs.Corners
import RoadNoise.Proofs.Settled
import RoadNoise.Proofs.Beside
import RoadNoise.Proofs.OverTop
import RoadNoise.Proofs.Underfoot
import RoadNoise.Proofs.Chord
import RoadNoise.Proofs.Inclined
import RoadNoise.Proofs.Emitted
import RoadNoise.Proofs.Directions
import RoadNoise.Proofs.Thirds
import RoadNoise.Proofs.Bending
import RoadNoise.Proofs.Mixed
import RoadNoise.Proofs.Absorbing
import RoadNoise.Proofs.Compass
import RoadNoise.Proofs.Averages
import RoadNoise.Proofs.Stages
import RoadNoise.Proofs.Vertices
