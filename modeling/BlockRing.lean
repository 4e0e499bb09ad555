import BlockRing.Session
import BlockRing.Proofs.Ceiling
import BlockRing.Proofs.Contents
import BlockRing.Proofs.Fullness
import BlockRing.Proofs.GrowthHistory
import BlockRing.Proofs.GrowthSize
import BlockRing.Proofs.Observation
import BlockRing.Proofs.Removal
import BlockRing.Proofs.Stability
import BlockRing.Proofs.Twins
import BlockRing.Proofs.Eviction
import BlockRing.Proofs.Footprint
import BlockRing.Proofs.BlockSize
import BlockRing.Proofs.Numerals
import BlockRing.Proofs.ShortestForm
import BlockRing.Proofs.Reading
