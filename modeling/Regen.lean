import Regen.Command.Run
import Regen.Main
import Regen.Proofs.Lexeme
import Regen.Proofs.Arrangement
import Regen.Proofs.Body
import Regen.Proofs.Carrying
import Regen.Proofs.Cells
import Regen.Proofs.Fitting
import Regen.Proofs.FixedPoint
import Regen.Proofs.Regeneration
import Regen.Proofs.Agreement
import Regen.Proofs.Reinsertion
import Regen.Proofs.Preservation
import Regen.Proofs.Trail
import Regen.Proofs.Layers
import Regen.Proofs.Depth
import Regen.Proofs.StaleText
import Regen.Proofs.Pairs
import Regen.Proofs.Printing
import Regen.Proofs.InPlace
import Regen.Proofs.Leftmost
import Regen.Proofs.Overlap
import Regen.Proofs.Removal
import Regen.Proofs.Counterparts
import Regen.Proofs.PlainEnds
import Regen.Proofs.Listing
import Regen.Proofs.Override
import Regen.Proofs.EmptyContent
import Regen.Proofs.OneLine
import Regen.Proofs.Prefixed
import Regen.Proofs.Coordinates
import Regen.Proofs.Snippet
import Regen.Proofs.Views
import Regen.Proofs.CheckedOutput
import Regen.Proofs.Indentation
