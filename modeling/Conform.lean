import Conform.Json.Text
import Conform.Proofs.Committed
import Conform.Proofs.Direct
import Conform.Proofs.Refusal
import Conform.Proofs.Reach
import Conform.Proofs.Throughout
import Conform.Proofs.Unconcerned
import Conform.Proofs.Mentioned
import Conform.Proofs.Strictness
import Conform.Proofs.Elsewhere
import Conform.Proofs.Independence
import Conform.Proofs.Outline
import Conform.Proofs.Telling
import Conform.Proofs.Silence
import Conform.Proofs.Presentation
import Conform.Proofs.Readings
import Conform.Proofs.Truth
import Conform.Proofs.Families
import Conform.Proofs.Transparency
import Conform.Proofs.Balance
import Conform.Proofs.Selection
import Conform.Proofs.Prediction
import Conform.Proofs.Comparisons
import Conform.Proofs.Duality
import Conform.Proofs.Negations
import Conform.Proofs.Filtered
import Conform.Proofs.Bindings
import Conform.Proofs.Rearrangement
import Conform.Proofs.Tightening
import Conform.Proofs.Blame
import Conform.Proofs.Enumeration
import Conform.Proofs.Concretions
import Conform.Proofs.Location
import Conform.Proofs.Counting
import Conform.Proofs.Likeness
import Conform.Proofs.Exchange
import Conform.Proofs.Folds
import Conform.Proofs.Forms
import Conform.Proofs.Casing
import Conform.Proofs.Naming
import Conform.Proofs.Ranking
import Conform.Proofs.Segments
