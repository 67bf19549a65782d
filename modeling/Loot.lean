import Loot.Main
import Loot.Proofs.Machine.Rollback
import Loot.Proofs.Token.Pieces
import Loot.Proofs.Tree.RoundTrip
import Loot.Proofs.Tree.Reading
import Loot.Proofs.Tree.Settled
import Loot.Proofs.Tree.Leaves
import Loot.Proofs.Machine.Recast
import Loot.Proofs.Machine.Parallel
import Loot.Proofs.Machine.Stops
import Loot.Proofs.Session.Endings
import Loot.Proofs.Machine.LoopFree
import Loot.Proofs.Tree.Relabel
import Loot.Proofs.Tree.Seam
import Loot.Proofs.Session.Joined
import Loot.Proofs.Tree.Cutoff
import Loot.Proofs.Session.Waiting
import Loot.Proofs.Machine.DepthLimit
import Loot.Proofs.Machine.Escape
import Loot.Proofs.Machine.Abreast
import Loot.Proofs.Machine.Unnamed
import Loot.Proofs.Machine.Unshadowed
import Loot.Proofs.Machine.Flattened
import Loot.Proofs.Session.LinesAside
import Loot.Proofs.Machine.Literals
import Loot.Proofs.Session.Typed
import Loot.Proofs.Token.Places
import Loot.Proofs.Tree.Bracketed
import Loot.Proofs.Tree.Shape
import Loot.Proofs.Tree.Cursor
import Loot.Proofs.Display.Markup
import Loot.Proofs.Machine.Numerals
import Loot.Proofs.Number.Layout
import Loot.Proofs.Number.ReadBack
import Loot.Proofs.Tree.Legible
import Loot.Proofs.Tree.Nested
import Loot.Proofs.Tree.Outlined
import Loot.Proofs.Display.Plain
import Loot.Proofs.Session.Reporting
import Loot.Proofs.Session.Tasks
import Loot.Proofs.Text.Utf8
import Loot.Proofs.Command.FileRun
import Loot.Proofs.Machine.Guarded
