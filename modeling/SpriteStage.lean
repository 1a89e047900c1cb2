import SpriteStage.CommandLine.Arguments
import SpriteStage.Main
import SpriteStage.Proofs.Continuations
import SpriteStage.Proofs.RunCourse
import SpriteStage.Proofs.Draining
import SpriteStage.Proofs.Pieces
import SpriteStage.Proofs.DemoTicks
import SpriteStage.Proofs.Ending
import SpriteStage.Proofs.StepOrder
import SpriteStage.Proofs.Bubbles
import SpriteStage.Proofs.Undoing
import SpriteStage.Proofs.Interference
import SpriteStage.Proofs.Answers
import SpriteStage.Proofs.Chronicle
import SpriteStage.Proofs.Clearings
import SpriteStage.Proofs.GlideTags
import SpriteStage.Proofs.UndoStack
import SpriteStage.Proofs.ChangeFeed
import SpriteStage.Proofs.Checking
import SpriteStage.Proofs.Resetting
import SpriteStage.Proofs.Playback
import SpriteStage.Proofs.Cutoff
import SpriteStage.Proofs.Timekeeping
import SpriteStage.Proofs.Refusals
import SpriteStage.Proofs.Walks
import SpriteStage.Proofs.RandomPoints
import SpriteStage.Proofs.Quiet
import SpriteStage.Proofs.FirstActions
import SpriteStage.Proofs.StalePolicies
import SpriteStage.Proofs.WireForms
import SpriteStage.Proofs.Throttling
import SpriteStage.Proofs.Turns
import SpriteStage.Proofs.GroupWarnings
import SpriteStage.Proofs.ElapsedTime
import SpriteStage.Proofs.PartialSettings
import SpriteStage.Proofs.Parameters
import SpriteStage.Proofs.PriorityQueue
import SpriteStage.Proofs.Footprints
import SpriteStage.Proofs.LeadingIntegers
