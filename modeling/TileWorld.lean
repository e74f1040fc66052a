import TileWorld.Main
import TileWorld.Proofs.FirstHold
import TileWorld.Proofs.FreshSpawn
import TileWorld.Proofs.TimeSlicing
import TileWorld.Proofs.EntityRun
import TileWorld.Proofs.LoopPhase
import TileWorld.Proofs.HeldFlag
import TileWorld.Proofs.HeldEvents
import TileWorld.Proofs.OwnedTiles
import TileWorld.Proofs.TrackOwners
import TileWorld.Proofs.KeptTiles
import TileWorld.Proofs.Counterparts
import TileWorld.Proofs.InspectedPlays
import TileWorld.Proofs.SavedSettings
import TileWorld.Proofs.TileOrder
import TileWorld.Proofs.UnresolvedTarget
import TileWorld.Proofs.AuthoredRoundTrip
import TileWorld.Proofs.CarriedFraction
import TileWorld.Proofs.PlainLoop
import TileWorld.Proofs.FailedLoad
import TileWorld.Proofs.TilesetIds
import TileWorld.Proofs.SettledController
import TileWorld.Proofs.DualConditions
import TileWorld.Proofs.SignalWrites
import TileWorld.Proofs.ConditionRoundTrip
import TileWorld.Proofs.PlacedShapes
import TileWorld.Proofs.ClosedOutline
import TileWorld.Proofs.JoinedReferences
