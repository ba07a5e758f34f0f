import Infernum.Lib.TransitionSystem
import Infernum.Lib.ByteCodec
import Infernum.Lib.Rose
import Infernum.Item.Item
import Infernum.Item.Serialize
import Infernum.Item.RoundTrip
import Infernum.Trade.State
import Infernum.Trade.Invariant
import Infernum.Trade.Reachable
import Infernum.Item.Reload
import Infernum.House.TileStore
import Infernum.House.TileLoad
import Infernum.House.TileRoundTrip
import Infernum.Lib.BreadthFirst
import Infernum.Login.PlayerItems
import Infernum.Login.PlayerItemsRoundTrip
import Infernum.Database.Database
import Infernum.Database.Script
import Infernum.Database.AllOrNothing
import Infernum.Database.StaleRows
import Infernum.Login.SavePlayer
import Infernum.House.SaveHouse
import Infernum.Saves
import Infernum.Lib.QuadTree
import Infernum.Map.Leaves
import Infernum.Map.Linked
import Infernum.Map.Reachable
import Infernum.Map.SpectatorCache
import Infernum.Tile.Operations
import Infernum.Tile.Edits
import Infernum.Tile.Stackpos
import Infernum.Tile.Runs
import Infernum.Tile.ExactFlags
import Infernum.Tile.Arranged
import Infernum.Container.Container
import Infernum.Container.Forest
import Infernum.Container.Weight
import Infernum.Container.Exact
import Infernum.Cylinder.Heap
import Infernum.Cylinder.Query
import Infernum.Lib.Parents
import Infernum.Cylinder.Move
import Infernum.CreatureCheck.Consistent
import Infernum.Cylinder.Equals
import Infernum.Cylinder.Rooted
import Infernum.Cylinder.Acyclic
import Infernum.Equip.Abilities
import Infernum.Equip.Equip
import Infernum.Equip.Ledger
import Infernum.Equip.Calls
import Infernum.Equip.Balance
import Infernum.Equip.Overrides
import Infernum.Equip.Runs
import Infernum.Map.Creatures
import Infernum.Map.Tiles
import Infernum.Condition.Condition
import Infernum.Condition.Creature
import Infernum.Condition.Account
import Infernum.Condition.Moves
import Infernum.Condition.Steps
import Infernum.Condition.Runs
import Infernum.Condition.Invariants
import Infernum.Speed.Accounting
import Infernum.Condition.Reload
import Infernum.Condition.Effects
import Infernum.Lib.Window
import Infernum.Walk.Shifted
import Infernum.Lib.Trie
import Infernum.Wildcard.WildcardTree
import Infernum.Wildcard.Lookup
import Infernum.Scheduler.Contract
import Infernum.Waitlist.WaitingList
import Infernum.Party.Effects
import Infernum.Party.Membership
import Infernum.Party.Leaving
import Infernum.Party.Runs
import Infernum.Party.Linked
import Infernum.Party.Confidential
import Infernum.Decay.Decay
import Infernum.Decay.Effects
import Infernum.Decay.Bookkeeping
import Infernum.Decay.Places
import Infernum.Decay.OnTime
import Infernum.Lib.Region
import Infernum.Network.Xtea
import Infernum.Network.NetworkMessage
import Infernum.Network.OutputMessage
import Infernum.Market.Pristine
import Infernum.Money.AddMoney
import Infernum.Network.Frames
import Infernum.Network.Lossless
import Infernum.Combat.Combat
import Infernum.Combat.Silent
import Infernum.Combat.SecondPass
import Infernum.Network.RoundTrip
import Infernum.Network.Reads
import Infernum.Network.Stale
import Infernum.MapDescription.Skips
import Infernum.MapDescription.Decodes
import Infernum.KnownCreatures.KnownCreatures
import Infernum.Lib.Nested
import Infernum.Otb.Grammar
import Infernum.Otb.Trees
import Infernum.Authentication.Token
import Infernum.Authentication.SecondFactor
import Infernum.Spawn.Chains
import Infernum.Spawn.Punctual
import Infernum.Spawn.Remembered
import Infernum.Raid.Raids
import Infernum.Raid.LifeCycle
import Infernum.Item.AttrRoundTrip
import Infernum.Transform.TransformItem
import Infernum.Condition.Records
import Infernum.Condition.Faults
import Infernum.Cylinder.Holdings
import Infernum.Cylinder.AddItem
import Infernum.Cylinder.AddedUnits
import Infernum.Lib.ShortestWalk
import Infernum.Path.PathFinding
import Infernum.Path.Nodes
import Infernum.Login.Premium
import Infernum.House.AccessList
import Infernum.House.GuildLines
import Infernum.House.AccessDecision
import Infernum.Advance.Training
import Infernum.Lib.Ladder
import Infernum.Advance.Climbing
import Infernum.Advance.Offline
import Infernum.Advance.DeathLoss
import Infernum.Lib.Borrow
import Infernum.Advance.DeathBalance
import Infernum.Advance.Progress
import Infernum.Experience.Level
import Infernum.Lib.Scale
import Infernum.Lib.Ancestry
import Infernum.Inventory.RemoveItems
import Infernum.Inventory.Search
import Infernum.Inventory.Removal
import Infernum.Inventory.Exact
import Infernum.House.Depot
import Infernum.House.DepotMoves
import Infernum.House.DepotWaits
import Infernum.House.DepotExact
import Infernum.Path.Optimal
import Infernum.Lib.BlockHash
import Infernum.Authentication.Digest
import Infernum.Database.Batches
import Infernum.Database.Lock
import Infernum.Shop.SaleItems
import Infernum.Trade.Look
import Infernum.Map.SightLine
import Infernum.Lib.Worklist
import Infernum.Market.Offered
import Infernum.Combat.Matrix
import Infernum.Combat.Area
import Infernum.Container.OpenContainers
import Infernum.Container.OpenPages
import Infernum.Path.Cardinal
import Infernum.Container.Iterator
import Infernum.Spell.InstantSpell
import Infernum.Lib.MaskList
import Infernum.Item.AttributeLists
import Infernum.Item.AttributeRuns
import Infernum.Inventory.CarriedWeight
import Infernum.Login.Storage
import Infernum.Network.Checksum
import Infernum.Network.Ban
