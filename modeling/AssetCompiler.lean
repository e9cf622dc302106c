import AssetCompiler.Main
import AssetCompiler.Proofs.Coalescing
import AssetCompiler.Proofs.LegalReduction
import AssetCompiler.Proofs.CacheKeys
import AssetCompiler.Proofs.CacheRoots
import AssetCompiler.Proofs.Compilations
import AssetCompiler.Proofs.Deployments
import AssetCompiler.Proofs.SavedMemory
import AssetCompiler.Proofs.VersionBumps
import AssetCompiler.Proofs.Exchanges
import AssetCompiler.Proofs.FailedReductions
import AssetCompiler.Proofs.PlainFailures
import AssetCompiler.Proofs.Boarding
import AssetCompiler.Proofs.NamedFiles
import AssetCompiler.Proofs.RebuiltHosts
import AssetCompiler.Proofs.Standing
import AssetCompiler.Proofs.Delivery
import AssetCompiler.Proofs.Folders
import AssetCompiler.Proofs.MemoryRuns
import AssetCompiler.Proofs.StoreMaps
import AssetCompiler.Proofs.SharedRoots
import AssetCompiler.Proofs.Tenancies
import AssetCompiler.Proofs.SpaceNames
import AssetCompiler.Proofs.SeparateStores
import AssetCompiler.Proofs.SteadyCrews
import AssetCompiler.Proofs.UnlinkedPaths
import AssetCompiler.Proofs.BypassedFiles
import AssetCompiler.Proofs.Transparency
import AssetCompiler.Proofs.ReadOnlyHosts
import AssetCompiler.Proofs.IsolatedPasses
import AssetCompiler.Proofs.RegisteredInstances
import AssetCompiler.Proofs.MediaMaps
import AssetCompiler.Proofs.DistinctKeys
import AssetCompiler.Proofs.ExitCodes
import AssetCompiler.Proofs.Documents
import AssetCompiler.Proofs.DamagedMemories
import AssetCompiler.Proofs.DamagedEntries
import AssetCompiler.Proofs.PassLimits
import AssetCompiler.Proofs.TreeWalks
import AssetCompiler.Proofs.ClassifiedFiles
import AssetCompiler.Proofs.StoredEntries
import AssetCompiler.Proofs.RestoredMemories
import AssetCompiler.Proofs.AgreeingWalks
import AssetCompiler.Proofs.SizeTexts
import AssetCompiler.Proofs.ListedOrders
import AssetCompiler.Proofs.ConfinedFolders
import AssetCompiler.Proofs.LogLines
import AssetCompiler.Proofs.BegunRequests
import AssetCompiler.Proofs.CommandHosts
import AssetCompiler.Proofs.LaterRuns
import AssetCompiler.Proofs.Precompilations
import AssetCompiler.Proofs.NestedBlocks
import AssetCompiler.Proofs.SourceMapComments
import AssetCompiler.Proofs.LineAverages
