import FastModManager.Foundation.Checked
import FastModManager.Foundation.LexOrder
import FastModManager.Foundation.OrderedMap
import FastModManager.Foundation.KeyedList
import FastModManager.Foundation.SortAndGroup
import FastModManager.Foundation.Segments
import FastModManager.Foundation.PathWalk
import FastModManager.Foundation.Digraph
import FastModManager.Foundation.Lasso
import FastModManager.Foundation.Utf8
import FastModManager.Foundation.Machine
import FastModManager.Foundation.TransitionSystem
import FastModManager.Foundation.Layers
import FastModManager.Domain.Package
import FastModManager.Domain.PackageDependencyGraph
import FastModManager.Domain.CycleSearchLaws
import FastModManager.Domain.CycleSearchRuns
import FastModManager.Domain.CycleSearchBounds
import FastModManager.Domain.CycleSearchOrder
import FastModManager.Domain.ResolveOrderLaws
import FastModManager.Domain.PackageDependencyGraphLaws
import FastModManager.Domain.DependencyCycles
import FastModManager.Domain.LoadOrderStability
import FastModManager.Domain.PackageGraphErrors
import FastModManager.Domain.LoadOrderComposition
import FastModManager.Domain.ResolveOrderCycles
import FastModManager.Domain.FileOwnershipGraph
import FastModManager.Domain.FileOwnershipGraphLaws
import FastModManager.Domain.OwnershipGrouping
import FastModManager.Domain.ConflictResolution
import FastModManager.Domain.ConflictResolutionLaws
import FastModManager.Domain.CompiledNamespace
import FastModManager.Domain.NamespacePlan
import FastModManager.Domain.CompiledNamespaceLaws
import FastModManager.Domain.SourceMappingLaws
import FastModManager.Domain.NamespacePlanning
import FastModManager.Domain.NamespaceConfinement
import FastModManager.Domain.ConflictIndependence
import FastModManager.Domain.NamespaceExplanations
import FastModManager.Domain.ConflictReports
import FastModManager.Domain.PriorityChanges
import FastModManager.Domain.PriorityOrders
import FastModManager.Domain.NamespaceLayers
import FastModManager.Domain.NamespaceExtension
import FastModManager.Domain.NamespaceRenaming
import FastModManager.Domain.SourceMappingErrors
import FastModManager.Domain.PackageRootMapping
import FastModManager.Domain.Profile
import FastModManager.Domain.StagingPolicy
import FastModManager.Domain.VirtualTree
import FastModManager.Core.PathNormalizer
import FastModManager.Core.PathNormalizerLaws
import FastModManager.Application.PackageCatalog
import FastModManager.Application.InventoryService
import FastModManager.Application.CatalogInventoryService
import FastModManager.Application.ProfileRepository
import FastModManager.Application.ProfileShelf
import FastModManager.Infrastructure.NativePath
import FastModManager.Infrastructure.Qt
import FastModManager.Infrastructure.JsonPackageCatalog
import FastModManager.Infrastructure.JsonPackageCatalogLaws
import FastModManager.Infrastructure.JsonPackageCatalogRuns
import FastModManager.Infrastructure.JsonPackageCatalogFailures
import FastModManager.Infrastructure.JsonPackageCatalogPaths
import FastModManager.Infrastructure.JsonPackageCatalogRecovery
import FastModManager.Infrastructure.JsonProfilePersistence
import FastModManager.Infrastructure.JsonProfilePersistenceLaws
import FastModManager.Infrastructure.JsonProfilePersistenceEffects
import FastModManager.Infrastructure.JsonProfilePersistenceRuns
import FastModManager.Infrastructure.LibArchiveReader
import FastModManager.Infrastructure.LibArchiveReaderLaws
import FastModManager.Infrastructure.LibArchiveReaderPaths
import FastModManager.Infrastructure.LibArchiveReaderDenotation
import FastModManager.Infrastructure.LibArchiveReaderListing
import FastModManager.Infrastructure.GameFsClient
import FastModManager.Infrastructure.StagingRepository
import FastModManager.Infrastructure.StagingRepositoryLaws
import FastModManager.Infrastructure.StagingRepositoryRecords
import FastModManager.Ui.AsyncTask
import FastModManager.Ui.InventoryModel
import FastModManager.Ui.InventoryModelLaws
import FastModManager.Ui.InventoryModelRuns
import FastModManager.Ui.InventoryModelLedger
import FastModManager.Ui.InventoryModelTermination
import FastModManager.Ui.InventoryRefresh
import FastModManager.Ui.MainWindow
import FastModManager.Ui.MainWindowLaws
import FastModManager.App.Bootstrapper
