import MorphEngine.Metadata.ClassShape
import MorphEngine.OpenCache
import MorphEngine.Proofs.Builder.LifeCycle
import MorphEngine.Proofs.Cache.Latest
import MorphEngine.Proofs.Cache.Retention
import MorphEngine.Proofs.Cache.Upkeep
import MorphEngine.Proofs.Catalog.Ledger
import MorphEngine.Proofs.Catalog.Export
import MorphEngine.Proofs.Fingerprint.Decision
import MorphEngine.Proofs.Fingerprint.Arrays
import MorphEngine.Proofs.Fingerprint.Graphs
import MorphEngine.Proofs.Fusion.Deferred
import MorphEngine.Proofs.Fusion.Labels
import MorphEngine.Proofs.Fusion.Repeated
import MorphEngine.Proofs.Keys.Uncached
import MorphEngine.Proofs.Keys.Separation
import MorphEngine.Proofs.Memo.Transparency
import MorphEngine.Proofs.Paths.Agreement
import MorphEngine.Proofs.Plan.Order
import MorphEngine.Proofs.Trees.Making
import MorphEngine.Proofs.Trees.Purity
import MorphEngine.Proofs.Chains
import MorphEngine.Proofs.Diary
import MorphEngine.Proofs.Trees.Exposure
import MorphEngine.Proofs.Asynchrony.Conduct
import MorphEngine.Proofs.Asynchrony.Awaited
import MorphEngine.Proofs.NumberOrder
import MorphEngine.Proofs.Trees.Freshness
import MorphEngine.Proofs.Trees.Associativity
import MorphEngine.Proofs.Cache.Accounts
import MorphEngine.Proofs.Cache.Calls
import MorphEngine.Proofs.Metadata.Bounds
import MorphEngine.Proofs.Metadata.Culprits
import MorphEngine.Proofs.Costs.Derived
import MorphEngine.Proofs.Costs.Pipelines
