import ClojureBuild.FileTree.Listing
import ClojureBuild.Main
import ClojureBuild.Proofs.Build.CommandClasspaths
import ClojureBuild.Proofs.Build.Coverage
import ClojureBuild.Proofs.Build.Frame
import ClojureBuild.Proofs.Build.JoinedOrder
import ClojureBuild.Proofs.Build.Locating
import ClojureBuild.Proofs.Build.NamedNamespaces
import ClojureBuild.Proofs.Build.NestedTarget
import ClojureBuild.Proofs.Build.PassLosses
import ClojureBuild.Proofs.Build.RedundantSources
import ClojureBuild.Proofs.Build.SortedListing
import ClojureBuild.Proofs.Build.SourceFiles
import ClojureBuild.Proofs.Build.Truthful
import ClojureBuild.Proofs.Build.Uniqueness
import ClojureBuild.Proofs.Classpath.Histories
import ClojureBuild.Proofs.CommandLine.ShadowedSettings
import ClojureBuild.Proofs.Config.Serialized
import ClojureBuild.Proofs.Config.WarningPlaces
import ClojureBuild.Proofs.Dependency
import ClojureBuild.Proofs.Namespace.Places
import ClojureBuild.Proofs.Report
import ClojureBuild.Proofs.Repository
import ClojureBuild.Proofs.Shares.Owners
import ClojureBuild.Proofs.Text.EditDistance
import ClojureBuild.Proofs.Workspace.Survey
import ClojureBuild.Runner.Scripted
import ClojureBuild.Runner.SearchPath
