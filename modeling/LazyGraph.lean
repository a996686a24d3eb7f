import LazyGraph.Config.Reader
import LazyGraph.Proofs.Agreement
import LazyGraph.Proofs.Reentry
import LazyGraph.Session.Perform
import LazyGraph.Proofs.Lifecycle
import LazyGraph.Proofs.Custody
import LazyGraph.Proofs.Exclusion
import LazyGraph.Proofs.Modes
import LazyGraph.Proofs.Refusal
import LazyGraph.Proofs.Schedules
import LazyGraph.Proofs.Registrations
import LazyGraph.Proofs.Constants
import LazyGraph.Proofs.Jobs
import LazyGraph.Proofs.Independence
import LazyGraph.Proofs.Diagnostics
import LazyGraph.Proofs.Delivery
import LazyGraph.Proofs.Applications
import LazyGraph.Proofs.Selectors
import LazyGraph.Proofs.PointerMaps
import LazyGraph.Proofs.Reports
import LazyGraph.Proofs.Pacing
import LazyGraph.Proofs.Saturated
