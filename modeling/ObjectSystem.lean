import ObjectSystem.Main
import ObjectSystem.Proofs.Exactness
import ObjectSystem.Proofs.Integrity
import ObjectSystem.Proofs.Tracing
import ObjectSystem.Proofs.ScopeResult
import ObjectSystem.Proofs.Permanence
import ObjectSystem.Proofs.ScopeBalance
import ObjectSystem.Proofs.Subtyping
import ObjectSystem.Proofs.Linearization
import ObjectSystem.Proofs.Shape
import ObjectSystem.Proofs.Release
import ObjectSystem.Proofs.Exchange
import ObjectSystem.Proofs.Population
import ObjectSystem.Proofs.Soundness
import ObjectSystem.Proofs.Copying
import ObjectSystem.Proofs.ListRoundTrip
import ObjectSystem.Proofs.Places
import ObjectSystem.Proofs.Defining
import ObjectSystem.Proofs.Bystanders
import ObjectSystem.Proofs.Methodical
import ObjectSystem.Proofs.Inheritance
import ObjectSystem.Proofs.Overloading
import ObjectSystem.Proofs.Generics
import ObjectSystem.Proofs.Leftovers
import ObjectSystem.Proofs.Lifetimes
import ObjectSystem.Proofs.Nesting
import ObjectSystem.Proofs.Pool.Bag
import ObjectSystem.Proofs.Interning
import ObjectSystem.Proofs.Encoding
import ObjectSystem.Proofs.Safety.Scoped
