import RegisterVm.Command.Execute
import RegisterVm.Command.Listing
import RegisterVm.Json.Bridge
import RegisterVm.Library.Registry
import RegisterVm.Main
import RegisterVm.Proofs.Bitwise.Rows
import RegisterVm.Proofs.Call.Extras
import RegisterVm.Proofs.Call.Returning
import RegisterVm.Proofs.Call.Tail
import RegisterVm.Proofs.Coroutine.Announcing
import RegisterVm.Proofs.Coroutine.Nesting
import RegisterVm.Proofs.Coroutine.Yielding
import RegisterVm.Proofs.Erasure.Stripping
import RegisterVm.Proofs.Failure.Boundaries
import RegisterVm.Proofs.Flow.Reachable
import RegisterVm.Proofs.Json.Members
import RegisterVm.Proofs.Lifetime.Reachable
import RegisterVm.Proofs.Limits.Reachable
import RegisterVm.Proofs.Loop.Rounds
import RegisterVm.Proofs.Metatable.Dispatch
import RegisterVm.Proofs.Protected.Restoration
import RegisterVm.Proofs.Prototype.Canonical
import RegisterVm.Proofs.Prototype.Jumps
import RegisterVm.Proofs.Prototype.Loading
import RegisterVm.Proofs.Prototype.Window
import RegisterVm.Proofs.Table.Ageing
import RegisterVm.Proofs.Table.FiniteMap
import RegisterVm.Proofs.Table.Walking
import RegisterVm.Proofs.Variables.Refinement
import RegisterVm.Prototype.Encoding
import RegisterVm.Prototype.Listing
import RegisterVm.Proofs.Number.Grammar
import RegisterVm.Proofs.Number.Products
import RegisterVm.Proofs.Number.Reading
import RegisterVm.Proofs.Library.Texts
import RegisterVm.Proofs.Library.Packing
import RegisterVm.Proofs.Prototype.Listed
import RegisterVm.Proofs.Instruction.Fields
import RegisterVm.Proofs.Number.Bases
