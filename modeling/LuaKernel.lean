import LuaKernel.Script.Session
import LuaKernel.Proofs.Table.History
import LuaKernel.Proofs.Run.Failure
import LuaKernel.Proofs.Run.Termination
import LuaKernel.Proofs.Access.Hops
import LuaKernel.Proofs.Number.RoundTrip
import LuaKernel.Proofs.Cache.Recency
import LuaKernel.Proofs.Run.Supervised
import LuaKernel.Proofs.Cache.Unobserved
import LuaKernel.Proofs.Number.Grammar
import LuaKernel.Proofs.Metatable.Frame
import LuaKernel.Proofs.Metatable.Protection
import LuaKernel.Proofs.Run.Recovery
import LuaKernel.Proofs.Run.Heaps
import LuaKernel.Proofs.Access.Writing
import LuaKernel.Proofs.Access.Proxies
import LuaKernel.Proofs.Number.Scaling
import LuaKernel.Proofs.Number.Hexadecimal
import LuaKernel.Proofs.Text.Sequences
import LuaKernel.Proofs.Strings.Ranges
import LuaKernel.Proofs.Strings.RoundTrip
import LuaKernel.Proofs.Strings.Splitting
import LuaKernel.Proofs.Access.Counting
import LuaKernel.Proofs.Table.Filling
import LuaKernel.Proofs.Table.Lists
import LuaKernel.Proofs.Table.Slots
import LuaKernel.Proofs.Access.Iteration
import LuaKernel.Proofs.Order.Converse
import LuaKernel.Proofs.Number.Words
import LuaKernel.Proofs.Order.Total
import LuaKernel.Proofs.Run.Host
import LuaKernel.Proofs.Output.Printing
import LuaKernel.Proofs.Run.Consultations
