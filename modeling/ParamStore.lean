import ParamStore.Boot
import ParamStore.Host.Request
import ParamStore.Panel.Setting
import ParamStore.Panel.Value
import ParamStore.Store.Recovery
import ParamStore.Store.Typed
import ParamStore.Proofs.Ensures
import ParamStore.Proofs.Cells
import ParamStore.Proofs.Flash
import ParamStore.Proofs.Linked
import ParamStore.Proofs.Entries
import ParamStore.Proofs.Mounted
import ParamStore.Proofs.Plan
import ParamStore.Proofs.Burial
import ParamStore.Proofs.Append
import ParamStore.Proofs.Packing
import ParamStore.Proofs.Compaction
import ParamStore.Proofs.Update
import ParamStore.Proofs.Recovery
import ParamStore.Proofs.Atomicity
import ParamStore.Proofs.LiveRecords
import ParamStore.Proofs.Relocation
import ParamStore.Proofs.Admission
import ParamStore.Proofs.Refinement
import ParamStore.Proofs.Restart
import ParamStore.Proofs.Failures
import ParamStore.Proofs.Orders
import ParamStore.Proofs.Unseen
import ParamStore.Proofs.Lookahead
import ParamStore.Proofs.Wear
import ParamStore.Proofs.Ledger
import ParamStore.Proofs.Levelling
import ParamStore.Proofs.Conversation
import ParamStore.Proofs.BootDecision
import ParamStore.Proofs.Supply
import ParamStore.Proofs.Arming
import ParamStore.Proofs.FullStore
import ParamStore.Proofs.Supersession
import ParamStore.Proofs.BitFlip
import ParamStore.Proofs.Removal
import ParamStore.Proofs.Encoding
import ParamStore.Proofs.Typed
import ParamStore.Proofs.Registers
import ParamStore.Proofs.Overflow
import ParamStore.Proofs.Contract
import ParamStore.Proofs.Confinement
import ParamStore.Proofs.Guarded
import ParamStore.Proofs.Locking
import ParamStore.Proofs.ReportCodec
import ParamStore.Proofs.Traversal
