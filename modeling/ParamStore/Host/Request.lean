import ParamStore.Host.Report
import ParamStore.Store.Update

/-! Requests of the host, and how a device answers them from its store. A value travels in one
word, so that at most four bytes of it move at a time. -/
namespace ParamStore

inductive Request where
  | status
  | get (parameter : UInt16)
  | set (parameter : UInt16) (value : UInt32) (length : Nat)
  | unknown (command : UInt32)
  deriving DecidableEq, Repr

/-- Status of an answer to a request that the device does not know. -/
def codeUnknownCommand : Int32 := 2

/-- Bytes that a value word carries. -/
def valueSize : Nat := 4

/-- The id is the low half of its word, and a length is cut to the value word. -/
def Request.ofReport (report : Report) : Request :=
  let id := report.parameters[1].toUInt16
  match report.command with
  | 0x00 => status
  | 0x40 => get id
  | 0x80 => set id report.parameters[2] (min report.parameters[3].toNat valueSize)
  | command => unknown command

def SegmentId.number : SegmentId → UInt32
  | a => 0
  | b => 1

namespace Store

/-- Execute a request. The answer repeats the command word, and its status stands in the first
parameter word. -/
def answer (store : Store) (request : Report) : Action Empty Report := do
  let response := Report.ofCommand request.command
  match Request.ofReport request with
  | .status =>
    match ← Action.attempt (Action.observe store.stats) with
    | .ok stats =>
      return (((response.setStatus 0 codeOk).setWord 1 stats.active.number).setWord 2
        (.ofNat stats.used)).setWord 3 (.ofNat stats.free) |>.setWord 4 (.ofNat stats.live)
    | .error cause => return response.setStatus 0 cause.code
  | .get parameter =>
    let response := response.setWord 1 parameter.toUInt32
    match ← Action.attempt (Action.observe (store.read · parameter valueSize)) with
    | .ok reading =>
      return ((response.setStatus 0 reading.code).setWord 2 (wordOfBytes reading.bytes)).setWord 3
        (.ofNat reading.bytes.length)
    | .error cause => return response.setStatus 0 cause.code
  | .set parameter value length =>
    match ← Action.attempt (store.write parameter ((wordBytes value).take length)) with
    | .ok _ => return response.setStatus 0 codeOk
    | .error cause => return response.setStatus 0 cause.code
  | .unknown _ => return response.setStatus 0 codeUnknownCommand

end Store

end ParamStore
