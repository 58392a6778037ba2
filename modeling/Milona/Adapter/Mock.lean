import Milona.Core.Traits

/-!
# The mock language model

A stand-in provider with canned answers.  Its only state is the number of calls
so far.
-/

namespace Milona.Adapter

open Milona.Core Milona.Foundation

inductive MockBehavior where
  | alwaysSucceed
  | failNTimesThenSucceed (failures : UInt32)
  | alwaysFail
  deriving DecidableEq, Repr

structure MockLlmProvider where
  behavior : MockBehavior
  cannedResponse : String

namespace MockLlmProvider

def new (cannedResponse : String) : MockLlmProvider :=
  ⟨.alwaysSucceed, cannedResponse⟩

def withBehavior (mock : MockLlmProvider) (behavior : MockBehavior) :
    MockLlmProvider :=
  { mock with behavior := behavior }

def default : MockLlmProvider :=
  new "This is a canned response from MockLlmProvider (no real LLM was called)."

def shouldFail (mock : MockLlmProvider) (callNumber : UInt32) : Bool :=
  match mock.behavior with
  | .alwaysSucceed => false
  | .alwaysFail => true
  | .failNTimesThenSucceed failures => callNumber ≤ failures

def messageTokens (message : LlmMessage) : UInt32 :=
  UInt32.ofNat (max (message.content.utf8ByteSize / 4) 1)

def llmProvider (mock : MockLlmProvider) : LlmProvider UInt32 where
  complete messages := do
    Action.modify (· + 1)
    let callNumber ← Action.get
    if mock.shouldFail callNumber then
      return .error (.upstream
        ("mock provider simulated transient failure (call #" ++
          toString callNumber ++ ")"))
    else
      return .ok ⟨mock.cannedResponse,
        messages.foldl (fun tokens message => tokens + messageTokens message) 0,
        8⟩

end MockLlmProvider

end Milona.Adapter
