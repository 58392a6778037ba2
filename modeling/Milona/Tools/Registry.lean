import Milona.Retrieval.GenaiLoop
import Milona.Tools.Calculator
import Milona.Tools.Timestamp

/-!
# Tool registries

Native tools and handles of remote MCP tools are registered alike, by name; a
later registration replaces an earlier one of its name.  The registry of this
crate is a map, that of the application loop is read by lookups only.

A remote handle refuses every call, and the loop skips what fails.  So no
remote tool takes part in a turn, and registering one only hides the native
tool of its name.
-/

namespace Milona.Tools

open Milona.Core Milona.Foundation

variable {σ : Type}

namespace EchoTool

def invoke (_ctx : TenantContext) (invocation : ToolInvocation) :
    Action σ (Result ToolResult) :=
  match (invocation.arguments.get "message").bind Json.asStr with
  | some message => return .ok ⟨message⟩
  | none =>
      return .error (.invalidInput "echo requires a string `message` argument")

def tool : Tool σ where
  name := "echo"
  description :=
    "Echoes back the string passed in the `message` argument. Useful for testing tool wiring."
  invoke := invoke

end EchoTool

structure ToolRegistry (σ : Type) where
  tools : HashMap String (Tool σ)

namespace ToolRegistry

def new : ToolRegistry σ := ⟨∅⟩

def register (registry : ToolRegistry σ) (tool : Tool σ) : ToolRegistry σ :=
  ⟨registry.tools.insert tool.name tool⟩

def get (registry : ToolRegistry σ) (name : String) : Option (Tool σ) :=
  registry.tools.lookup name

def toolNames (order : IterationOrder String (Tool σ))
    (registry : ToolRegistry σ) :
    List String :=
  (order.iterate registry.tools).map fun entry => entry.1

def invoke (registry : ToolRegistry σ) (ctx : TenantContext)
    (invocation : ToolInvocation) : Action σ (Result ToolResult) :=
  match registry.get invocation.name with
  | none =>
      return .error (.notFound
        ("no tool registered with name '" ++ invocation.name ++ "'"))
  | some tool => tool.invoke ctx invocation

end ToolRegistry

/-! ## MCP -/

structure McpServer (σ : Type) where
  registry : ToolRegistry σ

namespace McpServer

/-- The clock and the decimals of fractions are those of the machine. -/
def withNativeTools (clock : Action σ (Except String UInt64))
    (decimal : Float → Nat × Nat) : McpServer σ :=
  ⟨((ToolRegistry.new.register EchoTool.tool).register
      (CurrentTimeTool.tool clock)).register
    (CalculatorTool.tool decimal)⟩

def advertisedToolNames (order : IterationOrder String (Tool σ))
    (server : McpServer σ) :
    List String :=
  server.registry.toolNames order

def callTool (server : McpServer σ) (ctx : TenantContext)
    (invocation : ToolInvocation) :
    Action σ (Result ToolResult) :=
  server.registry.invoke ctx invocation

end McpServer

structure McpClientTool where
  name : String
  description : String

def McpClientTool.tool (client : McpClientTool) : Tool σ where
  name := client.name
  description := client.description
  invoke _ _ := return .error (.unsupported
    ("MCP client transport is not available in this build (rmcp is blocked by an MSRV conflict with this workspace's pinned rustc 1.87 — see the module doc comment on milona_tools::mcp for details); cannot invoke remote tool '" ++
      client.name ++ "'"))

/-- The registry of the application. -/
def defaultToolRegistry (clock : Action σ (Except String UInt64))
    (decimal : Float → Nat × Nat) : Retrieval.ToolRegistry σ :=
  ((Retrieval.ToolRegistry.new.register EchoTool.tool).register
    (CurrentTimeTool.tool clock)).register (CalculatorTool.tool decimal)

/-! ## Registrations -/

inductive Registration (σ : Type) where
  | native (tool : Tool σ)
  | remote (client : McpClientTool)

namespace Registration

def tool : Registration σ → Tool σ
  | native tool => tool
  | remote client => client.tool

def isNative : Registration σ → Bool
  | native _ => true
  | remote _ => false

def register (registrations : List (Registration σ)) : ToolRegistry σ :=
  registrations.foldl (fun registry registration =>
    registry.register registration.tool) .new

def registerInLoop (registrations : List (Registration σ)) :
    Retrieval.ToolRegistry σ :=
  registrations.foldl (fun tools registration =>
    tools.register registration.tool) .new

/-- The registration of the name that counts. -/
def lastNamed (name : String) : List (Registration σ) → Option (Registration σ)
  | [] => none
  | registration :: later =>
      (lastNamed name later).or
        (if registration.tool.name = name then some registration else none)

/-- The native registrations that no later one of their name replaces. -/
def available : List (Registration σ) → List (Registration σ)
  | [] => []
  | registration :: later =>
      if registration.isNative &&
        (lastNamed registration.tool.name later).isNone then
        registration :: available later
      else available later

/-- A registry that inserts by name finds the last registration of a name. -/
theorem get_foldl {ρ : Type} {get : ρ → String → Option (Tool σ)}
    {insert : ρ → Tool σ → ρ}
    (hinsert : ∀ registry tool name, get (insert registry tool) name =
      if name = tool.name then some tool else get registry name)
    (registrations : List (Registration σ)) (registry : ρ) (name : String) :
    get (registrations.foldl
        (fun registry registration => insert registry registration.tool)
      registry) name = ((lastNamed name registrations).map tool).or
        (get registry name) := by
  induction registrations generalizing registry with
  | nil => rfl
  | cons registration later ih =>
      rw [List.foldl_cons, ih, lastNamed, hinsert]
      cases lastNamed name later with
      | some last => rfl
      | none =>
          by_cases h : registration.tool.name = name
          · simp [h]
          · simp [h, Ne.symm h]

theorem registerInLoop_get (registrations : List (Registration σ))
    (name : String) :
    (registerInLoop registrations).get name =
      (lastNamed name registrations).map tool := by
  have hinsert : ∀ (tools : Retrieval.ToolRegistry σ) (tool : Tool σ) (name : String),
      (tools.register tool).get name =
        if name = tool.name then some tool else tools.get name :=
    fun _ _ _ => rfl
  exact (get_foldl hinsert registrations .new name).trans Option.or_none

theorem register_get (registrations : List (Registration σ)) (name : String) :
    (register registrations).get name =
      (lastNamed name registrations).map tool := by
  have hinsert : ∀ (registry : ToolRegistry σ) (tool : Tool σ) (name : String),
      (registry.register tool).get name =
        if name = tool.name then some tool else registry.get name :=
    fun registry tool name =>
      HashMap.lookup_insert_eq_ite registry.tools tool.name name tool
  exact (get_foldl hinsert registrations .new name).trans Option.or_none

theorem lastNamed_available (registrations : List (Registration σ))
    (name : String) :
    lastNamed name (available registrations) =
      (lastNamed name registrations).filter isNative := by
  induction registrations with
  | nil => rfl
  | cons registration later ih =>
      rw [available]
      by_cases hname : registration.tool.name = name
      · rw [hname]
        cases hlast : lastNamed name later with
        | some last => simp [lastNamed, ih, hlast]
        | none =>
            cases hnative : registration.isNative <;>
              simp [lastNamed, ih, hlast, hname, hnative, Option.filter]
      · split <;> simp [lastNamed, ih, hname]

theorem of_mem_available {registrations : List (Registration σ)}
    {registration : Registration σ} (h : registration ∈ available registrations) :
    registration.isNative = true ∧ registration ∈ registrations := by
  induction registrations with
  | nil => cases h
  | cons first later ih =>
      rw [available] at h
      split at h
      next hkeep =>
        rcases List.mem_cons.mp h with rfl | hlater
        · exact ⟨(Bool.and_eq_true_iff.mp hkeep).1, List.mem_cons_self⟩
        · exact ⟨(ih hlater).1, List.mem_cons_of_mem _ (ih hlater).2⟩
      next => exact ⟨(ih h).1, List.mem_cons_of_mem _ (ih h).2⟩

theorem lastNamed_eq_none_iff {name : String}
    {registrations : List (Registration σ)} :
    lastNamed name registrations = none ↔
      ∀ registration ∈ registrations, registration.tool.name ≠ name := by
  induction registrations with
  | nil => simp [lastNamed]
  | cons registration later ih =>
      simp [lastNamed, Option.or_eq_none_iff, ih, and_comm]

end Registration

/-! ## Turns -/

/-- The same action, or two refusals. -/
def Alike (x y : Action σ (Result ToolResult)) : Prop :=
  x = y ∨ ∃ e e', x = pure (.error e) ∧ y = pure (.error e')

private theorem collectTools_of_alike {tools tools' : Retrieval.ToolRegistry σ}
    {ctx : TenantContext}
    (h : ∀ invocation,
      Alike (tools.invoke ctx invocation) (tools'.invoke ctx invocation))
    (requests : List Retrieval.ToolRequest) :
    Retrieval.collectTools tools ctx requests =
      Retrieval.collectTools tools' ctx requests := by
  induction requests with
  | nil => rfl
  | cons request rest ih =>
      rw [Retrieval.collectTools, Retrieval.collectTools, ih]
      rcases h request.invocation with hsame | ⟨e, e', herror, herror'⟩
      · rw [hsame]
      · rw [herror, herror']
        rfl

theorem runTurn_of_alike {tools tools' : Retrieval.ToolRegistry σ}
    {ctx : TenantContext}
    (h : ∀ invocation,
      Alike (tools.invoke ctx invocation) (tools'.invoke ctx invocation))
    (knowledge : Retrieval.Knowledge σ) (llm : LlmProvider σ)
    (request : Retrieval.GenAiRequest) :
    Retrieval.runTurn ctx knowledge tools llm request =
      Retrieval.runTurn ctx knowledge tools' llm request := by
  have hgenerate : Retrieval.generate ctx tools llm request =
      Retrieval.generate ctx tools' llm request := by
    funext retrieved
    rw [Retrieval.generate, Retrieval.generate, collectTools_of_alike h]
  rw [Retrieval.runTurn, Retrieval.runTurn, hgenerate]

namespace Registration

theorem alike_available (registrations : List (Registration σ))
    (ctx : TenantContext) (invocation : ToolInvocation) :
    Alike ((registerInLoop registrations).invoke ctx invocation)
      ((registerInLoop (available registrations)).invoke ctx invocation) := by
  unfold Retrieval.ToolRegistry.invoke
  rw [registerInLoop_get, registerInLoop_get, lastNamed_available]
  rcases lastNamed invocation.name registrations with _ | (tool | client)
  · exact .inl rfl
  · exact .inl rfl
  · exact .inr ⟨_, _, rfl, rfl⟩

theorem invoke_register (registrations : List (Registration σ))
    (ctx : TenantContext) (invocation : ToolInvocation) :
    (register registrations).invoke ctx invocation =
      (registerInLoop registrations).invoke ctx invocation := by
  have hget : (register registrations).get invocation.name =
      (registerInLoop registrations).get invocation.name :=
    (register_get registrations invocation.name).trans
      (registerInLoop_get registrations invocation.name).symm
  unfold ToolRegistry.invoke Retrieval.ToolRegistry.invoke
  generalize (register registrations).get invocation.name = found at hget
  subst hget
  cases (registerInLoop registrations).get invocation.name <;> rfl

private theorem mem_toolNames {order : IterationOrder String (Tool σ)}
    {registrations : List (Registration σ)} {name : String} :
    name ∈ (register registrations).toolNames order ↔
      ∃ registration ∈ registrations, registration.tool.name = name := by
  have hlookup : name ∈ (register registrations).toolNames order ↔
      ∃ tool, (register registrations).get name = some tool := by
    rw [ToolRegistry.toolNames, List.mem_map]
    constructor
    · rintro ⟨entry, hentry, rfl⟩
      rw [← Multiset.mem_coe, order.iterate_entries] at hentry
      exact ⟨entry.2, HashMap.mem_entries.mp hentry⟩
    · rintro ⟨tool, htool⟩
      refine ⟨⟨name, tool⟩, ?_, rfl⟩
      rw [← Multiset.mem_coe, order.iterate_entries]
      exact HashMap.mem_entries.mpr htool
  rw [hlookup, register_get]
  by_cases hnone : lastNamed name registrations = none
  · have hall := lastNamed_eq_none_iff.mp hnone
    rw [hnone]
    constructor
    · rintro ⟨tool, htool⟩
      cases htool
    · rintro ⟨registration, hmem, hname⟩
      exact absurd hname (hall registration hmem)
  · obtain ⟨last, hlast⟩ := Option.ne_none_iff_exists'.mp hnone
    rw [hlast]
    refine ⟨fun _ => ?_, fun _ => ⟨last.tool, rfl⟩⟩
    by_contra hnot
    exact hnone (lastNamed_eq_none_iff.mpr fun registration hmem hname =>
      hnot ⟨registration, hmem, hname⟩)

end Registration

/--
Whatever was registered in whatever order, a turn is that over the native tools
whose name was not registered again later.  The registry of this crate answers
every invocation like that of the loop, and lists every registered name, also
those that cannot be invoked.
-/
theorem remote_tools_take_no_part (registrations : List (Registration σ))
    (ctx : TenantContext) (knowledge : Retrieval.Knowledge σ) (llm : LlmProvider σ)
    (request : Retrieval.GenAiRequest) :
    Retrieval.runTurn ctx knowledge (Registration.registerInLoop registrations)
        llm request =
        Retrieval.runTurn ctx knowledge
          (Registration.registerInLoop (Registration.available registrations))
              llm request ∧
      (∀ registration ∈ Registration.available registrations,
        registration.isNative = true ∧ registration ∈ registrations) ∧
      (∀ invocation, (Registration.register registrations).invoke ctx invocation =
        (Registration.registerInLoop registrations).invoke ctx invocation) ∧
      ∀ order name, name ∈ (Registration.register registrations).toolNames order ↔
        ∃ registration ∈ registrations, registration.tool.name = name := by
  refine ⟨runTurn_of_alike (Registration.alike_available registrations ctx)
      knowledge llm
    request, ?_, Registration.invoke_register registrations ctx, ?_⟩
  · exact fun registration => Registration.of_mem_available
  · exact fun order name => Registration.mem_toolNames

/-- A remote handle of its name hides the native tool. -/
example : Registration.available
    [.native EchoTool.tool, .remote ⟨"echo", "an echo elsewhere"⟩] =
      ([] : List (Registration Unit)) := rfl

theorem callTool_withNativeTools (clock : Action σ (Except String UInt64))
    (decimal : Float → Nat × Nat) (ctx : TenantContext)
    (invocation : ToolInvocation) :
    (McpServer.withNativeTools clock decimal).callTool ctx invocation =
      (defaultToolRegistry clock decimal).invoke ctx invocation :=
  Registration.invoke_register [.native EchoTool.tool,
    .native (CurrentTimeTool.tool clock),
    .native (CalculatorTool.tool decimal)] ctx invocation

end Milona.Tools
