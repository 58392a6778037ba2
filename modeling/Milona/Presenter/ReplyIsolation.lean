import Milona.Presenter.ServedRuns

/-!
# Isolation of identities

An identity is a tenant and a subject.  What an identity may be answered in a
run, over all iteration orders of the map, it may be answered in the run without
the requests of the other identities and the writes of the other tenants, as
long as no chunk id is shared between tenants.
-/

namespace Milona.Presenter

open Milona.Core Milona.Foundation Milona.Retrieval Milona.Adapter
open Milona.Storage.Memory

/-! ## Alike answers -/

section Alike

variable (order : IterationOrder ChunkId StoredVector)

/-- The own records and edges determine what may be found, over all orders. -/
theorem exists_itemsIn_eq {tenantId : TenantId} {contents contents' : Contents}
    (h : StoreCall.SameView tenantId contents contents') {ctx : TenantContext}
    (hctx : ctx.tenantId = tenantId) (question : String) :
    ∃ order', itemsIn order' contents' ctx question =
      itemsIn order contents ctx question := by
  subst hctx
  obtain ⟨order', horder'⟩ := VectorCall.exists_scoredList_eq h.records order
    (naiveEmbed question)
  exact ⟨order', by rw [itemsIn, itemsIn, horder', h.edges]⟩

theorem exists_respond_eq {ctx : TenantContext} {contents contents' : Contents}
    (h : StoreCall.SameView ctx.tenantId contents contents')
    (framework : Framework) (model : Model) (request : Request) :
    ∃ order', respond framework model (itemsIn order' contents')
        (request.asCaller ctx) =
      respond framework model (itemsIn order contents) (request.asCaller ctx) := by
  have hcaller : (request.asCaller ctx).extension = some ctx := rfl
  unfold respond respondWith
  rw [hcaller]
  cases routeOf (request.asCaller ctx) with
  | healthz => exact ⟨order, rfl⟩
  | unmatched => exact ⟨order, rfl⟩
  | query =>
      cases framework.decodeQuestion (request.asCaller ctx) with
      | error rejection => exact ⟨order, rfl⟩
      | ok question =>
          obtain ⟨order', horder'⟩ := exists_itemsIn_eq order h rfl question
          exact ⟨order', by simp only [horder']⟩

end Alike

namespace Deployment

variable {deployment : Deployment} {contents : Contents} {databases : Databases}

/-! ## Runs -/

/-- The responses that an identity may get, over all iteration orders. -/
def Replies (deployment : Deployment) (identity : TenantId × String) :
    World → List ServerEvent → List (Outcome Response) → Prop
  | _, [], log => log = []
  | world, .write call :: events, log =>
      deployment.Replies identity (writeStores call world).2 events log
  | world, .request request :: events, log => ∃ order,
      let served := deployment.serve order request world
      if identityOf deployment.service request = some identity then
        ∃ later, log = served.1 :: later ∧
          deployment.Replies identity served.2 events later
      else deployment.Replies identity served.2 events log

/-- The event is a request of the identity or a write of its tenant. -/
def Concerns (deployment : Deployment) (identity : TenantId × String) :
    ServerEvent → Bool
  | .request request => identityOf deployment.service request = some identity
  | .write call => call.tenantId = identity.1

/-- The processes look the same to an identity. -/
structure SameTo (identity : TenantId × String) (checks checks' : Checks)
    (contents contents' : Contents) : Prop where
  checks : checks.timesOf (limiterKey identity.1 identity.2) =
    checks'.timesOf (limiterKey identity.1 identity.2)
  view : StoreCall.SameView identity.1 contents contents'

theorem SameTo.symm {identity : TenantId × String} {checks checks' : Checks}
    {contents contents' : Contents}
    (h : SameTo identity checks checks' contents contents') :
    SameTo identity checks' checks contents' contents :=
  ⟨h.checks.symm, h.view.records.symm, h.view.edges.symm⟩

theorem checks_responseTo_of_other {identity : TenantId × String}
    {request : Request}
    (h : identityOf deployment.service request ≠ some identity)
    (order : IterationOrder ChunkId StoredVector) (checks : Checks)
    (contents : Contents) :
    (deployment.responseTo order checks contents request).2.timesOf
        (limiterKey identity.1 identity.2) =
      checks.timesOf (limiterKey identity.1 identity.2) := by
  unfold responseTo guarded
  split
  · cases hcaller : authenticate deployment.service.apiKeys request with
    | error reason => rfl
    | ok ctx =>
        have hkey : limiterKey ctx.tenantId ctx.subject ≠
            limiterKey identity.1 identity.2 := by
          intro hsame
          obtain ⟨htenant, hsubject⟩ := limiterKey_inj hsame
          apply h
          simp [identityOf, hcaller, htenant, hsubject]
        dsimp only
        split <;> exact timesOf_append_of_ne hkey checks request.time
  · rfl

private theorem timesOf_append_congr {key : String} {checks checks' : Checks}
    (h : checks.timesOf key = checks'.timesOf key) (time : Instant) :
    Checks.timesOf (checks ++ [(key, time)]) key =
      Checks.timesOf (checks' ++ [(key, time)]) key := by
  rw [timesOf_append_self, timesOf_append_self, h]

/-- Step lemma: an identity may be answered alike by processes that look the same to it. -/
theorem exists_responseTo_eq {identity : TenantId × String} {request : Request}
    (hown : identityOf deployment.service request = some identity)
    {checks checks' : Checks} {contents contents' : Contents}
    (h : SameTo identity checks checks' contents contents')
    (order : IterationOrder ChunkId StoredVector) :
    ∃ order',
      (deployment.responseTo order' checks' contents' request).1 =
        (deployment.responseTo order checks contents request).1 ∧
      (deployment.responseTo order checks contents request).2.timesOf
          (limiterKey identity.1 identity.2) =
        (deployment.responseTo order' checks' contents' request).2.timesOf
          (limiterKey identity.1 identity.2) := by
  cases treatment deployment.framework deployment.service request with
  | unguarded hguards =>
      have hroute : routeOf request ≠ .query := by
        intro hquery
        rw [guards, hquery] at hguards
        cases hguards
      refine ⟨order, ?_, ?_⟩
      · simp only [responseTo, guarded, hguards, Bool.false_eq_true,
          if_false, respond,
          respondWith]
        cases hcase : routeOf request with
        | query => exact absurd hcase hroute
        | healthz => rfl
        | unmatched => rfl
      · simpa [responseTo, guarded, hguards] using h.checks
  | refused reason hguards hcaller =>
      rw [identityOf, hcaller] at hown
      cases hown
  | checked ctx hguards hcaller =>
      have hidentity : identity = (ctx.tenantId, ctx.subject) := by
        rw [identityOf, hcaller] at hown
        exact (Option.some.inj hown).symm
      subst hidentity
      have hadmitted : Admitted deployment.service checks ctx request.time =
          Admitted deployment.service checks' ctx request.time := by
        rw [Admitted, Admitted, h.checks]
      obtain ⟨order', horder'⟩ :=
        exists_respond_eq order h.view deployment.framework
        deployment.model request
      refine ⟨order', ?_, ?_⟩
      · simp only [responseTo, guarded, hguards, hcaller, if_true,
          hadmitted, horder']
        split <;> rfl
      · simp only [responseTo, guarded, hguards, hcaller, if_true]
        split <;> split <;> exact timesOf_append_congr h.checks request.time

section Erasure

variable {identity : TenantId × String} {history : List StoreCall}
variable (hunshared : StoreCall.ChunkIdsUnshared history)
include hunshared

/-- Run lemma: the events that do not concern an identity may be erased. -/
theorem replies_filter {events : List ServerEvent}
    (hmoderate : ∀ event ∈ events, event.BringsModerate)
    (hhistory : ∀ call, ServerEvent.write call ∈ events → call ∈ history)
    {checks checks' : Checks} {contents contents' : Contents}
    (hwritten : StoreCall.WrittenBy history contents)
    (hholds : VectorCall.HoldsModerate contents.records)
    (hholds' : VectorCall.HoldsModerate contents'.records)
    (hsame : SameTo identity checks checks' contents contents')
    (log : List (Outcome Response)) :
    deployment.Replies identity (.of databases checks contents) events log ↔
      deployment.Replies identity (.of databases checks' contents')
        (events.filter (deployment.Concerns identity)) log := by
  induction events generalizing checks checks' contents contents' log with
  | nil => rfl
  | cons event events ih =>
      have hrest := @ih (fun e he => hmoderate e (List.mem_cons_of_mem _ he))
        fun call hcall => hhistory call (List.mem_cons_of_mem _ hcall)
      have hbrings := hmoderate event List.mem_cons_self
      cases event with
      | write call =>
          have hcall := hhistory call List.mem_cons_self
          have hwritten' := hwritten.effect hcall
          have hafter := ServerEvent.holdsModerate_effect hholds hbrings
          rw [Replies, writeStores_of]
          by_cases hown : call.tenantId = identity.1
          · rw [List.filter_cons_of_pos (by simpa [Concerns] using hown), Replies,
              writeStores_of]
            exact hrest hwritten' hafter
                (ServerEvent.holdsModerate_effect hholds' hbrings)
              ⟨hsame.checks, hsame.view.effect call⟩ log
          · rw [List.filter_cons_of_neg (by simpa [Concerns] using hown)]
            have hspares := StoreCall.spares_of_unshared hunshared
              hwritten hcall hown
            have hunseen := StoreCall.sameView_effect_of_other hown hspares
            exact hrest hwritten' hafter hholds' ⟨hsame.checks,
              hunseen.records.trans hsame.view.records,
              hunseen.edges.trans hsame.view.edges⟩ log
      | request request =>
          by_cases hown : identityOf deployment.service request = some identity
          · rw [List.filter_cons_of_pos (by simpa [Concerns] using hown),
              Replies, Replies]
            simp only [hown, if_true, serve_of_moderate _ hholds,
              serve_of_moderate _ hholds']
            constructor
            · rintro ⟨order, later, rfl, hlater⟩
              obtain ⟨order', hresponse, hchecks⟩ :=
                exists_responseTo_eq hown hsame order
              refine ⟨order', later, by rw [hresponse], ?_⟩
              exact (hrest hwritten hholds hholds' ⟨hchecks, hsame.view⟩
                later).mp hlater
            · rintro ⟨order', later, rfl, hlater⟩
              obtain ⟨order, hresponse, hchecks⟩ :=
                exists_responseTo_eq hown hsame.symm order'
              refine ⟨order, later, by rw [hresponse], ?_⟩
              exact (hrest hwritten hholds hholds' ⟨hchecks.symm, hsame.view⟩
                later).mpr hlater
          · rw [List.filter_cons_of_neg (by simpa [Concerns] using hown), Replies]
            simp only [hown, if_false, serve_of_moderate _ hholds]
            have hchecks := fun order =>
              checks_responseTo_of_other hown order checks contents
            constructor
            · rintro ⟨order, hlater⟩
              exact (hrest hwritten hholds hholds'
                  ⟨(hchecks order).trans hsame.checks,
                hsame.view⟩ log).mp hlater
            · intro hlater
              refine ⟨.arbitrary, ?_⟩
              exact (hrest hwritten hholds hholds'
                  ⟨(hchecks .arbitrary).trans hsame.checks,
                hsame.view⟩ log).mpr hlater

end Erasure

def writeOf : ServerEvent → Option StoreCall
  | .write call => some call
  | .request _ => none

/--
What an identity may be answered in a run is what it may be answered without the
requests of other identities and the writes of other tenants.
-/
theorem replies_isolated (deployment : Deployment) (databases : Databases)
    {events : List ServerEvent}
    (hmoderate : ∀ event ∈ events, event.BringsModerate)
    (hunshared : StoreCall.ChunkIdsUnshared (events.filterMap writeOf))
    (identity : TenantId × String) :
    deployment.Replies identity (.fresh databases) events =
      deployment.Replies identity (.fresh databases)
        (events.filter (deployment.Concerns identity)) := by
  funext log
  refine propext (replies_filter hunshared hmoderate ?_
      (StoreCall.writtenBy_empty _) ?_ ?_
    ⟨rfl, rfl, rfl⟩ log)
  · exact fun call hcall => List.mem_filterMap.mpr ⟨_, hcall, rfl⟩
  · exact fun id record hlookup => by cases hlookup
  · exact fun id record hlookup => by cases hlookup

theorem replies_isolated_mixedEvents :
    twoUserDeployment.Replies (ourTenant, "user-a")
        (.fresh LocalSetup.databases) mixedEvents =
      twoUserDeployment.Replies (ourTenant, "user-a") (.fresh LocalSetup.databases)
        (mixedEvents.filter (twoUserDeployment.Concerns (ourTenant, "user-a"))) :=
  replies_isolated twoUserDeployment LocalSetup.databases
      bringsModerate_mixedEvents
    (by decide +kernel) (ourTenant, "user-a")

end Deployment

end Milona.Presenter
