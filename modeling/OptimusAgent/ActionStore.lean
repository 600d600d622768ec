/-
**The store of session actions.**

A session owns the work that waits for it: prompts and commands that were submitted, in two lanes.
An action is queued, selected, prepared, committed and run, and ends completed, failed or cancelled;
only then is it released.  The store keeps the two lanes and a ticket for every action it owns.
This module embeds `core/session_action_store.rs`.

The lanes are lists and the tickets are known by their ids.  The payload of an action is a
parameter; of it the store reads the delivery records, and of a record the message that it stands
for in the transcript.
-/

import OptimusAgent.Text

namespace Actions

/-! ### Actions -/

inductive InputSource where
  | interactive
  | rpc
  | extension
  deriving DecidableEq

inductive ActionSource where
  | input (source : InputSource)
  | internal
  deriving DecidableEq

/-- The lanes. -/
inductive DeliveryPolicy where
  | nextTurnBoundary
  | whenRunIdle
  deriving DecidableEq

inductive SessionActionPriority where
  | background
  | user
  | pinned
  deriving DecidableEq

/-- Priorities in the order of the source. -/
def SessionActionPriority.rank : SessionActionPriority → ℕ
  | .background => 0
  | .user => 1
  | .pinned => 2

inductive WakePolicy where
  | immediate
  | onLowerBoundary
  | externalResume
  deriving DecidableEq

inductive DeliveryRecordRole where
  | primary
  | prefixed
  | nextTurn
  deriving DecidableEq

/-- A message that an action delivers. -/
structure DeliveryRecord (Msg : Type) where
  id : Str
  role : DeliveryRecordRole
  message : Msg
  started : Bool
  durable : Bool
  ownerActionId : Str
  deriving DecidableEq

inductive ActionExecution where
  | agentTurn
  | sessionCommand
  deriving DecidableEq

/-- The lifecycle of an action, with JSON values `J`. -/
inductive ActionLifecycle (J : Type) where
  | queued
  | selected
  | preparing (preparation : Option J)
  | committing
  | running (execution : ActionExecution)
  | completed
  | failed (error : Str)
  | cancelled
  deriving DecidableEq

inductive ActionLifecycleState where
  | queued
  | selected
  | preparing
  | committing
  | running
  | completed
  | failed
  | cancelled
  deriving DecidableEq

def ActionLifecycle.state {J : Type} : ActionLifecycle J → ActionLifecycleState
  | .queued => .queued
  | .selected => .selected
  | .preparing _ => .preparing
  | .committing => .committing
  | .running _ => .running
  | .completed => .completed
  | .failed _ => .failed
  | .cancelled => .cancelled

def ActionLifecycleState.asStr : ActionLifecycleState → Str
  | .queued => "queued"
  | .selected => "selected"
  | .preparing => "preparing"
  | .committing => "committing"
  | .running => "running"
  | .completed => "completed"
  | .failed => "failed"
  | .cancelled => "cancelled"

structure SessionAction (P J : Type) where
  id : Str
  source : ActionSource
  priority : Option SessionActionPriority
  delivery : DeliveryPolicy
  wake : WakePolicy
  payload : P
  lifecycle : ActionLifecycle J
  queueKey : Option Str
  agentMessageId : Option Str
  suppressAutonomousContinuation : Option Bool
  deriving DecidableEq

/-- What the store reads of a payload `P`: its records, whether the message of a record is a custom
one, and the message of the transcript that it becomes. -/
class SessionPayload (P : Type) (Msg Entry : outParam Type) where
  records : P → List (DeliveryRecord Msg)
  isCustom : Msg → Bool
  transcriptMessage : Msg → Entry

def isTerminal (state : ActionLifecycleState) : Bool := state ∈ [ActionLifecycleState.completed, .failed, .cancelled]

def clearableStates : List ActionLifecycleState := [.queued, .selected, .preparing]

def legalTransitions : ActionLifecycleState → List ActionLifecycleState
  | .queued => [.selected, .failed, .cancelled]
  | .selected => [.queued, .preparing, .running, .failed, .cancelled]
  | .preparing => [.queued, .committing, .failed, .cancelled]
  | .committing => [.queued, .running, .failed, .cancelled]
  | .running => [.completed, .failed, .cancelled]
  | .completed => []
  | .failed => []
  | .cancelled => []

structure RollbackProof (Entry : Type) where
  dispatchSettled : Bool
  transcript : List Entry

section

variable {P Msg Entry J : Type} [SessionPayload P Msg Entry]

def SessionAction.state (action : SessionAction P J) : ActionLifecycleState := action.lifecycle.state

def effectivePriority (action : SessionAction P J) : SessionActionPriority := action.priority.getD <|
    let human := action.source = .input .interactive || action.source = .input .rpc
    let agentTraffic := action.agentMessageId.any fun id => ("agentmsg_" : Str).isPrefixOf id
    let custom := ((SessionPayload.records action.payload).find? fun record =>
      record.role = .primary).any fun record => SessionPayload.isCustom P record.message
    if human && !agentTraffic && !custom then .user else .background

def primaryRecords (action : SessionAction P J) : List (DeliveryRecord Msg) :=
  (SessionPayload.records action.payload).filter fun record => record.role = .primary

variable [DecidableEq Entry]

/-- A dispatch that was not settled, or a primary message that has reached the transcript, cannot be
rolled back. -/
def checkRollback (action : SessionAction P J) (proof : Option (RollbackProof Entry)) : Except Str Unit :=
  if (proof.any fun proof => proof.dispatchSettled) = false then
    .error "Committing session action rollback requires a settled dispatch and transcript proof"
  else if ((primaryRecords action).any fun record =>
      ((proof.map RollbackProof.transcript).getD []).any fun entry =>
        entry = SessionPayload.transcriptMessage P record.message) = true then
    .error "Cannot roll back a session action whose primary message is durable in the transcript"
  else .ok ()

def transitionSessionAction (action : SessionAction P J) (next : ActionLifecycle J)
    (proof : Option (RollbackProof Entry)) : Except Str (SessionAction P J) :=
  if next.state ∉ legalTransitions action.state then
    .error ("Illegal session action lifecycle transition: " ++ action.state.asStr ++ " -> " ++ next.state.asStr)
  else
    match if action.state = .committing ∧ next.state = .queued then checkRollback action proof
      else .ok () with
    | .error error => .error error
    | .ok _ => .ok { action with lifecycle := next }

end

/-! ### The store -/

/-- The lanes, and the ids for which there is a ticket. -/
structure ActionStore (P J : Type) where
  nextTurnBoundary : List (SessionAction P J)
  whenRunIdle : List (SessionAction P J)
  tickets : Finset Str

namespace ActionStore

variable {P Msg Entry J : Type} [SessionPayload P Msg Entry]

def new : ActionStore P J := ⟨[], [], ∅⟩

def list (s : ActionStore P J) : DeliveryPolicy → List (SessionAction P J)
  | .nextTurnBoundary => s.nextTurnBoundary
  | .whenRunIdle => s.whenRunIdle

def setList (s : ActionStore P J) (policy : DeliveryPolicy) (l : List (SessionAction P J)) : ActionStore P J :=
  match policy with
  | .nextTurnBoundary => { s with nextTurnBoundary := l }
  | .whenRunIdle => { s with whenRunIdle := l }

/-- All actions, those of the first lane first. -/
def ownedActions (s : ActionStore P J) : List (SessionAction P J) := s.nextTurnBoundary ++ s.whenRunIdle

def actions (s : ActionStore P J) (policy : Option DeliveryPolicy) : List (SessionAction P J) :=
  match policy with
  | some policy => s.list policy
  | none => s.ownedActions

def clearableActions (s : ActionStore P J) (policy : Option DeliveryPolicy) : List (SessionAction P J) :=
  (s.actions policy).filter fun action => action.state ∈ clearableStates

def notOwned (id : Str) : Str := "Session action " ++ id ++ " is not owned by this store"

def assertNewAction (s : ActionStore P J) (action : SessionAction P J) : Except Str Unit :=
  if action.state ≠ .queued then .error "Only queued session actions can be enqueued"
  else if action.id ∈ s.tickets then .error ("Duplicate session action id: " ++ action.id)
  else .ok ()

/-- An action enters its lane at a place, and gets a ticket. -/
def insertAt (s : ActionStore P J) (index : ℕ) (action : SessionAction P J) : ActionStore P J :=
  { s.setList action.delivery ((s.list action.delivery).insertIdx index action) with
    tickets := insert action.id s.tickets }

/-- Only the queued work of lower priority at the end of the lane is overtaken. -/
def enqueue (s : ActionStore P J) (action : SessionAction P J) : ActionStore P J × Except Str Unit :=
  match s.assertNewAction action with
  | .error error => (s, .error error)
  | .ok _ =>
    let overtaken := (s.list action.delivery).rdropWhile fun item =>
      item.state = .queued ∧ (effectivePriority item).rank < (effectivePriority action).rank
    (s.insertAt overtaken.length action, .ok ())

def enqueueTail (s : ActionStore P J) (action : SessionAction P J) : ActionStore P J × Except Str Unit :=
  match s.assertNewAction action with
  | .error error => (s, .error error)
  | .ok _ => (s.insertAt (s.list action.delivery).length action, .ok ())

/-- Before the first queued action of the lane. -/
def enqueueFront (s : ActionStore P J) (action : SessionAction P J) : ActionStore P J × Except Str Unit :=
  match s.assertNewAction action with
  | .error error => (s, .error error)
  | .ok _ =>
    let firstQueued := (s.list action.delivery).findIdx? fun item => item.state = .queued
    (s.insertAt (firstQueued.getD (s.list action.delivery).length) action, .ok ())

/-- The lane and the place of the first queued action. -/
def firstQueued (s : ActionStore P J) : Option (DeliveryPolicy × ℕ) :=
  ((s.nextTurnBoundary.findIdx? fun item => item.state = .queued).map fun index => (.nextTurnBoundary, index)).or
  ((s.whenRunIdle.findIdx? fun item => item.state = .queued).map fun index => (.whenRunIdle, index))

variable [DecidableEq Entry]

def selectFirst (s : ActionStore P J) : ActionStore P J × Except Str (Option (SessionAction P J)) :=
  match s.firstQueued with
  | none => (s, .ok none)
  | some (policy, index) =>
    match (s.list policy)[index]? with
    | none => (s, .ok none)
    | some action =>
      match transitionSessionAction action .selected none with
      | .error error => (s, .error error)
      | .ok action => (s.setList policy ((s.list policy).set index action), .ok (some action))

/-- The lane and the place of an action, in the order of the lanes. -/
def place (s : ActionStore P J) (id : Str) : Option (DeliveryPolicy × ℕ) :=
  ((s.nextTurnBoundary.findIdx? fun item => item.id = id).map fun index => (.nextTurnBoundary, index)).or
  ((s.whenRunIdle.findIdx? fun item => item.id = id).map fun index => (.whenRunIdle, index))

/-- Writes an action back. -/
def updateAction (s : ActionStore P J) (action : SessionAction P J) : ActionStore P J × Except Str Unit :=
  match s.place action.id with
  | none => (s, .error (notOwned action.id))
  | some (policy, index) => (s.setList policy ((s.list policy).set index action), .ok ())

/-- Cancels the stored actions one after the other; what was cancelled before an error stays so. -/
def removeEach (s : ActionStore P J) :
    List (SessionAction P J) → ActionStore P J × Except Str (List (SessionAction P J))
  | [] => (s, .ok [])
  | candidate :: candidates =>
    match s.place candidate.id with
    | none => (s, .error (notOwned candidate.id))
    | some (policy, index) =>
      match (s.list policy)[index]? with
      | none => (s, .error (notOwned candidate.id))
      | some action =>
        match transitionSessionAction action .cancelled none with
        | .error error => (s, .error error)
        | .ok action =>
          match removeEach (s.setList policy ((s.list policy).set index action)) candidates with
          | (s, removed) => (s, removed.map (action :: ·))

def remove (s : ActionStore P J) (predicate : SessionAction P J → Bool)
    (candidates : Option (List (SessionAction P J))) :
    ActionStore P J × Except Str (List (SessionAction P J)) :=
  s.removeEach ((candidates.getD (s.clearableActions none)).filter predicate)

def swapQueued (s : ActionStore P J) (left right : SessionAction P J) : ActionStore P J × Except Str Unit :=
  if left.state ≠ .queued ∨ right.state ≠ .queued ∨ left.delivery ≠ right.delivery then
    (s, .error "Only queued actions in the same lane can be swapped")
  else
    let lane := s.list left.delivery
    match lane.findIdx? fun item => item.id = left.id, lane.findIdx? fun item => item.id = right.id with
    | some i, some j =>
      match lane[i]?, lane[j]? with
      | some x, some y => (s.setList left.delivery ((lane.set i y).set j x), .ok ())
      | _, _ => (s, .ok ())
    | _, _ => (s, .error "Queued action is not owned by this store")

/-- Where an action goes that is moved to a place among the queued ones of a lane. -/
def insertPlace (target : List (SessionAction P J)) (index : ℕ) : ℕ :=
  let queued := (target.filter fun item => item.state = .queued).map SessionAction.id
  match queued[min index queued.length]? with
  | some beforeId => (target.findIdx? fun item => item.id = beforeId).getD target.length
  | none => target.length

/-- Moves an action; what enters the lane is the given value. -/
def moveQueued (s : ActionStore P J) (action : SessionAction P J) (delivery : DeliveryPolicy)
    (index : ℕ) : ActionStore P J × SessionAction P J × Except Str Unit :=
  if action.state ≠ .queued then (s, action, .error "Only queued actions can be moved")
  else
    match (s.list action.delivery).findIdx? fun item => item.id = action.id with
    | none => (s, action, .error (notOwned action.id))
    | some sourceIndex =>
      let s := s.setList action.delivery ((s.list action.delivery).eraseIdx sourceIndex)
      let action := { action with delivery := delivery }
      (s.setList delivery ((s.list delivery).insertIdx (insertPlace (s.list delivery) index) action), action, .ok ())

def releaseTerminal (s : ActionStore P J) (action : SessionAction P J) : ActionStore P J × Except Str Unit :=
  if isTerminal action.state = false then
    (s, .error ("Cannot release nonterminal session action " ++ action.id))
  else
    let lane := s.list action.delivery
    let lane :=
      match lane.findIdx? fun item => item.id = action.id with
      | some index => lane.eraseIdx index
      | none => lane
    ({ s.setList action.delivery lane with tickets := s.tickets.erase action.id }, .ok ())

/-- Puts an action back into the queue, and writes it back. -/
def rollback (s : ActionStore P J) (action : SessionAction P J) (proof : Option (RollbackProof Entry)) :
    ActionStore P J × SessionAction P J × Except Str Unit :=
  match transitionSessionAction action .queued proof with
  | .error error => (s, action, .error error)
  | .ok action =>
    match s.updateAction action with
    | (s, result) => (s, action, result)

end ActionStore

end Actions
