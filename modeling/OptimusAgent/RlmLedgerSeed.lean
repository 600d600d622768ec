/-
**Seeding the ledger from the registries.**

Before there was a ledger, each session kept a registry of its children.  A ledger that does not
exist yet is seeded from them: from the sessions of the directory on, the registry of each session
is read, and the children in it are recorded and queued.  This module embeds `seed` and
`read_legacy_rlm_subagent_registry` of `modes/daemon/rlm_ledger.rs`, over a finite family of
registries that are given by their accepted lines; a session has one registry, however its path is
spelled.

A path is marked as visited before the id of its entry is looked at.  An entry without an id thus
hides its path, and all sessions below it, from entries that come later.
-/

import OptimusAgent.BreadthFirst
import OptimusAgent.RlmLedgerFamily

namespace RlmLedger

open Str RowCodec EventLog BreadthFirst List

/-! ### Registries -/

inductive RegistryStatus where
  | running
  | completed
  | deleted
  deriving DecidableEq

structure RlmLedgerSeedRegistryEntry where
  childId : Str
  sessionName : Str
  sessionFile : Str
  rlmDepth : Option I64
  status : RegistryStatus
  deriving DecidableEq

structure SeedState where
  visited : List Str
  records : List RlmLedgerSpawnRecord
  queue : List (Str × I64)

section

variable {F : Type} [LedgerHost F]

-- The times of the records.
variable (now : ℕ → Str)

def SeedState.start (roots : List Str) : SeedState :=
  ⟨roots.map canonicalSessionPath, [], roots.map fun file => (file, ⟨0, by decide⟩)⟩

/-- The path that an entry leads to. -/
def target (entry : RlmLedgerSeedRegistryEntry) : Str := canonicalSessionPath entry.sessionFile

def SeedState.walk (s : SeedState) : Walk Str :=
  ⟨s.visited, s.records.map RlmLedgerSpawnRecord.child, s.queue.map fun e => canonicalSessionPath e.1⟩

variable {registries : Registries}

end

/-! ### A hidden session -/

end RlmLedger
