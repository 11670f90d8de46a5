/-! # The life of an upload

```text
idle → splitting → sequential → committing → done
                 ↘ parallel   ↗
```

Every phase but `idle` may also end in `failed`, as long as it has not ended yet.
-/

namespace BlobUpload

/-- Where an upload stands. -/
inductive Phase where
  | idle
  /-- Settings are checked and the source is prepared. -/
  | splitting
  | sequential
  | parallel
  | committing
  | done
  | failed
  deriving DecidableEq, Repr

namespace Phase

/-- All phases, in the order in which an upload can meet them. -/
def all : List Phase := [idle, splitting, sequential, parallel, committing, done, failed]

def isTerminal : Phase → Bool
  | done | failed => true
  | _ => false

/-- Whether the second phase may follow the first. -/
def mayAdvanceTo : Phase → Phase → Bool
  | idle, splitting => true
  | splitting, sequential | splitting, parallel => true
  | sequential, committing | parallel, committing => true
  | committing, done => true
  | idle, failed => false
  | phase, failed => !phase.isTerminal
  | _, _ => false

def name : Phase → String
  | idle => "idle"
  | splitting => "splitting"
  | sequential => "sequential-dispatch"
  | parallel => "parallel-dispatch"
  | committing => "committing"
  | done => "done"
  | failed => "failed"

def ofName? (text : String) : Option Phase := all.find? (·.name = text)

def describe : Phase → String
  | idle => "Idle"
  | splitting => "Splitting"
  | sequential => "SequentialDispatch"
  | parallel => "ParallelDispatch"
  | committing => "Committing"
  | done => "Done"
  | failed => "Failed"

end Phase

/-- The phase an upload is in, and those it went through before, newest first. -/
structure Lifecycle where
  current : Phase := .idle
  past : List Phase := []
  deriving DecidableEq, Repr

namespace Lifecycle

def advance (next : Phase) (life : Lifecycle) : Lifecycle := ⟨next, life.current :: life.past⟩

end Lifecycle

end BlobUpload
