import BitEquiv.Bench.Pipeline

/-!
# The worker pool

Workers share a counter of cases and a channel for what comes of them. A worker claims the
next case, processes it and sends the record, until there is no case left. A worker whose
pipeline breaks off sends a notice and stops. A schedule says whose turn it is; which one
comes about is not for the workers to choose. Processing a case is one turn: each case has a
directory of its own.
-/

namespace BitEquiv
namespace Bench

open Execution (Files)

/-- What a worker sends: the record of a case, or the index of one that broke off. -/
inductive Message where
  | done (r : CaseRecord)
  | panicked (index : Nat)
deriving DecidableEq

namespace Message

def record? : Message → Option CaseRecord
  | done r => some r
  | panicked _ => none

def panicked? : Message → Option Nat
  | done _ => none
  | panicked index => some index

end Message

/-- A call of the pipeline for the case with an index, and what came of it. -/
structure Call where
  index : Nat
  result : Option CaseRecord
deriving DecidableEq

def Call.message (call : Call) : Message :=
  match call.result with
  | some r => .done r
  | none => .panicked call.index

inductive Worker where
  | claims
  | processes (index : Nat) (c : Case) (workDir : String)
  | sends (m : Message)
  | stopped

namespace Worker

def isStopped : Worker → Bool
  | stopped => true
  | _ => false

def claiming (pairs : List (Case × String)) (index : Nat) : Worker :=
  match pairs[index]? with
  | some (c, workDir) => processes index c workDir
  | none => stopped

def sending : Message → Worker
  | .done _ => claims
  | .panicked _ => stopped

end Worker

/-- A pool in a run: the next index, its workers, the messages in order of arrival and the
calls made so far. -/
structure Pool where
  next : Nat
  workers : List Worker
  channel : List Message
  calls : List Call
  files : Files

namespace Pool

def start (workers : Nat) (files : Files) : Pool :=
  ⟨0, List.replicate workers .claims, [], [], files⟩

/-- The turn of a worker. The counter is read and increased in one step. -/
def turn (p : Pipeline) (pairs : List (Case × String)) (pool : Pool) (w : Nat) : Pool :=
  match pool.workers[w]? with
  | none => pool
  | some .stopped => pool
  | some .claims =>
      { pool with
        next := pool.next + 1
        workers := pool.workers.set w (.claiming pairs pool.next) }
  | some (.processes index c workDir) =>
      let (result, files) := p.process c workDir pool.files
      let call : Call := ⟨index, result⟩
      { pool with
        workers := pool.workers.set w (.sends call.message)
        calls := pool.calls ++ [call]
        files := files }
  | some (.sends m) =>
      { pool with
        workers := pool.workers.set w (.sending m)
        channel := pool.channel ++ [m] }

def run (p : Pipeline) (pairs : List (Case × String)) (pool : Pool) (schedule : List Nat) : Pool :=
  schedule.foldl (turn p pairs) pool

def isFinished (pool : Pool) : Bool := pool.workers.all (·.isStopped)

def records (pool : Pool) : List CaseRecord := pool.channel.filterMap (·.record?)

def panicked? (pool : Pool) : Option Nat := pool.channel.findSome? (·.panicked?)

/-- Turns for all workers in order, again and again; a case takes three turns of a worker, and
every worker has one more to stop. -/
def rounds (workers cases : Nat) : List Nat :=
  (List.replicate (3 * cases + workers) (List.range workers)).flatten

end Pool
end Bench
end BitEquiv
