import BitEquiv.Bench.Document
import BitEquiv.Bench.Pool

/-!
# Runs

A run takes all cases of a corpus through a pipeline and reports on them. The cases
are taken in order by a pool of workers; when the pipeline breaks off for one of them,
the run has no report.
-/

namespace BitEquiv
namespace Bench

open Execution (Files joinPath)

inductive RunFault where
  | corpusRoot (path reason : String)
  | config (fault : ConfigFault)
  | directory (path reason : String)
  | reportWrite (path reason : String)
  | workerPanic (caseId : String)
deriving DecidableEq

def RunFault.message : RunFault → String
  | corpusRoot path reason => "cannot read corpus root " ++ path ++ ": " ++ reason
  | config fault => fault.message
  | directory path reason => "cannot prepare directory " ++ path ++ ": " ++ reason
  | reportWrite path reason => "cannot write report " ++ path ++ ": " ++ reason
  | workerPanic caseId => "worker panicked while processing case `" ++ caseId ++ "`"

namespace Run

/-- Make a directory. Its path from the root comes back, so that it means the same
to every program. -/
def prepare (path : String) (files : Files) : Except RunFault String × Files :=
  match files.makeDirectories path with
  | (some fault, files) => (.error (.directory path fault.systemText), files)
  | (none, files) =>
      match files.locate path with
      | .ok place => (.ok ("/" ++ String.intercalate "/" place), files)
      | .error fault => (.error (.directory path fault.systemText), files)

def prepareCases (root : String) :
    List Case → Files → Except RunFault (List (Case × String)) × Files
  | [], files => (.ok [], files)
  | c :: rest, files =>
      let dir := caseWorkDir root c.id
      match files.makeDirectories dir with
      | (some fault, files) => (.error (.directory dir fault.systemText), files)
      | (none, files) =>
          match prepareCases root rest files with
          | (.error e, files) => (.error e, files)
          | (.ok pairs, files) => (.ok ((c, dir) :: pairs), files)

/-- The number of workers: zero asks for as many as there are processors. -/
def workerCount (s : Settings) (processors cases : Nat) : Nat :=
  max 1 (min (if s.workers = 0 then processors else s.workers) (max 1 cases))

def conclude (s : Settings) (p : Pipeline) (pairs : List (Case × String))
    (malformed : List MalformedCase) (pool : Pool) : Except RunFault Report :=
  match pool.panicked?.bind (pairs[·]?) with
  | some (c, _) => .error (.workerPanic c.id)
  | none =>
      let elapsed := Text.total (pool.records.map (·.durationMs))
      .ok { Report.of s pool.records malformed elapsed with
        backend := p.checker.decider.name }

/-- Take loaded cases through a pipeline, with workers that take turns by a schedule, and
report on them. -/
def casesUnder (schedule : List Nat) (workers : Nat) (s : Settings) (p : Pipeline)
    (loaded : List Case) (malformed : List MalformedCase) (files : Files) :
    Except RunFault Report × Files :=
  match prepare s.workDir files with
  | (.error e, files) => (.error e, files)
  | (.ok root, files) =>
      match prepareCases root loaded files with
      | (.error e, files) => (.error e, files)
      | (.ok pairs, files) =>
          let pool := (Pool.start workers files).run p pairs schedule
          (conclude s p pairs malformed pool, pool.files)

/-- Take loaded cases through a pipeline and report on them. The workers take their turns in
order. -/
def cases (s : Settings) (p : Pipeline) (processors : Nat) (loaded : List Case)
    (malformed : List MalformedCase) (files : Files) : Except RunFault Report × Files :=
  let workers := workerCount s processors loaded.length
  casesUnder (Pool.rounds workers loaded.length) workers s p loaded malformed files

def corpus (s : Settings) (p : Pipeline) (processors : Nat) (files : Files) :
    Except RunFault Report × Files :=
  match Corpus.discover files s.corpus with
  | .error reason => (.error (.corpusRoot s.corpus reason), files)
  | .ok found =>
      let (loaded, malformed) := found.load files
      cases s p processors loaded malformed files

def writeReport (path contents : String) (files : Files) : Except RunFault Files :=
  match files.write path (Text.encode contents.toList) with
  | .ok files => .ok files
  | .error fault => .error (.reportWrite path fault.systemText)

/-- Write the report files, and then remove the directories of the cases when the
settings say so. The paths that were written come back. -/
def publish (s : Settings) (r : Report) (files : Files) : Except RunFault (List String) × Files :=
  match files.makeDirectories s.reportDir with
  | (some fault, files) => (.error (.directory s.reportDir fault.systemText), files)
  | (none, files) =>
      let documentPath := joinPath s.reportDir "report.json"
      let summaryPath := joinPath s.reportDir "summary.txt"
      match writeReport documentPath r.document files with
      | .error e => (.error e, files)
      | .ok files =>
          match writeReport summaryPath r.summary files with
          | .error e => (.error e, files)
          | .ok files =>
              let (kept?, files) :=
                if s.clean then files.removeDirectory s.workDir else (none, files)
              match kept? with
              | none => (.ok [documentPath, summaryPath], files)
              | some fault => (.error (.directory s.workDir fault.systemText), files)

end Run
end Bench
end BitEquiv
