import BitEquiv.Bench.Pool
import BitEquiv.Proofs.Bench.Pipeline
import Mathlib.Algebra.GroupWithZero.Nat

/-!
# Every interleaving of a pool

Whoever's turn it is, every claimed case is with exactly one worker until it is called, and
every call has its message with exactly one worker until it is sent. A worker stops when no
case is left, or after its own notice is in the channel. Each turn brings the pool nearer to
its end, so no schedule keeps a worker going for ever.
-/

namespace BitEquiv
namespace Bench

open Execution (Files)

/-- Calls in a row, each on the files that those before it left. -/
inductive Performed (p : Pipeline) (pairs : List (Case × String)) (files : Files) :
    List Call → Files → Prop where
  | none : Performed p pairs files [] files
  | call {calls : List Call} {files₁ files₂ : Files} {index : Nat} {c : Case} {workDir : String}
      {result : Option CaseRecord} (h : Performed p pairs files calls files₁)
      (hpair : pairs[index]? = some (c, workDir))
      (hcall : p.process c workDir files₁ = (result, files₂)) :
      Performed p pairs files (calls ++ [⟨index, result⟩]) files₂

theorem Performed.exists_of_mem {p : Pipeline} {pairs : List (Case × String)} {files files' : Files}
    {calls : List Call} (h : Performed p pairs files calls files') {call : Call}
    (hcall : call ∈ calls) :
    ∃ c workDir files₁, pairs[call.index]? = some (c, workDir) ∧
      (p.process c workDir files₁).1 = call.result := by
  induction h with
  | none => cases hcall
  | call _ hpair hprocess ih =>
      rcases List.mem_append.mp hcall with hmem | hmem
      · exact ih hmem
      · cases List.mem_singleton.mp hmem
        exact ⟨_, _, _, hpair, congrArg Prod.fst hprocess⟩

namespace Worker

def index? : Worker → Option Nat
  | processes index _ _ => some index
  | _ => none

def message? : Worker → Option Message
  | sends m => some m
  | _ => none

def turnsLeft : Worker → Nat
  | claims => 1
  | processes .. => 3
  | sends _ => 2
  | stopped => 0

theorem claiming_of_none {pairs : List (Case × String)} {index : Nat}
    (h : pairs[index]? = none) : claiming pairs index = .stopped := by
  unfold claiming
  rw [h]

theorem claiming_of_some {pairs : List (Case × String)} {index : Nat} {c : Case}
    {workDir : String} (h : pairs[index]? = some (c, workDir)) :
    claiming pairs index = .processes index c workDir := by
  unfold claiming
  rw [h]

theorem index?_sending (m : Message) : (sending m).index? = none := by
  cases m <;> rfl

theorem message?_sending (m : Message) : (sending m).message? = none := by
  cases m <;> rfl

theorem turnsLeft_pos {x : Worker} (h : x.isStopped = false) : 0 < x.turnsLeft := by
  cases x with
  | stopped => cases h
  | _ => exact Nat.succ_pos _

end Worker

/-!
## One worker among others
-/

section OneWorker

variable {α β : Type}

theorem filterMap_cons_toList (f : α → Option β) (a : α) (l : List α) :
    (a :: l).filterMap f = (f a).toList ++ l.filterMap f := by
  rw [List.filterMap_cons]
  cases f a <;> rfl

/-- What a place held before stands against what it holds now. -/
theorem filterMap_set {f : α → Option β} {l : List α} {w : Nat} {x : α} (hx : l[w]? = some x)
    (y : α) : ((f x).toList ++ (l.set w y).filterMap f).Perm ((f y).toList ++ l.filterMap f) := by
  induction l generalizing w with
  | nil => cases hx
  | cons z l ih =>
      cases w with
      | zero =>
          cases hx
          rw [List.set_cons_zero, filterMap_cons_toList, filterMap_cons_toList, ← List.append_assoc,
            ← List.append_assoc]
          exact List.perm_append_comm.append_right _
      | succ w =>
          rw [List.set_cons_succ, filterMap_cons_toList, filterMap_cons_toList]
          refine (List.perm_append_comm_assoc _ _ _).trans ?_
          refine ((ih hx).append_left (f z).toList).trans ?_
          exact List.perm_append_comm_assoc _ _ _

theorem sum_set {f : α → Nat} {l : List α} {w : Nat} {x : α} (hx : l[w]? = some x) (y : α) :
    ((l.set w y).map f).sum + f x = (l.map f).sum + f y := by
  induction l generalizing w with
  | nil => cases hx
  | cons z l ih =>
      cases w with
      | zero =>
          cases hx
          simp only [List.set_cons_zero, List.map_cons, List.sum_cons]
          omega
      | succ w =>
          have hrest := ih hx
          simp only [List.set_cons_succ, List.map_cons, List.sum_cons]
          omega

end OneWorker

namespace Pool

variable {p : Pipeline} {pairs : List (Case × String)} {files : Files} {pool : Pool}

/-!
## What a turn preserves
-/

/-- Every case below the counter was called or is with a worker, and every call was sent or is
with a worker. -/
structure Invariant (p : Pipeline) (pairs : List (Case × String)) (files : Files) (pool : Pool) :
    Prop where
  performed : Performed p pairs files pool.calls pool.files
  claimed : (pool.calls.map Call.index ++ pool.workers.filterMap Worker.index?).Perm
    (List.range (min pool.next pairs.length))
  underway : ∀ index c workDir, .processes index c workDir ∈ pool.workers →
    pairs[index]? = some (c, workDir)
  sent : (pool.channel ++ pool.workers.filterMap Worker.message?).Perm
    (pool.calls.map Call.message)
  stopped : .stopped ∈ pool.workers →
    pairs.length ≤ pool.next ∨ ∃ index, .panicked index ∈ pool.channel

theorem invariant_start (p : Pipeline) (pairs : List (Case × String)) (workers : Nat)
    (files : Files) : Invariant p pairs files (start workers files) := by
  have hnone : ∀ {β : Type} (f : Worker → Option β), f .claims = none →
      (List.replicate workers Worker.claims).filterMap f = [] := by
    intro β f hf
    rw [List.filterMap_replicate_of_none hf]
  constructor
  case performed => exact .none
  case claimed =>
    show ([] ++ (List.replicate workers Worker.claims).filterMap Worker.index?).Perm _
    rw [hnone Worker.index? rfl, start, Nat.zero_min]
    exact .nil
  case underway =>
    intro index c workDir h
    cases (List.mem_replicate.mp h).2
  case sent =>
    show ([] ++ (List.replicate workers Worker.claims).filterMap Worker.message?).Perm _
    rw [hnone Worker.message? rfl]
    exact .nil
  case stopped =>
    intro h
    cases (List.mem_replicate.mp h).2

theorem Invariant.claim (h : Invariant p pairs files pool) {w : Nat}
    (hw : pool.workers[w]? = some .claims) :
    Invariant p pairs files { pool with
      next := pool.next + 1
      workers := pool.workers.set w (.claiming pairs pool.next) } := by
  have hindices := filterMap_set (f := Worker.index?) hw (.claiming pairs pool.next)
  have hmessages := filterMap_set (f := Worker.message?) hw (.claiming pairs pool.next)
  cases hpair : pairs[pool.next]? with
  | none =>
      have hdone : pairs.length ≤ pool.next := List.getElem?_eq_none_iff.mp hpair
      rw [Worker.claiming_of_none hpair] at hindices hmessages ⊢
      refine ⟨h.performed, ?_, ?_, (hmessages.append_left _).trans h.sent, fun _ => Or.inl ?_⟩
      · -- The counter goes on past the last case, and nothing is claimed by that.
        show (pool.calls.map Call.index ++ _).Perm (List.range (min (pool.next + 1) pairs.length))
        rw [Nat.min_eq_right (by omega), ← Nat.min_eq_right hdone]
        exact (hindices.append_left _).trans h.claimed
      · intro index c workDir hmem
        rcases List.mem_or_eq_of_mem_set hmem with hmem | ⟨⟨⟩⟩
        exact h.underway index c workDir hmem
      · exact Nat.le_succ_of_le hdone
  | some pair =>
      rcases pair with ⟨c, workDir⟩
      have hlt : pool.next < pairs.length := (List.getElem?_eq_some_iff.mp hpair).1
      rw [Worker.claiming_of_some hpair] at hindices hmessages ⊢
      refine ⟨h.performed, ?_, ?_, (hmessages.append_left _).trans h.sent, ?_⟩
      · -- The new index is the one that the range up to the counter gains.
        have hclaimed := h.claimed
        show (pool.calls.map Call.index ++ _).Perm (List.range (min (pool.next + 1) pairs.length))
        rw [Nat.min_eq_left (Nat.le_of_lt hlt)] at hclaimed
        rw [Nat.min_eq_left hlt, List.range_succ]
        refine (hindices.append_left _).trans ?_
        refine (List.perm_append_comm_assoc _ _ _).trans ?_
        exact List.perm_append_comm.trans (hclaimed.append_right _)
      · intro index c' workDir' hmem
        rcases List.mem_or_eq_of_mem_set hmem with hmem | ⟨⟨⟩⟩
        · exact h.underway index c' workDir' hmem
        · exact hpair
      · intro hmem
        rcases List.mem_or_eq_of_mem_set hmem with hmem | ⟨⟨⟩⟩
        rcases h.stopped hmem with hdone | hsent
        · omega
        · exact Or.inr hsent

theorem Invariant.process (h : Invariant p pairs files pool) {w index : Nat} {c : Case}
    {workDir : String} (hw : pool.workers[w]? = some (.processes index c workDir))
    {result : Option CaseRecord} {files' : Files}
    (hcall : p.process c workDir pool.files = (result, files')) :
    Invariant p pairs files { pool with
      workers := pool.workers.set w (.sends (Call.mk index result).message)
      calls := pool.calls ++ [⟨index, result⟩]
      files := files' } := by
  have hindices := filterMap_set (f := Worker.index?) hw (.sends (Call.mk index result).message)
  have hmessages := filterMap_set (f := Worker.message?) hw (.sends (Call.mk index result).message)
  have hpair := h.underway index c workDir (List.mem_of_getElem? hw)
  refine ⟨.call h.performed hpair hcall, ?_, ?_, ?_, ?_⟩
  · show ((pool.calls ++ [Call.mk index result]).map Call.index ++ _).Perm _
    rw [List.map_append, List.append_assoc]
    exact (hindices.append_left _).trans h.claimed
  · intro index' c' workDir' hmem
    rcases List.mem_or_eq_of_mem_set hmem with hmem | ⟨⟨⟩⟩
    exact h.underway index' c' workDir' hmem
  · show (pool.channel ++ _).Perm ((pool.calls ++ [Call.mk index result]).map Call.message)
    rw [List.map_append]
    refine (hmessages.append_left _).trans ?_
    refine (List.perm_append_comm_assoc _ _ _).trans ?_
    exact List.perm_append_comm.trans (h.sent.append_right _)
  · intro hmem
    rcases List.mem_or_eq_of_mem_set hmem with hmem | ⟨⟨⟩⟩
    exact h.stopped hmem

theorem Invariant.send (h : Invariant p pairs files pool) {w : Nat} {m : Message}
    (hw : pool.workers[w]? = some (.sends m)) :
    Invariant p pairs files { pool with
      workers := pool.workers.set w (.sending m)
      channel := pool.channel ++ [m] } := by
  have hindices := filterMap_set (f := Worker.index?) hw (.sending m)
  have hmessages := filterMap_set (f := Worker.message?) hw (.sending m)
  rw [Worker.index?_sending] at hindices
  rw [Worker.message?_sending] at hmessages
  refine ⟨h.performed, (hindices.append_left _).trans h.claimed, ?_, ?_, ?_⟩
  · intro index c workDir hmem
    rcases List.mem_or_eq_of_mem_set hmem with hmem | hsending
    · exact h.underway index c workDir hmem
    · cases m <;> cases hsending
  · show ((pool.channel ++ [m]) ++ _).Perm _
    rw [List.append_assoc]
    exact (hmessages.append_left _).trans h.sent
  · intro hmem
    rcases List.mem_or_eq_of_mem_set hmem with hmem | hsending
    · rcases h.stopped hmem with hdone | ⟨index, hindex⟩
      · exact Or.inl hdone
      · exact Or.inr ⟨index, List.mem_append_left _ hindex⟩
    · cases m with
      | done r => cases hsending
      | panicked index => exact Or.inr ⟨index, List.mem_append_right _ (List.mem_singleton.mpr rfl)⟩

theorem Invariant.turn (h : Invariant p pairs files pool) (w : Nat) :
    Invariant p pairs files (pool.turn p pairs w) := by
  unfold Pool.turn
  split
  · exact h
  · exact h
  · rename_i hw
    exact h.claim hw
  · rename_i index c workDir hw
    exact h.process hw rfl
  · rename_i m hw
    exact h.send hw

theorem Invariant.run (h : Invariant p pairs files pool) (schedule : List Nat) :
    Invariant p pairs files (pool.run p pairs schedule) := by
  induction schedule generalizing pool with
  | nil => exact h
  | cons w schedule ih => exact ih (h.turn w)

/-!
## Every schedule comes to an end
-/

/-- A bound on the turns that workers can still make use of. -/
def turnsLeft (pairs : List (Case × String)) (pool : Pool) : Nat :=
  3 * (pairs.length - pool.next) + (pool.workers.map Worker.turnsLeft).sum

theorem turnsLeft_start (pairs : List (Case × String)) (workers : Nat) (files : Files) :
    (start workers files).turnsLeft pairs = 3 * pairs.length + workers := by
  simp [turnsLeft, start, Worker.turnsLeft]

theorem turnsLeft_claim {w : Nat} (hw : pool.workers[w]? = some .claims) :
    turnsLeft pairs { pool with
      next := pool.next + 1
      workers := pool.workers.set w (.claiming pairs pool.next) } + 1 ≤ pool.turnsLeft pairs := by
  have hsum := sum_set (f := Worker.turnsLeft) hw (.claiming pairs pool.next)
  unfold turnsLeft
  cases hpair : pairs[pool.next]? with
  | none =>
      have hleft : (Worker.claiming pairs pool.next).turnsLeft = 0 := by
        rw [Worker.claiming_of_none hpair]
        rfl
      have hclaims : Worker.claims.turnsLeft = 1 := rfl
      dsimp only
      omega
  | some pair =>
      have hlt : pool.next < pairs.length := (List.getElem?_eq_some_iff.mp hpair).1
      have hleft : (Worker.claiming pairs pool.next).turnsLeft = 3 := by
        rw [Worker.claiming_of_some hpair]
        rfl
      have hclaims : Worker.claims.turnsLeft = 1 := rfl
      dsimp only
      omega

theorem turnsLeft_turn {w : Nat} {x : Worker} (hw : pool.workers[w]? = some x)
    (hx : x.isStopped = false) :
    (pool.turn p pairs w).turnsLeft pairs + 1 ≤ pool.turnsLeft pairs := by
  unfold Pool.turn
  rw [hw]
  cases x with
  | stopped => cases hx
  | claims => exact turnsLeft_claim hw
  | processes index c workDir =>
      have hsum := sum_set (f := Worker.turnsLeft) hw
        (.sends (Call.mk index (p.process c workDir pool.files).1).message)
      simp only [turnsLeft, Worker.turnsLeft] at hsum ⊢
      omega
  | sends m =>
      have hsum := sum_set (f := Worker.turnsLeft) hw (.sending m)
      have hsending : (Worker.sending m).turnsLeft ≤ 1 := by
        cases m
        · exact Nat.le_refl 1
        · exact Nat.zero_le 1
      have hsends : (Worker.sends m).turnsLeft = 2 := rfl
      unfold turnsLeft
      dsimp only
      omega

theorem turn_of_stopped {w : Nat}
    (hw : pool.workers[w]? = none ∨ pool.workers[w]? = some .stopped) :
    pool.turn p pairs w = pool := by
  unfold Pool.turn
  rcases hw with hw | hw <;> rw [hw]

theorem length_turn (w : Nat) : (pool.turn p pairs w).workers.length = pool.workers.length := by
  unfold Pool.turn
  split
  · rfl
  · rfl
  all_goals exact List.length_set

theorem length_run (schedule : List Nat) :
    (pool.run p pairs schedule).workers.length = pool.workers.length := by
  induction schedule generalizing pool with
  | nil => rfl
  | cons w schedule ih => exact ih.trans (length_turn w)

theorem turn_stopped {v w : Nat} (hv : pool.workers[v]? = some .stopped) :
    (pool.turn p pairs w).workers[v]? = some .stopped := by
  by_cases hvw : w = v
  · subst hvw
    rw [turn_of_stopped (Or.inr hv)]
    exact hv
  · unfold Pool.turn
    split
    · exact hv
    · exact hv
    all_goals exact (List.getElem?_set_ne hvw).trans hv

theorem turnsLeft_turn_le (w : Nat) :
    (pool.turn p pairs w).turnsLeft pairs ≤ pool.turnsLeft pairs := by
  cases hw : pool.workers[w]? with
  | none =>
      exact Nat.le_of_eq (by rw [turn_of_stopped (Or.inl hw)])
  | some x =>
      cases hx : x.isStopped with
      | false => exact Nat.le_of_succ_le (turnsLeft_turn hw hx)
      | true =>
          cases x <;> cases hx
          exact Nat.le_of_eq (by rw [turn_of_stopped (Or.inr hw)])

theorem run_stopped {v : Nat} (hv : pool.workers[v]? = some .stopped) (schedule : List Nat) :
    (pool.run p pairs schedule).workers[v]? = some .stopped := by
  induction schedule generalizing pool with
  | nil => exact hv
  | cons w schedule ih => exact ih (turn_stopped hv)

theorem exists_of_run {schedule : List Nat} {w : Nat} {x : Worker}
    (hw : (pool.run p pairs schedule).workers[w]? = some x) (hx : x.isStopped = false) :
    ∃ y, pool.workers[w]? = some y ∧ y.isStopped = false := by
  have hlt : w < pool.workers.length := by
    rw [← length_run (p := p) schedule]
    exact (List.getElem?_eq_some_iff.mp hw).1
  refine ⟨pool.workers[w], List.getElem?_eq_getElem hlt, ?_⟩
  cases hy : pool.workers[w] with
  | stopped =>
      have hbefore := (List.getElem?_eq_getElem hlt).trans (congrArg some hy)
      have hstopped : (pool.run p pairs schedule).workers[w]? = some .stopped :=
        run_stopped hbefore schedule
      rw [hw] at hstopped
      cases hstopped
      cases hx
  | _ => rfl

/-- A worker that has not stopped after a schedule made use of all its turns. -/
theorem turnsLeft_run {schedule : List Nat} {w : Nat} {x : Worker}
    (hw : (pool.run p pairs schedule).workers[w]? = some x) (hx : x.isStopped = false) :
    (pool.run p pairs schedule).turnsLeft pairs + schedule.count w ≤ pool.turnsLeft pairs := by
  induction schedule generalizing pool with
  | nil => exact Nat.le_refl _
  | cons u schedule ih =>
      have hrest : ((pool.turn p pairs u).run p pairs schedule).turnsLeft pairs + schedule.count w ≤
          (pool.turn p pairs u).turnsLeft pairs := ih hw
      show ((pool.turn p pairs u).run p pairs schedule).turnsLeft pairs +
        (u :: schedule).count w ≤ _
      rw [List.count_cons]
      by_cases huw : u = w
      · subst huw
        rcases exists_of_run hw hx with ⟨y, hy, hystopped⟩
        have hlt : (pool.turn p pairs u).turnsLeft pairs + 1 ≤ pool.turnsLeft pairs :=
          turnsLeft_turn hy hystopped
        rw [if_pos (beq_self_eq_true u)]
        omega
      · have hle : (pool.turn p pairs u).turnsLeft pairs ≤ pool.turnsLeft pairs :=
          turnsLeft_turn_le u
        rw [if_neg (by simpa using huw)]
        omega

theorem turnsLeft_le_of_worker {w : Nat} {x : Worker} (hw : pool.workers[w]? = some x) :
    x.turnsLeft ≤ pool.turnsLeft pairs := by
  have hsum := sum_set (f := Worker.turnsLeft) hw .stopped
  have hstopped : Worker.stopped.turnsLeft = 0 := rfl
  unfold turnsLeft
  omega

/-- A schedule in which every worker has enough turns ends the run, whatever their order. -/
theorem isFinished_of_count {workers : Nat} {schedule : List Nat}
    (h : ∀ w < workers, 3 * pairs.length + workers ≤ schedule.count w) (p : Pipeline)
    (files : Files) : ((start workers files).run p pairs schedule).isFinished = true := by
  unfold isFinished
  rw [List.all_eq_true]
  intro x hmem
  rcases List.getElem?_of_mem hmem with ⟨w, hw⟩
  cases hx : x.isStopped with
  | true => rfl
  | false =>
      have hlt : w < workers := by
        have hlength := (List.getElem?_eq_some_iff.mp hw).1
        rw [length_run] at hlength
        simpa [start] using hlength
      have hused := turnsLeft_run hw hx
      have hleft : x.turnsLeft ≤ ((start workers files).run p pairs schedule).turnsLeft pairs :=
        turnsLeft_le_of_worker hw
      have hpos := Worker.turnsLeft_pos hx
      have hcount := h w hlt
      rw [turnsLeft_start] at hused
      omega

theorem count_rounds {workers : Nat} (cases : Nat) {w : Nat} (hw : w < workers) :
    (rounds workers cases).count w = 3 * cases + workers := by
  unfold rounds
  rw [List.count_flatten, List.map_replicate, List.sum_replicate_nat, List.count_range]
  simp [hw]

/-!
## Finished runs
-/

theorem eq_stopped_of_isFinished (hfinished : pool.isFinished = true) {x : Worker}
    (hx : x ∈ pool.workers) : x = .stopped := by
  have hstopped := List.all_eq_true.mp hfinished x hx
  cases x with
  | stopped => rfl
  | _ => cases hstopped

section Finished

variable (h : Invariant p pairs files pool) (hfinished : pool.isFinished = true)

include h hfinished

/-- What came of the calls of a finished run: all their messages are in the channel, and they
were made for the first cases, once each. -/
theorem Invariant.finished :
    pool.channel.Perm (pool.calls.map Call.message) ∧
      (pool.calls.map Call.index).Perm (List.range (min pool.next pairs.length)) := by
  have hnone : ∀ {β : Type} (f : Worker → Option β), f .stopped = none →
      pool.workers.filterMap f = [] := by
    intro β f hf
    rw [List.filterMap_eq_nil_iff]
    intro x hx
    rw [eq_stopped_of_isFinished hfinished hx, hf]
  have hsent := h.sent
  have hclaimed := h.claimed
  rw [hnone Worker.message? rfl, List.append_nil] at hsent
  rw [hnone Worker.index? rfl, List.append_nil] at hclaimed
  exact ⟨hsent, hclaimed⟩

theorem Invariant.records_perm : pool.records.Perm (pool.calls.filterMap Call.result) := by
  have hperm := (h.finished hfinished).1.filterMap Message.record?
  have hresult : Message.record? ∘ Call.message = Call.result := by
    funext call
    rcases call with ⟨index, _ | r⟩ <;> rfl
  rw [List.filterMap_map, hresult] at hperm
  exact hperm

/-- The notice that is acted on is that of a call that broke off. -/
theorem Invariant.call_of_panicked {index : Nat} (hindex : pool.panicked? = some index) :
    (⟨index, none⟩ : Call) ∈ pool.calls := by
  rcases List.exists_of_findSome?_eq_some hindex with ⟨m, hm, hpanicked⟩
  rcases List.mem_map.mp ((h.finished hfinished).1.mem_iff.mp hm) with ⟨call, hcall, rfl⟩
  rcases call with ⟨_, _ | r⟩
  · cases hpanicked
    exact hcall
  · cases hpanicked

/-- Without a notice every case was called once, and no call broke off. -/
theorem Invariant.calls_of_quiet (hworkers : pool.workers ≠ []) (hquiet : pool.panicked? = none) :
    (pool.calls.map Call.index).Perm (List.range pairs.length) ∧
      ∀ call ∈ pool.calls, call.result ≠ none := by
  have hquiet := List.findSome?_eq_none_iff.mp hquiet
  rcases h.finished hfinished with ⟨hchannel, hclaimed⟩
  constructor
  · rcases List.exists_mem_of_ne_nil _ hworkers with ⟨x, hx⟩
    rcases h.stopped (eq_stopped_of_isFinished hfinished hx ▸ hx) with hdone | ⟨index, hindex⟩
    · rw [Nat.min_eq_right hdone] at hclaimed
      exact hclaimed
    · cases hquiet _ hindex
  · rintro ⟨index, result⟩ hcall (rfl : result = none)
    cases hquiet _ (hchannel.mem_iff.mpr (List.mem_map_of_mem hcall))

end Finished

end Pool
end Bench
end BitEquiv
