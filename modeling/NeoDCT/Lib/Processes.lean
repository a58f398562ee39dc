import Mathlib

/-!
# Child processes

The children that a program has spawned, by number, and what a Unix kernel does to them.  Between two
calls of the program anything may happen to them: `settle` ends the ones that a `Chance` names.  A
SIGTERM is one reason for a running process to end, at the next call or later or never.  It is not
delivered to a stopped one: of those only the ones that something else kills end.

`OnlyAlive o procs` says that no child but `o` is alive, running or stopped.
-/

namespace Processes

inductive Status where
  | running | stopped
  /-- It has ended, and its parent has not looked yet. -/
  | zombie
  | reaped
deriving DecidableEq, Repr

def Status.alive : Status → Bool
  | .running | .stopped => true
  | .zombie | .reaped => false

structure Chance where
  /-- Running processes that end. -/
  exits : List Nat
  /-- Processes that something kills. -/
  killed : List Nat
  /-- Whether the call that comes next fails. -/
  fails : Bool

def Status.settle (c : Chance) (pid : Nat) : Status → Status
  | .running => if pid ∈ c.exits ∨ pid ∈ c.killed then .zombie else .running
  | .stopped => if pid ∈ c.killed then .zombie else .stopped
  | .zombie => .zombie
  | .reaped => .reaped

def settle (c : Chance) (procs : List Status) : List Status :=
  procs.mapIdx fun pid st => st.settle c pid

/-- SIGKILL. -/
def Status.kill (st : Status) : Status := if st.alive then .zombie else st

/-- SIGSTOP. -/
def Status.stop : Status → Status
  | .running => .stopped
  | st => st

/-- SIGCONT. -/
def Status.continue : Status → Status
  | .stopped => .running
  | st => st

/-- `waitpid`. -/
def Status.reap : Status → Status
  | .zombie => .reaped
  | st => st

def OnlyAlive (o : Option Nat) (procs : List Status) : Prop :=
  ∀ pid st, procs[pid]? = some st → st.alive = true → o = some pid

variable {o : Option Nat} {procs : List Status} {pid : Nat} {f : Status → Status}

theorem OnlyAlive.nil (o : Option Nat) : OnlyAlive o [] := by
  intro pid st h
  simp at h

theorem OnlyAlive.some (h : OnlyAlive none procs) (o : Option Nat) : OnlyAlive o procs := by
  intro pid st hst halive
  cases h pid st hst halive

/-- Two children that are alive are one. -/
theorem OnlyAlive.unique (h : OnlyAlive o procs) {p q : Nat} {st st' : Status}
    (hp : procs[p]? = Option.some st) (hq : procs[q]? = Option.some st') (halive : st.alive = true)
    (halive' : st'.alive = true) : p = q := by
  have h₁ := h p st hp halive
  have h₂ := h q st' hq halive'
  rw [h₁] at h₂
  exact Option.some.inj h₂

theorem alive_settle {c : Chance} {st : Status} (h : (st.settle c pid).alive = true) :
    st.alive = true := by
  cases st with
  | running => rfl
  | stopped => rfl
  | zombie => exact h
  | reaped => exact h

/-- Only its parent reaps a process. -/
theorem not_reaped_settle {c : Chance} (h : procs[pid]? ≠ Option.some .reaped) :
    (settle c procs)[pid]? ≠ Option.some .reaped := by
  intro hreaped
  unfold settle at hreaped
  rw [List.getElem?_mapIdx] at hreaped
  obtain ⟨st, hst, hsettle⟩ := Option.map_eq_some_iff.mp hreaped
  refine h ?_
  rw [hst]
  cases st with
  | running =>
    simp only [Status.settle] at hsettle
    split at hsettle <;> simp at hsettle
  | stopped =>
    simp only [Status.settle] at hsettle
    split at hsettle <;> simp at hsettle
  | zombie => simp [Status.settle] at hsettle
  | reaped => rfl

/-- Nothing comes back to life. -/
theorem OnlyAlive.settle (h : OnlyAlive o procs) (c : Chance) : OnlyAlive o (settle c procs) := by
  intro pid st hst halive
  unfold Processes.settle at hst
  rw [List.getElem?_mapIdx] at hst
  obtain ⟨st₀, hst₀, rfl⟩ := Option.map_eq_some_iff.mp hst
  exact h pid st₀ hst₀ (alive_settle halive)

/-- Nor through a signal. -/
theorem OnlyAlive.modify (h : OnlyAlive o procs) (hf : ∀ st, (f st).alive = true → st.alive = true) :
    OnlyAlive o (procs.modify pid f) := by
  intro q st hst halive
  rw [List.getElem?_modify] at hst
  obtain ⟨st₀, hst₀, rfl⟩ := Option.map_eq_some_iff.mp hst
  refine h q st₀ hst₀ ?_
  split at halive
  · exact hf _ halive
  · exact halive

theorem alive_kill (st : Status) : st.kill.alive = false := by
  cases st <;> rfl

theorem alive_of_stop {st : Status} (h : st.stop.alive = true) : st.alive = true := by
  cases st <;> first | rfl | exact h

theorem alive_of_continue {st : Status} (h : st.continue.alive = true) : st.alive = true := by
  cases st <;> first | rfl | exact h

theorem alive_reap (st : Status) : st.reap.alive = st.alive := by
  cases st <;> rfl

/-- SIGKILL ends any process. -/
theorem OnlyAlive.kill (h : OnlyAlive (Option.some pid) procs) :
    OnlyAlive none (procs.modify pid Status.kill) := by
  intro q st hst halive
  rw [List.getElem?_modify] at hst
  obtain ⟨st₀, hst₀, rfl⟩ := Option.map_eq_some_iff.mp hst
  by_cases hq : pid = q
  · simp only [hq, if_true] at halive
    rw [alive_kill] at halive
    cases halive
  · simp only [if_neg hq] at halive
    exact absurd (Option.some.inj (h q st₀ hst₀ halive)) hq

/-- The only child alive is not. -/
theorem OnlyAlive.ended (h : OnlyAlive (Option.some pid) procs)
    (hended : ∀ st, procs[pid]? = Option.some st → st.alive = false) : OnlyAlive none procs := by
  intro q st hst halive
  obtain rfl := Option.some.inj (h q st hst halive)
  rw [hended st hst] at halive
  cases halive

theorem OnlyAlive.spawn (h : OnlyAlive none procs) :
    OnlyAlive (Option.some procs.length) (procs ++ [.running]) := by
  intro q st hst halive
  by_cases hq : q < procs.length
  · rw [List.getElem?_append_left hq] at hst
    cases h q st hst halive
  · rw [List.getElem?_append_right (by omega)] at hst
    have hone : q - procs.length < 1 := by
      simpa using (List.getElem?_eq_some_iff.mp hst).1
    congr
    omega

end Processes
