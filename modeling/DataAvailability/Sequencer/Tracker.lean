import DataAvailability.Codec
import Mathlib.Logic.Relation

namespace DataAvailability.Sequencer

open Codec

structure Tracker where
  stop : Bool
  timeout : Nat
  retry : Nat
  addr : Address
  url : String
  deriving DecidableEq, Repr

def newTracker (timeout retry : Nat) (trustedSequencer : Except String Address)
    (trustedSequencerURL : Except String String) : Except String Tracker := do
  let addr ← trustedSequencer
  let url ← trustedSequencerURL
  return ⟨false, timeout, retry, addr, url⟩

def Tracker.getAddr (st : Tracker) : Address := st.addr

def Tracker.setAddr (st : Tracker) (addr : Address) : Tracker := { st with addr }

def Tracker.getUrl (st : Tracker) : String := st.url

def Tracker.setUrl (st : Tracker) (url : String) : Tracker := { st with url }

structure TrackedField (α : Type) where
  get : Tracker → α
  set : Tracker → α → Tracker
  get_set : ∀ st v, get (set st v) = v
  get_stop : ∀ st, get { st with stop := true } = get st

def addrField : TrackedField Address := ⟨Tracker.getAddr, Tracker.setAddr, fun _ _ => rfl, fun _ => rfl⟩

def urlField : TrackedField String := ⟨Tracker.getUrl, Tracker.setUrl, fun _ _ => rfl, fun _ => rfl⟩

inductive SubStatus
  | live
  | failed
  | unsubscribed
  deriving DecidableEq, Repr

structure Subscription (α : Type) where
  status : SubStatus
  pending : List (Nat × α)
  deriving DecidableEq, Repr

inductive Pc
  | loop
  | retry
  | select (i : Nat)
  | returned
  deriving DecidableEq, Repr

/-- One watcher loop with what it runs against: the clock, the parent context of `Start`, the
contract's field and the subscriptions the loop opened, in order. `deadline` belongs to the
context of the current iteration. `watchCalls` and `applied` are history only: whether each
Watch call's context was live, and each event a set applied, as (subscription, emission index). -/
structure World (α : Type) where
  tracker : Tracker
  now : Nat
  parentDone : Bool
  contract : α
  emitted : Nat
  subs : List (Subscription α)
  pc : Pc
  deadline : Nat
  watchCalls : List Bool
  applied : List (Nat × Nat)
  deriving DecidableEq, Repr

variable {α : Type}

def World.init (st : Tracker) (contract : α) : World α :=
  ⟨st, 0, false, contract, 0, [], .loop, 0, [], []⟩

def World.ctxAlive (w : World α) : Bool := !w.parentDone && decide (w.now < w.deadline)

inductive Env (α : Type)
  | assign (v : α)
  | fail (i : Nat)
  | tick (d : Nat)
  | cancel
  | stop
  deriving DecidableEq, Repr

inductive Move
  | spin
  | subscribe (ok : Bool)
  | retry (ok : Bool)
  | receive (j : Nat)
  | subErr
  | timeout
  | exit
  deriving DecidableEq, Repr

inductive Label (α : Type)
  | env (e : Env α)
  | watcher (m : Move)
  deriving DecidableEq, Repr

def Subscription.emit (n : Nat) (v : α) (s : Subscription α) : Subscription α :=
  if s.status = .live then { s with pending := s.pending ++ [(n, v)] } else s

@[simp] theorem Subscription.status_emit (s : Subscription α) (n : Nat) (v : α) :
    (s.emit n v).status = s.status := by
  unfold Subscription.emit; split <;> rfl

theorem Subscription.pending_emit_of_live {s : Subscription α} (h : s.status = .live) (n : Nat)
    (v : α) : (s.emit n v).pending = s.pending ++ [(n, v)] := by
  simp [Subscription.emit, h]

theorem Subscription.pending_emit (s : Subscription α) (n : Nat) (v : α) :
    (s.emit n v).pending = s.pending ∨ (s.emit n v).pending = s.pending ++ [(n, v)] := by
  unfold Subscription.emit; split <;> simp

theorem Subscription.mem_pending_emit {s : Subscription α} {n : Nat} {v : α} {p : Nat × α}
    (hp : p ∈ (s.emit n v).pending) : p ∈ s.pending ∨ p = (n, v) := by
  rcases s.pending_emit n v with he | he <;> rw [he] at hp
  · exact .inl hp
  · simpa using hp

def World.envStep (w : World α) : Env α → Option (World α)
  | .assign v =>
    some { w with contract := v, emitted := w.emitted + 1, subs := w.subs.map (Subscription.emit w.emitted v) }
  | .fail i =>
    match w.subs[i]? with
    | some ⟨.live, _⟩ => some { w with subs := w.subs.set i ⟨.failed, []⟩ }
    | _ => none
  | .tick d => some { w with now := w.now + d }
  | .cancel => some { w with parentDone := true }
  | .stop => if w.tracker.stop then none else some { w with tracker := { w.tracker with stop := true } }

/-- A Watch call with the iteration's context, `ok` being what the client answers. A call whose
context is done fails: the RPC client returns the context's error. -/
def World.watch (w : World α) (ok : Bool) : World α :=
  { w with
    subs := if ok && w.ctxAlive then w.subs ++ [⟨.live, []⟩] else w.subs
    pc := if ok && w.ctxAlive then .select w.subs.length else .retry
    watchCalls := w.watchCalls ++ [w.ctxAlive] }

@[simp] theorem World.watch_tracker (w : World α) (ok : Bool) : (w.watch ok).tracker = w.tracker := rfl
@[simp] theorem World.watch_now (w : World α) (ok : Bool) : (w.watch ok).now = w.now := rfl
@[simp] theorem World.watch_parentDone (w : World α) (ok : Bool) :
    (w.watch ok).parentDone = w.parentDone := rfl
@[simp] theorem World.watch_contract (w : World α) (ok : Bool) : (w.watch ok).contract = w.contract := rfl
@[simp] theorem World.watch_emitted (w : World α) (ok : Bool) : (w.watch ok).emitted = w.emitted := rfl
@[simp] theorem World.watch_deadline (w : World α) (ok : Bool) : (w.watch ok).deadline = w.deadline := rfl
@[simp] theorem World.watch_applied (w : World α) (ok : Bool) : (w.watch ok).applied = w.applied := rfl

theorem World.watch_cases (w : World α) (ok : Bool) :
    (w.watch ok).subs = w.subs ∧ (w.watch ok).pc = .retry ∨
    w.ctxAlive = true ∧ (w.watch ok).subs = w.subs ++ [⟨.live, []⟩] ∧
      (w.watch ok).pc = .select w.subs.length := by
  unfold World.watch
  by_cases h : (ok && w.ctxAlive) = true
  · simp_all
  · simp_all

/-- One step of the loop of `trackAddrChanges` and `trackUrlChanges`, for the field `F`. -/
def trackChanges (F : TrackedField α) (w : World α) : Move → Option (World α)
  | .spin => if w.pc = .loop ∧ w.parentDone then some w else none
  | .subscribe ok =>
    if w.pc = .loop ∧ !w.parentDone then
      some ({ w with deadline := w.now + w.tracker.timeout }.watch ok)
    else none
  | .retry ok => if w.pc = .retry then some ({ w with now := w.now + w.tracker.retry }.watch ok) else none
  | .receive j =>
    match w.pc, w.subs[j]? with
    | .select _, some ⟨.live, (n, v) :: rest⟩ =>
      some { w with
        tracker := F.set w.tracker v, subs := w.subs.set j ⟨.live, rest⟩,
        pc := .loop, applied := w.applied ++ [(j, n)] }
    | _, _ => none
  | .subErr =>
    match w.pc with
    | .select i => if (w.subs[i]?.map (·.status)) = some .failed then some { w with pc := .loop } else none
    | _ => none
  | .timeout =>
    match w.pc with
    | .select _ => if w.ctxAlive then none else some { w with pc := .loop }
    | _ => none
  | .exit =>
    match w.pc with
    | .select i =>
      if w.tracker.stop then some { w with subs := w.subs.set i ⟨.unsubscribed, []⟩, pc := .returned }
      else none
    | _ => none

def trackAddrChanges : World Address → Move → Option (World Address) := trackChanges addrField

def trackUrlChanges : World String → Move → Option (World String) := trackChanges urlField

def step (F : TrackedField α) (w : World α) : Label α → Option (World α)
  | .env e => w.envStep e
  | .watcher m => trackChanges F w m

def run (F : TrackedField α) (w : World α) : List (Label α) → Option (World α)
  | [] => some w
  | a :: as => (step F w a).bind fun w' => run F w' as

/-- `w'` is reached from `w` by steps whose labels satisfy `ok` where they are taken. -/
def Reaches (F : TrackedField α) (ok : World α → Label α → Prop) : World α → World α → Prop :=
  Relation.ReflTransGen fun w w' => ∃ a, ok w a ∧ step F w a = some w'

def Reachable (F : TrackedField α) : World α → World α → Prop := Reaches F fun _ _ => True

def steps (F : TrackedField α) (w : World α) : List (Label α) → List (World α × Label α)
  | [] => []
  | a :: as => (w, a) :: match step F w a with
    | some w' => steps F w' as
    | none => []

variable {F : TrackedField α} {ok : World α → Label α → Prop}

theorem getElem?_set_eq_some {β : Type} {l : List β} {i k : Nat} {x s : β}
    (h : (l.set i x)[k]? = some s) : (k = i ∧ s = x) ∨ (k ≠ i ∧ l[k]? = some s) := by
  rw [List.getElem?_set] at h
  split_ifs at h with hik
  · exact .inl ⟨hik.symm, (Option.some.inj h).symm⟩
  · exact .inr ⟨Ne.symm hik, h⟩

theorem getElem?_append_singleton_eq_some {β : Type} {l : List β} {k : Nat} {x s : β}
    (h : (l ++ [x])[k]? = some s) : l[k]? = some s ∨ (k = l.length ∧ s = x) := by
  rw [List.getElem?_append] at h
  split_ifs at h with hlt
  · exact .inl h
  · obtain ⟨k', hk'⟩ : ∃ k', k - l.length = k' := ⟨_, rfl⟩
    rw [hk'] at h
    cases k' <;> simp at h
    exact .inr ⟨by omega, h.symm⟩

theorem envStep_eq_some {w w' : World α} {e : Env α} (h : w.envStep e = some w') :
    (∃ v, e = .assign v ∧ w' = { w with
      contract := v, emitted := w.emitted + 1, subs := w.subs.map (Subscription.emit w.emitted v) }) ∨
    (∃ i p, e = .fail i ∧ w.subs[i]? = some ⟨.live, p⟩ ∧
      w' = { w with subs := w.subs.set i ⟨.failed, []⟩ }) ∨
    (∃ d, e = .tick d ∧ w' = { w with now := w.now + d }) ∨
    (e = .cancel ∧ w' = { w with parentDone := true }) ∨
    (e = .stop ∧ w.tracker.stop = false ∧ w' = { w with tracker := { w.tracker with stop := true } }) := by
  cases e with
  | assign v => exact .inl ⟨v, rfl, (Option.some.inj h).symm⟩
  | fail i =>
    simp only [World.envStep] at h
    split at h
    · exact .inr (.inl ⟨i, _, rfl, ‹_›, (Option.some.inj h).symm⟩)
    · cases h
  | tick d => exact .inr (.inr (.inl ⟨d, rfl, (Option.some.inj h).symm⟩))
  | cancel => exact .inr (.inr (.inr (.inl ⟨rfl, (Option.some.inj h).symm⟩)))
  | stop =>
    simp only [World.envStep] at h
    split at h
    · cases h
    · rename_i hs
      exact .inr (.inr (.inr (.inr ⟨rfl, by simpa using hs, (Option.some.inj h).symm⟩)))

theorem trackChanges_eq_some {w w' : World α} {m : Move} (h : trackChanges F w m = some w') :
    (m = .spin ∧ w.pc = .loop ∧ w.parentDone = true ∧ w' = w) ∨
    (∃ ok, m = .subscribe ok ∧ w.pc = .loop ∧ w.parentDone = false ∧
      w' = { w with deadline := w.now + w.tracker.timeout }.watch ok) ∨
    (∃ ok, m = .retry ok ∧ w.pc = .retry ∧ w' = { w with now := w.now + w.tracker.retry }.watch ok) ∨
    (∃ i j n v rest, m = .receive j ∧ w.pc = .select i ∧ w.subs[j]? = some ⟨.live, (n, v) :: rest⟩ ∧
      w' = { w with
        tracker := F.set w.tracker v, subs := w.subs.set j ⟨.live, rest⟩,
        pc := .loop, applied := w.applied ++ [(j, n)] }) ∨
    (∃ i, m = .subErr ∧ w.pc = .select i ∧ (w.subs[i]?.map (·.status)) = some .failed ∧
      w' = { w with pc := .loop }) ∨
    (∃ i, m = .timeout ∧ w.pc = .select i ∧ w.ctxAlive = false ∧ w' = { w with pc := .loop }) ∨
    (∃ i, m = .exit ∧ w.pc = .select i ∧ w.tracker.stop = true ∧
      w' = { w with subs := w.subs.set i ⟨.unsubscribed, []⟩, pc := .returned }) := by
  cases m with
  | spin =>
    simp only [trackChanges, Option.ite_none_right_eq_some, Option.some.injEq] at h
    exact .inl ⟨rfl, h.1.1, h.1.2, h.2.symm⟩
  | subscribe ok =>
    simp only [trackChanges, Option.ite_none_right_eq_some, Option.some.injEq] at h
    exact .inr (.inl ⟨ok, rfl, h.1.1, by simpa using h.1.2, h.2.symm⟩)
  | retry ok =>
    simp only [trackChanges, Option.ite_none_right_eq_some, Option.some.injEq] at h
    exact .inr (.inr (.inl ⟨ok, rfl, h.1, h.2.symm⟩))
  | receive j =>
    simp only [trackChanges] at h
    split at h
    · exact .inr (.inr (.inr (.inl ⟨_, j, _, _, _, rfl, ‹_›, ‹_›, (Option.some.inj h).symm⟩)))
    · cases h
  | subErr =>
    simp only [trackChanges] at h
    split at h
    · simp only [Option.ite_none_right_eq_some, Option.some.injEq] at h
      exact .inr (.inr (.inr (.inr (.inl ⟨_, rfl, ‹_›, h.1, h.2.symm⟩))))
    · cases h
  | timeout =>
    simp only [trackChanges] at h
    split at h
    · split at h
      · cases h
      · rename_i hpc halive
        exact .inr (.inr (.inr (.inr (.inr (.inl ⟨_, rfl, hpc, by simpa using halive,
          (Option.some.inj h).symm⟩)))))
    · cases h
  | exit =>
    simp only [trackChanges] at h
    split at h
    · simp only [Option.ite_none_right_eq_some, Option.some.injEq] at h
      exact .inr (.inr (.inr (.inr (.inr (.inr ⟨_, rfl, ‹_›, h.1, h.2.symm⟩)))))
    · cases h

theorem Reaches.invariant {P : World α → Prop}
    (hstep : ∀ w a w', P w → ok w a → step F w a = some w' → P w') {w w' : World α}
    (h : Reaches F ok w w') (hw : P w) : P w' := by
  induction h with
  | refl => exact hw
  | tail _ hs ih =>
    obtain ⟨a, ha, hs⟩ := hs
    exact hstep _ a _ ih ha hs

theorem reaches_of_run {w w' : World α} {as : List (Label α)} (hrun : run F w as = some w')
    (hok : ∀ p ∈ steps F w as, ok p.1 p.2) : Reaches F ok w w' := by
  induction as generalizing w with
  | nil => cases hrun; exact .refl
  | cons a as ih =>
    simp only [run, Option.bind_eq_some] at hrun
    obtain ⟨w₁, h₁, hrun⟩ := hrun
    simp only [steps, h₁, List.mem_cons, forall_eq_or_imp] at hok
    exact .head ⟨a, hok.1, h₁⟩ (ih hrun hok.2)

theorem reachable_of_run {w w' : World α} {as : List (Label α)} (hrun : run F w as = some w') :
    Reachable F w w' :=
  reaches_of_run hrun fun _ _ => trivial

end DataAvailability.Sequencer
