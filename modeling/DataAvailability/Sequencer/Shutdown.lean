import DataAvailability.Sequencer.Tracker

namespace DataAvailability.Shutdown

open Codec Sequencer

variable {α : Type} {F : TrackedField α}

def Spinning (w : World α) : Prop := w.parentDone = true ∧ w.pc = .loop

theorem Spinning.step {w w' : World α} {a : Label α} (h : Spinning w) (hs : step F w a = some w') :
    Spinning w' := by
  obtain ⟨hd, hpc⟩ := h
  cases a with
  | env e =>
    rcases envStep_eq_some hs with ⟨v, -, rfl⟩ | ⟨i, p, -, -, rfl⟩ | ⟨d, -, rfl⟩ | ⟨-, rfl⟩ |
      ⟨-, -, rfl⟩ <;> exact ⟨by simp [hd], hpc⟩
  | watcher m =>
    rcases trackChanges_eq_some hs with ⟨-, -, -, rfl⟩ | ⟨ok, -, -, hd', -⟩ | ⟨ok, -, hpc', -⟩ |
      ⟨i, j, n, v, rest, -, hpc', -⟩ | ⟨i, -, hpc', -⟩ | ⟨i, -, hpc', -⟩ | ⟨i, -, hpc', -⟩
    · exact ⟨hd, hpc⟩
    · simp [hd] at hd'
    all_goals simp [hpc] at hpc'

theorem spin_of_spinning {w : World α} (h : Spinning w) : trackChanges F w .spin = some w := by
  simp [trackChanges, h.1, h.2]

def Stuck (w : World α) : Prop := w.pc = .retry ∧ w.ctxAlive = false

theorem ctxAlive_eq_false {w w' : World α} (h : w.ctxAlive = false) (hn : w.now ≤ w'.now)
    (hp : w.parentDone = true → w'.parentDone = true) (hd : w'.deadline = w.deadline) :
    w'.ctxAlive = false := by
  simp only [World.ctxAlive, Bool.and_eq_false_iff, Bool.not_eq_false', decide_eq_false_iff_not,
    not_lt] at h ⊢
  rw [hd]
  exact h.imp hp fun h => h.trans hn

theorem Stuck.step {w w' : World α} {a : Label α} (h : Stuck w) (hs : step F w a = some w') :
    Stuck w' ∧ ∃ k, w'.watchCalls = w.watchCalls ++ List.replicate k false := by
  obtain ⟨hpc, hc⟩ := h
  cases a with
  | env e =>
    rcases envStep_eq_some hs with ⟨v, -, rfl⟩ | ⟨i, p, -, -, rfl⟩ | ⟨d, -, rfl⟩ | ⟨-, rfl⟩ |
      ⟨-, -, rfl⟩
    · exact ⟨⟨hpc, hc⟩, 0, by simp⟩
    · exact ⟨⟨hpc, hc⟩, 0, by simp⟩
    · exact ⟨⟨hpc, ctxAlive_eq_false hc (Nat.le_add_right _ _) id rfl⟩, 0, by simp⟩
    · exact ⟨⟨hpc, by simp [World.ctxAlive]⟩, 0, by simp⟩
    · exact ⟨⟨hpc, hc⟩, 0, by simp⟩
  | watcher m =>
    rcases trackChanges_eq_some hs with ⟨-, hpc', -⟩ | ⟨ok, -, hpc', -⟩ | ⟨ok, -, -, rfl⟩ |
      ⟨i, j, n, v, rest, -, hpc', -⟩ | ⟨i, -, hpc', -⟩ | ⟨i, -, hpc', -⟩ | ⟨i, -, hpc', -⟩
    · simp [hpc] at hpc'
    · simp [hpc] at hpc'
    · have hc' : ({ w with now := w.now + w.tracker.retry } : World α).ctxAlive = false :=
        ctxAlive_eq_false hc (Nat.le_add_right _ _) id rfl
      exact ⟨⟨by simp [World.watch, hc'], ctxAlive_eq_false hc' le_rfl id rfl⟩, 1,
        by simp [World.watch, hc']⟩
    all_goals simp [hpc] at hpc'

theorem Spinning.reachable {w w' : World α} (h : Spinning w) (hr : Reachable F w w') :
    w'.pc = .loop ∧ trackChanges F w' .spin = some w' :=
  have h' := hr.invariant (fun _ _ _ h _ hs => h.step hs) h
  ⟨h'.2, spin_of_spinning h'⟩

theorem Stuck.reachable {w w' : World α} (h : Stuck w) (hr : Reachable F w w') :
    w'.pc = .retry ∧ ∃ k, w'.watchCalls = w.watchCalls ++ List.replicate k false := by
  refine (hr.invariant (P := fun w' => Stuck w' ∧ ∃ k, w'.watchCalls = w.watchCalls ++
    List.replicate k false) (fun _ _ _ hw _ hs => ?_) ⟨h, 0, by simp⟩).imp_left (·.1)
  obtain ⟨hst, k, hk⟩ := hw
  obtain ⟨hst', k', hk'⟩ := hst.step hs
  exact ⟨hst', k + k', by rw [hk', hk, List.replicate_add, List.append_assoc]⟩

/-- The inner select holds the last subscription the loop opened, and a subscription is
unsubscribed only once the loop has returned, and only the last one. -/
structure Held (w : World α) : Prop where
  select : ∀ i, w.pc = .select i → i + 1 = w.subs.length
  unsubscribed : ∀ i s, w.subs[i]? = some s → s.status = .unsubscribed →
    w.pc = .returned ∧ i + 1 = w.subs.length

theorem Held.frame {w w' : World α} (h : Held w) (hs : w'.subs = w.subs) (hp : w'.pc = w.pc) :
    Held w' :=
  ⟨fun i hi => hs ▸ h.select i (hp ▸ hi), fun i s hi hu => hs ▸ hp ▸ h.unsubscribed i s (hs ▸ hi) hu⟩

theorem Held.not_unsubscribed {w : World α} (h : Held w) (hpc : w.pc ≠ .returned) {i : Nat}
    {s : Subscription α} (hs : w.subs[i]? = some s) : s.status ≠ .unsubscribed :=
  fun hu => hpc (h.unsubscribed i s hs hu).1

theorem held_of_none {w : World α} (hpc : ∀ i, w.pc ≠ .select i)
    (hn : ∀ (i : Nat) (s : Subscription α), w.subs[i]? = some s → s.status ≠ .unsubscribed) : Held w :=
  ⟨fun i hi => absurd hi (hpc i), fun i s hi hu => absurd hu (hn i s hi)⟩

theorem held_watch {w : World α} (h : Held w) (hpc : w.pc ≠ .returned) (ok : Bool) :
    Held (w.watch ok) := by
  rcases w.watch_cases ok with ⟨hs, hpc'⟩ | ⟨-, hs, hpc'⟩
  · exact held_of_none (by simp [hpc']) fun k s hk => h.not_unsubscribed hpc (hs ▸ hk)
  · refine ⟨fun i hi => ?_, fun k s hk hu => ?_⟩
    · rw [hpc'] at hi
      cases hi
      simp [hs]
    · rw [hs] at hk
      rcases getElem?_append_singleton_eq_some hk with hk | ⟨-, rfl⟩
      · exact absurd hu (h.not_unsubscribed hpc hk)
      · cases hu

theorem Held.step {w w' : World α} {a : Label α} (h : Held w) (hs : step F w a = some w') :
    Held w' := by
  cases a with
  | env e =>
    rcases envStep_eq_some hs with ⟨v, -, rfl⟩ | ⟨i, p, -, -, rfl⟩ | ⟨d, -, rfl⟩ | ⟨-, rfl⟩ |
      ⟨-, -, rfl⟩
    · refine ⟨fun i hi => by simpa using h.select i hi, fun k s hk hu => ?_⟩
      simp only [List.getElem?_map, Option.map_eq_some'] at hk
      obtain ⟨s₀, hk, rfl⟩ := hk
      simpa using h.unsubscribed k s₀ hk (by simpa using hu)
    · refine ⟨fun k hk => by simpa using h.select k hk, fun k s hk hu => ?_⟩
      rcases getElem?_set_eq_some hk with ⟨-, rfl⟩ | ⟨-, hk⟩
      · cases hu
      · simpa using h.unsubscribed k s hk hu
    all_goals exact h.frame rfl rfl
  | watcher m =>
    rcases trackChanges_eq_some hs with ⟨-, -, -, rfl⟩ | ⟨ok, -, hpc, -, rfl⟩ | ⟨ok, -, hpc, rfl⟩ |
      ⟨i, j, n, v, rest, -, hpc, -, rfl⟩ | ⟨i, -, hpc, -, rfl⟩ | ⟨i, -, hpc, -, rfl⟩ |
      ⟨i, -, hpc, -, rfl⟩
    · exact h
    · refine held_watch ?_ (by simp [hpc]) ok
      exact h.frame rfl rfl
    · refine held_watch ?_ (by simp [hpc]) ok
      exact h.frame rfl rfl
    · refine held_of_none (by simp) fun k s hk => ?_
      rcases getElem?_set_eq_some hk with ⟨-, rfl⟩ | ⟨-, hk⟩
      · simp
      · exact h.not_unsubscribed (by simp [hpc]) hk
    · exact held_of_none (by simp) fun k s hk => h.not_unsubscribed (by simp [hpc]) hk
    · exact held_of_none (by simp) fun k s hk => h.not_unsubscribed (by simp [hpc]) hk
    · refine ⟨(fun _ h => nomatch h), fun k s hk hu => ?_⟩
      rcases getElem?_set_eq_some hk with ⟨rfl, -⟩ | ⟨-, hk⟩
      · exact ⟨rfl, by simpa using h.select k hpc⟩
      · exact absurd hu (h.not_unsubscribed (by simp [hpc]) hk)

variable (F) (c : α)

/-- The parent context is cancelled while the loop holds a subscription, the inner select takes
the deadline case and `Stop` is called: from there the loop spins at its outer select in every
continuation, never blocking, never returning, never unsubscribing. And `Stop` called during an
outage that outlasts `timeout` leaves the loop in the retry loop in every continuation. -/
theorem trackChanges_never_returns :
    let st : Tracker := ⟨false, 1, 1, .zero 20, ""⟩
    (∃ w, run F (World.init st c)
        [.watcher (.subscribe true), .env .cancel, .watcher .timeout, .env .stop] = some w ∧
      w.tracker.stop = true ∧ w.subs = [⟨.live, []⟩] ∧
      ∀ w', Reachable F w w' → w'.pc = .loop ∧ trackChanges F w' .spin = some w') ∧
    (∃ w, run F (World.init st c) [.watcher (.subscribe false), .env .stop, .watcher (.retry true)] =
        some w ∧ w.tracker.stop = true ∧ ∀ w', Reachable F w w' → w'.pc = .retry) :=
  ⟨⟨_, rfl, rfl, rfl, fun _ hr => Spinning.reachable (by exact ⟨rfl, rfl⟩) hr⟩,
    ⟨_, rfl, rfl, fun _ hr => (Stuck.reachable (by exact ⟨rfl, rfl⟩) hr).1⟩⟩

/-- With `timeout` no longer than `retry`, one failed attempt leaves the loop retrying with the
context it created before it, already past its deadline: the second Watch call is made with it,
and so is every later one, whatever the client answers and whatever else happens. -/
theorem trackChanges_retries_with_dead_context :
    let st : Tracker := ⟨false, 1, 1, .zero 20, ""⟩
    ∃ w, run F (World.init st c) [.watcher (.subscribe false), .watcher (.retry true)] = some w ∧
      w.watchCalls = [true, false] ∧
      ∀ w', Reachable F w w' →
        w'.pc = .retry ∧ ∃ k, w'.watchCalls = [true, false] ++ List.replicate k false :=
  ⟨_, rfl, rfl, fun _ hr => Stuck.reachable (by exact ⟨rfl, rfl⟩) hr⟩

/-- After an event, or after the deadline, the loop subscribes again while the subscription it
held is still live; the stop case unsubscribes only the last one, so the loop returns, and
closes its events channel, with an earlier subscription still live. -/
theorem trackAddrChanges_keeps_earlier_subscription :
    let st : Tracker := ⟨false, 10, 1, .zero 20, ""⟩
    let a : Address := FixedBytes.setBytes 20 [1]
    (∃ w, run addrField (World.init st (.zero 20)) [.watcher (.subscribe true), .env (.assign a),
        .watcher (.receive 0), .watcher (.subscribe true)] = some w ∧
      w.subs.map (·.status) = [.live, .live]) ∧
    (∃ w, run addrField (World.init st (.zero 20)) [.watcher (.subscribe true), .env (.tick 10),
        .watcher .timeout, .watcher (.subscribe true)] = some w ∧
      w.subs.map (·.status) = [.live, .live]) ∧
    (∃ w, run addrField (World.init st (.zero 20)) [.watcher (.subscribe true), .env (.assign a),
        .watcher (.receive 0), .watcher (.subscribe true), .env .stop, .watcher .exit] = some w ∧
      w.pc = .returned ∧ w.subs.map (·.status) = [.live, .unsubscribed]) :=
  ⟨⟨_, rfl, rfl⟩, ⟨_, rfl, rfl⟩, ⟨_, rfl, rfl, rfl⟩⟩

end DataAvailability.Shutdown
