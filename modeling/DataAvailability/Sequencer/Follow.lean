import DataAvailability.Sequencer.Tracker

namespace DataAvailability.Follow

open Codec Sequencer

variable {α : Type}

structure InOrder (subs : List (Subscription α)) (emitted : Nat) (applied : List (Nat × Nat)) : Prop where
  sorted : ∀ s ∈ subs, s.pending.Pairwise fun p q => p.1 < q.1
  pending_lt : ∀ s ∈ subs, ∀ p ∈ s.pending, p.1 < emitted
  applied_lt : ∀ q ∈ applied, q.2 < emitted
  applied_lt_pending : ∀ j s, subs[j]? = some s → ∀ q ∈ applied, q.1 = j → ∀ p ∈ s.pending, q.2 < p.1
  applied_sorted : ∀ j, (applied.filter fun q => q.1 = j).Pairwise fun q r => q.2 < r.2

theorem inOrder_nil : InOrder ([] : List (Subscription α)) 0 [] :=
  ⟨by simp, by simp, by simp, by simp, by simp⟩

theorem InOrder.emit {subs : List (Subscription α)} {e : Nat} {applied : List (Nat × Nat)}
    (h : InOrder subs e applied) (v : α) :
    InOrder (subs.map (Subscription.emit e v)) (e + 1) applied := by
  refine ⟨?_, ?_, fun q hq => Nat.lt_succ_of_lt (h.applied_lt q hq), ?_, h.applied_sorted⟩
  · simp only [List.mem_map]
    rintro _ ⟨s, hs, rfl⟩
    rcases s.pending_emit e v with hp | hp <;> rw [hp]
    · exact h.sorted s hs
    · exact List.pairwise_append.2 ⟨h.sorted s hs, by simp, by simpa using h.pending_lt s hs⟩
  · simp only [List.mem_map]
    rintro _ ⟨s, hs, rfl⟩ p hp
    rcases Subscription.mem_pending_emit hp with hp | rfl
    · exact Nat.lt_succ_of_lt (h.pending_lt s hs p hp)
    · exact Nat.lt_succ_self e
  · intro j s' hj q hq hqj p hp
    simp only [List.getElem?_map, Option.map_eq_some'] at hj
    obtain ⟨s, hs, rfl⟩ := hj
    rcases Subscription.mem_pending_emit hp with hp | rfl
    · exact h.applied_lt_pending j s hs q hq hqj p hp
    · exact h.applied_lt q hq

theorem InOrder.set_empty {subs : List (Subscription α)} {e : Nat} {applied : List (Nat × Nat)}
    (h : InOrder subs e applied) (i : Nat) (st : SubStatus) :
    InOrder (subs.set i ⟨st, []⟩) e applied := by
  refine ⟨fun s hs => ?_, fun s hs => ?_, h.applied_lt, fun j s hj => ?_, h.applied_sorted⟩
  · rcases List.mem_or_eq_of_mem_set hs with hs | rfl
    · exact h.sorted s hs
    · exact .nil
  · rcases List.mem_or_eq_of_mem_set hs with hs | rfl
    · exact h.pending_lt s hs
    · simp
  · rw [List.getElem?_set] at hj
    split_ifs at hj with hij
    · cases hj; simp
    · exact h.applied_lt_pending j s hj

theorem InOrder.append_live {subs : List (Subscription α)} {e : Nat} {applied : List (Nat × Nat)}
    (h : InOrder subs e applied) : InOrder (subs ++ [⟨.live, []⟩]) e applied := by
  refine ⟨fun s hs => ?_, fun s hs => ?_, h.applied_lt, fun j s hj => ?_, h.applied_sorted⟩
  · rcases List.mem_append.1 hs with hs | hs
    · exact h.sorted s hs
    · simp [List.mem_singleton.1 hs]
  · rcases List.mem_append.1 hs with hs | hs
    · exact h.pending_lt s hs
    · simp [List.mem_singleton.1 hs]
  · rcases Nat.lt_or_ge j subs.length with hl | hl
    · rw [List.getElem?_append_left hl] at hj
      exact h.applied_lt_pending j s hj
    · rw [List.getElem?_append_right hl] at hj
      obtain ⟨k, hk⟩ : ∃ k, j - subs.length = k := ⟨_, rfl⟩
      rw [hk] at hj
      cases k <;> simp at hj
      cases hj; simp

theorem InOrder.receive {subs : List (Subscription α)} {e : Nat} {applied : List (Nat × Nat)}
    (h : InOrder subs e applied) {j n : Nat} {v : α} {rest : List (Nat × α)}
    (hj : subs[j]? = some ⟨.live, (n, v) :: rest⟩) :
    InOrder (subs.set j ⟨.live, rest⟩) e (applied ++ [(j, n)]) := by
  have hmem := List.getElem?_mem hj
  have hsort := List.pairwise_cons.1 (h.sorted _ hmem)
  have hfirst : ∀ q ∈ applied, q.1 = j → q.2 < n :=
    fun q hq hqj => h.applied_lt_pending j _ hj q hq hqj (n, v) (List.mem_cons_self _ _)
  refine ⟨fun s hs => ?_, fun s hs => ?_, ?_, fun k s hk => ?_, fun k => ?_⟩
  · rcases List.mem_or_eq_of_mem_set hs with hs | rfl
    · exact h.sorted s hs
    · exact hsort.2
  · rcases List.mem_or_eq_of_mem_set hs with hs | rfl
    · exact h.pending_lt s hs
    · exact fun p hp => h.pending_lt _ hmem p (List.mem_cons_of_mem _ hp)
  · simp only [List.mem_append, List.mem_singleton]
    rintro q (hq | rfl)
    · exact h.applied_lt q hq
    · exact h.pending_lt _ hmem (n, v) (List.mem_cons_self _ _)
  · rw [List.getElem?_set] at hk
    simp only [List.mem_append, List.mem_singleton]
    split_ifs at hk with hjk
    · cases hk
      subst hjk
      rintro q (hq | rfl) hqj p hp
      · exact h.applied_lt_pending j _ hj q hq hqj p (List.mem_cons_of_mem _ hp)
      · exact hsort.1 p hp
    · rintro q (hq | rfl) hqk p hp
      · exact h.applied_lt_pending k s hk q hq hqk p hp
      · exact absurd hqk hjk
  · rw [List.filter_append]
    refine List.pairwise_append.2 ⟨h.applied_sorted k, ?_, ?_⟩
    · exact (List.pairwise_singleton _ _).sublist (List.filter_sublist _)
    · intro q hq r hr
      obtain ⟨hq, hqk⟩ := List.mem_filter.1 hq
      obtain ⟨hr, hrk⟩ := List.mem_filter.1 hr
      rw [List.mem_singleton.1 hr] at hrk ⊢
      simp only [decide_eq_true_eq] at hqk hrk
      exact hfirst q hq (hqk.trans hrk.symm)

theorem InOrder.watch {w : World α} (h : InOrder w.subs w.emitted w.applied) (ok : Bool) :
    InOrder (w.watch ok).subs (w.watch ok).emitted (w.watch ok).applied := by
  rcases w.watch_cases ok with ⟨hs, -⟩ | ⟨-, hs, -⟩ <;> rw [hs, World.watch_emitted, World.watch_applied]
  · exact h
  · exact h.append_live

theorem InOrder.step {F : TrackedField α} {w w' : World α} {a : Label α}
    (h : InOrder w.subs w.emitted w.applied) (hs : step F w a = some w') :
    InOrder w'.subs w'.emitted w'.applied := by
  cases a with
  | env e =>
    rcases envStep_eq_some hs with ⟨v, -, rfl⟩ | ⟨i, p, -, -, rfl⟩ | ⟨d, -, rfl⟩ | ⟨-, rfl⟩ | ⟨-, -, rfl⟩
    · exact h.emit v
    · exact h.set_empty i .failed
    all_goals exact h
  | watcher m =>
    rcases trackChanges_eq_some hs with ⟨-, -, -, rfl⟩ | ⟨ok, -, -, -, rfl⟩ | ⟨ok, -, -, rfl⟩ |
      ⟨i, j, n, v, rest, -, -, hj, rfl⟩ | ⟨i, -, -, -, rfl⟩ | ⟨i, -, -, -, rfl⟩ | ⟨i, -, -, -, rfl⟩
    · exact h
    · refine InOrder.watch ?_ ok
      exact h
    · refine InOrder.watch ?_ ok
      exact h
    · exact h.receive hj
    · exact h
    · exact h
    · exact h.set_empty i .unsubscribed

def Lossy (w : World α) : Label α → Prop
  | .env (.assign _) => ∀ s ∈ w.subs, s.status ≠ .live
  | .env (.fail i) => (w.subs.getD i ⟨.failed, []⟩).pending.isEmpty = false
  | _ => False

instance (w : World α) : (a : Label α) → Decidable (Lossy w a)
  | .env (.assign _) => inferInstanceAs (Decidable (∀ s ∈ w.subs, s.status ≠ .live))
  | .env (.fail i) =>
    inferInstanceAs (Decidable ((w.subs.getD i ⟨.failed, []⟩).pending.isEmpty = false))
  | .env (.tick _) | .env .cancel | .env .stop | .watcher _ => inferInstanceAs (Decidable False)

/-- Every live subscription's last undelivered event carries the contract's current value, and
the tracker holds that value unless a live subscription still has an event to deliver or the
loop has returned. -/
structure Synced (F : TrackedField α) (w : World α) : Prop where
  last : ∀ s ∈ w.subs, s.status = .live → ∀ p ∈ s.pending.getLast?, p.2 = w.contract
  fresh : F.get w.tracker = w.contract ∨ (∃ s ∈ w.subs, s.status = .live ∧ s.pending ≠ []) ∨
    w.pc = .returned

variable {F : TrackedField α}

theorem Synced.frame {w w' : World α} (h : Synced F w) (ht : F.get w'.tracker = F.get w.tracker)
    (hc : w'.contract = w.contract) (hs : w'.subs = w.subs) (hp : w'.pc = w.pc) : Synced F w' := by
  obtain ⟨hl, hf⟩ := h
  exact ⟨by rw [hs, hc]; exact hl, by rw [ht, hc, hs, hp]; exact hf⟩

theorem synced_init {st : Tracker} {c : α} (h : F.get st = c) : Synced F (World.init st c) :=
  ⟨by simp [World.init], .inl h⟩

theorem mem_set_of_getElem? {β : Type} {l : List β} {k i : Nat} {x y : β} (hk : l[k]? = some x)
    (hne : i ≠ k) : x ∈ l.set i y :=
  List.getElem?_mem (by rw [List.getElem?_set_ne hne, hk])

theorem last_set {w : World α} (h : Synced F w) {i : Nat} {st : SubStatus} (hst : st ≠ .live) :
    ∀ s ∈ w.subs.set i ⟨st, []⟩, s.status = .live → ∀ p ∈ s.pending.getLast?, p.2 = w.contract := by
  intro s hs hl
  rcases List.mem_or_eq_of_mem_set hs with hs | rfl
  · exact h.last s hs hl
  · exact absurd hl hst

theorem synced_assign {w : World α} (v : α) (hl : ¬ ∀ s ∈ w.subs, s.status ≠ .live) :
    Synced F { w with
      contract := v, emitted := w.emitted + 1, subs := w.subs.map (Subscription.emit w.emitted v) } := by
  push_neg at hl
  obtain ⟨s, hs, hlive⟩ := hl
  refine ⟨?_, .inr (.inl ⟨s.emit w.emitted v, List.mem_map_of_mem _ hs, ?_⟩)⟩
  · simp only [List.mem_map]
    rintro _ ⟨s', -, rfl⟩ hl' p hp
    rw [Subscription.status_emit] at hl'
    simp only [Subscription.pending_emit_of_live hl', List.getLast?_append, List.getLast?_singleton,
      Option.or_some, Option.mem_def, Option.some.injEq] at hp
    rw [← hp]
  · simp [Subscription.pending_emit_of_live hlive, hlive]

theorem Synced.fail {w : World α} (h : Synced F w) {i : Nat} {p : List (Nat × α)}
    (hi : w.subs[i]? = some ⟨.live, p⟩) (hl : p.isEmpty = true) :
    Synced F { w with subs := w.subs.set i ⟨.failed, []⟩ } := by
  refine ⟨last_set h (by decide), ?_⟩
  rcases h.fresh with h' | ⟨s, hs, hlive, hne⟩ | h'
  · exact .inl h'
  · refine .inr (.inl ⟨s, ?_, hlive, hne⟩)
    obtain ⟨k, hk⟩ := List.mem_iff_getElem?.1 hs
    refine mem_set_of_getElem? hk fun hik => hne ?_
    subst hik
    rw [hi] at hk
    cases hk
    simpa using hl
  · exact .inr (.inr h')

theorem Synced.receive {w : World α} (h : Synced F w) {j n : Nat} {v : α} {rest : List (Nat × α)}
    (hj : w.subs[j]? = some ⟨.live, (n, v) :: rest⟩) (pc : Pc) :
    Synced F { w with
      tracker := F.set w.tracker v, subs := w.subs.set j ⟨.live, rest⟩,
      pc := pc, applied := w.applied ++ [(j, n)] } := by
  have hmem := List.getElem?_mem hj
  have hlast : ∀ p ∈ ((n, v) :: rest).getLast?, p.2 = w.contract := h.last _ hmem rfl
  refine ⟨fun s hs hl => ?_, ?_⟩
  · rcases List.mem_or_eq_of_mem_set hs with hs | rfl
    · exact h.last s hs hl
    · intro p hp
      exact hlast p (by rw [List.getLast?_cons, Option.mem_def, hp]; rfl)
  · cases rest with
    | nil => exact .inl (by rw [F.get_set]; exact hlast (n, v) rfl)
    | cons r rest =>
      have hlt : j < w.subs.length := (List.getElem?_eq_some_iff.1 hj).1
      exact .inr (.inl ⟨⟨.live, r :: rest⟩, List.mem_set _ _ hlt _, rfl, List.cons_ne_nil _ _⟩)

theorem Synced.watch {w : World α} (h : Synced F w) (hpc : w.pc ≠ .returned) (ok : Bool) :
    Synced F (w.watch ok) := by
  have hsub : ∀ s ∈ (w.watch ok).subs, s ∈ w.subs ∨ s = ⟨.live, []⟩ := by
    rcases w.watch_cases ok with ⟨hs, -⟩ | ⟨-, hs, -⟩ <;> rw [hs]
    · exact fun s hs => .inl hs
    · simp
  refine ⟨fun s hs hl => ?_, ?_⟩
  · rcases hsub s hs with hs | rfl
    · exact h.last s hs hl
    · simp
  · rcases h.fresh with h' | ⟨s, hs, hlive, hne⟩ | h'
    · exact .inl h'
    · refine .inr (.inl ⟨s, ?_, hlive, hne⟩)
      rcases w.watch_cases ok with ⟨hs', -⟩ | ⟨-, hs', -⟩ <;> rw [hs'] <;> simp [hs]
    · exact absurd h' hpc

theorem Synced.toLoop {w : World α} (h : Synced F w) (hpc : w.pc ≠ .returned) :
    Synced F { w with pc := .loop } :=
  ⟨h.last, h.fresh.imp_right (Or.imp_right fun h' => absurd h' hpc)⟩

theorem Synced.step {w w' : World α} {a : Label α} (h : Synced F w) (hl : ¬ Lossy w a)
    (hs : step F w a = some w') : Synced F w' := by
  cases a with
  | env e =>
    rcases envStep_eq_some hs with ⟨v, rfl, rfl⟩ | ⟨i, p, rfl, hi, rfl⟩ | ⟨d, -, rfl⟩ | ⟨-, rfl⟩ |
      ⟨-, -, rfl⟩
    · exact synced_assign v hl
    · exact h.fail hi (by simpa [Lossy, List.getD_eq_getElem?_getD, hi] using hl)
    · exact h.frame rfl rfl rfl rfl
    · exact h.frame rfl rfl rfl rfl
    · exact h.frame (F.get_stop _) rfl rfl rfl
  | watcher m =>
    rcases trackChanges_eq_some hs with ⟨-, -, -, rfl⟩ | ⟨ok, -, hpc, -, rfl⟩ | ⟨ok, -, hpc, rfl⟩ |
      ⟨i, j, n, v, rest, -, -, hj, rfl⟩ | ⟨i, -, hpc, -, rfl⟩ | ⟨i, -, hpc, -, rfl⟩ | ⟨i, -, -, -, rfl⟩
    · exact h
    · refine Synced.watch ?_ (by simp [hpc]) ok
      exact h.frame rfl rfl rfl rfl
    · refine Synced.watch ?_ (by simp [hpc]) ok
      exact h.frame rfl rfl rfl rfl
    · exact h.receive hj .loop
    · exact h.toLoop (by simp [hpc])
    · exact h.toLoop (by simp [hpc])
    · exact ⟨last_set h (by decide), .inr (.inr rfl)⟩

theorem Synced.get_eq {w : World α} (h : Synced F w) (hpc : w.pc ≠ .returned)
    (hq : ∀ s ∈ w.subs, s.status = .live → s.pending = []) : F.get w.tracker = w.contract := by
  rcases h.fresh with h' | ⟨s, hs, hl, hne⟩ | h'
  · exact h'
  · exact absurd (hq s hs hl) hne
  · exact absurd h' hpc

theorem applied_in_order {st : Tracker} {c : α} {w : World α} (hr : Reachable F (World.init st c) w)
    (j : Nat) : (w.applied.filter fun q => q.1 = j).Pairwise fun q r => q.2 < r.2 :=
  (hr.invariant (P := fun w => InOrder w.subs w.emitted w.applied) (fun _ _ _ h _ hs => h.step hs)
    inOrder_nil).applied_sorted j

theorem get_eq_contract {st : Tracker} {c : α} {w : World α} (hc : F.get st = c)
    (hr : Reaches F (fun w a => ¬ Lossy w a) (World.init st c) w) (hpc : w.pc ≠ .returned)
    (hq : ∀ s ∈ w.subs, s.status = .live → s.pending = []) : F.get w.tracker = w.contract :=
  (hr.invariant (fun _ _ _ h hl hs => h.step hl hs) (synced_init hc)).get_eq hpc hq

theorem newTracker_ok {timeout retry : Nat} {a : Address} {u : String} {st : Tracker}
    (h : newTracker timeout retry (.ok a) (.ok u) = .ok st) : st.getAddr = a ∧ st.getUrl = u := by
  cases h
  exact ⟨rfl, rfl⟩

/-- An assignment emitted between `NewTracker`'s read and the first subscription is never
applied, though the loop then holds a live subscription with nothing undelivered; and a
subscription an earlier iteration left live hands over an older event after a newer one. -/
theorem trackAddrChanges_misses_and_reorders :
    let st : Tracker := ⟨false, 10, 1, .zero 20, ""⟩
    let a : Address := FixedBytes.setBytes 20 [1]
    let b : Address := FixedBytes.setBytes 20 [2]
    newTracker 10 1 (.ok (.zero 20)) (.ok "") = .ok st ∧
    (∃ w, run addrField (World.init st (.zero 20)) [.env (.assign a), .watcher (.subscribe true)] =
        some w ∧ w.pc = .select 0 ∧ w.subs[0]? = some ⟨.live, []⟩ ∧ w.tracker.getAddr ≠ w.contract) ∧
    (∃ w, run addrField (World.init st (.zero 20))
        [.watcher (.subscribe true), .env (.assign a), .env (.tick 10), .watcher .timeout,
          .watcher (.subscribe true), .env (.assign b), .watcher (.receive 1),
          .watcher (.subscribe true), .watcher (.receive 0), .watcher (.subscribe true)] = some w ∧
      ¬ (w.applied.map Prod.snd).Pairwise (· ≤ ·) ∧
      w.pc = .select 3 ∧ w.subs[3]? = some ⟨.live, []⟩ ∧ w.tracker.getAddr ≠ w.contract) :=
  ⟨rfl, ⟨_, rfl, rfl, rfl, by decide⟩, ⟨_, rfl, by decide, rfl, rfl, by decide⟩⟩

/-- Each loop applies the events of one subscription in emission order. And from the values
`NewTracker` read, as long as no assignment is emitted while the loop holds no live
subscription and no subscription errs with undelivered events, the tracker holds the
contract's value whenever the loop has not returned and no live subscription has an event
left to deliver. -/
theorem trackers_follow_contract :
    (∀ st c (w : World Address), Reachable addrField (World.init st c) w →
      ∀ j, (w.applied.filter fun q => q.1 = j).Pairwise fun q r => q.2 < r.2) ∧
    (∀ st c (w : World String), Reachable urlField (World.init st c) w →
      ∀ j, (w.applied.filter fun q => q.1 = j).Pairwise fun q r => q.2 < r.2) ∧
    (∀ timeout retry a u st (w : World Address), newTracker timeout retry (.ok a) (.ok u) = .ok st →
      Reaches addrField (fun w a => ¬ Lossy w a) (World.init st a) w → w.pc ≠ .returned →
      (∀ s ∈ w.subs, s.status = .live → s.pending = []) → w.tracker.getAddr = w.contract) ∧
    (∀ timeout retry a u st (w : World String), newTracker timeout retry (.ok a) (.ok u) = .ok st →
      Reaches urlField (fun w a => ¬ Lossy w a) (World.init st u) w → w.pc ≠ .returned →
      (∀ s ∈ w.subs, s.status = .live → s.pending = []) → w.tracker.getUrl = w.contract) :=
  ⟨fun _ _ _ hr => applied_in_order hr, fun _ _ _ hr => applied_in_order hr,
    fun _ _ _ _ _ _ ht => get_eq_contract (newTracker_ok ht).1,
    fun _ _ _ _ _ _ ht => get_eq_contract (newTracker_ok ht).2⟩

theorem trackers_follow_contract_one_event :
    let st : Tracker := ⟨false, 10, 1, .zero 20, ""⟩
    let a : Address := FixedBytes.setBytes 20 [1]
    ∃ (wa : World Address) (wu : World String),
      run addrField (World.init st (.zero 20))
        [.watcher (.subscribe true), .env (.assign a), .watcher (.receive 0)] = some wa ∧
      run urlField (World.init st "")
        [.watcher (.subscribe true), .env (.assign "u"), .watcher (.receive 0)] = some wu ∧
      (∀ j, (wa.applied.filter fun q => q.1 = j).Pairwise fun q r => q.2 < r.2) ∧
      (∀ j, (wu.applied.filter fun q => q.1 = j).Pairwise fun q r => q.2 < r.2) ∧
      wa.tracker.getAddr = wa.contract ∧ wu.tracker.getUrl = wu.contract := by
  intro st a
  have ht : newTracker 10 1 (.ok (.zero 20)) (.ok "") = .ok st := rfl
  have hwa : run addrField (World.init st (.zero 20))
      [.watcher (.subscribe true), .env (.assign a), .watcher (.receive 0)] = some _ := rfl
  have hwu : run urlField (World.init st "")
      [.watcher (.subscribe true), .env (.assign "u"), .watcher (.receive 0)] = some _ := rfl
  exact ⟨_, _, hwa, hwu, trackers_follow_contract.1 _ _ _ (reachable_of_run hwa),
    trackers_follow_contract.2.1 _ _ _ (reachable_of_run hwu),
    trackers_follow_contract.2.2.1 10 1 _ _ _ _ ht (reaches_of_run hwa (by decide)) (by decide)
      (by decide),
    trackers_follow_contract.2.2.2 10 1 _ _ _ _ ht (reaches_of_run hwu (by decide)) (by decide)
      (by decide)⟩

end DataAvailability.Follow
